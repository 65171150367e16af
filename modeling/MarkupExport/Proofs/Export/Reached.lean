import MarkupExport.Proofs.Export.Renders
import MarkupExport.Proofs.Footnote.Definitions
import MarkupExport.Proofs.Node.Enclosing

/-!
The nodes that an export can come to, whatever the order in which footnotes are met: those that it
finds inside the nodes it enters, and the contents of the footnotes that these refer to. The list
around a node is read off the tree here; an export carries its kind along.
-/

namespace MarkupExport

namespace Node

/-- It is for the policy of the profile to say what becomes of the node. -/
structure Judged (node : Node) (options : ExportOptions) : Prop where
  shown : ¬ (options.visibleOnly = true ∧ node.flag "hidden" = true)
  marked : node.kind ≠ .plainText

structure Entered (node : Node) (options : ExportOptions) (profile : Profile) : Prop
    extends node.Judged options where
  kept : profile.policy node.kind ≠ .skip

instance (node : Node) (options : ExportOptions) (profile : Profile) :
    Decidable (node.Entered options profile) :=
  decidable_of_iff
    (¬ (options.visibleOnly = true ∧ node.flag "hidden" = true) ∧ node.kind ≠ .plainText ∧
      profile.policy node.kind ≠ .skip)
    ⟨fun parts => ⟨⟨parts.1, parts.2.1⟩, parts.2.2⟩,
      fun entered => ⟨entered.shown, entered.marked, entered.kept⟩⟩

/-- What is known of a node before anything inside it is looked at: it is passed over, refused, or
entered. -/
theorem entry_cases (setting : Setting) (node : Node) :
    (¬ node.Entered setting.options setting.profile ∧
        ∃ text, setting.entry node = .settled (.ok text) ∧
          (text = "" ∨ ∃ plain, text = setting.profile.text.render plain)) ∨
      (node.Judged setting.options ∧ setting.profile.policy node.kind = .fail ∧
        ∃ error, setting.entry node = .settled (.error error)) ∨
      (node.Entered setting.options setting.profile ∧
        ∃ handler, setting.profile.policy node.kind = .handle handler ∧
          setting.entry node = .entered handler) := by
  rw [Setting.entry]
  by_cases hidden : (setting.options.visibleOnly && node.flag "hidden") = true
  · rw [if_pos hidden]
    refine .inl ⟨fun entered => entered.shown ?_, "", rfl, .inl rfl⟩
    simpa using hidden
  · rw [if_neg hidden]
    by_cases plain : node.kind = .plainText
    · rw [if_pos plain]
      exact .inl ⟨fun entered => entered.marked plain, _, rfl, .inr ⟨_, rfl⟩⟩
    · rw [if_neg plain]
      have judged : node.Judged setting.options := ⟨by simpa using hidden, plain⟩
      cases policy : setting.profile.policy node.kind with
      | skip => exact .inl ⟨fun entered => entered.kept policy, "", rfl, .inl rfl⟩
      | fail => exact .inr (.inl ⟨judged, rfl, _, rfl⟩)
      | handle handler => exact .inr (.inr ⟨⟨judged, by simp [policy]⟩, handler, rfl, rfl⟩)

theorem entered_of_entry {setting : Setting} {node : Node} {handler : Handler}
    (entry : setting.entry node = .entered handler) :
    node.Entered setting.options setting.profile ∧
      setting.profile.policy node.kind = .handle handler := by
  rcases node.entry_cases setting with
    ⟨_, _, passed, _⟩ | ⟨_, _, _, refused⟩ | ⟨entered, _, policy, own⟩
  · cases passed.symm.trans entry
  · cases refused.symm.trans entry
  · cases own.symm.trans entry
    exact ⟨entered, policy⟩

theorem not_entered_of_entry {setting : Setting} {node : Node} {text : String}
    (entry : setting.entry node = .settled (.ok text)) :
    ¬ node.Entered setting.options setting.profile := by
  rcases node.entry_cases setting with ⟨passed, _⟩ | ⟨_, _, _, refused⟩ | ⟨_, _, _, handled⟩
  · exact passed
  · cases refused.symm.trans entry
  · cases handled.symm.trans entry

/-- An export of the tree can come to the node, and this is the innermost list around it, within
the footnote definition that holds it, if one does. -/
inductive Reached (tree : Node) (options : ExportOptions) (profile : Profile) :
    Option Node → Node → Prop
  | root : Reached tree options profile none tree
  | child {enclosing node child} : Reached tree options profile enclosing node →
      node.Entered options profile → child ∈ node.children →
      Reached tree options profile (node.enclosingParts enclosing) child
  | title {enclosing headline values title} : Reached tree options profile enclosing headline →
      headline.Entered options profile → headline.kind = .headline →
      headline.flag "footnote_section" = false → headline.nodesProperty? "title" = some values →
      title ∈ values → Reached tree options profile enclosing title
  | term {list item values term} : Reached tree options profile (some list) item →
      item.Entered options profile → item.kind = .item →
      list.textProperty? "kind" = some "descriptive" → item.nodesProperty? "tag" = some values →
      term ∈ values → Reached tree options profile (some list) term
  | footnote {enclosing reference label definition child} :
      Reached tree options profile enclosing reference → reference.Entered options profile →
      reference.kind = .footnoteReference → reference.textProperty? "label" = some label →
      (tree.walk.find? fun node => node.Defines label) = some definition →
      child ∈ definition.children → Reached tree options profile none child

theorem Reached.occurs {tree node : Node} {options : ExportOptions} {profile : Profile}
    {enclosing : Option Node} (reached : Reached tree options profile enclosing node) :
    Occurs tree enclosing node := by
  induction reached with
  | root => exact .root
  | child _ _ member induction => exact induction.part (mem_parts_of_child member)
  | @title enclosing headline _ _ _ _ kind _ found member induction =>
      have inside := induction.part (mem_parts_of_nodesProperty found member)
      have around : headline.enclosingParts enclosing = enclosing := by
        simp [enclosingParts, kind]
      rwa [around] at inside
  | @term list item _ _ _ _ kind _ found member induction =>
      have inside := induction.part (mem_parts_of_nodesProperty found member)
      have around : item.enclosingParts (some list) = some list := by
        simp [enclosingParts, kind]
      rwa [around] at inside
  | @footnote _ _ label definition child _ _ _ _ found member induction =>
      rcases Occurs.root.of_mem_walk (List.mem_of_find?_eq_some found) with ⟨innermost, occurs⟩
      have defines : definition.Defines label := by simpa using List.find?_some found
      have inside := occurs.part (mem_parts_of_child member)
      have around : definition.enclosingParts innermost = none := by
        simp [enclosingParts, defines.1]
      rwa [around] at inside

/-! ## Lists and scopes -/

/-- The scope is the kind of this list, if there is one. Without a list the scope does not matter,
for then the node is no item. -/
def Fits (enclosing : Option Node) (scope : Option ListKind) : Prop :=
  ∀ list, enclosing = some list → scope = (list.textProperty? "kind").bind ListKind.ofName?

theorem Fits.inner {enclosing : Option Node} {scope : Option ListKind} (fits : Fits enclosing scope)
    (node : Node) : Fits (node.enclosingParts enclosing) (Export.innerScope scope node) := by
  intro list around
  rw [enclosingParts] at around
  rw [Export.innerScope]
  by_cases isList : node.kind = .list
  · rw [if_pos isList] at around ⊢
    cases around
    rfl
  · rw [if_neg isList] at around ⊢
    by_cases definition : node.kind = .footnoteDefinition
    · rw [if_pos definition] at around
      cases around
    · rw [if_neg definition] at around
      exact fits list around

theorem Fits.of_none (scope : Option ListKind) : Fits none scope := by
  intro list around
  cases around

section Leading

variable {node value : Node} {scope : Option ListKind}

theorem mem_leadingNodes_headline (kind : node.kind = .headline) :
    value ∈ node.leadingNodes scope ↔ node.flag "footnote_section" = false ∧
      ∃ values, node.nodesProperty? "title" = some values ∧ value ∈ values := by
  rw [leadingNodes, leading?, Export.leadingProperty?, kind]
  cases node.flag "footnote_section" with
  | true => simp
  | false => cases found : node.nodesProperty? "title" <;> simp [found]

theorem mem_leadingNodes_item (kind : node.kind = .item) :
    value ∈ node.leadingNodes scope ↔ scope = some .descriptive ∧
      ∃ values, node.nodesProperty? "tag" = some values ∧ value ∈ values := by
  rw [leadingNodes, leading?, Export.leadingProperty?, kind]
  by_cases descriptive : scope = some .descriptive
  · cases found : node.nodesProperty? "tag" <;> simp [descriptive, found]
  · simp [descriptive]

theorem leadingNodes_other (noHeadline : node.kind ≠ .headline) (noItem : node.kind ≠ .item) :
    node.leadingNodes scope = [] := by
  rw [leadingNodes, leading?, Export.leadingProperty?]
  cases kind : node.kind <;> simp_all

theorem renderedLeading_of_mem (inside : value ∈ node.leadingNodes scope) (text : String) :
    node.kind = .headline ∧ node.flag "footnote_section" = false ∧
        node.renderedLeading scope text = [("title", text)] ∨
      node.kind = .item ∧ scope = some .descriptive ∧
        node.renderedLeading scope text = [("tag", text)] := by
  by_cases headline : node.kind = .headline
  · rcases (mem_leadingNodes_headline headline).mp inside with ⟨kept, values, found, _⟩
    have own : node.renderedLeading scope text = [("title", text)] := by
      simp [renderedLeading, leading?, Export.leadingProperty?, headline, kept, found]
    exact .inl ⟨headline, kept, own⟩
  · by_cases item : node.kind = .item
    · rcases (mem_leadingNodes_item item).mp inside with ⟨descriptive, values, found, _⟩
      have own : node.renderedLeading scope text = [("tag", text)] := by
        simp [renderedLeading, leading?, Export.leadingProperty?, item, descriptive, found]
      exact .inr ⟨item, descriptive, own⟩
    · rw [leadingNodes_other headline item] at inside
      cases inside

end Leading

end Node

end MarkupExport
