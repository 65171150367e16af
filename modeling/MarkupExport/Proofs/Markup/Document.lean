import Mathlib.Control.Monad.Basic
import MarkupExport.Proofs.Export.Execution
import MarkupExport.Proofs.Export.Reached
import MarkupExport.Proofs.Markup.Rules

/-!
Whatever the HTML profile exports is well-formed. Fragments are kept along the way: the terms and
titles beside a node, and the footnotes in the register, which come to light again after the body.
-/

namespace MarkupExport

namespace Html

/-- No source block in the tree holds a reserved character. -/
def SourcesFree (tree : Node) : Prop :=
  ∀ node ∈ tree.walk, node.kind = .sourceBlock → SourceFree node

instance (tree : Node) : Decidable (SourcesFree tree) :=
  inferInstanceAs (Decidable (∀ node ∈ tree.walk, node.kind = .sourceBlock → SourceFree node))

theorem SourcesFree.part {node part : Node} (free : SourcesFree node) (inside : part ∈ node.parts) :
    SourcesFree part :=
  fun inner member => free inner (Node.mem_walk_of_part inside member)

theorem SourcesFree.definition {tree definition : Node} (free : SourcesFree tree) {label : String}
    (found : (FootnoteDefinitions.ofTree tree).get? label = some definition) :
    SourcesFree definition := by
  rw [FootnoteDefinitions.get?_ofTree] at found
  intro inner member
  exact free inner (Node.mem_walk_trans (List.mem_of_find?_eq_some found) member)

/-- The footnotes that have texts have well-formed ones. -/
def TextsMarkup (register : FootnoteRegister) : Prop :=
  ∀ number note, register.text? number = some note → IsMarkup note

theorem TextsMarkup.define {register : FootnoteRegister} (texts : TextsMarkup register)
    {number : Nat} {body : String} (markup : IsMarkup body) :
    TextsMarkup (register.define number body) := by
  intro other note found
  rw [FootnoteRegister.text?_define] at found
  split at found
  · cases kept : register.text? number with
    | none =>
        rw [kept] at found
        cases found
        exact markup.trimmed
    | some earlier =>
        rw [kept] at found
        cases found
        exact texts number earlier kept
  · exact texts other note found

/-- What a task needs in order to make well-formed HTML. -/
def Prepared : Task → Prop
  | .node node => SourcesFree node
  | .nodes nodes => ∀ node ∈ nodes, SourcesFree node
  | .handle node secondary contents handler => SourcesFree node ∧
      (∀ entry ∈ secondary, IsMarkup entry.2) ∧ IsMarkup contents ∧
      Profile.htmlPolicy node.kind = .handle handler
  | .mark _ => True

theorem markup_mark (number : Nat) : IsMarkup (footnoteMark number) :=
  (IsMarkup.caret.append (.repr number)).append .blank

theorem markup_renderedLeading {node : Node} {scope : Option ListKind} {text : String}
    (markup : IsMarkup text) : ∀ entry ∈ node.renderedLeading scope text, IsMarkup entry.2 := by
  intro entry member
  rw [Node.renderedLeading] at member
  split at member
  · rw [List.mem_singleton.mp member]
    exact markup
  · cases member

theorem kind_of_sourceBlock {kind : NodeKind}
    (handled : Profile.htmlPolicy kind = .handle (.rule .sourceBlock)) : kind = .sourceBlock := by
  cases kind <;> first | rfl | cases handled

section Run

variable {setting : Setting} (dialect : setting.profile = .html)

include dialect

theorem markup_settled {node : Node} {text : String}
    (entry : setting.entry node = .settled (.ok text)) : IsMarkup text := by
  rcases node.entry_cases setting with
    ⟨_, own, passed, written⟩ | ⟨_, _, _, refused⟩ | ⟨_, _, _, entered⟩
  · cases passed.symm.trans entry
    rcases written with rfl | ⟨plain, rfl⟩
    · exact .empty
    · rw [dialect]
      exact .escaped plain
  · cases refused.symm.trans entry
  · cases entered.symm.trans entry

/-- A success is well-formed, and so is all that it leaves in the register. -/
theorem markup_of_renders
    (definitions : ∀ label definition, setting.definitions.get? label = some definition →
      SourcesFree definition)
    {scope : Option ListKind} {task : Task} {before after : FootnoteRegister}
    {text : String} {claims : List Claim}
    (rendered : Renders setting scope task before (.ok text) claims after)
    (prepared : Prepared task) (texts : TextsMarkup before) :
    IsMarkup text ∧ TextsMarkup after := by
  induction rendered using Renders.success_induct with
  | nil _ => exact ⟨.empty, texts⟩
  | cons _ _ head tail =>
      have first := head (prepared _ List.mem_cons_self) texts
      have rest := tail (fun node member => prepared node (List.mem_cons_of_mem _ member)) first.2
      exact ⟨first.1.append rest.1, rest.2⟩
  | settled _ entry => exact ⟨markup_settled dialect entry, texts⟩
  | entered entry _ _ _ leading contents handled =>
      have first := leading (fun value member => prepared.part (Node.mem_parts_of_leading member))
        texts
      have second := contents (fun child member => prepared.part (Node.mem_parts_of_child member))
        first.2
      have policy := (Node.entered_of_entry entry).2
      rw [dialect] at policy
      exact handled ⟨prepared, markup_renderedLeading first.1, second.1, policy⟩ second.2
  | @rule _ node _ _ rule _ _ _ succeeds =>
      rcases prepared with ⟨sources, secondary, contents, policy⟩
      refine ⟨markup_render dialect secondary ?_ contents succeeds, texts⟩
      intro isSource
      subst isSource
      exact sources node (Node.mem_walk_self node) (kind_of_sourceBlock policy)
  | referred _ _ _ mark => exact mark trivial texts
  | numbered _ _ => exact ⟨markup_mark _, texts⟩
  | claimed unknown found _ body =>
      have textsAssigned : TextsMarkup _ := fun number note kept => by
        rw [FootnoteRegister.text?_assign unknown] at kept
        exact texts number note kept
      have inner := body
        (fun child member => (definitions _ _ found).part (Node.mem_parts_of_child member))
        textsAssigned
      exact ⟨markup_mark _, inner.2.define inner.1⟩

end Run

/-! ## Whole documents -/

theorem markup_join {texts : List String} (markup : ∀ text ∈ texts, IsMarkup text) :
    IsMarkup (String.join texts) := by
  induction texts with
  | nil => exact .empty
  | cons head tail induction =>
      rw [String.join_cons]
      have rest := induction fun text member => markup text (List.mem_cons_of_mem head member)
      exact (markup head List.mem_cons_self).append rest

theorem markup_footnoteSection {context : Context} (dialect : context.profile = .html)
    (texts : TextsMarkup context.footnotes) {text : String}
    (success : context.footnoteSection = .ok text) : IsMarkup text := by
  have lines : ∀ entry ∈ context.footnotes.entries, IsMarkup (Context.footnoteLine entry) := by
    intro entry member
    rcases entry with ⟨number, note⟩
    have markup := texts number note (FootnoteRegister.text?_of_mem member)
    exact (((IsMarkup.caret.append (.repr number)).append .colon).append markup).append .newline
  rw [Context.footnoteSection] at success
  split at success
  · cases success
    exact .empty
  · rcases bind_eq_ok_iff.mp success with ⟨title, titled, written⟩
    cases written
    rw [dialect] at titled
    refine (markup_titleLine (.escaped _) titled).append (markup_join ?_)
    intro line member
    rcases List.mem_map.mp member with ⟨entry, inside, rfl⟩
    exact lines entry inside

/-- If no source block in a tree holds a reserved character, then whatever the HTML profile makes
of the tree is well-formed. -/
theorem transcode_html_markup (tree : Node) (options : ExportOptions) (text : String)
    (sources : SourcesFree tree) (success : transcode tree options .html = .ok text) :
    Markup text.toList := by
  rcases (Context.start tree options .html).transcode_renders tree with
    ⟨result, claims, final, performed, rendered⟩
  rw [transcode, performed] at success
  rcases bind_eq_ok_iff.mp success with ⟨body, rfl, sectioned⟩
  rcases bind_eq_ok_iff.mp sectioned with ⟨notes, listed, written⟩
  cases written
  have unwritten : TextsMarkup {} := by
    intro number note found
    cases found
  have markup := markup_of_renders rfl (fun _ _ found => sources.definition found) rendered sources
    unwritten
  exact IsMarkup.append markup.1 (markup_footnoteSection rfl markup.2 listed)

/-- Texts that look like markup, wherever a user may put them. -/
def hostile : Node :=
  let headline level :=
    ((Node.mk .headline [] []).withProperty "title" (.nodes [.text "a --> b"])).withProperty
      "level" (.int level)
  let source :=
    ((Node.mk .sourceBlock [] []).withProperty "value" (.text "x\n")).withProperty
      "language" (.text "\"><script>")
  let link :=
    ((Node.mk .link [] []).withProperty "type" (.text "fuzzy")).withProperty
      "raw_link" (.text "#\"<&>")
  let reference := (Node.mk .footnoteReference [] []).withProperty "label" (.text "a")
  let definition :=
    (Node.mk .footnoteDefinition [⟨.bold, [.text "</p>"], []⟩, .text " & "] []).withProperty
      "label" (.text "a")
  Node.mk .document
    [headline 1, headline 3, source, link, ⟨.paragraph, [.text "1 < 2", reference], []⟩,
      definition] []

theorem transcode_html_markup_hostile :
    let text := "<!--  a --&gt; b  -->\n<h3>a --&gt; b</h3>\n" ++
      "<pre lang=\"&quot;><script>\">x</pre>\n" ++
      "<a href=\"#%22%3C&amp;%3E\">#%22%3C&amp;%3E</a><p>1 &lt; 2^1</p>\n" ++
      "<!--  Footnotes  -->\n^1: <strong>&lt;/p&gt;</strong> &amp;\n"
    SourcesFree hostile ∧ transcode hostile {} .html = .ok text ∧ Markup text.toList := by
  intro text
  have sources : SourcesFree hostile := by decide +kernel
  have success : transcode hostile {} .html = .ok text := by decide +kernel
  exact ⟨sources, success, transcode_html_markup hostile {} text sources success⟩

end Html

end MarkupExport
