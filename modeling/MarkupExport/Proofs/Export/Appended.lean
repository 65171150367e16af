import MarkupExport.Proofs.Export.Carried
import MarkupExport.Proofs.Export.Output

/-!
Documents that are continued. What is appended to a document may define further footnotes, but a
definition that a label had before stays the first one, so whatever was rendered comes out as it
did. The body goes on where it stopped, and so does the list of footnotes.
-/

namespace MarkupExport

/-! ## More definitions -/

/-- Every label that is defined here is defined by the same node there. -/
def FootnoteDefinitions.KeptIn (definitions others : FootnoteDefinitions) : Prop :=
  ∀ label definition, definitions.get? label = some definition →
    others.get? label = some definition

namespace Renders

variable {setting : Setting} {scope : Option ListKind} {before after : FootnoteRegister}
  {text : String} {claims : List Claim}

/-- A success needs no definition but those it has found. -/
theorem with_definitions {task : Task} {definitions : FootnoteDefinitions}
    (kept : setting.definitions.KeptIn definitions)
    (rendered : Renders setting scope task before (.ok text) claims after) :
    Renders { setting with definitions } scope task before (.ok text) claims after := by
  induction rendered using success_induct with
  | nil _ => exact .nil
  | cons _ _ head tail => exact .cons head tail
  | settled _ entry => exact .settled entry
  | entered entry _ _ _ leading contents handled => exact .entered entry leading contents handled
  | rule _ succeeds =>
      have same : ({ setting with definitions } : Setting).AsksLike setting := ⟨rfl, rfl⟩
      rw [← succeeds, ← same.render_context]
      exact .rule
  | referred _ _ referred mark => exact .referred referred mark
  | numbered _ known => exact .numbered known
  | claimed unknown found _ body => exact .claimed unknown (kept _ _ found) body

/-- Nodes are rendered up to any point and then from there on. -/
theorem nodes_append {front back : List Node}
    (rendered : Renders setting scope (.nodes (front ++ back)) before (.ok text) claims after) :
    ∃ first rest early late middle, text = first ++ rest ∧ claims = early ++ late ∧
      Renders setting scope (.nodes front) before (.ok first) early middle ∧
      Renders setting scope (.nodes back) middle (.ok rest) late after := by
  induction front generalizing before text claims with
  | nil => exact ⟨"", text, [], claims, before, by simp, rfl, .nil, rendered⟩
  | cons head front induction =>
      cases rendered with
      | @cons _ _ _ _ _ _ shown _ own _ headRendered tailRendered =>
          rcases induction tailRendered with
            ⟨first, rest, early, late, middle, rfl, rfl, frontRendered, backRendered⟩
          exact ⟨shown ++ first, rest, own ++ early, late, middle, by rw [String.append_assoc],
            by rw [List.append_assoc], .cons headRendered frontRendered, backRendered⟩

/-- A document is what its children are. -/
theorem children_of_document {node : Node} (kind : node.kind = .document)
    (entry : setting.entry node = .entered (.rule .document))
    (rendered : Renders setting scope (.node node) before (.ok text) claims after) :
    Renders setting scope (.nodes node.children) before (.ok text) claims after := by
  cases rendered with
  | settled settled => exact nomatch entry.symm.trans settled
  | entered entered leading contents handled =>
      cases entry.symm.trans entered
      have unscoped : Export.innerScope scope node = scope := by simp [Export.innerScope, kind]
      have unled : node.leadingNodes scope = [] := by
        simp [Node.leadingNodes, Node.leading?, Export.leadingProperty?, kind]
      rw [unscoped] at contents
      rw [unled] at leading
      cases leading
      have written := handled.rule_eq
      cases handled
      cases written
      simpa using contents

end Renders

/-- Entries are listed by their numbers, so those of an earlier register come first. -/
theorem FootnoteRegister.Extends.entries {before after : FootnoteRegister}
    (extension : before.Extends after)
    (numbers : before.settled = List.range' 1 before.labels.length)
    (laterNumbers : after.settled = List.range' 1 after.labels.length) :
    before.entries <+: after.entries := by
  apply List.prefix_iff_getElem?.mpr
  intro index inside
  have insideLater : index < after.entries.length := by
    rw [length_entries numbers] at inside
    rw [length_entries laterNumbers]
    exact Nat.lt_of_lt_of_le inside extension.length_le
  have number := number_getElem_entries numbers inside
  have laterNumber := number_getElem_entries laterNumbers insideLater
  have text : before.text? before.entries[index].1 = some before.entries[index].2 :=
    text?_of_mem (List.getElem_mem inside)
  have laterText : after.text? after.entries[index].1 = some after.entries[index].2 :=
    text?_of_mem (List.getElem_mem insideLater)
  rw [number] at text
  rw [laterNumber, extension.texts _ _ text] at laterText
  rw [List.getElem?_eq_getElem insideLater]
  exact congrArg some
    (Prod.ext (laterNumber.trans number.symm) (Option.some.inj laterText).symm)

/-! ## Documents -/

/-- A document with these children. -/
def Node.document (properties : Properties) (children : List Node) : Node :=
  ⟨.document, children, properties⟩

/-- What is appended to a document does not change the definition that a label has. -/
theorem Node.definitions_document_append (properties : Properties) (front back : List Node) :
    (FootnoteDefinitions.ofTree (document properties front)).KeptIn
      (.ofTree (document properties (front ++ back))) := by
  intro label definition found
  have undefined (children : List Node) : ¬ (document properties children).Defines label :=
    fun defines => nomatch defines.1
  rw [FootnoteDefinitions.get?_ofTree, walk_eq, List.find?_cons_of_neg (by simp [undefined])]
    at found ⊢
  have parts : (document properties (front ++ back)).parts =
      (document properties front).parts ++ back := (List.append_assoc _ _ _).symm
  rw [parts, List.flatMap_append, List.find?_append, found]
  rfl

section Known

variable {profile : Profile} (known : profile = .html ∨ profile = .bbcode)

include known

/-- Whether a document is looked into does not depend on its children. -/
theorem Setting.entry_document {setting : Setting} (same : setting.profile = profile)
    (properties : Properties) :
    (∀ children, setting.entry (.document properties children) = .settled (.ok "")) ∨
      ∀ children, setting.entry (.document properties children) = .entered (.rule .document) := by
  have policy : setting.profile.policy .document = .handle (.rule .document) := by
    rcases known with rfl | rfl <;> rw [same] <;> rfl
  by_cases hidden : (setting.options.visibleOnly &&
      (Node.document properties []).flag "hidden") = true
  · exact .inl fun children => if_pos hidden
  · right
    intro children
    refine (if_neg hidden).trans ?_
    simp [Node.document, policy]

/-- If a document can be exported before and after nodes are appended to it, then the body of the
shorter one is the beginning of the body of the longer one, and its labels and footnotes are the
first ones. -/
theorem transcode_document_append (options : ExportOptions) (properties : Properties)
    (front back : List Node) {output longer : String}
    (success : transcode (.document properties front) options profile = .ok output)
    (successLonger : transcode (.document properties (front ++ back)) options profile =
      .ok longer) :
    let run (tree : Node) := (Context.start tree options profile).transcode tree
    let shortRun := run (.document properties front)
    let longRun := run (.document properties (front ++ back))
    (∃ body rest, shortRun.1 = .ok body ∧ longRun.1 = .ok (body ++ rest)) ∧
      shortRun.2.footnotes.labels <+: longRun.2.footnotes.labels ∧
      shortRun.2.footnotes.entries <+: longRun.2.footnotes.entries := by
  intro run shortRun longRun
  rcases exported_of_success success with ⟨body, claims, final, _, _, ⟨rendered, _, _⟩, _, _⟩
  rcases exported_of_success successLonger with
    ⟨longBody, longClaims, longFinal, _, _, ⟨longRendered, _, _⟩, _, _⟩
  have short : shortRun = (.ok body, _) := Context.transcode_of_renders rendered
  have long : longRun = (.ok longBody, _) := Context.transcode_of_renders longRendered
  rw [short, long]
  suffices goes : (∃ rest, longBody = body ++ rest) ∧ final.Extends longFinal by
    rcases goes with ⟨⟨rest, rfl⟩, extension⟩
    exact ⟨⟨body, rest, rfl, rfl⟩, extension.labels,
      extension.entries (FootnoteRegister.settled_eq_range rendered.settles)
        (FootnoteRegister.settled_eq_range longRendered.settles)⟩
  let setting : Setting := .ofTree (.document properties (front ++ back)) options profile
  have again : Renders setting none (.node (.document properties front)) {} (.ok body) claims
      final :=
    rendered.with_definitions (Node.definitions_document_append properties front back)
  have same : setting.profile = profile := rfl
  rcases Setting.entry_document known same properties with hidden | shown
  · rcases again.unique (.settled (hidden front)) with ⟨⟨⟩, rfl, rfl⟩
    rcases longRendered.unique (.settled (hidden (front ++ back))) with ⟨⟨⟩, rfl, rfl⟩
    exact ⟨⟨"", rfl⟩, .refl _⟩
  · have inFront := again.children_of_document rfl (shown front)
    rcases (longRendered.children_of_document rfl (shown (front ++ back))).nodes_append with
      ⟨first, rest, _, _, middle, rfl, rfl, frontRendered, backRendered⟩
    rcases inFront.unique frontRendered with ⟨⟨⟩, rfl, rfl⟩
    exact ⟨⟨rest, rfl⟩, backRendered.growth⟩

end Known

/-- A paragraph with a footnote whose text refers to another one, which refers back to it. -/
def opening : List Node :=
  let reference label := (Node.mk .footnoteReference [] []).withProperty "label" (.text label)
  let definition label children :=
    (Node.mk .footnoteDefinition children []).withProperty "label" (.text label)
  [⟨.paragraph, [.text "one", reference "a"], []⟩, definition "a" [.text "see", reference "b"],
    definition "b" [reference "a"]]

/-- A paragraph with a footnote of its own and one of the opening, which is defined once more. -/
def continuation : List Node :=
  let reference label := (Node.mk .footnoteReference [] []).withProperty "label" (.text label)
  let definition label children :=
    (Node.mk .footnoteDefinition children []).withProperty "label" (.text label)
  [definition "a" [.text "other"],
    ⟨.paragraph, [.text "two", reference "c", reference "a"], []⟩, definition "c" [reference "b"]]

theorem transcode_document_append_continuation :
    transcode (.document [] opening) {} .html =
        .ok "<p>one^1</p>\n<!--  Footnotes  -->\n^1: see^2\n^2: ^1\n" ∧
      transcode (.document [] (opening ++ continuation)) {} .html =
        .ok ("<p>one^1</p>\n<p>two^3 ^1</p>\n<!--  Footnotes  -->\n" ++
          "^1: see^2\n^2: ^1\n^3: ^2\n") ∧
      let run (tree : Node) := (Context.start tree {} .html).transcode tree
      let shortRun := run (.document [] opening)
      let longRun := run (.document [] (opening ++ continuation))
      (∃ body rest, shortRun.1 = .ok body ∧ longRun.1 = .ok (body ++ rest)) ∧
        shortRun.2.footnotes.labels <+: longRun.2.footnotes.labels ∧
        shortRun.2.footnotes.entries <+: longRun.2.footnotes.entries := by
  have success : transcode (.document [] opening) {} .html =
      .ok "<p>one^1</p>\n<!--  Footnotes  -->\n^1: see^2\n^2: ^1\n" := by
    decide +kernel
  have successLonger : transcode (.document [] (opening ++ continuation)) {} .html =
      .ok ("<p>one^1</p>\n<p>two^3 ^1</p>\n<!--  Footnotes  -->\n" ++
        "^1: see^2\n^2: ^1\n^3: ^2\n") := by
    decide +kernel
  refine ⟨success, successLonger, ?_⟩
  exact transcode_document_append (.inl rfl) {} [] opening continuation success successLonger

end MarkupExport
