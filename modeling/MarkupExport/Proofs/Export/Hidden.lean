import MarkupExport.Proofs.Export.Carried
import MarkupExport.Proofs.Export.Success
import MarkupExport.Proofs.Node.Redacted

/-!
Exports of what is shown. Two trees that differ only inside hidden nodes give the same result when
hidden nodes are left out, as far as the two agree on their footnotes: a definition is found
wherever it stands, so one that is hidden comes to light where a reference asks for it.
-/

namespace MarkupExport

namespace Node

/-- The nodes carry the same themselves, and look the same inside. -/
structure ReadsLike (left right : Node) : Prop where
  kind : left.kind = right.kind
  text : ∀ name, left.textProperty? name = right.textProperty? name
  int : ∀ name, left.intProperty? name = right.intProperty? name
  flag : ∀ name, left.flag name = right.flag name
  children : left.children.map redacted = right.children.map redacted
  nodes : ∀ name, (left.nodesProperty? name).map (List.map redacted) =
    (right.nodesProperty? name).map (List.map redacted)

namespace LooksLike

variable {left right : Node} (alike : left.LooksLike right)

include alike

theorem flag_hidden : left.flag "hidden" = right.flag "hidden" := by
  rw [← flag_hidden_redacted left, alike, flag_hidden_redacted]

theorem readsLike (shown : left.flag "hidden" = false) : left.ReadsLike right := by
  have shownRight : right.flag "hidden" = false := alike.flag_hidden ▸ shown
  constructor
  · rw [← kind_redacted shown, alike, kind_redacted shownRight]
  · intro name
    rw [← textProperty?_redacted shown, alike, textProperty?_redacted shownRight]
  · intro name
    rw [← intProperty?_redacted shown, alike, intProperty?_redacted shownRight]
  · intro name
    rw [← flag_redacted shown, alike, flag_redacted shownRight]
  · rw [← children_redacted shown, alike, children_redacted shownRight]
  · intro name
    rw [← nodesProperty?_redacted shown, alike, nodesProperty?_redacted shownRight]

end LooksLike

namespace ReadsLike

variable {left right : Node} (reads : left.ReadsLike right)

include reads

theorem readsAs : left.ReadsAs (List.map redacted) right :=
  ⟨reads.kind, reads.text, reads.int, reads.flag, reads.children, reads.nodes⟩

theorem referredLabel : left.referredLabel = right.referredLabel := by
  have empty := congrArg List.isEmpty reads.children
  rw [List.isEmpty_map, List.isEmpty_map] at empty
  exact reads.readsAs.referredLabel empty

end ReadsLike

end Node

/-! ## Two exports side by side -/

/-- The settings differ in nothing but what is hidden in the definitions. -/
structure Setting.LooksLike (left right : Setting) : Prop where
  options : left.options = right.options
  profile : left.profile = right.profile
  visibleOnly : left.options.visibleOnly = true
  notes : ∀ label,
    (left.definitions.get? label).map (fun node => node.children.map Node.redacted) =
      (right.definitions.get? label).map fun node => node.children.map Node.redacted

/-- The tasks are the same, but for nodes that may differ in what is hidden. -/
inductive Task.LooksLike : Task → Task → Prop
  | node {left right} : left.LooksLike right → LooksLike (.node left) (.node right)
  | nodes {left right} : left.map Node.redacted = right.map Node.redacted →
      LooksLike (.nodes left) (.nodes right)
  | handle {left right secondary contents handler} : left.ReadsLike right →
      LooksLike (.handle left secondary contents handler) (.handle right secondary contents handler)
  | mark {label} : LooksLike (.mark label) (.mark label)

namespace Setting.LooksLike

variable {left right : Setting} (settings : left.LooksLike right)

include settings

theorem asksLike : left.AsksLike right :=
  ⟨settings.options, settings.profile⟩

theorem entry {node other : Node} (alike : node.LooksLike other) :
    left.entry node = right.entry other := by
  cases hidden : node.flag "hidden" with
  | true =>
      have otherHidden : other.flag "hidden" = true := alike.flag_hidden ▸ hidden
      simp [Setting.entry, ← settings.options, settings.visibleOnly, hidden, otherHidden]
  | false => exact settings.asksLike.entry (alike.readsLike hidden).readsAs

end Setting.LooksLike

/-- A node that is entered is shown, so what looks like it carries the same. -/
theorem Node.LooksLike.readsLike_of_entered {setting : Setting} {node other : Node}
    (alike : node.LooksLike other) (visibleOnly : setting.options.visibleOnly = true)
    {handler : Handler} (entry : setting.entry node = .entered handler) : node.ReadsLike other := by
  apply alike.readsLike
  apply Bool.eq_false_iff.mpr
  intro hidden
  exact (Node.entered_of_entry entry).1.shown ⟨visibleOnly, hidden⟩

/-- What happens to a task happens to every task that looks like it: the same result, the same
claims and the same footnotes. -/
theorem Renders.looksLike {left right : Setting} (settings : left.LooksLike right)
    {scope : Option ListKind} {task : Task} {before after : FootnoteRegister}
    {result : Except TranscodeError String} {claims : List Claim}
    (rendered : Renders left scope task before result claims after) {other : Task}
    (alike : task.LooksLike other) : Renders right scope other before result claims after := by
  induction rendered generalizing other with
  | nil =>
      cases alike with
      | nodes same =>
          rw [List.map_nil, eq_comm, List.map_eq_nil_iff] at same
          subst same
          exact .nil
  | cons _ _ head tail =>
      cases alike with
      | nodes same =>
          rcases List.map_eq_cons_iff.mp same.symm with ⟨_, _, rfl, first, rest⟩
          exact .cons (head (.node first.symm)) (tail (.nodes rest.symm))
  | headFails _ head =>
      cases alike with
      | nodes same =>
          rcases List.map_eq_cons_iff.mp same.symm with ⟨_, _, rfl, first, _⟩
          exact .headFails (head (.node first.symm))
  | tailFails _ _ head tail =>
      cases alike with
      | nodes same =>
          rcases List.map_eq_cons_iff.mp same.symm with ⟨_, _, rfl, first, rest⟩
          exact .tailFails (head (.node first.symm)) (tail (.nodes rest.symm))
  | settled entry =>
      cases alike with
      | node same => exact .settled ((settings.entry same).symm.trans entry)
  | leadingFails entry _ leading =>
      cases alike with
      | node same =>
          have reads := same.readsLike_of_entered settings.visibleOnly entry
          exact .leadingFails ((settings.entry same).symm.trans entry)
            (leading (.nodes (reads.readsAs.leadingNodes _)))
  | contentsFail entry _ _ leading contents =>
      cases alike with
      | node same =>
          have reads := same.readsLike_of_entered settings.visibleOnly entry
          have inside := contents (.nodes reads.children)
          rw [reads.readsAs.innerScope] at inside
          exact .contentsFail ((settings.entry same).symm.trans entry)
            (leading (.nodes (reads.readsAs.leadingNodes _))) inside
  | entered entry _ _ _ leading contents handled =>
      cases alike with
      | node same =>
          have reads := same.readsLike_of_entered settings.visibleOnly entry
          have inside := contents (.nodes reads.children)
          rw [reads.readsAs.innerScope] at inside
          have finished := handled (.handle reads)
          rw [reads.readsAs.renderedLeading] at finished
          exact .entered ((settings.entry same).symm.trans entry)
            (leading (.nodes (reads.readsAs.leadingNodes _))) inside finished
  | rule =>
      cases alike with
      | handle reads =>
          rw [settings.asksLike.render reads.readsAs]
          exact .rule
  | refused refused =>
      cases alike with
      | handle reads => exact .refused (reads.referredLabel.symm.trans refused)
  | referred referred _ mark =>
      cases alike with
      | handle reads => exact .referred (reads.referredLabel.symm.trans referred) (mark .mark)
  | numbered known =>
      cases alike
      exact .numbered known
  | @undefined _ _ label unknown absent =>
      cases alike
      have notes := settings.notes label
      rw [absent, Option.map_none, eq_comm, Option.map_eq_none_iff] at notes
      exact .undefined unknown notes
  | @definitionFails _ _ _ label _ _ _ unknown found _ body =>
      cases alike
      have notes := settings.notes label
      rw [found, Option.map_some, eq_comm, Option.map_eq_some_iff] at notes
      rcases notes with ⟨definition, foundToo, same⟩
      exact .definitionFails unknown foundToo (body (.nodes same.symm))
  | @claimed _ _ _ label _ _ _ unknown found _ body =>
      cases alike
      have notes := settings.notes label
      rw [found, Option.map_some, eq_comm, Option.map_eq_some_iff] at notes
      rcases notes with ⟨definition, foundToo, same⟩
      exact .claimed unknown foundToo (body (.nodes same.symm))

/-- If hidden nodes are left out, then two trees that differ only inside them give the same result,
whatever the profile, provided that for each label which a hidden node defines, in either tree, the
footnotes of the two look the same. -/
theorem transcode_looksLike (left right : Node) (options : ExportOptions) (profile : Profile)
    (visibleOnly : options.visibleOnly = true) (alike : left.LooksLike right)
    (notes : ∀ label, left.HidesDefinition label ∨ right.HidesDefinition label →
      left.shownNote label = right.shownNote label) :
    transcode left options profile = transcode right options profile := by
  have settings : (Setting.ofTree left options profile).LooksLike
      (.ofTree right options profile) := by
    refine ⟨rfl, rfl, visibleOnly, ?_⟩
    intro label
    simp only [Setting.ofTree, FootnoteDefinitions.get?_ofTree]
    by_cases hides : left.HidesDefinition label ∨ right.HidesDefinition label
    · exact notes label hides
    · rw [not_or] at hides
      exact alike.shownNote_eq hides.1 hides.2
  rcases (Context.start left options profile).transcode_renders left with
    ⟨result, claims, final, performed, rendered⟩
  have again : (Context.start right options profile).transcode right =
      (result, { Context.start right options profile with footnotes := final }) :=
    Context.transcode_of_renders (rendered.looksLike settings (.node alike))
  rw [transcode, transcode, performed, again]
  rfl

/-- A paragraph, a footnote and a document that each hold a hidden node of this kind. -/
def partlyHidden (kind : NodeKind) (children : List Node) : Node :=
  let hidden := (Node.mk kind children []).withProperty "hidden" (.bool true)
  let reference := (Node.mk .footnoteReference [] []).withProperty "label" (.text "a")
  let definition :=
    (Node.mk .footnoteDefinition [.text "note", hidden] []).withProperty "label" (.text "a")
  Node.mk .document [⟨.paragraph, [.text "text", hidden, reference], []⟩, hidden, definition] []

theorem transcode_looksLike_partlyHidden :
    let options : ExportOptions := { visibleOnly := true }
    let secret := (Node.mk .footnoteReference [] []).withProperty "label" (.text "b")
    let left := partlyHidden .lineBreak []
    let right := partlyHidden .bold [.text "secret", secret]
    left.LooksLike right ∧
      (∀ label, ¬ (left.HidesDefinition label ∨ right.HidesDefinition label)) ∧
      transcode left options .html = .ok "<p>text^1</p>\n<!--  Footnotes  -->\n^1: note\n" ∧
      transcode right options .html = .ok "<p>text^1</p>\n<!--  Footnotes  -->\n^1: note\n" := by
  intro options secret left right
  have alike : left.LooksLike right := by decide +kernel
  have clear : ∀ label, ¬ (left.HidesDefinition label ∨ right.HidesDefinition label) := by
    intro label hides
    rcases hides with hides | hides
    · exact Node.not_hidesDefinition (by decide +kernel) label hides
    · exact Node.not_hidesDefinition (by decide +kernel) label hides
  have success : transcode left options .html =
      .ok "<p>text^1</p>\n<!--  Footnotes  -->\n^1: note\n" := by decide +kernel
  have same := transcode_looksLike left right options .html rfl alike
    fun label hides => absurd hides (clear label)
  exact ⟨alike, clear, success, same.symm.trans success⟩

/-- A footnote with two definitions, of which the first is hidden and has this text. -/
def doublyDefined (secret : String) : Node :=
  let reference := (Node.mk .footnoteReference [] []).withProperty "label" (.text "a")
  let definition text :=
    (Node.mk .footnoteDefinition [.text text] []).withProperty "label" (.text "a")
  Node.mk .document
    [reference, (definition secret).withProperty "hidden" (.bool true), definition "open"] []

/-- A hidden definition is what a reference shows, and even stands before one that is not hidden. -/
theorem hidden_definition_shown :
    let options : ExportOptions := { visibleOnly := true }
    (doublyDefined "one").LooksLike (doublyDefined "two") ∧
      transcode (doublyDefined "one") options .html =
        .ok "^1 <!--  Footnotes  -->\n^1: one\n" ∧
      transcode (doublyDefined "two") options .html =
        .ok "^1 <!--  Footnotes  -->\n^1: two\n" ∧
      transcode (doublyDefined "one") options .html ≠
        transcode (doublyDefined "two") options .html := by
  decide +kernel

end MarkupExport
