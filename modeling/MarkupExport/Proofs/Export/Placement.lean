import MarkupExport.Proofs.Export.Carried
import MarkupExport.Proofs.Export.Success
import MarkupExport.Proofs.Node.Bare

/-!
Where footnote definitions stand. A definition leaves no trace where it stands, so two trees that
are the same without their definitions are exported to the same result, if they say the same under
each label that is referred to.
-/

namespace MarkupExport

namespace Node

/-- Of nodes that are the same without their definitions the same can be read. -/
theorem readsAs_of_bare_eq {left right : Node} (same : left.bare = right.bare) :
    left.ReadsAs bareAll right := by
  constructor
  · exact kind_eq_of_bare_eq same
  · intro name
    rw [← textProperty?_viewed left.lookup_bare, same, textProperty?_viewed right.lookup_bare]
  · intro name
    rw [← intProperty?_viewed left.lookup_bare, same, intProperty?_viewed right.lookup_bare]
  · intro name
    rw [← flag_viewed left.lookup_bare, same, flag_viewed right.lookup_bare]
  · rw [bare_eq, bare_eq] at same
    exact (Node.mk.inj same).2.1
  · intro name
    rw [← nodesProperty?_viewed left.lookup_bare, same, nodesProperty?_viewed right.lookup_bare]

/-- The nodes stand in these trees and are the same without definitions. -/
structure Matches (leftTree rightTree left right : Node) : Prop where
  bare : left.bare = right.bare
  inLeft : left ∈ leftTree.walk
  inRight : right ∈ rightTree.walk

/-- The lists stand in these trees and are the same without definitions. -/
structure AllMatch (leftTree rightTree : Node) (left right : List Node) : Prop where
  bare : bareAll left = bareAll right
  inLeft : ∀ node ∈ left, node ∈ leftTree.walk
  inRight : ∀ node ∈ right, node ∈ rightTree.walk

variable {leftTree rightTree left right : Node}

namespace Matches

variable (same : Matches leftTree rightTree left right)

include same

theorem children : AllMatch leftTree rightTree left.children right.children :=
  ⟨(readsAs_of_bare_eq same.bare).children,
    fun _ member => mem_walk_trans same.inLeft (mem_walk_of_part (mem_parts_of_child member)
      (mem_walk_self _)),
    fun _ member => mem_walk_trans same.inRight (mem_walk_of_part (mem_parts_of_child member)
      (mem_walk_self _))⟩

theorem leadingNodes (scope : Option ListKind) :
    AllMatch leftTree rightTree (left.leadingNodes scope) (right.leadingNodes scope) :=
  ⟨(readsAs_of_bare_eq same.bare).leadingNodes scope,
    fun _ member => mem_walk_trans same.inLeft (mem_walk_of_part (mem_parts_of_leading member)
      (mem_walk_self _)),
    fun _ member => mem_walk_trans same.inRight (mem_walk_of_part (mem_parts_of_leading member)
      (mem_walk_self _))⟩

/-- References have no definitions among their children to tell them apart. -/
theorem referredLabel (leftClear : leftTree.ReferencesClear)
    (rightClear : rightTree.ReferencesClear) (kind : left.kind = .footnoteReference) :
    left.referredLabel = right.referredLabel := by
  have reads := readsAs_of_bare_eq same.bare
  apply reads.referredLabel
  rw [← isEmpty_bareAll (leftClear left same.inLeft kind), reads.children,
    isEmpty_bareAll (rightClear right same.inRight (reads.kind ▸ kind))]

end Matches

/-- In a list that matches, the first node that is no definition has its counterpart behind
definitions only. -/
theorem AllMatch.split {head : Node} {tail others : List Node}
    (same : AllMatch leftTree rightTree (head :: tail) others)
    (other : head.kind ≠ .footnoteDefinition) :
    ∃ front node back, others = front ++ node :: back ∧
      (∀ definition ∈ front, definition.kind = .footnoteDefinition) ∧
      Matches leftTree rightTree head node ∧ AllMatch leftTree rightTree tail back := by
  have bare := same.bare
  rw [bareAll_cons_of_ne other] at bare
  rcases exists_of_bareAll_eq_cons bare.symm with ⟨front, node, back, rfl, inFront, first, rest⟩
  have inLeft := List.forall_mem_cons.mp same.inLeft
  have inRight := List.forall_mem_cons.mp (List.forall_mem_append.mp same.inRight).2
  exact ⟨front, node, back, rfl, inFront, ⟨first.symm, inLeft.1, inRight.1⟩,
    ⟨rest.symm, inLeft.2, inRight.2⟩⟩

/-- A definition in front makes no difference to what a list matches. -/
theorem AllMatch.tail {head : Node} {tail others : List Node}
    (same : AllMatch leftTree rightTree (head :: tail) others)
    (definition : head.kind = .footnoteDefinition) : AllMatch leftTree rightTree tail others := by
  have bare := same.bare
  rw [bareAll_cons_of_definition definition] at bare
  exact ⟨bare, (List.forall_mem_cons.mp same.inLeft).2, same.inRight⟩

end Node

/-! ## Definitions in passing -/

namespace Renders

variable {setting : Setting} {scope : Option ListKind} {before after : FootnoteRegister}
  {result : Except TranscodeError String} {claims : List Claim}
  (skips : setting.profile.policy .footnoteDefinition = .skip)

include skips

theorem entry_definition {node : Node} (definition : node.kind = .footnoteDefinition) :
    setting.entry node = .settled (.ok "") := by
  rw [Setting.entry]
  split
  · rfl
  · simp [definition, skips]

theorem definition_eq {node : Node} (definition : node.kind = .footnoteDefinition)
    (rendered : Renders setting scope (.node node) before result claims after) :
    result = .ok "" ∧ claims = [] ∧ after = before :=
  rendered.unique (.settled (entry_definition skips definition))

theorem prepend_definitions {front nodes : List Node}
    (definitions : ∀ node ∈ front, node.kind = .footnoteDefinition)
    (rendered : Renders setting scope (.nodes nodes) before result claims after) :
    Renders setting scope (.nodes (front ++ nodes)) before result claims after := by
  induction front with
  | nil => exact rendered
  | cons head front induction =>
      rcases List.forall_mem_cons.mp definitions with ⟨definition, inFront⟩
      have skipped : Renders setting scope (.node head) before (.ok "") [] before :=
        .settled (entry_definition skips definition)
      cases result with
      | error error => exact .tailFails skipped (induction inFront)
      | ok text => simpa using Renders.cons skipped (induction inFront)

end Renders

/-! ## Two exports side by side -/

/-- The references of both trees are clear, and under each label that both refer to they have the
same to say. -/
structure Node.NotesAgree (left right : Node) : Prop where
  leftClear : left.ReferencesClear
  rightClear : right.ReferencesClear
  notes : ∀ label ∈ left.referredLabels, label ∈ right.referredLabels →
    left.bareNote label = right.bareNote label

/-- The tasks are the same, but for the definitions that stand among their nodes. Only a reference
is handled by its mark, and then its label is one that both trees refer to. -/
inductive Task.Matches (leftTree rightTree : Node) : Task → Task → Prop
  | node {left right} : Node.Matches leftTree rightTree left right →
      Matches leftTree rightTree (.node left) (.node right)
  | nodes {left right} : Node.AllMatch leftTree rightTree left right →
      Matches leftTree rightTree (.nodes left) (.nodes right)
  | handle {left right secondary contents handler} : Node.Matches leftTree rightTree left right →
      (handler = .footnoteReference → left.kind = .footnoteReference) →
      Matches leftTree rightTree (.handle left secondary contents handler)
        (.handle right secondary contents handler)
  | mark {label} : label ∈ leftTree.referredLabels → label ∈ rightTree.referredLabels →
      Matches leftTree rightTree (.mark label) (.mark label)

namespace Node.NotesAgree

variable {leftTree rightTree : Node} (agree : leftTree.NotesAgree rightTree)

include agree

/-- A label that both trees refer to is undefined in both, or both definitions match inside. -/
theorem definition {label : String} (inLeft : label ∈ leftTree.referredLabels)
    (inRight : label ∈ rightTree.referredLabels) :
    match (FootnoteDefinitions.ofTree leftTree).get? label with
    | none => (FootnoteDefinitions.ofTree rightTree).get? label = none
    | some definition => ∃ other, (FootnoteDefinitions.ofTree rightTree).get? label = some other ∧
        AllMatch leftTree rightTree definition.children other.children := by
  have notes := agree.notes label inLeft inRight
  rw [bareNote, bareNote] at notes
  have standing {tree definition child : Node}
      (found : (FootnoteDefinitions.ofTree tree).get? label = some definition)
      (member : child ∈ definition.children) : child ∈ tree.walk := by
    rw [FootnoteDefinitions.get?_ofTree] at found
    exact mem_walk_trans (List.mem_of_find?_eq_some found)
      (mem_walk_of_part (mem_parts_of_child member) (mem_walk_self child))
  cases found : (FootnoteDefinitions.ofTree leftTree).get? label with
  | none =>
      rw [found, Option.map_none, eq_comm, Option.map_eq_none_iff] at notes
      exact notes
  | some definition =>
      rw [found, Option.map_some, eq_comm, Option.map_eq_some_iff] at notes
      rcases notes with ⟨other, foundToo, same⟩
      exact ⟨other, foundToo, ⟨same.symm, fun _ => standing found, fun _ => standing foundToo⟩⟩

end Node.NotesAgree

/-- What happens to a task happens to every task that matches it: the same result, the same claims
and the same footnotes. -/
theorem Renders.of_matches {leftTree rightTree : Node} {options : ExportOptions}
    {profile : Profile} (known : profile = .html ∨ profile = .bbcode)
    (agree : leftTree.NotesAgree rightTree) {scope : Option ListKind} {task : Task}
    {before after : FootnoteRegister} {result : Except TranscodeError String} {claims : List Claim}
    (rendered : Renders (.ofTree leftTree options profile) scope task before result claims after)
    {other : Task} (same : task.Matches leftTree rightTree other) :
    Renders (.ofTree rightTree options profile) scope other before result claims after := by
  have skips : profile.policy .footnoteDefinition = .skip := by rcases known with rfl | rfl <;> rfl
  have asks : (Setting.ofTree leftTree options profile).AsksLike
      (.ofTree rightTree options profile) := ⟨rfl, rfl⟩
  induction rendered generalizing other with
  | nil =>
      cases same with
      | nodes same =>
          have definitions := Node.eq_definitions_of_bareAll_eq_nil same.bare.symm
          simpa using Renders.prepend_definitions skips definitions .nil
  | @cons _ headNode _ _ _ _ _ _ _ _ headRendered _ head tail =>
      cases same with
      | nodes same =>
          by_cases definition : headNode.kind = .footnoteDefinition
          · rcases headRendered.definition_eq skips definition with ⟨⟨⟩, rfl, rfl⟩
            simpa using tail (.nodes (same.tail definition))
          · rcases same.split definition with ⟨front, node, back, rfl, inFront, first, rest⟩
            exact .prepend_definitions skips inFront
              (.cons (head (.node first)) (tail (.nodes rest)))
  | @headFails _ headNode _ _ _ _ _ headRendered head =>
      cases same with
      | nodes same =>
          by_cases definition : headNode.kind = .footnoteDefinition
          · exact nomatch (headRendered.definition_eq skips definition).1
          · rcases same.split definition with ⟨front, node, back, rfl, inFront, first, rest⟩
            exact .prepend_definitions skips inFront (.headFails (head (.node first)))
  | @tailFails _ headNode _ _ _ _ _ _ _ _ headRendered _ head tail =>
      cases same with
      | nodes same =>
          by_cases definition : headNode.kind = .footnoteDefinition
          · rcases headRendered.definition_eq skips definition with ⟨⟨⟩, rfl, rfl⟩
            exact tail (.nodes (same.tail definition))
          · rcases same.split definition with ⟨front, node, back, rfl, inFront, first, rest⟩
            exact .prepend_definitions skips inFront
              (.tailFails (head (.node first)) (tail (.nodes rest)))
  | settled entry =>
      cases same with
      | node same =>
          exact .settled ((asks.entry (Node.readsAs_of_bare_eq same.bare)).symm.trans entry)
  | leadingFails entry _ leading =>
      cases same with
      | node same =>
          have reads := Node.readsAs_of_bare_eq same.bare
          exact .leadingFails ((asks.entry reads).symm.trans entry)
            (leading (.nodes (same.leadingNodes _)))
  | contentsFail entry _ _ leading contents =>
      cases same with
      | node same =>
          have reads := Node.readsAs_of_bare_eq same.bare
          have inside := contents (.nodes same.children)
          rw [reads.innerScope] at inside
          exact .contentsFail ((asks.entry reads).symm.trans entry)
            (leading (.nodes (same.leadingNodes _))) inside
  | entered entry _ _ _ leading contents handled =>
      cases same with
      | node same =>
          have reads := Node.readsAs_of_bare_eq same.bare
          have inside := contents (.nodes same.children)
          rw [reads.innerScope] at inside
          have finished := handled (.handle same (by
            rintro rfl
            exact (Profile.footnoteReference_iff known _).mp (Node.entered_of_entry entry).2))
          rw [reads.renderedLeading] at finished
          exact .entered ((asks.entry reads).symm.trans entry)
            (leading (.nodes (same.leadingNodes _))) inside finished
  | rule =>
      cases same with
      | handle same _ =>
          rw [asks.render (Node.readsAs_of_bare_eq same.bare)]
          exact .rule
  | refused refused =>
      cases same with
      | handle same kind =>
          exact .refused
            ((same.referredLabel agree.leftClear agree.rightClear (kind rfl)).symm.trans refused)
  | referred referred _ mark =>
      cases same with
      | handle same kind =>
          have referredToo :=
            (same.referredLabel agree.leftClear agree.rightClear (kind rfl)).symm.trans referred
          have label := (Node.referredLabel_eq_ok_iff.mp referred).2.2
          have labelToo := (Node.referredLabel_eq_ok_iff.mp referredToo).2.2
          have reads := Node.readsAs_of_bare_eq same.bare
          exact .referred referredToo (mark (.mark
            (Node.mem_referredLabels same.inLeft (kind rfl) label)
            (Node.mem_referredLabels same.inRight (reads.kind ▸ kind rfl) labelToo)))
  | numbered known =>
      cases same
      exact .numbered known
  | undefined unknown absent =>
      cases same with
      | mark inLeft inRight =>
          have notes := agree.definition inLeft inRight
          rw [Setting.ofTree] at absent
          rw [absent] at notes
          exact .undefined unknown notes
  | definitionFails unknown found _ body =>
      cases same with
      | mark inLeft inRight =>
          have notes := agree.definition inLeft inRight
          rw [Setting.ofTree] at found
          rw [found] at notes
          rcases notes with ⟨definition, foundToo, inside⟩
          exact .definitionFails unknown foundToo (body (.nodes inside))
  | claimed unknown found _ body =>
      cases same with
      | mark inLeft inRight =>
          have notes := agree.definition inLeft inRight
          rw [Setting.ofTree] at found
          rw [found] at notes
          rcases notes with ⟨definition, foundToo, inside⟩
          exact .claimed unknown foundToo (body (.nodes inside))

/-- Two trees that are the same without their definitions give the same result, wherever the
definitions stand, provided that no reference has a definition among its children and that the
trees say the same under each label that both refer to. -/
theorem transcode_eq_of_bare_eq (left right : Node) (options : ExportOptions) (profile : Profile)
    (known : profile = .html ∨ profile = .bbcode) (same : left.bare = right.bare)
    (leftClear : left.ReferencesClear) (rightClear : right.ReferencesClear)
    (notes : ∀ label ∈ left.referredLabels, label ∈ right.referredLabels →
      left.bareNote label = right.bareNote label) :
    transcode left options profile = transcode right options profile := by
  rcases (Context.start left options profile).transcode_renders left with
    ⟨result, claims, final, performed, rendered⟩
  have matching : Node.Matches left right left right :=
    ⟨same, left.mem_walk_self, right.mem_walk_self⟩
  have again : (Context.start right options profile).transcode right =
      (result, { Context.start right options profile with footnotes := final }) :=
    Context.transcode_of_renders
      (rendered.of_matches known ⟨leftClear, rightClear, notes⟩ (.node matching))
  rw [transcode, transcode, performed, again]
  rfl

/-- A document with a footnote at its title and one in its text, where the definitions stand at
these places. -/
def scattered (inTitle inText last : List Node) : Node :=
  let reference label := (Node.mk .footnoteReference [] []).withProperty "label" (.text label)
  let title := inTitle ++ [.text "title", reference "a"]
  let headline := ((Node.mk .headline [] []).withProperty "level" (.int 3)).withProperty "title"
    (.nodes title)
  Node.mk .document
    ([headline, ⟨.paragraph, .text "text" :: inText ++ [reference "b"], []⟩] ++ last) []

/-- A definition of this label, with these nodes and then a reference to another label. -/
def noteReferring (label : String) (nodes : List Node) (other : String) : Node :=
  let reference := (Node.mk .footnoteReference [] []).withProperty "label" (.text other)
  (Node.mk .footnoteDefinition (nodes ++ [reference]) []).withProperty "label" (.text label)

theorem transcode_eq_of_bare_eq_scattered :
    let plain := scattered [] [] [noteReferring "a" [.text "see"] "b", noteReferring "b" [] "a"]
    let nested := noteReferring "a" [.text "see", noteReferring "b" [] "a"] "b"
    let other := scattered [nested] [noteReferring "a" [.text "late"] "a"]
      [noteReferring "c" [] "b"]
    plain.bare = other.bare ∧ plain.ReferencesClear ∧ other.ReferencesClear ∧
      (∀ label ∈ plain.referredLabels, label ∈ other.referredLabels →
        plain.bareNote label = other.bareNote label) ∧
      transcode plain {} .html =
        .ok "<h3>title^1</h3>\n<p>text^2</p>\n<!--  Footnotes  -->\n^1: see^2\n^2: ^1\n" ∧
      transcode other {} .html =
        .ok "<h3>title^1</h3>\n<p>text^2</p>\n<!--  Footnotes  -->\n^1: see^2\n^2: ^1\n" := by
  intro plain nested other
  have same : plain.bare = other.bare := by decide +kernel
  have leftClear : plain.ReferencesClear := by decide +kernel
  have rightClear : other.ReferencesClear := by decide +kernel
  have notes : ∀ label ∈ plain.referredLabels, label ∈ other.referredLabels →
      plain.bareNote label = other.bareNote label := by decide +kernel
  have success : transcode plain {} .html =
      .ok "<h3>title^1</h3>\n<p>text^2</p>\n<!--  Footnotes  -->\n^1: see^2\n^2: ^1\n" := by
    decide +kernel
  have equal := transcode_eq_of_bare_eq plain other {} .html (.inl rfl) same leftClear rightClear
    notes
  exact ⟨same, leftClear, rightClear, notes, success, equal.symm.trans success⟩

end MarkupExport
