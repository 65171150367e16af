import MarkupExport.Proofs.Footnote.Definitions
import MarkupExport.Proofs.Node.Position

/-!
Which footnote definition a label has. Of all the definitions with that label, wherever they stand
in the tree, it is the first one in document order; a label that any of them has is defined.
-/

namespace MarkupExport.FootnoteDefinitions

theorem get?_ofTree_eq_some_iff {tree node : Node} (ordered : tree.IsOrdered) {label : String} :
    (ofTree tree).get? label = some node ↔
      ∃ position, tree.IsFirst (Node.Defines label) position node := by
  rw [get?_ofTree]
  exact Node.find?_walk_eq_some_iff ordered

/-- A walk visits every node once, in document order, and a label is mapped to the first definition
that it has in this order. Wherever a definition stands, its label is defined. -/
theorem ofTree_first_in_document_order {tree : Node} (ordered : tree.IsOrdered) :
    (∃ positions, tree.InDocumentOrder positions tree.walk) ∧
      (∀ label node, (ofTree tree).get? label = some node ↔
        ∃ position, tree.IsFirst (Node.Defines label) position node) ∧
      ∀ label, (∃ node, (ofTree tree).get? label = some node) ↔
        ∃ position node, tree.at? position = some node ∧ node.Defines label := by
  rcases Node.exists_positions_walk ordered with ⟨positions, visited⟩
  refine ⟨⟨positions, visited⟩, fun label node => get?_ofTree_eq_some_iff ordered, ?_⟩
  intro label
  constructor
  · rintro ⟨node, found⟩
    rcases (get?_ofTree_eq_some_iff ordered).mp found with ⟨position, isFirst⟩
    exact ⟨position, node, isFirst.found, isFirst.passes⟩
  · rintro ⟨position, node, there, defines⟩
    rw [get?_ofTree, ← Option.isSome_iff_exists, List.find?_isSome]
    exact ⟨node, visited.mem_iff.mpr ⟨position, there⟩, by simpa using defines⟩

def definitionOf (label : String) (children : List Node) : Node :=
  ⟨.footnoteDefinition, children, [("label", .text label)]⟩

/-- Definitions in a title, in a property that no rule reads, inside another definition and, once
more for two labels, further back. -/
def scattered : Node :=
  let headline : Node :=
    { kind := .headline
      children := [definitionOf "unread" [], definitionOf "title" []]
      properties := [("title", .nodes [definitionOf "title" [.text "first"]])] }
  { kind := .document
    children := [headline, definitionOf "outer" [definitionOf "inner" []]]
    properties := [("appendix", .nodes [definitionOf "unread" [.text "first"]])] }

theorem ofTree_first_in_document_order_scattered :
    scattered.IsOrdered ∧ (∃ positions, scattered.InDocumentOrder positions scattered.walk) ∧
      (∃ position, scattered.IsFirst (Node.Defines "title") position
        (definitionOf "title" [.text "first"])) ∧
      (∃ position, scattered.IsFirst (Node.Defines "unread") position
        (definitionOf "unread" [.text "first"])) ∧
      ∃ node, (ofTree scattered).get? "inner" = some node := by
  have ordered : scattered.IsOrdered := by
    simp only [scattered, definitionOf, Node.text, Node.IsOrdered, Node.AllOrdered,
      Properties.AllOrdered, Property.IsOrdered, Ascending.IsAscending, Ascending.keys]
    decide +kernel
  rcases ofTree_first_in_document_order ordered with ⟨visited, mapped, defined⟩
  have title := (mapped "title" (definitionOf "title" [.text "first"])).mp (by decide +kernel)
  have unread := (mapped "unread" (definitionOf "unread" [.text "first"])).mp (by decide +kernel)
  have there : scattered.at? [.child 1, .child 0] = some (definitionOf "inner" []) := rfl
  exact ⟨ordered, visited, title, unread, (defined "inner").mpr ⟨_, _, there, by decide +kernel⟩⟩

end MarkupExport.FootnoteDefinitions
