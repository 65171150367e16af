import MarkupExport.Footnote.Definitions

/-! The definition of a label is the first node of the tree, in document order, that defines it. -/

namespace MarkupExport

/-- The node is a definition with this label. -/
def Node.Defines (label : String) (node : Node) : Prop :=
  node.kind = .footnoteDefinition ∧ node.textProperty? "label" = some label

instance (label : String) (node : Node) : Decidable (node.Defines label) :=
  inferInstanceAs (Decidable (_ ∧ _))

namespace FootnoteDefinitions

theorem label?_eq_some_iff {node : Node} {label : String} :
    label? node = some label ↔ node.Defines label := by
  by_cases definition : node.kind = .footnoteDefinition <;>
    simp [label?, Node.Defines, definition]

theorem get?_add (definitions : FootnoteDefinitions) (node : Node) (label : String) :
    (definitions.add node).get? label =
      (definitions.get? label).or (if node.Defines label then some node else none) := by
  rw [add]
  split
  · next unlabelled =>
      have other : ¬ node.Defines label := by
        rw [← label?_eq_some_iff, unlabelled]
        nofun
      simp [other]
  · next own labelled =>
      have defines : node.Defines label ↔ own = label := by
        rw [← label?_eq_some_iff, labelled, Option.some.injEq]
      split
      · next known =>
          by_cases equal : own = label
          · have defined : (definitions.get? label).isSome := by
              rw [get?, ← equal, List.lookup_isSome_iff]
              simpa using known
            rcases Option.isSome_iff_exists.mp defined with ⟨definition, found⟩
            simp [found]
          · simp [defines, equal]
      · rw [get?, List.lookup_append]
        by_cases equal : own = label
        · simp [defines, equal, get?]
        · have different : (label == own) = false := by simpa using Ne.symm equal
          simp [defines, equal, get?, List.lookup_cons, different]

theorem get?_foldl_add (nodes : List Node) (definitions : FootnoteDefinitions) (label : String) :
    (nodes.foldl add definitions).get? label =
      (definitions.get? label).or (nodes.find? fun node => node.Defines label) := by
  induction nodes generalizing definitions with
  | nil => simp
  | cons head tail induction =>
      rw [List.foldl_cons, induction, get?_add, Option.or_assoc]
      by_cases defines : head.Defines label <;> simp [defines]

theorem get?_ofTree (tree : Node) (label : String) :
    (ofTree tree).get? label = tree.walk.find? fun node => node.Defines label := by
  rw [ofTree, get?_foldl_add]
  rfl

end FootnoteDefinitions

end MarkupExport
