import MarkupExport.Node.Walk

/-!
The footnote definitions of a tree. A label is defined by the first definition node in document
order that carries it, wherever in the tree that node stands.
-/

namespace MarkupExport

structure FootnoteDefinitions where
  entries : List (String × Node) := []
  nodup_labels : (entries.map Prod.fst).Nodup := by simp

namespace FootnoteDefinitions

/-- The label of a node that is a definition. -/
def label? (node : Node) : Option String :=
  if node.kind = .footnoteDefinition then node.textProperty? "label" else none

/-- Adds a node that defines a new label; others change nothing. -/
def add (definitions : FootnoteDefinitions) (node : Node) : FootnoteDefinitions :=
  match label? node with
  | none => definitions
  | some label =>
    if known : label ∈ definitions.entries.map Prod.fst then definitions
    else
      { entries := definitions.entries ++ [(label, node)]
        nodup_labels := by
          simp only [List.map_append, List.map_cons, List.map_nil]
          refine List.nodup_append.mpr ⟨definitions.nodup_labels, by simp, ?_⟩
          intro other member last inLast equal
          rw [List.mem_singleton.mp inLast] at equal
          exact known (equal ▸ member) }

def ofTree (tree : Node) : FootnoteDefinitions :=
  tree.walk.foldl add {}

def get? (definitions : FootnoteDefinitions) (label : String) : Option Node :=
  definitions.entries.lookup label

def size (definitions : FootnoteDefinitions) : Nat :=
  definitions.entries.length

end FootnoteDefinitions

end MarkupExport
