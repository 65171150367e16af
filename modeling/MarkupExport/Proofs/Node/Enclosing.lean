import MarkupExport.Proofs.Node.Parts

/-!
The innermost list around each node of a tree. A footnote definition stands outside the lists
around it: its contents are shown where it is referred to.
-/

namespace MarkupExport

namespace Node

/-- The innermost list around the parts of a node, from the one around the node itself. -/
def enclosingParts (node : Node) (enclosing : Option Node) : Option Node :=
  if node.kind = .list then some node
  else if node.kind = .footnoteDefinition then none
  else enclosing

/-- The node stands somewhere in the tree, and this is the innermost list around it there. -/
inductive Occurs (tree : Node) : Option Node → Node → Prop
  | root : Occurs tree none tree
  | part {enclosing node part} : Occurs tree enclosing node → part ∈ node.parts →
      Occurs tree (node.enclosingParts enclosing) part

/-- Every item lies inside a list, with no footnote definition in between. -/
def ItemsListed (tree : Node) : Prop :=
  ∀ enclosing node, Occurs tree enclosing node → node.kind = .item → enclosing.isSome

namespace Occurs

variable {tree : Node}

theorem of_mem_walk {node inner : Node} {enclosing : Option Node}
    (occurs : Occurs tree enclosing node) (inside : inner ∈ node.walk) :
    ∃ innermost, Occurs tree innermost inner := by
  induction node using Node.induct generalizing enclosing with
  | step node induction =>
      rw [walk_eq] at inside
      rcases List.mem_cons.mp inside with equal | inParts
      · subst equal
        exact ⟨enclosing, occurs⟩
      · rcases List.mem_flatMap.mp inParts with ⟨part, member, inPart⟩
        exact induction part member (occurs.part member) inPart

/-- A collection that holds the root, and with a node also its parts, holds every node. -/
theorem closed (collection : Option Node → Node → Prop) {enclosing : Option Node} {node : Node}
    (occurs : Occurs tree enclosing node) (root : collection none tree)
    (parts : ∀ enclosing node, collection enclosing node →
      ∀ part ∈ node.parts, collection (node.enclosingParts enclosing) part) :
    collection enclosing node := by
  induction occurs with
  | root => exact root
  | part _ member induction => exact parts _ _ induction _ member

/-- Outside of lists, what stands in a part stands in the whole in the same way. -/
theorem of_part {part inner : Node} {enclosing : Option Node} (outside : tree.kind ≠ .list)
    (inside : part ∈ tree.parts) (occurs : Occurs part enclosing inner) :
    Occurs tree enclosing inner := by
  induction occurs with
  | root =>
      have around : tree.enclosingParts none = none := by simp [enclosingParts, outside]
      exact around ▸ Occurs.root.part inside
  | part _ member induction => exact induction.part member

theorem isList {list node : Node} (occurs : Occurs tree (some list) node) :
    list.kind = .list := by
  generalize around : some list = enclosing at occurs
  induction occurs with
  | root => cases around
  | part _ _ induction =>
      rw [enclosingParts] at around
      split at around
      · next isList =>
        cases around
        exact isList
      split at around
      · cases around
      · exact induction around

end Occurs

namespace ItemsListed

variable {tree : Node} (listed : tree.ItemsListed)

include listed

theorem ne_item : tree.kind ≠ .item := by
  intro item
  exact absurd (listed none tree .root item) Bool.false_ne_true

theorem part {part : Node} (outside : tree.kind ≠ .list) (inside : part ∈ tree.parts) :
    part.ItemsListed :=
  fun enclosing node occurs => listed enclosing node (occurs.of_part outside inside)

end ItemsListed

/-- The nodes of a tree down to a depth, each with the innermost list around it. -/
def places (tree : Node) : Nat → List (Option Node × Node)
  | 0 => [(none, tree)]
  | depth + 1 => (none, tree) :: (tree.places depth).flatMap fun place =>
      place.2.parts.map fun part => (place.2.enclosingParts place.1, part)

/-- Both premises can be decided once nothing lies deeper. -/
theorem itemsListed_of_places {tree : Node} (depth : Nat)
    (deep : ∀ place ∈ tree.places depth, ∀ part ∈ place.2.parts,
      (place.2.enclosingParts place.1, part) ∈ tree.places depth)
    (items : ∀ place ∈ tree.places depth, place.2.kind = .item → place.1.isSome) :
    tree.ItemsListed := by
  intro enclosing node occurs item
  have inside : (enclosing, node) ∈ tree.places depth := by
    refine Occurs.closed (fun enclosing node => (enclosing, node) ∈ tree.places depth) occurs ?_
      fun enclosing node member part inside => deep (enclosing, node) member part inside
    cases depth with
    | zero => exact List.mem_cons_self
    | succ depth => exact List.mem_cons_self
  exact items (enclosing, node) inside item

end Node

end MarkupExport
