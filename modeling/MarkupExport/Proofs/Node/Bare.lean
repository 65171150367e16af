import MarkupExport.Proofs.Footnote.Definitions
import MarkupExport.Proofs.Node.Parts

/-!
Trees without their footnote definitions. In a bare tree every definition is taken out of the list
of nodes that it stands in, with all that is inside it; what can be read of any other node can be
read of its bare form.
-/

namespace MarkupExport

mutual

def Node.bare : Node → Node
  | ⟨kind, children, properties⟩ => ⟨kind, Node.bareAll children, Properties.bare properties⟩

def Node.bareAll : List Node → List Node
  | [] => []
  | node :: nodes =>
    if node.kind = .footnoteDefinition then Node.bareAll nodes
    else node.bare :: Node.bareAll nodes

def Properties.bare : List (String × Property) → List (String × Property)
  | [] => []
  | (name, property) :: properties => (name, property.bare) :: Properties.bare properties

def Property.bare : Property → Property
  | .nodes values => .nodes (Node.bareAll values)
  | .bool value => .bool value
  | .int value => .int value
  | .text value => .text value

end

theorem Property.bare_eq (property : Property) :
    property.bare = property.withNodes Node.bareAll := by
  cases property <;> rfl

theorem Properties.lookup_bare (properties : List (String × Property)) (name : String) :
    (Properties.bare properties).lookup name =
      (properties.lookup name).map (Property.withNodes Node.bareAll) := by
  induction properties with
  | nil => rfl
  | cons entry properties induction =>
      rcases entry with ⟨other, property⟩
      rw [Properties.bare, Ascending.lookup_cons_eq, Ascending.lookup_cons_eq, induction,
        Property.bare_eq]
      split <;> rfl

namespace Node

theorem bare_eq (node : Node) :
    node.bare = ⟨node.kind, bareAll node.children, Properties.bare node.properties⟩ := by
  rcases node with ⟨kind, children, properties⟩
  rw [bare]

theorem lookup_bare (node : Node) (name : String) :
    node.bare.properties.lookup name =
      (node.properties.lookup name).map (Property.withNodes bareAll) := by
  rw [bare_eq, Properties.lookup_bare]

theorem kind_eq_of_bare_eq {left right : Node} (same : left.bare = right.bare) :
    left.kind = right.kind := by
  rw [bare_eq, bare_eq] at same
  exact (Node.mk.inj same).1

/-! ## Bare lists -/

theorem bareAll_cons_of_definition {node : Node} (definition : node.kind = .footnoteDefinition)
    (nodes : List Node) : bareAll (node :: nodes) = bareAll nodes := by
  rw [bareAll, if_pos definition]

theorem bareAll_cons_of_ne {node : Node} (other : node.kind ≠ .footnoteDefinition)
    (nodes : List Node) : bareAll (node :: nodes) = node.bare :: bareAll nodes := by
  rw [bareAll, if_neg other]

/-- A list is bare of everything if it holds nothing but definitions. -/
theorem eq_definitions_of_bareAll_eq_nil {nodes : List Node} (nothing : bareAll nodes = []) :
    ∀ node ∈ nodes, node.kind = .footnoteDefinition := by
  induction nodes with
  | nil => intro node member; cases member
  | cons head tail induction =>
      by_cases definition : head.kind = .footnoteDefinition
      · rw [bareAll_cons_of_definition definition] at nothing
        exact List.forall_mem_cons.mpr ⟨definition, induction nothing⟩
      · rw [bareAll_cons_of_ne definition] at nothing
        cases nothing

/-- Before the first node of a bare list nothing but definitions may stand. -/
theorem exists_of_bareAll_eq_cons {nodes rest : List Node} {first : Node}
    (equal : bareAll nodes = first :: rest) :
    ∃ front node back, nodes = front ++ node :: back ∧
      (∀ definition ∈ front, definition.kind = .footnoteDefinition) ∧
      node.bare = first ∧ bareAll back = rest := by
  induction nodes with
  | nil => cases equal
  | cons head tail induction =>
      by_cases definition : head.kind = .footnoteDefinition
      · rw [bareAll_cons_of_definition definition] at equal
        rcases induction equal with ⟨front, node, back, rfl, inFront, same, after⟩
        exact ⟨head :: front, node, back, rfl, List.forall_mem_cons.mpr ⟨definition, inFront⟩,
          same, after⟩
      · rw [bareAll_cons_of_ne definition] at equal
        rcases List.cons.inj equal with ⟨same, after⟩
        exact ⟨[], head, tail, rfl, nofun, same, after⟩

theorem isEmpty_bareAll {nodes : List Node}
    (clear : ∀ node ∈ nodes, node.kind ≠ .footnoteDefinition) :
    (bareAll nodes).isEmpty = nodes.isEmpty := by
  cases nodes with
  | nil => rfl
  | cons head tail =>
      rw [bareAll_cons_of_ne (clear head List.mem_cons_self)]
      rfl

/-! ## Footnotes of a tree -/

/-- No reference has a definition among its children. -/
def ReferencesClear (tree : Node) : Prop :=
  ∀ node ∈ tree.walk, node.kind = .footnoteReference →
    ∀ child ∈ node.children, child.kind ≠ .footnoteDefinition

instance (tree : Node) : Decidable tree.ReferencesClear :=
  inferInstanceAs (Decidable (∀ node ∈ tree.walk, _ → ∀ child ∈ node.children, _))

/-- The labels that the references of the tree refer to. -/
def referredLabels (tree : Node) : List String :=
  (tree.walk.filter fun node => node.kind = .footnoteReference).filterMap (·.textProperty? "label")

theorem mem_referredLabels {tree node : Node} {label : String} (inside : node ∈ tree.walk)
    (kind : node.kind = .footnoteReference) (labelled : node.textProperty? "label" = some label) :
    label ∈ tree.referredLabels :=
  List.mem_filterMap.mpr ⟨node, List.mem_filter.mpr ⟨inside, by simpa using kind⟩, labelled⟩

/-- What the tree has to say under a label, without the definitions that stand in there. -/
def bareNote (tree : Node) (label : String) : Option (List Node) :=
  ((FootnoteDefinitions.ofTree tree).get? label).map fun definition => bareAll definition.children

end Node

end MarkupExport
