import MarkupExport.Node.Walk

/-!
The nodes that stand directly inside a node, whether as children or in properties. What holds of a
node whenever it holds of its parts holds of every node, and the walk of a tree is its root
followed by the walks of its parts.
-/

namespace MarkupExport

def Property.parts : Property → List Node
  | .nodes values => values
  | .bool _ | .int _ | .text _ => []

namespace Node

/-- The nodes directly inside a node, in document order. -/
def parts (node : Node) : List Node :=
  node.properties.flatMap (fun entry => entry.2.parts) ++ node.children

theorem children_sublist (node : Node) : node.children.Sublist node.parts :=
  List.sublist_append_right _ _

theorem mem_parts_of_child {node child : Node} (inside : child ∈ node.children) :
    child ∈ node.parts :=
  node.children_sublist.subset inside

theorem sublist_parts_of_nodesProperty {node : Node} {name : String} {values : List Node}
    (found : node.nodesProperty? name = some values) : values.Sublist node.parts := by
  rw [nodesProperty?] at found
  split at found
  · next kept keptAt =>
      cases found
      rcases List.lookup_eq_some_iff.mp keptAt with ⟨before, after, equal, _⟩
      rw [parts, equal, List.flatMap_append, List.flatMap_cons]
      have inProperties := (List.sublist_append_left values (after.flatMap fun entry =>
        entry.2.parts)).trans (List.sublist_append_right (before.flatMap fun entry =>
          entry.2.parts) _)
      exact inProperties.trans (List.sublist_append_left _ _)
  · cases found

theorem mem_parts_of_nodesProperty {node value : Node} {name : String} {values : List Node}
    (found : node.nodesProperty? name = some values) (inside : value ∈ values) :
    value ∈ node.parts :=
  (sublist_parts_of_nodesProperty found).subset inside

end Node

/-! ## Nodes under a view -/

/-- The property with these nodes in place of its own, if it has any. -/
def Property.withNodes (view : List Node → List Node) : Property → Property
  | .nodes values => .nodes (view values)
  | .bool value => .bool value
  | .int value => .int value
  | .text value => .text value

namespace Node

section View

variable {node other : Node} {view : List Node → List Node}
  (viewed : ∀ name, other.properties.lookup name =
    (node.properties.lookup name).map (Property.withNodes view))

include viewed

/-! A node whose properties differ in their nodes alone carries the same texts, numbers and flags. -/

theorem textProperty?_viewed (name : String) :
    other.textProperty? name = node.textProperty? name := by
  rw [textProperty?, textProperty?, viewed]
  cases node.properties.lookup name with
  | none => rfl
  | some property => cases property <;> rfl

theorem intProperty?_viewed (name : String) :
    other.intProperty? name = node.intProperty? name := by
  rw [intProperty?, intProperty?, viewed]
  cases node.properties.lookup name with
  | none => rfl
  | some property => cases property <;> rfl

theorem flag_viewed (name : String) : other.flag name = node.flag name := by
  rw [flag, flag, viewed]
  cases node.properties.lookup name with
  | none => rfl
  | some property => cases property <;> rfl

theorem nodesProperty?_viewed (name : String) :
    other.nodesProperty? name = (node.nodesProperty? name).map view := by
  rw [nodesProperty?, nodesProperty?, viewed]
  cases node.properties.lookup name with
  | none => rfl
  | some property => cases property <;> rfl

end View

end Node

/-! ## Induction over trees -/

mutual

theorem Node.induct {motive : Node → Prop}
    (step : ∀ node : Node, (∀ part ∈ node.parts, motive part) → motive node) :
    ∀ node : Node, motive node
  | ⟨kind, children, properties⟩ => by
      apply step
      intro part inside
      rcases List.mem_append.mp inside with inProperty | inChildren
      · rcases List.mem_flatMap.mp inProperty with ⟨entry, member, inEntry⟩
        exact Properties.induct step properties entry member part inEntry
      · exact Node.inductAll step children part inChildren

theorem Node.inductAll {motive : Node → Prop}
    (step : ∀ node : Node, (∀ part ∈ node.parts, motive part) → motive node) :
    ∀ nodes : List Node, ∀ node ∈ nodes, motive node
  | [], _, member => nomatch member
  | head :: tail, node, member => by
      rcases List.mem_cons.mp member with equal | inTail
      · exact equal ▸ Node.induct step head
      · exact Node.inductAll step tail node inTail

theorem Properties.induct {motive : Node → Prop}
    (step : ∀ node : Node, (∀ part ∈ node.parts, motive part) → motive node) :
    ∀ properties : List (String × Property), ∀ entry ∈ properties,
      ∀ part ∈ entry.2.parts, motive part
  | [], _, member => nomatch member
  | (_, property) :: properties, entry, member => by
      rcases List.mem_cons.mp member with equal | inTail
      · exact equal ▸ Property.induct step property
      · exact Properties.induct step properties entry inTail

theorem Property.induct {motive : Node → Prop}
    (step : ∀ node : Node, (∀ part ∈ node.parts, motive part) → motive node) :
    ∀ property : Property, ∀ part ∈ property.parts, motive part
  | .nodes values => Node.inductAll step values
  | .bool _ | .int _ | .text _ => fun _ member => nomatch member

end

/-! ## Order inside the parts -/

theorem Node.allOrdered_iff {nodes : List Node} :
    Node.AllOrdered nodes ↔ ∀ node ∈ nodes, node.IsOrdered := by
  induction nodes with
  | nil => simp [Node.AllOrdered]
  | cons head tail induction => simp [Node.AllOrdered, induction]

theorem Properties.allOrdered_iff {properties : List (String × Property)} :
    Properties.AllOrdered properties ↔ ∀ entry ∈ properties, entry.2.IsOrdered := by
  induction properties with
  | nil => simp [Properties.AllOrdered]
  | cons entry properties induction => simp [Properties.AllOrdered, induction]

theorem Node.IsOrdered.ascending {node : Node} (ordered : node.IsOrdered) :
    Ascending.IsAscending node.properties := by
  rcases node with ⟨kind, children, properties⟩
  exact ordered.2.1

theorem Node.IsOrdered.part {node part : Node} (ordered : node.IsOrdered)
    (inside : part ∈ node.parts) : part.IsOrdered := by
  rcases node with ⟨kind, children, properties⟩
  rcases ordered with ⟨inChildren, _, inProperties⟩
  rcases List.mem_append.mp inside with inProperty | inChild
  · rcases List.mem_flatMap.mp inProperty with ⟨⟨name, property⟩, member, inEntry⟩
    have entry := Properties.allOrdered_iff.mp inProperties _ member
    cases property with
    | nodes values => exact Node.allOrdered_iff.mp entry part inEntry
    | bool _ | int _ | text _ => cases inEntry
  · exact Node.allOrdered_iff.mp inChildren part inChild

/-! ## The walk of a tree -/

theorem Node.walkAll_eq (nodes : List Node) : Node.walkAll nodes = nodes.flatMap Node.walk := by
  induction nodes with
  | nil => rfl
  | cons head tail induction => rw [Node.walkAll, induction, List.flatMap_cons]

theorem Property.walk_eq (property : Property) :
    property.walk = property.parts.flatMap Node.walk := by
  cases property with
  | nodes values => exact Node.walkAll_eq values
  | bool _ => rfl
  | int _ => rfl
  | text _ => rfl

theorem Properties.walk_eq (properties : List (String × Property)) :
    Properties.walk properties =
      (properties.flatMap fun entry => entry.2.parts).flatMap Node.walk := by
  induction properties with
  | nil => rfl
  | cons entry properties induction =>
      rcases entry with ⟨name, property⟩
      rw [Properties.walk, Property.walk_eq, induction, List.flatMap_cons, List.flatMap_append]

namespace Node

theorem walk_eq (node : Node) : node.walk = node :: node.parts.flatMap Node.walk := by
  rcases node with ⟨kind, children, properties⟩
  rw [walk, Properties.walk_eq, walkAll_eq, parts, List.flatMap_append]

theorem mem_walk_self (node : Node) : node ∈ node.walk := by
  rw [walk_eq]
  exact List.mem_cons_self

theorem mem_walk_of_part {node part inner : Node} (inside : part ∈ node.parts)
    (member : inner ∈ part.walk) : inner ∈ node.walk := by
  rw [walk_eq]
  exact List.mem_cons_of_mem _ (List.mem_flatMap.mpr ⟨part, inside, member⟩)

theorem mem_walk_trans {outer middle inner : Node} (inside : middle ∈ outer.walk)
    (member : inner ∈ middle.walk) : inner ∈ outer.walk := by
  induction outer using Node.induct with
  | step outer induction =>
      rw [walk_eq] at inside
      rcases List.mem_cons.mp inside with equal | inParts
      · exact equal ▸ member
      · rcases List.mem_flatMap.mp inParts with ⟨part, partInside, inPart⟩
        exact mem_walk_of_part partInside (induction part partInside inPart)

end Node

end MarkupExport
