import Mathlib.Data.List.Basic
import MarkupExport.Proofs.Footnote.Definitions
import MarkupExport.Proofs.Node.Parts

/-!
Trees under other labels. Only footnote references and definitions carry labels; in a relabelled
tree each of them has its label renamed, wherever in the tree it stands, and all else that can be
read of a node is the same. If no two labels become one, then a definition is found under the new
label just where it was found under the old one.
-/

namespace MarkupExport

/-- Nodes of this kind name a footnote by their label. -/
def NodeKind.isLabelled (kind : NodeKind) : Bool :=
  kind = .footnoteReference || kind = .footnoteDefinition

mutual

def Node.relabelled (rename : String → String) : Node → Node
  | ⟨kind, children, properties⟩ =>
    ⟨kind, Node.relabelledAll rename children,
      Properties.relabelled rename kind.isLabelled properties⟩

def Node.relabelledAll (rename : String → String) : List Node → List Node
  | [] => []
  | node :: nodes => node.relabelled rename :: Node.relabelledAll rename nodes

def Properties.relabelled (rename : String → String) (labelled : Bool) :
    List (String × Property) → List (String × Property)
  | [] => []
  | (name, property) :: properties =>
    (name, property.relabelled rename (labelled && name = "label")) ::
      Properties.relabelled rename labelled properties

def Property.relabelled (rename : String → String) (isLabel : Bool) : Property → Property
  | .nodes values => .nodes (Node.relabelledAll rename values)
  | .text value => .text (if isLabel then rename value else value)
  | .bool value => .bool value
  | .int value => .int value

end

section Parts

variable (rename : String → String)

theorem Node.relabelledAll_eq (nodes : List Node) :
    Node.relabelledAll rename nodes = nodes.map (Node.relabelled rename) := by
  induction nodes with
  | nil => rfl
  | cons head tail induction => rw [Node.relabelledAll, induction, List.map_cons]

theorem Property.parts_relabelled (isLabel : Bool) (property : Property) :
    (property.relabelled rename isLabel).parts =
      property.parts.map (Node.relabelled rename) := by
  cases property with
  | nodes values => exact Node.relabelledAll_eq rename values
  | bool _ | int _ | text _ => rfl

theorem Properties.parts_relabelled (labelled : Bool) (properties : List (String × Property)) :
    ((Properties.relabelled rename labelled properties).flatMap fun entry => entry.2.parts) =
      (properties.flatMap fun entry => entry.2.parts).map (Node.relabelled rename) := by
  induction properties with
  | nil => rfl
  | cons entry properties induction =>
      rcases entry with ⟨name, property⟩
      rw [Properties.relabelled, List.flatMap_cons, List.flatMap_cons, induction,
        Property.parts_relabelled, List.map_append]

theorem Properties.lookup_relabelled (labelled : Bool) (properties : List (String × Property))
    (name : String) :
    (Properties.relabelled rename labelled properties).lookup name =
      (properties.lookup name).map (Property.relabelled rename (labelled && name = "label")) := by
  induction properties with
  | nil => rfl
  | cons entry properties induction =>
      rcases entry with ⟨other, property⟩
      rw [Properties.relabelled, Ascending.lookup_cons_eq, Ascending.lookup_cons_eq, induction]
      by_cases same : name = other
      · rw [if_pos same, if_pos same, same, Option.map_some]
      · rw [if_neg same, if_neg same]

end Parts

namespace Node

section Reading

variable (rename : String → String) (node : Node) (name : String)

theorem relabelled_eq :
    node.relabelled rename = ⟨node.kind, node.children.map (relabelled rename),
      Properties.relabelled rename node.kind.isLabelled node.properties⟩ := by
  rcases node with ⟨kind, children, properties⟩
  rw [relabelled, relabelledAll_eq]

@[simp] theorem kind_relabelled : (node.relabelled rename).kind = node.kind := by
  rw [relabelled_eq]

@[simp] theorem children_relabelled :
    (node.relabelled rename).children = node.children.map (relabelled rename) := by
  rw [relabelled_eq]

theorem lookup_relabelled :
    (node.relabelled rename).properties.lookup name = (node.properties.lookup name).map
      (Property.relabelled rename (node.kind.isLabelled && name = "label")) := by
  rw [relabelled_eq, Properties.lookup_relabelled]

@[simp] theorem intProperty?_relabelled :
    (node.relabelled rename).intProperty? name = node.intProperty? name := by
  rw [intProperty?, intProperty?, lookup_relabelled]
  cases node.properties.lookup name with
  | none => rfl
  | some property => cases property <;> rfl

@[simp] theorem flag_relabelled : (node.relabelled rename).flag name = node.flag name := by
  rw [flag, flag, lookup_relabelled]
  cases node.properties.lookup name with
  | none => rfl
  | some property => cases property <;> rfl

@[simp] theorem nodesProperty?_relabelled :
    (node.relabelled rename).nodesProperty? name =
      (node.nodesProperty? name).map fun values => values.map (relabelled rename) := by
  rw [nodesProperty?, nodesProperty?, lookup_relabelled]
  cases node.properties.lookup name with
  | none => rfl
  | some property =>
      cases property with
      | nodes values => exact congrArg some (relabelledAll_eq rename values)
      | bool _ | int _ | text _ => rfl

theorem textProperty?_relabelled :
    (node.relabelled rename).textProperty? name =
      if node.kind.isLabelled && name = "label" then (node.textProperty? name).map rename
      else node.textProperty? name := by
  rw [textProperty?, textProperty?, lookup_relabelled]
  cases node.properties.lookup name with
  | none => exact (ite_self none).symm
  | some property =>
      cases property with
      | text value => exact apply_ite some _ _ _
      | bool _ | int _ | nodes _ => exact (ite_self none).symm

@[simp] theorem textProperty?_relabelled_of_ne {name : String} (other : name ≠ "label") :
    (node.relabelled rename).textProperty? name = node.textProperty? name := by
  simp [textProperty?_relabelled, other]

theorem label_relabelled {node : Node} (labelled : node.kind.isLabelled = true) :
    (node.relabelled rename).textProperty? "label" =
      (node.textProperty? "label").map rename := by
  simp [textProperty?_relabelled, labelled]

theorem parts_relabelled :
    (node.relabelled rename).parts = node.parts.map (relabelled rename) := by
  rw [relabelled_eq, parts, parts, List.map_append, Properties.parts_relabelled]

/-- Relabelled trees are walked in the same order. -/
theorem walk_relabelled :
    (node.relabelled rename).walk = node.walk.map (relabelled rename) := by
  induction node using Node.induct with
  | step node induction =>
      rw [walk_eq, walk_eq node, List.map_cons, parts_relabelled, List.flatMap_map,
        List.map_flatMap, List.flatMap_congr induction]

end Reading

section Injective

variable {rename : String → String} (injective : Function.Injective rename)

include injective

theorem defines_relabelled {node : Node} {label : String} :
    (node.relabelled rename).Defines (rename label) ↔ node.Defines label := by
  rw [Defines, Defines, kind_relabelled]
  apply and_congr_right
  intro definition
  rw [label_relabelled rename (by rw [definition]; rfl), Option.map_eq_some_iff]
  constructor
  · rintro ⟨own, found, equal⟩
    exact injective equal ▸ found
  · exact fun found => ⟨label, found, rfl⟩

theorem definition_relabelled (tree : Node) (label : String) :
    (FootnoteDefinitions.ofTree (tree.relabelled rename)).get? (rename label) =
      ((FootnoteDefinitions.ofTree tree).get? label).map (relabelled rename) := by
  have same : (fun node : Node => decide (node.Defines (rename label))) ∘ relabelled rename =
      fun node => decide (node.Defines label) := by
    funext node
    exact decide_eq_decide.mpr (defines_relabelled injective)
  rw [FootnoteDefinitions.get?_ofTree, FootnoteDefinitions.get?_ofTree, walk_relabelled,
    List.find?_map, same]

end Injective

end Node

end MarkupExport
