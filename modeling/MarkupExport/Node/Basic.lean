import MarkupExport.Ascending
import MarkupExport.Node.Kind

/-!
Document trees. A node has a kind, ordered children and named properties; a property may itself
hold nodes (the title of a headline, the term of an item). The properties of a node are a map,
kept as a list in ascending order of the names.
-/

namespace MarkupExport

mutual

structure Node where
  kind : NodeKind
  children : List Node := []
  properties : List (String × Property) := []

inductive Property where
  | bool (value : Bool)
  | int (value : Int64)
  | text (value : String)
  | nodes (values : List Node)

end

abbrev Properties := List (String × Property)

/-! Equality of trees is decided part by part. -/

mutual

def Node.decideEq : (left right : Node) → Decidable (left = right)
  | ⟨leftKind, leftChildren, leftProperties⟩, ⟨rightKind, rightChildren, rightProperties⟩ =>
    if kinds : leftKind = rightKind then
      match Node.decideEqAll leftChildren rightChildren with
      | isTrue children =>
        match Properties.decideEq leftProperties rightProperties with
        | isTrue properties => isTrue (by rw [kinds, children, properties])
        | isFalse different => isFalse fun equal => different (Node.mk.inj equal).2.2
      | isFalse different => isFalse fun equal => different (Node.mk.inj equal).2.1
    else isFalse fun equal => kinds (Node.mk.inj equal).1

def Node.decideEqAll : (left right : List Node) → Decidable (left = right)
  | [], [] => isTrue rfl
  | [], _ :: _ => isFalse nofun
  | _ :: _, [] => isFalse nofun
  | left :: lefts, right :: rights =>
    match Node.decideEq left right with
    | isTrue head =>
      match Node.decideEqAll lefts rights with
      | isTrue tail => isTrue (by rw [head, tail])
      | isFalse different => isFalse fun equal => different (List.cons.inj equal).2
    | isFalse different => isFalse fun equal => different (List.cons.inj equal).1

def Properties.decideEq : (left right : List (String × Property)) → Decidable (left = right)
  | [], [] => isTrue rfl
  | [], _ :: _ => isFalse nofun
  | _ :: _, [] => isFalse nofun
  | (leftName, left) :: lefts, (rightName, right) :: rights =>
    if names : leftName = rightName then
      match Property.decideEq left right with
      | isTrue head =>
        match Properties.decideEq lefts rights with
        | isTrue tail => isTrue (by rw [names, head, tail])
        | isFalse different => isFalse fun equal => different (List.cons.inj equal).2
      | isFalse different =>
        isFalse fun equal => different (Prod.mk.inj (List.cons.inj equal).1).2
    else isFalse fun equal => names (Prod.mk.inj (List.cons.inj equal).1).1

def Property.decideEq : (left right : Property) → Decidable (left = right)
  | .bool left, .bool right =>
    if equal : left = right then isTrue (by rw [equal])
    else isFalse fun same => equal (Property.bool.inj same)
  | .int left, .int right =>
    if equal : left = right then isTrue (by rw [equal])
    else isFalse fun same => equal (Property.int.inj same)
  | .text left, .text right =>
    if equal : left = right then isTrue (by rw [equal])
    else isFalse fun same => equal (Property.text.inj same)
  | .nodes left, .nodes right =>
    match Node.decideEqAll left right with
    | isTrue equal => isTrue (by rw [equal])
    | isFalse different => isFalse fun same => different (Property.nodes.inj same)
  | .bool _, .int _ | .bool _, .text _ | .bool _, .nodes _ => isFalse nofun
  | .int _, .bool _ | .int _, .text _ | .int _, .nodes _ => isFalse nofun
  | .text _, .bool _ | .text _, .int _ | .text _, .nodes _ => isFalse nofun
  | .nodes _, .bool _ | .nodes _, .int _ | .nodes _, .text _ => isFalse nofun

end

instance : DecidableEq Node := Node.decideEq

instance : DecidableEq Property := Property.decideEq

namespace Node

/-! Building trees. -/

def withChild (node : Node) (child : Node) : Node :=
  { node with children := node.children ++ [child] }

/-- Gives the property this value, in place of any it had. -/
def withProperty (node : Node) (name : String) (value : Property) : Node :=
  { node with properties := Ascending.insert name value node.properties }

/-- A piece of plain text. -/
def text (value : String) : Node :=
  { kind := .plainText, properties := [("value", .text value)] }

example : text "a" = (Node.mk .plainText [] []).withProperty "value" (.text "a") := rfl

/-! Looking properties up. A property of another type counts as absent. -/

def textProperty? (node : Node) (name : String) : Option String :=
  match node.properties.lookup name with
  | some (.text value) => some value
  | _ => none

def intProperty? (node : Node) (name : String) : Option Int64 :=
  match node.properties.lookup name with
  | some (.int value) => some value
  | _ => none

/-- The property is present and `true`. -/
def flag (node : Node) (name : String) : Bool :=
  match node.properties.lookup name with
  | some (.bool value) => value
  | _ => false

def nodesProperty? (node : Node) (name : String) : Option (List Node) :=
  match node.properties.lookup name with
  | some (.nodes values) => some values
  | _ => none

end Node

/-! The names of a node's properties ascend, here and in every node inside it. -/

mutual

def Node.IsOrdered : Node → Prop
  | ⟨_, children, properties⟩ =>
    Node.AllOrdered children ∧ Ascending.IsAscending properties ∧ Properties.AllOrdered properties

def Node.AllOrdered : List Node → Prop
  | [] => True
  | node :: nodes => node.IsOrdered ∧ Node.AllOrdered nodes

def Properties.AllOrdered : List (String × Property) → Prop
  | [] => True
  | (_, property) :: properties => property.IsOrdered ∧ Properties.AllOrdered properties

def Property.IsOrdered : Property → Prop
  | .nodes values => Node.AllOrdered values
  | .bool _ | .int _ | .text _ => True

end

end MarkupExport
