import MarkupExport.Json.Parser
import MarkupExport.Node.Basic

/-!
Trees read from JSON. A node is an object with the members `kind`, `children` and `properties`,
of which only the first is required, or an array of these three in this order. Other members are
passed over: outside property values they need only be well formed, inside them they must have a
value like everything else.
-/

namespace MarkupExport

/-! ## What is read -/

mutual

/-- The node without the members that are passed over. What is no node stays as it is. -/
def Json.readPart : Json → Json
  | .object members => .object (Json.readMembers members)
  | .array (kind :: children :: properties) =>
    .array (kind :: Json.readChildren children :: properties)
  | other => other

def Json.readMembers : List (Option String × Json) → List (Option String × Json)
  | [] => []
  | (key, value) :: members =>
    if key = some "kind" ∨ key = some "properties" ∨ key = none then
      (key, value) :: Json.readMembers members
    else if key = some "children" then
      (key, Json.readChildren value) :: Json.readMembers members
    else Json.readMembers members

def Json.readChildren : Json → Json
  | .array items => .array (Json.readItems items)
  | other => other

def Json.readItems : List Json → List Json
  | [] => []
  | item :: items => Json.readPart item :: Json.readItems items

end

mutual

/-- At most this many brackets are open at once, and every text and number has a value. -/
def Json.isReadable (limit : Nat) : Json → Bool
  | .null | .bool _ => true
  | .number literal => literal.inRange
  | .text value => value.isSome
  | .array items => 0 < limit && Json.areReadable (limit - 1) items
  | .object members => 0 < limit && Json.membersReadable (limit - 1) members

def Json.areReadable (limit : Nat) : List Json → Bool
  | [] => true
  | item :: items => Json.isReadable limit item && Json.areReadable limit items

def Json.membersReadable (limit : Nat) : List (Option String × Json) → Bool
  | [] => true
  | (key, value) :: members =>
    key.isSome && Json.isReadable limit value && Json.membersReadable limit members

end

/-! ## What it says -/

/-- A kind is its name, or an object whose one member has that name and no value. -/
def NodeKind.ofJson? : Json → Option NodeKind
  | .text (some name) | .object [(some name, .null)] => NodeKind.ofName? name
  | _ => none

/-- The members of a node that have been met. -/
structure NodeFields where
  kind : Option NodeKind := none
  children : Option (List Node) := none
  properties : Option Properties := none

/-- Leaving out children or properties is having none; a kind cannot be left out. -/
def NodeFields.node? (fields : NodeFields) : Option Node :=
  fields.kind.map fun kind =>
    { kind, children := fields.children.getD [], properties := fields.properties.getD [] }

mutual

def Node.ofJson? : Json → Option Node
  | .object members => (Node.fields? members).bind NodeFields.node?
  | .array [kind] => do return { kind := ← NodeKind.ofJson? kind }
  | .array [kind, children] => do
    return { kind := ← NodeKind.ofJson? kind, children := ← Node.children? children }
  | .array [kind, children, properties] => do
    return { kind := ← NodeKind.ofJson? kind, children := ← Node.children? children,
             properties := ← Properties.ofJson? properties }
  | _ => none

/-- No member of a node may be written twice. -/
def Node.fields? : List (Option String × Json) → Option NodeFields
  | [] => some {}
  | (none, _) :: _ => none
  | (some key, value) :: members => do
    let fields ← Node.fields? members
    if key = "kind" then
      guard fields.kind.isNone
      return { fields with kind := ← NodeKind.ofJson? value }
    else if key = "children" then
      guard fields.children.isNone
      return { fields with children := ← Node.children? value }
    else if key = "properties" then
      guard fields.properties.isNone
      return { fields with properties := ← Properties.ofJson? value }
    else return fields

def Node.children? : Json → Option (List Node)
  | .array items => Node.items? items
  | _ => none

def Node.items? : List Json → Option (List Node)
  | [] => some []
  | item :: items => do
    let node ← Node.ofJson? item
    return node :: (← Node.items? items)

/-- Of two values for one name the later is kept. -/
def Properties.ofJson? : Json → Option (List (String × Property))
  | .object members => (Properties.pairs? members).map Ascending.ofList
  | _ => none

def Properties.pairs? : List (Option String × Json) → Option (List (String × Property))
  | [] => some []
  | (none, _) :: _ => none
  | (some name, value) :: members => do
    let property ← Property.ofJson? value
    return (name, property) :: (← Properties.pairs? members)

def Property.ofJson? : Json → Option Property
  | .bool value => some (.bool value)
  | .number literal => literal.int64?.map .int
  | .text value => value.map .text
  | .array items => (Node.items? items).map .nodes
  | .null | .object _ => none

end

/-! ## Reading a text -/

/-- A tree may hold this many open brackets at once. -/
def Node.nestingLimit : Nat := 127

def Node.read? (text : String) : Option Node := do
  let tree := (← Json.parse? text).readPart
  guard (tree.isReadable Node.nestingLimit)
  Node.ofJson? tree

end MarkupExport
