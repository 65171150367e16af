import MarkupExport.Json.Printer
import MarkupExport.Node.Basic

/-! Trees written as JSON. Children and properties are left out where there are none. -/

namespace MarkupExport

mutual

def Node.toJson : Node → Json
  | ⟨kind, children, properties⟩ =>
    let kindMember := (some "kind", Json.text (some kind.name))
    let childrenMember :=
      if children.isEmpty then [] else [(some "children", Json.array (Node.itemsToJson children))]
    let propertiesMember :=
      if properties.isEmpty then []
      else [(some "properties", Json.object (Properties.membersToJson properties))]
    .object (kindMember :: (childrenMember ++ propertiesMember))

def Node.itemsToJson : List Node → List Json
  | [] => []
  | node :: nodes => node.toJson :: Node.itemsToJson nodes

def Properties.membersToJson : List (String × Property) → List (Option String × Json)
  | [] => []
  | (name, property) :: properties =>
    (some name, property.toJson) :: Properties.membersToJson properties

def Property.toJson : Property → Json
  | .bool value => .bool value
  | .int value => .number (.ofInt value.toInt)
  | .text value => .text (some value)
  | .nodes values => .array (Node.itemsToJson values)

end

def Node.write (node : Node) : String :=
  node.toJson.toText

example : (Node.text "a").write =
    "\x7b\"kind\":\"plain-text\",\"properties\":\x7b\"value\":\"a\"\x7d\x7d" := by
  decide +kernel

end MarkupExport
