import MarkupExport.Node.Basic

/-!
Document order. A node comes first, then the nodes of its node-valued properties in ascending
order of the property names, then its children; the same holds inside each of them.
-/

namespace MarkupExport

mutual

/-- Every node of the tree, the root included, in document order. -/
def Node.walk : Node → List Node
  | ⟨kind, children, properties⟩ =>
    ⟨kind, children, properties⟩ :: (Properties.walk properties ++ Node.walkAll children)

def Node.walkAll : List Node → List Node
  | [] => []
  | node :: nodes => node.walk ++ Node.walkAll nodes

def Properties.walk : List (String × Property) → List Node
  | [] => []
  | (_, property) :: properties => property.walk ++ Properties.walk properties

def Property.walk : Property → List Node
  | .nodes values => Node.walkAll values
  | .bool _ | .int _ | .text _ => []

end

/-- A title stands before the body. -/
example :
    let headline : Node :=
      { kind := .headline, children := [.text "body"],
        properties := [("title", .nodes [.text "title"])] }
    headline.walk.filterMap (·.textProperty? "value") = ["title", "body"] := by
  decide +kernel

end MarkupExport
