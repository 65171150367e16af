import MarkupExport.Export.Options
import MarkupExport.Footnote.Definitions
import MarkupExport.Footnote.Register
import MarkupExport.Profile.Basic

/-!
The state of one export: what was asked for, the definitions of the tree, the list that encloses
the current node, the rendered nodes of its properties, and the footnotes met so far.
-/

namespace MarkupExport

structure Context where
  options : ExportOptions
  profile : Profile
  definitions : FootnoteDefinitions
  /-- The kind of the innermost list, inside one of a known kind. -/
  scope : Option ListKind := none
  /-- The rendered node-valued properties of the node that is being written. -/
  secondary : List (String × String) := []
  footnotes : FootnoteRegister := {}

namespace Context

def start (tree : Node) (options : ExportOptions) (profile : Profile) : Context where
  options
  profile
  definitions := .ofTree tree

/-- The text of a property: its rendered nodes, or else its plain text. -/
def secondaryText? (context : Context) (node : Node) (name : String) : Option String :=
  match context.secondary.lookup name with
  | some rendered => some rendered
  | none => (node.textProperty? name).map context.profile.text.render

end Context

end MarkupExport
