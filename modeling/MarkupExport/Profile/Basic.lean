import MarkupExport.Node.Kind
import MarkupExport.Profile.Style

/-!
Profiles. A dialect is the choices of its styles together with a policy for every kind of node:
the node is rendered, dropped with everything in it, or refused.
-/

namespace MarkupExport

/-- How a rendered node is made of its properties and the rendered contents. -/
inductive Rule where
  | document
  | paragraph
  | section
  | quoteBlock
  | horizontalRule
  | lineBreak
  | sourceBlock
  | table
  | tableRow
  | tableCell
  | headline
  | bold
  | italic
  | underline
  | strikeThrough
  | monospace
  | link
  | list
  | item
deriving DecidableEq, Repr

/-- What renders a node: a rule, or the footnotes, which alone change the state of the export. -/
inductive Handler where
  | rule (rule : Rule)
  | footnoteReference
deriving DecidableEq, Repr

inductive Policy where
  | fail
  | skip
  | handle (handler : Handler)
deriving DecidableEq, Repr

structure Profile where
  name : String
  delimiters : Delimiters
  text : TextStyle
  inlineTags : InlineTags
  headlines : HeadlineStyle
  paragraph : BlockStyle
  sectionBlock : BlockStyle
  quote : BlockStyle
  /-- The name of the tag for a horizontal rule. -/
  rule : String
  /-- The text of a line break, in dialects that have one. -/
  lineBreak : Option String
  source : SourceStyle
  links : LinkStyle
  lists : ListStyle
  tables : TableStyle
  footnotes : FootnoteStyle
  /-- The tag around a whole document. -/
  template : Option Tag
  policy : NodeKind → Policy

namespace Profile

def withPolicy (profile : Profile) (kind : NodeKind) (policy : Policy) : Profile :=
  { profile with policy := fun other => if other = kind then policy else profile.policy other }

end Profile

end MarkupExport
