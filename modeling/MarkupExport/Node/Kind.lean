/-! Node kinds and the names under which they are written. -/

namespace MarkupExport

/-- What a node of a document tree stands for. -/
inductive NodeKind where
  | document
  | headline
  | section
  | paragraph
  | bold
  | italic
  | underline
  | strikeThrough
  | code
  | verbatim
  | plainText
  | sourceBlock
  | quoteBlock
  | link
  | list
  | item
  | table
  | tableRow
  | tableCell
  | footnoteReference
  | footnoteDefinition
  | lineBreak
  | horizontalRule
  | keyword
  | comment
  | planning
  | propertyDrawer
  | timestamp
deriving DecidableEq, Repr

namespace NodeKind

def all : List NodeKind :=
  [.document, .headline, .section, .paragraph, .bold, .italic, .underline, .strikeThrough,
    .code, .verbatim, .plainText, .sourceBlock, .quoteBlock, .link, .list, .item, .table,
    .tableRow, .tableCell, .footnoteReference, .footnoteDefinition, .lineBreak,
    .horizontalRule, .keyword, .comment, .planning, .propertyDrawer, .timestamp]

/-- The words of a kind's name in lower case, joined by hyphens. -/
def name : NodeKind → String
  | .document => "document"
  | .headline => "headline"
  | .section => "section"
  | .paragraph => "paragraph"
  | .bold => "bold"
  | .italic => "italic"
  | .underline => "underline"
  | .strikeThrough => "strike-through"
  | .code => "code"
  | .verbatim => "verbatim"
  | .plainText => "plain-text"
  | .sourceBlock => "source-block"
  | .quoteBlock => "quote-block"
  | .link => "link"
  | .list => "list"
  | .item => "item"
  | .table => "table"
  | .tableRow => "table-row"
  | .tableCell => "table-cell"
  | .footnoteReference => "footnote-reference"
  | .footnoteDefinition => "footnote-definition"
  | .lineBreak => "line-break"
  | .horizontalRule => "horizontal-rule"
  | .keyword => "keyword"
  | .comment => "comment"
  | .planning => "planning"
  | .propertyDrawer => "property-drawer"
  | .timestamp => "timestamp"

def ofName? (name : String) : Option NodeKind :=
  all.find? (fun kind => kind.name = name)

theorem ofName?_name (kind : NodeKind) : ofName? kind.name = some kind := by
  cases kind <;> decide +kernel

end NodeKind

end MarkupExport
