import MarkupExport.Profile.Basic

/-!
HTML fragments for blog engines. The outermost two headline levels become comments, which the
engine reads as data about the post; levels three to five become headings. There is no line
break, only unordered lists exist, and what has no place in a post is refused.
-/

namespace MarkupExport.Profile

def htmlPolicy : NodeKind → Policy
  | .document => .handle (.rule .document)
  | .headline => .handle (.rule .headline)
  | .section => .handle (.rule .section)
  | .paragraph => .handle (.rule .paragraph)
  | .bold => .handle (.rule .bold)
  | .italic => .handle (.rule .italic)
  | .underline => .handle (.rule .underline)
  | .strikeThrough => .handle (.rule .strikeThrough)
  | .code | .verbatim => .handle (.rule .monospace)
  | .sourceBlock => .handle (.rule .sourceBlock)
  | .quoteBlock => .handle (.rule .quoteBlock)
  | .link => .handle (.rule .link)
  | .list => .handle (.rule .list)
  | .item => .handle (.rule .item)
  | .table => .handle (.rule .table)
  | .tableRow => .handle (.rule .tableRow)
  | .tableCell => .handle (.rule .tableCell)
  | .footnoteReference => .handle .footnoteReference
  | .horizontalRule => .handle (.rule .horizontalRule)
  | .keyword | .comment | .footnoteDefinition => .skip
  | .plainText | .lineBreak | .planning | .propertyDrawer | .timestamp => .fail

def html : Profile where
  name := "html"
  delimiters := .angle
  text := .escaped
  inlineTags :=
    { bold := .plain "strong", italic := .plain "em", underline := .plain "u",
      strikeThrough := .plain "del", monospace := .plain "code" }
  headlines := .outline 2 5
  paragraph := { tag := some (.plain "p"), suffix := "\n" }
  sectionBlock := { suffix := "\n" }
  quote := { tag := some (.plain "blockquote"), suffix := "\n" }
  rule := "hr"
  lineBreak := none
  source :=
    { tag := "pre", binding := .inAttribute "lang", languages := .standard,
      stripTrailingNewline := true, suffix := "\n" }
  links :=
    { anchor := .inAttribute "a" "href", placeholderType := "todo",
      placeholder := .attributes "abbr" [("title", "Article forthcoming")],
      internalType := "fuzzy", internalStart := "#" }
  lists :=
    { kinds := [(.unordered, .plain "ul")], item := .wrapped (.plain "li"),
      term := .plain "strong", termSeparator := ": " }
  tables :=
    { table := { tag := some (.plain "table"), suffix := "\n" },
      row := { tag := some (.plain "tr"), suffix := "\n" },
      cell := { tag := some (.plain "td"), suffix := "" } }
  footnotes := { title := "Footnotes", level := 1 }
  template := none
  policy := htmlPolicy

end MarkupExport.Profile
