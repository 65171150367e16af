import MarkupExport.Profile.Basic

/-!
Forum BBCode. Paragraphs are set apart by blank lines, and a headline is an emphasised line whose
marker shows its level. Text is written as it is, and data about the document is dropped.
-/

namespace MarkupExport.Profile

def bbcodePolicy : NodeKind → Policy
  | .document => .handle (.rule .document)
  | .headline => .handle (.rule .headline)
  | .section => .handle (.rule .section)
  | .paragraph => .handle (.rule .paragraph)
  | .bold => .handle (.rule .bold)
  | .italic => .handle (.rule .italic)
  | .underline => .handle (.rule .underline)
  | .strikeThrough => .handle (.rule .strikeThrough)
  | .code | .verbatim => .handle (.rule .monospace)
  | .sourceBlock => .handle (.rule .sourceBlock)
  | .quoteBlock => .handle (.rule .quoteBlock)
  | .link => .handle (.rule .link)
  | .list => .handle (.rule .list)
  | .item => .handle (.rule .item)
  | .table => .handle (.rule .table)
  | .tableRow => .handle (.rule .tableRow)
  | .tableCell => .handle (.rule .tableCell)
  | .footnoteReference => .handle .footnoteReference
  | .lineBreak => .handle (.rule .lineBreak)
  | .horizontalRule => .handle (.rule .horizontalRule)
  | .keyword | .comment | .planning | .propertyDrawer | .timestamp
  | .footnoteDefinition => .skip
  | .plainText => .fail

def bbcode : Profile where
  name := "bbcode"
  delimiters := .bracket
  text := .raw
  inlineTags :=
    { bold := .plain "b", italic := .plain "i", underline := .plain "u",
      strikeThrough := .plain "s", monospace := .value "font" "monospace" }
  headlines :=
    .marked ["", "# ", "== ", "+++ ", ":::: ", "----- "] (.plain "b") (.plain "u")
  paragraph := { suffix := "\n\n" }
  sectionBlock := { suffix := "\n\n" }
  quote := { tag := some (.plain "quote"), suffix := "\n" }
  rule := "hr"
  lineBreak := some "\n"
  source :=
    { tag := "code", binding := .asValue, languages := .standard,
      stripTrailingNewline := false, suffix := "\n" }
  links :=
    { anchor := .asValue "url", placeholderType := "todo",
      placeholder := .value "abbr" "Article forthcoming",
      internalType := "fuzzy", internalStart := "#" }
  lists :=
    { kinds := [(.unordered, .plain "list"), (.ordered, .value "list" "1"),
        (.descriptive, .plain "list")],
      item := .bulleted "[*]", term := .plain "b", termSeparator := ": " }
  tables :=
    { table := { tag := some (.plain "table"), suffix := "\n" },
      row := { tag := some (.plain "tr"), suffix := "\n" },
      cell := { tag := some (.plain "td"), suffix := "" } }
  footnotes := { title := "Footnotes", level := 1 }
  template := none
  policy := bbcodePolicy

end MarkupExport.Profile
