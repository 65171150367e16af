import MarkupExport.Export.Context
import MarkupExport.Export.Headline
import MarkupExport.Link.Target

/-!
The rules by which nodes become text. A rule sees the node, the rendered contents of its children
and the state of the export, and changes none of them; all that differs between dialects is in the
profile.
-/

namespace MarkupExport

open Text (trim isBlankText)

/-- A block without visible contents is nothing. -/
def BlockStyle.render (style : BlockStyle) (delimiters : Delimiters) (contents : String) :
    String :=
  if isBlankText contents then "" else style.surround delimiters (trim contents)

def UrlTag.render (tag : UrlTag) (delimiters : Delimiters) (url content : String) : String :=
  match tag with
  | .inAttribute tag name => delimiters.wrap tag [(name, url)] content
  | .asValue tag => delimiters.wrapValue tag (Link.encodeValue url) content

namespace Rule

/-! ## Blocks -/

def renderLineBreak (profile : Profile) (node : Node) : Except TranscodeError String :=
  match profile.lineBreak with
  | some text => .ok text
  | none => .error (.unsupportedNodeKind node.kind profile.name)

/-- Takes one line end away at the end of a text. -/
def withoutFinalNewline (text : String) : String :=
  if text.toList.getLast? = some '\n' then String.ofList text.toList.dropLast else text

def renderSourceBlock (profile : Profile) (node : Node) : Except TranscodeError String := do
  let style := profile.source
  let value ← node.requireText "value"
  let code := if style.stripTrailingNewline then withoutFinalNewline value else value
  let language := style.languages.resolve (node.textProperty? "language")
  let block :=
    match style.binding with
    | .inAttribute name => profile.delimiters.wrap style.tag [(name, language)] code
    | .asValue => profile.delimiters.wrapValue style.tag language code
  return block ++ style.suffix

def renderTable (profile : Profile) (contents : String) : String :=
  if isBlankText contents then ""
  else profile.tables.table.surround profile.delimiters ("\n" ++ contents)

/-- A cell stays in its row even if it is empty. -/
def renderTableCell (profile : Profile) (contents : String) : String :=
  profile.tables.cell.surround profile.delimiters (trim contents)

/-! ## Headlines -/

/-- A headline for the footnotes is dropped with its contents: their section is made anew. -/
def renderHeadline (context : Context) (node : Node) (contents : String) :
    Except TranscodeError String :=
  if node.flag "footnote_section" then .ok ""
  else do
    let level ← node.requireInt "level"
    let title := (context.secondaryText? node "title").getD ""
    return (← context.profile.titleLine level (trim title)) ++ contents

/-! ## Inline markup -/

/-- Literal text comes from the node's value, never from its children. -/
def renderMonospace (profile : Profile) (node : Node) : Except TranscodeError String := do
  let value ← node.requireText "value"
  return profile.inlineTags.monospace.render profile.delimiters (profile.text.render value)

/-! ## Links -/

/-- What a link shows: its contents, or else this text. -/
def linkLabel (profile : Profile) (contents fallback : String) : String :=
  if isBlankText contents then profile.text.render fallback else contents

def anchor (profile : Profile) (contents target : String) : String :=
  let url := Link.encode target
  profile.links.anchor.render profile.delimiters url (linkLabel profile contents url)

/-- Web links are tried before the types that the profile names. -/
def renderLink (profile : Profile) (node : Node) (contents : String) :
    Except TranscodeError String := do
  let style := profile.links
  let type ← node.requireText "type"
  if type = "http" ∨ type = "https" then
    let path ← node.requireText "path"
    return anchor profile contents (type ++ ":" ++ path)
  else if type = style.placeholderType then
    let label := linkLabel profile contents ((node.textProperty? "path").getD "")
    return style.placeholder.render profile.delimiters label
  else if type = style.internalType then
    let target ← node.requireText "raw_link"
    if style.internalStart.toList.isPrefixOf target.toList then
      return anchor profile contents target
    else throw (.malformedLinkTarget target)
  else throw (.unsupportedLinkType type)

/-! ## Lists -/

def listTag? (profile : Profile) (kind : String) : Option Tag :=
  (ListKind.ofName? kind).bind fun kind => profile.lists.kinds.lookup kind

def renderList (profile : Profile) (node : Node) (contents : String) :
    Except TranscodeError String := do
  let kind ← node.requireText "kind"
  match listTag? profile kind with
  | some tag => return tag.render profile.delimiters ("\n" ++ contents) ++ "\n"
  | none => throw (.unsupportedListKind kind profile.name)

/-- An item of a descriptive list begins with its term. -/
def renderItem (context : Context) (node : Node) (contents : String) : String :=
  let profile := context.profile
  let term :=
    if context.scope = some .descriptive then
      profile.lists.term.render profile.delimiters
        (trim ((context.secondaryText? node "tag").getD "")) ++ profile.lists.termSeparator
    else ""
  let body := term ++ trim contents
  match profile.lists.item with
  | .wrapped tag => tag.render profile.delimiters body ++ "\n"
  | .bulleted bullet => bullet ++ body ++ "\n"

/-! ## All rules -/

def render (context : Context) (node : Node) (contents : String) :
    Rule → Except TranscodeError String
  | .document => .ok contents
  | .paragraph => .ok (context.profile.paragraph.render context.profile.delimiters contents)
  | .section => .ok (context.profile.sectionBlock.render context.profile.delimiters contents)
  | .quoteBlock => .ok (context.profile.quote.render context.profile.delimiters contents)
  | .horizontalRule => .ok (context.profile.delimiters.void context.profile.rule ++ "\n")
  | .lineBreak => renderLineBreak context.profile node
  | .sourceBlock => renderSourceBlock context.profile node
  | .table => .ok (renderTable context.profile contents)
  | .tableRow => .ok (context.profile.tables.row.render context.profile.delimiters contents)
  | .tableCell => .ok (renderTableCell context.profile contents)
  | .headline => renderHeadline context node contents
  | .bold => .ok (context.profile.inlineTags.bold.render context.profile.delimiters contents)
  | .italic => .ok (context.profile.inlineTags.italic.render context.profile.delimiters contents)
  | .underline =>
    .ok (context.profile.inlineTags.underline.render context.profile.delimiters contents)
  | .strikeThrough =>
    .ok (context.profile.inlineTags.strikeThrough.render context.profile.delimiters contents)
  | .monospace => renderMonospace context.profile node
  | .link => renderLink context.profile node contents
  | .list => renderList context.profile node contents
  | .item => .ok (renderItem context node contents)

end Rule

end MarkupExport
