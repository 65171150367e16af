import MarkupExport.Markup.Language
import MarkupExport.Markup.Tag
import MarkupExport.Text.Entity

/-! The choices a dialect of markup makes, one type for each group of node kinds. -/

namespace MarkupExport

/-- How plain text is written. -/
inductive TextStyle where
  | escaped
  | raw
deriving DecidableEq, Repr

def TextStyle.render : TextStyle → String → String
  | .escaped, text => Text.escapeText text
  | .raw, text => text

structure InlineTags where
  bold : Tag
  italic : Tag
  underline : Tag
  strikeThrough : Tag
  monospace : Tag
deriving DecidableEq, Repr

/-- Headlines are numbered tags, of which the outermost levels become comments, or emphasised
lines that begin with the marker of their level. -/
inductive HeadlineStyle where
  | outline (commentThrough : Int64) (maxLevel : UInt64)
  | marked (markers : List String) (emphasis underline : Tag)
deriving DecidableEq

/-- A tag around a block, if it has one, and what follows the block. -/
structure BlockStyle where
  tag : Option Tag := none
  suffix : String
deriving DecidableEq, Repr

def BlockStyle.surround (style : BlockStyle) (delimiters : Delimiters) (content : String) :
    String :=
  (match style.tag with
    | some tag => tag.render delimiters content
    | none => content) ++ style.suffix

inductive ListKind where
  | unordered
  | ordered
  | descriptive
deriving DecidableEq, Repr

def ListKind.name : ListKind → String
  | .unordered => "unordered"
  | .ordered => "ordered"
  | .descriptive => "descriptive"

def ListKind.ofName? : String → Option ListKind
  | "unordered" => some .unordered
  | "ordered" => some .ordered
  | "descriptive" => some .descriptive
  | _ => none

theorem ListKind.ofName?_name (kind : ListKind) : ListKind.ofName? kind.name = some kind := by
  cases kind <;> rfl

inductive ItemStyle where
  | wrapped (tag : Tag)
  | bulleted (bullet : String)
deriving DecidableEq, Repr

structure ListStyle where
  /-- The tag of each kind of list that the dialect has; the first entry for a kind counts. -/
  kinds : List (ListKind × Tag)
  item : ItemStyle
  /-- The tag of the term that a descriptive item begins with. -/
  term : Tag
  termSeparator : String
deriving DecidableEq, Repr

/-- A link carries its target in an attribute or as the value of its tag. -/
inductive UrlTag where
  | inAttribute (tag name : String)
  | asValue (tag : String)
deriving DecidableEq, Repr

structure LinkStyle where
  anchor : UrlTag
  /-- Links of this type have no target yet. -/
  placeholderType : String
  placeholder : Tag
  /-- Links of this type lead to a place in the same document, named after the prefix. -/
  internalType : String
  internalStart : String
deriving DecidableEq, Repr

/-- A source block carries its language in an attribute or as the value of its tag. -/
inductive LanguageBinding where
  | inAttribute (name : String)
  | asValue
deriving DecidableEq, Repr

structure SourceStyle where
  tag : String
  binding : LanguageBinding
  languages : LanguageMap
  stripTrailingNewline : Bool
  suffix : String
deriving DecidableEq, Repr

structure TableStyle where
  table : BlockStyle
  row : BlockStyle
  cell : BlockStyle
deriving DecidableEq, Repr

/-- The headline above the footnotes. -/
structure FootnoteStyle where
  title : String
  level : Int64
deriving DecidableEq

end MarkupExport
