/-!
Character entities. Markup between angle brackets reserves three characters in text and two in
attribute values; each is written as an entity, and all else stands for itself.
-/

namespace MarkupExport.Text

/-- Writes every character of a text by itself. -/
def mapChars (write : Char → List Char) (text : String) : String :=
  String.ofList (text.toList.flatMap write)

theorem toList_mapChars (write : Char → List Char) (text : String) :
    (mapChars write text).toList = text.toList.flatMap write := by
  simp [mapChars]

theorem mapChars_append (write : Char → List Char) (left right : String) :
    mapChars write (left ++ right) = mapChars write left ++ mapChars write right := by
  apply String.toList_inj.mp
  simp [mapChars]

/-- Text between tags: `&`, `<` and `>` are reserved. -/
def textEntity : Char → List Char
  | '&' => ['&', 'a', 'm', 'p', ';']
  | '<' => ['&', 'l', 't', ';']
  | '>' => ['&', 'g', 't', ';']
  | char => [char]

/-- Text inside a quoted attribute value: `&` and the quote are reserved. -/
def attributeEntity : Char → List Char
  | '&' => ['&', 'a', 'm', 'p', ';']
  | '"' => ['&', 'q', 'u', 'o', 't', ';']
  | char => [char]

def escapeText : String → String :=
  mapChars textEntity

def escapeAttribute : String → String :=
  mapChars attributeEntity

example : escapeText "a<b & c>" = "a&lt;b &amp; c&gt;" := by decide +kernel

example : escapeAttribute "a?b=1&c=\"2\"" = "a?b=1&amp;c=&quot;2&quot;" := by decide +kernel

end MarkupExport.Text
