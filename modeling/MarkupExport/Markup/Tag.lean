import MarkupExport.Text.Entity

/-!
Tags in the two families of markup: between angle brackets and between square brackets. A tag
surrounds its content, and its opening half may carry attributes (`<a href="x">`) or a value
(`[url=x]`); one with neither is the bare name between the brackets.
-/

namespace MarkupExport

/-- The brackets around a tag. -/
inductive Delimiters where
  | angle
  | bracket
deriving DecidableEq, Repr

namespace Delimiters

def left : Delimiters → String
  | .angle => "<"
  | .bracket => "["

def right : Delimiters → String
  | .angle => ">"
  | .bracket => "]"

/-- Quotes end an attribute value between angle brackets only, so only there are they escaped. -/
def attributeValue : Delimiters → String → String
  | .angle, value => Text.escapeAttribute value
  | .bracket, value => value

def namedValue (delimiters : Delimiters) (named : String × String) : String :=
  " " ++ named.1 ++ "=\"" ++ delimiters.attributeValue named.2 ++ "\""

def attributes (delimiters : Delimiters) : List (String × String) → String
  | [] => ""
  | head :: tail => delimiters.namedValue head ++ delimiters.attributes tail

def closing (delimiters : Delimiters) (name : String) : String :=
  delimiters.left ++ "/" ++ name ++ delimiters.right

/-- A tag with attributes around its content. -/
def wrap (delimiters : Delimiters) (name : String) (attributes : List (String × String))
    (content : String) : String :=
  delimiters.left ++ name ++ delimiters.attributes attributes ++ delimiters.right ++ content ++
    delimiters.closing name

/-- A tag with a value around its content. The value is written as it is. -/
def wrapValue (delimiters : Delimiters) (name value content : String) : String :=
  delimiters.left ++ name ++ "=" ++ value ++ delimiters.right ++ content ++
    delimiters.closing name

/-- A tag without content. -/
def void (delimiters : Delimiters) (name : String) : String :=
  match delimiters with
  | .angle => "<" ++ name ++ " />"
  | .bracket => "[" ++ name ++ "]"

example : Delimiters.angle.wrap "p" [] "x" = "<p>x</p>" := by decide +kernel

example : Delimiters.angle.wrap "a" [("href", "\"&")] "x" = "<a href=\"&quot;&amp;\">x</a>" := by
  decide +kernel

example : Delimiters.bracket.wrapValue "font" "monospace" "x" = "[font=monospace]x[/font]" := by
  decide +kernel

end Delimiters

/-- A tag as a profile names it. -/
inductive Tag where
  | plain (name : String)
  | value (name value : String)
  | attributes (name : String) (attributes : List (String × String))
deriving DecidableEq, Repr

def Tag.render (tag : Tag) (delimiters : Delimiters) (content : String) : String :=
  match tag with
  | .plain name => delimiters.wrap name [] content
  | .value name assigned => delimiters.wrapValue name assigned content
  | .attributes name pairs => delimiters.wrap name pairs content

example : (Tag.plain "b").render .bracket "x" = "[b]x[/b]" := by decide +kernel

end MarkupExport
