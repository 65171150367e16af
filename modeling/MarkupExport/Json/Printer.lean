import MarkupExport.Json.Basic
import MarkupExport.Text.Percent

/-!
Values in their shortest form: nothing stands between tokens, and a text escapes what it must
(quotes, backslashes and the controls below the space), with the short escape where one exists.
-/

namespace MarkupExport.Json

/-- Four hexadecimal digits in lower case. -/
def unitDigits (value : Nat) : List Char :=
  [value / 4096 % 16, value / 256 % 16, value / 16 % 16, value % 16].map fun digit =>
    (Text.hexDigit digit).toLower

def quotedChar (char : Char) : List Char :=
  match char with
  | '"' => ['\\', '"']
  | '\\' => ['\\', '\\']
  | '\x08' => ['\\', 'b']
  | '\x0c' => ['\\', 'f']
  | '\n' => ['\\', 'n']
  | '\r' => ['\\', 'r']
  | '\t' => ['\\', 't']
  | char => if char.toNat < 0x20 then '\\' :: 'u' :: unitDigits char.toNat else [char]

/-- A text without value is written as the half of a surrogate pair. -/
def quoted : Option String → List Char
  | some value => '"' :: value.toList.flatMap quotedChar ++ ['"']
  | none => "\"\\ud800\"".toList

def printNumber (literal : NumberLiteral) : List Char :=
  let sign := if literal.negative then ['-'] else []
  let fraction := if literal.fraction.isEmpty then [] else '.' :: literal.fraction
  let exponent :=
    match literal.exponent with
    | none => []
    | some (true, digits) => 'e' :: '-' :: digits
    | some (false, digits) => 'e' :: digits
  sign ++ literal.whole ++ fraction ++ exponent

mutual

def print : Json → List Char
  | .null => "null".toList
  | .bool true => "true".toList
  | .bool false => "false".toList
  | .number literal => printNumber literal
  | .text value => quoted value
  | .array items => '[' :: printItems items ++ [']']
  | .object members => '{' :: printMembers members ++ ['}']

/-- Items with a comma between each two. -/
def printItems : List Json → List Char
  | [] => []
  | [item] => print item
  | item :: next :: items => print item ++ ',' :: printItems (next :: items)

def printMembers : List (Option String × Json) → List Char
  | [] => []
  | [(key, value)] => quoted key ++ ':' :: print value
  | (key, value) :: next :: members =>
    quoted key ++ ':' :: print value ++ ',' :: printMembers (next :: members)

end

def toText (value : Json) : String :=
  String.ofList (print value)

example : toText (.array [.text (some "a\x00\""), .number (.ofInt (-5)), .object []]) =
    "[\"a\\u0000\\\"\",-5,\x7b\x7d]" := by
  decide +kernel

end MarkupExport.Json
