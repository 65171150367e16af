import MarkupExport.Url.Parser
import MarkupExport.Url.Printer

/-!
Link targets as they are written into markup. An absolute URL is written as it parses; a reference
is resolved against a base and cut back to what it says itself; whatever does not parse is
percent-encoded where it stands. A `%` is never encoded, and encoding is repeated until it changes
nothing.
-/

namespace MarkupExport.Link

/-- Where references are resolved. Nothing of it is left in the result. -/
def base : Url where
  scheme := "http".toList
  authority := some { host := .name "relative.invalid".toList }
  path := .segments [[]]

/-- What is encoded in a target that does not parse. -/
def unparsedSet : Text.Percent.Set :=
  Text.Percent.controlsAnd [' ', '"', '\'', '<', '>', '`', '{', '}', '|', '\\', '^']

def encodeUnparsed (raw : List Char) : List Char :=
  Text.Percent.encode unparsedSet raw

/-- Resolution puts a slash in front of every path; one that was not written is taken away. -/
def withoutAddedSlash (raw encoded : List Char) : List Char :=
  match raw, encoded with
  | '/' :: _, _ => encoded
  | _, '/' :: rest => rest
  | _, _ => encoded

/-- A backslash is no slash in a reference. -/
def escapeBackslash : Char → List Char
  | '\\' => ['%', '5', 'C']
  | char => [char]

def encodeReference (raw : List Char) : List Char :=
  match base.resolve (raw.flatMap escapeBackslash) with
  | .ok url => withoutAddedSlash raw url.fromPath
  | .error _ => encodeUnparsed raw

def encodeOnce (raw : List Char) : List Char :=
  match Url.parse raw with
  | .ok url => url.text
  | .error .missingScheme =>
    if ['/', '/'].isPrefixOf raw then encodeUnparsed raw else encodeReference raw
  | .error _ => encodeUnparsed raw

/-- Repeats a step until it changes nothing, at most this many times. -/
def settle [DecidableEq α] (step : α → α) : Nat → α → α
  | 0, current => current
  | passes + 1, current =>
    if step current = current then current else settle step passes (step current)

/-- How often an encoded target is encoded again at most. -/
def passes : Nat := 8

def encodeChars (raw : List Char) : List Char :=
  settle encodeOnce passes (encodeOnce raw)

def encode (raw : String) : String :=
  String.ofList (encodeChars raw.toList)

/-- What cannot stand in the value of a tag between square brackets. -/
def valueSet : Text.Percent.Set :=
  Text.Percent.controlsAnd ['[', ']']

def encodeValue (url : String) : String :=
  String.ofList (Text.Percent.encode valueSet url.toList)

example : encode "#two words" = "#two%20words" := by decide +kernel

example : encode "/\\x?'" = "/%5Cx?%27" := by decide +kernel

example : encode "https://example.com/a b?q=x y" = "https://example.com/a%20b?q=x%20y" := by
  decide +kernel

end MarkupExport.Link
