/-!
Steps that read the front of a text and leave the rest, or fail. Line ends are single characters
here, and what may stand between the parts of a document is passed over.
-/

namespace MarkupExport.Toml

abbrev Scan (α : Type) := StateT (List Char) Option α

namespace Scan

/-- The next character, which stays. -/
def peek : Scan (Option Char) :=
  fun chars => some (chars.head?, chars)

/-- Reads this character if it is the next one. -/
def take? (char : Char) : Scan Bool
  | [] => some (false, [])
  | next :: rest => if next = char then some (true, rest) else some (false, next :: rest)

def expect (char : Char) : Scan Unit := do
  guard (← take? char)

def takeWhile (test : Char → Bool) : Scan (List Char) :=
  fun chars => some (chars.takeWhile test, chars.dropWhile test)

/-- Repeats a step until it has nothing more to read. A step that got no further would go on for
ever, and fails. -/
def repeated (step : Scan (Option α)) (chars : List Char) : Option (List α × List Char) :=
  match step chars with
  | none => none
  | some (none, rest) => some ([], rest)
  | some (some value, rest) =>
    if _shorter : rest.length < chars.length then
      (repeated step rest).map fun (values, rest) => (value :: values, rest)
    else none
termination_by chars.length

/-! ## Between the parts -/

/-- The line ends of a text as single characters. -/
def unifyLineEnds : List Char → List Char
  | [] => []
  | '\r' :: '\n' :: rest => '\n' :: unifyLineEnds rest
  | char :: rest => char :: unifyLineEnds rest

def isBlank (char : Char) : Bool :=
  char = ' ' || char = '\t'

/-- Characters of comments and of strings on one line: all but control characters, of which the
tab is allowed. -/
def isLineChar (char : Char) : Bool :=
  char = '\t' || (0x20 ≤ char.toNat && char ≠ '\x7f')

def blanks : Scan Unit :=
  fun chars => some ((), chars.dropWhile isBlank)

/-- Drops blanks, line ends and comments. -/
def dropLines (inComment : Bool) : List Char → Option (List Char)
  | [] => some []
  | '\n' :: rest => dropLines false rest
  | char :: rest =>
    if inComment then (if isLineChar char then dropLines true rest else none)
    else if char = '#' then dropLines true rest
    else if isBlank char then dropLines false rest
    else some (char :: rest)

def lines : Scan Unit :=
  fun chars => (dropLines false chars).map fun rest => ((), rest)

/-- What is left of a line: nothing but a comment, and the line end or that of the text. -/
def endOfLine : Scan Unit := do
  blanks
  if ← take? '#' then let _ ← takeWhile isLineChar
  unless (← peek) = none do expect '\n'

example : lines "  # a\n\t b".toList = some ((), ['b']) := by decide +kernel

example : endOfLine " # a\x07".toList = none := by decide +kernel

end Scan

end MarkupExport.Toml
