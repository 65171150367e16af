import MarkupExport.Toml.Draft
import MarkupExport.Toml.Quoted
import MarkupExport.Toml.Scalar

/-!
From text to documents. A document is a list of statements, each on lines of its own; arrays and
tables written as values nest at most 79 deep, and a key has as many names at most.
-/

namespace MarkupExport.Toml

/-- How deep values may nest, and how long keys may be. -/
def depthLimit : Nat := 79

/-! ## Keys -/

def isBareChar (char : Char) : Bool :=
  char.isAlphanum || char = '_' || char = '-'

def scanName : Scan String := do
  Scan.blanks
  let name ←
    match ← Scan.peek with
    | some '"' | some '\'' => Quoted.oneLine
    | _ => do
      let name ← Scan.takeWhile isBareChar
      guard (name ≠ [])
      pure (String.ofList name)
  Scan.blanks
  return name

def scanKey : Scan Key := do
  let first ← scanName
  let rest ← Scan.repeated do
    if ← Scan.take? '.' then some <$> scanName else return none
  guard (rest.length < depthLimit)
  return .ofNames first rest

/-! ## Values -/

def scanAssignment (value : Scan Toml) : Scan (Key × Toml) := do
  let key ← scanKey
  Scan.expect '='
  Scan.blanks
  return (key, ← value)

/-- The rest of an array. Items may stand on lines of their own, and a comma may follow the
last. -/
def scanItems (value : Scan Toml) : Scan (List Toml) :=
  Scan.repeated do
    Scan.lines
    if ← Scan.take? ']' then return none
    let item ← value
    Scan.lines
    unless ← Scan.take? ',' do guard ((← Scan.peek) = some ']')
    return some item

/-- The rest of a table that is written as a value, on one line. -/
def scanEntries (value : Scan Toml) : Scan (List (Key × Toml)) :=
  Scan.repeated do
    Scan.blanks
    if ← Scan.take? '}' then return none
    let entry ← scanAssignment value
    Scan.blanks
    if ← Scan.take? ',' then
      Scan.blanks
      guard ((← Scan.peek) ≠ some '}')
    else guard ((← Scan.peek) = some '}')
    return some entry

def scanPlain : Scan Toml := do
  match ← Scan.peek with
  | some '"' | some '\'' => .text <$> Quoted.read
  | _ => Scalar.read

/-- A value that nests arrays and tables at most this deep. -/
def scanValue : Nat → Scan Toml
  | 0 => scanPlain
  | depth + 1 => do
    if ← Scan.take? '[' then .array <$> scanItems (scanValue depth)
    else if ← Scan.take? '{' then
      let entries ← scanEntries (scanValue depth)
      StateT.lift (ofAssignments? entries)
    else scanPlain

/-! ## Statements -/

def scanStatement : Scan Statement := do
  if ← Scan.take? '[' then
    if ← Scan.take? '[' then
      let key ← scanKey
      Scan.expect ']'
      Scan.expect ']'
      return .append key
    else
      let key ← scanKey
      Scan.expect ']'
      return .declare key
  else
    let (key, value) ← scanAssignment (scanValue depthLimit)
    return .assign key value

/-- Statements up to the end of the text. -/
def scanStatements : Scan (List Statement) :=
  Scan.repeated do
    Scan.lines
    if (← Scan.peek) = none then return none
    let statement ← scanStatement
    Scan.endOfLine
    return some statement

/-- Without a byte order mark in front. -/
def unmarked : List Char → List Char
  | '\ufeff' :: rest => rest
  | chars => chars

/-- The table that a text spells, if it is a document. -/
def read? (text : String) : Option Toml := do
  let (statements, _) ← scanStatements (unmarked (Scan.unifyLineEnds text.toList))
  ofStatements? statements

end MarkupExport.Toml
