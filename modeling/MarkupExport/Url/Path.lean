import MarkupExport.Url.Basic

/-!
Paths as they are read. A segment ends at a slash; `.` and `..`, also with an encoded dot, are
resolved as soon as they are complete. A drive letter (`C:` or `C|`) is never taken back by `..`,
and in a file path one that comes first ends in a colon and does without a host.
-/

namespace MarkupExport.Url.Path

abbrev Segment := List Char

/-! ## Segments -/

def dots : List Segment :=
  ["." , "%2e", "%2E"].map String.toList

def isSingleDot (segment : Segment) : Bool :=
  dots.contains segment

def isDoubleDot (segment : Segment) : Bool :=
  (dots.flatMap fun first => dots.map (first ++ ·)).contains segment

def isDriveLetter : Segment → Bool
  | [letter, mark] => letter.isAlpha && (mark = ':' || mark = '|')
  | _ => false

/-- Takes back the last of these segments, which stand in reverse order. -/
def shorten : List Segment → List Segment
  | [] => []
  | last :: earlier => if isDriveLetter last then last :: earlier else earlier

/-! ## Reading -/

structure Reader where
  /-- The complete segments, last one first. -/
  complete : List Segment := []
  /-- The segment that is being read, encoded, last character first. -/
  current : List Char := []
  /-- The path of a file begins with a drive letter. -/
  hasDrive : Bool := false
  /-- The drive letter just read is set apart from what follows by a skipped character. -/
  isCut : Bool := false
  /-- The segment follows a drive letter without a slash, and its dots have no meaning. -/
  isLiteral : Bool := false

namespace Reader

def push (reader : Reader) (char : Char) : Reader :=
  let encoded := (Text.Percent.char pathSet char).reverse
  if reader.isCut then
    { reader with
      complete := [reader.current.reverse], current := encoded, isCut := false, isLiteral := true }
  else { reader with current := encoded ++ reader.current }

/-- A skipped character. -/
def skip (kind : SchemeKind) (reader : Reader) : Reader :=
  if kind = .file ∧ reader.complete = [] ∧ isDriveLetter reader.current.reverse ∧
      reader.current.head? = some ':' then
    { reader with isCut := true }
  else reader

/-- The segment is complete. If it is the last one, dots leave an empty segment behind. -/
def close (kind : SchemeKind) (last : Bool) (reader : Reader) : Reader :=
  let segment := reader.current.reverse
  let rest : List Segment := if last then [[]] else []
  if reader.isLiteral then { complete := segment :: reader.complete, hasDrive := reader.hasDrive }
  else if isDoubleDot segment then
    { complete := rest ++ shorten reader.complete, hasDrive := reader.hasDrive }
  else if isSingleDot segment then
    { complete := rest ++ reader.complete, hasDrive := reader.hasDrive }
  else if kind = .file ∧ reader.complete = [] ∧ isDriveLetter segment then
    { complete := [segment.take 1 ++ [':']], hasDrive := true }
  else { complete := segment :: reader.complete, hasDrive := reader.hasDrive }

/-- Reads up to a query or fragment, which is left over. -/
def read (kind : SchemeKind) : Reader → List Char → Reader × List Char
  | reader, [] => (reader.close kind true, [])
  | reader, char :: rest =>
    if char = '?' ∨ char = '#' then (reader.close kind true, char :: rest)
    else if isIgnored char then read kind (reader.skip kind) rest
    else if kind.isSlash char then read kind (reader.close kind false) rest
    else read kind (reader.push char) rest

/-- The segments in order. A file path does not begin with an empty one that others follow. -/
def segments (kind : SchemeKind) (reader : Reader) : List Segment :=
  let segments := reader.complete.reverse
  if kind = .file then
    match segments.dropWhile List.isEmpty with
    | [] => [[]]
    | rest => rest
  else segments

end Reader

/-- The path that follows a slash, the segments before that slash, last one first, being given.
Also whether a file path begins with a drive letter, and what is left over. -/
def read (kind : SchemeKind) (before : List Segment) (chars : List Char) :
    List Segment × Bool × List Char :=
  let (reader, rest) := Reader.read kind { complete := before } chars
  (reader.segments kind, reader.hasDrive, rest)

example : (read .special [] "a/./b/../%2e%2e/c d".toList).1 = ["c%20d".toList] := by
  decide +kernel

example : (read .file [] "C|/..".toList).1 = ["C:".toList, []] := by decide +kernel

/-- The part of an unstructured path before a query or fragment, and what is left over. -/
def readText (chars : List Char) : List Char × List Char :=
  let (text, rest) := chars.span (fun char => char ≠ '?' && char ≠ '#')
  (Text.Percent.encode (Text.Percent.controlsAnd []) text, rest)

end MarkupExport.Url.Path
