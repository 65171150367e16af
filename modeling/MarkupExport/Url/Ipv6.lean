import MarkupExport.Text.Percent

/-!
Addresses of eight groups of 16 bits. One run of zero groups may be left out between two colons,
and the last two groups may be written as four decimal bytes. An address is written with the
first of its longest runs of zeros left out, if that is longer than one.
-/

namespace MarkupExport.Url.Ipv6

def group? (digits : List Char) : Option Nat := do
  guard (1 ≤ digits.length ∧ digits.length ≤ 4)
  digits.foldlM (fun value digit => (Text.hexValue? digit).map (16 * value + ·)) 0

def byte? (digits : List Char) : Option Nat := do
  guard (digits ≠ [] ∧ digits.all Char.isDigit ∧ (digits.head? = some '0' → digits = ['0']))
  let value := Nat.ofDigitChars 10 digits 0
  guard (value < 256)
  return value

/-- Two groups written as four bytes. -/
def bytes? (chars : List Char) : Option (List Nat) :=
  match (chars.splitOn '.').mapM byte? with
  | some [a, b, c, d] => some [256 * a + b, 256 * c + d]
  | _ => none

def final? (chars : List Char) : Option (List Nat) :=
  if chars.contains '.' then bytes? chars else (group? chars).map ([·])

/-- Groups with a colon between each two, the last of them possibly as bytes. -/
def groups? (chars : List Char) : Option (List Nat) := do
  let written := chars.splitOn ':'
  let leading ← written.dropLast.mapM group?
  return leading ++ (← final? (← written.getLast?))

/-- What stands before and after the first pair of colons. -/
def splitGap : List Char → Option (List Char × List Char)
  | ':' :: ':' :: rest => some ([], rest)
  | char :: rest => (splitGap rest).map fun (before, after) => (char :: before, after)
  | [] => none

def address? (chars : List Char) : Option (List Nat) :=
  match splitGap chars with
  | none => do
    let groups ← groups? chars
    guard (groups.length = 8)
    return groups
  | some (before, after) => do
    let left ← if before = [] then some [] else (before.splitOn ':').mapM group?
    let right ← if after = [] then some [] else groups? after
    guard (left.length + right.length < 8)
    return left ++ List.replicate (8 - left.length - right.length) 0 ++ right

/-! ## Writing -/

def groupsText (groups : List Nat) : List Char :=
  [':'].intercalate (groups.map (Nat.toDigits 16))

/-- How many zeros stand at the front. -/
def leadingZeros (groups : List Nat) : Nat :=
  (groups.takeWhile (· = 0)).length

/-- The start and length of the first of the longest runs of zeros. -/
def longestRun (groups : List Nat) : Nat × Nat :=
  (List.range groups.length).foldl
    (fun best start =>
      let length := leadingZeros (groups.drop start)
      if best.2 < length then (start, length) else best)
    (0, 0)

def text (groups : List Nat) : List Char :=
  let (start, length) := longestRun groups
  if length < 2 then groupsText groups
  else
    groupsText (groups.take start) ++ [':', ':'] ++ groupsText (groups.drop (start + length))

example : (address? "0:0:1:0:0:0:1:0".toList).map text = some "0:0:1::1:0".toList := by
  decide +kernel

example : (address? "::ffff:1.2.3.4".toList).map text = some "::ffff:102:304".toList := by
  decide +kernel

example : (address? "1:2:3:4:5:6:7::".toList).map text = some "1:2:3:4:5:6:7:0".toList := by
  decide +kernel

end MarkupExport.Url.Ipv6
