/-!
Paths to settings: a name, and then names behind dots and places in brackets. A place may be
counted from the end of an array by a negative number.
-/

namespace MarkupExport

inductive PathStep where
  | name (text : String)
  | place (index : Int)
deriving DecidableEq, Repr

/-- A path that begins with a name. -/
structure SettingPath where
  root : String
  steps : List PathStep := []
deriving DecidableEq, Repr

namespace SettingPath

def isNameChar (char : Char) : Bool :=
  char.isAlphanum || [' ', '_', '-'].contains char

def isBlank (char : Char) : Bool :=
  char = ' ' || char = '\t'

/-- A number that fits 64 bits, with blanks around it. -/
def index? (chars : List Char) : Option Int := do
  let chars := ((chars.dropWhile isBlank).reverse.dropWhile isBlank).reverse
  let (negative, digits) :=
    match chars with
    | '-' :: digits => (true, digits)
    | digits => (false, digits)
  guard (digits ≠ [] ∧ digits.all Char.isDigit)
  let value := Nat.ofDigitChars 10 digits 0
  let index : Int := if negative then -value else value
  guard (Int64.minValue.toInt ≤ index ∧ index ≤ Int64.maxValue.toInt)
  return index

def steps? (chars : List Char) : Option (List PathStep) :=
  match chars with
  | [] => some []
  | '.' :: rest =>
    let name := rest.takeWhile isNameChar
    if name = [] then none
    else (.name (String.ofList name) :: ·) <$> steps? (rest.dropWhile isNameChar)
  | '[' :: rest =>
    match index? (rest.takeWhile (· ≠ ']')), _closed : rest.dropWhile (· ≠ ']') with
    | some index, _ :: others => (.place index :: ·) <$> steps? others
    | _, _ => none
  | _ => none
termination_by chars.length
decreasing_by
  · exact Nat.lt_succ_of_le (List.dropWhile_sublist _).length_le
  · have shorter := (List.dropWhile_sublist (l := rest) (· ≠ ']')).length_le
    rw [_closed, List.length_cons] at shorter
    simp only [List.length_cons]
    omega

def parse? (text : String) : Option SettingPath := do
  let chars := text.toList
  let root := chars.takeWhile isNameChar
  guard (root ≠ [])
  return { root := String.ofList root, steps := ← steps? (chars.dropWhile isNameChar) }

example : parse? "export.list[ -1 ].x" =
    some { root := "export", steps := [.name "list", .place (-1), .name "x"] } := by
  decide +kernel

example : parse? "export." = none ∧ parse? "export.[" = none := by
  decide +kernel

end SettingPath

end MarkupExport
