import MarkupExport.Number.Double

/-!
JSON values as they are written. A number is kept as its literal, and a text that holds half of a
surrogate pair has no value; whether either is acceptable is for the reader of the value to say.
-/

namespace MarkupExport

/-- A number as written: sign, digits before the point, digits after it (none if there is no
point), and an exponent with its sign. -/
structure NumberLiteral where
  negative : Bool := false
  whole : List Char
  fraction : List Char := []
  exponent : Option (Bool × List Char) := none
deriving DecidableEq, Repr

inductive Json where
  | null
  | bool (value : Bool)
  | number (literal : NumberLiteral)
  | text (value : Option String)
  | array (items : List Json)
  | object (members : List (Option String × Json))

namespace NumberLiteral

def digitsValue (digits : List Char) : Nat :=
  Nat.ofDigitChars 10 digits 0

def ofInt (value : Int) : NumberLiteral where
  negative := value < 0
  whole := Nat.toDigits 10 value.natAbs

/-- The integer that is written without point and exponent. A zero with a sign is not one. -/
def int? (literal : NumberLiteral) : Option Int :=
  match literal with
  | ⟨negative, whole, [], none⟩ =>
    let value := digitsValue whole
    if negative then
      if value = 0 then none else some (-value)
    else some value
  | _ => none

/-- The integer that is written, if 64 bits hold it. -/
def int64? (literal : NumberLiteral) : Option Int64 :=
  literal.int?.bind fun value =>
    if Int64.minValue.toInt ≤ value ∧ value ≤ Int64.maxValue.toInt then some (Int64.ofInt value)
    else none

theorem int?_ofInt (value : Int) : (ofInt value).int? = some value := by
  have digits : digitsValue (Nat.toDigits 10 value.natAbs) = value.natAbs :=
    Nat.ofDigitChars_toDigits (by decide) (by decide)
  simp only [ofInt, int?, digits]
  by_cases negative : value < 0
  · have nonzero : value.natAbs ≠ 0 := by omega
    simp only [negative, decide_true, ↓reduceIte, nonzero, Option.some.injEq]
    omega
  · simp only [negative, decide_false, Bool.false_eq_true, ↓reduceIte, Option.some.injEq]
    omega

theorem int64?_ofInt (value : Int64) : (ofInt value.toInt).int64? = some value := by
  have lower := Int64.minValue_le_toInt value
  have upper := Int64.toInt_le value
  simp only [int64?, int?_ofInt, Option.bind_some, lower, upper, and_self, ↓reduceIte,
    Int64.ofInt_toInt]

/-! ## Range

A literal is in range if it stays below the overflow threshold of double precision. Digits are
gathered as long as 64 bits hold them and only counted from then on. -/

/-- Appends digits to a number until the next one would not fit 64 bits; what is left over comes
second. -/
def gather (number : Nat) : List Char → Nat × List Char
  | [] => (number, [])
  | digit :: digits =>
    let next := digitsValue [digit] + 10 * number
    if next < Nat.pow 2 64 then gather next digits else (number, digit :: digits)

/-- The nearest multiple of a power of two that leaves 53 significant bits, ties to even. -/
def roundToDouble (number : Nat) : Nat :=
  let unit := Nat.pow 2 (number.log2 - 52)
  roundQuotient number unit * unit

example : roundToDouble (2 ^ 53 + 1) = 2 ^ 53 ∧ roundToDouble (2 ^ 53 + 3) = 2 ^ 53 + 4 := by
  decide

/-- The power of ten that scales the gathered digits, before the written exponent. -/
def scale (literal : NumberLiteral) : Nat × Int :=
  let whole := gather 0 literal.whole
  let fraction := gather whole.1 literal.fraction
  (fraction.1, (whole.2.length : Int) - (literal.fraction.length - fraction.2.length))

/-- An exponent beyond 32 bits counts as one that is merely too large. -/
def exponentValue (literal : NumberLiteral) : Int :=
  match literal.exponent with
  | none => 0
  | some (negative, digits) =>
    let value := digitsValue digits
    if negative then -value else value

def inRange (literal : NumberLiteral) : Bool :=
  let (number, shift) := literal.scale
  let exponent := shift + literal.exponentValue
  if number = 0 ∨ exponent < 0 then true
  else if 308 < exponent then false
  else
    roundToDouble number * roundToDouble (Nat.pow 10 exponent.toNat) <
      Nat.pow 2 1024 - Nat.pow 2 970

example : (NumberLiteral.mk false ['1'] [] (some (false, ['3', '0', '8']))).inRange = true := by
  decide +kernel

example : (NumberLiteral.mk false ['2'] [] (some (false, ['3', '0', '8']))).inRange = false := by
  decide +kernel

end NumberLiteral

end MarkupExport
