/-!
Numbers of double precision: read from a decimal by rounding to the nearest, written as the
shortest decimal that rounds back. Everything is computed in whole numbers.
-/

namespace MarkupExport

/-- The rounded quotient; halfway between two whole numbers it is the even one. -/
def roundQuotient (numerator denominator : Nat) : Nat :=
  let quotient := numerator / denominator
  let twice := 2 * (numerator % denominator)
  if denominator < twice ∨ (twice = denominator ∧ quotient % 2 = 1) then quotient + 1
  else quotient

example : roundQuotient 5 2 = 2 ∧ roundQuotient 7 2 = 4 ∧ roundQuotient 8 3 = 3 := by decide

/-- A finite number is `significand * 2 ^ exponent` with a sign, where the exponent is at least
`-1074` and the significand, unless that is the exponent, has 53 binary digits. -/
inductive Double where
  | finite (negative : Bool) (significand : Nat) (exponent : Int)
  | infinite (negative : Bool)
  | notANumber
deriving DecidableEq, Repr

namespace Double

def isZero : Double → Bool
  | finite _ significand _ => significand = 0
  | infinite _ | notANumber => false

/-! ## Reading -/

/-- The fraction over a power of two. -/
def scaled (numerator denominator : Nat) (exponent : Int) : Nat × Nat :=
  (numerator * Nat.pow 2 (-exponent).toNat, denominator * Nat.pow 2 exponent.toNat)

/-- The exponent that leaves the fraction 53 binary digits before the point, or the least one. -/
def lastPlace (numerator denominator : Nat) : Int :=
  let guess := (numerator.log2 : Int) - denominator.log2 - 52
  let (above, below) := scaled numerator denominator guess
  max (-1074) (if above < Nat.pow 2 52 * below then guess - 1 else guess)

def ofFraction (negative : Bool) (numerator denominator : Nat) : Double :=
  let exponent := lastPlace numerator denominator
  let (above, below) := scaled numerator denominator exponent
  let significand := roundQuotient above below
  let (significand, exponent) :=
    if significand = Nat.pow 2 53 then (Nat.pow 2 52, exponent + 1) else (significand, exponent)
  if 971 < exponent then infinite negative else finite negative significand exponent

/-- The number nearest to `digits * 10 ^ exponent`. Far outside the range there is nothing to
round. -/
def ofDecimal (negative : Bool) (digits : Nat) (exponent : Int) : Double :=
  let size := exponent + (Nat.toDigits 10 digits).length
  if digits = 0 ∨ size < -330 then finite negative 0 (-1074)
  else if 310 < size then infinite negative
  else
    ofFraction negative (digits * Nat.pow 10 exponent.toNat) (Nat.pow 10 (-exponent).toNat)

example : ofDecimal false 1 (-1) = finite false 0x1999999999999a (-56) := by decide +kernel

example : ofDecimal false 5 (-324) = finite false 1 (-1074) := by decide +kernel

example : ofDecimal true 2 308 = infinite true := by decide +kernel

/-! ## Writing

Doubles, the ends of the intervals that round to them, and decimals of up to 324 places are all
whole multiples of `2 ^ -1076 * 10 ^ -324`. -/

/-- What rounds to a number, in that unit. The ends count if the significand is even; below a
power of two the gap is half as wide. -/
structure Interval where
  lower : Nat
  value : Nat
  upper : Nat
  closed : Bool

def interval (significand : Nat) (exponent : Int) : Interval :=
  let quarter := Nat.pow 2 (exponent + 1074).toNat * Nat.pow 10 324
  let below := if significand = Nat.pow 2 52 ∧ exponent ≠ -1074 then 1 else 2
  { lower := (4 * significand - below) * quarter
    value := 4 * significand * quarter
    upper := (4 * significand + 2) * quarter
    closed := significand % 2 = 0 }

def Interval.contains (interval : Interval) (point : Nat) : Bool :=
  if interval.closed then interval.lower ≤ point ∧ point ≤ interval.upper
  else interval.lower < point ∧ point < interval.upper

/-- The multiple of `step` in the interval that is nearest to its value, the upper one of two
equally near, divided by `step`. -/
def Interval.onGrid? (interval : Interval) (step : Nat) : Option Nat :=
  let below := interval.value / step
  let lower := interval.contains (below * step)
  let upper := interval.contains ((below + 1) * step)
  if upper ∧ (¬ lower ∨ step ≤ 2 * (interval.value % step)) then some (below + 1)
  else if lower then some below
  else none

/-- The point of the coarsest grid of tenths that has one in the interval, with the place of its
last digit counted from the 324th after the point. The finest grid always has one. -/
def Interval.shortest (interval : Interval) : Nat → Nat × Nat
  | 0 => ((interval.onGrid? (Nat.pow 2 1076)).getD 0, 0)
  | place + 1 =>
    match interval.onGrid? (Nat.pow 2 1076 * Nat.pow 10 (place + 1)) with
    | some digits => (digits, place + 1)
    | none => interval.shortest place

/-- A decimal whose last digit stands at a place after the point, counted as above. -/
def positional (digits place : Nat) : List Char :=
  let written := Nat.toDigits 10 digits
  if 324 ≤ place then written ++ List.replicate (place - 324) '0'
  else
    let places := 324 - place
    let padded := List.replicate (places + 1 - written.length) '0' ++ written
    padded.take (padded.length - places) ++ '.' :: padded.drop (padded.length - places)

/-- Without an exponent, and without a point if there is nothing behind it. -/
def text : Double → String
  | notANumber => "NaN"
  | infinite negative => if negative then "-inf" else "inf"
  | finite negative significand exponent =>
    let (digits, place) :=
      if significand = 0 then (0, 324) else (interval significand exponent).shortest 632
    (if negative then "-" else "") ++ String.ofList (positional digits place)

example : (ofDecimal false 1 (-1)).text = "0.1" := by decide +kernel

example : (ofDecimal true 150 (-1)).text = "-15" := by decide +kernel

example : (ofDecimal false 9007199254740993 0).text = "9007199254740992" := by decide +kernel

example : (ofDecimal false 12 21).text = "12000000000000000000000" := by decide +kernel

end Double

end MarkupExport
