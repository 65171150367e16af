/-!
Dates and times of day, with or without an offset from universal time, as TOML writes them. Every
part has two digits, the year four, and a time may end in a fraction of a second.
-/

namespace MarkupExport

structure Date where
  year : Nat
  month : Nat
  day : Nat
deriving DecidableEq, Repr

/-- A time of day. A leap second is the sixtieth. -/
structure Time where
  hour : Nat
  minute : Nat
  second : Nat
  /-- The digits of the fraction of a second down to nanoseconds, without zeros at the end. -/
  fraction : List Char
deriving DecidableEq, Repr

inductive Offset where
  | utc
  | minutes (value : Int)
deriving DecidableEq, Repr

inductive Moment where
  | date (day : Date)
  | time (clock : Time)
  | dateTime (day : Date) (clock : Time) (offset : Option Offset)
deriving DecidableEq, Repr

namespace Moment

def isLeapYear (year : Nat) : Bool :=
  year % 4 = 0 && (year % 100 ≠ 0 || year % 400 = 0)

def daysInMonth (year month : Nat) : Nat :=
  if month = 2 then (if isLeapYear year then 29 else 28)
  else if [4, 6, 9, 11].contains month then 30
  else 31

/-! ## Reading -/

/-- The number these digits spell, if it lies between the bounds. -/
def number? (least most : Nat) (digits : List Char) : Option Nat :=
  let value := Nat.ofDigitChars 10 digits 0
  if digits.all Char.isDigit ∧ least ≤ value ∧ value ≤ most then some value else none

def date? : List Char → Option Date
  | [a, b, c, d, '-', e, f, '-', g, h] => do
    let year ← number? 0 9999 [a, b, c, d]
    let month ← number? 1 12 [e, f]
    let day ← number? 1 (daysInMonth year month) [g, h]
    return { year, month, day }
  | _ => none

def fraction (digits : List Char) : List Char :=
  ((digits.take 9).reverse.dropWhile (· = '0')).reverse

/-- A time of day, and what follows it. -/
def time? : List Char → Option (Time × List Char)
  | a :: b :: ':' :: c :: d :: ':' :: e :: f :: rest => do
    let hour ← number? 0 23 [a, b]
    let minute ← number? 0 59 [c, d]
    let second ← number? 0 60 [e, f]
    match rest with
    | '.' :: rest =>
      let digits := rest.takeWhile Char.isDigit
      guard (digits ≠ [])
      let rest := rest.dropWhile Char.isDigit
      return ({ hour, minute, second, fraction := fraction digits }, rest)
    | rest => return ({ hour, minute, second, fraction := [] }, rest)
  | _ => none

def offset? : List Char → Option Offset
  | ['Z'] | ['z'] => some .utc
  | [sign, a, b, ':', c, d] => do
    let minutes := 60 * (← number? 0 23 [a, b]) + (← number? 0 59 [c, d])
    if sign = '+' then return .minutes minutes
    else if sign = '-' then return .minutes (-minutes)
    else none
  | _ => none

def read? (chars : List Char) : Option Moment :=
  match date? (chars.take 10), chars.drop 10 with
  | some day, [] => some (.date day)
  | some day, mark :: rest => do
    guard (mark = 'T' ∨ mark = 't')
    let (clock, rest) ← time? rest
    if rest = [] then return .dateTime day clock none
    else return .dateTime day clock (some (← offset? rest))
  | none, _ =>
    match time? chars with
    | some (clock, []) => some (.time clock)
    | _ => none

/-! ## Writing -/

def padded (width number : Nat) : String :=
  let digits := Nat.toDigits 10 number
  String.ofList (List.replicate (width - digits.length) '0' ++ digits)

def dateText (day : Date) : String :=
  padded 4 day.year ++ "-" ++ padded 2 day.month ++ "-" ++ padded 2 day.day

def timeText (clock : Time) : String :=
  padded 2 clock.hour ++ ":" ++ padded 2 clock.minute ++ ":" ++ padded 2 clock.second ++
    (if clock.fraction = [] then "" else String.ofList ('.' :: clock.fraction))

def offsetText : Offset → String
  | .utc => "Z"
  | .minutes value =>
    (if value < 0 then "-" else "+") ++ padded 2 (value.natAbs / 60) ++ ":" ++
      padded 2 (value.natAbs % 60)

def text : Moment → String
  | date day => dateText day
  | time clock => timeText clock
  | dateTime day clock offset =>
    dateText day ++ "T" ++ timeText clock ++ (offset.map offsetText).getD ""

example : (read? "1979-05-27t07:32:00.5000-07:00".toList).map text =
    some "1979-05-27T07:32:00.5-07:00" := by
  decide +kernel

example : read? "2023-02-29".toList = none ∧ (read? "2024-02-29".toList).isSome := by
  decide +kernel

end Moment

end MarkupExport
