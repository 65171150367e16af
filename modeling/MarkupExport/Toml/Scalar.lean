import MarkupExport.Toml.Basic

/-!
Values that are written without quotes and brackets: truth values, whole numbers, numbers with a
point or an exponent, and moments. Each is one run of letters, digits and the signs `_+-.:`; only
between the date and the time of a moment a space may stand.
-/

namespace MarkupExport.Toml.Scalar

def isRunChar (char : Char) : Bool :=
  char.isAlphanum || ['_', '+', '-', '.', ':'].contains char

/-- Digits, of which any two may be parted by an underscore, without the underscores. -/
def digits? (isDigit : Char → Bool) (chars : List Char) : Option (List Char) :=
  let groups := chars.splitOn '_'
  if groups.all fun group => group ≠ [] && group.all isDigit then some groups.flatten else none

/-- Decimal digits without a needless zero in front. -/
def whole? (chars : List Char) : Option (List Char) := do
  let digits ← digits? Char.isDigit chars
  guard (digits.head? = some '0' → digits = ['0'])
  return digits

/-- A sign in front, and the rest. -/
def signed : List Char → Bool × List Char
  | '-' :: rest => (true, rest)
  | '+' :: rest => (false, rest)
  | chars => (false, chars)

/-- What stands before the first character of this kind, and after it if there is one. -/
def cut (isMark : Char → Bool) (chars : List Char) : List Char × Option (List Char) :=
  let before := chars.takeWhile fun char => ¬ isMark char
  match chars.drop before.length with
  | [] => (before, none)
  | _ :: after => (before, some after)

/-! ## Whole numbers -/

def int64? (value : Int) : Option Int64 :=
  if Int64.minValue.toInt ≤ value ∧ value ≤ Int64.maxValue.toInt then some (Int64.ofInt value)
  else none

def digitValue (char : Char) : Nat :=
  if char.isDigit then char.toNat - '0'.toNat else char.toLower.toNat - 'a'.toNat + 10

def isDigitBelow (base : Nat) (char : Char) : Bool :=
  char.isAlphanum && digitValue char < base

/-- In base 16, 8 or 2, without a sign, zeros in front being allowed. -/
def inBase? (base : Nat) (chars : List Char) : Option Int64 := do
  let digits ← digits? (isDigitBelow base) chars
  int64? (digits.foldl (fun value digit => base * value + digitValue digit) 0 : Nat)

def int? (chars : List Char) : Option Int64 :=
  match chars with
  | '0' :: 'x' :: rest => inBase? 16 rest
  | '0' :: 'o' :: rest => inBase? 8 rest
  | '0' :: 'b' :: rest => inBase? 2 rest
  | chars => do
    let (negative, rest) := signed chars
    let value : Nat := Nat.ofDigitChars 10 (← whole? rest) 0
    int64? (if negative then -value else value)

/-! ## Other numbers -/

def exponent? (chars : List Char) : Option Int := do
  let (negative, rest) := signed chars
  let value : Nat := Nat.ofDigitChars 10 (← digits? Char.isDigit rest) 0
  return if negative then -value else value

/-- A number with a fraction or an exponent. One too large for a double is refused unless it is
negative. -/
def decimal? (negative : Bool) (chars : List Char) : Option Double := do
  let (mantissa, exponent) := cut (fun char => char = 'e' || char = 'E') chars
  let (whole, fraction) := cut (· = '.') mantissa
  guard (fraction.isSome ∨ exponent.isSome)
  let whole ← whole? whole
  let fraction ← (fraction.map (digits? Char.isDigit)).getD (some [])
  let exponent ← (exponent.map exponent?).getD (some 0)
  let value := Double.ofDecimal negative (Nat.ofDigitChars 10 (whole ++ fraction) 0)
    (exponent - fraction.length)
  guard (value ≠ .infinite false)
  return value

def float? (chars : List Char) : Option Double :=
  let (negative, rest) := signed chars
  if rest = ['i', 'n', 'f'] then some (.infinite negative)
  else if rest = ['n', 'a', 'n'] then some .notANumber
  else decimal? negative rest

/-! ## Any run -/

def ofRun? (run : List Char) : Option Toml :=
  if run = "true".toList then some (.bool true)
  else if run = "false".toList then some (.bool false)
  else
    (Moment.read? run).map .moment <|> (int? run).map .int <|> (float? run).map .float

/-- The value in front of a text, and what follows it. -/
def read (chars : List Char) : Option (Toml × List Char) :=
  let run := chars.takeWhile isRunChar
  let rest := chars.dropWhile isRunChar
  match Moment.date? run, rest with
  | some _, ' ' :: rest =>
    if (rest.head?.map Char.isDigit).getD false then
      (ofRun? (run ++ 'T' :: rest.takeWhile isRunChar)).map (·, rest.dropWhile isRunChar)
    else (ofRun? run).map (·, ' ' :: rest)
  | _, rest => (ofRun? run).map (·, rest)

example : int? "-0".toList = some 0 ∧ int? "1_000".toList = some 1000 := by decide +kernel

example : int? "01".toList = none ∧ int? "1__0".toList = none := by
  decide +kernel

example : int? "0xff_FF".toList = some 65535 ∧ int? "9223372036854775808".toList = none := by
  decide +kernel

example : (float? "6.02_2e+2".toList).map Double.text = some "602.2" := by decide +kernel

example : float? "1.".toList = none := by decide +kernel

end MarkupExport.Toml.Scalar
