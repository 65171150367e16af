import MarkupExport.Json.Basic
import MarkupExport.Text.Percent

/-!
The tokens of a JSON text. Blank space between tokens is a space, a tab or a line end, and what a
token spells is settled here; which tokens may follow each other is not.
-/

namespace MarkupExport.Json

inductive Token where
  | arrayStart
  | arrayEnd
  | objectStart
  | objectEnd
  | comma
  | colon
  | null
  | bool (value : Bool)
  | number (literal : NumberLiteral)
  | text (value : Option String)
deriving DecidableEq, Repr

namespace Token

/-! ## Texts

Between the quotes stand characters and escapes. An escape of four hexadecimal digits is a UTF-16
unit; two that form a surrogate pair are one character, and half a pair is none. -/

inductive Piece where
  | char (value : Char)
  | unit (value : Nat)
deriving DecidableEq, Repr

def escaped? : Char → Option Char
  | '"' => some '"'
  | '\\' => some '\\'
  | '/' => some '/'
  | 'b' => some '\x08'
  | 'f' => some '\x0c'
  | 'n' => some '\n'
  | 'r' => some '\r'
  | 't' => some '\t'
  | _ => none

def unit? (digits : List Char) : Option Nat :=
  digits.foldlM (fun value digit => (Text.hexValue? digit).map (16 * value + ·)) 0

/-- The pieces up to the closing quote, and what follows it. -/
def pieces : List Char → Option (List Piece × List Char)
  | [] => none
  | '"' :: rest => some ([], rest)
  | '\\' :: 'u' :: a :: b :: c :: d :: rest => do
    let value ← unit? [a, b, c, d]
    let (tail, rest) ← pieces rest
    return (.unit value :: tail, rest)
  | '\\' :: char :: rest => do
    let value ← escaped? char
    let (tail, rest) ← pieces rest
    return (.char value :: tail, rest)
  | char :: rest =>
    if char.toNat < 0x20 then none
    else do
      let (tail, rest) ← pieces rest
      return (.char char :: tail, rest)

def isHighSurrogate (unit : Nat) : Bool :=
  0xd800 ≤ unit && unit < 0xdc00

def isLowSurrogate (unit : Nat) : Bool :=
  0xdc00 ≤ unit && unit < 0xe000

/-- The characters that the pieces spell, if no half of a surrogate pair is among them. -/
def spelled? : List Piece → Option (List Char)
  | [] => some []
  | .char value :: rest => (value :: ·) <$> spelled? rest
  | .unit high :: .unit low :: rest =>
    if isHighSurrogate high then
      if isLowSurrogate low then
        (Char.ofNat (0x10000 + (high - 0xd800) * 0x400 + (low - 0xdc00)) :: ·) <$> spelled? rest
      else none
    else if isLowSurrogate high then none
    else (Char.ofNat high :: ·) <$> spelled? (.unit low :: rest)
  | .unit value :: rest =>
    if isHighSurrogate value || isLowSurrogate value then none
    else (Char.ofNat value :: ·) <$> spelled? rest

/-! ## Numbers -/

def isNumberChar (char : Char) : Bool :=
  char.isDigit || ['-', '+', '.', 'e', 'E'].contains char

def exponent? : List Char → Option (Option (Bool × List Char))
  | [] => some none
  | mark :: rest => do
    guard (mark = 'e' ∨ mark = 'E')
    let (negative, digits) :=
      match rest with
      | '-' :: digits => (true, digits)
      | '+' :: digits => (false, digits)
      | digits => (false, digits)
    guard (digits ≠ [] ∧ digits.all Char.isDigit)
    return some (negative, digits)

/-- A number without its sign: no zero stands before another digit, and a point stands between
digits. -/
def unsigned? (negative : Bool) (chars : List Char) : Option NumberLiteral := do
  let whole := chars.takeWhile Char.isDigit
  guard (whole ≠ [] ∧ (whole.head? = some '0' → whole = ['0']))
  match chars.dropWhile Char.isDigit with
  | '.' :: rest =>
    let fraction := rest.takeWhile Char.isDigit
    guard (fraction ≠ [])
    return ⟨negative, whole, fraction, ← exponent? (rest.dropWhile Char.isDigit)⟩
  | rest => return ⟨negative, whole, [], ← exponent? rest⟩

def number? : List Char → Option NumberLiteral
  | '-' :: rest => unsigned? true rest
  | chars => unsigned? false chars

/-! ## Reading tokens -/

def word? (letters : List Char) : Option Token :=
  if letters = "null".toList then some .null
  else if letters = "true".toList then some (.bool true)
  else if letters = "false".toList then some (.bool false)
  else none

/-- The token that begins with this character, and what follows it. Numbers and words extend as
far as their characters do. -/
def next? (char : Char) (rest : List Char) : Option (Token × List Char) :=
  match char with
  | '[' => some (.arrayStart, rest)
  | ']' => some (.arrayEnd, rest)
  | '{' => some (.objectStart, rest)
  | '}' => some (.objectEnd, rest)
  | ',' => some (.comma, rest)
  | ':' => some (.colon, rest)
  | '"' => (pieces rest).map fun (pieces, rest) =>
    (.text ((spelled? pieces).map String.ofList), rest)
  | char =>
    if char.isAlpha then
      (word? (char :: rest.takeWhile Char.isAlpha)).map (·, rest.dropWhile Char.isAlpha)
    else
      (number? (char :: rest.takeWhile isNumberChar)).map
        (.number ·, rest.dropWhile isNumberChar)

def isSpace (char : Char) : Bool :=
  [' ', '\t', '\n', '\r'].contains char

theorem pieces_length {chars rest : List Char} {found : List Piece}
    (read : pieces chars = some (found, rest)) : rest.length < chars.length := by
  fun_induction pieces chars generalizing found rest with
  | case1 | case5 => simp at read
  | case2 => simp_all
  | case3 | case4 | case6 =>
      simp only [Option.bind_eq_bind, Option.bind_eq_some_iff, Option.pure_def,
        Option.some.injEq, Prod.mk.injEq] at read
      simp only [List.length_cons]
      grind

theorem next?_length {char : Char} {chars rest : List Char} {token : Token}
    (read : next? char chars = some (token, rest)) : rest.length ≤ chars.length := by
  have dropped (test : Char → Bool) : (chars.dropWhile test).length ≤ chars.length :=
    (List.dropWhile_sublist test).length_le
  unfold next? at read
  split at read
  case h_7 =>
    simp only [Option.map_eq_some_iff, Prod.mk.injEq] at read
    rcases read with ⟨found, equal, _, same⟩
    exact same ▸ Nat.le_of_lt (pieces_length equal)
  case h_8 =>
    split at read <;>
    · simp only [Option.map_eq_some_iff, Prod.mk.injEq] at read
      rcases read with ⟨_, _, _, same⟩
      exact same ▸ dropped _
  all_goals simp_all

/-- All tokens of a text, if every stretch of it is one. -/
def readAll (chars : List Char) : Option (List Token) :=
  match chars with
  | [] => some []
  | char :: rest =>
    if isSpace char then readAll rest
    else
      match _read : next? char rest with
      | none => none
      | some (token, rest) => (token :: ·) <$> readAll rest
termination_by chars.length
decreasing_by
  · simp
  · exact Nat.lt_succ_of_le (next?_length _read)

example : readAll "[1 ,\"\\u00e9\"]".toList =
    some [.arrayStart, .number ⟨false, ['1'], [], none⟩, .comma, .text (some "é"), .arrayEnd] := by
  decide +kernel

end Token

end MarkupExport.Json
