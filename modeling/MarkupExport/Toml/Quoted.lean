import MarkupExport.Text.Percent
import MarkupExport.Toml.Scan

/-!
Strings. Between double quotes a backslash starts an escape, between single quotes every character
stands for itself. Between tripled quotes a string may run over several lines; a line end right
after the opening quotes is not part of it, and up to two more quotes may stand before the closing
ones.
-/

namespace MarkupExport.Toml.Quoted

def escaped? : Char → Option Char
  | '"' => some '"'
  | '\\' => some '\\'
  | 'b' => some '\x08'
  | 'f' => some '\x0c'
  | 'n' => some '\n'
  | 'r' => some '\r'
  | 't' => some '\t'
  | _ => none

/-- The character with this hexadecimal code point. Surrogates are no characters. -/
def scalar? (digits : List Char) : Option Char := do
  let code ← digits.foldlM (fun value digit => (Text.hexValue? digit).map (16 * value + ·)) 0
  guard (code.isValidChar)
  return Char.ofNat code

/-- The character that an escape spells, and what follows it. -/
def escape? : List Char → Option (Char × List Char)
  | 'u' :: a :: b :: c :: d :: rest => (scalar? [a, b, c, d]).map (·, rest)
  | 'U' :: a :: b :: c :: d :: e :: f :: g :: h :: rest =>
    (scalar? [a, b, c, d, e, f, g, h]).map (·, rest)
  | char :: rest => (escaped? char).map (·, rest)
  | [] => none

theorem escape?_length {chars rest : List Char} {char : Char}
    (read : escape? chars = some (char, rest)) : rest.length < chars.length := by
  unfold escape? at read
  split at read <;>
    simp only [Option.map_eq_some_iff, Prod.mk.injEq, reduceCtorEq] at read
  all_goals
    rcases read with ⟨_, _, _, rfl⟩
    simp only [List.length_cons]
    omega

/-! ## On one line -/

def basic (chars : List Char) : Option (List Char × List Char) :=
  match chars with
  | [] => none
  | '"' :: rest => some ([], rest)
  | '\\' :: rest =>
    match _read : escape? rest with
    | none => none
    | some (char, rest) => (basic rest).map fun (tail, rest) => (char :: tail, rest)
  | char :: rest =>
    if Scan.isLineChar char then (basic rest).map fun (tail, rest) => (char :: tail, rest)
    else none
termination_by chars.length
decreasing_by
  · exact Nat.lt_succ_of_lt (escape?_length _read)
  · exact Nat.lt_succ_self _

def literal : List Char → Option (List Char × List Char)
  | [] => none
  | '\'' :: rest => some ([], rest)
  | char :: rest =>
    if Scan.isLineChar char then (literal rest).map fun (tail, rest) => (char :: tail, rest)
    else none

/-! ## On several lines -/

/-- Takes up to two more quotes from behind the closing ones. -/
def closing (quote : Char) : List Char → List Char × List Char
  | [] => ([], [])
  | [char] => if char = quote then ([quote], []) else ([], [char])
  | first :: second :: rest =>
    if first ≠ quote then ([], first :: second :: rest)
    else if second ≠ quote then ([quote], second :: rest)
    else ([quote, quote], rest)

def isLineBreak (char : Char) : Bool :=
  Scan.isBlank char || char = '\n'

/-- Behind a backslash at the end of a line, the lines up to the next text. -/
def joined? (chars : List Char) : Option (List Char) :=
  match chars.dropWhile Scan.isBlank with
  | '\n' :: rest => some (rest.dropWhile isLineBreak)
  | _ => none

theorem joined?_length {chars rest : List Char} (read : joined? chars = some rest) :
    rest.length < chars.length := by
  have blank := (List.dropWhile_sublist (l := chars) Scan.isBlank).length_le
  unfold joined? at read
  split at read
  · next tail equal =>
      have dropped := (List.dropWhile_sublist (l := tail) isLineBreak).length_le
      simp only [Option.some.injEq] at read
      rw [equal] at blank
      simp only [List.length_cons] at blank
      rw [← read]
      omega
  · simp at read

def multilineBasic (chars : List Char) : Option (List Char × List Char) :=
  match chars with
  | [] => none
  | '"' :: '"' :: '"' :: rest => some (closing '"' rest)
  | '\\' :: rest =>
    match _read : escape? rest with
    | some (char, rest) => (multilineBasic rest).map fun (tail, rest) => (char :: tail, rest)
    | none =>
      match _joined : joined? rest with
      | some rest => multilineBasic rest
      | none => none
  | char :: rest =>
    if Scan.isLineChar char ∨ char = '\n' then
      (multilineBasic rest).map fun (tail, rest) => (char :: tail, rest)
    else none
termination_by chars.length
decreasing_by
  · exact Nat.lt_succ_of_lt (escape?_length _read)
  · exact Nat.lt_succ_of_lt (joined?_length _joined)
  · exact Nat.lt_succ_self _

def multilineLiteral : List Char → Option (List Char × List Char)
  | [] => none
  | '\'' :: '\'' :: '\'' :: rest => some (closing '\'' rest)
  | char :: rest =>
    if Scan.isLineChar char ∨ char = '\n' then
      (multilineLiteral rest).map fun (tail, rest) => (char :: tail, rest)
    else none

/-- Without a line end in front. -/
def unbroken : List Char → List Char
  | '\n' :: rest => rest
  | chars => chars

/-! ## Any string -/

/-- A string that stays on its line, as names do. -/
def oneLine : Scan String
  | '"' :: rest => (basic rest).map fun (spelled, rest) => (String.ofList spelled, rest)
  | '\'' :: rest => (literal rest).map fun (spelled, rest) => (String.ofList spelled, rest)
  | _ => none

def read : Scan String
  | '"' :: '"' :: '"' :: rest =>
    (multilineBasic (unbroken rest)).map fun (spelled, rest) => (String.ofList spelled, rest)
  | '\'' :: '\'' :: '\'' :: rest =>
    (multilineLiteral (unbroken rest)).map fun (spelled, rest) => (String.ofList spelled, rest)
  | chars => oneLine chars

example : read "\"a\\u00e9\\n\" b".toList = some ("aé\n", [' ', 'b']) := by decide +kernel

example : read "\"\"\"\na \\  \n \n b\"\"\"\"\"".toList = some ("a b\"\"", []) := by decide +kernel

example : read "'''it''s'''".toList = some ("it''s", []) := by decide +kernel

end MarkupExport.Toml.Quoted
