import MarkupExport.Ascending

/-!
Punycode: words over Unicode spelled in lower-case ASCII. The ASCII characters of a word come
first; then each other character, in ascending order, is given by how far the place of its
insertion lies from the one before it, in digits of base 36 with shifting thresholds.
-/

namespace MarkupExport.Url.Punycode

def digit (value : Nat) : Char :=
  if value < 26 then Char.ofNat (97 + value) else Char.ofNat (22 + value)

def digitValue? (char : Char) : Option Nat :=
  if 'a' ≤ char ∧ char ≤ 'z' then some (char.toNat - 97)
  else if 'A' ≤ char ∧ char ≤ 'Z' then some (char.toNat - 65)
  else if '0' ≤ char ∧ char ≤ '9' then some (char.toNat - 22)
  else none

example : (List.range 36).map (digitValue? ∘ digit) = (List.range 36).map some := by decide

/-- The least value that a digit does not end a number with, between 1 and 26. -/
def threshold (position bias : Nat) : Nat :=
  min 26 (max 1 (position - bias))

/-! The bias adapts to the distances seen so far, so that most numbers are short. -/

def reduce (delta steps : Nat) : Nat :=
  if 455 < delta then reduce (delta / 35) (steps + 36)
  else steps + 36 * delta / (delta + 38)
termination_by delta
decreasing_by exact Nat.div_lt_self (by omega) (by decide)

def adapt (delta count : Nat) (first : Bool) : Nat :=
  let damped := if first then delta / 700 else delta / 2
  reduce (damped + damped / count) 0

/-! ## Spelling -/

def number (bias position value : Nat) : List Char :=
  let limit := threshold position bias
  if value < limit then [digit value]
  else digit (limit + (value - limit) % (36 - limit)) ::
    number bias (position + 36) ((value - limit) / (36 - limit))
termination_by value
decreasing_by
  have positive : 1 ≤ threshold position bias := by simp only [threshold]; omega
  exact Nat.lt_of_le_of_lt (Nat.div_le_self _ _) (by omega)

structure Spelling where
  written : List Char
  delta : Nat
  bias : Nat
  /-- How many characters of the word are written. -/
  count : Nat

/-- Passes one character of the word while `code` is the character to insert. -/
def Spelling.pass (basic code : Nat) (spelling : Spelling) (char : Char) : Spelling :=
  if char.toNat < code then { spelling with delta := spelling.delta + 1 }
  else if char.toNat = code then
    { written := spelling.written ++ number spelling.bias 36 spelling.delta
      delta := 0
      bias := adapt spelling.delta (spelling.count + 1) (spelling.count = basic)
      count := spelling.count + 1 }
  else spelling

/-- Inserts every character of the word that has one of these codes, which ascend from `next`. -/
def insertAll (word : List Char) (basic : Nat) :
    (next : Nat) → List Nat → Spelling → List Char
  | _, [], spelling => spelling.written
  | next, code :: codes, spelling =>
    let moved := { spelling with delta := spelling.delta + (code - next) * (spelling.count + 1) }
    let passed := word.foldl (Spelling.pass basic code) moved
    insertAll word basic (code + 1) codes { passed with delta := passed.delta + 1 }

def isAscii (char : Char) : Bool :=
  char.toNat < 0x80

def encode (word : List Char) : List Char :=
  let basic := word.filter isAscii
  let codes := Ascending.keys (Ascending.ofList
    ((word.filter (fun char => !isAscii char)).map fun char => (char.toNat, ())))
  let start := if basic.isEmpty then [] else basic ++ ['-']
  insertAll word basic.length 0x80 codes ⟨start, 0, 72, basic.length⟩

example : encode "münchen".toList = "mnchen-3ya".toList := by decide +kernel

example : encode "日本".toList = "wgv71a".toList := by decide +kernel

/-! ## Reading -/

/-- Adds one number to `index`, and gives what follows it. -/
def readNumber (bias : Nat) : (position weight index : Nat) → List Char → Option (Nat × List Char)
  | _, _, _, [] => none
  | position, weight, index, char :: rest => do
    let value ← digitValue? char
    let limit := threshold position bias
    if value < limit then return (index + value * weight, rest)
    else readNumber bias (position + 36) (weight * (36 - limit)) (index + value * weight) rest

theorem readNumber_length {bias position weight index result : Nat} {chars rest : List Char}
    (read : readNumber bias position weight index chars = some (result, rest)) :
    rest.length < chars.length := by
  induction chars generalizing position weight index with
  | nil => simp [readNumber] at read
  | cons char tail induction =>
      simp only [readNumber, Option.bind_eq_bind, Option.bind_eq_some_iff] at read
      rcases read with ⟨value, _, read⟩
      split at read
      · simp only [Option.pure_def, Option.some.injEq, Prod.mk.injEq] at read
        simp [read.2]
      · exact Nat.lt_succ_of_lt (induction read)

/-- Inserts the character that each number stands for. -/
def readAll (word : List Char) (code index bias : Nat) (chars : List Char) :
    Option (List Char) :=
  match chars with
  | [] => some word
  | char :: rest =>
    match _read : readNumber bias 36 1 index (char :: rest) with
    | none => none
    | some (result, rest) =>
      let size := word.length + 1
      let next := code + result / size
      if Nat.isValidChar next then
        let place := result % size
        readAll (word.take place ++ Char.ofNat next :: word.drop place) next (place + 1)
          (adapt (result - index) size (index = 0)) rest
      else none
termination_by chars.length
decreasing_by exact readNumber_length _read

def decode (spelled : List Char) : Option (List Char) :=
  let numbers := spelled.reverse.takeWhile (· ≠ '-')
  let basic := (spelled.reverse.drop (numbers.length + 1)).reverse
  if basic.all isAscii then readAll basic 0x80 0 72 numbers.reverse else none

example : decode "mnchen-3ya".toList = some "münchen".toList := by decide +kernel

end MarkupExport.Url.Punycode
