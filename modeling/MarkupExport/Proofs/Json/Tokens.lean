import Mathlib.Data.Option.Basic
import MarkupExport.Json.Parser
import MarkupExport.Json.Printer
import MarkupExport.Proofs.Text.Code

/-!
What is printed is read back token by token. A text between quotes is read to its closing quote
whatever it holds, and a number or a word is read to its end wherever something else follows it.
-/

namespace MarkupExport

/-- Decimal digits have no zero in front of others. -/
theorem Nat.head?_toDigits_ne_zero {value : Nat} (nonzero : value ≠ 0) :
    (Nat.toDigits 10 value).head? ≠ some '0' := by
  induction value using Nat.strongRecOn with
  | ind value induction =>
      by_cases small : value < 10
      · rw [Nat.toDigits_of_lt_base small]
        have digits : ∀ digit < 10, digit ≠ 0 → [digit.digitChar].head? ≠ some '0' := by decide
        exact digits value small nonzero
      · have above : 10 ≤ value := by omega
        rw [Nat.toDigits_of_base_le (by decide) above,
          List.head?_append, Option.or_of_isSome (by simp)]
        exact induction (value / 10) (by omega) (by omega)

namespace Json.Token

/-! ## Texts -/

/-- How a character is spelled between quotes: by an escaped unit if it is a control without an
escape of its own. -/
def piece (char : Char) : Piece :=
  if char.toNat < 0x20 ∧ char ∉ ['\x08', '\x0c', '\n', '\r', '\t'] then .unit char.toNat
  else .char char

theorem unit?_unitDigits {value : Nat} (small : value < 0x20) :
    unit? (unitDigits value) = some value := by
  have all : ∀ value < 0x20, unit? (unitDigits value) = some value := by decide
  exact all value small

theorem pieces_bind (first : Piece) (rest : List Char) : (do
    let (tail, after) ← pieces rest
    return (first :: tail, after)) = (pieces rest).map fun read => (first :: read.1, read.2) := by
  cases pieces rest <;> rfl

theorem pieces_quotedChar (char : Char) (rest : List Char) :
    pieces (quotedChar char ++ rest) =
      (pieces rest).map fun read => (piece char :: read.1, read.2) := by
  rw [quotedChar.eq_def]
  split
  case h_8 _ plainQuote plainBackslash backspace formFeed lineFeed carriage tab =>
    split
    · next control =>
      have unescaped : char ∉ ['\x08', '\x0c', '\n', '\r', '\t'] := by
        simp only [List.mem_cons, List.not_mem_nil, or_false, not_or]
        exact ⟨backspace, formFeed, lineFeed, carriage, tab⟩
      have read := unit?_unitDigits control
      rw [unitDigits] at read ⊢
      simp only [List.map_cons, List.map_nil, List.cons_append, List.nil_append] at read ⊢
      rw [pieces, read, piece, if_pos ⟨control, unescaped⟩]
      exact pieces_bind _ _
    · next printed =>
      rw [List.singleton_append, pieces.eq_def, piece, if_neg (fun both => printed both.1)]
      split
      · next empty => cases empty
      · next equal => exact absurd (List.cons.inj equal).1 plainQuote
      · next equal => exact absurd (List.cons.inj equal).1 plainBackslash
      · next equal => exact absurd (List.cons.inj equal).1 plainBackslash
      · next equal =>
        rcases List.cons.inj equal with ⟨rfl, rfl⟩
        rw [if_neg printed]
        exact pieces_bind _ _
  all_goals exact pieces_bind _ _

theorem pieces_quoted (chars rest : List Char) :
    pieces (chars.flatMap quotedChar ++ '"' :: rest) = some (chars.map piece, rest) := by
  induction chars with
  | nil => rfl
  | cons char chars induction =>
      rw [List.flatMap_cons, List.append_assoc, pieces_quotedChar, induction]
      rfl

theorem spelled?_piece (char : Char) (pieces : List Piece) :
    spelled? (piece char :: pieces) = (spelled? pieces).map (char :: ·) := by
  rw [piece]
  split
  · next control =>
    have high : isHighSurrogate char.toNat = false := by
      have below : ¬ 0xd800 ≤ char.toNat := by omega
      simp [isHighSurrogate, below]
    have low : isLowSurrogate char.toNat = false := by
      have below : ¬ 0xdc00 ≤ char.toNat := by omega
      simp [isLowSurrogate, below]
    cases pieces with
    | nil => simp [spelled?, high, low]
    | cons next pieces => cases next <;> simp [spelled?, high, low]
  · rfl

theorem spelled?_map_piece (chars : List Char) : spelled? (chars.map piece) = some chars := by
  induction chars with
  | nil => rfl
  | cons char chars induction => rw [List.map_cons, spelled?_piece, induction, Option.map_some]

theorem next?_quoted (value : String) (rest : List Char) :
    next? '"' (value.toList.flatMap quotedChar ++ '"' :: rest) =
      some (.text (some value), rest) := by
  have read : next? '"' (value.toList.flatMap quotedChar ++ '"' :: rest) =
      (pieces (value.toList.flatMap quotedChar ++ '"' :: rest)).map fun read =>
        (.text ((spelled? read.1).map String.ofList), read.2) := rfl
  rw [read, pieces_quoted, Option.map_some]
  dsimp only
  rw [spelled?_map_piece, Option.map_some, String.ofList_toList]

/-! ## Numbers and words -/

/-- Every token but a number or a word begins with one of these. -/
def marks : List Char := ['[', ']', '{', '}', ',', ':', '"']

theorem next?_of_not_mem_marks {char : Char} (unmarked : char ∉ marks) (rest : List Char) :
    next? char rest =
      if char.isAlpha then
        (word? (char :: rest.takeWhile Char.isAlpha)).map (·, rest.dropWhile Char.isAlpha)
      else
        (number? (char :: rest.takeWhile isNumberChar)).map
          (.number ·, rest.dropWhile isNumberChar) := by
  rw [next?.eq_def]
  split
  case h_8 => rfl
  all_goals exact absurd (by decide) unmarked

/-- A number or a word that stands before this text ends there. -/
def Stops (rest : List Char) : Prop :=
  ∀ char ∈ rest.head?, isNumberChar char = false ∧ char.isAlpha = false

theorem Stops.nil : Stops [] :=
  nofun

theorem stops_of_mem_marks {char : Char} (mark : char ∈ marks) (rest : List Char) :
    Stops (char :: rest) := by
  have foreign : ∀ mark ∈ marks, isNumberChar mark = false ∧ mark.isAlpha = false :=
    Text.forall_mem_of_all (by decide)
  rintro _ ⟨⟩
  exact foreign char mark

theorem Stops.takeWhile {test : Char → Bool} {front rest : List Char} (stops : Stops rest)
    (inside : ∀ char ∈ front, test char = true)
    (outside : ∀ char, isNumberChar char = false ∧ char.isAlpha = false → test char = false) :
    (front ++ rest).takeWhile test = front ∧ (front ++ rest).dropWhile test = rest := by
  rw [List.takeWhile_append_of_pos inside, List.dropWhile_append_of_pos inside]
  cases rest with
  | nil => simp
  | cons char rest => simp [outside char (stops char (by simp))]

theorem isNumberChar_of_isDigit {char : Char} (digit : char.isDigit = true) :
    isNumberChar char = true := by
  rw [isNumberChar, digit, Bool.true_or]

section Digits

variable {value : Nat}

theorem isDigit_toDigits (value : Nat) : ∀ char ∈ Nat.toDigits 10 value, char.isDigit = true :=
  fun _ member => Nat.isDigit_of_mem_toDigits (by decide) (by decide) member

theorem unsigned?_toDigits (negative : Bool) :
    unsigned? negative (Nat.toDigits 10 value) =
      some ⟨negative, Nat.toDigits 10 value, [], none⟩ := by
  have outside (char : Char) (stop : isNumberChar char = false ∧ char.isAlpha = false) :
      char.isDigit = false :=
    Bool.eq_false_iff.mpr fun digit => by simp [isNumberChar_of_isDigit digit] at stop
  rcases Stops.nil.takeWhile (isDigit_toDigits value) outside with ⟨taken, dropped⟩
  rw [List.append_nil] at taken dropped
  have leading : (Nat.toDigits 10 value).head? = some '0' → Nat.toDigits 10 value = ['0'] := by
    intro zero
    by_cases nonzero : value = 0
    · rw [nonzero]; rfl
    · exact absurd zero (Nat.head?_toDigits_ne_zero nonzero)
  simp only [unsigned?, taken, dropped]
  rw [(Option.guard_eq_some' ()).mpr ⟨Nat.toDigits_ne_nil, leading⟩]
  rfl

theorem number?_toDigits :
    number? (Nat.toDigits 10 value) = some ⟨false, Nat.toDigits 10 value, [], none⟩ := by
  rw [number?.eq_def]
  split
  · next rest minus =>
    have digit := isDigit_toDigits value '-' (minus ▸ List.mem_cons_self)
    cases digit
  · exact unsigned?_toDigits false

end Digits

theorem next?_number {char : Char} {front rest : List Char} {literal : NumberLiteral}
    (stops : Stops rest) (unmarked : char ∉ marks) (notLetter : char.isAlpha = false)
    (inside : ∀ char ∈ front, isNumberChar char = true)
    (read : number? (char :: front) = some literal) :
    next? char (front ++ rest) = some (.number literal, rest) := by
  rcases stops.takeWhile inside (fun _ outside => outside.1) with ⟨taken, dropped⟩
  rw [next?_of_not_mem_marks unmarked, notLetter, taken, dropped, read]
  rfl

theorem next?_ofInt (value : Int) {rest : List Char} (stops : Stops rest) :
    ∃ char front, printNumber (.ofInt value) ++ rest = char :: front ∧ isSpace char = false ∧
      next? char front = some (.number (.ofInt value), rest) := by
  have printed : printNumber (.ofInt value) =
      (if value < 0 then ['-'] else []) ++ Nat.toDigits 10 value.natAbs := by
    simp [printNumber, NumberLiteral.ofInt]
  rw [printed]
  by_cases negative : value < 0
  · rw [if_pos negative]
    refine ⟨'-', Nat.toDigits 10 value.natAbs ++ rest, rfl, rfl, ?_⟩
    apply next?_number stops (by decide) rfl
      (fun char member => isNumberChar_of_isDigit (isDigit_toDigits _ char member))
    rw [number?, unsigned?_toDigits, NumberLiteral.ofInt, decide_eq_true negative]
  · rw [if_neg negative]
    rcases List.exists_cons_of_ne_nil (Nat.toDigits_ne_nil (n := value.natAbs) (b := 10)) with
      ⟨char, front, digits⟩
    have inside := isDigit_toDigits value.natAbs
    rw [digits] at inside
    rcases List.forall_mem_cons.mp inside with ⟨first, inFront⟩
    have visible : isSpace char = false := by
      have spaces : ∀ space ∈ [' ', '\t', '\n', '\r'], ¬ space.isDigit = true :=
        Text.forall_mem_of_all (by decide)
      exact Bool.eq_false_iff.mpr fun space => spaces char (by simpa [isSpace] using space) first
    refine ⟨char, front ++ rest, by rw [digits]; rfl, visible, ?_⟩
    have unmarked : ∀ mark ∈ marks, ¬ mark.isDigit = true := Text.forall_mem_of_all (by decide)
    apply next?_number stops (fun mark => unmarked char mark first) (Text.isAlpha_of_isDigit first)
      (fun char member => isNumberChar_of_isDigit (inFront char member))
    rw [← digits, number?_toDigits, NumberLiteral.ofInt, decide_eq_false negative]

theorem next?_word {char : Char} {front rest : List Char} {token : Token} (stops : Stops rest)
    (inside : ∀ letter ∈ char :: front, letter.isAlpha = true)
    (read : word? (char :: front) = some token) :
    next? char (front ++ rest) = some (token, rest) := by
  rcases List.forall_mem_cons.mp inside with ⟨first, inFront⟩
  rcases stops.takeWhile inFront (fun _ outside => outside.2) with ⟨taken, dropped⟩
  have unmarked : ∀ mark ∈ marks, ¬ mark.isAlpha = true := Text.forall_mem_of_all (by decide)
  rw [next?_of_not_mem_marks (fun mark => unmarked char mark first), first, taken, dropped, read]
  rfl

end Json.Token

end MarkupExport
