import Mathlib.Data.List.Chain
import MarkupExport.Proofs.Json.Tokens

/-!
How a text spells a list of tokens: one lexeme after the other, with any blank space between them. A
text spells every list of tokens that is read from it, and the tokens it spells are read from it,
provided that no number or word comes directly after another.
-/

namespace MarkupExport.Json.Token

/-! ## Texts between quotes -/

/-- These characters spell one piece between quotes, whatever follows them. -/
def SpellsPiece (lead : List Char) (piece : Piece) : Prop :=
  ∀ rest, pieces (lead ++ rest) = (pieces rest).map fun read => (piece :: read.1, read.2)

theorem spellsPiece_unit {a b c d : Char} {value : Nat} (read : unit? [a, b, c, d] = some value) :
    SpellsPiece ['\\', 'u', a, b, c, d] (.unit value) := by
  intro rest
  simp only [List.cons_append, List.nil_append]
  rw [pieces, read]
  exact pieces_bind _ _

theorem spellsPiece_escape {char value : Char} (read : escaped? char = some value) :
    SpellsPiece ['\\', char] (.char value) := by
  intro rest
  simp only [List.cons_append, List.nil_append]
  rw [pieces, read]
  · exact pieces_bind _ _
  · rintro _ _ _ _ _ rfl
    cases read

theorem spellsPiece_char {char : Char} (notQuote : char ≠ '"') (notEscape : char ≠ '\\')
    (printed : ¬ char.toNat < 0x20) : SpellsPiece [char] (.char char) := by
  intro rest
  rw [List.singleton_append, pieces.eq_def]
  split
  case h_5 _ _ plain =>
    rcases List.cons.inj plain with ⟨rfl, rfl⟩
    rw [if_neg printed]
    exact pieces_bind _ _
  all_goals simp_all

/-- These characters, of which the last is the closing quote, spell all of these pieces. -/
def SpellsPieces (front : List Char) (found : List Piece) : Prop :=
  ∀ rest, pieces (front ++ rest) = some (found, rest)

theorem SpellsPiece.append {lead front : List Char} {piece : Piece} {found : List Piece}
    (first : SpellsPiece lead piece) (others : SpellsPieces front found) :
    SpellsPieces (lead ++ front) (piece :: found) := by
  intro rest
  rw [List.append_assoc, first, others, Option.map_some]

/-- What is read between quotes is spelled up to the closing quote. -/
theorem spellsPieces_of_pieces {chars after : List Char} {found : List Piece}
    (read : pieces chars = some (found, after)) :
    ∃ front, chars = front ++ after ∧ SpellsPieces front found := by
  fun_induction pieces chars generalizing found after with
  | case1 | case5 => cases read
  | case2 rest =>
      cases read
      exact ⟨['"'], rfl, fun _ => rfl⟩
  | case3 a b c d rest induction =>
      rcases Option.bind_eq_some_iff.mp read with ⟨value, unit, read⟩
      rcases Option.bind_eq_some_iff.mp read with ⟨⟨tail, behind⟩, inRest, same⟩
      cases same
      rcases induction inRest with ⟨front, rfl, others⟩
      exact ⟨_, rfl, (spellsPiece_unit unit).append others⟩
  | case4 char rest _ induction =>
      rcases Option.bind_eq_some_iff.mp read with ⟨value, escape, read⟩
      rcases Option.bind_eq_some_iff.mp read with ⟨⟨tail, behind⟩, inRest, same⟩
      cases same
      rcases induction inRest with ⟨front, rfl, others⟩
      exact ⟨_, rfl, (spellsPiece_escape escape).append others⟩
  | case6 char rest notQuote _ notEscape printed induction =>
      rcases Option.bind_eq_some_iff.mp read with ⟨⟨tail, behind⟩, inRest, same⟩
      cases same
      have plain : char ≠ '\\' := by
        rintro rfl
        cases rest with
        | nil => cases inRest
        | cons next rest => exact notEscape next rest rfl rfl
      rcases induction inRest with ⟨front, rfl, others⟩
      exact ⟨_, rfl, (spellsPiece_char notQuote plain printed).append others⟩

/-! ## Lexemes -/

/-- The token has no mark at its end: it extends as far as its characters do. -/
def runsOn : Token → Bool
  | .null | .bool _ | .number _ => true
  | .arrayStart | .arrayEnd | .objectStart | .objectEnd | .comma | .colon | .text _ => false

/-- A token that begins with a mark is read past whatever follows it. -/
theorem next?_mark {char : Char} {rest after : List Char} {token : Token} (mark : char ∈ marks)
    (next : next? char rest = some (token, after)) :
    token.runsOn = false ∧ ∃ front, rest = front ++ after ∧
      ∀ more, next? char (front ++ more) = some (token, more) := by
  rw [next?.eq_def] at next
  split at next
  case h_7 =>
    rcases Option.map_eq_some_iff.mp next with ⟨⟨found, behind⟩, read, same⟩
    cases same
    rcases spellsPieces_of_pieces read with ⟨front, rfl, spells⟩
    refine ⟨rfl, front, rfl, fun more => ?_⟩
    have opened : next? '"' (front ++ more) = (pieces (front ++ more)).map fun read =>
        (.text ((spelled? read.1).map String.ofList), read.2) := rfl
    rw [opened, spells, Option.map_some]
  case h_8 =>
    simp_all [marks]
  all_goals
    cases next
    exact ⟨rfl, [], rfl, fun _ => rfl⟩

theorem runsOn_of_word? {letters : List Char} {token : Token} (word : word? letters = some token) :
    token.runsOn = true := by
  rw [word?] at word
  split at word
  · cases word
    rfl
  · split at word
    · cases word
      rfl
    · rw [Option.ite_none_right_eq_some] at word
      cases word.2
      rfl

/-- A number or a word is read past what ends it. -/
theorem next?_run {char : Char} {rest after : List Char} {token : Token} (unmarked : char ∉ marks)
    (next : next? char rest = some (token, after)) :
    token.runsOn = true ∧ ∃ front, rest = front ++ after ∧
      ∀ more, Stops more → next? char (front ++ more) = some (token, more) := by
  rw [next?_of_not_mem_marks unmarked] at next
  split at next
  · next letter =>
    rcases Option.map_eq_some_iff.mp next with ⟨_, word, same⟩
    cases same
    refine ⟨runsOn_of_word? word, rest.takeWhile Char.isAlpha,
      List.takeWhile_append_dropWhile.symm, fun more stops => ?_⟩
    apply next?_word stops _ word
    exact List.forall_mem_cons.mpr ⟨letter, List.all_eq_true.mp List.all_takeWhile⟩
  · next notLetter =>
    rcases Option.map_eq_some_iff.mp next with ⟨literal, number, same⟩
    cases same
    refine ⟨rfl, rest.takeWhile isNumberChar, List.takeWhile_append_dropWhile.symm,
      fun more stops => ?_⟩
    exact next?_number stops unmarked (Bool.eq_false_iff.mpr notLetter)
      (List.all_eq_true.mp List.all_takeWhile) number

/-! ## Texts that spell tokens -/

/-- The characters of one token, with no blank in front of it and nothing behind it. -/
def IsLexeme (token : Token) (chars : List Char) : Prop :=
  ∃ char rest, chars = char :: rest ∧ isSpace char = false ∧ next? char rest = some (token, [])

/-- The text is one lexeme for each token, with any blank space before, between and behind. -/
inductive Spells : List Char → List Token → Prop
  | nil : Spells [] []
  | space {char chars tokens} (blank : isSpace char = true) (others : Spells chars tokens) :
    Spells (char :: chars) tokens
  | token {lexeme chars token tokens} (first : IsLexeme token lexeme)
    (others : Spells chars tokens) : Spells (lexeme ++ chars) (token :: tokens)

theorem readAll_space {char : Char} (blank : isSpace char = true) (rest : List Char) :
    readAll (char :: rest) = readAll rest := by
  rw [readAll, if_pos blank]

theorem readAll_token {char : Char} {rest after : List Char} {token : Token}
    (visible : isSpace char = false) (next : next? char rest = some (token, after)) :
    readAll (char :: rest) = (token :: ·) <$> readAll after := by
  rw [readAll]
  simp only [visible, Bool.false_eq_true, if_false]
  split
  · next none => rw [next] at none; cases none
  · next found =>
    rw [next] at found
    cases found
    rfl

/-- A lexeme read at the front of a text, whether or not more follows. -/
theorem next?_front {char : Char} {rest after : List Char} {token : Token}
    (next : next? char rest = some (token, after)) :
    ∃ front, rest = front ++ after ∧ next? char front = some (token, []) := by
  by_cases mark : char ∈ marks
  · rcases (next?_mark mark next).2 with ⟨front, split, alone⟩
    exact ⟨front, split, List.append_nil front ▸ alone []⟩
  · rcases (next?_run mark next).2 with ⟨front, split, alone⟩
    exact ⟨front, split, List.append_nil front ▸ alone [] Stops.nil⟩

/-- A text spells the tokens that are read from it. -/
theorem spells_of_readAll {chars : List Char} {tokens : List Token}
    (read : readAll chars = some tokens) : Spells chars tokens := by
  fun_induction readAll chars generalizing tokens with
  | case1 =>
      cases read
      exact .nil
  | case2 char rest blank induction => exact .space blank (induction read)
  | case3 => cases read
  | case4 char rest visible token after next induction =>
      rcases Option.map_eq_some_iff.mp read with ⟨others, inRest, rfl⟩
      rcases next?_front next with ⟨front, rfl, alone⟩
      exact .token ⟨char, front, rfl, Bool.eq_false_iff.mpr visible, alone⟩ (induction inRest)

/-- No token that runs on comes directly after another. -/
def Separated (tokens : List Token) : Prop :=
  tokens.IsChain fun token next => token.runsOn = true → next.runsOn = false

theorem IsLexeme.readAll_append {token : Token} {lexeme rest : List Char}
    (first : IsLexeme token lexeme) (stops : token.runsOn = true → Stops rest) :
    readAll (lexeme ++ rest) = (token :: ·) <$> readAll rest := by
  rcases first with ⟨char, chars, rfl, visible, alone⟩
  refine readAll_token visible ?_
  by_cases mark : char ∈ marks
  · rcases next?_mark mark alone with ⟨_, front, split, read⟩
    rw [List.append_nil] at split
    exact split ▸ read rest
  · rcases next?_run mark alone with ⟨runs, front, split, read⟩
    rw [List.append_nil] at split
    exact split ▸ read rest (stops runs)

theorem stops_of_isSpace {char : Char} (blank : isSpace char = true) (rest : List Char) :
    Stops (char :: rest) := by
  have foreign : ∀ space ∈ [' ', '\t', '\n', '\r'],
      isNumberChar space = false ∧ space.isAlpha = false := Text.forall_mem_of_all (by decide)
  rintro _ ⟨⟩
  exact foreign char (List.contains_iff_mem.mp blank)

/-- What runs on ends where a text begins whose first token does not. -/
theorem Spells.stops {chars : List Char} {tokens : List Token} (spells : Spells chars tokens)
    (marked : ∀ next ∈ tokens.head?, next.runsOn = false) : Stops chars := by
  cases spells with
  | nil => exact Stops.nil
  | space blank _ => exact stops_of_isSpace blank _
  | token first _ =>
      rcases first with ⟨char, front, rfl, _, alone⟩
      by_cases mark : char ∈ marks
      · exact stops_of_mem_marks mark _
      · have runs := (next?_run mark alone).1
        rw [marked _ rfl] at runs
        cases runs

/-- The tokens that a text spells are read from it. -/
theorem readAll_of_spells {chars : List Char} {tokens : List Token} (spells : Spells chars tokens)
    (separated : Separated tokens) : readAll chars = some tokens := by
  induction spells with
  | nil => rw [readAll]
  | space blank _ induction => rw [readAll_space blank, induction separated]
  | token first others induction =>
      rcases List.isChain_cons.mp separated with ⟨unlike, inRest⟩
      rw [first.readAll_append fun runs => others.stops fun next head => unlike next head runs,
        induction inRest]
      rfl

end MarkupExport.Json.Token
