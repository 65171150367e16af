import MarkupExport.Proofs.Json.Grammar

/-!
A printed value is read back as it was, if all its texts have a value and all its numbers are whole.
The proof follows the printer: what it prints spells the tokens of the value.
-/

namespace MarkupExport

namespace Json

/-! ## Plain values -/

mutual

/-- Every text has a value, and every number is a whole one of 64 bits in its shortest form. -/
def IsPlain : Json → Prop
  | .null | .bool _ => True
  | .number literal => ∃ value : Int64, literal = .ofInt value.toInt
  | .text value => value.isSome
  | .array items => ArePlain items
  | .object members => MembersPlain members

def ArePlain : List Json → Prop
  | [] => True
  | item :: items => IsPlain item ∧ ArePlain items

def MembersPlain : List (Option String × Json) → Prop
  | [] => True
  | (key, value) :: members => key.isSome ∧ IsPlain value ∧ MembersPlain members

end

/-! ## Lexemes -/

section Lexemes

variable {rest : List Char} {tokens : List Token}

theorem spells_mark {char : Char} {token : Token} (visible : Token.isSpace char = false)
    (mark : Token.next? char [] = some (token, [])) (others : Token.Spells rest tokens) :
    Token.Spells (char :: rest) (token :: tokens) :=
  .token ⟨char, [], rfl, visible, mark⟩ others

theorem spells_quoted (value : String) (others : Token.Spells rest tokens) :
    Token.Spells (quoted (some value) ++ rest) (.text (some value) :: tokens) :=
  .token ⟨'"', _, rfl, rfl, Token.next?_quoted value []⟩ others

theorem spells_ofInt (value : Int) (others : Token.Spells rest tokens) :
    Token.Spells (printNumber (.ofInt value) ++ rest) (.number (.ofInt value) :: tokens) := by
  have lexeme := Token.next?_ofInt value Token.Stops.nil
  rw [List.append_nil] at lexeme
  exact .token lexeme others

theorem spells_key (key : String) (others : Token.Spells rest tokens) :
    Token.Spells (quoted (some key) ++ ':' :: rest) (.text (some key) :: .colon :: tokens) :=
  spells_quoted key (spells_mark rfl rfl others)

end Lexemes

/-! ## Values, items and members -/

mutual

/-- A plain value prints as its tokens, whatever follows. -/
theorem spells_print {rest : List Char} {behind : List Token} (others : Token.Spells rest behind) :
    ∀ value : Json, value.IsPlain → Token.Spells (print value ++ rest) (value.tokens ++ behind)
  | .null, _ => .token ⟨'n', "ull".toList, rfl, rfl, by decide⟩ others
  | .bool true, _ => .token ⟨'t', "rue".toList, rfl, rfl, by decide⟩ others
  | .bool false, _ => .token ⟨'f', "alse".toList, rfl, rfl, by decide⟩ others
  | .number _, ⟨value, rfl⟩ => spells_ofInt value.toInt others
  | .text (some value), _ => spells_quoted value others
  | .array items, plain => by
    simp only [print, tokens, List.append_assoc, List.cons_append, List.nil_append]
    exact spells_mark rfl rfl (spells_printItems (spells_mark rfl rfl others) items plain)
  | .object members, plain => by
    simp only [print, tokens, List.append_assoc, List.cons_append, List.nil_append]
    exact spells_mark rfl rfl (spells_printMembers (spells_mark rfl rfl others) members plain)

theorem spells_printItems {rest : List Char} {behind : List Token}
    (others : Token.Spells rest behind) : ∀ items : List Json, ArePlain items →
      Token.Spells (printItems items ++ rest) (itemsTokens items ++ behind)
  | [], _ => others
  | [item], plain => spells_print others item plain.1
  | item :: next :: items, plain => by
    rw [printItems, itemsTokens, List.append_assoc, List.append_assoc]
    apply spells_print _ item plain.1
    exact spells_mark rfl rfl (spells_printItems others (next :: items) plain.2)

theorem spells_printMembers {rest : List Char} {behind : List Token}
    (others : Token.Spells rest behind) : ∀ members : Members, MembersPlain members →
      Token.Spells (printMembers members ++ rest) (membersTokens members ++ behind)
  | [], _ => others
  | [(some key, value)], plain => by
    rw [printMembers, List.append_assoc]
    exact spells_key key (spells_print others value plain.2.1)
  | (some key, value) :: next :: members, plain => by
    simp only [printMembers, membersTokens, List.append_assoc, List.cons_append]
    apply spells_key key
    apply spells_print _ value plain.2.1
    exact spells_mark rfl rfl (spells_printMembers others (next :: members) plain.2.2)

end

theorem parse?_toText {value : Json} (plain : value.IsPlain) :
    parse? value.toText = some value := by
  have spelled := spells_print .nil value plain
  rw [List.append_nil, List.append_nil] at spelled
  rw [parse?_eq_some_iff, IsSpelledBy, toText, String.toList_ofList]
  exact spelled

end Json

end MarkupExport
