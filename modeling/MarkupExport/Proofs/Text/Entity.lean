import MarkupExport.Text.Entity

/-!
Escaped text is read back. It holds none of the characters that are reserved where it stands, an
ampersand in it begins an entity, and decoding its entities from left to right gives the text that
was escaped. Text that was never escaped decodes to itself only if no entity stands in it.
-/

namespace MarkupExport.Text

/-- The entities that stand for the reserved characters of text. -/
def entities : List (List Char) :=
  [['&', 'a', 'm', 'p', ';'], ['&', 'l', 't', ';'], ['&', 'g', 't', ';']]

/-- What a text with entities stands for. -/
def decodeEntities : List Char → List Char
  | '&' :: 'a' :: 'm' :: 'p' :: ';' :: rest => '&' :: decodeEntities rest
  | '&' :: 'l' :: 't' :: ';' :: rest => '<' :: decodeEntities rest
  | '&' :: 'g' :: 't' :: ';' :: rest => '>' :: decodeEntities rest
  | char :: rest => char :: decodeEntities rest
  | [] => []

/-- The entities that stand for the reserved characters of attribute values. -/
def quotedEntities : List (List Char) :=
  [['&', 'a', 'm', 'p', ';'], ['&', 'q', 'u', 'o', 't', ';']]

/-- What an attribute value with entities stands for. -/
def decodeQuoted : List Char → List Char
  | '&' :: 'a' :: 'm' :: 'p' :: ';' :: rest => '&' :: decodeQuoted rest
  | '&' :: 'q' :: 'u' :: 'o' :: 't' :: ';' :: rest => '"' :: decodeQuoted rest
  | char :: rest => char :: decodeQuoted rest
  | [] => []

/-- No ampersand stands for itself. -/
def AmpersandsBegin (entities : List (List Char)) (chars : List Char) : Prop :=
  ∀ front back, chars = front ++ '&' :: back → ∃ entity ∈ entities, entity <+: '&' :: back

variable {chars : List Char}

/-! ## Writing and reading back -/

/-- A way to write characters so that the reserved ones do not occur, and to read them back one by
one. A character is written as an entity or, if it is neither reserved nor an ampersand, as it is. -/
structure Escape where
  reserved : List Char
  entities : List (List Char)
  write : Char → List Char
  decode : List Char → List Char
  write_cases : ∀ char, write char ∈ entities ∨ write char = [char] ∧ char ∉ '&' :: reserved
  entity_free : ∀ entity ∈ entities, '&' ∉ entity.tail ∧ ∀ mark ∈ reserved, mark ∉ entity
  decode_nil : decode [] = []
  decode_write : ∀ char rest, decode (write char ++ rest) = char :: decode rest

namespace Escape

variable (escape : Escape)

theorem decode_flatMap (chars : List Char) :
    escape.decode (chars.flatMap escape.write) = chars := by
  induction chars with
  | nil => exact escape.decode_nil
  | cons char chars induction =>
      rw [List.flatMap_cons, escape.decode_write, induction]

theorem mapChars_injective : Function.Injective (mapChars escape.write) := by
  intro left right same
  apply String.toList_inj.mp
  have lists := congrArg (fun text => escape.decode text.toList) same
  simpa [toList_mapChars, escape.decode_flatMap] using lists

theorem not_mem_flatMap {mark : Char} (reserved : mark ∈ escape.reserved) (chars : List Char) :
    mark ∉ chars.flatMap escape.write := by
  intro member
  rcases List.mem_flatMap.mp member with ⟨char, _, inWritten⟩
  rcases escape.write_cases char with known | ⟨plain, ordinary⟩
  · exact (escape.entity_free _ known).2 mark reserved inWritten
  · rw [plain, List.mem_singleton] at inWritten
    exact ordinary (List.mem_cons_of_mem _ (inWritten ▸ reserved))

/-- An ampersand in what is written of a character begins it. -/
theorem eq_nil_of_write {char : Char} {front back : List Char}
    (split : escape.write char = front ++ '&' :: back) :
    front = [] ∧ escape.write char ∈ escape.entities := by
  rcases escape.write_cases char with known | ⟨plain, ordinary⟩
  · refine ⟨?_, known⟩
    have initial := (escape.entity_free _ known).1
    rw [split] at initial
    cases front with
    | nil => rfl
    | cons first front => simp at initial
  · have member : '&' ∈ [char] := by simp [← plain, split]
    exact absurd (List.mem_singleton.mp member ▸ List.mem_cons_self) ordinary

theorem ampersandsBegin_flatMap (chars : List Char) :
    AmpersandsBegin escape.entities (chars.flatMap escape.write) := by
  induction chars with
  | nil =>
      intro front back split
      simp at split
  | cons char chars induction =>
      intro front back split
      rw [List.flatMap_cons] at split
      rcases List.append_eq_append_iff.mp split with ⟨rest, _, after⟩ | ⟨rest, inWritten, after⟩
      · exact induction rest back after
      · cases rest with
        | nil => exact induction [] back after.symm
        | cons first letters =>
            cases after
            rcases escape.eq_nil_of_write inWritten with ⟨rfl, known⟩
            rw [inWritten] at known
            exact ⟨_, known, List.prefix_append ('&' :: letters) _⟩

end Escape

/-! ## Escaped text -/

theorem decodeEntities_cons_of_ne {char : Char} (ordinary : char ≠ '&') (rest : List Char) :
    decodeEntities (char :: rest) = char :: decodeEntities rest := by
  rw [decodeEntities.eq_def]
  split <;> simp_all

theorem decodeEntities_textEntity (char : Char) (rest : List Char) :
    decodeEntities (textEntity char ++ rest) = char :: decodeEntities rest := by
  unfold textEntity
  split
  · simp [decodeEntities]
  · simp [decodeEntities]
  · simp [decodeEntities]
  · next noAmpersand _ _ => exact decodeEntities_cons_of_ne noAmpersand rest

theorem textEntity_cases (char : Char) :
    textEntity char ∈ entities ∨ textEntity char = [char] ∧ char ∉ ['&', '<', '>'] := by
  unfold textEntity
  split
  · exact .inl (by decide)
  · exact .inl (by decide)
  · exact .inl (by decide)
  · next noAmpersand noLess noGreater =>
      refine .inr ⟨rfl, ?_⟩
      simp only [List.mem_cons, List.not_mem_nil, or_false, not_or]
      exact ⟨noAmpersand, noLess, noGreater⟩

/-- Text between tags. -/
def Escape.text : Escape where
  reserved := ['<', '>']
  entities := Text.entities
  write := textEntity
  decode := decodeEntities
  write_cases := textEntity_cases
  entity_free := by simp [Text.entities]
  decode_nil := rfl
  decode_write := decodeEntities_textEntity

/-! ## Attribute values -/

theorem decodeQuoted_cons_of_ne {char : Char} (ordinary : char ≠ '&') (rest : List Char) :
    decodeQuoted (char :: rest) = char :: decodeQuoted rest := by
  rw [decodeQuoted.eq_def]
  split <;> simp_all

theorem decodeQuoted_attributeEntity (char : Char) (rest : List Char) :
    decodeQuoted (attributeEntity char ++ rest) = char :: decodeQuoted rest := by
  unfold attributeEntity
  split
  · simp [decodeQuoted]
  · simp [decodeQuoted]
  · next noAmpersand _ => exact decodeQuoted_cons_of_ne noAmpersand rest

theorem attributeEntity_cases (char : Char) :
    attributeEntity char ∈ quotedEntities ∨
      attributeEntity char = [char] ∧ char ∉ ['&', '"'] := by
  unfold attributeEntity
  split
  · exact .inl (by decide)
  · exact .inl (by decide)
  · next noAmpersand noQuote =>
      refine .inr ⟨rfl, ?_⟩
      simp only [List.mem_cons, List.not_mem_nil, or_false, not_or]
      exact ⟨noAmpersand, noQuote⟩

/-- The value of an attribute, between quotes. -/
def Escape.quoted : Escape where
  reserved := ['"']
  entities := quotedEntities
  write := attributeEntity
  decode := decodeQuoted
  write_cases := attributeEntity_cases
  entity_free := by simp [quotedEntities]
  decode_nil := rfl
  decode_write := decodeQuoted_attributeEntity

/-! ## Plain text -/

theorem length_decodeEntities_le (chars : List Char) :
    (decodeEntities chars).length ≤ chars.length := by
  fun_induction decodeEntities chars <;> simp <;> omega

/-- A text that begins with an entity is shorter once it is decoded. -/
theorem decodeEntities_entity_ne {entity : List Char} (known : entity ∈ entities)
    (rest : List Char) : decodeEntities (entity ++ rest) ≠ entity ++ rest := by
  have shorter := length_decodeEntities_le rest
  intro same
  have lengths := congrArg List.length same
  simp only [entities, List.mem_cons, List.not_mem_nil, or_false] at known
  rcases known with rfl | rfl | rfl <;> simp [decodeEntities] at lengths <;> omega

theorem decodeEntities_entity_iff {entity : List Char} (known : entity ∈ entities)
    (rest : List Char) : decodeEntities (entity ++ rest) = entity ++ rest ↔
      ∀ other ∈ entities, ¬ other <:+: entity ++ rest := by
  apply iff_of_false (decodeEntities_entity_ne known rest)
  intro free
  exact free entity known (List.prefix_append entity rest).isInfix

/-- Decoding changes a text exactly if an entity stands in it. -/
theorem decodeEntities_eq_self_iff :
    decodeEntities chars = chars ↔ ∀ entity ∈ entities, ¬ entity <:+: chars := by
  fun_induction decodeEntities chars with
  | case1 rest =>
      have known : ['&', 'a', 'm', 'p', ';'] ∈ entities := by decide
      exact decodeEntities_entity_iff known rest
  | case2 rest =>
      have known : ['&', 'l', 't', ';'] ∈ entities := by decide
      exact decodeEntities_entity_iff known rest
  | case3 rest =>
      have known : ['&', 'g', 't', ';'] ∈ entities := by decide
      exact decodeEntities_entity_iff known rest
  | case4 char rest noAmpersand noLess noGreater induction =>
      have differs {mark : Char} {letters : List Char}
          (other : ∀ after, char = mark → rest = letters ++ after → False) :
          ¬ mark :: letters <+: char :: rest := by
        intro begins
        obtain ⟨after, equal⟩ := begins
        exact other after (List.cons.inj equal).1.symm (List.cons.inj equal).2.symm
      have first : ∀ entity ∈ entities, ¬ entity <+: char :: rest := by
        simp only [entities, List.forall_mem_cons]
        exact ⟨differs noAmpersand, differs noLess, differs noGreater, List.forall_mem_nil _⟩
      simp only [List.cons.injEq, true_and, induction, List.infix_cons_iff, not_or]
      exact forall₂_congr fun entity known => by simp [first entity known]
  | case5 => decide

end MarkupExport.Text
