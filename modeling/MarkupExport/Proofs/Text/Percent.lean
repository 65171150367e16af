import Mathlib.Data.List.Flatten
import MarkupExport.Proofs.Text.Code

/-!
What percent-encoding leaves behind: escapes, and characters that the part in question holds as they
are. Encoding that again changes nothing, and a text without `%` decodes to its own bytes.
-/

namespace MarkupExport.Text.Percent

/-- A part with this set holds the character as it is. -/
def Keeps (reserved : Set) (value : Char) : Prop :=
  value.toNat < 0x80 ∧ reserved value = false

instance (reserved : Set) (value : Char) : Decidable (Keeps reserved value) :=
  inferInstanceAs (Decidable (_ ∧ _))

/-- The characters of an escape. -/
def marks : List Char :=
  "%0123456789ABCDEF".toList

/-- What is encoded for a part is something that the part holds. -/
def Set.KeepsMarks (reserved : Set) : Prop :=
  ∀ mark ∈ marks, Keeps reserved mark

instance (reserved : Set) : Decidable reserved.KeepsMarks :=
  List.decidableBAll (Keeps reserved) marks

theorem keeps_controlsAnd_iff {members : List Char} {value : Char} :
    Keeps (controlsAnd members) value ↔
      0x20 ≤ value.toNat ∧ value.toNat < 0x7f ∧ value ∉ members := by
  simp only [Keeps, controlsAnd, isControl, Bool.or_eq_false_iff, decide_eq_false_iff_not,
    beq_eq_false_iff_ne, List.contains_eq_mem]
  constructor
  · rintro ⟨ascii, ⟨low, delete⟩, absent⟩
    exact ⟨by omega, by omega, absent⟩
  · rintro ⟨low, high, absent⟩
    exact ⟨by omega, ⟨by omega, by omega⟩, absent⟩

variable {reserved : Set}

/-! ## Encoding -/

theorem encode_cons (value : Char) (chars : List Char) :
    encode reserved (value :: chars) = char reserved value ++ encode reserved chars :=
  List.flatMap_cons

theorem encode_append (front rest : List Char) :
    encode reserved (front ++ rest) = encode reserved front ++ encode reserved rest :=
  List.flatMap_append

theorem char_eq_self {value : Char} (keeps : Keeps reserved value) :
    char reserved value = [value] := by
  have ascii : ¬ 0x80 ≤ value.toNat := Nat.not_le.mpr keeps.1
  rw [char, keeps.2, Bool.or_false, decide_eq_false ascii]
  rfl

theorem encode_eq_self {chars : List Char} (keeps : ∀ value ∈ chars, Keeps reserved value) :
    encode reserved chars = chars := by
  induction chars with
  | nil => rfl
  | cons value chars induction =>
      rcases List.forall_mem_cons.mp keeps with ⟨first, others⟩
      rw [encode_cons, char_eq_self first, induction others, List.singleton_append]

theorem mem_marks_of_mem_byte {value : UInt8} {letter : Char} (member : letter ∈ byte value) :
    letter ∈ marks := by
  have digits : ∀ digit < 16, hexDigit digit ∈ marks := by decide
  have small := value.toNat_lt
  simp only [byte, List.mem_cons, List.not_mem_nil, or_false] at member
  rcases member with rfl | rfl | rfl
  · decide
  · exact digits _ (by omega)
  · exact digits _ (by omega)

theorem mem_char {value letter : Char} (member : letter ∈ char reserved value) :
    letter ∈ marks ∨ letter = value ∧ Keeps reserved value := by
  rw [char] at member
  split at member
  · rcases List.mem_flatMap.mp member with ⟨_, _, inByte⟩
    exact .inl (mem_marks_of_mem_byte inByte)
  · next kept =>
    rw [Bool.or_eq_true, not_or, decide_eq_true_eq, Nat.not_le, Bool.not_eq_true] at kept
    exact .inr ⟨List.mem_singleton.mp member, kept⟩

theorem mem_encode {chars : List Char} {letter : Char} (member : letter ∈ encode reserved chars) :
    letter ∈ marks ∨ letter ∈ chars ∧ Keeps reserved letter := by
  rcases List.mem_flatMap.mp member with ⟨value, written, inChar⟩
  rcases mem_char inChar with mark | ⟨rfl, keeps⟩
  · exact .inl mark
  · exact .inr ⟨written, keeps⟩

theorem keeps_of_mem_encode (marked : reserved.KeepsMarks) {chars : List Char} {letter : Char}
    (member : letter ∈ encode reserved chars) : Keeps reserved letter := by
  rcases mem_encode member with mark | ⟨_, keeps⟩
  · exact marked letter mark
  · exact keeps

theorem encode_encode (marked : reserved.KeepsMarks) (chars : List Char) :
    encode reserved (encode reserved chars) = encode reserved chars :=
  encode_eq_self fun _ member => keeps_of_mem_encode marked member

/-- A character stands for itself or is written with a `%` first. -/
def EscapesWithPercent (write : Char → List Char) : Prop :=
  ∀ value, write value = [value] ∨ (write value).head? = some '%'

/-- The first byte of a character's form is its code, unless it is no code of ASCII. -/
theorem utf8EncodeChar_eq_cons (value : Char) :
    ∃ first others, String.utf8EncodeChar value = first :: others ∧
      (first.toNat < 0x80 → first.toNat = value.toNat) := by
  have code : value.val.toNat = value.toNat := rfl
  rw [String.utf8EncodeChar]
  split
  · exact ⟨_, _, rfl, fun _ => by rw [code, UInt8.toNat_ofNat']; omega⟩
  split
  · exact ⟨_, _, rfl, fun small => by rw [UInt8.toNat_ofNat'] at small; omega⟩
  split
  · exact ⟨_, _, rfl, fun small => by rw [UInt8.toNat_ofNat'] at small; omega⟩
  · exact ⟨_, _, rfl, fun small => by rw [UInt8.toNat_ofNat'] at small; omega⟩

theorem char_of_not_keeps {value : Char} (encoded : ¬ Keeps reserved value) :
    ∃ first others, char reserved value = byte first ++ others ∧
      (first.toNat < 0x80 → first.toNat = value.toNat) := by
  rcases utf8EncodeChar_eq_cons value with ⟨first, others, form, code⟩
  refine ⟨first, others.flatMap byte, ?_, code⟩
  have inSet : (decide (0x80 ≤ value.toNat) || reserved value) = true := by
    cases found : reserved value with
    | true => exact Bool.or_true _
    | false =>
        have high : ¬ value.toNat < 0x80 := fun ascii => encoded ⟨ascii, found⟩
        simpa using high
  rw [char, if_pos inSet, form, List.flatMap_cons]

theorem escapesWithPercent_char : EscapesWithPercent (char reserved) := by
  intro value
  by_cases keeps : Keeps reserved value
  · exact .inl (char_eq_self keeps)
  · rcases char_of_not_keeps keeps with ⟨first, others, spelled, _⟩
    exact .inr (by rw [spelled]; rfl)

theorem EscapesWithPercent.ne_nil {write : Char → List Char} (escapes : EscapesWithPercent write)
    (value : Char) : write value ≠ [] := by
  intro empty
  rcases escapes value with itself | escaped
  · rw [empty] at itself
    cases itself
  · rw [empty] at escaped
    cases escaped

theorem EscapesWithPercent.flatMap_eq_nil_iff {write : Char → List Char}
    (escapes : EscapesWithPercent write) {chars : List Char} :
    chars.flatMap write = [] ↔ chars = [] := by
  cases chars with
  | nil => exact ⟨fun _ => rfl, fun _ => rfl⟩
  | cons value chars =>
      rw [List.flatMap_cons, List.append_eq_nil_iff]
      exact ⟨fun both => absurd both.1 (escapes.ne_nil value), nofun⟩

/-- What an escaped text begins with before its first `%` is what the text began with. -/
theorem EscapesWithPercent.front {write : Char → List Char} (escapes : EscapesWithPercent write)
    {chars front rest : List Char} (free : '%' ∉ front)
    (equal : chars.flatMap write = front ++ rest) :
    ∃ back, chars = front ++ back ∧ back.flatMap write = rest := by
  induction front generalizing chars with
  | nil => exact ⟨chars, rfl, equal⟩
  | cons letter front induction =>
      rw [List.mem_cons, not_or] at free
      cases chars with
      | nil => cases equal
      | cons value chars =>
          rw [List.flatMap_cons] at equal
          rcases escapes value with itself | escaped
          · rw [itself] at equal
            cases (List.cons.inj equal).1
            rcases induction free.2 (List.cons.inj equal).2 with ⟨back, rfl, after⟩
            exact ⟨back, rfl, after⟩
          · have first := congrArg List.head? equal
            rw [List.head?_append, escaped] at first
            cases first
            exact absurd rfl free.1

/-- A character stands for itself, or is escaped as something other than a dot. -/
def EscapesNoDot (write : Char → List Char) : Prop :=
  ∀ value, write value = [value] ∨ ∃ high low rest, write value = '%' :: high :: low :: rest ∧
    (high = '2' → low ∉ ['e', 'E'])

theorem EscapesNoDot.escapesWithPercent {write : Char → List Char} (escapes : EscapesNoDot write) :
    EscapesWithPercent write := by
  intro value
  rcases escapes value with itself | ⟨high, low, rest, escaped, _⟩
  · exact .inl itself
  · exact .inr (by rw [escaped]; rfl)

theorem escapesNoDot_char (dot : Keeps reserved '.') : EscapesNoDot (char reserved) := by
  intro value
  by_cases keeps : Keeps reserved value
  · exact .inl (char_eq_self keeps)
  rcases char_of_not_keeps keeps with ⟨first, others, spelled, code⟩
  refine .inr ⟨_, _, others, spelled, fun high low => ?_⟩
  have highDigit : ∀ digit < 16, hexDigit digit = '2' → digit = 2 := by decide
  have lowDigit : ∀ digit < 16, hexDigit digit ∈ ['e', 'E'] → digit = 14 := by decide
  have small := first.toNat_lt
  have isDot : first.toNat = '.'.toNat := by
    have two := highDigit _ (by omega) high
    have fourteen := lowDigit _ (by omega) low
    have dotCode : '.'.toNat = 46 := rfl
    omega
  have same : value = '.' := Char.toNat_inj.mp ((code (by rw [isDot]; decide)).symm.trans isDot)
  exact keeps (same ▸ dot)

theorem char_ne_nil (value : Char) : char reserved value ≠ [] :=
  escapesWithPercent_char.ne_nil value

theorem encode_eq_nil_iff {chars : List Char} : encode reserved chars = [] ↔ chars = [] :=
  escapesWithPercent_char.flatMap_eq_nil_iff

/-- A text from which something has been left out is encoded differently. -/
theorem eq_of_encode_eq {part whole : List Char} (sublist : part.Sublist whole)
    (equal : encode reserved part = encode reserved whole) : part = whole := by
  induction sublist with
  | slnil => rfl
  | @cons part whole value sublist induction =>
      have shorter := (sublist.flatMap (char reserved)).length_le
      have nonempty : 0 < (char reserved value).length :=
        List.length_pos_iff.mpr (char_ne_nil value)
      have lengths := congrArg List.length equal
      rw [encode_cons, List.length_append] at lengths
      simp only [encode] at lengths
      omega
  | @cons_cons part whole value sublist induction =>
      rw [encode_cons, encode_cons] at equal
      rw [induction (List.append_cancel_left equal)]

/-- An encoded text begins with an escape or with the character that it began with. -/
theorem mem_marks_or_eq_of_encode {value letter : Char} {chars rest : List Char}
    (equal : encode reserved (value :: chars) = letter :: rest) :
    letter ∈ marks ∨ letter = value := by
  rcases List.exists_cons_of_ne_nil (show char reserved value ≠ [] from char_ne_nil value) with
    ⟨first, others, spelled⟩
  rw [encode_cons, spelled] at equal
  have inChar : letter ∈ char reserved value := by
    rw [spelled, (List.cons.inj equal).1]
    exact List.mem_cons_self
  exact (mem_char inChar).imp_right And.left

/-! ## Decoding -/

theorem decode_cons_of_ne {value : Char} (ordinary : value ≠ '%') (rest : List Char) :
    decode (value :: rest) = String.utf8EncodeChar value ++ decode rest := by
  rw [decode.eq_def]
  split
  · next equal => exact absurd (List.cons.inj equal).1 ordinary
  · next equal =>
    rcases List.cons.inj equal with ⟨rfl, rfl⟩
    rfl
  · next equal => cases equal

theorem decode_eq_of_not_mem {chars : List Char} (plain : '%' ∉ chars) :
    decode chars = chars.flatMap String.utf8EncodeChar := by
  induction chars with
  | nil => rfl
  | cons value chars induction =>
      rw [List.mem_cons, not_or] at plain
      rw [decode_cons_of_ne (Ne.symm plain.1), induction plain.2, List.flatMap_cons]

theorem fromUTF8?_decode {chars : List Char} (plain : '%' ∉ chars) :
    String.fromUTF8? ⟨(decode chars).toArray⟩ = some (String.ofList chars) := by
  have bytes : ByteArray.mk (decode chars).toArray = chars.utf8Encode := by
    apply ByteArray.ext
    rw [decode_eq_of_not_mem plain, List.utf8Encode, List.data_toByteArray]
  rw [bytes, String.fromUTF8?, dif_pos ByteArray.isValidUTF8_utf8Encode]
  rfl

end MarkupExport.Text.Percent
