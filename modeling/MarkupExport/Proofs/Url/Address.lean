import Mathlib.Data.Option.Basic
import MarkupExport.Url.Ipv4
import MarkupExport.Url.Ipv6

/-!
Addresses are read back from their texts. An address of four bytes that was read fits 32 bits, one
of eight groups has eight of 16 bits, and such addresses have texts that spell nothing else.
-/

namespace MarkupExport.Url

/-! ## Reading item by item -/

section Items

variable {Item : Type u} {Result : Type v} {read : Item → Option Result}

theorem exists_of_mem_mapM {items : List Item} {results : List Result}
    (all : items.mapM read = some results) :
    ∀ result ∈ results, ∃ item ∈ items, read item = some result := by
  induction items generalizing results with
  | nil =>
      cases all
      exact nofun
  | cons item items induction =>
      rw [List.mapM_cons] at all
      rcases Option.bind_eq_some_iff.mp all with ⟨first, readFirst, all⟩
      rcases Option.bind_eq_some_iff.mp all with ⟨others, readOthers, ⟨⟩⟩
      refine List.forall_mem_cons.mpr ⟨⟨item, List.mem_cons_self, readFirst⟩, ?_⟩
      intro result member
      rcases induction readOthers result member with ⟨source, inside, found⟩
      exact ⟨source, List.mem_cons_of_mem item inside, found⟩

theorem mapM_map_eq_self {write : Result → Item} {results : List Result}
    (back : ∀ result ∈ results, read (write result) = some result) :
    (results.map write).mapM read = some results := by
  induction results with
  | nil => rfl
  | cons result results induction =>
      rcases List.forall_mem_cons.mp back with ⟨first, others⟩
      rw [List.map_cons, List.mapM_cons, first, induction others]
      rfl

end Items

/-! ## Four bytes -/

namespace Ipv4

theorem part?_toDigits {value : Nat} (small : value < 256) :
    part? (Nat.toDigits 10 value) = some value := by
  have all : ∀ value < 256, part? (Nat.toDigits 10 value) = some value := by decide +kernel
  exact all value small

theorem value_lt {leading : List Nat} {last : Nat} (few : leading.length < 4)
    (small : leading.all (· < 256) = true) (rest : last < Nat.pow 256 (4 - leading.length)) :
    leading.foldl (256 * · + ·) 0 * Nat.pow 256 (4 - leading.length) + last < 0x100000000 := by
  rcases leading with _ | ⟨a, _ | ⟨b, _ | ⟨c, _ | ⟨d, leading⟩⟩⟩⟩
  case cons.cons.cons.cons =>
    simp only [List.length_cons] at few
    omega
  all_goals
    simp at small rest ⊢
    omega

theorem address?_lt {name : List Char} {address : Nat} (read : address? name = some address) :
    address < 0x100000000 := by
  rcases Option.bind_eq_some_iff.mp read with ⟨numbers, _, read⟩
  rcases Option.bind_eq_some_iff.mp read with ⟨last, _, read⟩
  rcases Option.bind_eq_some_iff.mp read with ⟨_, guarded, ⟨⟩⟩
  have fits := (Option.guard_eq_some' _).mp guarded
  exact value_lt fits.1 fits.2.1 fits.2.2

/-- The four bytes of an address. -/
def bytes (address : Nat) : List Nat :=
  [address / 0x1000000 % 256, address / 0x10000 % 256, address / 0x100 % 256, address % 256]

theorem text_eq (address : Nat) :
    text address = ['.'].intercalate ((bytes address).map (Nat.toDigits 10)) := by
  simp [text, bytes]

theorem parts_text (address : Nat) :
    parts (text address) = (bytes address).map (Nat.toDigits 10) := by
  have dotless : ∀ part ∈ (bytes address).map (Nat.toDigits 10), '.' ∉ part := by
    intro part member dot
    rcases List.mem_map.mp member with ⟨byte, _, rfl⟩
    have digit := Nat.isDigit_of_mem_toDigits (by decide) (by decide) dot
    cases digit
  have split := List.splitOn_intercalate '.' dotless (by simp [bytes])
  rw [parts, text_eq, split]
  exact if_neg (by simp [bytes])

theorem endsInNumber_text (address : Nat) : endsInNumber (text address) = true := by
  have digits : (Nat.toDigits 10 (address % 256)).all Char.isDigit = true :=
    List.all_eq_true.mpr fun _ member => Nat.isDigit_of_mem_toDigits (by decide) (by decide) member
  rw [endsInNumber, parts_text]
  simp [bytes, digits]

theorem address?_text {address : Nat} (small : address < 0x100000000) :
    address? (text address) = some address := by
  have read : (parts (text address)).mapM part? = some (bytes address) := by
    rw [parts_text]
    simp [bytes, part?_toDigits, Nat.mod_lt]
  rw [address?, read]
  simp [bytes, guard, Nat.mod_lt]
  omega

end Ipv4

namespace Ipv6

/-! ## Groups -/

theorem hexValue?_lt {char : Char} {value : Nat} (read : Text.hexValue? char = some value) :
    value < 16 := by
  rw [Text.hexValue?] at read
  simp only [Char.le_def, UInt32.le_iff_toNat_le] at read
  have code : char.val.toNat = char.toNat := rfl
  split at read
  · next range =>
    rcases range with ⟨_, upper : char.val.toNat ≤ 57⟩
    cases read
    omega
  split at read
  · next range =>
    rcases range with ⟨_, upper : char.val.toNat ≤ 102⟩
    cases read
    omega
  split at read
  · next range =>
    rcases range with ⟨_, upper : char.val.toNat ≤ 70⟩
    cases read
    omega
  · cases read

/-- Reads hexadecimal digits that follow those of a number. -/
def hexNumber? (number : Nat) (digits : List Char) : Option Nat :=
  digits.foldlM (fun value digit => (Text.hexValue? digit).map (16 * value + ·)) number

theorem hexNumber?_lt {digits : List Char} {number value : Nat}
    (read : hexNumber? number digits = some value) :
    value < Nat.pow 16 digits.length * (number + 1) := by
  induction digits generalizing number with
  | nil =>
      cases read
      simp
  | cons digit digits induction =>
      rcases Option.bind_eq_some_iff.mp read with ⟨next, readDigit, read⟩
      rcases Option.map_eq_some_iff.mp readDigit with ⟨digit, known, rfl⟩
      have small := hexValue?_lt known
      calc value
          < Nat.pow 16 digits.length * (16 * number + digit + 1) := induction read
        _ ≤ Nat.pow 16 digits.length * (16 * (number + 1)) := Nat.mul_le_mul_left _ (by omega)
        _ = Nat.pow 16 (digits.length + 1) * (number + 1) := (Nat.mul_assoc _ 16 _).symm

theorem hexNumber?_toDigits (value : Nat) : hexNumber? 0 (Nat.toDigits 16 value) = some value := by
  have digits : ∀ digit < 16, Text.hexValue? digit.digitChar = some digit := by decide
  induction value using Nat.strongRecOn with
  | ind value induction =>
      by_cases small : value < 16
      · rw [Nat.toDigits_of_lt_base small, hexNumber?]
        simp [digits value small]
      · have read := induction (value / 16) (by omega)
        rw [hexNumber?] at read
        rw [Nat.toDigits_of_base_le (by decide) (Nat.le_of_not_lt small), hexNumber?,
          List.foldlM_append, read]
        simp [digits (value % 16) (Nat.mod_lt _ (by decide)), Nat.div_add_mod]

theorem group?_eq_some_iff {digits : List Char} {value : Nat} :
    group? digits = some value ↔
      (1 ≤ digits.length ∧ digits.length ≤ 4) ∧ hexNumber? 0 digits = some value := by
  rw [group?, Option.bind_eq_bind, Option.bind_eq_some_iff]
  simp only [Option.guard_eq_some', exists_const]
  exact Iff.rfl

theorem group?_lt {digits : List Char} {value : Nat} (read : group? digits = some value) :
    value < 0x10000 := by
  rcases group?_eq_some_iff.mp read with ⟨⟨_, short⟩, read⟩
  have bound := hexNumber?_lt read
  have largest : Nat.pow 16 digits.length ≤ 0x10000 :=
    Nat.pow_le_pow_right (show 0 < 16 by decide) short
  omega

theorem group?_toDigits {value : Nat} (small : value < 0x10000) :
    group? (Nat.toDigits 16 value) = some value := by
  have short : (Nat.toDigits 16 value).length ≤ 4 :=
    (Nat.length_toDigits_le_iff (by decide) (by decide)).mpr small
  exact group?_eq_some_iff.mpr ⟨⟨Nat.length_toDigits_pos, short⟩, hexNumber?_toDigits value⟩

/-! ## What is read -/

/-- Eight groups of 16 bits. -/
def IsAddress (groups : List Nat) : Prop :=
  groups.length = 8 ∧ ∀ group ∈ groups, group < 0x10000

theorem mapM_group?_lt {written : List (List Char)} {groups : List Nat}
    (read : written.mapM group? = some groups) : ∀ group ∈ groups, group < 0x10000 := by
  intro group member
  rcases exists_of_mem_mapM read group member with ⟨digits, _, known⟩
  exact group?_lt known

theorem byte?_lt {digits : List Char} {value : Nat} (read : byte? digits = some value) :
    value < 256 := by
  rcases Option.bind_eq_some_iff.mp read with ⟨_, _, read⟩
  rcases Option.bind_eq_some_iff.mp read with ⟨_, guarded, ⟨⟩⟩
  exact (Option.guard_eq_some' _).mp guarded

theorem bytes?_lt {chars : List Char} {groups : List Nat} (read : bytes? chars = some groups) :
    ∀ group ∈ groups, group < 0x10000 := by
  rw [bytes?] at read
  split at read
  · next a b c d bytes =>
    cases read
    have small : ∀ byte ∈ [a, b, c, d], byte < 256 := by
      intro byte member
      rcases exists_of_mem_mapM bytes byte member with ⟨digits, _, known⟩
      exact byte?_lt known
    simp at small ⊢
    omega
  · cases read

theorem final?_lt {chars : List Char} {groups : List Nat} (read : final? chars = some groups) :
    ∀ group ∈ groups, group < 0x10000 := by
  rw [final?] at read
  split at read
  · exact bytes?_lt read
  · rcases Option.map_eq_some_iff.mp read with ⟨group, known, rfl⟩
    exact List.forall_mem_singleton.mpr (group?_lt known)

theorem groups?_lt {chars : List Char} {groups : List Nat} (read : groups? chars = some groups) :
    ∀ group ∈ groups, group < 0x10000 := by
  rcases Option.bind_eq_some_iff.mp read with ⟨leading, readLeading, read⟩
  rcases Option.bind_eq_some_iff.mp read with ⟨last, _, read⟩
  rcases Option.bind_eq_some_iff.mp read with ⟨final, readFinal, ⟨⟩⟩
  rw [List.forall_mem_append]
  exact ⟨mapM_group?_lt readLeading, final?_lt readFinal⟩

/-- The groups before or after a gap, of which there may be none. -/
def beside? (read : List Char → Option (List Nat)) (chars : List Char) : Option (List Nat) :=
  if chars = [] then some [] else read chars

theorem beside?_lt {read : List Char → Option (List Nat)} {chars : List Char} {groups : List Nat}
    (bounded : read chars = some groups → ∀ group ∈ groups, group < 0x10000)
    (found : beside? read chars = some groups) : ∀ group ∈ groups, group < 0x10000 := by
  rw [beside?] at found
  split at found
  · cases found
    exact nofun
  · exact bounded found

theorem address?_of_splitGap {chars before after : List Char}
    (gap : splitGap chars = some (before, after)) :
    address? chars =
      (beside? (fun chars => (chars.splitOn ':').mapM group?) before).bind fun left =>
      (beside? groups? after).bind fun right =>
        if left.length + right.length < 8 then
          some (left ++ List.replicate (8 - left.length - right.length) 0 ++ right)
        else none := by
  have guarded (left right : List Nat) : (do
      guard (left.length + right.length < 8)
      return left ++ List.replicate (8 - left.length - right.length) 0 ++ right) =
        if left.length + right.length < 8 then
          some (left ++ List.replicate (8 - left.length - right.length) 0 ++ right)
        else none := by
    rw [guard]
    split <;> rfl
  simp only [← guarded]
  rw [address?, gap, beside?, beside?]
  by_cases noLeft : before = [] <;> by_cases noRight : after = [] <;>
    simp only [noLeft, noRight, if_true, if_false] <;> rfl

theorem isAddress_of_address? {chars : List Char} {groups : List Nat}
    (read : address? chars = some groups) : IsAddress groups := by
  cases gap : splitGap chars with
  | none =>
      rw [address?, gap] at read
      rcases Option.bind_eq_some_iff.mp read with ⟨found, readGroups, read⟩
      rcases Option.bind_eq_some_iff.mp read with ⟨_, guarded, ⟨⟩⟩
      exact ⟨(Option.guard_eq_some' _).mp guarded, groups?_lt readGroups⟩
  | some parts =>
      rw [address?_of_splitGap gap] at read
      rcases Option.bind_eq_some_iff.mp read with ⟨left, readLeft, read⟩
      rcases Option.bind_eq_some_iff.mp read with ⟨right, readRight, read⟩
      split at read
      · cases read
        refine ⟨?_, ?_⟩
        · rw [List.length_append, List.length_append, List.length_replicate]
          omega
        · rw [List.forall_mem_append, List.forall_mem_append]
          refine ⟨⟨beside?_lt mapM_group?_lt readLeft, ?_⟩, beside?_lt groups?_lt readRight⟩
          intro group member
          rw [List.eq_of_mem_replicate member]
          decide
      · cases read

/-! ## What is written -/

theorem exists_digit_of_mem_toDigits {value : Nat} {char : Char}
    (member : char ∈ Nat.toDigits 16 value) : ∃ digit < 16, char = digit.digitChar := by
  induction value using Nat.strongRecOn with
  | ind value induction =>
      by_cases small : value < 16
      · rw [Nat.toDigits_of_lt_base small, List.mem_singleton] at member
        exact ⟨value, small, member⟩
      · rw [Nat.toDigits_of_base_le (by decide) (Nat.le_of_not_lt small)] at member
        rcases List.mem_append.mp member with member | member
        · exact induction (value / 16) (by omega) member
        · exact ⟨_, Nat.mod_lt _ (by decide), List.mem_singleton.mp member⟩

theorem isNotMark_of_mem_toDigits (value : Nat) :
    ∀ char ∈ Nat.toDigits 16 value, char ≠ ':' ∧ char ≠ '.' := by
  have digits : ∀ digit < 16, digit.digitChar ≠ ':' ∧ digit.digitChar ≠ '.' := by decide
  intro char member
  rcases exists_digit_of_mem_toDigits member with ⟨digit, small, rfl⟩
  exact digits digit small

theorem groupsText_cons_cons (first next : Nat) (groups : List Nat) :
    groupsText (first :: next :: groups) =
      Nat.toDigits 16 first ++ ':' :: groupsText (next :: groups) := by
  simp [groupsText]

theorem groupsText_singleton (group : Nat) : groupsText [group] = Nat.toDigits 16 group := by
  simp [groupsText]

theorem groupsText_eq_cons (first : Nat) (groups : List Nat) :
    ∃ char rest, groupsText (first :: groups) = char :: rest ∧ char ≠ ':' := by
  rcases List.exists_cons_of_ne_nil (Nat.toDigits_ne_nil (n := first) (b := 16)) with
    ⟨char, digits, written⟩
  have notColon := (isNotMark_of_mem_toDigits first char (written ▸ List.mem_cons_self)).1
  cases groups with
  | nil => exact ⟨char, digits, by rw [groupsText_singleton, written], notColon⟩
  | cons next groups =>
      exact ⟨char, _, by rw [groupsText_cons_cons, written, List.cons_append], notColon⟩

theorem groupsText_eq_nil_iff {groups : List Nat} : groupsText groups = [] ↔ groups = [] := by
  cases groups with
  | nil => exact ⟨fun _ => rfl, fun _ => rfl⟩
  | cons first groups =>
      rcases groupsText_eq_cons first groups with ⟨char, rest, written, _⟩
      rw [written]
      exact ⟨nofun, nofun⟩

theorem mem_groupsText {groups : List Nat} {char : Char} (member : char ∈ groupsText groups) :
    char = ':' ∨ ∃ digit < 16, char = digit.digitChar := by
  induction groups with
  | nil => cases member
  | cons first groups induction =>
      cases groups with
      | nil =>
          rw [groupsText_singleton] at member
          exact .inr (exists_digit_of_mem_toDigits member)
      | cons second groups =>
          rw [groupsText_cons_cons] at member
          rcases List.mem_append.mp member with inFirst | member
          · exact .inr (exists_digit_of_mem_toDigits inFirst)
          · rcases List.mem_cons.mp member with colon | inOthers
            · exact .inl colon
            · exact induction inOthers

theorem mem_text {groups : List Nat} {char : Char} (member : char ∈ text groups) :
    char = ':' ∨ ∃ digit < 16, char = digit.digitChar := by
  simp only [text] at member
  split at member
  · exact mem_groupsText member
  · rw [List.mem_append, List.mem_append] at member
    rcases member with (left | gap) | right
    · exact mem_groupsText left
    · exact .inl (by simpa using gap)
    · exact mem_groupsText right

theorem splitGap_cons {char : Char} (notColon : char ≠ ':') (rest : List Char) :
    splitGap (char :: rest) =
      (splitGap rest).map fun (before, after) => (char :: before, after) := by
  rw [splitGap.eq_def]
  split
  · next equal => exact absurd (List.cons.inj equal).1 notColon
  · next equal =>
    rcases List.cons.inj equal with ⟨rfl, rfl⟩
    rfl
  · next equal => cases equal

theorem splitGap_append {front : List Char} (plain : ∀ char ∈ front, char ≠ ':')
    (rest : List Char) :
    splitGap (front ++ rest) =
      (splitGap rest).map fun (before, after) => (front ++ before, after) := by
  induction front with
  | nil => simp
  | cons char front induction =>
      rcases List.forall_mem_cons.mp plain with ⟨notColon, others⟩
      rw [List.cons_append, splitGap_cons notColon, induction others, Option.map_map]
      rfl

theorem splitGap_colon {char : Char} (notColon : char ≠ ':') (rest : List Char) :
    splitGap (':' :: char :: rest) =
      (splitGap (char :: rest)).map fun (before, after) => (':' :: before, after) := by
  rw [splitGap.eq_def]
  split
  · next equal => exact absurd (List.cons.inj (List.cons.inj equal).2).1 notColon
  · next equal =>
    rcases List.cons.inj equal with ⟨rfl, rfl⟩
    rfl
  · next equal => cases equal

/-- Between the groups of an address stand single colons. -/
theorem splitGap_groupsText (groups : List Nat) (rest : List Char) :
    splitGap (groupsText groups ++ rest) =
      (splitGap rest).map fun (before, after) => (groupsText groups ++ before, after) := by
  induction groups with
  | nil =>
      have none : groupsText [] = [] := rfl
      rw [none, List.nil_append]
      simp
  | cons first groups induction =>
      have plain : ∀ char ∈ Nat.toDigits 16 first, char ≠ ':' :=
        fun char member => (isNotMark_of_mem_toDigits first char member).1
      cases groups with
      | nil => rw [groupsText_singleton, splitGap_append plain]
      | cons second groups =>
          rcases groupsText_eq_cons second groups with ⟨char, digits, written, notColon⟩
          rw [groupsText_cons_cons, List.append_assoc, splitGap_append plain, List.cons_append,
            written, List.cons_append, splitGap_colon notColon, ← List.cons_append, ← written,
            induction]
          cases splitGap rest <;> simp

theorem splitOn_groupsText {groups : List Nat} (nonempty : groups ≠ []) :
    (groupsText groups).splitOn ':' = groups.map (Nat.toDigits 16) := by
  refine List.splitOn_intercalate ':' ?_ (by simpa using nonempty)
  intro digits member colon
  rcases List.mem_map.mp member with ⟨group, _, rfl⟩
  exact (isNotMark_of_mem_toDigits group ':' colon).1 rfl

theorem mapM_group?_toDigits {groups : List Nat} (small : ∀ group ∈ groups, group < 0x10000) :
    (groups.map (Nat.toDigits 16)).mapM group? = some groups :=
  mapM_map_eq_self fun group member => group?_toDigits (small group member)

theorem groups?_groupsText {groups : List Nat} (nonempty : groups ≠ [])
    (small : ∀ group ∈ groups, group < 0x10000) : groups? (groupsText groups) = some groups := by
  have leading := mapM_group?_toDigits fun group member =>
    small group (List.dropLast_subset groups member)
  have dotless : (Nat.toDigits 16 (groups.getLast nonempty)).contains '.' = false := by
    rw [List.contains_eq_mem, decide_eq_false_iff_not]
    exact fun dot => (isNotMark_of_mem_toDigits _ '.' dot).2 rfl
  have final : final? (Nat.toDigits 16 (groups.getLast nonempty)) =
      some [groups.getLast nonempty] := by
    rw [final?, dotless, if_neg Bool.false_ne_true,
      group?_toDigits (small _ (List.getLast_mem nonempty)), Option.map_some]
  have last : (groups.map (Nat.toDigits 16)).getLast? =
      some (Nat.toDigits 16 (groups.getLast nonempty)) := by
    rw [List.getLast?_map, List.getLast?_eq_some_getLast nonempty, Option.map_some]
  have parts := List.dropLast_concat_getLast nonempty
  rw [groups?, splitOn_groupsText nonempty, ← List.map_dropLast, leading, last]
  dsimp only [Option.bind_eq_bind, Option.bind_some]
  rw [final, Option.bind_some, parts]
  rfl

theorem beside?_groupsText {read : List Char → Option (List Nat)} {groups : List Nat}
    (back : groups ≠ [] → read (groupsText groups) = some groups) :
    beside? read (groupsText groups) = some groups := by
  by_cases empty : groups = []
  · rw [beside?, if_pos (groupsText_eq_nil_iff.mpr empty), empty]
  · rw [beside?, if_neg (mt groupsText_eq_nil_iff.mp empty), back empty]

/-! The run of zeros that is left out is one. -/

theorem longestRun_le (groups : List Nat) :
    (longestRun groups).2 ≤ leadingZeros (groups.drop (longestRun groups).1) := by
  suffices step : ∀ (starts : List Nat) (best : Nat × Nat),
      best.2 ≤ leadingZeros (groups.drop best.1) →
        (starts.foldl
          (fun best start =>
            let length := leadingZeros (groups.drop start)
            if best.2 < length then (start, length) else best)
          best).2 ≤ leadingZeros (groups.drop (starts.foldl
            (fun best start =>
              let length := leadingZeros (groups.drop start)
              if best.2 < length then (start, length) else best)
            best).1) from
    step _ _ (Nat.zero_le _)
  intro starts
  induction starts with
  | nil => exact fun _ run => run
  | cons start starts induction =>
      intro best run
      refine induction _ ?_
      dsimp only
      split
      · exact Nat.le_refl _
      · exact run

theorem take_eq_replicate {groups : List Nat} {length : Nat}
    (zeros : length ≤ leadingZeros groups) : groups.take length = List.replicate length 0 := by
  rw [leadingZeros] at zeros
  have front : groups.take length = (groups.takeWhile (· = 0)).take length := by
    conv => lhs; rw [← List.takeWhile_append_dropWhile (p := (· = 0)) (l := groups)]
    rw [List.take_append_of_le_length zeros]
  rw [front, List.eq_replicate_iff]
  refine ⟨List.length_take_of_le zeros, fun group member => ?_⟩
  have all := List.all_eq_true.mp (List.all_takeWhile (p := (· = 0)) (l := groups))
  exact of_decide_eq_true (all group (List.take_subset length _ member))

theorem address?_groupsText {groups : List Nat} (address : IsAddress groups) :
    address? (groupsText groups) = some groups := by
  have nonempty : groups ≠ [] := by
    rintro rfl
    cases address.1
  have gapless : splitGap (groupsText groups) = none := by
    have split := splitGap_groupsText groups []
    rwa [List.append_nil] at split
  rw [address?, gapless]
  dsimp only
  rw [groups?_groupsText nonempty address.2, Option.bind_eq_bind, Option.bind_some, address.1]
  rfl

theorem address?_gap {left right : List Nat} {length : Nat} (positive : 0 < length)
    (address : IsAddress (left ++ List.replicate length 0 ++ right)) :
    address? (groupsText left ++ [':', ':'] ++ groupsText right) =
      some (left ++ List.replicate length 0 ++ right) := by
  rcases address with ⟨eight, small⟩
  rw [List.length_append, List.length_append, List.length_replicate] at eight
  rw [List.forall_mem_append, List.forall_mem_append] at small
  have gap : splitGap (groupsText left ++ [':', ':'] ++ groupsText right) =
      some (groupsText left, groupsText right) := by
    have start : splitGap ([':', ':'] ++ groupsText right) = some ([], groupsText right) := rfl
    rw [List.append_assoc, splitGap_groupsText, start, Option.map_some]
    dsimp only
    rw [List.append_nil]
  have before : beside? (fun chars => (chars.splitOn ':').mapM group?) (groupsText left) =
      some left := by
    refine beside?_groupsText fun nonempty => ?_
    rw [splitOn_groupsText nonempty, mapM_group?_toDigits small.1.1]
  have after : beside? groups? (groupsText right) = some right :=
    beside?_groupsText fun nonempty => groups?_groupsText nonempty small.2
  have missing : 8 - left.length - right.length = length := by omega
  rw [address?_of_splitGap gap, before, Option.bind_some, after, Option.bind_some,
    if_pos (by omega), missing]

theorem address?_text {groups : List Nat} (address : IsAddress groups) :
    address? (text groups) = some groups := by
  have run := longestRun_le groups
  rw [text]
  generalize longestRun groups = best at run
  rcases best with ⟨start, length⟩
  dsimp only at run ⊢
  split
  · exact address?_groupsText address
  · have parts : groups.take start ++ List.replicate length 0 ++ groups.drop (start + length) =
        groups := by
      rw [← take_eq_replicate run, List.append_assoc, ← List.drop_drop, List.take_append_drop,
        List.take_append_drop]
    have positive : 0 < length := by omega
    conv => rhs; rw [← parts]
    exact address?_gap positive (parts.symm ▸ address)

end Ipv6

end MarkupExport.Url
