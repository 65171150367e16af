import MarkupExport.Proofs.Text.Code
import MarkupExport.Proofs.Text.Percent
import MarkupExport.Proofs.Text.Split
import MarkupExport.Proofs.Url.Address
import MarkupExport.Proofs.Url.Punycode
import MarkupExport.Url.Host

/-!
A host is read back from its text, and the text of a host holds nothing at which an authority or a
host would end: colons stand between square brackets only.
-/

namespace MarkupExport.Url.Host

/-! ## The text of a host -/

/-- A visible ASCII character that is not reserved. -/
def IsNameChar (char : Char) : Prop :=
  0x20 ≤ char.toNat ∧ char.toNat < 0x7f ∧ char ∉ reserved

instance (char : Char) : Decidable (IsNameChar char) :=
  inferInstanceAs (Decidable (_ ∧ _ ∧ _))

/-- A name, or something between square brackets. -/
inductive IsText : List Char → Prop
  | name {text : List Char} (chars : ∀ char ∈ text, IsNameChar char) : IsText text
  | bracketed {inner : List Char} (chars : ∀ char ∈ inner, IsNameChar char ∨ char = ':') :
      IsText ('[' :: inner ++ [']'])

theorem IsText.char {text : List Char} (isText : IsText text) {char : Char}
    (member : char ∈ text) : IsNameChar char ∨ char ∈ ['[', ':', ']'] := by
  cases isText with
  | name chars => exact .inl (chars char member)
  | bracketed chars =>
      rcases List.mem_append.mp member with inFront | last
      · rcases List.mem_cons.mp inFront with rfl | inside
        · exact .inr (by decide)
        · rcases chars char inside with name | rfl
          · exact .inl name
          · exact .inr (by decide)
      · rw [List.mem_singleton.mp last]
        exact .inr (by decide)

/-! ## Domain names -/

/-- A character of a label as it is written in the end. -/
def IsLabelChar (char : Char) : Prop :=
  (Punycode.isAscii char = true ∧ isDenied char = false) ∧ char.toLower = char ∧ char ≠ '.'

instance (char : Char) : Decidable (IsLabelChar char) :=
  inferInstanceAs (Decidable ((_ ∧ _) ∧ _ ∧ _))

theorem IsLabelChar.isNameChar {char : Char} (label : IsLabelChar char) : IsNameChar char := by
  rcases label with ⟨⟨ascii, allowed⟩, _⟩
  rw [Punycode.isAscii, decide_eq_true_eq] at ascii
  simp only [isDenied, Text.Percent.isControl, Bool.or_eq_false_iff, decide_eq_false_iff_not,
    beq_eq_false_iff_ne, List.contains_eq_mem] at allowed
  rcases allowed with ⟨⟨⟨⟨⟨⟨low, delete⟩, free⟩, _⟩, _⟩, _⟩, _⟩
  exact ⟨by omega, by omega, free⟩

theorem isLabelChar_spelled {word : List Char} (allowed : ∀ char ∈ word, isDenied char = false)
    (lower : ∀ char ∈ word, char.toLower = char) (dotless : '.' ∉ word) :
    ∀ char ∈ spelledMark ++ Punycode.encode word, IsLabelChar char := by
  have marks : ∀ char ∈ spelledMark ++ '-' :: Punycode.digits, IsLabelChar char :=
    Text.forall_mem_of_all (by decide)
  intro char member
  rcases List.mem_append.mp member with mark | member
  · exact marks char (List.mem_append_left _ mark)
  · rcases Punycode.mem_encode member with ⟨inWord, ascii⟩ | digit
    · exact ⟨⟨ascii, allowed char inWord⟩, lower char inWord,
        fun equal => dotless (equal ▸ inWord)⟩
    · exact marks char (List.mem_append_right _ digit)

theorem label?_spelled {word : List Char} (allowed : ∀ char ∈ word, isDenied char = false)
    (lower : ∀ char ∈ word, char.toLower = char) (dotless : '.' ∉ word)
    (foreign : word.any (fun char => !Punycode.isAscii char) = true) :
    label? (spelledMark ++ Punycode.encode word) =
      some (spelledMark ++ Punycode.encode word) := by
  have ascii : (spelledMark ++ Punycode.encode word).any (fun char => !Punycode.isAscii char) =
      false := by
    rw [List.any_eq_false]
    intro char member
    simp [(isLabelChar_spelled allowed lower dotless char member).1.1]
  have harmless : word.any isDenied = false :=
    List.any_eq_false.mpr fun char member => by simp [allowed char member]
  have take : (spelledMark ++ Punycode.encode word).take 4 = spelledMark := rfl
  have drop : (spelledMark ++ Punycode.encode word).drop 4 = Punycode.encode word := rfl
  rw [label?, ascii, if_neg Bool.false_ne_true, if_pos take, drop, Punycode.decode_encode,
    Option.bind_eq_bind, Option.bind_some, foreign, harmless, decide_eq_true rfl]
  rfl

/-- A label that has been read is written with the characters of labels, and is read as itself. -/
theorem label?_label {label result : List Char} (read : label? label = some result)
    (allowed : ∀ char ∈ label, isDenied char = false)
    (lower : ∀ char ∈ label, char.toLower = char) (dotless : '.' ∉ label) :
    (∀ char ∈ result, IsLabelChar char) ∧ label? result = some result := by
  by_cases foreign : label.any (fun char => !Punycode.isAscii char) = true
  · rw [label?, if_pos foreign] at read
    cases read
    exact ⟨isLabelChar_spelled allowed lower dotless, label?_spelled allowed lower dotless foreign⟩
  · have same : result = label := by
      rw [label?, if_neg foreign] at read
      split at read
      · rcases Option.bind_eq_some_iff.mp read with ⟨_, _, read⟩
        rcases Option.bind_eq_some_iff.mp read with ⟨_, _, ⟨⟩⟩
        rfl
      · cases read
        rfl
    rw [same] at read ⊢
    refine ⟨fun char member => ⟨⟨?_, allowed char member⟩, lower char member, ?_⟩, read⟩
    · rw [Bool.not_eq_true, List.any_eq_false] at foreign
      simpa using foreign char member
    · exact fun equal => dotless (equal ▸ member)

theorem map_eq_self_of_forall {Item : Type u} {change : Item → Item} {items : List Item}
    (same : ∀ item ∈ items, change item = item) : items.map change = items :=
  (List.map_congr_left same).trans (List.map_id items)

theorem mem_intercalate {labels : List (List Char)} {char : Char}
    (member : char ∈ ['.'].intercalate labels) : char = '.' ∨ ∃ label ∈ labels, char ∈ label := by
  induction labels with
  | nil => cases member
  | cons label labels induction =>
      cases labels with
      | nil =>
          rw [List.intercalate_singleton] at member
          exact .inr ⟨label, List.mem_cons_self, member⟩
      | cons next labels =>
          rw [List.intercalate_cons_cons, List.mem_append, List.mem_append,
            List.mem_singleton] at member
          rcases member with (inFirst | dot) | inOthers
          · exact .inr ⟨label, List.mem_cons_self, inFirst⟩
          · exact .inl dot
          · rcases induction inOthers with dot | ⟨other, inside, member⟩
            · exact .inl dot
            · exact .inr ⟨other, List.mem_cons_of_mem label inside, member⟩

/-- Labels that are read as themselves make up a name that is read as itself. -/
theorem domain?_intercalate {labels : List (List Char)} (nonempty : labels ≠ [])
    (chars : ∀ label ∈ labels, ∀ char ∈ label, IsLabelChar char)
    (read : ∀ label ∈ labels, label? label = some label) :
    (∀ char ∈ ['.'].intercalate labels, IsNameChar char) ∧
      domain? (['.'].intercalate labels) = some (['.'].intercalate labels) := by
  have parts (char : Char) (member : char ∈ ['.'].intercalate labels) :
      IsLabelChar char ∨ char = '.' := by
    rcases mem_intercalate member with equal | ⟨label, inside, member⟩
    · exact .inr equal
    · exact .inl (chars label inside char member)
  have names : ∀ char ∈ ['.'].intercalate labels, IsNameChar char := by
    intro char member
    rcases parts char member with label | rfl
    · exact label.isNameChar
    · decide
  have plain : '%' ∉ ['.'].intercalate labels := by
    intro member
    rcases parts '%' member with label | dot
    · exact absurd label (by decide)
    · cases dot
  have lower : (['.'].intercalate labels).map Char.toLower = ['.'].intercalate labels := by
    refine map_eq_self_of_forall fun char member => ?_
    rcases parts char member with label | rfl
    · exact label.2.1
    · rfl
  have allowed : (['.'].intercalate labels).any isDenied = false := by
    refine List.any_eq_false.mpr fun char member => ?_
    rcases parts char member with label | rfl
    · simp [label.1.2]
    · decide
  have split : (['.'].intercalate labels).splitOn '.' = labels :=
    List.splitOn_intercalate '.' (fun label inside dot => (chars label inside '.' dot).2.2 rfl)
      nonempty
  have all : labels.mapM label? = some labels := by
    have mapped : (labels.map id).mapM label? = some labels := mapM_map_eq_self read
    rwa [List.map_id] at mapped
  refine ⟨names, ?_⟩
  rw [domain?, Text.Percent.fromUTF8?_decode plain, Option.bind_eq_bind, Option.bind_some,
    String.toList_ofList]
  dsimp only
  rw [lower, allowed, split, all]
  rfl

theorem domain?_domain {written name : List Char} (read : domain? written = some name) :
    (∀ char ∈ name, IsNameChar char) ∧ domain? name = some name := by
  rcases Option.bind_eq_some_iff.mp read with ⟨decoded, _, read⟩
  dsimp only at read
  generalize lowered : decoded.toList.map Char.toLower = lower at read
  rcases Option.bind_eq_some_iff.mp read with ⟨_, guarded, read⟩
  rcases Option.bind_eq_some_iff.mp read with ⟨labels, readLabels, ⟨⟩⟩
  have allowed : ∀ char ∈ lower, isDenied char = false := by
    simpa using (Option.guard_eq_some' _).mp guarded
  have low : ∀ char ∈ lower, char.toLower = char := by
    rw [← lowered]
    intro char member
    rcases List.mem_map.mp member with ⟨original, _, rfl⟩
    exact Text.toLower_toLower original
  have each : ∀ label ∈ labels, (∀ char ∈ label, IsLabelChar char) ∧ label? label = some label := by
    intro result member
    rcases exists_of_mem_mapM readLabels result member with ⟨label, inside, known⟩
    refine label?_label known (fun char member => ?_) (fun char member => ?_) fun dot => ?_
    · exact allowed char (Text.mem_of_mem_splitOn inside member).1
    · exact low char (Text.mem_of_mem_splitOn inside member).1
    · exact (Text.mem_of_mem_splitOn inside dot).2 rfl
  have nonempty : labels ≠ [] := by
    rintro rfl
    rcases List.exists_cons_of_ne_nil (List.splitOn_ne_nil '.' lower) with ⟨first, others, parts⟩
    rw [parts, List.mapM_cons] at readLabels
    rcases Option.bind_eq_some_iff.mp readLabels with ⟨_, _, readLabels⟩
    rcases Option.bind_eq_some_iff.mp readLabels with ⟨_, _, ⟨⟩⟩
  exact domain?_intercalate nonempty (fun label inside => (each label inside).1)
    fun label inside => (each label inside).2

/-! ## Hosts -/

theorem bracketed?_name {text : List Char} (chars : ∀ char ∈ text, IsNameChar char) :
    bracketed? text = none := by
  rw [bracketed?.eq_def]
  split
  · exact absurd (chars '[' List.mem_cons_self) (by decide)
  · rfl

theorem bracketed?_bracketed (inner : List Char) :
    bracketed? ('[' :: inner ++ [']']) = some (some inner) := by
  simp [bracketed?]

theorem isLabelChar_of_isDigit {char : Char} (digit : char.isDigit = true) : IsLabelChar char := by
  have all : ∀ code < 58, 48 ≤ code → IsLabelChar (Char.ofNat code) := by decide
  rcases Text.isDigit_iff_toNat.mp digit with ⟨lower, upper⟩
  have checked := all char.toNat (by omega) lower
  rwa [Char.ofNat_toNat] at checked

theorem label?_digits {label : List Char} (digits : ∀ char ∈ label, char.isDigit = true) :
    label? label = some label := by
  have ascii : label.any (fun char => !Punycode.isAscii char) = false := by
    refine List.any_eq_false.mpr fun char member => ?_
    simp [(isLabelChar_of_isDigit (digits char member)).1.1]
  have unmarked : label.take 4 ≠ spelledMark := by
    intro marked
    have inside : 'x' ∈ label.take 4 := marked ▸ List.mem_cons_self
    exact absurd (digits 'x' (List.take_subset 4 label inside)) (by decide)
  rw [label?, ascii, if_neg Bool.false_ne_true, if_neg unmarked]

/-- The text of an address of four bytes is a domain name. -/
theorem domain?_ipv4 (address : Nat) :
    (∀ char ∈ Ipv4.text address, IsNameChar char) ∧
      domain? (Ipv4.text address) = some (Ipv4.text address) := by
  have digits : ∀ label ∈ (Ipv4.bytes address).map (Nat.toDigits 10), ∀ char ∈ label,
      char.isDigit = true := by
    intro label inside char member
    rcases List.mem_map.mp inside with ⟨byte, _, rfl⟩
    exact Nat.isDigit_of_mem_toDigits (by decide) (by decide) member
  rw [Ipv4.text_eq]
  exact domain?_intercalate (by simp [Ipv4.bytes])
    (fun label inside char member => isLabelChar_of_isDigit (digits label inside char member))
    fun label inside => label?_digits (digits label inside)

theorem isText_ipv6 (groups : List Nat) : IsText (text (.ipv6 groups)) := by
  have digits : ∀ digit < 16, IsNameChar digit.digitChar := by decide
  refine .bracketed fun char member => ?_
  rcases Ipv6.mem_text member with colon | ⟨digit, small, rfl⟩
  · exact .inr colon
  · exact .inl (digits digit small)

/-- What stands in brackets is read alike whether or not the scheme has domain names. -/
theorem isAddress_of_bracketed {inner : Option (List Char)} {host : UrlHost}
    (read : (match inner.bind Ipv6.address? with
      | some groups => .ok (.ipv6 groups)
      | none => .error .invalidHost : Except UrlError UrlHost) = .ok host) :
    ∃ groups, host = .ipv6 groups ∧ Ipv6.IsAddress groups := by
  cases found : inner.bind Ipv6.address? with
  | none => rw [found] at read; cases read
  | some groups =>
      rw [found] at read
      cases read
      rcases Option.bind_eq_some_iff.mp found with ⟨_, _, known⟩
      exact ⟨groups, rfl, Ipv6.isAddress_of_address? known⟩

theorem ofDomain_text {written : List Char} {host : UrlHost} (read : ofDomain written = .ok host) :
    IsText (text host) ∧ text host ≠ [] ∧ ofDomain (text host) = .ok host := by
  rw [ofDomain] at read
  split at read
  · rcases isAddress_of_bracketed read with ⟨groups, rfl, address⟩
    refine ⟨isText_ipv6 groups, List.cons_ne_nil _ _, ?_⟩
    rw [ofDomain, text, bracketed?_bracketed]
    dsimp only [Option.bind_some]
    rw [Ipv6.address?_text address]
  split at read
  · cases read
  next name domain =>
  rcases domain?_domain domain with ⟨chars, again⟩
  split at read
  · cases read
  next nonempty =>
  split at read
  · split at read
    · next address found =>
      cases read
      have small := Ipv4.address?_lt found
      rcases domain?_ipv4 address with ⟨chars, again⟩
      have nonempty : Ipv4.text address ≠ [] := by
        intro empty
        have number := Ipv4.endsInNumber_text address
        rw [empty] at number
        revert number
        decide
      refine ⟨.name chars, nonempty, ?_⟩
      rw [ofDomain, text, bracketed?_name chars]
      dsimp only
      rw [again]
      dsimp only
      rw [if_neg nonempty, Ipv4.endsInNumber_text, if_pos rfl, Ipv4.address?_text small]
    · cases read
  · next other =>
    cases read
    refine ⟨.name chars, nonempty, ?_⟩
    rw [ofDomain, text, bracketed?_name chars]
    dsimp only
    rw [again]
    dsimp only
    rw [if_neg nonempty, if_neg other]

theorem ofText_text {written : List Char} {host : UrlHost} (read : ofText written = .ok host) :
    IsText (text host) ∧ ofText (text host) = .ok host := by
  rw [ofText] at read
  split at read
  · rcases isAddress_of_bracketed read with ⟨groups, rfl, address⟩
    refine ⟨isText_ipv6 groups, ?_⟩
    rw [ofText, text, bracketed?_bracketed]
    dsimp only [Option.bind_some]
    rw [Ipv6.address?_text address]
  split at read
  · cases read
    exact ⟨.name nofun, rfl⟩
  next nonempty =>
  split at read
  · cases read
  next free =>
  cases read
  have unreserved : ∀ char ∈ written, char ∉ reserved := by
    rw [Bool.not_eq_true, List.any_eq_false] at free
    intro char member inReserved
    exact free char member (by simp [inReserved])
  have chars : ∀ char ∈ Text.Percent.encode (Text.Percent.controlsAnd []) written,
      IsNameChar char := by
    have marks : ∀ mark ∈ Text.Percent.marks, IsNameChar mark :=
      Text.forall_mem_of_all (by decide)
    intro char member
    rcases Text.Percent.mem_encode member with mark | ⟨inside, keeps⟩
    · exact marks char mark
    · rcases Text.Percent.keeps_controlsAnd_iff.mp keeps with ⟨low, high, _⟩
      exact ⟨low, high, unreserved char inside⟩
  have stillFree : (Text.Percent.encode (Text.Percent.controlsAnd []) written).any
      (fun char => char = '\x00' || reserved.contains char) = false := by
    refine List.any_eq_false.mpr fun char member => ?_
    rcases chars char member with ⟨low, _, unreserved⟩
    have visible : char ≠ '\x00' := by
      rintro rfl
      exact absurd low (by decide)
    simp [visible, unreserved]
  refine ⟨.name chars, ?_⟩
  rw [ofText, text, bracketed?_name chars]
  dsimp only
  rw [if_neg (mt Text.Percent.encode_eq_nil_iff.mp nonempty), stillFree,
    if_neg Bool.false_ne_true, Text.Percent.encode_encode (by decide)]

end MarkupExport.Url.Host
