import MarkupExport.Proofs.Link.Reference
import MarkupExport.Proofs.Url.Errors

/-!
Encoding a target settles. One pass writes a target as the URL that it parses as, encodes what does
not parse, or writes what a reference resolves to. Each of these can lead to another, as what is
encoded may parse and what is resolved may begin with a scheme, but no chain has more than five
links: a URL is read back from its text, encoding leaves nothing to encode, and a reference that
begins with neither two slashes nor a scheme is resolved to itself.
-/

namespace MarkupExport.Link

open Url

variable {raw text : List Char} {count limit : Nat}

/-! ## Repeated steps -/

/-- Repeating the step changes nothing any more after this many times. -/
inductive Settles {Item : Type} (step : Item → Item) : Nat → Item → Prop
  | fixed {count : Nat} {item : Item} (fixed : step item = item) : Settles step count item
  | step {count : Nat} {item : Item} (rest : Settles step count (step item)) :
      Settles step (count + 1) item

section Repeated

variable {Item : Type} {step : Item → Item} {item : Item}

theorem Settles.mono (settles : Settles step count item) (fewer : count ≤ limit) :
    Settles step limit item := by
  induction settles generalizing limit with
  | fixed fixed => exact .fixed fixed
  | step rest induction =>
      rcases Nat.exists_eq_add_of_le' fewer with ⟨more, rfl⟩
      exact .step (induction (Nat.le_add_left _ more))

theorem settle_of_fixed [DecidableEq Item] (fixed : step item = item) (limit : Nat) :
    settle step limit item = item := by
  cases limit with
  | zero => rfl
  | succ limit => rw [settle, if_pos fixed]

/-- What every step keeps holds at the end. -/
theorem settle_induct [DecidableEq Item] {motive : Item → Prop}
    (kept : ∀ item, motive item → motive (step item)) (limit : Nat) (start : motive item) :
    motive (settle step limit item) := by
  induction limit generalizing item with
  | zero => exact start
  | succ limit induction =>
      rw [settle]
      split
      · exact start
      · exact induction (kept item start)

/-- The loop ends where the step changes nothing, if it may take the steps that lead there. -/
theorem Settles.settle_fixed [DecidableEq Item] (settles : Settles step count item)
    (fewer : count ≤ limit) : step (settle step limit item) = settle step limit item := by
  induction settles generalizing limit with
  | fixed fixed => rw [settle_of_fixed fixed, fixed]
  | @step count item rest induction =>
      rcases Nat.exists_eq_add_of_le' fewer with ⟨more, rfl⟩
      rw [← Nat.add_assoc, settle]
      split
      · next fixed => exact fixed
      · exact induction (Nat.le_add_left _ more)

/-- More steps than these make no difference. -/
theorem Settles.settle_eq [DecidableEq Item] (settles : Settles step count item)
    (fewer : count ≤ limit) : settle step limit item = settle step count item := by
  induction settles generalizing limit with
  | fixed fixed => rw [settle_of_fixed fixed, settle_of_fixed fixed]
  | @step count item rest induction =>
      rcases Nat.exists_eq_add_of_le' fewer with ⟨more, rfl⟩
      rw [← Nat.add_assoc, settle, settle, induction (Nat.le_add_left _ more)]

end Repeated

/-! ## One pass -/

/-- Two slashes or a scheme come first, so that this is no reference. -/
def IsAbsolute (raw : List Char) : Prop :=
  ['/', '/'].isPrefixOf raw = true ∨ scheme? (trimmed raw) ≠ none

/-- What a pass makes of a target. -/
inductive Encodes (raw : List Char) : List Char → Prop
  | parsed {url : Url} (parsed : parse raw = .ok url) : Encodes raw url.text
  | unparsed (absolute : IsAbsolute raw) : Encodes raw (encodeUnparsed raw)
  | reference (relative : ¬ IsAbsolute raw) : Encodes raw (encodeReference raw)

theorem encodes_encodeOnce (raw : List Char) : Encodes raw (encodeOnce raw) := by
  rw [encodeOnce]
  split
  · next url parsed => exact .parsed parsed
  · next missing =>
    rw [parse_eq_missingScheme_iff] at missing
    split
    · next slashes => exact .unparsed (.inl slashes)
    · next single => exact .reference fun absolute => absolute.elim single fun some => some missing
  · next error other failed =>
    refine .unparsed (.inr fun none => ?_)
    rw [parse_eq_missingScheme_iff.mpr none] at failed
    cases failed
    exact other rfl

theorem settles_parsed {url : Url} (parsed : parse raw = .ok url) : Settles encodeOnce 2 raw := by
  have written {text : List Char} {url : Url} (parsed : parse text = .ok url) :
      encodeOnce text = url.text := by
    rw [encodeOnce, parsed]
  rcases parse_text_settles parsed with ⟨settled, once, again⟩
  refine .step (.step (.fixed ?_))
  rw [written parsed, written once, written again]

/-! ## What does not parse -/

theorem encodeUnparsed_encodeUnparsed (raw : List Char) :
    encodeUnparsed (encodeUnparsed raw) = encodeUnparsed raw :=
  Text.Percent.encode_encode (by decide) raw

theorem isVisible_encodeUnparsed (raw : List Char) :
    ∀ char ∈ encodeUnparsed raw, IsVisible char :=
  fun _ member => isVisible_of_keeps (by decide)
    (Text.Percent.keeps_of_mem_encode (show unparsedSet.KeepsMarks by decide) member)

theorem keeps_of_isSchemeChar {char : Char} (inScheme : isSchemeChar char = true) :
    Text.Percent.Keeps unparsedSet char := by
  have marks : ∀ mark ∈ [' ', '"', '\'', '<', '>', '`', '{', '}', '|', '\\', '^'],
      isSchemeChar mark = false := Text.forall_mem_of_all (by decide)
  rcases toNat_of_isSchemeChar inScheme with ⟨low, high⟩
  refine Text.Percent.keeps_controlsAnd_iff.mpr ⟨Nat.le_of_lt low, high, fun mark => ?_⟩
  rw [marks char mark] at inScheme
  cases inScheme

theorem encodeUnparsed_scheme {scheme : List Char} (isScheme : IsScheme scheme)
    (rest : List Char) :
    encodeUnparsed (scheme ++ ':' :: rest) = scheme ++ ':' :: encodeUnparsed rest := by
  have colon : Text.Percent.char unparsedSet ':' = [':'] := by decide
  rw [encodeUnparsed, Text.Percent.encode_append, Text.Percent.encode_cons, colon,
    Text.Percent.encode_eq_self fun char member => keeps_of_isSchemeChar (isScheme.mem char member)]
  rfl

/-- A target without blanks and controls keeps the slashes or the scheme that it begins with. -/
theorem isAbsolute_encodeUnparsed (visible : ∀ char ∈ text, IsVisible char)
    (absolute : IsAbsolute text) : IsAbsolute (encodeUnparsed text) := by
  rcases absolute with slashes | some
  · rcases List.isPrefixOf_iff_prefix.mp slashes with ⟨rest, rfl⟩
    exact .inl rfl
  · refine .inr ?_
    rw [trimmed_of_isVisible visible] at some
    rcases Option.ne_none_iff_exists'.mp some with ⟨⟨scheme, rest⟩, found⟩
    rcases scheme?_ok found with ⟨written, rfl, isScheme, rfl⟩
    have inScheme : withoutIgnored written = written := withoutIgnored_eq_self fun char member =>
      Nat.le_of_lt (visible char (List.mem_append_left _ member))
    rw [inScheme] at isScheme
    rw [trimmed_of_isVisible (isVisible_encodeUnparsed _), encodeUnparsed_scheme isScheme,
      scheme?_append isScheme]
    exact Option.some_ne_none _

/-! ## Chains of passes -/

theorem settles_absolute (again : encodeUnparsed text = text) (absolute : IsAbsolute text) :
    Settles encodeOnce 2 text := by
  have encodes := encodes_encodeOnce text
  generalize once : encodeOnce text = result at encodes
  cases encodes with
  | parsed parsed => exact settles_parsed parsed
  | unparsed => exact .fixed (once.trans again)
  | reference relative => exact absurd absolute relative

theorem settles_reference (isReference : IsReference text) : Settles encodeOnce 3 text := by
  have encodes := encodes_encodeOnce text
  generalize once : encodeOnce text = result at encodes
  cases encodes with
  | parsed parsed => exact (settles_parsed parsed).mono (by decide)
  | unparsed absolute =>
      refine .step ?_
      rw [once]
      exact settles_absolute (encodeUnparsed_encodeUnparsed text)
        (isAbsolute_encodeUnparsed isReference.isVisible absolute)
  | reference relative =>
      exact .fixed (once.trans (encodeReference_again isReference fun slashes =>
        relative (.inl slashes)))

theorem settles_unparsed (again : encodeUnparsed text = text) : Settles encodeOnce 4 text := by
  have encodes := encodes_encodeOnce text
  generalize once : encodeOnce text = result at encodes
  cases encodes with
  | parsed parsed => exact (settles_parsed parsed).mono (by decide)
  | unparsed => exact .fixed (once.trans again)
  | reference relative =>
      rcases encodeReference_cases text with unresolved | isReference
      · exact .fixed (once.trans (unresolved.trans again))
      · exact .step (once ▸ settles_reference isReference)

theorem settles_encodeOnce (raw : List Char) : Settles encodeOnce 5 raw := by
  have unparsed := settles_unparsed (encodeUnparsed_encodeUnparsed raw)
  have encodes := encodes_encodeOnce raw
  generalize once : encodeOnce raw = result at encodes
  cases encodes with
  | parsed parsed => exact (settles_parsed parsed).mono (by decide)
  | unparsed => exact .step (once ▸ unparsed)
  | reference relative =>
      rcases encodeReference_cases raw with unresolved | isReference
      · exact .step (once ▸ unresolved ▸ unparsed)
      · exact .step (once ▸ (settles_reference isReference).mono (by decide))

/-- Encoding an encoded target again changes nothing, and no pass changes it. The bound on the
passes is never what ends them: fewer lead to the same result. -/
theorem encode_settles (raw : String) :
    encode (encode raw) = encode raw ∧
      encodeOnce (encode raw).toList = (encode raw).toList ∧
        ∃ fewer < passes,
          settle encodeOnce fewer (encodeOnce raw.toList) = (encode raw).toList := by
  have settles := settles_encodeOnce (encodeOnce raw.toList)
  have enough : 5 < passes := by decide
  have chars : (encode raw).toList = encodeChars raw.toList := String.toList_ofList
  have fixed : encodeOnce (encode raw).toList = (encode raw).toList := by
    rw [chars]
    exact settles.settle_fixed (Nat.le_of_lt enough)
  refine ⟨?_, fixed, 5, enough, ?_⟩
  · rw [encode, encodeChars, fixed, settle_of_fixed fixed, String.ofList_toList]
  · rw [chars, encodeChars, settles.settle_eq (Nat.le_of_lt enough)]

/-- One pass is not enough: a host goes as soon as the drive letter moves to the path's front. -/
example : encodeOnce "file://host//C:/x".toList = "file://host/C:/x".toList ∧
    encode "file://host//C:/x" = "file:///C:/x" := by
  decide +kernel

end MarkupExport.Link
