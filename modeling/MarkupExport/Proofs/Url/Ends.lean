import Mathlib.Data.List.TakeDrop
import MarkupExport.Proofs.Text.Code
import MarkupExport.Proofs.Url.Path
import MarkupExport.Url.Parser
import MarkupExport.Url.Printer

/-!
The two ends of a URL, its scheme and its query and fragment, are read back from their texts.
Nothing of a text that begins and ends with something visible is cut off.
-/

namespace MarkupExport.Url

theorem span_append {test : Char → Bool} {front rest : List Char}
    (inside : ∀ char ∈ front, test char = true) (ends : ∀ char ∈ rest.head?, test char = false) :
    (front ++ rest).span test = (front, rest) := by
  rw [List.span_eq_takeWhile_dropWhile, List.takeWhile_append_of_pos inside,
    List.dropWhile_append_of_pos inside]
  cases rest with
  | nil => simp
  | cons char rest => simp [ends char rfl]

theorem span_all {test : Char → Bool} {chars : List Char}
    (inside : ∀ char ∈ chars, test char = true) : chars.span test = (chars, []) := by
  have whole := span_append inside (show ∀ char ∈ ([] : List Char).head?, test char = false by simp)
  rwa [List.append_nil] at whole

/-! ## Skipping and trimming -/

section Visible

variable {char : Char} {chars : List Char}

/-- A character that is neither skipped nor cut off. -/
def IsVisible (char : Char) : Prop :=
  0x20 < char.toNat

instance (char : Char) : Decidable (IsVisible char) :=
  inferInstanceAs (Decidable (_ < _))

theorem isTrimmed_eq_false_iff : isTrimmed char = false ↔ IsVisible char := by
  rw [isTrimmed, decide_eq_false_iff_not, Nat.not_le, IsVisible]

theorem IsVisible.isIgnored (visible : IsVisible char) : isIgnored char = false :=
  Path.isIgnored_of_le (Nat.le_of_lt visible)

theorem isVisible_of_keeps {members : List Char} (space : ' ' ∈ members)
    (keeps : Text.Percent.Keeps (Text.Percent.controlsAnd members) char) : IsVisible char := by
  rcases Text.Percent.keeps_controlsAnd_iff.mp keeps with ⟨low, _, absent⟩
  refine Nat.lt_of_le_of_ne low fun code => absent ?_
  have isSpace : ' ' = char := Char.toNat_inj.mp code
  exact isSpace ▸ space

theorem withoutIgnored_eq_self (printed : ∀ char ∈ chars, 0x20 ≤ char.toNat) :
    withoutIgnored chars = chars := by
  refine List.filter_eq_self.mpr fun char member => ?_
  rw [Path.isIgnored_of_le (printed char member)]
  rfl

theorem trimmed_eq_self (first : ∀ char ∈ chars.head?, IsVisible char)
    (last : ∀ char ∈ chars.getLast?, IsVisible char) : trimmed chars = chars := by
  have keeps (chars : List Char) (first : ∀ char ∈ chars.head?, IsVisible char) :
      chars.dropWhile isTrimmed = chars := by
    cases chars with
    | nil => rfl
    | cons char chars =>
        rw [List.dropWhile_cons, isTrimmed_eq_false_iff.mpr (first char rfl)]
        rfl
  rw [trimmed, keeps chars first, Text.dropRightWhile, keeps, List.reverse_reverse]
  rwa [List.head?_reverse]

/-- What is left ends with something visible. -/
theorem isVisible_of_getLast?_trimmed (last : char ∈ (trimmed chars).getLast?) :
    IsVisible char := by
  rw [trimmed, Text.dropRightWhile, List.getLast?_reverse] at last
  have stops := List.head?_dropWhile_not isTrimmed (chars.dropWhile isTrimmed).reverse
  rw [Option.mem_def.mp last] at stops
  exact isTrimmed_eq_false_iff.mp stops

theorem getLast?_append_of_ne_nil {front back : List Char} (nonempty : back ≠ []) :
    (front ++ back).getLast? = back.getLast? := by
  rw [List.getLast?_append, List.getLast?_eq_some_getLast nonempty, Option.some_or]

/-- Something visible at the end is neither skipped nor encoded as something invisible. -/
theorem isVisible_getLast?_withoutIgnored (last : ∀ char ∈ chars.getLast?, IsVisible char) :
    ∀ char ∈ (withoutIgnored chars).getLast?, IsVisible char := by
  rcases List.eq_nil_or_concat chars with rfl | ⟨front, final, rfl⟩
  · exact nofun
  · rw [List.concat_eq_append] at last ⊢
    have visible := last final List.getLast?_concat
    rw [withoutIgnored, List.filter_append,
      List.filter_cons_of_pos (by simp [visible.isIgnored]), List.filter_nil,
      List.getLast?_concat]
    rintro _ ⟨⟩
    exact visible

theorem isVisible_getLast?_encode {reserved : Text.Percent.Set}
    (last : ∀ char ∈ chars.getLast?, IsVisible char) :
    ∀ char ∈ (Text.Percent.encode reserved chars).getLast?, IsVisible char := by
  have marks : ∀ mark ∈ Text.Percent.marks, IsVisible mark := Text.forall_mem_of_all (by decide)
  rcases List.eq_nil_or_concat chars with rfl | ⟨front, final, rfl⟩
  · exact nofun
  · intro char member
    have single : Text.Percent.encode reserved [final] = Text.Percent.char reserved final :=
      List.flatMap_singleton ..
    rw [List.concat_eq_append, Text.Percent.encode_append, single,
      getLast?_append_of_ne_nil (Text.Percent.char_ne_nil final)] at member
    rcases Text.Percent.mem_char (List.mem_of_getLast? member) with mark | ⟨rfl, _⟩
    · exact marks char mark
    · exact last char (by simp)

end Visible

/-! ## Schemes -/

section Scheme

variable {chars rest scheme tail : List Char}

/-- A letter with letters, digits and a few marks after it. -/
def IsScheme (scheme : List Char) : Prop :=
  ∃ first tail, scheme = first :: tail ∧ first.isAlpha = true ∧
    ∀ char ∈ tail, isSchemeChar char = true

theorem toNat_of_isSchemeChar {char : Char} (inScheme : isSchemeChar char = true) :
    0x20 < char.toNat ∧ char.toNat < 0x7f := by
  simp only [isSchemeChar, Text.isAlphanum_iff, Bool.or_eq_true, decide_eq_true_eq,
    Text.isAlpha_iff_toNat, Text.isDigit_iff_toNat] at inScheme
  rcases inScheme with (((letter | digit) | rfl) | rfl) | rfl
  · omega
  · omega
  all_goals decide

theorem isVisible_of_isSchemeChar {char : Char} (inScheme : isSchemeChar char = true) :
    IsVisible char :=
  (toNat_of_isSchemeChar inScheme).1

theorem ne_colon_of_isSchemeChar {char : Char} (inScheme : isSchemeChar char = true) :
    char ≠ ':' := by
  rintro rfl
  exact absurd inScheme (by decide)

theorem isSchemeChar_of_isAlpha {char : Char} (letter : char.isAlpha = true) :
    isSchemeChar char = true := by
  simp [isSchemeChar, Text.isAlphanum_iff.mpr (.inl letter)]

theorem isAlpha_toLower {char : Char} (letter : char.isAlpha = true) :
    char.toLower.isAlpha = true := by
  cases upper : char.isUpper with
  | false => rwa [Text.toLower_eq_self upper]
  | true =>
      rw [Text.isAlpha_iff_toNat, Text.toNat_toLower upper]
      have range := Text.isUpper_iff_toNat.mp upper
      omega

theorem isSchemeChar_toLower {char : Char} (inScheme : isSchemeChar char = true) :
    isSchemeChar char.toLower = true := by
  cases upper : char.isUpper with
  | false => rwa [Text.toLower_eq_self upper]
  | true =>
      have letter : char.isAlpha = true := Bool.or_eq_true_iff.mpr (.inl upper)
      exact isSchemeChar_of_isAlpha (isAlpha_toLower letter)

theorem IsScheme.mem {written : List Char} (isScheme : IsScheme written) :
    ∀ char ∈ written, isSchemeChar char = true := by
  rcases isScheme with ⟨first, tail, rfl, letter, others⟩
  exact List.forall_mem_cons.mpr ⟨isSchemeChar_of_isAlpha letter, others⟩

/-- A scheme that has been read is in lower case and stays a scheme. -/
theorem IsScheme.toLower {written : List Char} (isScheme : IsScheme written) :
    IsScheme (written.map Char.toLower) ∧
      (written.map Char.toLower).map Char.toLower = written.map Char.toLower := by
  rcases isScheme with ⟨first, tail, rfl, letter, others⟩
  refine ⟨⟨first.toLower, tail.map Char.toLower, List.map_cons, isAlpha_toLower letter, ?_⟩, ?_⟩
  · rw [List.forall_mem_map]
    exact fun char member => isSchemeChar_toLower (others char member)
  · rw [List.map_map]
    exact List.map_congr_left fun char _ => Text.toLower_toLower char

theorem schemeTail?_ok (read : schemeTail? chars = some (tail, rest)) :
    ∃ written, chars = written ++ ':' :: rest ∧
      (∀ char ∈ withoutIgnored written, isSchemeChar char = true) ∧
        tail = (withoutIgnored written).map Char.toLower := by
  induction chars generalizing tail with
  | nil => cases read
  | cons char chars induction =>
      rw [schemeTail?] at read
      split at read
      · next ignored =>
        rcases induction read with ⟨written, rfl, inScheme, rfl⟩
        have skips : withoutIgnored (char :: written) = withoutIgnored written :=
          List.filter_cons_of_neg (by simp [ignored])
        exact ⟨char :: written, rfl, skips ▸ inScheme, skips ▸ rfl⟩
      next kept =>
      split at read
      · next colon =>
        cases read
        exact ⟨[], by rw [colon]; rfl, nofun, rfl⟩
      split at read
      · next inScheme =>
        rcases Option.map_eq_some_iff.mp read with ⟨⟨others, after⟩, readOthers, equal⟩
        cases equal
        rcases induction readOthers with ⟨written, rfl, others, rfl⟩
        have keeps : withoutIgnored (char :: written) = char :: withoutIgnored written :=
          List.filter_cons_of_pos (by simp [kept])
        refine ⟨char :: written, rfl, ?_, by rw [keeps, List.map_cons]⟩
        rw [keeps]
        exact List.forall_mem_cons.mpr ⟨inScheme, others⟩
      · cases read

theorem schemeTail?_append (inScheme : ∀ char ∈ tail, isSchemeChar char = true) :
    schemeTail? (tail ++ ':' :: rest) = some (tail.map Char.toLower, rest) := by
  induction tail with
  | nil => rfl
  | cons char tail induction =>
      rcases List.forall_mem_cons.mp inScheme with ⟨first, others⟩
      rw [List.cons_append, schemeTail?, (isVisible_of_isSchemeChar first).isIgnored,
        if_neg Bool.false_ne_true, if_neg (ne_colon_of_isSchemeChar first), if_pos first,
        induction others]
      rfl

theorem scheme?_ok (read : scheme? chars = some (scheme, rest)) :
    ∃ written, chars = written ++ ':' :: rest ∧ IsScheme (withoutIgnored written) ∧
      scheme = (withoutIgnored written).map Char.toLower := by
  rw [scheme?] at read
  split at read
  · cases read
  next first others begins =>
  split at read
  · next letter =>
    rcases Option.map_eq_some_iff.mp read with ⟨⟨tail, after⟩, readTail, equal⟩
    cases equal
    rcases schemeTail?_ok readTail with ⟨written, rfl, inScheme, rfl⟩
    have skipped : withoutIgnored (chars.takeWhile isIgnored) = [] := by
      refine List.filter_eq_nil_iff.mpr fun char member => ?_
      simp [List.all_eq_true.mp List.all_takeWhile char member]
    have text : withoutIgnored (chars.takeWhile isIgnored ++ first :: written) =
        first :: withoutIgnored written := by
      have visible := isVisible_of_isSchemeChar (isSchemeChar_of_isAlpha letter)
      rw [withoutIgnored, List.filter_append, ← withoutIgnored, skipped, List.nil_append,
        List.filter_cons_of_pos (by simp [visible.isIgnored])]
      rfl
    refine ⟨chars.takeWhile isIgnored ++ first :: written, ?_, ?_, ?_⟩
    · rw [List.append_assoc, List.cons_append, ← begins, List.takeWhile_append_dropWhile]
    · rw [text]
      exact ⟨first, _, rfl, letter, inScheme⟩
    · rw [text, List.map_cons]
  · cases read

theorem scheme?_append {written : List Char} (isScheme : IsScheme written) :
    scheme? (written ++ ':' :: rest) = some (written.map Char.toLower, rest) := by
  rcases isScheme with ⟨first, tail, rfl, letter, others⟩
  have visible := isVisible_of_isSchemeChar (isSchemeChar_of_isAlpha letter)
  rw [scheme?, List.cons_append, List.dropWhile_cons, visible.isIgnored, if_neg Bool.false_ne_true]
  dsimp only
  rw [if_pos letter, schemeTail?_append others]
  rfl

end Scheme

/-! ## Queries and fragments -/

section Tail

variable {kind : SchemeKind} {query fragment : Option (List Char)}

/-- A query and a fragment as they follow a path. -/
def tailText (query fragment : Option (List Char)) : List Char :=
  (match query with
    | none => []
    | some query => '?' :: query) ++
  match fragment with
  | none => []
  | some fragment => '#' :: fragment

/-- What follows the colon of the scheme. -/
def afterScheme (url : Url) : List Char :=
  url.beforePath ++ url.fromPath

theorem text_eq (url : Url) : url.text = url.scheme ++ ':' :: url.afterScheme :=
  rfl

theorem afterScheme_eq (url : Url) :
    url.afterScheme = url.beforePath ++ (url.path.chars ++ tailText url.query url.fragment) := by
  rw [afterScheme, fromPath, List.append_assoc]
  rfl

/-- A query and a fragment that are read back from their text. -/
structure IsTail (kind : SchemeKind) (query fragment : Option (List Char)) : Prop where
  query : ∀ text ∈ query, ∀ char ∈ text, Text.Percent.Keeps (querySet kind) char
  fragment : ∀ text ∈ fragment, ∀ char ∈ text, Text.Percent.Keeps fragmentSet char

theorem fromPath_eq (url : Url) :
    url.fromPath = url.path.chars ++ tailText url.query url.fragment := by
  rw [fromPath, List.append_assoc]
  rfl

theorem keeps_querySet {char : Char} (keeps : Text.Percent.Keeps (querySet kind) char) :
    IsVisible char ∧ char ≠ '#' := by
  have hash : ∀ members, '#' ∈ members →
      ¬ Text.Percent.Keeps (Text.Percent.controlsAnd members) '#' := by
    intro members member kept
    exact (Text.Percent.keeps_controlsAnd_iff.mp kept).2.2 member
  rw [querySet] at keeps
  split at keeps
  · exact ⟨isVisible_of_keeps (by decide) keeps, fun equal => hash _ (by decide) (equal ▸ keeps)⟩
  · exact ⟨isVisible_of_keeps (by decide) keeps, fun equal => hash _ (by decide) (equal ▸ keeps)⟩

theorem IsTail.isVisible (isTail : IsTail kind query fragment) :
    ∀ char ∈ tailText query fragment, IsVisible char := by
  refine List.forall_mem_append.mpr ⟨?_, ?_⟩
  · cases query with
    | none => exact nofun
    | some text =>
        exact List.forall_mem_cons.mpr ⟨by decide,
          fun char member => (keeps_querySet (isTail.query text rfl char member)).1⟩
  · cases fragment with
    | none => exact nofun
    | some text =>
        exact List.forall_mem_cons.mpr ⟨by decide,
          fun char member => isVisible_of_keeps (by decide) (isTail.fragment text rfl char member)⟩

theorem endsPath_tailText :
    ∀ char ∈ (tailText query fragment).head?, Path.endsPath char = true := by
  cases query with
  | some text =>
      rintro _ ⟨⟩
      rfl
  | none =>
      cases fragment with
      | none => exact nofun
      | some text =>
          rintro _ ⟨⟩
          rfl

theorem keepsMarks_querySet (kind : SchemeKind) : (querySet kind).KeepsMarks := by
  cases kind <;> decide

theorem readFragment_eq_self {text : List Char}
    (keeps : ∀ char ∈ text, Text.Percent.Keeps fragmentSet char) : readFragment text = text := by
  have printed : withoutIgnored text = text := withoutIgnored_eq_self fun char member =>
    (Text.Percent.keeps_controlsAnd_iff.mp (keeps char member)).1
  rw [readFragment, printed, Text.Percent.encode_eq_self keeps]

theorem readQuery_eq_self {text : List Char}
    (keeps : ∀ char ∈ text, Text.Percent.Keeps (querySet kind) char) :
    Text.Percent.encode (querySet kind) (withoutIgnored text) = text := by
  have printed : withoutIgnored text = text := withoutIgnored_eq_self fun char member =>
    Nat.le_of_lt (keeps_querySet (keeps char member)).1
  rw [printed, Text.Percent.encode_eq_self keeps]

theorem isTail_readTail (kind : SchemeKind) (chars : List Char) :
    IsTail kind (readTail kind chars).1 (readTail kind chars).2 := by
  have fragment (rest : List Char) : ∀ char ∈ readFragment rest,
      Text.Percent.Keeps fragmentSet char :=
    fun _ member => Text.Percent.keeps_of_mem_encode (by decide) member
  rw [readTail.eq_def]
  split
  · next rest =>
    constructor
    · rintro _ ⟨⟩
    · rintro _ ⟨⟩
      exact fragment rest
  · next rest =>
    rw [List.span_eq_takeWhile_dropWhile]
    dsimp only
    constructor
    · rintro _ ⟨⟩ char member
      exact Text.Percent.keeps_of_mem_encode (keepsMarks_querySet kind) member
    · split
      · rintro _ ⟨⟩
      · next mark rest after =>
        rintro _ ⟨⟩
        exact fragment rest
  · constructor <;> rintro _ ⟨⟩

theorem readTail_tailText (isTail : IsTail kind query fragment) :
    readTail kind (tailText query fragment) = (query, fragment) := by
  cases query with
  | none =>
      cases fragment with
      | none => rfl
      | some text => exact congrArg (none, some ·) (readFragment_eq_self (isTail.fragment text rfl))
  | some text =>
      have keeps := isTail.query text rfl
      have span : (text ++ tailText none fragment).span (· ≠ '#') =
          (text, tailText none fragment) := by
        refine span_append (fun char member => ?_) ?_
        · exact decide_eq_true (keeps_querySet (keeps char member)).2
        · cases fragment with
          | none => rintro _ ⟨⟩
          | some text =>
              rintro _ ⟨⟩
              rfl
      have whole : tailText (some text) fragment = '?' :: (text ++ tailText none fragment) := rfl
      have readQuery := congrArg some (readQuery_eq_self keeps)
      rw [whole, readTail, span]
      cases fragment with
      | none => exact Prod.ext readQuery rfl
      | some other =>
          have readOther := readFragment_eq_self (isTail.fragment other rfl)
          exact Prod.ext readQuery (congrArg some readOther)

theorem tailText_readTail_ne_nil (kind : SchemeKind) {char : Char} (rest : List Char)
    (ends : Path.endsPath char = true) :
    tailText (readTail kind (char :: rest)).1 (readTail kind (char :: rest)).2 ≠ [] := by
  rcases Path.endsPath_iff.mp ends with rfl | rfl
  · exact List.append_ne_nil_of_left_ne_nil (List.cons_ne_nil _ _) _
  · exact List.cons_ne_nil _ _

/-- Encoding adds nothing but escapes. -/
theorem mem_tailText_readTail {chars : List Char} {char : Char}
    (member : char ∈ tailText (readTail kind chars).1 (readTail kind chars).2) :
    char ∈ Text.Percent.marks ∨ char ∈ chars := by
  have encoded {reserved : Text.Percent.Set} {text : List Char} (inside : text ⊆ chars)
      (member : char ∈ Text.Percent.encode reserved (withoutIgnored text)) :
      char ∈ Text.Percent.marks ∨ char ∈ chars :=
    (Text.Percent.mem_encode member).imp_right fun both => inside (List.mem_filter.mp both.1).1
  rw [readTail.eq_def] at member
  split at member
  · next rest =>
    rcases List.mem_cons.mp member with rfl | inFragment
    · exact .inr List.mem_cons_self
    · exact encoded (List.subset_cons_self _ _) inFragment
  · next rest =>
    rw [List.span_eq_takeWhile_dropWhile] at member
    dsimp only at member
    rcases List.mem_append.mp member with inQuery | inFragment
    · rcases List.mem_cons.mp inQuery with rfl | inQuery
      · exact .inr List.mem_cons_self
      · refine encoded (fun letter inside => ?_) inQuery
        exact List.mem_cons_of_mem _ ((List.takeWhile_prefix _).subset inside)
    · split at inFragment
      · cases inFragment
      next mark text equal =>
      split at equal
      · cases equal
      next hash after left =>
      cases equal
      have inRest : hash :: after ⊆ rest := left ▸ (List.dropWhile_suffix _).subset
      have isHash : hash = '#' := by
        have stops := List.head?_dropWhile_not (· ≠ '#') rest
        rw [left] at stops
        simpa using stops
      rcases List.mem_cons.mp inFragment with rfl | inFragment
      · exact .inr (List.mem_cons_of_mem _ (inRest (isHash ▸ List.mem_cons_self)))
      · refine encoded (fun letter inside => ?_) inFragment
        exact List.mem_cons_of_mem _ (inRest (List.mem_cons_of_mem _ inside))
  · cases member

end Tail

end MarkupExport.Url
