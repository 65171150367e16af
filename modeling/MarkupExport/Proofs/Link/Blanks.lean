import MarkupExport.Proofs.Link.Inside
import MarkupExport.Proofs.Url.Depth

/-!
Blanks in targets. A reference is resolved without the characters that are cut off and skipped in
it, but whether it begins with one slash or with two is asked of the target as it is written. So a
blank in front hides the slash of an absolute path, which is then taken away as if it had been
added, and any blank makes a difference where a host follows two slashes.
-/

namespace MarkupExport.Link

open Url

variable {raw text : List Char}

/-- Nothing that is cut off or skipped stands in a target that begins with two slashes, or in front
of the slash of a path. -/
def IsUndisturbed (raw : List Char) : Prop :=
  (['/', '/'].isPrefixOf (cleaned raw) = true → cleaned raw = raw) ∧ ¬ LosesSlash raw

/-! ## First characters -/

theorem head?_cleaned_of_slash (rooted : raw.head? = some '/') :
    (cleaned raw).head? = some '/' := by
  obtain ⟨rest, rfl⟩ := List.head?_eq_some_iff.mp rooted
  rw [cleaned_cons (by decide)]
  rfl

theorem scheme?_of_slash (rooted : text.head? = some '/') : scheme? (trimmed text) = none := by
  obtain ⟨rest, begins⟩ := List.head?_eq_some_iff.mp (head?_cleaned_of_slash rooted)
  rw [← scheme?_cleaned_eq_none_iff, begins]
  exact (scheme?_stop (by simp)).2

theorem head?_of_slashes (slashes : ['/', '/'].isPrefixOf text = true) :
    text.head? = some '/' := by
  obtain ⟨rest, rfl⟩ := List.isPrefixOf_iff_prefix.mp slashes
  rfl

/-! ## Two slashes -/

theorem isPrefixOf_encodeUnparsed (slashes : ['/', '/'].isPrefixOf text = true) :
    ['/', '/'].isPrefixOf (encodeUnparsed text) = true := by
  obtain ⟨rest, rfl⟩ := List.isPrefixOf_iff_prefix.mp slashes
  rfl

/-- A slash that an encoded target begins with has been written. -/
theorem head?_encodeUnparsed (rooted : (encodeUnparsed text).head? = some '/') :
    text.head? = some '/' := by
  obtain ⟨rest, begins⟩ := List.head?_eq_some_iff.mp rooted
  obtain ⟨back, rfl, _⟩ :=
    Text.Percent.escapesWithPercent_char.front (show '%' ∉ ['/'] by decide) begins
  rfl

theorem encodeOnce_of_slashes (slashes : ['/', '/'].isPrefixOf text = true) :
    encodeOnce text = encodeUnparsed text := by
  have missing := parse_eq_missingScheme_iff.mpr (scheme?_of_slash (head?_of_slashes slashes))
  rw [encodeOnce, missing]
  exact if_pos slashes

theorem settle_of_slashes (slashes : ['/', '/'].isPrefixOf text = true) (limit : Nat) :
    settle encodeOnce limit (encodeUnparsed text) = encodeUnparsed text := by
  apply settle_of_fixed
  rw [encodeOnce_of_slashes (isPrefixOf_encodeUnparsed slashes), encodeUnparsed_encodeUnparsed]

theorem encodeChars_of_slashes (slashes : ['/', '/'].isPrefixOf text = true) :
    encodeChars text = encodeUnparsed text := by
  rw [encodeChars, encodeOnce_of_slashes slashes, settle_of_slashes slashes]

/-! ## Further passes -/

theorem count_encodeUnparsed (text : List Char) :
    (encodeUnparsed text).count '/' = text.count '/' :=
  count_encode (by decide) text

/-- What further passes leave of the slashes of a reference. -/
structure KeepsSlashes (text settled : List Char) : Prop where
  rooted : settled.head? = some '/' ↔ text.head? = some '/'
  double : ['/', '/'].isPrefixOf settled = true → ['/', '/'].isPrefixOf text = true
  count : settled.head? = some '/' → settled.count '/' = text.count '/'

theorem KeepsSlashes.refl (text : List Char) : KeepsSlashes text text :=
  ⟨Iff.rfl, id, fun _ => rfl⟩

theorem KeepsSlashes.unparsed (slashes : ['/', '/'].isPrefixOf text = true) :
    KeepsSlashes text (encodeUnparsed text) where
  rooted := iff_of_true (head?_of_slashes (isPrefixOf_encodeUnparsed slashes))
    (head?_of_slashes slashes)
  double _ := slashes
  count _ := count_encodeUnparsed text

theorem KeepsSlashes.rootless {settled : List Char} (before : text.head? ≠ some '/')
    (after : settled.head? ≠ some '/') : KeepsSlashes text settled where
  rooted := iff_of_false after before
  double slashes := absurd (head?_of_slashes slashes) after
  count rooted := absurd rooted after

theorem head?_of_parse {url : Url} (parsed : parse text = .ok url) : text.head? ≠ some '/' := by
  intro rooted
  rw [parse_eq_missingScheme_iff.mpr (scheme?_of_slash rooted)] at parsed
  cases parsed

/-- Where a scheme comes first, no pass puts a slash in front of it. -/
theorem StaysAbsolute.head?_encodeOnce (stays : StaysAbsolute text)
    (rootless : text.head? ≠ some '/') : (Link.encodeOnce text).head? ≠ some '/' := by
  have encodes := encodes_encodeOnce text
  generalize Link.encodeOnce text = once at encodes
  cases encodes with
  | parsed parsed =>
      obtain ⟨settled, again, _⟩ := parse_text_settles parsed
      exact head?_of_parse again
  | unparsed => exact mt head?_encodeUnparsed rootless
  | reference relative => exact absurd stays.isAbsolute relative

theorem keepsSlashes_settle (isReference : IsReference text) (limit : Nat) :
    KeepsSlashes text (settle encodeOnce limit text) := by
  by_cases slashes : ['/', '/'].isPrefixOf text = true
  · cases limit with
    | zero => exact .refl text
    | succ limit =>
        rw [settle, encodeOnce_of_slashes slashes, settle_of_slashes slashes]
        split
        · exact .refl text
        · exact .unparsed slashes
  by_cases absolute : IsAbsolute text
  · have rootless : text.head? ≠ some '/' := fun rooted =>
      absolute.elim slashes fun named => named (scheme?_of_slash rooted)
    have settled := @settle_induct _ encodeOnce text _
      (fun text => StaysAbsolute text ∧ text.head? ≠ some '/')
      (fun _ both => ⟨both.1.encodeOnce, both.1.head?_encodeOnce both.2⟩) limit
      ⟨.inr ⟨absolute, isReference.isVisible⟩, rootless⟩
    exact .rootless rootless settled.2
  · rw [settle_of_fixed (encodeOnce_of_relative isReference absolute)]
    exact .refl text

/-! ## A lost slash -/

theorem encodeOnce_cleaned (inside : IsInside (cleaned raw)) :
    encodeOnce (cleaned raw) =
      withoutAddedSlash (cleaned raw) (follow (readFromRoot raw)).fromPath := by
  have root : readFromRoot (cleaned raw) = readFromRoot raw := by
    rw [readFromRoot, readFromRoot, cleaned_cleaned]
  rw [← root]
  apply encodeOnce_of_inside
  rwa [cleaned_cleaned]

/-- A reference whose slash is lost is encoded differently without the blanks before it. -/
theorem encodeChars_ne_of_losesSlash (inside : IsInside (cleaned raw)) (loses : LosesSlash raw) :
    encodeChars raw ≠ encodeChars (cleaned raw) := by
  have again : IsInside (cleaned (cleaned raw)) := by rwa [cleaned_cleaned]
  obtain ⟨rest, path⟩ := (isRooted_follow (not_mem_readFromRoot raw)).slash
  obtain ⟨others, begins⟩ := List.head?_eq_some_iff.mp loses.1
  have without : encodeOnce raw = rest := by
    rw [encodeOnce_of_inside inside, path, withoutAddedSlash_of_head? loses.2]
  have rooted : encodeOnce (cleaned raw) = '/' :: rest := by
    rw [encodeOnce_cleaned inside, path, begins]
    rfl
  have keepsWithout := keepsSlashes_settle (isReference_encodeOnce inside) passes
  have keeps := keepsSlashes_settle (isReference_encodeOnce again) passes
  rw [← encodeChars, without] at keepsWithout
  rw [← encodeChars, rooted] at keeps
  intro equal
  rw [equal] at keepsWithout
  have slash := keeps.rooted.mpr rfl
  have fewer := keepsWithout.count slash
  rw [keeps.count slash, List.count_cons_self] at fewer
  omega

/-! ## A hidden host -/

theorem count_escaped (chars : List Char) :
    (chars.flatMap escapeBackslash).count '/' = chars.count '/' :=
  (@respects_escapeBackslash (· == '/') (Text.forall_mem_of_all (by decide))).countP chars

theorem count_withoutAddedSlash_le (raw text : List Char) :
    (withoutAddedSlash raw text).count '/' ≤ text.count '/' := by
  rw [withoutAddedSlash.eq_def]
  split
  · exact Nat.le_refl _
  · exact List.count_le_count_cons
  · exact Nat.le_refl _

/-- The host is read, and the slashes before it are not written again. -/
theorem encodeChars_ne_of_resolved {url : Url}
    (slashes : ['/', '/'].isPrefixOf (cleaned raw) = true)
    (once : encodeOnce raw = withoutAddedSlash raw url.fromPath)
    (resolved : base.resolve (raw.flatMap escapeBackslash) = .ok url) :
    encodeChars raw ≠ encodeUnparsed (cleaned raw) := by
  obtain ⟨after, begins⟩ := List.isPrefixOf_iff_prefix.mp slashes
  have unescaped := not_mem_flatMap_escapeBackslash after
  have read : readFromAuthority base.scheme (after.flatMap escapeBackslash) = .ok url := by
    have escaped : cleaned (raw.flatMap escapeBackslash) =
        '/' :: '/' :: after.flatMap escapeBackslash := by
      rw [cleaned_escaped, ← begins]
      rfl
    rw [resolve, ← cleaned, escaped] at resolved
    exact resolved
  have fewer := count_fromPath_le (by decide) unescaped read
  rw [count_escaped] at fewer
  have rooted := isRooted_resolve (not_mem_flatMap_escapeBackslash raw) resolved
  have isReference : IsReference (encodeOnce raw) := by
    rw [once]
    exact isReference_withoutAddedSlash rooted
  have written := count_withoutAddedSlash_le raw url.fromPath
  have keeps := keepsSlashes_settle isReference passes
  rw [← encodeChars, once] at keeps
  intro equal
  rw [equal] at keeps
  have same := keeps.count (head?_of_slashes (isPrefixOf_encodeUnparsed slashes))
  have two : (cleaned raw).count '/' = after.count '/' + 2 := by
    rw [← begins]
    simp
  rw [count_encodeUnparsed] at same
  omega

/-- A pass more in front makes no difference. -/
theorem encodeChars_encodeOnce (raw : List Char) :
    encodeChars (encodeOnce raw) = encodeChars raw := by
  have settles := settles_encodeOnce (encodeOnce raw)
  have longer : settle encodeOnce (passes + 1) (encodeOnce raw) = encodeChars raw := by
    rw [encodeChars, settles.settle_eq (show 5 ≤ passes + 1 by decide),
      settles.settle_eq (show 5 ≤ passes by decide)]
  rw [← longer, settle, encodeChars]
  split
  · next fixed => rw [fixed, settle_of_fixed fixed]
  · rfl

theorem encodeUnparsed_of_blank {char : Char} (blank : ¬ IsVisible char) (rest : List Char) :
    ∃ more, encodeUnparsed (char :: rest) = '%' :: more := by
  have encoded : ¬ Text.Percent.Keeps unparsedSet char :=
    fun keeps => blank (isVisible_of_keeps (by decide) keeps)
  obtain ⟨first, others, spelled, _⟩ := Text.Percent.char_of_not_keeps encoded
  rw [encodeUnparsed, Text.Percent.encode_cons, spelled]
  exact ⟨_, rfl⟩

/-- What hides one of the two slashes is escaped where the reference does not resolve. -/
theorem exists_escape_of_hidden (slashes : ['/', '/'].isPrefixOf (cleaned raw) = true)
    (hidden : ¬ ['/', '/'].isPrefixOf raw = true) :
    ∃ rest, encodeUnparsed raw = '/' :: '%' :: rest ∨ encodeUnparsed raw = '%' :: rest := by
  obtain ⟨after, begins⟩ := List.isPrefixOf_iff_prefix.mp slashes
  have long := (sublist_cleaned raw).length_le
  rw [← begins] at long
  match raw with
  | [] | [_] => simp at long
  | first :: second :: raw =>
      by_cases visible : IsVisible first
      · by_cases also : IsVisible second
        · have both : ∀ char ∈ [first, second], IsVisible char := by simp [visible, also]
          have front := begins.trans (cleaned_append (List.cons_ne_nil _ _) both raw)
          simp only [List.cons_append, List.cons.injEq] at front
          obtain ⟨rfl, rfl, _⟩ := front
          exact absurd rfl hidden
        · rw [cleaned_cons visible] at begins
          obtain ⟨rfl, _⟩ := List.cons.inj begins
          obtain ⟨more, escaped⟩ := encodeUnparsed_of_blank also raw
          exact ⟨more, .inl (congrArg ('/' :: ·) escaped)⟩
      · obtain ⟨more, escaped⟩ := encodeUnparsed_of_blank visible (second :: raw)
        exact ⟨more, .inr escaped⟩

/-- A path whose first segment begins with an escape keeps that segment in front, or loses a slash
with one of its segments. -/
theorem not_isPrefixOf_pathText {rest : List Char} (unescaped : '\\' ∉ '%' :: rest)
    (full : (pathText .special ('%' :: rest)).count '/' = ('%' :: rest).count '/' + 1) :
    ¬ ['/', '/'].isPrefixOf (pathText .special ('%' :: rest)) = true := by
  have other : SchemeKind.special ≠ .file := by decide
  have deep := (count_pathText other unescaped).2 full
  rw [pathText, slashes_segments_iff (Path.read_plain other _).1 endsPath_tailText]
  rintro ⟨second, others, resolved⟩
  have separated : 0 < Path.slashes .special ('%' :: rest) := by
    rw [resolved] at deep
    simp only [List.length_cons] at deep
    omega
  apply Path.head?_read_ne_nil other (by decide) (by decide) separated deep
  rw [resolved]
  rfl

/-- An escape at the front of a path stands between its first two slashes, unless some slash is lost
with a segment that is resolved away. -/
theorem encodeChars_ne_of_escape {rest result : List Char}
    (escaped : text = '/' :: '%' :: rest ∨ text = '%' :: rest)
    (visible : ∀ char ∈ text, IsVisible char) (unescaped : '\\' ∉ text)
    (slashes : ['/', '/'].isPrefixOf result = true)
    (count : result.count '/' = text.count '/') : encodeChars text ≠ result := by
  have inside : IsInside (cleaned text) := by
    rw [cleaned_of_isVisible visible, IsInside, parse_eq_missingScheme_iff,
      trimmed_of_isVisible visible]
    obtain rfl | rfl := escaped
    · exact ⟨rfl, Bool.false_ne_true⟩
    · exact ⟨rfl, Bool.false_ne_true⟩
  have root : readFromRoot text = withoutSlash text := by
    rw [readFromRoot, cleaned_of_isVisible visible, flatMap_escapeBackslash unescaped]
  have path : (follow (withoutSlash text)).fromPath = pathText .special (withoutSlash text) :=
    fromPath_eq _
  have keeps := keepsSlashes_settle (isReference_encodeOnce inside) passes
  obtain ⟨others, written⟩ := (isRooted_follow (not_mem_readFromRoot text)).slash
  rw [root, path] at written
  rw [← encodeChars, encodeOnce_of_inside inside, root, path, written] at keeps
  intro equal
  rw [equal] at keeps
  have same := keeps.count (head?_of_slashes slashes)
  have still := keeps.double slashes
  obtain rfl | rfl := escaped
  · have inRest : '\\' ∉ '%' :: rest := fun member => unescaped (List.mem_cons_of_mem _ member)
    refine not_isPrefixOf_pathText inRest ?_ (written ▸ still)
    have whole := same.symm.trans (count.trans List.count_cons_self)
    rwa [← written] at whole
  · have path : pathText .special ('%' :: rest) = '/' :: others := written
    refine not_isPrefixOf_pathText unescaped ?_ ?_
    · rw [path, List.count_cons_self]
      exact congrArg (· + 1) (same.symm.trans count)
    · obtain ⟨more, rfl⟩ := List.head?_eq_some_iff.mp (head?_of_slashes still)
      rw [path]
      rfl

theorem encodeChars_ne_of_unresolved (slashes : ['/', '/'].isPrefixOf (cleaned raw) = true)
    (hidden : ¬ ['/', '/'].isPrefixOf raw = true) (once : encodeOnce raw = encodeUnparsed raw) :
    encodeChars raw ≠ encodeUnparsed (cleaned raw) := by
  obtain ⟨rest, escaped⟩ := exists_escape_of_hidden slashes hidden
  have unescaped : '\\' ∉ encodeUnparsed raw := by
    intro member
    have keeps := Text.Percent.keeps_of_mem_encode (show unparsedSet.KeepsMarks by decide) member
    exact absurd keeps (by decide)
  rw [← encodeChars_encodeOnce, once]
  apply encodeChars_ne_of_escape escaped (isVisible_encodeUnparsed raw) unescaped
    (isPrefixOf_encodeUnparsed slashes)
  rw [count_encodeUnparsed, count_encodeUnparsed, count_cleaned (by decide)]

/-- Where two slashes come first, no target but the one without blanks is encoded like it. -/
theorem cleaned_eq_of_encodeChars (slashes : ['/', '/'].isPrefixOf (cleaned raw) = true)
    (equal : encodeChars raw = encodeChars (cleaned raw)) : cleaned raw = raw := by
  rw [encodeChars_of_slashes slashes] at equal
  by_cases written : ['/', '/'].isPrefixOf raw = true
  · rw [encodeChars_of_slashes written] at equal
    exact Text.Percent.eq_of_encode_eq (sublist_cleaned raw) equal.symm
  have unnamed := scheme?_cleaned_eq_none_iff.mp
    (trimmed_cleaned raw ▸ scheme?_of_slash (head?_of_slashes slashes))
  have once : encodeOnce raw = encodeReference raw := by
    rw [encodeOnce, parse_eq_missingScheme_iff.mpr unnamed]
    exact if_neg written
  rw [encodeReference] at once
  split at once
  · next url resolved => exact absurd equal (encodeChars_ne_of_resolved slashes once resolved)
  · exact absurd equal (encodeChars_ne_of_unresolved slashes written once)

/-! ## Blanks that make no difference -/

theorem encodeOnce_cleaned_eq (inside : IsInside (cleaned raw)) (keepsSlash : ¬ LosesSlash raw) :
    encodeOnce (cleaned raw) = encodeOnce raw := by
  rw [encodeOnce_of_inside inside, encodeOnce_cleaned inside]
  by_cases rooted : raw.head? = some '/'
  · rw [withoutAddedSlash_of_slash rooted,
      withoutAddedSlash_of_slash (head?_cleaned_of_slash rooted)]
  · obtain ⟨rest, path⟩ := (isRooted_follow (not_mem_readFromRoot raw)).slash
    rw [path, withoutAddedSlash_of_head? rooted,
      withoutAddedSlash_of_head? fun slash => keepsSlash ⟨slash, rooted⟩]

/-- Encoding agrees with the reader of URLs on what is cut off and skipped in a reference only where
this stands neither in front of the slash of its path nor in a target that begins with two slashes;
there it makes a difference every time. -/
theorem encode_cleaned_iff (raw : String)
    (unnamed : parse (cleaned raw.toList) = .error .missingScheme) :
    encode raw = encode (String.ofList (cleaned raw.toList)) ↔ IsUndisturbed raw.toList := by
  rw [encode, encode, String.toList_ofList, String.ofList_inj]
  generalize raw.toList = raw at unnamed
  by_cases slashes : ['/', '/'].isPrefixOf (cleaned raw) = true
  · constructor
    · intro equal
      have same := cleaned_eq_of_encodeChars slashes equal
      exact ⟨fun _ => same, fun loses => loses.2 (same ▸ loses.1)⟩
    · intro undisturbed
      rw [undisturbed.1 slashes]
  · have inside : IsInside (cleaned raw) := ⟨unnamed, slashes⟩
    constructor
    · intro equal
      exact ⟨fun both => absurd both slashes,
        fun loses => encodeChars_ne_of_losesSlash inside loses equal⟩
    · intro undisturbed
      rw [encodeChars, encodeChars, encodeOnce_cleaned_eq inside undisturbed.2]

theorem encode_cleaned_iff_inside :
    parse (cleaned "/do\tcs ".toList) = .error .missingScheme ∧
      encode "/do\tcs " = encode (String.ofList (cleaned "/do\tcs ".toList)) := by
  have unnamed : parse (cleaned "/do\tcs ".toList) = .error .missingScheme := rfl
  have undisturbed : IsUndisturbed "/do\tcs ".toList := by
    constructor
    · intro slashes
      cases slashes
    · exact fun loses => loses.2 rfl
  exact ⟨unnamed, (encode_cleaned_iff "/do\tcs " unnamed).mpr undisturbed⟩

/-- A blank in front of an absolute path takes its slash away. -/
theorem encode_blank_takes_slash :
    ¬ ∀ raw : String, parse (cleaned raw.toList) = .error .missingScheme →
      encode raw = encode (String.ofList (cleaned raw.toList)) := by
  intro same
  have differs : encode " /docs" ≠ encode (String.ofList (cleaned " /docs".toList)) := by
    decide +kernel
  exact differs (same " /docs" rfl)

example : encode " /docs" = "docs" ∧ encode "\t//host/a" = "a" ∧
    encode "//host/a " = "//host/a%20" := by
  decide +kernel

end MarkupExport.Link
