import MarkupExport.Proofs.Link.Escaped
import MarkupExport.Proofs.Link.Settles

/-!
Targets that lead to no other site. One in which neither a host nor a scheme is read is resolved to
a path, a query and a fragment, and the slash that resolution adds is taken away again. It still
leads to no other site unless what comes first in the path has been resolved away: an empty segment
that comes first is read as the second slash in front of a host, and a colon in the first segment
ends a scheme. Nothing but dot segments, or blanks before the slash of the path, can lead to that.
-/

namespace MarkupExport.Link

open Url

variable {raw text : List Char}

/-- Neither a host nor a scheme is read in a target. -/
def IsInside (text : List Char) : Prop :=
  parse text = .error .missingScheme ∧ ¬ ['/', '/'].isPrefixOf text = true

theorem isInside_iff : IsInside text ↔ ¬ IsAbsolute text := by
  rw [IsInside, IsAbsolute, parse_eq_missingScheme_iff, not_or, ne_eq, not_not, and_comm]

instance (text : List Char) : Decidable (IsAbsolute text) :=
  inferInstanceAs (Decidable (_ ∨ _))

instance (text : List Char) : Decidable (IsInside text) :=
  decidable_of_iff _ isInside_iff.symm

theorem isAbsolute_of_parse {url : Url} (parsed : parse text = .ok url) : IsAbsolute text := by
  by_contra relative
  rw [(isInside_iff.mpr relative).1] at parsed
  cases parsed

theorem scheme?_cleaned (inside : IsInside (cleaned raw)) : scheme? (cleaned raw) = none := by
  rw [← trimmed_cleaned raw]
  exact parse_eq_missingScheme_iff.mp inside.1

theorem not_isAbsolute_of_cleaned (inside : IsInside (cleaned raw)) : ¬ IsAbsolute raw := by
  rintro (slashes | named)
  · rcases List.isPrefixOf_iff_prefix.mp slashes with ⟨rest, rfl⟩
    refine inside.2 ?_
    rw [cleaned_append (List.cons_ne_nil _ _) (Text.forall_mem_of_all (by decide))]
    rfl
  · exact named (scheme?_cleaned_eq_none_iff.mp (scheme?_cleaned inside))

/-! ## The first pass -/

/-- A reference as it is resolved, without the slash in front of its path. -/
def readFromRoot (raw : List Char) : List Char :=
  withoutSlash ((cleaned raw).flatMap escapeBackslash)

/-- The segments of a reference's path that are left when its dot segments are resolved. -/
def resolvedPath (raw : List Char) : List Path.Segment :=
  (Path.read .special [] (readFromRoot raw)).1

/-- The path that is left leads to another site. Where a slash comes first, it does so by an empty
segment that others follow; where none does, by two empty segments that others follow or by a first
one that begins with a scheme. -/
inductive Exposes (raw : List Char) : Prop
  | host {second : Path.Segment} {others : List Path.Segment} (rooted : raw.head? = some '/')
      (resolved : resolvedPath raw = [] :: second :: others)
  | slashes {third : Path.Segment} {others : List Path.Segment} (rootless : raw.head? ≠ some '/')
      (resolved : resolvedPath raw = [] :: [] :: third :: others)
  | scheme {first : Path.Segment} {others : List Path.Segment} (rootless : raw.head? ≠ some '/')
      (resolved : resolvedPath raw = first :: others) (named : scheme? first ≠ none)

theorem not_mem_readFromRoot (raw : List Char) : '\\' ∉ readFromRoot raw := by
  have free := not_mem_flatMap_escapeBackslash (cleaned raw)
  rw [readFromRoot, withoutSlash.eq_def]
  split
  · next equal =>
    rw [equal] at free
    exact fun member => free (List.mem_cons_of_mem _ member)
  · exact free

theorem encodeOnce_of_inside (inside : IsInside (cleaned raw)) :
    encodeOnce raw = withoutAddedSlash raw (follow (readFromRoot raw)).fromPath := by
  have relative := not_isAbsolute_of_cleaned inside
  have resolved : base.resolve (raw.flatMap escapeBackslash) = .ok (follow (readFromRoot raw)) := by
    rw [readFromRoot, ← cleaned_escaped]
    refine resolve_single ?_ fun slashes => inside.2 ?_
    · rw [cleaned_escaped]
      exact not_mem_flatMap_escapeBackslash _
    · rw [cleaned_escaped] at slashes
      exact isPrefixOf_escaped slashes
  have encodes := encodes_encodeOnce raw
  generalize encodeOnce raw = once at encodes
  cases encodes with
  | parsed parsed => exact absurd (isAbsolute_of_parse parsed) relative
  | unparsed absolute => exact absurd absolute relative
  | reference => rw [encodeReference, resolved]

theorem isReference_encodeOnce (inside : IsInside (cleaned raw)) :
    IsReference (encodeOnce raw) := by
  rw [encodeOnce_of_inside inside]
  exact isReference_withoutAddedSlash (isRooted_follow (not_mem_readFromRoot raw))

section Written

variable {segments : List Path.Segment} {first : Path.Segment} {others : List Path.Segment}
  {tail : List Char}

theorem ne_slash_of_isPlain {char : Char} (plain : Path.IsPlain .special (char :: first)) :
    char ≠ '/' := by
  rintro rfl
  exact absurd (plain.1 '/' List.mem_cons_self).2 (by decide)

/-- A path is written with two slashes in front if its first segment is empty and not the last. -/
theorem slashes_segments_iff (plain : ∀ segment ∈ segments, Path.IsPlain .special segment)
    (ends : ∀ char ∈ tail.head?, Path.endsPath char = true) :
    ['/', '/'].isPrefixOf (segments.flatMap ('/' :: ·) ++ tail) = true ↔
      ∃ second others, segments = [] :: second :: others := by
  have slashless (rest : List Char) : tail ≠ '/' :: rest := by
    rintro rfl
    exact absurd (ends '/' rfl) (by decide)
  constructor
  · intro slashes
    rcases List.isPrefixOf_iff_prefix.mp slashes with ⟨rest, equal⟩
    cases segments with
    | nil => exact absurd equal.symm (slashless _)
    | cons first others =>
        cases first with
        | nil =>
            cases others with
            | nil => exact absurd (List.cons.inj equal).2.symm (slashless _)
            | cons second others => exact ⟨second, others, rfl⟩
        | cons char first =>
            have same := (List.cons.inj (List.cons.inj equal).2).1
            exact absurd same.symm (ne_slash_of_isPlain (plain _ List.mem_cons_self))
  · rintro ⟨second, others, rfl⟩
    rfl

theorem isAbsolute_rooted_iff (plain : ∀ segment ∈ first :: others, Path.IsPlain .special segment)
    (ends : ∀ char ∈ tail.head?, Path.endsPath char = true)
    (visible : ∀ char ∈ (first :: others).flatMap ('/' :: ·) ++ tail, IsVisible char) :
    IsAbsolute ((first :: others).flatMap ('/' :: ·) ++ tail) ↔
      ∃ second more, first :: others = [] :: second :: more := by
  rw [IsAbsolute, slashes_segments_iff plain ends, trimmed_of_isVisible visible,
    (scheme?_stop (stops_segments ends)).2]
  simp

theorem isAbsolute_rootless_iff (plain : ∀ segment ∈ first :: others, Path.IsPlain .special segment)
    (ends : ∀ char ∈ tail.head?, Path.endsPath char = true)
    (visible : ∀ char ∈ first ++ (others.flatMap ('/' :: ·) ++ tail), IsVisible char) :
    IsAbsolute (first ++ (others.flatMap ('/' :: ·) ++ tail)) ↔
      (∃ third more, first :: others = [] :: [] :: third :: more) ∨ scheme? first ≠ none := by
  rw [IsAbsolute, trimmed_of_isVisible visible, scheme?_append_stop (stops_segments ends), ne_eq,
    Option.map_eq_none_iff]
  refine or_congr ?_ Iff.rfl
  rcases List.forall_mem_cons.mp plain with ⟨inFirst, inOthers⟩
  cases first with
  | nil =>
      rw [List.nil_append, slashes_segments_iff inOthers ends]
      simp
  | cons char first => simp [(ne_slash_of_isPlain inFirst).symm]

end Written

theorem isAbsolute_encodeOnce_iff (inside : IsInside (cleaned raw)) :
    IsAbsolute (encodeOnce raw) ↔ Exposes raw := by
  have visible := (isReference_encodeOnce inside).isVisible
  have plain : (∀ segment ∈ resolvedPath raw, Path.IsPlain .special segment) ∧
      resolvedPath raw ≠ [] := Path.read_plain (by decide) _
  have written : ∃ tail, (follow (readFromRoot raw)).fromPath =
      (resolvedPath raw).flatMap ('/' :: ·) ++ tail ∧
        ∀ char ∈ tail.head?, Path.endsPath char = true := ⟨_, fromPath_eq _, endsPath_tailText⟩
  rcases written with ⟨tail, written, ends⟩
  rcases List.exists_cons_of_ne_nil plain.2 with ⟨first, others, resolved⟩
  rw [encodeOnce_of_inside inside, written, resolved] at visible ⊢
  rw [resolved] at plain
  by_cases rooted : raw.head? = some '/'
  · rw [withoutAddedSlash_of_slash rooted] at visible ⊢
    rw [isAbsolute_rooted_iff plain.1 ends visible, ← resolved]
    constructor
    · rintro ⟨second, more, equal⟩
      exact .host rooted equal
    · rintro (⟨_, equal⟩ | ⟨rootless, _⟩ | ⟨rootless, _, _⟩)
      · exact ⟨_, _, equal⟩
      · exact absurd rooted rootless
      · exact absurd rooted rootless
  · rw [List.flatMap_cons, List.cons_append, List.cons_append, withoutAddedSlash_of_head? rooted,
      List.append_assoc] at visible ⊢
    rw [isAbsolute_rootless_iff plain.1 ends visible, ← resolved]
    constructor
    · rintro (⟨third, more, equal⟩ | named)
      · exact .slashes rooted equal
      · exact .scheme rooted resolved named
    · rintro (⟨isRooted, _⟩ | ⟨_, equal⟩ | ⟨_, equal, named⟩)
      · exact absurd isRooted rooted
      · exact .inl ⟨_, _, equal⟩
      · rw [resolved] at equal
        cases equal
        exact .inr named

/-! ## Further passes -/

/-- A target that begins with a scheme or with two slashes, and goes on to do so: what has been
parsed is parsed again, and what is only encoded keeps its beginning. -/
def StaysAbsolute (text : List Char) : Prop :=
  (∃ url, parse text = .ok url) ∨ IsAbsolute text ∧ ∀ char ∈ text, IsVisible char

theorem StaysAbsolute.isAbsolute (stays : StaysAbsolute text) : IsAbsolute text := by
  rcases stays with ⟨url, parsed⟩ | ⟨absolute, _⟩
  · exact isAbsolute_of_parse parsed
  · exact absolute

theorem staysAbsolute_text {url : Url} (parsed : parse text = .ok url) :
    StaysAbsolute url.text := by
  rcases parse_text_settles parsed with ⟨settled, again, _⟩
  exact .inl ⟨settled, again⟩

theorem StaysAbsolute.encodeOnce (stays : StaysAbsolute text) :
    StaysAbsolute (encodeOnce text) := by
  rcases stays with ⟨url, parsed⟩ | ⟨absolute, visible⟩
  · rw [Link.encodeOnce, parsed]
    exact staysAbsolute_text parsed
  · have encodes := encodes_encodeOnce text
    generalize Link.encodeOnce text = once at encodes
    cases encodes with
    | parsed parsed => exact staysAbsolute_text parsed
    | unparsed =>
        exact .inr ⟨isAbsolute_encodeUnparsed visible absolute, isVisible_encodeUnparsed text⟩
    | reference relative => exact absurd absolute relative

theorem encodeOnce_of_relative (isReference : IsReference text) (relative : ¬ IsAbsolute text) :
    encodeOnce text = text := by
  have encodes := encodes_encodeOnce text
  generalize encodeOnce text = once at encodes
  cases encodes with
  | parsed parsed => exact absurd (isAbsolute_of_parse parsed) relative
  | unparsed absolute => exact absurd absolute relative
  | reference => exact encodeReference_again isReference fun slashes => relative (.inl slashes)

/-- What the first pass decides stays decided. -/
theorem isAbsolute_encodeChars_iff (inside : IsInside (cleaned raw)) :
    IsAbsolute (encodeChars raw) ↔ Exposes raw := by
  rw [← isAbsolute_encodeOnce_iff inside, encodeChars]
  have isReference := isReference_encodeOnce inside
  by_cases absolute : IsAbsolute (encodeOnce raw)
  · have stays : StaysAbsolute (encodeOnce raw) := .inr ⟨absolute, isReference.isVisible⟩
    have settled : StaysAbsolute (settle encodeOnce passes (encodeOnce raw)) :=
      settle_induct (motive := StaysAbsolute) (fun _ => StaysAbsolute.encodeOnce) passes stays
    exact iff_of_true settled.isAbsolute absolute
  · rw [settle_of_fixed (encodeOnce_of_relative isReference absolute)]

/-! ## What exposes a path -/

/-- One of the segments in the path is a dot segment. -/
def HasDots (raw : List Char) : Prop :=
  ∃ segment ∈ pathSegments (withoutSlash (cleaned raw)), Path.IsDots segment

/-- The slash in front of the path comes after something that is cut off or skipped, and is taken
for one that resolution has added. -/
def LosesSlash (raw : List Char) : Prop :=
  (cleaned raw).head? = some '/' ∧ raw.head? ≠ some '/'

theorem resolvedPath_of_undotted (undotted : ¬ HasDots raw) :
    resolvedPath raw = (pathSegments (withoutSlash (cleaned raw))).map encodedSegment := by
  rw [resolvedPath, readFromRoot, withoutSlash_escaped]
  refine read_escaped (fun char member => ?_) fun segment member dots =>
    undotted ⟨segment, member, dots⟩
  have inCleaned : char ∈ cleaned raw := by
    rw [withoutSlash.eq_def] at member
    split at member
    · next equal => exact equal ▸ List.mem_cons_of_mem _ member
    · exact member
  simpa using (List.mem_filter.mp inCleaned).2

theorem hasDots_or_losesSlash (inside : IsInside (cleaned raw)) (exposes : Exposes raw) :
    HasDots raw ∨ LosesSlash raw := by
  by_contra neither
  rcases not_or.mp neither with ⟨undotted, keepsSlash⟩
  have resolved := resolvedPath_of_undotted undotted
  have rootless (notFirst : raw.head? ≠ some '/') : (cleaned raw).head? ≠ some '/' :=
    fun slash => keepsSlash ⟨slash, notFirst⟩
  cases exposes with
  | host rooted exposed =>
      rcases List.head?_eq_some_iff.mp rooted with ⟨rest, rfl⟩
      have begins := cleaned_cons (show IsVisible '/' by decide) rest
      rw [begins, withoutSlash, exposed] at resolved
      rcases exists_slash_of_empty resolved.symm with ⟨after, double⟩
      rw [begins, double] at inside
      exact inside.2 rfl
  | slashes notFirst exposed =>
      rw [withoutSlash_of_head? (rootless notFirst), exposed] at resolved
      rcases exists_slash_of_empty resolved.symm with ⟨after, slash⟩
      exact rootless notFirst (slash ▸ rfl)
  | scheme notFirst exposed named =>
      rw [withoutSlash_of_head? (rootless notFirst), exposed] at resolved
      rcases List.map_eq_cons_iff.mp resolved.symm with ⟨first, written, split, rfl, _⟩
      rcases pathSegments_eq_cons split with ⟨tail, whole, ends⟩
      have unnamed := scheme?_cleaned inside
      rw [whole, scheme?_append_stop (stops_segments ends), Option.map_eq_none_iff] at unnamed
      exact named (scheme?_encodedSegment unnamed)

/-- Encoding keeps a target inside the site, however many passes it takes, unless the path that its
first pass leaves leads to another one. Only a target with dot segments, or with blanks before the
slash of its path, has such a path. -/
theorem encode_isInside_iff (raw : String) (inside : IsInside (cleaned raw.toList)) :
    (IsInside (encode raw).toList ↔ ¬ Exposes raw.toList) ∧
      (Exposes raw.toList → HasDots raw.toList ∨ LosesSlash raw.toList) := by
  refine ⟨?_, hasDots_or_losesSlash inside⟩
  rw [isInside_iff, encode, String.toList_ofList, isAbsolute_encodeChars_iff inside]

theorem encode_isInside_iff_dotted :
    IsInside (cleaned "/%2e//host".toList) ∧ ¬ IsInside (encode "/%2e//host").toList ∧
      Exposes "/%2e//host".toList ∧ HasDots "/%2e//host".toList := by
  have inside : IsInside (cleaned "/%2e//host".toList) := by decide +kernel
  have outside : ¬ IsInside (encode "/%2e//host").toList := by decide +kernel
  rcases encode_isInside_iff "/%2e//host" inside with ⟨exactly, causes⟩
  have exposes : Exposes "/%2e//host".toList := not_not.mp (mt exactly.mpr outside)
  refine ⟨inside, outside, exposes, (causes exposes).resolve_right fun loses => ?_⟩
  exact loses.2 rfl

/-- Without its dot segment, this path begins with an empty one. -/
theorem encode_dots_leaves_site :
    ¬ ∀ raw : String, IsInside (cleaned raw.toList) → IsInside (encode raw).toList := by
  intro stays
  have outside : ¬ IsInside (encode "/.//host/a").toList := by decide +kernel
  exact outside (stays "/.//host/a" (by decide +kernel))

example : encode "/.//host/a" = "//host/a" ∧
    encode "./javascript:alert(1)" = "javascript:alert(1)" ∧ encode " /a:b" = "a:b" := by
  decide +kernel

end MarkupExport.Link
