import MarkupExport.Link.Target
import MarkupExport.Proofs.Url.Cleaned
import MarkupExport.Proofs.Url.RoundTrip

/-!
References are resolved to a path, a query and a fragment that are written without a backslash, and
a text of this kind is resolved to itself.
-/

namespace MarkupExport.Link

open Url

variable {raw text chars : List Char} {url : Url}

/-- Path, query and fragment as they are read back, without a backslash. -/
inductive IsRooted : List Char → Prop
  | intro {first : Path.Segment} {others : List Path.Segment} {query fragment : Option (List Char)}
      (plain : ∀ segment ∈ first :: others, Path.IsPlain .special segment)
      (isTail : IsTail .special query fragment) (unescaped : '\\' ∉ tailText query fragment) :
      IsRooted ('/' :: (first ++ others.flatMap ('/' :: ·) ++ tailText query fragment))

/-- The same, where the first slash may be missing. -/
def IsReference (text : List Char) : Prop :=
  IsRooted text ∨ IsRooted ('/' :: text)

/-! ## Resolution -/

theorem isRooted_fromPath {segments : List Path.Segment} (rooted : url.path = .segments segments)
    (nonempty : segments ≠ []) (plain : ∀ segment ∈ segments, Path.IsPlain .special segment)
    (isTail : IsTail .special url.query url.fragment)
    (unescaped : '\\' ∉ tailText url.query url.fragment) : IsRooted url.fromPath := by
  rcases List.exists_cons_of_ne_nil nonempty with ⟨first, others, rfl⟩
  rw [fromPath_eq, rooted]
  exact .intro plain isTail unescaped

theorem not_mem_tailText_readTail (unescaped : '\\' ∉ chars) :
    '\\' ∉ tailText (readTail .special chars).1 (readTail .special chars).2 := by
  intro member
  rcases mem_tailText_readTail member with mark | inChars
  · exact absurd mark (by decide)
  · exact unescaped inChars

theorem not_mem_withoutIgnored_trimmed (unescaped : '\\' ∉ chars) :
    '\\' ∉ withoutIgnored (trimmed chars) := by
  intro member
  have inTrimmed := (Text.dropRightWhile_prefix _ _).subset (List.mem_filter.mp member).1
  exact unescaped ((List.dropWhile_suffix _).subset inTrimmed)

/-- A path that is read from the root. -/
def follow (chars : List Char) : Url :=
  { base with
    path := .segments (Path.read .special [] chars).1
    query := (readTail .special (Path.read .special [] chars).2.2).1
    fragment := (readTail .special (Path.read .special [] chars).2.2).2 }

theorem isRooted_follow (unescaped : '\\' ∉ chars) : IsRooted (follow chars).fromPath := by
  have read := Path.read_plain (show SchemeKind.special ≠ .file by decide) chars
  refine isRooted_fromPath rfl read.2 read.1 (isTail_readTail _ _) ?_
  apply not_mem_tailText_readTail
  rw [Path.read_rest]
  exact fun member => unescaped ((List.dropWhile_suffix _).subset member)

theorem isRooted_readFromAuthority (unescaped : '\\' ∉ chars)
    (read : readFromAuthority base.scheme chars = .ok url) : IsRooted url.fromPath := by
  have special : SchemeKind.ofScheme base.scheme = .special := by decide
  rcases readFromAuthority_ok (by rw [special]; decide) read with ⟨hasAuthority, inChars⟩
  have free : '\\' ∉ tailText url.query url.fragment := by
    intro member
    rcases inChars _ member with mark | inChars
    · exact absurd mark (by decide)
    · exact unescaped inChars
  rcases hasAuthority with ⟨_, plain, rooted, isTail⟩
  rw [special] at plain isTail
  exact isRooted_fromPath rfl (rooted special) plain isTail free

theorem isRooted_resolve (unescaped : '\\' ∉ raw) (resolved : base.resolve raw = .ok url) :
    IsRooted url.fromPath := by
  have free := not_mem_withoutIgnored_trimmed unescaped
  have plain : ∀ segment ∈ [[]], Path.IsPlain .special segment :=
    List.forall_mem_singleton.mpr (Path.isPlain_nil .special)
  have root {query fragment : Option (List Char)} (chars : List Char)
      (isTail : readTail .special chars = (query, fragment)) (free : '\\' ∉ chars) :
      IsRooted (fromPath { base with query, fragment }) := by
    have tail := isTail_readTail .special chars
    have unescaped := not_mem_tailText_readTail free
    rw [isTail] at tail unescaped
    exact isRooted_fromPath rfl (List.cons_ne_nil _ _) plain tail unescaped
  rw [resolve] at resolved
  dsimp only at resolved
  generalize withoutIgnored (trimmed raw) = chars at free resolved
  split at resolved
  · cases resolved
    exact root [] rfl nofun
  · cases resolved
    exact root _ rfl free
  · cases resolved
    exact root _ rfl free
  next first rest noFragment noQuery =>
  have inRest : '\\' ∉ rest := fun member => free (List.mem_cons_of_mem _ member)
  split at resolved
  · split at resolved
    · next second after =>
      have inAfter : '\\' ∉ after := fun member => inRest (List.mem_cons_of_mem _ member)
      split at resolved
      · exact isRooted_readFromAuthority inAfter resolved
      split at resolved
      · refine isRooted_readFromAuthority (fun member => inAfter ?_) resolved
        exact (List.dropWhile_suffix _).subset member
      · rw [← Except.ok.inj resolved]
        exact isRooted_follow inRest
    · rw [← Except.ok.inj resolved]
      exact isRooted_follow nofun
  · rw [← Except.ok.inj resolved]
    exact isRooted_follow free

/-! ## References -/

theorem not_mem_flatMap_escapeBackslash (raw : List Char) :
    '\\' ∉ raw.flatMap escapeBackslash := by
  intro member
  rcases List.mem_flatMap.mp member with ⟨char, _, inEscape⟩
  rw [escapeBackslash.eq_def] at inEscape
  split at inEscape
  · exact absurd inEscape (by decide)
  · next other => exact other (List.mem_singleton.mp inEscape).symm

theorem isReference_withoutAddedSlash (rooted : IsRooted text) :
    IsReference (withoutAddedSlash raw text) := by
  rw [withoutAddedSlash.eq_def]
  split
  · exact .inl rooted
  · exact .inr rooted
  · exact .inl rooted

theorem encodeReference_cases (raw : List Char) :
    encodeReference raw = encodeUnparsed raw ∨ IsReference (encodeReference raw) := by
  rw [encodeReference]
  split
  · next url resolved =>
    exact .inr (isReference_withoutAddedSlash
      (isRooted_resolve (not_mem_flatMap_escapeBackslash raw) resolved))
  · exact .inl rfl

/-! ## References again -/

theorem IsRooted.slash (rooted : IsRooted text) : ∃ rest, text = '/' :: rest := by
  cases rooted
  exact ⟨_, rfl⟩

theorem IsRooted.isVisible (rooted : IsRooted text) : ∀ char ∈ text, IsVisible char := by
  rcases rooted with ⟨plain, isTail, _⟩
  have inPath := isVisible_segments fun segment member => (plain segment member).1
  rw [List.flatMap_cons] at inPath
  exact List.forall_mem_append.mpr ⟨inPath, isTail.isVisible⟩

theorem IsRooted.unescaped (rooted : IsRooted text) : '\\' ∉ text := by
  rcases rooted with @⟨first, others, query, fragment, plain, _, inTail⟩
  have inPath : '\\' ∉ (first :: others).flatMap ('/' :: ·) := by
    intro member
    rcases List.mem_flatMap.mp member with ⟨segment, inPath, inSegment⟩
    rcases List.mem_cons.mp inSegment with slash | inside
    · exact absurd slash (by decide)
    · exact absurd ((plain segment inPath).1 '\\' inside).2 (by decide)
  rw [List.flatMap_cons] at inPath
  intro (member : '\\' ∈ '/' :: first ++ others.flatMap ('/' :: ·) ++ tailText query fragment)
  rcases List.mem_append.mp member with member | member
  · exact inPath member
  · exact inTail member

theorem IsReference.isVisible (isReference : IsReference text) :
    ∀ char ∈ text, IsVisible char := by
  rcases isReference with rooted | rooted
  · exact rooted.isVisible
  · exact (List.forall_mem_cons.mp rooted.isVisible).2

theorem IsReference.unescaped (isReference : IsReference text) : '\\' ∉ text := by
  rcases isReference with rooted | rooted
  · exact rooted.unescaped
  · exact fun member => rooted.unescaped (List.mem_cons_of_mem _ member)

theorem trimmed_of_isVisible (visible : ∀ char ∈ text, IsVisible char) : trimmed text = text :=
  trimmed_eq_self (fun char head => visible char (List.mem_of_head? head))
    (fun char last => visible char (List.mem_of_getLast? last))

theorem escapeBackslash_of_ne {char : Char} (other : char ≠ '\\') :
    escapeBackslash char = [char] := by
  rw [escapeBackslash.eq_def]
  split
  · exact absurd rfl other
  · rfl

theorem flatMap_escapeBackslash (unescaped : '\\' ∉ text) :
    text.flatMap escapeBackslash = text := by
  induction text with
  | nil => rfl
  | cons char text induction =>
      rw [List.mem_cons, not_or] at unescaped
      rw [List.flatMap_cons, escapeBackslash_of_ne fun equal => unescaped.1 equal.symm,
        induction unescaped.2, List.singleton_append]

theorem fromPath_follow (rooted : IsRooted ('/' :: text)) :
    (follow text).fromPath = '/' :: text := by
  generalize written : '/' :: text = whole at rooted
  rcases rooted with @⟨first, others, query, fragment, plain, isTail, _⟩
  rw [(List.cons.inj written).2, fromPath_eq, follow, read_path (by decide) plain]
  dsimp only [UrlPath.chars]
  rw [readTail_tailText isTail, List.flatMap_cons]
  rfl

theorem cleaned_of_isVisible (visible : ∀ char ∈ text, IsVisible char) : cleaned text = text := by
  rw [cleaned, trimmed_of_isVisible visible,
    withoutIgnored_eq_self fun char member => Nat.le_of_lt (visible char member)]

/-- The path of a reference without the slash in front of it. -/
def withoutSlash : List Char → List Char
  | '/' :: rest => rest
  | chars => chars

theorem withoutSlash_of_head? (rootless : chars.head? ≠ some '/') :
    withoutSlash chars = chars := by
  rw [withoutSlash.eq_def]
  split
  · exact absurd rfl rootless
  · rfl

/-- A reference to no other host is resolved to a path from the root, whether or not it begins with
a slash. -/
theorem resolve_single (unescaped : '\\' ∉ cleaned raw)
    (single : ¬ ['/', '/'].isPrefixOf (cleaned raw) = true) :
    base.resolve raw = .ok (follow (withoutSlash (cleaned raw))) := by
  rw [resolve, ← cleaned]
  dsimp only
  generalize cleaned raw = chars at unescaped single
  split
  · rfl
  · rfl
  · rfl
  next first rest noFragment noQuery =>
  split
  · next slash =>
    have isSlash : first = '/' := by
      rcases isSlash_iff.mp slash with isSlash | ⟨rfl, _⟩
      · exact isSlash
      · exact absurd List.mem_cons_self unescaped
    subst isSlash
    cases rest with
    | nil => rfl
    | cons second after =>
        have other : second ≠ '/' := by
          rintro rfl
          exact single rfl
        have noSlash : SchemeKind.special.isSlash second = false :=
          isSlash_special other fun backslash => unescaped (backslash ▸ by simp)
        dsimp only
        rw [if_neg fun both => other both.2, noSlash]
        rfl
  · next other =>
    rw [withoutSlash_of_head?]
    · rfl
    · rintro ⟨⟩
      exact other Path.Reader.isSlash_slash

/-- A path that begins with an empty segment still begins with a slash without its first one. -/
theorem IsRooted.second (rooted : IsRooted ('/' :: '/' :: text)) : IsRooted ('/' :: text) := by
  generalize whole : '/' :: '/' :: text = written at rooted
  rcases rooted with @⟨first, others, query, fragment, plain, isTail, unescaped⟩
  have equal := (List.cons.inj whole).2
  cases first with
  | nil =>
      cases others with
      | nil =>
          have begins : (tailText query fragment).head? = some '/' := congrArg List.head? equal.symm
          exact absurd (endsPath_tailText '/' begins) (by decide)
      | cons second others =>
          rw [equal]
          exact .intro (List.forall_mem_cons.mp plain).2 isTail unescaped
  | cons char first =>
      cases (List.cons.inj equal).1
      exact absurd ((plain _ List.mem_cons_self).1 '/' List.mem_cons_self).2 (by decide)

theorem withoutAddedSlash_of_head? (rootless : raw.head? ≠ some '/') (text : List Char) :
    withoutAddedSlash raw ('/' :: text) = text := by
  rw [withoutAddedSlash.eq_def]
  split
  · exact absurd rfl rootless
  · next equal => exact (List.cons.inj equal).2.symm
  · next other => exact absurd rfl (other _)

theorem withoutAddedSlash_of_slash (rooted : raw.head? = some '/') (text : List Char) :
    withoutAddedSlash raw text = text := by
  obtain ⟨rest, rfl⟩ := List.head?_eq_some_iff.mp rooted
  rfl

theorem encodeReference_again (isReference : IsReference text)
    (single : ¬ ['/', '/'].isPrefixOf text = true) : encodeReference text = text := by
  have resolved : base.resolve text = .ok (follow (withoutSlash text)) := by
    have resolved := @resolve_single text
    rw [cleaned_of_isVisible isReference.isVisible] at resolved
    exact resolved isReference.unescaped single
  rw [encodeReference, flatMap_escapeBackslash isReference.unescaped, resolved]
  dsimp only
  by_cases slash : text.head? = some '/'
  · rcases List.head?_eq_some_iff.mp slash with ⟨rest, rfl⟩
    exact fromPath_follow (isReference.elim id IsRooted.second)
  · have rooted : IsRooted ('/' :: text) := isReference.resolve_left fun rooted => by
      rcases rooted.slash with ⟨rest, rfl⟩
      exact slash rfl
    rw [withoutSlash_of_head? slash, fromPath_follow rooted, withoutAddedSlash_of_head? slash]

end MarkupExport.Link
