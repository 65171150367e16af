import MarkupExport.Proofs.Url.Authority

/-!
What follows a scheme other than `file` is read back from its text: an authority with its path, or
a path alone, which may be a text without structure. What has been read is written so that it is
read as the same URL.
-/

namespace MarkupExport.Url

/-! ## Paths -/

section Paths

variable {kind : SchemeKind} {segments : List Path.Segment} {query fragment : Option (List Char)}

theorem path_cons (first : Path.Segment) (others : List Path.Segment) (rest : List Char) :
    (first :: others).flatMap ('/' :: ·) ++ rest =
      '/' :: (first ++ others.flatMap ('/' :: ·) ++ rest) := by
  rw [List.flatMap_cons]
  rfl

theorem isVisible_of_isClean {segment : Path.Segment} (clean : Path.IsClean kind segment) :
    ∀ char ∈ segment, IsVisible char :=
  fun char member => isVisible_of_keeps (by decide) (clean char member).1

theorem isVisible_segments (clean : ∀ segment ∈ segments, Path.IsClean kind segment) :
    ∀ char ∈ segments.flatMap ('/' :: ·), IsVisible char := by
  intro char member
  rcases List.mem_flatMap.mp member with ⟨segment, inPath, inSegment⟩
  rcases List.mem_cons.mp inSegment with rfl | inside
  · decide
  · exact isVisible_of_isClean (clean segment inPath) char inside

theorem endsAuthority_path :
    ∀ char ∈ (segments.flatMap ('/' :: ·) ++ tailText query fragment).head?,
      char ∈ ['/', '?', '#'] := by
  cases segments with
  | nil =>
      intro char head
      have ends := Path.endsPath_iff.mp (endsPath_tailText char head)
      exact List.mem_cons_of_mem '/' (by simpa using ends)
  | cons first others =>
      rintro _ ⟨⟩
      decide

/-- Every path but one after a scheme that takes nothing for granted has a segment. -/
theorem readPath_plain (other : kind ≠ .file) (chars : List Char) :
    (∀ segment ∈ (readPath kind chars).1, Path.IsPlain kind segment) ∧
      (kind = .special → (readPath kind chars).1 ≠ []) ∧ (readPath kind chars).2 <:+ chars := by
  have bare : ∀ segment ∈ [[]], Path.IsPlain kind segment :=
    List.forall_mem_singleton.mpr (Path.isPlain_nil kind)
  rw [readPath.eq_def]
  split
  · split
    · next isOther =>
      refine ⟨List.forall_mem_nil _, fun special => ?_, List.suffix_refl _⟩
      rw [special] at isOther
      cases isOther
    · exact ⟨bare, fun _ => List.cons_ne_nil _ _, List.suffix_refl _⟩
  · next char rest =>
    split
    · next isOther =>
      refine ⟨List.forall_mem_nil _, fun special => ?_, List.suffix_refl _⟩
      rw [special] at isOther
      cases isOther.1
    · dsimp only
      refine ⟨(Path.read_plain other _).1, fun _ => (Path.read_plain other _).2, ?_⟩
      rw [Path.read_rest]
      refine (List.dropWhile_suffix _).trans ?_
      split
      · exact List.suffix_cons _ _
      · exact List.suffix_refl _

/-- Segments are read up to the query and fragment that follow them. -/
theorem read_path {first : Path.Segment} {others : List Path.Segment} (other : kind ≠ .file)
    (plain : ∀ segment ∈ first :: others, Path.IsPlain kind segment) :
    Path.read kind [] (first ++ others.flatMap ('/' :: ·) ++ tailText query fragment) =
      (first :: others, false, tailText query fragment) :=
  Path.read_segments other plain endsPath_tailText

theorem readPath_again (other : kind ≠ .file)
    (plain : ∀ segment ∈ segments, Path.IsPlain kind segment)
    (rooted : kind = .special → segments ≠ []) :
    readPath kind (segments.flatMap ('/' :: ·) ++ tailText query fragment) =
      (segments, tailText query fragment) := by
  cases segments with
  | cons first others =>
      rw [path_cons, readPath, if_neg (by simp), if_pos (.inr rfl), read_path other plain]
  | nil =>
      have isOther : kind = .other := by
        cases kind with
        | file => exact absurd rfl other
        | special => exact absurd rfl (rooted rfl)
        | other => rfl
      rw [List.flatMap_nil, List.nil_append, readPath.eq_def]
      split
      · next empty => rw [if_pos isOther, empty]
      · next char rest equal =>
        have ends := endsPath_tailText char (by rw [equal]; rfl)
        rw [if_pos ⟨isOther, Path.endsPath_iff.mp ends⟩]

end Paths

/-! ## After an authority -/

section AfterAuthority

variable {scheme chars : List Char} {url : Url}

theorem readFromAuthority_eq (scheme chars : List Char) :
    readFromAuthority scheme chars = (readAuthority scheme chars).map fun (authority, rest) =>
      let (segments, rest) := readPath (.ofScheme scheme) rest
      let (query, fragment) := readTail (.ofScheme scheme) rest
      { scheme, authority := some authority, path := .segments segments, query, fragment } := by
  rw [readFromAuthority]
  cases readAuthority scheme chars <;> rfl

/-- A URL with an authority. -/
inductive HasAuthority (scheme : List Char) : Url → Prop
  | intro {authority : UrlAuthority} {segments : List Path.Segment}
      {query fragment : Option (List Char)} (isAuthority : IsAuthority scheme authority)
      (plain : ∀ segment ∈ segments, Path.IsPlain (.ofScheme scheme) segment)
      (rooted : SchemeKind.ofScheme scheme = .special → segments ≠ [])
      (isTail : IsTail (.ofScheme scheme) query fragment) :
      HasAuthority scheme
        { scheme, authority := some authority, path := .segments segments, query, fragment }

theorem readFromAuthority_ok (other : SchemeKind.ofScheme scheme ≠ .file)
    (read : readFromAuthority scheme chars = .ok url) : HasAuthority scheme url ∧
      ∀ char ∈ tailText url.query url.fragment, char ∈ Text.Percent.marks ∨ char ∈ chars := by
  rw [readFromAuthority_eq] at read
  cases found : readAuthority scheme chars with
  | error error => rw [found] at read; cases read
  | ok pair =>
      rcases pair with ⟨authority, rest⟩
      rw [found] at read
      cases read
      rcases readAuthority_ok found with ⟨isAuthority, inChars⟩
      rcases readPath_plain other rest with ⟨plain, rooted, inRest⟩
      refine ⟨.intro isAuthority plain rooted (isTail_readTail _ _), fun char member => ?_⟩
      exact (mem_tailText_readTail member).imp_right fun left => inChars.subset (inRest.subset left)

theorem HasAuthority.isVisible (hasAuthority : HasAuthority scheme url) :
    ∀ char ∈ url.afterScheme, IsVisible char := by
  rcases hasAuthority with ⟨isAuthority, plain, rooted, isTail⟩
  rw [afterScheme_eq]
  refine List.forall_mem_append.mpr ⟨?_, List.forall_mem_append.mpr ⟨?_, isTail.isVisible⟩⟩
  · exact List.forall_mem_cons.mpr ⟨by decide, List.forall_mem_cons.mpr ⟨by decide,
      fun char member => (isAuthority.char member).1⟩⟩
  · exact isVisible_segments fun segment member => (plain segment member).1

/-- A URL with an authority is read back after two slashes. -/
theorem HasAuthority.again (hasAuthority : HasAuthority scheme url)
    (other : SchemeKind.ofScheme scheme ≠ .file) :
    ∃ after, url.afterScheme = '/' :: '/' :: after ∧
      readFromAuthority scheme after = .ok url ∧
        (SchemeKind.ofScheme scheme = .special →
          after.dropWhile SchemeKind.special.isSlash = after) := by
  rcases hasAuthority with @⟨authority, segments, query, fragment, isAuthority, plain, rooted,
    isTail⟩
  refine ⟨authority.text ++ (segments.flatMap ('/' :: ·) ++ tailText query fragment), ?_, ?_, ?_⟩
  · rw [afterScheme_eq]
    rfl
  · rw [readFromAuthority_eq, readAuthority_again isAuthority endsAuthority_path]
    dsimp only [Except.map]
    rw [readPath_again other plain rooted]
    dsimp only
    rw [readTail_tailText isTail]
  · intro special
    have named : authority.text ≠ [] := by
      rw [text_authority]
      exact List.append_ne_nil_of_left_ne_nil
        (List.append_ne_nil_of_right_ne_nil _ (isAuthority.named special)) _
    rcases List.exists_cons_of_ne_nil named with ⟨first, others, text⟩
    have free := (isAuthority.char (text ▸ List.mem_cons_self)).2
    simp only [List.mem_cons, List.not_mem_nil, or_false, not_or] at free
    have noSlash := isSlash_special free.1 free.2.1
    rw [text, List.cons_append, List.dropWhile_cons, noSlash]
    rfl

end AfterAuthority

/-! ## Schemes that take nothing for granted -/

section Other

variable {scheme chars rest : List Char} {url : Url}

/-- A URL of such a scheme. -/
inductive IsOther (scheme : List Char) : Url → Prop
  | authority {url : Url} (hasAuthority : HasAuthority scheme url) : IsOther scheme url
  | segments {first : Path.Segment} {others : List Path.Segment}
      {query fragment : Option (List Char)}
      (plain : ∀ segment ∈ first :: others, Path.IsPlain .other segment)
      (isTail : IsTail .other query fragment) :
      IsOther scheme
        { scheme, authority := none, path := .segments (first :: others), query, fragment }
  | text {value : List Char} {query fragment : Option (List Char)}
      (keeps : ∀ char ∈ value, Text.Percent.Keeps (Text.Percent.controlsAnd []) char)
      (whole : ∀ char ∈ value, Path.endsPath char = false)
      (rootless : ∀ rest, value ≠ '/' :: rest) (isTail : IsTail .other query fragment)
      (last : ∀ char ∈ (value ++ tailText query fragment).getLast?, IsVisible char) :
      IsOther scheme { scheme, authority := none, path := .text value, query, fragment }

theorem readOther_rooted (single : ∀ after, rest ≠ '/' :: after) :
    readOther scheme ('/' :: rest) = .ok
      { scheme, authority := none, path := .segments (Path.read .other [] rest).1
        query := (readTail .other (Path.read .other [] rest).2.2).1
        fragment := (readTail .other (Path.read .other [] rest).2.2).2 } := by
  rw [readOther.eq_def]
  split
  · next after equal => exact absurd (List.cons.inj equal).2 (single after)
  · next equal =>
    cases equal
    rfl
  · next rootless => exact absurd rfl (rootless _)

theorem readOther_rootless (rootless : ∀ rest, chars ≠ '/' :: rest) :
    readOther scheme chars = .ok
      { scheme, authority := none, path := .text (Path.readText chars).1
        query := (readTail .other (Path.readText chars).2).1
        fragment := (readTail .other (Path.readText chars).2).2 } := by
  rw [readOther.eq_def]
  split
  · exact absurd rfl (rootless _)
  · exact absurd rfl (rootless _)
  · rfl

theorem readText_eq (chars : List Char) : Path.readText chars =
    (Text.Percent.encode (Text.Percent.controlsAnd [])
        (chars.takeWhile fun char => !Path.endsPath char),
      chars.dropWhile fun char => !Path.endsPath char) := by
  have test : (fun char => char ≠ '?' && char ≠ '#') = fun char => !Path.endsPath char := by
    funext char
    simp [Path.endsPath]
  rw [Path.readText, List.span_eq_takeWhile_dropWhile, test]

theorem readOther_segments {segments : List Path.Segment} {query fragment : Option (List Char)}
    (single : ∀ after, rest ≠ '/' :: after)
    (read : Path.read .other [] rest = (segments, false, tailText query fragment))
    (isTail : IsTail .other query fragment) :
    readOther scheme ('/' :: rest) =
      .ok { scheme, authority := none, path := .segments segments, query, fragment } := by
  rw [readOther_rooted single, read, readTail_tailText isTail]

theorem readText_rootless (rootless : ∀ rest, chars ≠ '/' :: rest) :
    ∀ rest, (Path.readText chars).1 ≠ '/' :: rest := by
  intro rest equal
  rw [readText_eq] at equal
  dsimp only at equal
  cases chars with
  | nil => cases equal
  | cons char chars =>
      have notSlash : char ≠ '/' := fun slash => rootless chars (slash ▸ rfl)
      rw [List.takeWhile_cons] at equal
      split at equal
      · rcases Text.Percent.mem_marks_or_eq_of_encode equal with mark | same
        · exact absurd mark (by decide)
        · exact notSlash same.symm
      · cases equal

theorem isVisible_getLast?_readText (last : ∀ char ∈ chars.getLast?, IsVisible char) :
    ∀ char ∈ ((Path.readText chars).1 ++ tailText (readTail .other (Path.readText chars).2).1
      (readTail .other (Path.readText chars).2).2).getLast?, IsVisible char := by
  rw [readText_eq]
  dsimp only
  cases left : chars.dropWhile fun char => !Path.endsPath char with
  | nil =>
      have whole := List.takeWhile_append_dropWhile (p := fun char => !Path.endsPath char)
        (l := chars)
      have none : tailText (readTail .other []).1 (readTail .other []).2 = [] := rfl
      rw [left, List.append_nil] at whole
      rw [whole, none, List.append_nil]
      exact isVisible_getLast?_encode last
  | cons char rest =>
      have ends := List.head?_dropWhile_not (fun char => !Path.endsPath char) chars
      rw [left] at ends
      have written := tailText_readTail_ne_nil .other rest
        (show Path.endsPath char = true by simpa using ends)
      rw [getLast?_append_of_ne_nil written]
      exact fun final last => (isTail_readTail _ _).isVisible final (List.mem_of_getLast? last)

/-- A text is read without structure. -/
theorem isOther_text (last : ∀ char ∈ chars.getLast?, IsVisible char)
    (rootless : ∀ rest, chars ≠ '/' :: rest) :
    IsOther scheme
      { scheme, authority := none, path := .text (Path.readText chars).1
        query := (readTail .other (Path.readText chars).2).1
        fragment := (readTail .other (Path.readText chars).2).2 } := by
  refine .text (fun char member => ?_) (fun char member => ?_) (readText_rootless rootless)
    (isTail_readTail _ _) (isVisible_getLast?_readText last)
  · rw [readText_eq] at member
    exact Text.Percent.keeps_of_mem_encode (by decide) member
  · have marks : ∀ mark ∈ Text.Percent.marks, Path.endsPath mark = false :=
      Text.forall_mem_of_all (by decide)
    rw [readText_eq] at member
    rcases Text.Percent.mem_encode member with mark | ⟨inside, _⟩
    · exact marks char mark
    · have continues := List.all_eq_true.mp List.all_takeWhile char inside
      simpa using continues

theorem readOther_ok (isOther : SchemeKind.ofScheme scheme = .other)
    (last : ∀ char ∈ chars.getLast?, IsVisible char) (read : readOther scheme chars = .ok url) :
    IsOther scheme url := by
  by_cases rooted : ∃ rest, chars = '/' :: rest
  · rcases rooted with ⟨rest, rfl⟩
    by_cases double : ∃ after, rest = '/' :: after
    · rcases double with ⟨after, rfl⟩
      exact .authority (readFromAuthority_ok (by rw [isOther]; decide) read).1
    · rw [readOther_rooted fun after equal => double ⟨after, equal⟩] at read
      rw [← Except.ok.inj read]
      have plain := Path.read_plain (show SchemeKind.other ≠ .file by decide) rest
      rcases List.exists_cons_of_ne_nil plain.2 with ⟨first, others, segments⟩
      rw [segments] at plain ⊢
      exact .segments plain.1 (isTail_readTail _ _)
  · have rootless : ∀ rest, chars ≠ '/' :: rest := fun rest equal => rooted ⟨rest, equal⟩
    rw [readOther_rootless rootless] at read
    exact Except.ok.inj read ▸ isOther_text last rootless

theorem IsOther.printed (isOther : IsOther scheme url) :
    (∀ char ∈ url.afterScheme, 0x20 ≤ char.toNat) ∧
      ∀ char ∈ url.afterScheme.getLast?, IsVisible char := by
  have ofVisible {chars : List Char} (visible : ∀ char ∈ chars, IsVisible char) :
      (∀ char ∈ chars, 0x20 ≤ char.toNat) ∧ ∀ char ∈ chars.getLast?, IsVisible char :=
    ⟨fun char member => Nat.le_of_lt (visible char member),
      fun char last => visible char (List.mem_of_getLast? last)⟩
  cases isOther with
  | authority hasAuthority => exact ofVisible hasAuthority.isVisible
  | @segments first others query fragment plain isTail =>
      apply ofVisible
      rw [afterScheme_eq]
      refine List.forall_mem_append.mpr ⟨?_, List.forall_mem_append.mpr ⟨?_, isTail.isVisible⟩⟩
      · rw [beforePath.eq_def]
        split
        · next equal => cases equal
        · exact Text.forall_mem_of_all (by decide)
        · exact nofun
      · exact isVisible_segments fun segment member => (plain segment member).1
  | @text value query fragment keeps whole rootless isTail last =>
      rw [afterScheme_eq]
      refine ⟨List.forall_mem_append.mpr ⟨nofun,
        List.forall_mem_append.mpr ⟨fun char member => ?_, fun char member => ?_⟩⟩, last⟩
      · exact (Text.Percent.keeps_controlsAnd_iff.mp (keeps char member)).1
      · exact Nat.le_of_lt (isTail.isVisible char member)

theorem IsOther.again (isOther : IsOther scheme url)
    (kind : SchemeKind.ofScheme scheme = .other) :
    readOther scheme (url.afterScheme) = .ok url := by
  cases isOther with
  | authority hasAuthority =>
      rcases hasAuthority.again (by rw [kind]; decide) with ⟨after, written, again, _⟩
      rw [written]
      exact again
  | @segments first others query fragment plain isTail =>
      have read : Path.read .other []
          (first ++ others.flatMap ('/' :: ·) ++ tailText query fragment) =
            (first :: others, false, tailText query fragment) :=
        read_path (by decide) plain
      rw [afterScheme_eq]
      dsimp only [UrlPath.chars]
      rw [List.flatMap_cons]
      cases first with
      | cons char first =>
          have noSlash := ((plain _ List.mem_cons_self).1 char List.mem_cons_self).2
          refine readOther_segments (fun after equal => ?_) read isTail
          rw [(List.cons.inj equal).1] at noSlash
          cases noSlash
      | nil =>
          cases others with
          | nil =>
              refine readOther_segments (fun after equal => ?_) read isTail
              have slash : (tailText query fragment).head? = some '/' := congrArg List.head? equal
              exact absurd (endsPath_tailText '/' slash) (by decide)
          | cons second others =>
              -- The dot keeps the empty segment from being read as a host.
              exact readOther_segments nofun read isTail
  | @text value query fragment keeps whole rootless isTail last =>
      have span : (value ++ tailText query fragment).span (fun char => !Path.endsPath char) =
          (value, tailText query fragment) :=
        span_append (fun char member => by rw [whole char member]; rfl)
          (fun char head => by rw [endsPath_tailText char head]; rfl)
      have read : Path.readText (value ++ tailText query fragment) =
          (value, tailText query fragment) := by
        rw [List.span_eq_takeWhile_dropWhile, Prod.mk.injEq] at span
        rw [readText_eq, span.1, span.2, Text.Percent.encode_eq_self keeps]
      rw [afterScheme_eq, beforePath, List.nil_append]
      dsimp only [UrlPath.chars]
      rw [readOther_rootless, read, readTail_tailText isTail]
      intro rest equal
      cases value with
      | nil =>
          have ends := endsPath_tailText '/' (by rw [← List.nil_append (tailText ..), equal]; rfl)
          exact absurd ends (by decide)
      | cons char value =>
          rw [List.cons_append] at equal
          exact rootless value ((List.cons.inj equal).1 ▸ rfl)

end Other

end MarkupExport.Url
