import MarkupExport.Proofs.Link.Reference

/-!
Paths as they are written in references. A backslash is escaped before a reference is resolved, and
what a path cannot hold is encoded while it is read. Neither makes or hides a slash, the scheme in
front of a segment, or what is cut off and skipped; so without dot segments a path is read one
segment after the other.
-/

namespace MarkupExport.Link

open Url

variable {chars : List Char}

/-! ## Escaping -/

theorem respects_escapeBackslash {test : Char → Bool}
    (fails : ∀ char ∈ ['\\', '%', '5', 'C'], test char = false) :
    Respects test escapeBackslash where
  passing char passes := by
    rw [escapeBackslash.eq_def]
    split
    · rw [fails '\\' (by simp)] at passes
      cases passes
    · rfl
  failing char failed := by
    rw [escapeBackslash.eq_def]
    split
    · exact ⟨List.cons_ne_nil _ _,
        fun letter member => fails letter (List.mem_cons_of_mem _ member)⟩
    · exact ⟨List.cons_ne_nil _ _, List.forall_mem_singleton.mpr failed⟩

theorem cleaned_escaped (raw : List Char) :
    cleaned (raw.flatMap escapeBackslash) = (cleaned raw).flatMap escapeBackslash :=
  cleaned_flatMap (respects_escapeBackslash (Text.forall_mem_of_all (by decide)))
    (respects_escapeBackslash (Text.forall_mem_of_all (by decide))) raw

theorem escapesNoDot_escapeBackslash : Text.Percent.EscapesNoDot escapeBackslash := by
  intro char
  rw [escapeBackslash.eq_def]
  split
  · exact .inr ⟨_, _, _, rfl, by decide⟩
  · exact .inl rfl

theorem escapesWithPercent_escapeBackslash : Text.Percent.EscapesWithPercent escapeBackslash :=
  escapesNoDot_escapeBackslash.escapesWithPercent

theorem isPrefixOf_escaped
    (slashes : ['/', '/'].isPrefixOf (chars.flatMap escapeBackslash) = true) :
    ['/', '/'].isPrefixOf chars = true := by
  rcases List.isPrefixOf_iff_prefix.mp slashes with ⟨rest, equal⟩
  rcases escapesWithPercent_escapeBackslash.front (by decide) equal.symm with ⟨back, rfl, _⟩
  rfl

theorem withoutSlash_escaped (chars : List Char) :
    withoutSlash (chars.flatMap escapeBackslash) =
      (withoutSlash chars).flatMap escapeBackslash := by
  by_cases rooted : chars.head? = some '/'
  · rcases List.head?_eq_some_iff.mp rooted with ⟨rest, rfl⟩
    rfl
  · rw [withoutSlash_of_head? rooted, withoutSlash_of_head?]
    intro slash
    rcases List.head?_eq_some_iff.mp slash with ⟨rest, equal⟩
    rcases escapesWithPercent_escapeBackslash.front (show '%' ∉ ['/'] by decide) equal with
      ⟨back, rfl, _⟩
    exact rooted rfl

theorem flatMap_escaped (segments : List (List Char)) :
    (segments.flatMap ('/' :: ·)).flatMap escapeBackslash =
      (segments.map (·.flatMap escapeBackslash)).flatMap ('/' :: ·) := by
  induction segments with
  | nil => rfl
  | cons segment segments induction =>
      rw [List.flatMap_cons, List.flatMap_append, induction]
      rfl

theorem endsPath_escaped (ends : ∀ char ∈ chars.head?, Path.endsPath char = true) :
    ∀ char ∈ (chars.flatMap escapeBackslash).head?, Path.endsPath char = true := by
  cases chars with
  | nil => exact nofun
  | cons char chars =>
      have mark := ends char rfl
      have other : char ≠ '\\' := by
        rintro rfl
        cases mark
      rw [List.flatMap_cons, escapeBackslash_of_ne other]
      rintro _ ⟨⟩
      exact mark

/-! ## Dot segments -/

section Dots

open Text.Percent

variable {write : Char → List Char} {segment rest : List Char}

theorem exists_of_flatMap_eq_escape (escapes : EscapesNoDot write) {low : Char}
    (isLow : low ∈ ['e', 'E']) (equal : segment.flatMap write = '%' :: '2' :: low :: rest) :
    ∃ back, segment = '%' :: '2' :: low :: back ∧ back.flatMap write = rest := by
  cases segment with
  | nil => cases equal
  | cons value segment =>
      rw [List.flatMap_cons] at equal
      rcases escapes value with itself | ⟨high, other, more, escaped, noDot⟩
      · rw [itself, List.singleton_append, List.cons.injEq] at equal
        rcases equal with ⟨rfl, equal⟩
        have notPercent : ∀ low ∈ ['e', 'E'], '%' ∉ ['2', low] :=
          Text.forall_mem_of_all (by decide)
        have following : segment.flatMap write = ['2', low] ++ rest := equal
        rcases escapes.escapesWithPercent.front (notPercent low isLow) following with
          ⟨back, rfl, after⟩
        exact ⟨back, rfl, after⟩
      · rw [escaped] at equal
        simp only [List.cons_append, List.cons.injEq] at equal
        rcases equal with ⟨_, rfl, rfl, _⟩
        exact absurd isLow (noDot rfl)

/-- A dot that a text begins with once it is escaped has been written in it. -/
theorem exists_of_flatMap_eq_dot (escapes : EscapesNoDot write) {dot : Path.Segment}
    (isDot : dot ∈ Path.dots) (equal : segment.flatMap write = dot ++ rest) :
    ∃ back, segment = dot ++ back ∧ back.flatMap write = rest := by
  have spelled : dot = ['.'] ∨ dot = ['%', '2', 'e'] ∨ dot = ['%', '2', 'E'] := by
    simpa [Path.dots] using isDot
  rcases spelled with rfl | rfl | rfl
  · exact escapes.escapesWithPercent.front (by decide) equal
  · exact exists_of_flatMap_eq_escape escapes (by decide) equal
  · exact exists_of_flatMap_eq_escape escapes (by decide) equal

/-- Escaping does not make a dot segment of another one. -/
theorem isDots_of_flatMap (escapes : EscapesNoDot write)
    (escaped : Path.IsDots (segment.flatMap write)) : Path.IsDots segment := by
  have whole {dot : Path.Segment} {segment : List Char} (isDot : dot ∈ Path.dots)
      (equal : segment.flatMap write = dot) : segment = dot := by
    rw [← List.append_nil dot] at equal
    rcases exists_of_flatMap_eq_dot escapes isDot equal with ⟨back, rfl, after⟩
    rw [escapes.escapesWithPercent.flatMap_eq_nil_iff.mp after, List.append_nil]
  rcases escaped with single | double
  · have isDot := List.contains_iff_mem.mp single
    exact .inl (by rwa [← whole isDot rfl] at single)
  · rcases List.mem_flatMap.mp (List.contains_iff_mem.mp double) with ⟨first, isFirst, inSecond⟩
    rcases List.mem_map.mp inSecond with ⟨second, isSecond, equal⟩
    rcases exists_of_flatMap_eq_dot escapes isFirst equal.symm with ⟨back, rfl, after⟩
    rw [whole isSecond after, equal]
    exact .inr double

end Dots

/-! ## Segments -/

section Segments

variable {segment first : List Char} {others : List (List Char)}

/-- The segments of a path as they are written. -/
def pathSegments (chars : List Char) : List (List Char) :=
  (chars.takeWhile fun char => !Path.endsPath char).splitOn '/'

/-- A segment as it is read. -/
def encodedSegment (segment : List Char) : Path.Segment :=
  Text.Percent.encode pathSet (segment.flatMap escapeBackslash)

theorem intercalate_slash (first : List Char) (others : List (List Char)) :
    ['/'].intercalate (first :: others) = first ++ others.flatMap ('/' :: ·) := by
  induction others generalizing first with
  | nil => simp
  | cons next others induction =>
      rw [List.intercalate_cons_cons, induction, List.flatMap_cons, List.append_assoc]
      rfl

/-- A text is made of the segments of its path and what ends the path. -/
theorem pathSegments_eq_cons (split : pathSegments chars = first :: others) :
    ∃ tail, chars = first ++ (others.flatMap ('/' :: ·) ++ tail) ∧
      ∀ char ∈ tail.head?, Path.endsPath char = true := by
  have joined : chars.takeWhile (fun char => !Path.endsPath char) =
      first ++ others.flatMap ('/' :: ·) := by
    rw [← intercalate_slash, ← split, pathSegments, List.intercalate_splitOn]
  refine ⟨chars.dropWhile fun char => !Path.endsPath char, ?_, fun char begins => ?_⟩
  · rw [← List.append_assoc, ← joined, List.takeWhile_append_dropWhile]
  · have stops := List.head?_dropWhile_not (fun char => !Path.endsPath char) chars
    rw [Option.mem_def.mp begins] at stops
    simpa using stops

theorem mem_pathSegments {segment : List Char} (inside : segment ∈ pathSegments chars) {char : Char}
    (member : char ∈ segment) : char ∈ chars ∧ char ≠ '/' ∧ Path.endsPath char = false := by
  rcases Text.mem_of_mem_splitOn inside member with ⟨inPath, other⟩
  refine ⟨(List.takeWhile_prefix _).subset inPath, other, ?_⟩
  simpa using List.all_eq_true.mp List.all_takeWhile char inPath

theorem isWritten_escaped (kept : ∀ char ∈ chars, isIgnored char = false) {segment : List Char}
    (inside : segment ∈ pathSegments chars) :
    Path.IsWritten .special (segment.flatMap escapeBackslash) := by
  have escape : ∀ char ∈ ['%', '5', 'C'], Path.endsPath char = false ∧ isIgnored char = false ∧
      SchemeKind.special.isSlash char = false := Text.forall_mem_of_all (by decide)
  intro char member
  rcases List.mem_flatMap.mp member with ⟨letter, written, inEscape⟩
  by_cases backslash : letter = '\\'
  · subst backslash
    exact escape char inEscape
  · rw [escapeBackslash_of_ne backslash, List.mem_singleton] at inEscape
    subst inEscape
    rcases mem_pathSegments inside written with ⟨inChars, other, continues⟩
    exact ⟨continues, kept char inChars, isSlash_special other backslash⟩

theorem isDots_of_encodedSegment (dots : Path.IsDots (encodedSegment segment)) :
    Path.IsDots segment := by
  have inPath : Text.Percent.Keeps pathSet '.' := by decide
  exact isDots_of_flatMap escapesNoDot_escapeBackslash
    (isDots_of_flatMap (Text.Percent.escapesNoDot_char inPath) dots)

/-- Where no segment is a dot segment, each is read by itself. -/
theorem read_escaped (kept : ∀ char ∈ chars, isIgnored char = false)
    (undotted : ∀ segment ∈ pathSegments chars, ¬ Path.IsDots segment) :
    (Path.read .special [] (chars.flatMap escapeBackslash)).1 =
      (pathSegments chars).map encodedSegment := by
  have nonempty : pathSegments chars ≠ [] := List.splitOn_ne_nil '/' _
  rcases List.exists_cons_of_ne_nil nonempty with ⟨first, others, split⟩
  rcases pathSegments_eq_cons split with ⟨tail, whole, ends⟩
  have written (segment : List Char) (member : segment ∈ first :: others) :
      Path.IsWritten .special (segment.flatMap escapeBackslash) ∧
        ¬ Path.IsDots (encodedSegment segment) := by
    rw [← split] at member
    exact ⟨isWritten_escaped kept member,
      fun dots => undotted segment member (isDots_of_encodedSegment dots)⟩
  have writtenAll : ∀ segment ∈ first.flatMap escapeBackslash ::
      others.map (·.flatMap escapeBackslash), Path.IsWritten .special segment ∧
        ¬ Path.IsDots (Text.Percent.encode pathSet segment) :=
    List.forall_mem_cons.mpr ⟨written first List.mem_cons_self, List.forall_mem_map.mpr
      fun segment member => written segment (List.mem_cons_of_mem _ member)⟩
  have read := Path.read_written_segments (by decide) writtenAll (endsPath_escaped ends)
  rw [split, whole, List.flatMap_append, List.flatMap_append, flatMap_escaped, ← List.append_assoc,
    read, List.map_cons, List.map_cons, List.map_map]
  rfl

theorem encodedSegment_eq_nil_iff {segment : List Char} :
    encodedSegment segment = [] ↔ segment = [] :=
  Text.Percent.encode_eq_nil_iff.trans escapesWithPercent_escapeBackslash.flatMap_eq_nil_iff

/-- An empty segment that another one follows is the one before a first slash. -/
theorem exists_slash_of_empty {second : Path.Segment} {others : List Path.Segment}
    (read : (pathSegments chars).map encodedSegment = [] :: second :: others) :
    ∃ rest, chars = '/' :: rest := by
  rcases List.map_eq_cons_iff.mp read with ⟨first, written, split, empty, following⟩
  rcases List.map_eq_cons_iff.mp following with ⟨next, more, rfl, _, _⟩
  rcases pathSegments_eq_cons split with ⟨tail, whole, _⟩
  rw [encodedSegment_eq_nil_iff.mp empty] at whole
  exact ⟨_, whole⟩

theorem stops_segments (ends : ∀ char ∈ tail.head?, Path.endsPath char = true) :
    ∀ char ∈ (others.flatMap ('/' :: ·) ++ tail).head?, char ∈ ['/', '?', '#'] := by
  cases others with
  | nil =>
      intro char first
      rcases Path.endsPath_iff.mp (ends char first) with rfl | rfl <;> decide
  | cons =>
      rintro _ ⟨⟩
      decide

/-- The scheme that a segment begins with once it is encoded has been written in it. -/
theorem scheme?_encodedSegment {segment : List Char} (unnamed : scheme? segment = none) :
    scheme? (encodedSegment segment) = none := by
  by_contra named
  rcases Option.ne_none_iff_exists'.mp named with ⟨⟨scheme, rest⟩, found⟩
  rcases scheme?_ok found with ⟨written, spelled, isScheme, _⟩
  have unskipped : withoutIgnored written = written :=
    withoutIgnored_eq_self fun char member => by
      have inSegment : char ∈ encodedSegment segment := by
        rw [spelled]
        exact List.mem_append_left _ member
      have keeps := Text.Percent.keeps_of_mem_encode (show pathSet.KeepsMarks by decide) inSegment
      exact (Path.keeps_pathSet_iff.mp keeps).1
  rw [unskipped] at isScheme
  have free : '%' ∉ written ++ [':'] := by
    intro member
    rcases List.mem_append.mp member with inScheme | colon
    · exact absurd (isScheme.mem '%' inScheme) (by decide)
    · exact absurd colon (by decide)
  rw [List.append_cons] at spelled
  rcases Text.Percent.escapesWithPercent_char.front free spelled with ⟨back, escaped, _⟩
  rcases escapesWithPercent_escapeBackslash.front free escaped with ⟨after, rfl, _⟩
  rw [← List.append_cons, scheme?_append isScheme] at unnamed
  cases unnamed

end Segments

end MarkupExport.Link
