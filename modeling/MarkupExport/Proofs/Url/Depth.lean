import MarkupExport.Proofs.Url.Cleaned
import MarkupExport.Proofs.Url.Reread

/-!
How deep paths are. Each segment that is read has a slash of its own, in front of the path or in it;
dot segments take back what has been read and add nothing. So no slash is gained by reading, and a
path that is as deep as it is written has lost no segment: it still begins with the first one.
-/

namespace MarkupExport.Url

namespace Path

/-- Segments, last one first, with at most this many added to them. If there are as many more, then
none has been taken back. -/
structure DeepensBy (depth : Nat) (before after : List Segment) : Prop where
  length_le : after.length ≤ before.length + depth
  suffix : after.length = before.length + depth → before <:+ after

namespace DeepensBy

variable {depth further : Nat} {before between after kept ending : List Segment}

theorem trans (first : DeepensBy depth before between) (second : DeepensBy further between after) :
    DeepensBy (depth + further) before after where
  length_le := by
    have firstBound := first.length_le
    have secondBound := second.length_le
    omega
  suffix deep := by
    have firstBound := first.length_le
    have secondBound := second.length_le
    exact (first.suffix (by omega)).trans (second.suffix (by omega))

theorem of_suffix (inBefore : kept <:+ before) (short : ending.length ≤ depth) :
    DeepensBy depth before (ending ++ kept) where
  length_le := by
    have bound := inBefore.length_le
    simp only [List.length_append]
    omega
  suffix deep := by
    have bound := inBefore.length_le
    rw [List.length_append] at deep
    rw [← inBefore.eq_of_length (by omega)]
    exact List.suffix_append ending kept

theorem push (segment : Segment) : DeepensBy 1 before (segment :: before) :=
  @of_suffix 1 before before [segment] (List.suffix_refl _) (Nat.le_refl 1)

end DeepensBy

variable {kind : SchemeKind} {char : Char} {chars rest : List Char}

/-- How many slashes separate the segments of a path. -/
def slashes (kind : SchemeKind) (chars : List Char) : Nat :=
  (chars.takeWhile fun char => !endsPath char).countP kind.isSlash

theorem slashes_of_ends (ends : char = '?' ∨ char = '#') : slashes kind (char :: rest) = 0 := by
  simp [slashes, endsPath_iff.mpr ends]

theorem slashes_cons (continues : ¬ (char = '?' ∨ char = '#')) :
    slashes kind (char :: rest) = slashes kind rest + if kind.isSlash char then 1 else 0 := by
  have inside : endsPath char = false := Bool.eq_false_iff.mpr (mt endsPath_iff.mp continues)
  rw [slashes, List.takeWhile_cons_of_pos (by simp [inside]), List.countP_cons]
  rfl

theorem isSlash_of_isIgnored (ignored : isIgnored char = true) : ¬ kind.isSlash char = true := by
  intro slash
  obtain rfl | ⟨rfl, _⟩ := isSlash_iff.mp slash <;> cases ignored

namespace Reader

variable {reader closed : Reader} {last : Bool}

theorem Closes.deepensBy (closes : Closes kind last reader closed) :
    DeepensBy 1 reader.complete closed.complete := by
  have short : (if last then [[]] else [] : List Segment).length ≤ 1 := by
    cases last <;> simp
  cases closes with
  | literal | plain => exact .push _
  | double => exact .of_suffix (shorten_suffix _) short
  | single => exact .of_suffix (List.suffix_refl _) short
  | drive _ first =>
      rw [first]
      exact .push _

/-- Each slash completes a segment, and so does the end. -/
theorem deepensBy_read (other : kind ≠ .file) (uncut : reader.isCut = false) (chars : List Char) :
    DeepensBy (slashes kind chars + 1) reader.complete (read kind reader chars).1.complete := by
  fun_induction read kind reader chars with
  | case1 reader => exact (closes_close kind true reader).deepensBy
  | case2 reader char rest ends =>
      rw [slashes_of_ends ends]
      exact (closes_close kind true reader).deepensBy
  | case3 reader char rest continues ignored induction =>
      rw [skip_of_ne_file other] at induction ⊢
      rw [slashes_cons continues, if_neg (isSlash_of_isIgnored ignored)]
      exact induction uncut
  | case4 reader char rest continues kept slash induction =>
      have closes := closes_close kind false reader
      rw [slashes_cons continues, if_pos slash, Nat.add_comm (slashes kind rest)]
      exact closes.deepensBy.trans (induction closes.flags.1)
  | case5 reader char rest continues kept ordinary induction =>
      rw [push_of_uncut uncut] at induction ⊢
      rw [slashes_cons continues, if_neg ordinary]
      exact induction uncut

/-- If a path is as deep as it is written, then what is read of its first segment stays in front. -/
theorem getLast?_read (other : kind ≠ .file) (first : reader.complete = [])
    (uncut : reader.isCut = false) (unliteral : reader.isLiteral = false)
    (separated : 0 < slashes kind chars)
    (deep : (read kind reader chars).1.complete.length = slashes kind chars + 1) :
    ∃ segment ∈ (read kind reader chars).1.complete.getLast?,
      reader.current.reverse <+: segment := by
  fun_induction read kind reader chars with
  | case1 reader => cases separated
  | case2 reader char rest ends =>
      rw [slashes_of_ends ends] at separated
      cases separated
  | case3 reader char rest continues ignored induction =>
      rw [slashes_cons continues, if_neg (isSlash_of_isIgnored ignored)] at separated deep
      rw [skip_of_ne_file other] at induction deep ⊢
      exact induction first uncut unliteral separated deep
  | case4 reader char rest continues kept slash induction =>
      have closes := closes_close kind false reader
      have deepens := deepensBy_read other closes.flags.1 rest
      generalize reader.close kind false = closed at closes deepens deep ⊢
      rw [slashes_cons continues, if_pos slash] at deep
      have one : closed.complete.length = 1 := by
        have atMost := closes.deepensBy.length_le
        have bound := deepens.length_le
        rw [first] at atMost
        simp only [List.length_nil] at atMost
        omega
      obtain ⟨others, whole⟩ := deepens.suffix (by omega)
      -- Dots would have left no segment.
      cases closes with
      | literal literal => rw [unliteral] at literal; cases literal
      | double => rw [first] at one; cases one
      | single => rw [first] at one; cases one
      | drive isFile => exact absurd isFile other
      | plain =>
          rw [← whole, first, List.getLast?_concat]
          exact ⟨_, rfl, List.prefix_refl _⟩
  | case5 reader char rest continues kept ordinary induction =>
      rw [slashes_cons continues, if_neg ordinary] at separated deep
      rw [push_of_uncut uncut] at induction deep ⊢
      obtain ⟨segment, found, begins⟩ := induction first uncut unliteral separated deep
      refine ⟨segment, found, List.IsPrefix.trans ?_ begins⟩
      simp

end Reader

section Whole

theorem length_read_le (other : kind ≠ .file) (chars : List Char) :
    (read kind [] chars).1.length ≤ slashes kind chars + 1 := by
  have bound := (@Reader.deepensBy_read kind { complete := [] } other rfl chars).length_le
  rw [read]
  dsimp only
  rw [Reader.segments_of_ne_file other, List.length_reverse]
  simpa using bound

/-- A path that is as deep as it is written begins with an empty segment only if no character has
been written in front of the first slash. -/
theorem head?_read_ne_nil (other : kind ≠ .file) (keeps : Text.Percent.Keeps pathSet char)
    (ordinary : ¬ kind.isSlash char = true) (separated : 0 < slashes kind (char :: rest))
    (deep : (read kind [] (char :: rest)).1.length = slashes kind (char :: rest) + 1) :
    (read kind [] (char :: rest)).1.head? ≠ some [] := by
  have continues : ¬ (char = '?' ∨ char = '#') := by
    intro ends
    rw [← endsPath_iff, endsPath_of_keeps keeps] at ends
    cases ends
  have unskipped : ¬ isIgnored char = true := by
    rw [isIgnored_of_le (keeps_pathSet_iff.mp keeps).1]
    exact Bool.false_ne_true
  have pushed : Reader.read kind {} (char :: rest) =
      Reader.read kind { current := [char] } rest := by
    rw [Reader.read, if_neg continues, if_neg unskipped, if_neg ordinary, Reader.push_of_uncut rfl,
      Text.Percent.char_eq_self keeps]
    rfl
  rw [slashes_cons continues, if_neg ordinary] at separated deep
  rw [read, pushed] at deep ⊢
  dsimp only at deep ⊢
  rw [Reader.segments_of_ne_file other] at deep ⊢
  rw [List.length_reverse] at deep
  obtain ⟨segment, found, begins⟩ := Reader.getLast?_read other rfl rfl rfl separated deep
  rw [List.head?_reverse, Option.mem_def.mp found]
  rintro ⟨⟩
  simp at begins

end Whole

end Path

/-! ## Slashes -/

theorem respects_slash {reserved : Text.Percent.Set} (kept : Text.Percent.Keeps reserved '/') :
    Respects (· == '/') (Text.Percent.char reserved) :=
  respects_percent (fun char slash => by rwa [beq_iff_eq.mp slash])
    (Text.forall_mem_of_all (by decide))

theorem count_encode {reserved : Text.Percent.Set} (kept : Text.Percent.Keeps reserved '/')
    (chars : List Char) : (Text.Percent.encode reserved chars).count '/' = chars.count '/' :=
  (respects_slash kept).countP chars

theorem count_readFragment (chars : List Char) :
    (readFragment chars).count '/' = chars.count '/' := by
  rw [readFragment, count_encode (by decide), count_withoutIgnored (by decide)]

section Count

variable {kind : SchemeKind} {scheme chars : List Char} {segments : List Path.Segment}
  {url : Url}

theorem count_readQuery (chars : List Char) :
    (Text.Percent.encode (querySet kind) (withoutIgnored chars)).count '/' = chars.count '/' := by
  rw [count_encode (by cases kind <;> decide), count_withoutIgnored (by decide)]

theorem count_tailText_le (kind : SchemeKind) (chars : List Char) :
    (tailText (readTail kind chars).1 (readTail kind chars).2).count '/' ≤ chars.count '/' := by
  rw [readTail.eq_def]
  split
  · next rest =>
    have read := count_readFragment rest
    simp [tailText, read]
  · next rest =>
    rw [List.span_eq_takeWhile_dropWhile]
    dsimp only
    have whole : (rest.takeWhile (· ≠ '#')).count '/' + (rest.dropWhile (· ≠ '#')).count '/' =
        rest.count '/' := by
      rw [← List.count_append, List.takeWhile_append_dropWhile]
    generalize rest.takeWhile (· ≠ '#') = query, rest.dropWhile (· ≠ '#') = after at whole
    have inQuery := @count_readQuery kind query
    cases after with
    | nil =>
        rw [List.count_nil] at whole
        simp [tailText, inQuery]
        omega
    | cons mark after =>
        have inFragment := count_readFragment after
        have added := List.count_le_count_cons (a := '/') (b := mark) (l := after)
        simp [tailText, inQuery, inFragment]
        omega
  · exact Nat.zero_le _

theorem count_segments (plain : ∀ segment ∈ segments, Path.IsPlain kind segment) :
    (segments.flatMap ('/' :: ·)).count '/' = segments.length := by
  induction segments with
  | nil => rfl
  | cons segment segments induction =>
      obtain ⟨first, others⟩ := List.forall_mem_cons.mp plain
      have free : '/' ∉ segment := by
        intro member
        have noSlash := (first.1 '/' member).2
        rw [Path.Reader.isSlash_slash] at noSlash
        cases noSlash
      rw [List.flatMap_cons, List.count_append, induction others, List.count_cons_self,
        List.count_eq_zero_of_not_mem free, List.length_cons, Nat.zero_add, Nat.add_comm]

/-- The path that is read from a text, with the query and the fragment that follow it. -/
def pathText (kind : SchemeKind) (chars : List Char) : List Char :=
  (Path.read kind [] chars).1.flatMap ('/' :: ·) ++
    tailText (readTail kind (Path.read kind [] chars).2.2).1
      (readTail kind (Path.read kind [] chars).2.2).2

theorem slashes_eq_count (unescaped : '\\' ∉ chars) :
    Path.slashes kind chars = (chars.takeWhile fun char => !Path.endsPath char).count '/' := by
  apply List.countP_congr
  intro char member
  have other : char ≠ '\\' := by
    rintro rfl
    exact unescaped ((List.takeWhile_prefix _).subset member)
  simp [isSlash_iff, other]

/-- Reading a path writes at most one slash that has not been written, the one in front of it. If it
does, then the path is as deep as it has been written. -/
theorem count_pathText (other : kind ≠ .file) (unescaped : '\\' ∉ chars) :
    (pathText kind chars).count '/' ≤ chars.count '/' + 1 ∧
      ((pathText kind chars).count '/' = chars.count '/' + 1 →
        (Path.read kind [] chars).1.length = Path.slashes kind chars + 1) := by
  have inPath := count_segments (Path.read_plain other chars).1
  have inTail := count_tailText_le kind (Path.read kind [] chars).2.2
  have depth := Path.length_read_le other chars
  have whole : chars.count '/' = Path.slashes kind chars +
      (Path.read kind [] chars).2.2.count '/' := by
    rw [slashes_eq_count unescaped, Path.read_rest, ← List.count_append,
      List.takeWhile_append_dropWhile]
  rw [pathText, List.count_append, inPath]
  omega

/-- After an authority, too, a path is read from behind its slash. -/
theorem exists_readPath (chars : List Char) :
    ∃ inner, inner <:+ chars ∧ readPath .special chars =
      ((Path.read .special [] inner).1, (Path.read .special [] inner).2.2) := by
  rw [readPath.eq_def]
  split
  · exact ⟨[], List.suffix_refl _, rfl⟩
  · next char rest =>
    rw [if_neg (by simp)]
    dsimp only
    split
    · exact ⟨rest, List.suffix_cons _ _, rfl⟩
    · exact ⟨char :: rest, List.suffix_refl _, rfl⟩

theorem count_fromPath_le (special : SchemeKind.ofScheme scheme = .special)
    (unescaped : '\\' ∉ chars) (read : readFromAuthority scheme chars = .ok url) :
    url.fromPath.count '/' ≤ chars.count '/' + 1 := by
  rw [readFromAuthority_eq] at read
  cases found : readAuthority scheme chars with
  | error error => rw [found] at read; cases read
  | ok pair =>
      obtain ⟨authority, rest⟩ := pair
      obtain ⟨inner, inRest, path⟩ := exists_readPath rest
      have inChars := inRest.trans (readAuthority_ok found).2
      rw [found, Except.map, special] at read
      dsimp only at read
      rw [path] at read
      have text : url.fromPath = pathText .special inner := by
        rw [fromPath_eq, ← Except.ok.inj read]
        rfl
      have free : '\\' ∉ inner := fun member => unescaped (inChars.subset member)
      have fewer := inChars.sublist.count_le '/'
      have bound := (count_pathText (show SchemeKind.special ≠ .file by decide) free).1
      rw [text]
      omega

end Count

end MarkupExport.Url
