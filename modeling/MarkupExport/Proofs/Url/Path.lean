import MarkupExport.Proofs.Text.Percent
import MarkupExport.Url.Path

/-!
Paths are read back from their segments. What holds of a reader at the start and is kept by every
character, every skipped character and every completed segment holds at the end; in this way every
segment that was read is free of what would end it. A dot segment survives only behind a drive
letter that a skipped character has set apart.
-/

namespace MarkupExport.Url.Path

/-! ## Segments -/

/-- A segment of these characters is neither split nor encoded. -/
def IsClean (kind : SchemeKind) (segment : Segment) : Prop :=
  ∀ char ∈ segment, Text.Percent.Keeps pathSet char ∧ kind.isSlash char = false

def IsDots (segment : Segment) : Prop :=
  isSingleDot segment = true ∨ isDoubleDot segment = true

instance (segment : Segment) : Decidable (IsDots segment) :=
  inferInstanceAs (Decidable (_ ∨ _))

/-- A segment that is read again as it is. -/
def IsPlain (kind : SchemeKind) (segment : Segment) : Prop :=
  IsClean kind segment ∧ ¬ IsDots segment

/-- The first segment, the last one in reverse order, is a drive letter. -/
def BeginsWithDrive (reversed : List Segment) : Prop :=
  ∃ drive, reversed.getLast? = some drive ∧ isDriveLetter drive = true

/-- Whether a path ends before this character. -/
def endsPath (char : Char) : Bool :=
  char = '?' || char = '#'

theorem endsPath_iff {char : Char} : endsPath char = true ↔ char = '?' ∨ char = '#' := by
  rw [endsPath, Bool.or_eq_true, decide_eq_true_eq, decide_eq_true_eq]

theorem isPlain_nil (kind : SchemeKind) : IsPlain kind [] :=
  ⟨List.forall_mem_nil _, by decide⟩

theorem keeps_pathSet_iff {char : Char} :
    Text.Percent.Keeps pathSet char ↔ 0x20 ≤ char.toNat ∧ char.toNat < 0x7f ∧
      char ∉ [' ', '"', '<', '>', '`', '#', '?', '{', '}'] :=
  Text.Percent.keeps_controlsAnd_iff

theorem endsPath_of_keeps {char : Char} (keeps : Text.Percent.Keeps pathSet char) :
    endsPath char = false := by
  have free := (keeps_pathSet_iff.mp keeps).2.2
  simp only [List.mem_cons, List.not_mem_nil, or_false, not_or] at free
  simp [endsPath, free]

theorem isIgnored_of_le {char : Char} (visible : 0x20 ≤ char.toNat) : isIgnored char = false := by
  have ignored : ∀ char ∈ ['\t', '\n', '\r'], ¬ 0x20 ≤ char.toNat :=
    Text.forall_mem_of_all (by decide)
  rw [Bool.eq_false_iff]
  intro skipped
  exact ignored char (by simpa [isIgnored, or_assoc] using skipped) visible

/-- No character of the segment ends it or the path, or is skipped. -/
def IsWritten (kind : SchemeKind) (segment : List Char) : Prop :=
  ∀ char ∈ segment, endsPath char = false ∧ isIgnored char = false ∧ kind.isSlash char = false

theorem IsClean.isWritten {kind : SchemeKind} {segment : Segment} (clean : IsClean kind segment) :
    IsWritten kind segment := by
  intro char member
  rcases clean char member with ⟨keeps, ordinary⟩
  exact ⟨endsPath_of_keeps keeps, isIgnored_of_le (keeps_pathSet_iff.mp keeps).1, ordinary⟩

theorem IsClean.encode {kind : SchemeKind} {segment : Segment} (clean : IsClean kind segment) :
    Text.Percent.encode pathSet segment = segment :=
  Text.Percent.encode_eq_self fun char member => (clean char member).1

theorem beginsWithDrive_cons {segment : Segment} {reversed : List Segment}
    (begins : BeginsWithDrive reversed) : BeginsWithDrive (segment :: reversed) := by
  rcases begins with ⟨drive, last, isDrive⟩
  refine ⟨drive, ?_, isDrive⟩
  rw [List.getLast?_cons, last]
  rfl

theorem shorten_suffix (reversed : List Segment) : shorten reversed <:+ reversed := by
  rw [shorten.eq_def]
  split
  · exact List.suffix_refl _
  · split
    · exact List.suffix_refl _
    · exact List.suffix_cons _ _

theorem beginsWithDrive_shorten {reversed : List Segment} (begins : BeginsWithDrive reversed) :
    BeginsWithDrive (shorten reversed) := by
  rcases begins with ⟨drive, last, isDrive⟩
  rw [shorten.eq_def]
  split
  · cases last
  · next head earlier =>
    split
    · exact ⟨drive, last, isDrive⟩
    · next other =>
      cases earlier with
      | nil =>
          cases last
          exact absurd isDrive other
      | cons next earlier => exact ⟨drive, last, isDrive⟩

theorem isClean_colon {kind : SchemeKind} {segment : Segment} (clean : IsClean kind segment) :
    IsClean kind (segment.take 1 ++ [':']) := by
  have colon : Text.Percent.Keeps pathSet ':' ∧ kind.isSlash ':' = false := by
    cases kind <;> decide
  intro char member
  rcases List.mem_append.mp member with first | last
  · exact clean char (List.take_subset 1 segment first)
  · exact List.mem_singleton.mp last ▸ colon

theorem not_isDots_colon (segment : Segment) : ¬ IsDots (segment ++ [':']) := by
  have all : ∀ spelled ∈ dots ++ dots.flatMap (fun first => dots.map (first ++ ·)),
      spelled.getLast? ≠ some ':' := by decide
  intro isDots
  refine all (segment ++ [':']) ?_ List.getLast?_concat
  rcases isDots with single | double
  · exact List.mem_append_left _ (List.contains_iff_mem.mp single)
  · exact List.mem_append_right _ (List.contains_iff_mem.mp double)

namespace Reader

/-! ## Runs -/

section Run

variable {kind : SchemeKind} {motive : Reader → Prop} {chars : List Char}

theorem read_snd (reader : Reader) :
    (read kind reader chars).2 = chars.dropWhile (fun char => !endsPath char) := by
  fun_induction read kind reader chars with
  | case1 => rfl
  | case2 reader char rest ends =>
      have stops : endsPath char = true := endsPath_iff.mpr ends
      rw [List.dropWhile_cons, stops]
      rfl
  | case3 _ _ _ continues _ induction | case4 _ _ _ continues _ _ induction
  | case5 _ _ _ continues _ _ induction =>
      rw [induction, List.dropWhile_cons, if_pos (by simpa [endsPath] using continues)]

/-- What every step keeps holds before the last segment is completed. -/
theorem read_induct (kind : SchemeKind) (chars : List Char) (start : Reader) (first : motive start)
    (push : ∀ reader char, kind.isSlash char = false → motive reader →
      motive (reader.push char))
    (skip : ∀ reader, ∀ char ∈ chars, isIgnored char = true → motive reader →
      motive (reader.skip kind))
    (close : ∀ reader, motive reader → motive (reader.close kind false)) :
    ∃ last, motive last ∧ (read kind start chars).1 = last.close kind true := by
  fun_induction read kind start chars with
  | case1 reader => exact ⟨reader, first, rfl⟩
  | case2 reader char rest ends => exact ⟨reader, first, rfl⟩
  | case3 reader char rest continues ignored induction =>
      exact induction (skip reader char List.mem_cons_self ignored first)
        fun reader char member => skip reader char (List.mem_cons_of_mem _ member)
  | case4 reader char rest continues kept slash induction =>
      exact induction (close reader first)
        fun reader char member => skip reader char (List.mem_cons_of_mem _ member)
  | case5 reader char rest continues kept ordinary induction =>
      exact induction (push reader char (Bool.not_eq_true _ ▸ ordinary) first)
        fun reader char member => skip reader char (List.mem_cons_of_mem _ member)

end Run

/-! ## Completing a segment -/

section Close

variable {kind : SchemeKind} {last : Bool} {reader closed : Reader} {segment : Segment}

/-- What completing a segment makes of a reader. After the last segment, dots leave an empty one. -/
inductive Closes (kind : SchemeKind) (last : Bool) (reader : Reader) : Reader → Prop
  | literal (literal : reader.isLiteral = true) : Closes kind last reader
      { complete := reader.current.reverse :: reader.complete, hasDrive := reader.hasDrive }
  | double (dots : isDoubleDot reader.current.reverse = true) : Closes kind last reader
      { complete := (if last then [[]] else []) ++ shorten reader.complete
        hasDrive := reader.hasDrive }
  | single (dots : isSingleDot reader.current.reverse = true) : Closes kind last reader
      { complete := (if last then [[]] else []) ++ reader.complete, hasDrive := reader.hasDrive }
  | drive (isFile : kind = .file) (first : reader.complete = [])
      (drive : isDriveLetter reader.current.reverse = true) : Closes kind last reader
      { complete := [reader.current.reverse.take 1 ++ [':']], hasDrive := true }
  | plain (plain : ¬ IsDots reader.current.reverse) : Closes kind last reader
      { complete := reader.current.reverse :: reader.complete, hasDrive := reader.hasDrive }

theorem closes_close (kind : SchemeKind) (last : Bool) (reader : Reader) :
    Closes kind last reader (reader.close kind last) := by
  rw [close]
  split
  · next literal => exact .literal literal
  split
  · next dots => exact .double dots
  split
  · next dots => exact .single dots
  next notDouble notSingle =>
  split
  · next drive => exact .drive drive.1 drive.2.1 drive.2.2
  · exact .plain fun dots => dots.elim notSingle notDouble

theorem Closes.complete_ne_nil (closes : Closes kind true reader closed) :
    closed.complete ≠ [] := by
  cases closes <;> exact List.cons_ne_nil _ _

theorem Closes.hasDrive (closes : Closes kind last reader closed)
    (drive : reader.hasDrive = true) : closed.hasDrive = true := by
  cases closes with
  | drive => rfl
  | literal | double | single | plain => exact drive

theorem beginsWithDrive_ending {reversed : List Segment} (begins : BeginsWithDrive reversed) :
    BeginsWithDrive ((if last then [[]] else []) ++ reversed) := by
  cases last with
  | false => exact begins
  | true => exact beginsWithDrive_cons begins

theorem Closes.beginsWithDrive (closes : Closes kind last reader closed)
    (begins : BeginsWithDrive reader.complete) : BeginsWithDrive closed.complete := by
  cases closes with
  | literal | plain => exact beginsWithDrive_cons begins
  | double => exact beginsWithDrive_ending (beginsWithDrive_shorten begins)
  | single => exact beginsWithDrive_ending begins
  | drive _ first =>
      rcases begins with ⟨drive, found, _⟩
      rw [first] at found
      cases found

theorem Closes.flags (closes : Closes kind last reader closed) :
    closed.isCut = false ∧ closed.isLiteral = false ∧ closed.current = [] := by
  cases closes <;> exact ⟨rfl, rfl, rfl⟩

theorem Closes.mem (closes : Closes kind last reader closed) (member : segment ∈ closed.complete) :
    segment ∈ reader.complete ∨ segment = [] ∨
      segment = reader.current.reverse ∧ (reader.isLiteral = true ∨ ¬ IsDots segment) ∨
      isDriveLetter reader.current.reverse = true ∧
        segment = reader.current.reverse.take 1 ++ [':'] := by
  have ending : segment ∈ (if last then [[]] else [] : List Segment) → segment = [] := by
    cases last with
    | false => exact nofun
    | true => exact List.mem_singleton.mp
  cases closes with
  | literal literal =>
      rcases List.mem_cons.mp member with equal | before
      · exact .inr (.inr (.inl ⟨equal, .inl literal⟩))
      · exact .inl before
  | double =>
      rcases List.mem_append.mp member with empty | before
      · exact .inr (.inl (ending empty))
      · exact .inl ((shorten_suffix _).subset before)
  | single =>
      rcases List.mem_append.mp member with empty | before
      · exact .inr (.inl (ending empty))
      · exact .inl before
  | drive _ _ drive => exact .inr (.inr (.inr ⟨drive, List.mem_singleton.mp member⟩))
  | plain plain =>
      rcases List.mem_cons.mp member with equal | before
      · exact .inr (.inr (.inl ⟨equal, .inr (equal ▸ plain)⟩))
      · exact .inl before

end Close

/-! ## What is kept -/

section Kept

variable {kind : SchemeKind} {last : Bool} {reader closed : Reader} {char : Char}

theorem skip_of_ne_file (other : kind ≠ .file) : reader.skip kind = reader :=
  if_neg fun drive => other drive.1

theorem push_of_uncut (uncut : reader.isCut = false) :
    reader.push char =
      { reader with current := (Text.Percent.char pathSet char).reverse ++ reader.current } := by
  rw [push, uncut, if_neg Bool.false_ne_true]

/-- The segments are clean, and where a dot segment is among them, a drive letter is the first. -/
structure Sound (kind : SchemeKind) (reader : Reader) : Prop where
  complete : ∀ segment ∈ reader.complete, IsClean kind segment
  current : IsClean kind reader.current
  dots : (∀ segment ∈ reader.complete, ¬ IsDots segment) ∨
    kind = .file ∧ BeginsWithDrive reader.complete
  literal : reader.isLiteral = true → kind = .file ∧ BeginsWithDrive reader.complete
  cut : reader.isCut = true → kind = .file ∧ isDriveLetter reader.current.reverse = true

theorem Sound.start : Sound kind {} where
  complete := nofun
  current := nofun
  dots := .inl nofun
  literal := nofun
  cut := nofun

theorem Sound.reverse (sound : Sound kind reader) : IsClean kind reader.current.reverse :=
  fun char member => sound.current char (List.mem_reverse.mp member)

theorem isClean_char (ordinary : kind.isSlash char = false) :
    IsClean kind (Text.Percent.char pathSet char).reverse := by
  have marks : ∀ mark ∈ Text.Percent.marks,
      Text.Percent.Keeps pathSet mark ∧ kind.isSlash mark = false :=
    Text.forall_mem_of_all (by cases kind <;> decide)
  intro letter member
  rcases Text.Percent.mem_char (List.mem_reverse.mp member) with mark | ⟨rfl, keeps⟩
  · exact marks letter mark
  · exact ⟨keeps, ordinary⟩

theorem Sound.push (sound : Sound kind reader) (ordinary : kind.isSlash char = false) :
    Sound kind (reader.push char) := by
  rw [Reader.push]
  split
  · next cut =>
    rcases sound.cut cut with ⟨isFile, drive⟩
    have begins : BeginsWithDrive [reader.current.reverse] := ⟨_, rfl, drive⟩
    exact ⟨List.forall_mem_singleton.mpr sound.reverse, isClean_char ordinary,
      .inr ⟨isFile, begins⟩, fun _ => ⟨isFile, begins⟩, nofun⟩
  · next uncut =>
    refine ⟨sound.complete, ?_, sound.dots, sound.literal, fun cut => absurd cut uncut⟩
    exact List.forall_mem_append.mpr ⟨isClean_char ordinary, sound.current⟩

theorem Sound.skip (sound : Sound kind reader) : Sound kind (reader.skip kind) := by
  rw [Reader.skip]
  split
  · next drive =>
    exact ⟨sound.complete, sound.current, sound.dots, sound.literal,
      fun _ => ⟨drive.1, drive.2.2.1⟩⟩
  · exact sound

theorem Sound.close (sound : Sound kind reader) (closes : Closes kind last reader closed) :
    Sound kind closed := by
  rcases closes.flags with ⟨uncut, unliteral, empty⟩
  refine ⟨fun segment member => ?_, ?_, ?_, ?_, ?_⟩
  · rcases closes.mem member with before | rfl | ⟨rfl, _⟩ | ⟨drive, rfl⟩
    · exact sound.complete segment before
    · exact nofun
    · exact sound.reverse
    · exact isClean_colon sound.reverse
  · rw [empty]
    exact nofun
  · by_cases begins : kind = .file ∧ BeginsWithDrive reader.complete
    · exact .inr ⟨begins.1, closes.beginsWithDrive begins.2⟩
    · refine .inl fun segment member => ?_
      rcases closes.mem member with before | rfl | ⟨rfl, literal | plain⟩ | ⟨drive, rfl⟩
      · exact sound.dots.resolve_right begins segment before
      · decide
      · exact absurd (sound.literal literal) begins
      · exact plain
      · exact not_isDots_colon _
  · rw [unliteral]
    exact nofun
  · rw [uncut]
    exact nofun

/-- No drive letter has been set apart, and no segment is a dot segment. -/
structure Settled (reader : Reader) : Prop where
  uncut : reader.isCut = false
  unliteral : reader.isLiteral = false
  plain : ∀ segment ∈ reader.complete, ¬ IsDots segment

theorem Settled.start : Settled {} :=
  ⟨rfl, rfl, nofun⟩

theorem Settled.push (settled : Settled reader) : Settled (reader.push char) := by
  rw [push_of_uncut settled.uncut]
  exact ⟨settled.uncut, settled.unliteral, settled.plain⟩

theorem Settled.skip (settled : Settled reader) (other : kind ≠ .file) :
    Settled (reader.skip kind) := by
  rwa [skip_of_ne_file other]

theorem Settled.close (settled : Settled reader) (closes : Closes kind last reader closed) :
    Settled closed := by
  rcases closes.flags with ⟨uncut, unliteral, _⟩
  refine ⟨uncut, unliteral, fun segment member => ?_⟩
  rcases closes.mem member with before | rfl | ⟨rfl, literal | plain⟩ | ⟨drive, rfl⟩
  · exact settled.plain segment before
  · decide
  · rw [settled.unliteral] at literal
    cases literal
  · exact plain
  · exact not_isDots_colon _

end Kept

/-! ## Reading segments again -/

section Again

variable {kind : SchemeKind} {reader : Reader} {rest : List Char}

/-- A segment is read up to what ends it, and what a path cannot hold is encoded. -/
theorem read_written {segment : List Char} (uncut : reader.isCut = false)
    (written : IsWritten kind segment) :
    read kind reader (segment ++ rest) =
      read kind
        { reader with current := (Text.Percent.encode pathSet segment).reverse ++ reader.current }
        rest := by
  induction segment generalizing reader with
  | nil => rfl
  | cons char segment induction =>
      rcases List.forall_mem_cons.mp written with ⟨⟨continues, unskipped, ordinary⟩, others⟩
      have inside : ¬ (char = '?' ∨ char = '#') := by simpa [endsPath] using continues
      rw [List.cons_append, read, if_neg inside, unskipped, if_neg Bool.false_ne_true, ordinary,
        if_neg Bool.false_ne_true, push_of_uncut uncut]
      refine (@induction
        { reader with current := (Text.Percent.char pathSet char).reverse ++ reader.current } uncut
        others).trans ?_
      rw [Text.Percent.encode_cons, List.reverse_append, List.append_assoc]

theorem close_plain {last : Bool} (unliteral : reader.isLiteral = false)
    (plain : ¬ IsDots reader.current.reverse)
    (inner : kind = .file → reader.complete = [] → isDriveLetter reader.current.reverse = false) :
    reader.close kind last =
      { complete := reader.current.reverse :: reader.complete, hasDrive := reader.hasDrive } := by
  have noDrive : ¬ (kind = .file ∧ reader.complete = [] ∧
      isDriveLetter reader.current.reverse = true) := by
    rintro ⟨isFile, first, drive⟩
    rw [inner isFile first] at drive
    cases drive
  rw [close, if_neg (Bool.not_eq_true _ ▸ unliteral), if_neg fun dots => plain (.inr dots),
    if_neg fun dots => plain (.inl dots), if_neg noDrive]

theorem read_end (ends : ∀ char ∈ rest.head?, endsPath char = true) :
    read kind reader rest = (reader.close kind true, rest) := by
  cases rest with
  | nil => rw [read]
  | cons char rest =>
      have stops := endsPath_iff.mp (ends char rfl)
      rw [read, if_pos stops]

theorem isSlash_slash : kind.isSlash '/' = true := by
  cases kind <;> decide

theorem read_slash : read kind reader ('/' :: rest) = read kind (reader.close kind false) rest := by
  rw [read, if_neg (by decide), if_neg (by decide), isSlash_slash, if_pos rfl]

theorem read_written_segments {before : List Segment} {first : List Char}
    {others : List (List Char)} {hasDrive : Bool}
    (written : ∀ segment ∈ first :: others, IsWritten kind segment ∧
      ¬ IsDots (Text.Percent.encode pathSet segment))
    (inner : kind = .file → before = [] →
      isDriveLetter (Text.Percent.encode pathSet first) = false)
    (ends : ∀ char ∈ rest.head?, endsPath char = true) :
    read kind { complete := before, hasDrive } (first ++ others.flatMap ('/' :: ·) ++ rest) =
      ({ complete := ((first :: others).map (Text.Percent.encode pathSet)).reverse ++ before
         hasDrive }, rest) := by
  induction others generalizing before first with
  | nil =>
      rcases List.forall_mem_singleton.mp written with ⟨inside, undotted⟩
      rw [List.flatMap_nil, List.append_nil, read_written rfl inside, read_end ends,
        close_plain rfl]
      · simp
      · simpa using undotted
      · simpa using inner
  | cons next others induction =>
      rcases List.forall_mem_cons.mp written with ⟨⟨inside, undotted⟩, written⟩
      rw [List.flatMap_cons, List.append_assoc, read_written rfl inside, List.cons_append,
        List.cons_append, read_slash, close_plain rfl]
      · dsimp only
        rw [List.append_nil, List.reverse_reverse,
          induction written fun _ none => absurd none (List.cons_ne_nil _ _)]
        simp
      · simpa using undotted
      · simpa using inner

theorem read_segments {before : List Segment} {first : Segment} {others : List Segment}
    {hasDrive : Bool} (plain : ∀ segment ∈ first :: others, IsPlain kind segment)
    (inner : kind = .file → before = [] → isDriveLetter first = false)
    (ends : ∀ char ∈ rest.head?, endsPath char = true) :
    read kind { complete := before, hasDrive } (first ++ others.flatMap ('/' :: ·) ++ rest) =
      ({ complete := (first :: others).reverse ++ before, hasDrive }, rest) := by
  have same : ∀ segment ∈ first :: others, Text.Percent.encode pathSet segment = segment :=
    fun segment member => (plain segment member).1.encode
  have written (segment : Segment) (member : segment ∈ first :: others) :
      IsWritten kind segment ∧ ¬ IsDots (Text.Percent.encode pathSet segment) := by
    rw [same segment member]
    exact ⟨(plain segment member).1.isWritten, (plain segment member).2⟩
  have innerToo : kind = .file → before = [] →
      isDriveLetter (Text.Percent.encode pathSet first) = false := by
    rwa [same first List.mem_cons_self]
  rw [read_written_segments written innerToo ends, List.map_congr_left same, List.map_id']

end Again

theorem segments_of_ne_file {kind : SchemeKind} (other : kind ≠ .file) (reader : Reader) :
    reader.segments kind = reader.complete.reverse := by
  rw [segments, if_neg other]

theorem close_drive {reader : Reader} {last : Bool} (unliteral : reader.isLiteral = false)
    (first : reader.complete = []) (drive : isDriveLetter reader.current.reverse = true) :
    (reader.close .file last).hasDrive = true := by
  have undotted : ∀ spelled ∈ dots ++ dots.flatMap (fun first => dots.map (first ++ ·)),
      isDriveLetter spelled = false := by decide
  have notDouble : ¬ isDoubleDot reader.current.reverse = true := by
    intro double
    rw [undotted _ (List.mem_append_right _ (List.contains_iff_mem.mp double))] at drive
    cases drive
  have notSingle : ¬ isSingleDot reader.current.reverse = true := by
    intro single
    rw [undotted _ (List.mem_append_left _ (List.contains_iff_mem.mp single))] at drive
    cases drive
  rw [close, if_neg (Bool.not_eq_true _ ▸ unliteral), if_neg notDouble, if_neg notSingle,
    if_pos ⟨rfl, first, drive⟩]

theorem segments_file (reader : Reader) :
    reader.segments .file =
      if reader.complete.reverse.dropWhile List.isEmpty = [] then [[]]
      else reader.complete.reverse.dropWhile List.isEmpty := by
  rw [segments, if_pos rfl]
  cases reader.complete.reverse.dropWhile List.isEmpty <;> rfl

end Reader

/-! ## Whole paths -/

section Whole

variable {kind : SchemeKind} {chars rest : List Char} {first : Segment} {others : List Segment}

theorem read_rest (before : List Segment) :
    (read kind before chars).2.2 = chars.dropWhile (fun char => !endsPath char) :=
  Reader.read_snd _

theorem read_plain (other : kind ≠ .file) (chars : List Char) :
    (∀ segment ∈ (read kind [] chars).1, IsPlain kind segment) ∧ (read kind [] chars).1 ≠ [] := by
  rcases Reader.read_induct (motive := fun reader => reader.Sound kind ∧ reader.Settled) kind chars
    {} ⟨.start, .start⟩ (fun _ _ ordinary kept => ⟨kept.1.push ordinary, kept.2.push⟩)
    (fun _ _ _ _ kept => ⟨kept.1.skip, kept.2.skip other⟩)
    (fun _ kept => ⟨kept.1.close (Reader.closes_close ..), kept.2.close (Reader.closes_close ..)⟩)
    with ⟨last, ⟨sound, settled⟩, reached⟩
  have result : (read kind [] chars).1 = ((last.close kind true).complete).reverse := by
    rw [← reached]
    exact Reader.segments_of_ne_file other _
  rw [result]
  refine ⟨fun segment member => ?_, ?_⟩
  · have inside := List.mem_reverse.mp member
    exact ⟨(sound.close (Reader.closes_close ..)).complete segment inside,
      (settled.close (Reader.closes_close ..)).plain segment inside⟩
  · rw [Ne, List.reverse_eq_nil_iff]
    exact (Reader.closes_close ..).complete_ne_nil

/-- The segments of a file: no empty one comes first unless it is the only one, and dot segments
stand behind a drive letter. -/
structure IsFilePath (segments : List Segment) : Prop where
  clean : ∀ segment ∈ segments, IsClean .file segment
  nonempty : segments = [[]] ∨ ∃ first others, segments = first :: others ∧ first ≠ []
  dots : (∀ segment ∈ segments, ¬ IsDots segment) ∨
    ∃ drive others, segments = drive :: others ∧ isDriveLetter drive = true

theorem Reader.Sound.isFilePath {reader : Reader} (sound : reader.Sound .file) :
    IsFilePath (reader.segments .file) := by
  rw [Reader.segments_file]
  split
  · exact ⟨by simp [IsClean], .inl rfl, .inl (by decide)⟩
  next nonempty =>
  have inside (segment : Segment)
      (member : segment ∈ reader.complete.reverse.dropWhile List.isEmpty) :
      segment ∈ reader.complete :=
    List.mem_reverse.mp ((List.dropWhile_suffix _).subset member)
  refine ⟨fun segment member => sound.complete segment (inside segment member), .inr ?_, ?_⟩
  · rcases List.exists_cons_of_ne_nil nonempty with ⟨first, others, equal⟩
    have notEmpty := List.head?_dropWhile_not List.isEmpty reader.complete.reverse
    rw [equal] at notEmpty ⊢
    exact ⟨first, others, rfl, by simpa using notEmpty⟩
  · rcases sound.dots with plain | ⟨_, drive, last, isDrive⟩
    · exact .inl fun segment member => plain segment (inside segment member)
    · have head : reader.complete.reverse.head? = some drive := by rw [List.head?_reverse, last]
      rcases List.head?_eq_some_iff.mp head with ⟨others, front⟩
      have notEmpty : drive.isEmpty = false := by
        cases drive with
        | nil => cases isDrive
        | cons => rfl
      refine .inr ⟨drive, others, ?_, isDrive⟩
      rw [front, List.dropWhile_cons, notEmpty]
      rfl

theorem isFilePath_read : IsFilePath (read .file [] chars).1 := by
  rcases Reader.read_induct (motive := Reader.Sound .file) .file chars {} .start
    (fun _ _ ordinary sound => sound.push ordinary) (fun _ _ _ _ sound => sound.skip)
    (fun _ sound => sound.close (Reader.closes_close ..)) with ⟨last, sound, reached⟩
  have closed := sound.close (Reader.closes_close .file true last)
  rw [← reached] at closed
  exact closed.isFilePath

theorem read_file_visible (visible : ∀ char ∈ chars, isIgnored char = false) :
    ∀ segment ∈ (read .file [] chars).1, ¬ IsDots segment := by
  rcases Reader.read_induct (motive := Reader.Settled) .file chars {} .start
    (fun _ _ _ settled => settled.push)
    (fun _ char member ignored _ => by rw [visible char member] at ignored; cases ignored)
    (fun _ settled => settled.close (Reader.closes_close ..)) with ⟨last, settled, reached⟩
  have closed := settled.close (Reader.closes_close .file true last)
  rw [← reached] at closed
  intro segment member
  have inSegments : segment ∈ (Reader.read .file {} chars).1.segments .file := member
  rw [Reader.segments_file] at inSegments
  split at inSegments
  · rw [List.mem_singleton.mp inSegments]
    decide
  · exact closed.plain segment (List.mem_reverse.mp ((List.dropWhile_suffix _).subset inSegments))

theorem read_drive {drive : Segment} (isDrive : isDriveLetter drive = true)
    (clean : IsClean .file drive)
    (next : ∀ char ∈ rest.head?, char = '/' ∨ endsPath char = true) :
    (read .file [] (drive ++ rest)).2.1 = true := by
  have found (last : Bool) :
      (Reader.close .file last { current := drive.reverse }).hasDrive = true :=
    Reader.close_drive rfl rfl (by simpa using isDrive)
  have read : (Reader.read .file {} (drive ++ rest)).1.hasDrive = true := by
    rw [Reader.read_written rfl clean.isWritten, clean.encode]
    dsimp only
    rw [List.append_nil]
    cases rest with
    | nil =>
        rw [Reader.read_end (fun _ none => by cases none)]
        exact found true
    | cons char rest =>
        rcases next char rfl with rfl | ends
        · rw [Reader.read_slash]
          rcases Reader.read_induct (motive := fun reader => reader.hasDrive = true) .file rest _
            (found false)
            (fun reader _ _ kept => by rw [Reader.push]; split <;> exact kept)
            (fun reader _ _ _ kept => by rw [Reader.skip]; split <;> exact kept)
            (fun reader kept => (Reader.closes_close ..).hasDrive kept) with ⟨last, kept, reached⟩
          rw [reached]
          exact (Reader.closes_close ..).hasDrive kept
        · rw [Reader.read_end (by simpa using ends)]
          exact found true
  exact read

theorem read_written_segments {first : List Char} {others : List (List Char)}
    (other : kind ≠ .file) (written : ∀ segment ∈ first :: others, IsWritten kind segment ∧
      ¬ IsDots (Text.Percent.encode pathSet segment))
    (ends : ∀ char ∈ rest.head?, endsPath char = true) :
    read kind [] (first ++ others.flatMap ('/' :: ·) ++ rest) =
      ((first :: others).map (Text.Percent.encode pathSet), false, rest) := by
  rw [read, Reader.read_written_segments written (fun isFile => absurd isFile other) ends]
  dsimp only
  rw [Reader.segments_of_ne_file other, List.append_nil, List.reverse_reverse]

theorem read_segments (other : kind ≠ .file)
    (plain : ∀ segment ∈ first :: others, IsPlain kind segment)
    (ends : ∀ char ∈ rest.head?, endsPath char = true) :
    read kind [] (first ++ others.flatMap ('/' :: ·) ++ rest) = (first :: others, false, rest) := by
  rw [read, Reader.read_segments plain (fun isFile => absurd isFile other) ends]
  dsimp only
  rw [Reader.segments_of_ne_file other]
  simp

theorem dropWhile_isEmpty (nonempty : first = [] → others = []) :
    (if (first :: others).dropWhile List.isEmpty = [] then [[]]
      else (first :: others).dropWhile List.isEmpty) = first :: others := by
  cases first with
  | nil =>
      rw [nonempty rfl]
      rfl
  | cons char first => rfl

theorem read_file_segments (plain : ∀ segment ∈ first :: others, IsPlain .file segment)
    (ends : ∀ char ∈ rest.head?, endsPath char = true) (noDrive : isDriveLetter first = false)
    (nonempty : first = [] → others = []) :
    read .file [] (first ++ others.flatMap ('/' :: ·) ++ rest) =
      (first :: others, false, rest) := by
  rw [read, Reader.read_segments plain (fun _ _ => noDrive) ends]
  dsimp only
  rw [Reader.segments_file]
  dsimp only
  rw [List.append_nil, List.reverse_reverse, dropWhile_isEmpty nonempty]

theorem read_file_slash (plain : ∀ segment ∈ first :: others, IsPlain .file segment)
    (ends : ∀ char ∈ rest.head?, endsPath char = true) (nonempty : first = [] → others = []) :
    read .file [] ('/' :: (first ++ others.flatMap ('/' :: ·) ++ rest)) =
      (first :: others, false, rest) := by
  have opened : Reader.close .file false {} = { complete := [[]] } := rfl
  rw [read, Reader.read_slash, opened,
    Reader.read_segments plain (fun _ none => absurd none (List.cons_ne_nil _ _)) ends]
  dsimp only
  rw [Reader.segments_file]
  dsimp only
  rw [List.reverse_append, List.reverse_reverse, List.reverse_singleton, List.singleton_append,
    List.dropWhile_cons, List.isEmpty_nil, if_pos rfl, dropWhile_isEmpty nonempty]

end Whole

end MarkupExport.Url.Path
