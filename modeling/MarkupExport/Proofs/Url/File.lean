import MarkupExport.Proofs.Url.Reread

/-!
File URLs are read back from their texts, if not at once, then the second time. A drive letter that
the text brings to the front takes the host away, and dots that a skipped character has kept apart
are resolved; after that nothing changes any more.
-/

namespace MarkupExport.Url

variable {chars rest : List Char} {url : Url} {host : UrlHost} {segments : List Path.Segment}
  {query fragment : Option (List Char)}

/-- A domain name or address that a file URL is written with. -/
structure IsFileHost (host : UrlHost) : Prop where
  text : Host.IsText (Host.text host)
  nonempty : Host.text host ≠ []
  again : Host.ofDomain (Host.text host) = .ok host
  remote : host ≠ .name "localhost".toList

def fileOf (host : UrlHost) (segments : List Path.Segment) (query fragment : Option (List Char)) :
    Url :=
  { scheme := "file".toList, authority := some { host }, path := .segments segments
    query, fragment }

/-- The parts of a file URL. -/
structure IsFile (host : UrlHost) (segments : List Path.Segment)
    (query fragment : Option (List Char)) : Prop where
  named : host = .empty ∨ IsFileHost host
  path : Path.IsFilePath segments
  tail : IsTail .file query fragment

/-- The parts of a file URL that is read back as it is. -/
structure IsSettledFile (host : UrlHost) (segments : List Path.Segment)
    (query fragment : Option (List Char)) : Prop extends IsFile host segments query fragment where
  plain : ∀ segment ∈ segments, ¬ Path.IsDots segment
  remote : host = .empty ∨ ∀ first ∈ segments.head?, Path.isDriveLetter first = false

theorem fileUrl_eq (host : UrlHost) (chars : List Char) :
    fileUrl host chars =
      fileOf (if (Path.read .file [] chars).2.1 then .empty else host) (Path.read .file [] chars).1
        (readTail .file (Path.read .file [] chars).2.2).1
        (readTail .file (Path.read .file [] chars).2.2).2 :=
  rfl

theorem isFile_fileUrl (named : host = .empty ∨ IsFileHost host) (chars : List Char) :
    IsFile (if (Path.read .file [] chars).2.1 then .empty else host) (Path.read .file [] chars).1
      (readTail .file (Path.read .file [] chars).2.2).1
      (readTail .file (Path.read .file [] chars).2.2).2 := by
  refine ⟨?_, Path.isFilePath_read, isTail_readTail _ _⟩
  split
  · exact .inl rfl
  · exact named

theorem readFile_ok (read : readFile chars = .ok url) :
    ∃ host segments query fragment, url = fileOf host segments query fragment ∧
      IsFile host segments query fragment := by
  have ofFileUrl {host : UrlHost} (named : host = .empty ∨ IsFileHost host) (chars : List Char) :
      ∃ name segments query fragment, fileUrl host chars = fileOf name segments query fragment ∧
        IsFile name segments query fragment :=
    ⟨_, _, _, _, fileUrl_eq host chars, isFile_fileUrl named chars⟩
  rw [readFile] at read
  split at read
  · cases read
    exact ofFileUrl (.inl rfl) _
  split at read
  · cases read
    exact ofFileUrl (.inl rfl) _
  next single _ double _ =>
  rw [List.span_eq_takeWhile_dropWhile] at read
  dsimp only [pure, Except.pure, bind, Except.bind] at read
  split at read
  · cases read
    exact ofFileUrl (.inl rfl) _
  split at read
  · cases read
    exact ofFileUrl (.inl rfl) _
  split at read
  · cases read
  next host found =>
  split at read
  · cases read
    exact ofFileUrl (.inl rfl) _
  next remote =>
  cases read
  rcases Host.ofDomain_text found with ⟨isText, nonempty, again⟩
  exact ofFileUrl (.inr ⟨isText, nonempty, again, remote⟩) _

/-- A file URL is written with its host, a slash and the rest of its path. -/
theorem fileOf_written (isFile : IsFile host segments query fragment) :
    ∃ first others, segments = first :: others ∧ (first = [] → others = []) ∧
      (fileOf host segments query fragment).afterScheme =
        '/' :: '/' :: (Host.text host ++
          '/' :: (first ++ others.flatMap ('/' :: ·) ++ tailText query fragment)) := by
  have shape : ∃ first others, segments = first :: others ∧ (first = [] → others = []) := by
    rcases isFile.path.nonempty with bare | ⟨first, others, equal, nonempty⟩
    · exact ⟨[], [], bare, fun _ => rfl⟩
    · exact ⟨first, others, equal, fun empty => absurd empty nonempty⟩
  rcases shape with ⟨first, others, rfl, nonempty⟩
  refine ⟨first, others, rfl, nonempty, ?_⟩
  have text : UrlAuthority.text { host } = Host.text host := by
    rw [text_authority, portText, List.append_nil, List.nil_append]
  have written : (fileOf host (first :: others) query fragment).beforePath =
      '/' :: '/' :: Host.text host := congrArg ('/' :: '/' :: ·) text
  rw [afterScheme_eq, written, fileOf]
  dsimp only [UrlPath.chars]
  rw [path_cons]
  rfl

theorem Host.IsText.isDriveLetter {text : List Char} (isText : Host.IsText text) :
    Path.isDriveLetter text = false := by
  rw [Bool.eq_false_iff]
  intro drive
  rw [Path.isDriveLetter.eq_def] at drive
  split at drive
  · next letter mark =>
    simp only [Bool.and_eq_true, Bool.or_eq_true, decide_eq_true_eq] at drive
    rcases drive with ⟨alpha, marked⟩
    generalize spelled : [letter, mark] = text at isText
    cases isText with
    | name chars =>
        have marks : ∀ mark ∈ [':', '|'], ¬ Host.IsNameChar mark :=
          Text.forall_mem_of_all (by decide)
        subst spelled
        exact marks mark (by simpa using marked) (chars mark (by simp))
    | bracketed =>
        rw [(List.cons.inj spelled).1] at alpha
        cases alpha
  · cases drive

theorem readFile_written (named : host = .empty ∨ IsFileHost host) (rest : List Char) :
    readFile ('/' :: '/' :: (Host.text host ++ '/' :: rest)) =
      .ok (if host = .empty then fileUrl .empty ('/' :: rest) else fileUrl host rest) := by
  rcases named with rfl | named
  · rfl
  have continues (char : Char) (member : char ∈ Host.text host) :
      (!endsAuthority .file char) = true := by
    rw [Bool.not_eq_true', endsAuthority_of_not_mem]
    exact fun mark => named.text.plain char member (List.mem_append_left ['@'] mark)
  have span : (Host.text host ++ '/' :: rest).span (fun char => !endsAuthority .file char) =
      (Host.text host, '/' :: rest) :=
    span_append continues (by rintro _ ⟨⟩; rfl)
  have printed : withoutIgnored (Host.text host) = Host.text host :=
    withoutIgnored_eq_self fun char member => Nat.le_of_lt (named.text.isVisible char member)
  have nonempty : host ≠ .empty := by
    rintro rfl
    exact named.nonempty rfl
  have slashes : afterSlash? ('/' :: '/' :: (Host.text host ++ '/' :: rest)) =
      some ('/' :: (Host.text host ++ '/' :: rest)) := rfl
  have slash (rest : List Char) : afterSlash? ('/' :: rest) = some rest := rfl
  rw [readFile, slashes]
  dsimp only
  rw [slash]
  dsimp only
  rw [span]
  dsimp only
  rw [printed, if_neg named.nonempty, named.text.isDriveLetter, if_neg Bool.false_ne_true,
    named.again]
  dsimp only [bind, Except.bind]
  rw [if_neg named.remote, slash, if_neg nonempty]
  rfl

theorem readFile_again (settled : IsSettledFile host segments query fragment) :
    readFile (fileOf host segments query fragment).afterScheme =
      .ok (fileOf host segments query fragment) := by
  rcases fileOf_written settled.toIsFile with ⟨first, others, rfl, nonempty, written⟩
  have plain : ∀ segment ∈ first :: others, Path.IsPlain .file segment :=
    fun segment member => ⟨settled.path.clean segment member, settled.plain segment member⟩
  rw [written, readFile_written settled.named]
  split
  · next empty =>
    rw [fileUrl_eq, Path.read_file_slash plain endsPath_tailText nonempty,
      readTail_tailText settled.tail, empty]
    rfl
  · next named =>
    have noDrive := settled.remote.resolve_left named first rfl
    rw [fileUrl_eq, Path.read_file_segments plain endsPath_tailText noDrive nonempty,
      readTail_tailText settled.tail]
    rfl

/-- A path that begins with a drive letter is found to do so, and no other one is after a host. -/
theorem hasDrive_or_first {first : Path.Segment} {others : List Path.Segment}
    (path : Path.IsFilePath (first :: others)) (nonempty : first = [] → others = []) :
    (Path.read .file []
        (first ++ others.flatMap ('/' :: ·) ++ tailText query fragment)).2.1 = true ∨
      ∀ segment ∈ (Path.read .file []
          (first ++ others.flatMap ('/' :: ·) ++ tailText query fragment)).1.head?,
        Path.isDriveLetter segment = false := by
  cases drive : Path.isDriveLetter first with
  | true =>
      have next : ∀ char ∈ (others.flatMap ('/' :: ·) ++ tailText query fragment).head?,
          char = '/' ∨ Path.endsPath char = true := by
        cases others with
        | nil => exact fun char head => .inr (endsPath_tailText char head)
        | cons second others =>
            rintro _ ⟨⟩
            exact .inl rfl
      rw [List.append_assoc]
      exact .inl (Path.read_drive drive (path.clean first List.mem_cons_self) next)
  | false =>
      -- Dot segments stand behind a drive letter only, and here there is none.
      have undotted : ∀ segment ∈ first :: others, ¬ Path.IsDots segment := by
        rcases path.dots with undotted | ⟨letter, _, equal, isDrive⟩
        · exact undotted
        · rw [(List.cons.inj equal).1, isDrive] at drive
          cases drive
      have plain : ∀ segment ∈ first :: others, Path.IsPlain .file segment :=
        fun segment member => ⟨path.clean segment member, undotted segment member⟩
      rw [Path.read_file_segments plain endsPath_tailText drive nonempty]
      refine .inr ?_
      rintro _ ⟨⟩
      exact drive

/-- A host with a drive letter after it is lost when the URL is read again. -/
theorem readFile_settles (isFile : IsFile host segments query fragment) :
    ∃ name path asked part, IsSettledFile name path asked part ∧
      readFile (fileOf host segments query fragment).afterScheme =
        .ok (fileOf name path asked part) := by
  rcases fileOf_written isFile with ⟨first, others, rfl, nonempty, written⟩
  have inPath : ∀ char ∈ (first :: others).flatMap ('/' :: ·) ++ tailText query fragment,
      isIgnored char = false :=
    List.forall_mem_append.mpr
      ⟨fun char member => (isVisible_segments isFile.path.clean char member).isIgnored,
        fun char member => (isFile.tail.isVisible char member).isIgnored⟩
  rw [path_cons] at inPath
  have inRest := (List.forall_mem_cons.mp inPath).2
  rw [written, readFile_written isFile.named]
  split
  · refine ⟨_, _, _, _, ⟨isFile_fileUrl (.inl rfl) _, Path.read_file_visible inPath, ?_⟩,
      congrArg _ (fileUrl_eq _ _)⟩
    exact .inl (ite_self _)
  · refine ⟨_, _, _, _, ⟨isFile_fileUrl isFile.named _, Path.read_file_visible inRest, ?_⟩,
      congrArg _ (fileUrl_eq _ _)⟩
    rcases hasDrive_or_first isFile.path nonempty with hasDrive | remote
    · exact .inl (if_pos hasDrive)
    · exact .inr remote

end MarkupExport.Url
