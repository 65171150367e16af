import MarkupExport.Proofs.Url.File

/-!
URLs are read back from their texts. Where the scheme is not `file`, the text of what has been read
is read as the same URL; a file URL may change once more before it is.
-/

namespace MarkupExport.Url

variable {written scheme rest : List Char} {url : Url}

/-- What follows the scheme's colon is read as the scheme's kind says. -/
def readAfterScheme (scheme rest : List Char) : Except UrlError Url :=
  match SchemeKind.ofScheme scheme with
  | .file => readFile rest
  | .special =>
    readFromAuthority scheme ((withoutIgnored rest).dropWhile SchemeKind.special.isSlash)
  | .other => readOther scheme (withoutIgnored rest)

/-- A URL that is read back from its text. -/
structure IsSettled (url : Url) : Prop where
  scheme : IsScheme url.scheme
  lower : url.scheme.map Char.toLower = url.scheme
  last : ∀ char ∈ url.afterScheme.getLast?, IsVisible char
  again : readAfterScheme url.scheme url.afterScheme = .ok url

theorem parse_ok (read : parse written = .ok url) :
    ∃ scheme rest, IsScheme scheme ∧ scheme.map Char.toLower = scheme ∧
      (∀ char ∈ rest.getLast?, IsVisible char) ∧ readAfterScheme scheme rest = .ok url := by
  rw [parse] at read
  split at read
  · cases read
  next scheme rest found =>
  rcases scheme?_ok found with ⟨front, parts, isScheme, rfl⟩
  refine ⟨_, rest, isScheme.toLower.1, isScheme.toLower.2, fun char last => ?_, read⟩
  refine isVisible_of_getLast?_trimmed (show char ∈ (trimmed written).getLast? from ?_)
  rw [parts, getLast?_append_of_ne_nil (List.cons_ne_nil _ _), List.getLast?_cons,
    Option.mem_def.mp last]
  rfl

theorem parse_eq (isScheme : IsScheme scheme) (lower : scheme.map Char.toLower = scheme)
    (last : ∀ char ∈ rest.getLast?, IsVisible char) :
    parse (scheme ++ ':' :: rest) = readAfterScheme scheme rest := by
  have uncut : trimmed (scheme ++ ':' :: rest) = scheme ++ ':' :: rest := by
    apply trimmed_eq_self
    · rcases isScheme with ⟨first, tail, rfl, letter, _⟩
      rintro _ ⟨⟩
      exact isVisible_of_isSchemeChar (isSchemeChar_of_isAlpha letter)
    · rw [getLast?_append_of_ne_nil (List.cons_ne_nil _ _), List.getLast?_cons]
      cases final : rest.getLast? with
      | none =>
          rintro _ ⟨⟩
          decide
      | some char =>
          rintro _ ⟨⟩
          exact last char final
  rw [parse, uncut, scheme?_append isScheme, lower]
  rfl

theorem IsSettled.parse_text (settled : IsSettled url) : parse url.text = .ok url := by
  rw [text_eq, parse_eq settled.scheme settled.lower settled.last, settled.again]

theorem isSettled_special (isScheme : IsScheme scheme) (lower : scheme.map Char.toLower = scheme)
    (special : SchemeKind.ofScheme scheme = .special) (hasAuthority : HasAuthority scheme url) :
    IsSettled url := by
  have sameScheme : url.scheme = scheme := by
    cases hasAuthority
    rfl
  subst sameScheme
  have visible := hasAuthority.isVisible
  refine ⟨isScheme, lower, fun char last => visible char (List.mem_of_getLast? last), ?_⟩
  rcases hasAuthority.again (by rw [special]; decide) with ⟨after, written, again, unslashed⟩
  have slashes : ('/' :: '/' :: after).dropWhile SchemeKind.special.isSlash =
      after.dropWhile SchemeKind.special.isSlash := rfl
  rw [readAfterScheme, special]
  dsimp only
  rw [withoutIgnored_eq_self fun char member => Nat.le_of_lt (visible char member), written,
    slashes, unslashed special, again]

theorem isSettled_other (isScheme : IsScheme scheme) (lower : scheme.map Char.toLower = scheme)
    (other : SchemeKind.ofScheme scheme = .other) (isOther : IsOther scheme url) :
    IsSettled url := by
  have sameScheme : url.scheme = scheme := by
    cases isOther with
    | authority hasAuthority =>
        cases hasAuthority
        rfl
    | segments | text => rfl
  subst sameScheme
  refine ⟨isScheme, lower, isOther.printed.2, ?_⟩
  rw [readAfterScheme, other]
  dsimp only
  rw [withoutIgnored_eq_self isOther.printed.1, isOther.again other]

section File

variable {host : UrlHost} {segments : List Path.Segment} {query fragment : Option (List Char)}

theorem isVisible_fileOf (isFile : IsFile host segments query fragment) :
    ∀ char ∈ (fileOf host segments query fragment).afterScheme, IsVisible char := by
  rcases fileOf_written isFile with ⟨first, others, rfl, _, written⟩
  have inHost : ∀ char ∈ Host.text host, IsVisible char := by
    rcases isFile.named with rfl | named
    · exact nofun
    · exact named.text.isVisible
  have inPath := isVisible_segments isFile.path.clean
  rw [List.flatMap_cons] at inPath
  rw [written]
  refine List.forall_mem_cons.mpr ⟨by decide, List.forall_mem_cons.mpr ⟨by decide, ?_⟩⟩
  exact List.forall_mem_append.mpr ⟨inHost, List.forall_mem_append.mpr ⟨inPath,
    isFile.tail.isVisible⟩⟩

theorem ofScheme_fileOf :
    SchemeKind.ofScheme (fileOf host segments query fragment).scheme = .file :=
  show SchemeKind.ofScheme "file".toList = .file by decide

theorem parse_fileOf (isFile : IsFile host segments query fragment) :
    parse (fileOf host segments query fragment).text =
      readFile (fileOf host segments query fragment).afterScheme := by
  have isScheme : IsScheme (fileOf host segments query fragment).scheme :=
    ⟨'f', "ile".toList, rfl, by decide, Text.forall_mem_of_all (by decide)⟩
  have lower : "file".toList.map Char.toLower = "file".toList := by decide
  have last : ∀ char ∈ (fileOf host segments query fragment).afterScheme.getLast?, IsVisible char :=
    fun char last => isVisible_fileOf isFile char (List.mem_of_getLast? last)
  rw [text_eq, parse_eq isScheme lower last, readAfterScheme, ofScheme_fileOf]

end File

/-- What has been read is read back from its text, unless it is the URL of a file. -/
theorem isSettled_or_isFile (read : parse written = .ok url) :
    parse url.text = .ok url ∨ ∃ host segments query fragment,
      url = fileOf host segments query fragment ∧ IsFile host segments query fragment := by
  rcases parse_ok read with ⟨scheme, rest, isScheme, lower, last, readRest⟩
  rw [readAfterScheme] at readRest
  split at readRest
  · exact .inr (readFile_ok readRest)
  · next special =>
    have hasAuthority := (readFromAuthority_ok (by rw [special]; decide) readRest).1
    exact .inl (isSettled_special isScheme lower special hasAuthority).parse_text
  · next other =>
    have isOther := readOther_ok other (isVisible_getLast?_withoutIgnored last) readRest
    exact .inl (isSettled_other isScheme lower other isOther).parse_text

/-- A URL of any scheme but `file` is the one that its text is read as. -/
theorem parse_text (read : parse written = .ok url)
    (other : SchemeKind.ofScheme url.scheme ≠ .file) : parse url.text = .ok url := by
  rcases isSettled_or_isFile read with again | ⟨host, segments, query, fragment, rfl, isFile⟩
  · exact again
  · exact absurd ofScheme_fileOf other

/-- Reading a URL back from a text settles: what has been read is read back from its own text. -/
theorem parse_text_settles (read : parse written = .ok url) :
    ∃ settled, parse url.text = .ok settled ∧ parse settled.text = .ok settled := by
  rcases isSettled_or_isFile read with again | ⟨host, segments, query, fragment, rfl, isFile⟩
  · exact ⟨url, again, again⟩
  · rcases readFile_settles isFile with ⟨name, path, asked, part, settled, again⟩
    refine ⟨fileOf name path asked part, ?_, ?_⟩
    · rw [parse_fileOf isFile, again]
    · rw [parse_fileOf settled.toIsFile, readFile_again settled]

end MarkupExport.Url
