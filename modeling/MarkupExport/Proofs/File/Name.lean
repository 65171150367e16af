import MarkupExport.FilePath
import MarkupExport.Proofs.File.Write
import MarkupExport.Proofs.Text.Split

/-!
Names of files, and what becomes of a path when something is joined to it. A path that ends in the
name of a file leads to that file in the directory that the rest of it leads to; a text that holds a
slash is no name, and leads elsewhere.
-/

namespace MarkupExport.FilePath

variable {path name part : List Char}

/-- A file can have this name: it is one part of a path, and leads to no other directory. -/
structure IsName (name : List Char) : Prop where
  nonempty : name ≠ []
  noSlash : '/' ∉ name
  notDot : name ≠ ['.']
  notDots : name ≠ ['.', '.']

instance (name : List Char) : Decidable (IsName name) :=
  decidable_of_iff (name ≠ [] ∧ '/' ∉ name ∧ name ≠ ['.'] ∧ name ≠ ['.', '.'])
    ⟨fun ⟨nonempty, noSlash, notDot, notDots⟩ => ⟨nonempty, noSlash, notDot, notDots⟩,
      fun isName => ⟨isName.nonempty, isName.noSlash, isName.notDot, isName.notDots⟩⟩

/-! ## Parts -/

theorem noSlash_of_mem_parts (inside : part ∈ parts path) : '/' ∉ part :=
  fun slash => (Text.mem_of_mem_splitOn (List.mem_of_mem_filter inside) slash).2 rfl

theorem of_mem_parts (inside : part ∈ parts path) : part ≠ [] ∧ part ≠ ['.'] := by
  simpa using (List.mem_filter.mp inside).2

theorem isName_of_fileName? (named : fileName? path = some name) : IsName name := by
  rw [fileName?] at named
  split at named
  · next last found =>
    have inside := List.mem_of_getLast? found
    split at named
    · cases named
    · next notDots =>
      cases named
      exact ⟨(of_mem_parts inside).1, noSlash_of_mem_parts inside, (of_mem_parts inside).2, notDots⟩
  · cases named

theorem IsName.splitOn (isName : IsName name) : name.splitOn '/' = [name] :=
  List.splitOn_eq_singleton isName.noSlash

theorem IsName.parts (isName : IsName name) : parts name = [name] := by
  rw [FilePath.parts, isName.splitOn]
  simp [isName.nonempty, isName.notDot]

/-- The stem of a name is something, and holds no slash either. -/
theorem IsName.stem (isName : IsName name) :
    (splitName name).1 ≠ [] ∧ '/' ∉ (splitName name).1 := by
  rw [splitName]
  split
  · exact ⟨isName.nonempty, isName.noSlash⟩
  · next dotted =>
    rw [not_or] at dotted
    exact ⟨dotted.1, fun slash => isName.noSlash (List.mem_of_mem_take slash)⟩

/-! ## Joining -/

section Join

variable {directory name : String}

theorem join_relative (relative : name.toList.head? ≠ some '/') (nonempty : directory ≠ "") :
    (join directory name).toList =
      if directory.toList.getLast? = some '/' then directory.toList ++ name.toList
      else directory.toList ++ '/' :: name.toList := by
  rw [join, if_neg relative]
  by_cases ended : directory.toList.getLast? = some '/' <;> simp [nonempty, ended]

variable (relative : name.toList.head? ≠ some '/') (nonempty : directory ≠ "")

include relative nonempty

/-- The stretches of the directory stay in front, except for an empty one at its end. -/
theorem splitOn_join :
    ∃ front, (join directory name).toList.splitOn '/' = front ++ name.toList.splitOn '/' ∧
      (directory.toList.splitOn '/' = front ∨ directory.toList.splitOn '/' = front ++ [[]]) := by
  rw [join_relative relative nonempty]
  split
  · next ended =>
    rcases List.getLast?_eq_some_iff.mp ended with ⟨front, whole⟩
    refine ⟨front.splitOn '/', ?_, .inr ?_⟩
    · rw [whole, List.append_assoc, List.singleton_append, List.splitOn_append_cons_self]
    · rw [whole, List.splitOn_append_cons_self, List.splitOn_nil]
  · exact ⟨_, List.splitOn_append_cons_self _ _, .inl rfl⟩

theorem parts_join :
    parts (join directory name).toList = parts directory.toList ++ parts name.toList := by
  rcases splitOn_join relative nonempty with ⟨front, joined, same | ended⟩
  · simp [parts, joined, same]
  · simp [parts, joined, ended]

theorem ofPath_join :
    Location.ofPath (join directory name) =
      (name.toList.splitOn '/').foldl Location.step (.ofPath directory) := by
  have start : Location.start (join directory name).toList = .start directory.toList := by
    rcases List.exists_cons_of_ne_nil (mt String.toList_eq_nil_iff.mp nonempty) with
      ⟨first, rest, chars⟩
    rw [join_relative relative nonempty, chars]
    split <;> rfl
  rcases splitOn_join relative nonempty with ⟨front, joined, same | ended⟩
  · simp [Location.ofPath, start, joined, same]
  · simp [Location.ofPath, start, joined, ended]

end Join

/-! ## Lying in a directory -/

/-- The path leads to the file of this name in the directory. -/
structure LiesIn (path directory name : String) : Prop where
  fileName : fileName? path.toList = some name.toList
  parent : parts path.toList = parts directory.toList ++ [name.toList]
  place : Location.ofPath path =
    { Location.ofPath directory with names := (Location.ofPath directory).names ++ [name.toList] }

theorem liesIn_join_iff {directory name : String} (relative : name.toList.head? ≠ some '/')
    (nonempty : directory ≠ "") :
    LiesIn (join directory name) directory name ↔ IsName name.toList := by
  constructor
  · exact fun lies => isName_of_fileName? lies.fileName
  · intro isName
    have joined := parts_join relative nonempty
    rw [isName.parts] at joined
    refine ⟨?_, joined, ?_⟩
    · simp [fileName?, joined, isName.notDots]
    · rw [ofPath_join relative nonempty, isName.splitOn]
      simp [Location.step, isName.nonempty, isName.notDot, isName.notDots]

end MarkupExport.FilePath
