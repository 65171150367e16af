import Mathlib.Data.List.Basic
import MarkupExport.Ascending
import MarkupExport.File.Tree

/-!
What a write changes in a tree. One that succeeds puts its text at the place where the path leads
to, and every other place is as it was; the path leads there afterwards as well, since a file is
put where no directory stands, so that nothing that the path passes through is touched.
-/

namespace MarkupExport

namespace Location

@[simp]
theorem step_nil (location : Location) : location.step [] = location := by
  simp [step]

theorem step_names_ne_nil {name : List Char} (location : Location) (nonempty : name ≠ [])
    (notDot : name ≠ ['.']) (notDots : name ≠ ['.', '.']) : (location.step name).names ≠ [] := by
  simp [step, nonempty, notDot, notDots]

end Location

namespace FileTree

variable {tree after : FileTree} {location other : Location} {path text : String}

/-! ## Putting a text somewhere -/

theorem find?_put_self (named : location.names ≠ []) :
    (tree.put location text).find? location = some (.file text) := by
  simp [find?, put, named]

theorem find?_put_of_ne (elsewhere : other ≠ location) :
    (tree.put location text).find? other = tree.find? other := by
  have found : (tree.put location text).files.lookup other = tree.files.lookup other := by
    simp only [put, List.lookup_cons, beq_eq_false_iff_ne.mpr elsewhere]
    rw [Ascending.lookup_filter (· ≠ location), if_pos (decide_eq_true elsewhere)]
  simp only [find?, found]
  rfl

/-! ## Following a path -/

section Walk

variable {start finish : Location} {parts : List (List Char)}

theorem walk_append (start : Location) (parts rest : List (List Char)) :
    tree.walk start (parts ++ rest) = (tree.walk start parts).bind (tree.walk · rest) := by
  induction parts generalizing start with
  | nil => rfl
  | cons part parts induction =>
      simp only [List.cons_append, walk]
      cases tree.find? start with
      | none => rfl
      | some entry =>
          cases entry with
          | file => rfl
          | directory => exact induction _

/-- A walk ends where its parts lead to. -/
theorem foldl_step_of_walk (walked : tree.walk start parts = .ok finish) :
    parts.foldl Location.step start = finish := by
  induction parts generalizing start with
  | nil => simpa [walk] using walked
  | cons part parts induction =>
      simp only [walk] at walked
      split at walked
      · exact induction walked
      · cases walked
      · cases walked

/-- A walk passes through directories alone, and none of them is a place where a file may be put. -/
theorem walk_put (free : tree.find? location ≠ some .directory)
    (walked : tree.walk start parts = .ok finish) :
    (tree.put location text).walk start parts = .ok finish := by
  induction parts generalizing start with
  | nil => exact walked
  | cons part parts induction =>
      simp only [walk] at walked
      split at walked
      · next isDirectory =>
        have elsewhere : start ≠ location := by
          rintro rfl
          exact free isDirectory
        simp only [walk, find?_put_of_ne elsewhere, isDirectory]
        exact induction walked
      · cases walked
      · cases walked

/-- A last part that is empty asks for a directory, from which any other part leads on. -/
theorem walk_last (walked : tree.walk start (parts ++ [[]]) = .ok finish) (part : List Char) :
    tree.walk start (parts ++ [part]) = .ok (finish.step part) := by
  rw [walk_append] at walked ⊢
  cases front : tree.walk start parts with
  | error error =>
      rw [front] at walked
      cases walked
  | ok last =>
      simp only [front, Except.bind, walk] at walked ⊢
      cases found : tree.find? last with
      | none => simp [found] at walked
      | some entry =>
          cases entry with
          | file => simp [found] at walked
          | directory =>
              simp only [found, Location.step_nil, Except.ok.injEq] at walked
              rw [walked]

end Walk

/-! ## Writing -/

/-- The second tree is the first with a text in the file at `path`, and no other place has
changed. -/
structure WritesOnly (before : FileTree) (path text : String) (after : FileTree) : Prop where
  read_path : after.read path = .ok text
  find?_path : after.find? (Location.ofPath path) = some (.file text)
  not_directory : before.find? (Location.ofPath path) ≠ some .directory
  find?_other : ∀ other, other ≠ Location.ofPath path → after.find? other = before.find? other

/-- The parts of a path up to the last one that is not empty. -/
def namedParts (path : String) : List (List Char) :=
  ((path.toList.splitOn '/').reverse.dropWhile (· = [])).reverse

theorem ne_nil_of_getLast?_namedParts {name : List Char}
    (last : (namedParts path).getLast? = some name) : name ≠ [] := by
  rw [namedParts, List.getLast?_reverse] at last
  have stops := List.head?_dropWhile_not (fun part : List Char => decide (part = []))
    (path.toList.splitOn '/').reverse
  simpa [last] using stops

theorem write_steps (written : tree.write path text = .ok after) :
    ∃ name directory, (namedParts path).getLast? = some name ∧
      tree.walk (.start path.toList) ((namedParts path).dropLast ++ [[]]) = .ok directory ∧
      namedParts path = path.toList.splitOn '/' ∧ name ≠ ['.'] ∧ name ≠ ['.', '.'] ∧
      tree.find? (directory.step name) ≠ some .directory ∧
      after = tree.put (directory.step name) text := by
  simp only [write] at written
  rw [← namedParts] at written
  split at written
  · split at written <;> cases written
  next name last =>
  cases walked : tree.walk (.start path.toList) ((namedParts path).dropLast ++ [[]]) with
  | error error =>
      rw [walked] at written
      cases written
  | ok directory =>
      simp only [walked, bind, Except.bind] at written
      split at written
      · cases written
      next proper =>
      split at written
      · cases written
      next free =>
      simp only [ne_eq, not_or, not_not] at proper
      cases written
      exact ⟨name, directory, last, rfl, proper.1, proper.2.1, proper.2.2, free, rfl⟩

/-- The text is put where the path leads to, which is below the root and no directory. -/
theorem write_eq_ok (written : tree.write path text = .ok after) :
    tree.walk (.start path.toList) (path.toList.splitOn '/') = .ok (.ofPath path) ∧ path ≠ "" ∧
      (Location.ofPath path).names ≠ [] ∧
      tree.find? (.ofPath path) ≠ some .directory ∧ after = tree.put (.ofPath path) text := by
  rcases write_steps written with ⟨name, directory, last, walked, whole, notDot, notDots, free, rfl⟩
  have nonempty : name ≠ [] := ne_nil_of_getLast?_namedParts last
  rw [whole] at last walked
  have split : path.toList.splitOn '/' = (path.toList.splitOn '/').dropLast ++ [name] :=
    (List.dropLast_append_getLast? name last).symm
  have reached : tree.walk (.start path.toList) (path.toList.splitOn '/') =
      .ok (directory.step name) := by
    rw [split]
    exact walk_last walked name
  have place : Location.ofPath path = directory.step name := foldl_step_of_walk reached
  rw [place]
  refine ⟨reached, ?_, directory.step_names_ne_nil nonempty notDot notDots, free, rfl⟩
  rintro rfl
  exact nonempty (by simpa using last.symm)

theorem writesOnly_of_write (written : tree.write path text = .ok after) :
    tree.WritesOnly path text after := by
  rcases write_eq_ok written with ⟨walked, nonempty, named, free, rfl⟩
  have entry : (tree.put (.ofPath path) text).entry path = .ok (.file text) := by
    simp only [entry, nonempty, if_false, walk_put free walked, bind, Except.bind,
      find?_put_self named]
  exact {
    read_path := by simp only [read, entry, bind, Except.bind]
    find?_path := find?_put_self named
    not_directory := free
    find?_other := fun other elsewhere => find?_put_of_ne elsewhere }

end FileTree

end MarkupExport
