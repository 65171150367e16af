import MarkupExport.FilePath

/-!
The extension of a file is what follows the last dot of its name, provided that something stands in
front of that dot.
-/

namespace MarkupExport.FilePath

variable {name stem extension : List Char}

theorem splitName_of_noDot (noDot : '.' ∉ name) : (splitName name).2 = none := by
  simp [splitName, noDot]

theorem splitName_append (stem : List Char) (noDot : '.' ∉ extension) :
    splitName (stem ++ '.' :: extension) =
      if stem = [] then ('.' :: extension, none) else (stem, some extension) := by
  have allBehind : ∀ char ∈ extension.reverse, decide (char ≠ '.') = true := by
    intro char member
    have inside := List.mem_reverse.mp member
    exact decide_eq_true fun equal => noDot (equal ▸ inside)
  have behind : ((stem ++ '.' :: extension).reverse.takeWhile (· ≠ '.')).reverse = extension := by
    rw [List.reverse_append, List.reverse_cons, List.append_assoc, List.singleton_append,
      List.takeWhile_append_of_pos allBehind, List.takeWhile_cons_of_neg (by simp),
      List.append_nil, List.reverse_reverse]
  have inFront : (stem ++ '.' :: extension).length - extension.length - 1 = stem.length := by
    rw [List.length_append, List.length_cons]
    omega
  rw [splitName, behind, inFront, List.take_left]
  by_cases empty : stem = [] <;> simp [empty]

theorem splitName_eq_some_iff :
    (splitName name).2 = some extension ↔
      ∃ stem, name = stem ++ '.' :: extension ∧ stem ≠ [] ∧ '.' ∉ extension := by
  constructor
  · intro found
    by_cases dotted : '.' ∈ name
    · rcases List.eq_append_cons_of_mem (List.mem_reverse.mpr dotted) with
        ⟨behind, inFront, reversed, noDot⟩
      have parted : name = inFront.reverse ++ '.' :: behind.reverse := by
        rw [← List.reverse_reverse name, reversed]
        simp
      have noDot : '.' ∉ behind.reverse := fun member => noDot (List.mem_reverse.mp member)
      rw [parted, splitName_append _ noDot] at found
      split at found
      · cases found
      · next notEmpty =>
        cases found
        exact ⟨inFront.reverse, parted, notEmpty, noDot⟩
    · rw [splitName_of_noDot dotted] at found
      cases found
  · rintro ⟨stem, rfl, notEmpty, noDot⟩
    rw [splitName_append stem noDot, if_neg notEmpty]

/-- The name of the file ends with a dot and this extension, in which there is no other dot, and has
something in front of that dot. -/
def HasExtension (path extension : String) : Prop :=
  ∃ stem, fileName? path.toList = some (stem ++ '.' :: extension.toList) ∧ stem ≠ [] ∧
    '.' ∉ extension.toList

theorem extension?_eq_some_iff {path extension : String} :
    extension? path = some extension ↔ HasExtension path extension := by
  rw [extension?, HasExtension, Option.bind_eq_some_iff]
  simp only [Option.map_eq_some_iff, splitName_eq_some_iff]
  constructor
  · rintro ⟨_, named, _, ⟨stem, rfl, notEmpty, noDot⟩, rfl⟩
    rw [String.toList_ofList]
    exact ⟨stem, named, notEmpty, noDot⟩
  · rintro ⟨stem, named, notEmpty, noDot⟩
    exact ⟨_, named, extension.toList, ⟨stem, rfl, notEmpty, noDot⟩, String.ofList_toList⟩

end MarkupExport.FilePath
