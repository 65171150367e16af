import Mathlib.Data.List.TakeWhile

/-! The stretches of a text between its separators. -/

namespace MarkupExport.Text

theorem mem_of_mem_splitOn {text stretch : List Char} {char separator : Char}
    (inside : stretch ∈ text.splitOn separator) (member : char ∈ stretch) :
    char ∈ text ∧ char ≠ separator := by
  induction text generalizing stretch with
  | nil =>
      rw [List.splitOn_nil, List.mem_singleton] at inside
      rw [inside] at member
      cases member
  | cons head text induction =>
      rw [List.splitOn_cons_eq_if_modifyHead] at inside
      split at inside
      · rcases List.mem_cons.mp inside with rfl | inside
        · cases member
        · exact (induction inside member).imp_left (List.mem_cons_of_mem head)
      · next other =>
        rcases List.exists_cons_of_ne_nil (List.splitOn_ne_nil separator text) with
          ⟨first, others, parts⟩
        rw [parts, List.modifyHead_cons] at inside
        rw [parts] at induction
        rcases List.mem_cons.mp inside with rfl | inside
        · rcases List.mem_cons.mp member with rfl | member
          · exact ⟨List.mem_cons_self, by simpa using other⟩
          · exact (induction List.mem_cons_self member).imp_left (List.mem_cons_of_mem head)
        · exact (induction (List.mem_cons_of_mem first inside) member).imp_left
            (List.mem_cons_of_mem head)

/-! ## The first stretch -/

theorem takeWhile_ne_eq_self_iff {chars : List Char} {mark : Char} :
    chars.takeWhile (· ≠ mark) = chars ↔ mark ∉ chars := by
  rw [List.takeWhile_eq_self_iff]
  constructor
  · intro others member
    simpa using others mark member
  · intro absent char member
    simpa using ne_of_mem_of_not_mem member absent

theorem takeWhile_ne_append_cons (front : List Char) (mark : Char) (rest : List Char) :
    (front ++ mark :: rest).takeWhile (· ≠ mark) = front.takeWhile (· ≠ mark) := by
  induction front with
  | nil => simp
  | cons char front induction =>
      by_cases same : char = mark
      · simp [same]
      · simpa [same] using induction

end MarkupExport.Text
