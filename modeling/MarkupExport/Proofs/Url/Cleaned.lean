import MarkupExport.Proofs.Url.Ends

/-!
What is read of a text: nothing at its ends that is cut off, and nothing that is skipped. The scheme
is the same with and without these characters, and escaping others does not disturb them.
-/

namespace MarkupExport.Url

variable {char : Char} {chars : List Char}

/-- What is left of a text without the characters at its ends that are cut off and those in it that
are skipped. -/
def cleaned (chars : List Char) : List Char :=
  withoutIgnored (trimmed chars)

/-! ## Ends -/

/-- What is left begins with something visible. -/
theorem isVisible_of_head?_trimmed (first : char ∈ (trimmed chars).head?) : IsVisible char := by
  rcases Text.dropRightWhile_prefix isTrimmed (chars.dropWhile isTrimmed) with ⟨back, whole⟩
  have begins : (chars.dropWhile isTrimmed).head? = some char := by
    rw [← whole, ← trimmed, List.head?_append, Option.mem_def.mp first]
    rfl
  have stops := List.head?_dropWhile_not isTrimmed chars
  rw [begins] at stops
  exact isTrimmed_eq_false_iff.mp stops

theorem isVisible_of_head?_cleaned (first : char ∈ (cleaned chars).head?) : IsVisible char := by
  have begins (head : Char) : head ∈ (trimmed chars).head? → IsVisible head :=
    isVisible_of_head?_trimmed
  rw [cleaned] at first
  generalize trimmed chars = text at first begins
  cases text with
  | nil => cases first
  | cons head rest =>
      have visible := begins head rfl
      rw [withoutIgnored, List.filter_cons_of_pos (by simp [visible.isIgnored])] at first
      cases first
      exact visible

theorem trimmed_cleaned (chars : List Char) : trimmed (cleaned chars) = cleaned chars :=
  trimmed_eq_self (fun _ first => isVisible_of_head?_cleaned first)
    (isVisible_getLast?_withoutIgnored fun _ last => isVisible_of_getLast?_trimmed last)

/-- Nothing is cut off in front of something visible. -/
theorem trimmed_append {front : List Char} (nonempty : front ≠ [])
    (visible : ∀ char ∈ front, IsVisible char) (rest : List Char) :
    trimmed (front ++ rest) = front ++ Text.dropRightWhile isTrimmed rest := by
  have kept (char : Char) (member : char ∈ front) : isTrimmed char = false :=
    isTrimmed_eq_false_iff.mpr (visible char member)
  have begins : (front ++ rest).dropWhile isTrimmed = front ++ rest := by
    rcases List.exists_cons_of_ne_nil nonempty with ⟨first, others, rfl⟩
    rw [List.cons_append, List.dropWhile_cons, kept first List.mem_cons_self,
      if_neg Bool.false_ne_true]
  rw [trimmed, begins]
  rcases List.eq_nil_or_concat front with rfl | ⟨others, last, rfl⟩
  · exact absurd rfl nonempty
  · rw [List.concat_eq_append] at kept ⊢
    exact Text.dropRightWhile_append others (kept last (by simp)) rest

/-- A text that begins with something visible still begins with it. -/
theorem cleaned_append {front : List Char} (nonempty : front ≠ [])
    (visible : ∀ char ∈ front, IsVisible char) (rest : List Char) :
    cleaned (front ++ rest) = front ++ withoutIgnored (Text.dropRightWhile isTrimmed rest) := by
  have inFront : withoutIgnored front = front :=
    withoutIgnored_eq_self fun char member => Nat.le_of_lt (visible char member)
  rw [cleaned, trimmed_append nonempty visible, withoutIgnored, List.filter_append,
    ← withoutIgnored, ← withoutIgnored, inFront]

theorem cleaned_cons (visible : IsVisible char) (rest : List Char) :
    cleaned (char :: rest) = char :: withoutIgnored (Text.dropRightWhile isTrimmed rest) :=
  cleaned_append (List.cons_ne_nil char []) (List.forall_mem_singleton.mpr visible) rest

theorem cleaned_cleaned (chars : List Char) : cleaned (cleaned chars) = cleaned chars := by
  rw [cleaned, trimmed_cleaned, cleaned, withoutIgnored, withoutIgnored, List.filter_filter]
  simp

theorem sublist_cleaned (chars : List Char) : (cleaned chars).Sublist chars :=
  List.filter_sublist.trans
    ((Text.dropRightWhile_prefix _ _).sublist.trans (List.dropWhile_suffix _).sublist)

theorem count_dropWhile {test : Char → Bool} (kept : test char = false) (chars : List Char) :
    (chars.dropWhile test).count char = chars.count char := by
  have absent : char ∉ chars.takeWhile test := by
    intro member
    have passes := List.all_eq_true.mp List.all_takeWhile char member
    rw [kept] at passes
    cases passes
  have whole : (chars.takeWhile test ++ chars.dropWhile test).count char = chars.count char := by
    rw [List.takeWhile_append_dropWhile]
  rwa [List.count_append, List.count_eq_zero_of_not_mem absent, Nat.zero_add] at whole

theorem count_withoutIgnored (visible : IsVisible char) (chars : List Char) :
    (withoutIgnored chars).count char = chars.count char :=
  List.count_filter (by simp [visible.isIgnored])

/-- Nothing visible is cut off or skipped. -/
theorem count_cleaned (visible : IsVisible char) (chars : List Char) :
    (cleaned chars).count char = chars.count char := by
  have uncut := isTrimmed_eq_false_iff.mpr visible
  rw [cleaned, count_withoutIgnored visible, trimmed, Text.dropRightWhile, List.count_reverse,
    count_dropWhile uncut, List.count_reverse, count_dropWhile uncut]

/-! ## Schemes -/

theorem schemeTail?_withoutIgnored (chars : List Char) :
    schemeTail? (withoutIgnored chars) =
      (schemeTail? chars).map fun (tail, rest) => (tail, withoutIgnored rest) := by
  induction chars with
  | nil => rfl
  | cons char chars induction =>
      rw [schemeTail?]
      cases ignored : isIgnored char with
      | true =>
          rw [withoutIgnored, List.filter_cons_of_neg (by simp [ignored]), ← withoutIgnored,
            induction, if_pos rfl]
      | false =>
          rw [withoutIgnored, List.filter_cons_of_pos (by simp [ignored]), ← withoutIgnored,
            schemeTail?, ignored, if_neg Bool.false_ne_true, if_neg Bool.false_ne_true]
          split
          · rfl
          split
          · rw [induction, Option.map_map, Option.map_map]
            rfl
          · rfl

theorem scheme?_cons_ignored (ignored : isIgnored char = true) :
    scheme? (char :: chars) = scheme? chars := by
  rw [scheme?, scheme?, List.dropWhile_cons, ignored, if_pos rfl]

theorem scheme?_cons (kept : isIgnored char = false) :
    scheme? (char :: chars) =
      if char.isAlpha then
        (schemeTail? chars).map fun (tail, after) => (char.toLower :: tail, after)
      else none := by
  rw [scheme?, List.dropWhile_cons, kept, if_neg Bool.false_ne_true]

theorem scheme?_withoutIgnored (chars : List Char) :
    scheme? (withoutIgnored chars) =
      (scheme? chars).map fun (scheme, rest) => (scheme, withoutIgnored rest) := by
  induction chars with
  | nil => rfl
  | cons char chars induction =>
      cases ignored : isIgnored char with
      | true =>
          rw [withoutIgnored, List.filter_cons_of_neg (by simp [ignored]), ← withoutIgnored,
            scheme?_cons_ignored ignored, induction]
      | false =>
          rw [withoutIgnored, List.filter_cons_of_pos (by simp [ignored]), ← withoutIgnored,
            scheme?_cons ignored, scheme?_cons ignored]
          split
          · rw [schemeTail?_withoutIgnored, Option.map_map, Option.map_map]
            rfl
          · rfl

/-- Whether a text has a scheme does not depend on what is cut off or skipped in it. -/
theorem scheme?_cleaned_eq_none_iff :
    scheme? (cleaned chars) = none ↔ scheme? (trimmed chars) = none := by
  rw [cleaned, scheme?_withoutIgnored, Option.map_eq_none_iff]

section Stop

variable {front rest : List Char}

theorem scheme?_stop (stops : ∀ char ∈ rest.head?, char ∈ ['/', '?', '#']) :
    schemeTail? rest = none ∧ scheme? rest = none := by
  cases rest with
  | nil => exact ⟨rfl, rfl⟩
  | cons char rest =>
      have mark := stops char rfl
      simp only [List.mem_cons, List.not_mem_nil, or_false] at mark
      rcases mark with rfl | rfl | rfl <;> exact ⟨rfl, rfl⟩

theorem schemeTail?_append_stop (stops : ∀ char ∈ rest.head?, char ∈ ['/', '?', '#']) :
    schemeTail? (front ++ rest) =
      (schemeTail? front).map fun (tail, after) => (tail, after ++ rest) := by
  induction front with
  | nil => exact (scheme?_stop stops).1
  | cons char front induction =>
      rw [List.cons_append, schemeTail?, schemeTail?]
      split
      · exact induction
      split
      · rfl
      split
      · rw [induction, Option.map_map, Option.map_map]
        rfl
      · rfl

/-- A slash, a query or a fragment ends the part of a text that may be its scheme. -/
theorem scheme?_append_stop (stops : ∀ char ∈ rest.head?, char ∈ ['/', '?', '#']) :
    scheme? (front ++ rest) =
      (scheme? front).map fun (scheme, after) => (scheme, after ++ rest) := by
  induction front with
  | nil => exact (scheme?_stop stops).2
  | cons char front induction =>
      rw [List.cons_append]
      cases ignored : isIgnored char with
      | true => rw [scheme?_cons_ignored ignored, scheme?_cons_ignored ignored, induction]
      | false =>
          rw [scheme?_cons ignored, scheme?_cons ignored]
          split
          · rw [schemeTail?_append_stop stops, Option.map_map, Option.map_map]
            rfl
          · rfl

end Stop

/-! ## Escaping -/

/-- A way to write characters that neither makes nor hides one that passes the test. -/
structure Respects (test : Char → Bool) (write : Char → List Char) : Prop where
  passing : ∀ char, test char = true → write char = [char]
  failing : ∀ char, test char = false →
    write char ≠ [] ∧ ∀ letter ∈ write char, test letter = false

namespace Respects

variable {test : Char → Bool} {write : Char → List Char}

theorem reverse (respects : Respects test write) :
    Respects test (fun char => (write char).reverse) where
  passing char passes := by rw [respects.passing char passes, List.reverse_singleton]
  failing char fails := by
    rcases respects.failing char fails with ⟨nonempty, inside⟩
    exact ⟨by rwa [Ne, List.reverse_eq_nil_iff],
      fun letter member => inside letter (List.mem_reverse.mp member)⟩

theorem dropWhile (respects : Respects test write) (chars : List Char) :
    (chars.flatMap write).dropWhile test = (chars.dropWhile test).flatMap write := by
  induction chars with
  | nil => rfl
  | cons char chars induction =>
      rw [List.flatMap_cons, List.dropWhile_cons]
      cases tested : test char with
      | true =>
          rw [respects.passing char tested, List.singleton_append, List.dropWhile_cons, tested,
            if_pos rfl, if_pos rfl, induction]
      | false =>
          rcases respects.failing char tested with ⟨nonempty, inside⟩
          rcases List.exists_cons_of_ne_nil nonempty with ⟨letter, letters, spelled⟩
          have stops : test letter = false := inside letter (spelled ▸ List.mem_cons_self)
          rw [if_neg Bool.false_ne_true, List.flatMap_cons, spelled, List.cons_append,
            List.dropWhile_cons, stops, if_neg Bool.false_ne_true]

theorem dropRightWhile (respects : Respects test write) (chars : List Char) :
    Text.dropRightWhile test (chars.flatMap write) =
      (Text.dropRightWhile test chars).flatMap write := by
  have twice : List.reverse ∘ (fun char => (write char).reverse) = write :=
    funext fun char => List.reverse_reverse (write char)
  have dropped := respects.reverse.dropWhile chars.reverse
  rw [Text.dropRightWhile, Text.dropRightWhile, List.reverse_flatMap]
  exact (congrArg List.reverse dropped).trans (by rw [List.reverse_flatMap, twice])

theorem filter (respects : Respects test write) (chars : List Char) :
    (chars.flatMap write).filter (fun char => !test char) =
      (chars.filter fun char => !test char).flatMap write := by
  induction chars with
  | nil => rfl
  | cons char chars induction =>
      rw [List.flatMap_cons, List.filter_append, induction]
      cases tested : test char with
      | true =>
          rw [respects.passing char tested, List.filter_cons_of_neg (by simp [tested]),
            List.filter_cons_of_neg (by simp [tested]), List.filter_nil, List.nil_append]
      | false =>
          have kept : (write char).filter (fun letter => !test letter) = write char :=
            List.filter_eq_self.mpr fun letter member => by
              rw [(respects.failing char tested).2 letter member]
              rfl
          rw [kept, List.filter_cons_of_pos (by simp [tested]), List.flatMap_cons]

theorem countP (respects : Respects test write) (chars : List Char) :
    (chars.flatMap write).countP test = chars.countP test := by
  induction chars with
  | nil => rfl
  | cons char chars induction =>
      rw [List.flatMap_cons, List.countP_append, induction]
      cases tested : test char with
      | true =>
          rw [respects.passing char tested, List.countP_singleton, tested, if_pos rfl,
            List.countP_cons_of_pos tested, Nat.add_comm]
      | false =>
          have none : (write char).countP test = 0 :=
            List.countP_eq_zero.mpr fun letter member => by
              simp [(respects.failing char tested).2 letter member]
          rw [none, List.countP_cons_of_neg (by simp [tested]), Nat.zero_add]

end Respects

/-- Percent-encoding neither makes nor hides what it keeps and no escape contains. -/
theorem respects_percent {reserved : Text.Percent.Set} {test : Char → Bool}
    (kept : ∀ char, test char = true → Text.Percent.Keeps reserved char)
    (unmarked : ∀ mark ∈ Text.Percent.marks, test mark = false) :
    Respects test (Text.Percent.char reserved) where
  passing char passes := Text.Percent.char_eq_self (kept char passes)
  failing char fails := by
    refine ⟨Text.Percent.char_ne_nil char, fun letter member => ?_⟩
    rcases Text.Percent.mem_char member with mark | ⟨rfl, _⟩
    · exact unmarked letter mark
    · exact fails

theorem cleaned_flatMap {write : Char → List Char} (uncut : Respects isTrimmed write)
    (unskipped : Respects isIgnored write) (chars : List Char) :
    cleaned (chars.flatMap write) = (cleaned chars).flatMap write := by
  rw [cleaned, trimmed, uncut.dropWhile, uncut.dropRightWhile, withoutIgnored, unskipped.filter]
  rfl

end MarkupExport.Url
