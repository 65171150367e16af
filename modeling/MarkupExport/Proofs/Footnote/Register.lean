import MarkupExport.Footnote.Register

/-!
How a footnote register grows. A label keeps the number it has been given and a number keeps its
text, so a later register extends every earlier one.
-/

namespace MarkupExport

namespace FootnoteRegister

/-- The text that a number has got. -/
def text? (register : FootnoteRegister) (number : Nat) : Option String :=
  register.entries.lookup number

theorem text?_eq_none_iff {register : FootnoteRegister} {number : Nat} :
    register.text? number = none ↔ number ∉ Ascending.keys register.entries :=
  Ascending.lookup_eq_none_iff_not_mem_keys

theorem text?_of_mem {register : FootnoteRegister} {number : Nat} {text : String}
    (member : (number, text) ∈ register.entries) : register.text? number = some text :=
  Ascending.lookup_of_mem register.ascending_entries member

theorem number?_eq_none_iff {register : FootnoteRegister} {label : String} :
    register.number? label = none ↔ label ∉ register.labels := by
  simp [number?]

/-- Labels are numbered by their places. -/
theorem number?_eq_some_iff {register : FootnoteRegister} {label : String} {number : Nat} :
    register.number? label = some number ↔
      ∃ index, number = index + 1 ∧ register.labels[index]? = some label := by
  simp only [number?, Option.map_eq_some_iff, List.idxOf?_eq_some_iff]
  constructor
  · intro placed
    rcases placed with ⟨index, ⟨inside, found, _⟩, rfl⟩
    exact ⟨index, rfl, List.getElem?_eq_some_iff.mpr ⟨inside, found⟩⟩
  · intro placed
    rcases placed with ⟨index, rfl, found⟩
    rcases List.getElem?_eq_some_iff.mp found with ⟨inside, equal⟩
    refine ⟨index, ⟨inside, equal, ?_⟩, rfl⟩
    intro earlier before same
    have sameIndex := (List.getElem_inj register.nodup_labels).mp (same.trans equal.symm)
    omega

theorem number?_bounds {register : FootnoteRegister} {label : String} {number : Nat}
    (known : register.number? label = some number) :
    1 ≤ number ∧ number ≤ register.labels.length := by
  rcases number?_eq_some_iff.mp known with ⟨index, rfl, found⟩
  have inside := (List.getElem?_eq_some_iff.mp found).1
  omega

theorem exists_number_iff {register : FootnoteRegister} {label : String} :
    (∃ number, register.number? label = some number) ↔ label ∈ register.labels := by
  rw [← Option.isSome_iff_exists, Option.isSome_iff_ne_none, ne_eq, number?_eq_none_iff,
    Classical.not_not]

theorem exists_label_iff {register : FootnoteRegister} {number : Nat} :
    (∃ label, register.number? label = some number) ↔
      1 ≤ number ∧ number ≤ register.labels.length := by
  constructor
  · rintro ⟨label, known⟩
    exact number?_bounds known
  · rintro ⟨above, below⟩
    have inside : number - 1 < register.labels.length := by omega
    exact ⟨register.labels[number - 1], number?_eq_some_iff.mpr
      ⟨number - 1, by omega, List.getElem?_eq_getElem inside⟩⟩

/-- Different labels have different numbers. -/
theorem number?_injective {register : FootnoteRegister} {left right : String} {number : Nat}
    (leftKnown : register.number? left = some number)
    (rightKnown : register.number? right = some number) : left = right := by
  rcases number?_eq_some_iff.mp leftKnown with ⟨index, rfl, leftFound⟩
  rcases number?_eq_some_iff.mp rightKnown with ⟨other, equal, rightFound⟩
  have sameIndex : index = other := by omega
  subst sameIndex
  exact Option.some.inj (leftFound.symm.trans rightFound)

/-! ## Giving numbers and texts -/

section Assign

variable {register : FootnoteRegister} {label : String}

theorem assign_of_unknown (unknown : register.number? label = none) :
    (register.assign label).1 = (register.labels.length + 1, true) ∧
      (register.assign label).2.labels = register.labels ++ [label] ∧
      (register.assign label).2.entries = register.entries := by
  rw [assign]
  split
  · next number found => simp [unknown] at found
  · exact ⟨rfl, rfl, rfl⟩

theorem assign_of_known {number : Nat} (known : register.number? label = some number) :
    register.assign label = ((number, false), register) := by
  rw [assign]
  split
  · next other found =>
      rw [known, Option.some.injEq] at found
      rw [found]
  · next unknown => simp [known] at unknown

theorem labels_assign (register : FootnoteRegister) (label : String) :
    (register.assign label).2.labels =
      if label ∈ register.labels then register.labels else register.labels ++ [label] := by
  cases known : register.number? label with
  | none => rw [if_neg (number?_eq_none_iff.mp known), (assign_of_unknown known).2.1]
  | some number => rw [if_pos (exists_number_iff.mp ⟨number, known⟩), assign_of_known known]

theorem number?_assign_self (unknown : register.number? label = none) :
    (register.assign label).2.number? label = some (register.labels.length + 1) := by
  apply number?_eq_some_iff.mpr
  refine ⟨register.labels.length, rfl, ?_⟩
  rw [(assign_of_unknown unknown).2.1]
  exact List.getElem?_concat_length

theorem text?_assign (unknown : register.number? label = none) (number : Nat) :
    (register.assign label).2.text? number = register.text? number := by
  rw [text?, text?, (assign_of_unknown unknown).2.2]

end Assign

theorem labels_define (register : FootnoteRegister) (number : Nat) (text : String) :
    (register.define number text).labels = register.labels :=
  rfl

theorem number?_define (register : FootnoteRegister) (number : Nat) (text label : String) :
    (register.define number text).number? label = register.number? label :=
  rfl

/-- The first text of a number is kept. -/
theorem text?_define (register : FootnoteRegister) (number other : Nat) (text : String) :
    (register.define number text).text? other =
      if other = number then some ((register.text? number).getD (Text.trim text))
      else register.text? other :=
  Ascending.lookup_insertNew number other (Text.trim text) register.entries

theorem mem_numbers_define {register : FootnoteRegister} {number other : Nat} {text : String} :
    other ∈ Ascending.keys (register.define number text).entries ↔
      other = number ∨ other ∈ Ascending.keys register.entries :=
  Ascending.mem_keys_insertNew

/-- Every label that is numbered here has the same number there. -/
def NumbersIn (register other : FootnoteRegister) : Prop :=
  ∀ label number, register.number? label = some number → other.number? label = some number

namespace NumbersIn

theorem refl (register : FootnoteRegister) : register.NumbersIn register :=
  fun _ _ numbered => numbered

theorem trans {first second third : FootnoteRegister} (left : first.NumbersIn second)
    (right : second.NumbersIn third) : first.NumbersIn third :=
  fun label number numbered => right label number (left label number numbered)

end NumbersIn

/-! ## Extension -/

/-- Nothing that the earlier register knows is different in the later one. -/
structure Extends (before after : FootnoteRegister) : Prop where
  labels : before.labels <+: after.labels
  texts : ∀ number text, before.text? number = some text → after.text? number = some text

namespace Extends

theorem refl (register : FootnoteRegister) : register.Extends register :=
  ⟨List.prefix_rfl, fun _ _ known => known⟩

theorem trans {first second third : FootnoteRegister} (left : first.Extends second)
    (right : second.Extends third) : first.Extends third :=
  ⟨left.labels.trans right.labels,
    fun number text known => right.texts number text (left.texts number text known)⟩

theorem assign {register : FootnoteRegister} {label : String}
    (unknown : register.number? label = none) :
    register.Extends (register.assign label).2 := by
  constructor
  · rw [(assign_of_unknown unknown).2.1]
    exact List.prefix_append _ _
  · intro number text known
    rw [text?_assign unknown]
    exact known

theorem define (register : FootnoteRegister) (number : Nat) (text : String) :
    register.Extends (register.define number text) := by
  constructor
  · exact List.prefix_rfl
  · intro other kept known
    rw [text?_define]
    split
    · next equal =>
        subst equal
        simp [known]
    · exact known

variable {before after : FootnoteRegister}

theorem number? (extension : before.Extends after) {label : String} {number : Nat}
    (known : before.number? label = some number) : after.number? label = some number := by
  rcases number?_eq_some_iff.mp known with ⟨index, rfl, found⟩
  apply number?_eq_some_iff.mpr
  rcases extension.labels with ⟨rest, append⟩
  refine ⟨index, rfl, ?_⟩
  rw [← append, List.getElem?_append_left (List.getElem?_eq_some_iff.mp found).1]
  exact found

theorem numbersIn (extension : before.Extends after) : before.NumbersIn after :=
  fun _ _ => extension.number?

theorem unknown (extension : before.Extends after) {label : String}
    (unknown : after.number? label = none) : before.number? label = none := by
  rw [number?_eq_none_iff] at unknown ⊢
  exact fun member => unknown (extension.labels.subset member)

theorem length_le (extension : before.Extends after) :
    before.labels.length ≤ after.labels.length :=
  extension.labels.length_le

end Extends

end FootnoteRegister

end MarkupExport
