import Mathlib.Data.List.Forall2
import Mathlib.Logic.Relation
import MarkupExport.Proofs.Settings.Sections

/-!
The order of entries. A table has its entries in no order of its own, so what a document gives to a
setting should not depend on the order in which they are put in. It does not as long as the document
gives one value at most to the setting.
-/

namespace MarkupExport.SettingValue

/-- Two neighbouring entries change places, in the list or in a table that it holds. -/
inductive Swaps : List (String × SettingValue) → List (String × SettingValue) → Prop
  | here {first second rest} : Swaps (first :: second :: rest) (second :: first :: rest)
  | later {entry left right} : Swaps left right → Swaps (entry :: left) (entry :: right)
  | inside {name left right rest} : Swaps left right →
      Swaps ((name, table left) :: rest) ((name, table right) :: rest)

/-- The same entries, with those of each table in any order. -/
def Reordered : List (String × SettingValue) → List (String × SettingValue) → Prop :=
  Relation.ReflTransGen Swaps

/-- It makes no difference which of the two is put in: they are the same or equally unreadable, and
both or neither leave everything as it was. -/
def Similar (left right : SettingValue) : Prop :=
  Alike left right ∧ left.isVoid = right.isVoid

namespace Similar

theorem refl (value : SettingValue) : Similar value value :=
  ⟨.inl rfl, rfl⟩

theorem of_isContainer {left right : SettingValue} (isLeft : left.isContainer = true)
    (isRight : right.isContainer = true) (void : left.isVoid = right.isVoid) :
    Similar left right :=
  ⟨.inr ⟨isLeft, isRight⟩, void⟩

theorem trans {first second third : SettingValue} (left : Similar first second)
    (right : Similar second third) : Similar first third := by
  refine ⟨?_, left.2.trans right.2⟩
  rcases left.1 with rfl | ⟨isFirst, isSecond⟩
  · exact right.1
  · rcases right.1 with rfl | ⟨_, isThird⟩
    · exact .inr ⟨isFirst, isSecond⟩
    · exact .inr ⟨isFirst, isThird⟩

theorem forall₂_refl (values : List SettingValue) : List.Forall₂ Similar values values :=
  List.forall₂_same.mpr fun value _ => refl value

theorem forall₂_trans {first second third : List SettingValue}
    (left : List.Forall₂ Similar first second) (right : List.Forall₂ Similar second third) :
    List.Forall₂ Similar first third := by
  induction left generalizing third with
  | nil => exact right
  | cons head _ induction =>
      cases right with
      | cons next rest => exact .cons (head.trans next) (induction rest)

theorem table {left right : List (String × SettingValue)} (swaps : Swaps left right) :
    Similar (.table left) (.table right) := by
  refine of_isContainer rfl rfl ?_
  cases swaps <;> rfl

theorem wrapped {left right : List (String × SettingValue)} (swaps : Swaps left right)
    (steps : List PathStep) :
    Similar (steps.foldr PathStep.wrap (.table left))
      (steps.foldr PathStep.wrap (.table right)) := by
  cases steps with
  | nil => exact table swaps
  | cons step steps =>
      refine of_isContainer (isContainer_wrap ..) (isContainer_wrap ..) ?_
      rw [List.foldr_cons, List.foldr_cons, isVoid_wrap, isVoid_wrap]

end Similar

/-! ## What prevails -/

theorem getLast?_similar {left right : List SettingValue}
    (similar : List.Forall₂ Similar left right) :
    Option.Rel Alike left.getLast? right.getLast? := by
  induction similar with
  | nil => exact .none
  | @cons first second left right head _ induction =>
      rw [List.getLast?_cons, List.getLast?_cons]
      generalize left.getLast? = last, right.getLast? = other at induction
      cases induction with
      | none => exact .some head.1
      | some alike => exact .some alike

theorem prevailing_similar {left right : List SettingValue}
    (similar : List.Forall₂ Similar left right) :
    Option.Rel Alike (prevailing left) (prevailing right) := by
  have filtered : List.Forall₂ Similar (left.filter fun value => !value.isVoid)
      (right.filter fun value => !value.isVoid) := by
    refine List.rel_filter ?_ similar
    intro first second alike
    simp [alike.2]
  have visible := getLast?_similar filtered
  rw [prevailing, prevailing]
  generalize (left.filter _).getLast? = last, (right.filter _).getLast? = other at visible
  cases visible with
  | none => exact getLast?_similar similar
  | some alike => exact .some alike

/-! ## What is given -/

section Given

variable {left right : List (String × SettingValue)}

/-- Where values are gathered entry by entry and there is one at most, it stays the same if entries
change places, except for the order inside it. -/
theorem Swaps.similar_gathered (gather : List (String × SettingValue) → List SettingValue)
    (split : ∀ entry rest, gather (entry :: rest) = gather [entry] ++ gather rest)
    (inTable : ∀ {name left right}, Swaps left right → (gather [(name, table left)]).length ≤ 1 →
      List.Forall₂ Similar (gather [(name, table left)]) (gather [(name, table right)]))
    (swaps : Swaps left right) (once : (gather left).length ≤ 1) :
    List.Forall₂ Similar (gather left) (gather right) := by
  induction swaps with
  | @here first second rest =>
      rw [split first, split second rest, List.length_append, List.length_append] at once
      rw [split first, split second rest, split second (first :: rest), split first rest]
      -- One of the two entries gives nothing.
      rcases (by omega : (gather [first]).length = 0 ∨ (gather [second]).length = 0) with
        empty | empty <;>
        rw [List.eq_nil_of_length_eq_zero empty] <;>
        exact Similar.forall₂_refl _
  | @later entry left right _ induction =>
      rw [split, List.length_append] at once
      rw [split entry left, split entry right]
      exact List.rel_append (Similar.forall₂_refl _) (induction (by omega))
  | @inside name left right rest swaps _ =>
      rw [split, List.length_append] at once
      rw [split _ rest, split (name, table right)]
      exact List.rel_append (inTable swaps (by omega)) (Similar.forall₂_refl _)

theorem similar_named_singleton {first second : SettingValue} (similar : Similar first second)
    (name text : String) :
    List.Forall₂ Similar (named name [(text, first)]) (named name [(text, second)]) := by
  rw [named_cons, named_cons]
  split
  · exact .cons similar (Similar.forall₂_refl _)
  · exact Similar.forall₂_refl _

theorem Swaps.similar_named (swaps : Swaps left right) {name : String}
    (once : (named name left).length ≤ 1) :
    List.Forall₂ Similar (named name left) (named name right) := by
  refine swaps.similar_gathered (named name) (fun entry rest => ?_)
    (fun inner _ => similar_named_singleton (.table inner) ..) once
  rw [named_cons, named_cons]
  split <;> rfl

theorem Swaps.similar_givenTo (swaps : Swaps left right) {place member : String}
    (once : (givenTo place member (writtenOut left)).length ≤ 1) :
    List.Forall₂ Similar (givenTo place member (writtenOut left))
      (givenTo place member (writtenOut right)) := by
  refine swaps.similar_gathered (fun document => givenTo place member (writtenOut document))
    (fun entry rest => givenTo_cons ..) (fun {name left right} inner once => ?_) once
  have gives (value : SettingValue) : givenTo place member (writtenOut [(name, value)]) =
      if Text.lowercase (SettingPath.ofName name).root = place then
        named member ((SettingPath.ofName name).steps.foldr PathStep.wrap value).entries
      else [] := givenTo_singleton ..
  rw [gives] at once
  rw [gives, gives]
  by_cases here : Text.lowercase (SettingPath.ofName name).root = place
  · rw [if_pos here] at once
    rw [if_pos here, if_pos here]
    cases path : (SettingPath.ofName name).steps with
    | nil =>
        rw [path] at once
        exact inner.similar_named once
    | cons step steps =>
        cases step with
        | place index => exact .nil
        | name text => exact similar_named_singleton (.wrapped inner steps) member text
  · rw [if_neg here, if_neg here]
    exact .nil

theorem Swaps.hasTable (swaps : Swaps left right) {place : String}
    (hasTable : HasTable place (writtenOut left)) : HasTable place (writtenOut right) := by
  simp only [HasTable, writtenOut, List.forall_mem_map] at hasTable ⊢
  induction swaps with
  | here => simpa only [List.forall_mem_cons, and_left_comm] using hasTable
  | later _ induction =>
      rw [List.forall_mem_cons] at hasTable ⊢
      exact ⟨hasTable.1, induction hasTable.2⟩
  | @inside name _ _ _ _ _ =>
      rw [List.forall_mem_cons] at hasTable ⊢
      refine ⟨fun here => ?_, hasTable.2⟩
      have isTable := hasTable.1 here
      simp only [SettingPath.entry] at isTable ⊢
      cases path : (SettingPath.ofName name).steps with
      | nil => rfl
      | cons step =>
          rw [path] at isTable
          cases step with
          | name => rfl
          | place => cases isTable

/-- A document gives the same to a setting in whatever order it is put in, if it gives one value at
most. -/
theorem Reordered.similar_givenTo (reordered : Reordered left right) {place member : String}
    (once : (givenTo place member (writtenOut left)).length ≤ 1) :
    List.Forall₂ Similar (givenTo place member (writtenOut left))
      (givenTo place member (writtenOut right)) := by
  induction reordered with
  | refl => exact Similar.forall₂_refl _
  | tail _ swaps similar =>
      rw [similar.length_eq] at once
      exact Similar.forall₂_trans similar (swaps.similar_givenTo once)

theorem Reordered.hasTable (reordered : Reordered left right) {place : String}
    (hasTable : HasTable place (writtenOut left)) : HasTable place (writtenOut right) := by
  induction reordered with
  | refl => exact hasTable
  | tail _ swaps induction => exact swaps.hasTable induction

end Given

end MarkupExport.SettingValue
