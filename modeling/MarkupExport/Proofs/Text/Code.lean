import MarkupExport.Text.Percent

/-! The classes of ASCII letters and digits as ranges of codes. -/

namespace MarkupExport.Text

/-- What holds of finitely many items is tested on one after the other. -/
theorem forall_mem_of_all {Item : Type} {items : List Item} {property : Item → Prop}
    [DecidablePred property] (tested : items.all (fun item => decide (property item)) = true) :
    ∀ item ∈ items, property item :=
  fun item member => of_decide_eq_true (List.all_eq_true.mp tested item member)

variable {char : Char}

theorem isDigit_iff_toNat : char.isDigit = true ↔ 48 ≤ char.toNat ∧ char.toNat ≤ 57 :=
  Bool.and_eq_true_iff.trans (and_congr decide_eq_true_iff decide_eq_true_iff)

theorem isUpper_iff_toNat : char.isUpper = true ↔ 65 ≤ char.toNat ∧ char.toNat ≤ 90 :=
  decide_eq_true_iff

theorem isLower_iff_toNat : char.isLower = true ↔ 97 ≤ char.toNat ∧ char.toNat ≤ 122 :=
  Bool.and_eq_true_iff.trans (and_congr decide_eq_true_iff decide_eq_true_iff)

theorem isAlpha_iff_toNat : char.isAlpha = true ↔
    65 ≤ char.toNat ∧ char.toNat ≤ 90 ∨ 97 ≤ char.toNat ∧ char.toNat ≤ 122 :=
  Bool.or_eq_true_iff.trans (or_congr isUpper_iff_toNat isLower_iff_toNat)

theorem isAlphanum_iff : char.isAlphanum = true ↔ char.isAlpha = true ∨ char.isDigit = true :=
  Bool.or_eq_true_iff

theorem isAlpha_of_isDigit (digit : char.isDigit = true) : char.isAlpha = false := by
  rw [Bool.eq_false_iff, Ne, isAlpha_iff_toNat]
  rw [isDigit_iff_toNat] at digit
  omega

/-! Only capitals have another lower case, and it is no capital. -/

theorem toLower_eq_self (lower : char.isUpper = false) : char.toLower = char :=
  dif_neg (decide_eq_false_iff_not.mp lower)

theorem toNat_toLower (upper : char.isUpper = true) : char.toLower.toNat = char.toNat + 32 := by
  have range := isUpper_iff_toNat.mp upper
  have code : char.toLower.val = char.val + 32 :=
    congrArg Char.val (dif_pos (of_decide_eq_true upper))
  have sum : (char.val + 32).toNat = (char.toNat + 32) % 2 ^ 32 := UInt32.toNat_add char.val 32
  rw [Char.toNat, code, sum]
  omega

theorem isUpper_toLower (char : Char) : char.toLower.isUpper = false := by
  cases upper : char.isUpper with
  | false => rwa [toLower_eq_self upper]
  | true =>
      have range := isUpper_iff_toNat.mp upper
      rw [Bool.eq_false_iff, Ne, isUpper_iff_toNat, toNat_toLower upper]
      omega

theorem toLower_toLower (char : Char) : char.toLower.toLower = char.toLower :=
  toLower_eq_self (isUpper_toLower char)

end MarkupExport.Text
