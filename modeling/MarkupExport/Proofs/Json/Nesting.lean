import MarkupExport.Node.Reader
import MarkupExport.Proofs.Json.RoundTrip

/-!
How deep values are nested. A plain value is readable if it opens no more brackets at once than the
reader allows, and whatever is readable opens no more than that.
-/

namespace MarkupExport

/-! ## Whole numbers are in range -/

namespace NumberLiteral

theorem le_ofDigitChars (number : Nat) (digits : List Char) :
    number ≤ Nat.ofDigitChars 10 digits number := by
  rw [Nat.ofDigitChars_eq_ofDigitChars_zero]
  have scaled : number ≤ 10 ^ digits.length * number :=
    Nat.le_mul_of_pos_left number (Nat.pow_pos (Nat.succ_pos 9))
  omega

/-- Digits are gathered to the last if the number that they make fits. -/
theorem gather_eq {digits : List Char} {number : Nat}
    (small : Nat.ofDigitChars 10 digits number < Nat.pow 2 64) :
    gather number digits = (Nat.ofDigitChars 10 digits number, []) := by
  induction digits generalizing number with
  | nil => rfl
  | cons digit digits induction =>
      rw [Nat.ofDigitChars_cons] at small ⊢
      have next : digitsValue [digit] + 10 * number = 10 * number + (digit.toNat - '0'.toNat) := by
        rw [digitsValue, Nat.ofDigitChars_cons, Nat.ofDigitChars_nil]
        omega
      have below := Nat.lt_of_le_of_lt (le_ofDigitChars _ digits) small
      rw [gather, next, if_pos below]
      exact induction small

theorem roundToDouble_le (number : Nat) : roundToDouble number ≤ 2 * number + 1 := by
  have rounded (numerator denominator : Nat) :
      roundQuotient numerator denominator ≤ numerator / denominator + 1 := by
    rw [roundQuotient]
    split <;> omega
  have unit : 2 ^ (number.log2 - 52) ≤ number + 1 := by
    by_cases nonzero : number = 0
    · rw [nonzero]; decide
    · have smaller : 2 ^ (number.log2 - 52) ≤ 2 ^ number.log2 :=
        Nat.pow_le_pow_right (by decide) (Nat.sub_le _ _)
      have highest := Nat.log2_self_le nonzero
      omega
  calc roundToDouble number
      ≤ (number / 2 ^ (number.log2 - 52) + 1) * 2 ^ (number.log2 - 52) :=
        Nat.mul_le_mul_right _ (rounded _ _)
    _ = number / 2 ^ (number.log2 - 52) * 2 ^ (number.log2 - 52) + 2 ^ (number.log2 - 52) := by
        rw [Nat.add_mul, Nat.one_mul]
    _ ≤ number + (number + 1) := Nat.add_le_add (Nat.div_mul_le_self _ _) unit
    _ = 2 * number + 1 := by omega

theorem inRange_ofInt (value : Int64) : (ofInt value.toInt).inRange = true := by
  have lower : -2 ^ 63 ≤ value.toInt := Int64.minValue_le_toInt value
  have upper : value.toInt < 2 ^ 63 := value.toInt_lt
  have small : value.toInt.natAbs ≤ 2 ^ 63 := by omega
  have digits : Nat.ofDigitChars 10 (Nat.toDigits 10 value.toInt.natAbs) 0 =
      value.toInt.natAbs := Nat.ofDigitChars_toDigits (by decide) (by decide)
  have scaled : (ofInt value.toInt).scale = (value.toInt.natAbs, 0) := by
    have gathered : gather 0 (Nat.toDigits 10 value.toInt.natAbs) =
        (Nat.ofDigitChars 10 (Nat.toDigits 10 value.toInt.natAbs) 0, []) :=
      gather_eq (by rw [digits]; exact Nat.lt_of_le_of_lt small (by decide))
    rw [digits] at gathered
    simp only [scale, ofInt, gathered, gather, List.length_nil]
    rfl
  have product : roundToDouble value.toInt.natAbs * roundToDouble (Nat.pow 10 (0 : Int).toNat) <
      Nat.pow 2 1024 - Nat.pow 2 970 := by
    have one : roundToDouble (Nat.pow 10 (0 : Int).toNat) = 1 := by decide
    have bound := roundToDouble_le value.toInt.natAbs
    have large : 2 ^ 65 ≤ Nat.pow 2 1024 - Nat.pow 2 970 := by decide +kernel
    rw [one, Nat.mul_one]
    refine Nat.lt_of_lt_of_le ?_ large
    omega
  have unscaled : (ofInt value.toInt).exponentValue = 0 := rfl
  rw [inRange, scaled, unscaled]
  simp only [Int.add_zero, Int.lt_irrefl, or_false, if_neg (by decide : ¬ (308 : Int) < 0),
    decide_eq_true product, ite_self]

end NumberLiteral

namespace Json

mutual

/-- How many brackets are open at once at most. -/
def nesting : Json → Nat
  | .null | .bool _ | .number _ | .text _ => 0
  | .array items => itemsNesting items + 1
  | .object members => membersNesting members + 1

def itemsNesting : List Json → Nat
  | [] => 0
  | item :: items => max (nesting item) (itemsNesting items)

def membersNesting : List (Option String × Json) → Nat
  | [] => 0
  | (_, value) :: members => max (nesting value) (membersNesting members)

end

mutual

theorem isReadable_of_isPlain {limit : Nat} : ∀ value : Json, value.IsPlain →
    value.nesting ≤ limit → value.isReadable limit = true
  | .null, _, _ => by rw [isReadable]
  | .bool _, _, _ => by rw [isReadable]
  | .number _, ⟨value, rfl⟩, _ => by
    rw [isReadable]
    exact NumberLiteral.inRange_ofInt value
  | .text _, valued, _ => by
    rw [isReadable]
    exact valued
  | .array items, plain, shallow => by
    rw [nesting] at shallow
    rw [isReadable, areReadable_of_arePlain items plain (by omega)]
    simp only [Bool.and_true, decide_eq_true_eq]
    omega
  | .object members, plain, shallow => by
    rw [nesting] at shallow
    rw [isReadable, membersReadable_of_membersPlain members plain (by omega)]
    simp only [Bool.and_true, decide_eq_true_eq]
    omega

theorem areReadable_of_arePlain {limit : Nat} : ∀ items : List Json, ArePlain items →
    itemsNesting items ≤ limit → areReadable limit items = true
  | [], _, _ => by rw [areReadable]
  | item :: items, plain, shallow => by
    rw [itemsNesting] at shallow
    rw [areReadable, isReadable_of_isPlain item plain.1 (by omega),
      areReadable_of_arePlain items plain.2 (by omega), Bool.and_self]

theorem membersReadable_of_membersPlain {limit : Nat} : ∀ members : List (Option String × Json),
    MembersPlain members → membersNesting members ≤ limit → membersReadable limit members = true
  | [], _, _ => by rw [membersReadable]
  | (key, value) :: members, plain, shallow => by
    rw [membersNesting] at shallow
    rw [membersReadable, plain.1, isReadable_of_isPlain value plain.2.1 (by omega),
      membersReadable_of_membersPlain members plain.2.2 (by omega), Bool.and_self, Bool.and_self]

end

mutual

theorem nesting_le_of_isReadable {limit : Nat} : ∀ value : Json, value.isReadable limit = true →
    value.nesting ≤ limit
  | .null, _ | .bool _, _ | .number _, _ | .text _, _ => Nat.zero_le limit
  | .array items, readable => by
    rw [isReadable, Bool.and_eq_true, decide_eq_true_eq] at readable
    have inside := itemsNesting_le_of_areReadable items readable.2
    rw [nesting]
    omega
  | .object members, readable => by
    rw [isReadable, Bool.and_eq_true, decide_eq_true_eq] at readable
    have inside := membersNesting_le_of_membersReadable members readable.2
    rw [nesting]
    omega

theorem itemsNesting_le_of_areReadable {limit : Nat} : ∀ items : List Json,
    areReadable limit items = true → itemsNesting items ≤ limit
  | [], _ => Nat.zero_le limit
  | item :: items, readable => by
    rw [areReadable, Bool.and_eq_true] at readable
    rw [itemsNesting]
    exact Nat.max_le.mpr ⟨nesting_le_of_isReadable item readable.1,
      itemsNesting_le_of_areReadable items readable.2⟩

theorem membersNesting_le_of_membersReadable {limit : Nat} :
    ∀ members : List (Option String × Json), membersReadable limit members = true →
      membersNesting members ≤ limit
  | [], _ => Nat.zero_le limit
  | (_, value) :: members, readable => by
    rw [membersReadable, Bool.and_eq_true, Bool.and_eq_true] at readable
    rw [membersNesting]
    exact Nat.max_le.mpr ⟨nesting_le_of_isReadable value readable.1.2,
      membersNesting_le_of_membersReadable members readable.2⟩

end

end Json

end MarkupExport
