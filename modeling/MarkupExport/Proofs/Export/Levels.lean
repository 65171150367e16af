import Mathlib.Control.Monad.Basic
import MarkupExport.Proofs.Export.Requirements

/-!
The levels that a style of headlines lists, told apart from those that it turns away. The two agree
except for an outline whose greatest level is beyond the signed numbers of 64 bits: it is compared
as a negative number, so levels that it lists are turned away. What an error says of the two levels
in it is true where the level lies above those listed; a negative level lies below them.
-/

namespace MarkupExport

namespace HeadlineStyle

/-- The level is one that the style has something for. -/
def Lists : HeadlineStyle → Int → Prop
  | .outline commentThrough maxLevel, level => level ≤ commentThrough.toInt ∨ level ≤ maxLevel.toNat
  | .marked markers _ _, level => 0 ≤ level ∧ level < markers.length

/-- The level up to which headlines go, as errors report it. -/
def greatest : HeadlineStyle → Nat
  | .outline _ maxLevel => maxLevel.toNat
  | .marked markers _ _ => markers.length - 1

/-- The level is compared with a greatest level that has become negative, and lies above it. -/
def Overflows : HeadlineStyle → Int → Prop
  | .outline commentThrough maxLevel, level =>
    Nat.pow 2 63 ≤ maxLevel.toNat ∧ commentThrough.toInt < level ∧
      (maxLevel.toNat : Int) - Nat.pow 2 64 < level
  | .marked _ _ _, _ => False

/-- Lines that show their level by a marker have at least one. -/
def HasMarkers : HeadlineStyle → Prop
  | .outline _ _ => True
  | .marked markers _ _ => markers ≠ []

variable {style : HeadlineStyle} {level : Int64}

theorem accepts_iff :
    style.Accepts level ↔ style.Lists level.toInt ∧ ¬ style.Overflows level.toInt := by
  cases style with
  | outline commentThrough maxLevel =>
      have signed : maxLevel.toInt64.toInt =
          if 2 * maxLevel.toNat < 2 ^ 64 then (maxLevel.toNat : Int)
          else maxLevel.toNat - 2 ^ 64 :=
        BitVec.toInt_eq_toNat_cond maxLevel.toBitVec
      have above := level.toInt_lt
      simp only [Accepts, Lists, Overflows, Int64.le_iff_toInt_le, signed, Nat.pow_eq]
      split <;> omega
  | marked markers emphasis underline => simp [Accepts, Lists, Overflows]

theorem greatest_lt_iff (markers : style.HasMarkers) (refused : ¬ style.Accepts level) :
    (style.greatest : Int) < level.toInt ↔ 0 ≤ level.toInt ∧ ¬ style.Lists level.toInt := by
  rw [accepts_iff] at refused
  cases style with
  | outline commentThrough maxLevel =>
      have above := level.toInt_lt
      simp only [Lists, Overflows, greatest, Nat.pow_eq] at refused ⊢
      omega
  | marked table emphasis underline =>
      have positive : 0 < table.length := List.length_pos_iff.mpr markers
      simp only [Lists, greatest]
      omega

end HeadlineStyle

namespace Profile

theorem titleLine_eq_error {profile : Profile} {level : Int64} {title : String}
    {error : TranscodeError} (failed : profile.titleLine level title = .error error) :
    error = .headlineLevelOutOfRange level profile.headlines.greatest profile.name := by
  rw [titleLine] at failed
  cases style : profile.headlines with
  | outline commentThrough maxLevel =>
      simp only [style] at failed
      split at failed
      · cases failed
      split at failed
      · cases failed
      · exact (Except.error.inj failed).symm
  | marked markers emphasis underline =>
      simp only [style] at failed
      split at failed
      · cases failed
      · exact (Except.error.inj failed).symm

/-- A headline fails on a level that its style does not list, and on one that is compared with a
greatest level which has become negative. The error reports the level and the greatest one listed;
the first exceeds the second, as the error says, unless it is negative or listed all the same. -/
theorem titleLine_level_error (profile : Profile) (markers : profile.headlines.HasMarkers)
    (level : Int64) (title : String) :
    ((∃ error, profile.titleLine level title = .error error) ↔
        ¬ profile.headlines.Lists level.toInt ∨ profile.headlines.Overflows level.toInt) ∧
      ∀ error, profile.titleLine level title = .error error →
        error = .headlineLevelOutOfRange level profile.headlines.greatest profile.name ∧
          ((profile.headlines.greatest : Int) < level.toInt ↔
            0 ≤ level.toInt ∧ ¬ profile.headlines.Lists level.toInt) := by
  have succeeds : (∃ line, profile.titleLine level title = .ok line) ↔
      profile.headlines.Accepts level := Rule.titleLine_succeeds_iff
  constructor
  · calc (∃ error, profile.titleLine level title = .error error)
        ↔ ¬ ∃ line, profile.titleLine level title = .ok line := by
          cases profile.titleLine level title <;> simp
      _ ↔ ¬ (profile.headlines.Lists level.toInt ∧ ¬ profile.headlines.Overflows level.toInt) := by
          rw [succeeds, HeadlineStyle.accepts_iff]
      _ ↔ ¬ profile.headlines.Lists level.toInt ∨ profile.headlines.Overflows level.toInt := by
          rw [not_and_or, not_not]
  · intro error failed
    refine ⟨titleLine_eq_error failed, HeadlineStyle.greatest_lt_iff markers ?_⟩
    rw [← succeeds]
    rintro ⟨line, succeeded⟩
    exact nomatch failed.symm.trans succeeded

/-- A level above all markers of a table, and one below them. -/
theorem titleLine_level_error_bbcode :
    Profile.bbcode.headlines.HasMarkers ∧
      Profile.bbcode.titleLine 6 "a" = .error (.headlineLevelOutOfRange 6 5 "bbcode") ∧
      (Profile.bbcode.headlines.greatest : Int) < (6 : Int64).toInt ∧
      Profile.bbcode.titleLine (-1) "a" = .error (.headlineLevelOutOfRange (-1) 5 "bbcode") ∧
      ¬ (Profile.bbcode.headlines.greatest : Int) < (-1 : Int64).toInt := by
  have markers : Profile.bbcode.headlines.HasMarkers := List.cons_ne_nil _ _
  have above : Profile.bbcode.titleLine 6 "a" = .error (.headlineLevelOutOfRange 6 5 "bbcode") :=
    rfl
  have below :
      Profile.bbcode.titleLine (-1) "a" = .error (.headlineLevelOutOfRange (-1) 5 "bbcode") :=
    rfl
  have unlisted : ¬ Profile.bbcode.headlines.Lists (6 : Int64).toInt :=
    fun listed => absurd listed.2 (by decide)
  refine ⟨markers, above, ?_, below, ?_⟩
  · exact ((titleLine_level_error _ markers 6 "a").2 _ above).2.mpr ⟨by decide, unlisted⟩
  · intro exceeds
    have positive := ((titleLine_level_error _ markers (-1) "a").2 _ below).2.mp exceeds
    exact absurd positive.1 (by decide)

/-- Level three of an outline of more levels than the signed numbers of 64 bits, and the level below
all markers: neither exceeds the greatest level that is reported. -/
theorem listed_level_refused :
    let outline : Profile :=
      { Profile.html with headlines := .outline 2 (UInt64.ofNat (Nat.pow 2 63)) }
    outline.headlines.Lists (3 : Int64).toInt ∧
      outline.titleLine 3 "a" = .error (.headlineLevelOutOfRange 3 (Nat.pow 2 63) "html") ∧
      ¬ (Nat.pow 2 63 : Int) < (3 : Int64).toInt ∧
      Profile.bbcode.titleLine (-1) "a" = .error (.headlineLevelOutOfRange (-1) 5 "bbcode") ∧
      ¬ ((5 : Nat) : Int) < (-1 : Int64).toInt :=
  ⟨.inr (by decide +kernel), by decide +kernel, by decide, rfl, by decide⟩

end Profile

end MarkupExport
