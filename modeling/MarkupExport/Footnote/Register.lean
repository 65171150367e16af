import MarkupExport.Ascending
import MarkupExport.Text.Blank

/-!
The numbers and texts of footnotes. Labels are numbered from one in the order in which they are
assigned; a text belongs to a number, and the first text given to a number is kept.
-/

namespace MarkupExport

structure FootnoteRegister where
  /-- The assigned labels: the first has number one. -/
  labels : List String := []
  /-- The texts by number. -/
  entries : List (Nat × String) := []
  nodup_labels : labels.Nodup := by simp
  ascending_entries : Ascending.IsAscending entries := by exact List.Pairwise.nil

namespace FootnoteRegister

instance : DecidableEq FootnoteRegister := fun left right =>
  if same : left.labels = right.labels ∧ left.entries = right.entries then
    isTrue (by cases left; cases right; simp_all)
  else isFalse fun equal => same (equal ▸ ⟨rfl, rfl⟩)

def number? (register : FootnoteRegister) (label : String) : Option Nat :=
  (register.labels.idxOf? label).map (· + 1)

/-- The number of a label, which it gets now if it has none, and whether it is new. -/
def assign (register : FootnoteRegister) (label : String) : (Nat × Bool) × FootnoteRegister :=
  match found : register.number? label with
  | some number => ((number, false), register)
  | none =>
    ((register.labels.length + 1, true),
      { register with
        labels := register.labels ++ [label]
        nodup_labels := by
          simp only [number?, Option.map_eq_none_iff, List.idxOf?_eq_none_iff] at found
          simp [List.nodup_append, register.nodup_labels]
          exact fun other member equal => found (equal ▸ member) })

/-- Gives the number a text, trimmed, unless it has one. -/
def define (register : FootnoteRegister) (number : Nat) (text : String) : FootnoteRegister :=
  { register with
    entries := Ascending.insertNew number (Text.trim text) register.entries
    ascending_entries := Ascending.isAscending_insertNew register.ascending_entries }

/-- How many numbers have a text. -/
def size (register : FootnoteRegister) : Nat :=
  register.entries.length

/-- No number has a text, whether or not labels have numbers. -/
def isEmpty (register : FootnoteRegister) : Bool :=
  register.entries.isEmpty

example :
    let first := (FootnoteRegister.mk [] [] (by simp) List.Pairwise.nil).assign "note"
    let second := first.2.assign "note"
    first.1 = (1, true) ∧ second.1 = (1, false) := by
  decide +kernel

end FootnoteRegister

end MarkupExport
