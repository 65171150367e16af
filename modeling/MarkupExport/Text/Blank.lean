/-!
Blank characters: the 25 characters of the Unicode property `White_Space`. Texts are trimmed of
them at both ends, and a text that holds nothing else counts as empty.
-/

namespace MarkupExport.Text

/-- The blank characters, in ascending order. -/
def blanks : List Char :=
  ['\t', '\n', '\x0b', '\x0c', '\r', ' ', '\u0085', '\u00a0', '\u1680', '\u2000', '\u2001',
    '\u2002', '\u2003', '\u2004', '\u2005', '\u2006', '\u2007', '\u2008', '\u2009', '\u200a',
    '\u2028', '\u2029', '\u202f', '\u205f', '\u3000']

example : blanks.length = 25 := rfl

def isBlank (char : Char) : Bool :=
  blanks.contains char

/-! Trimming removes blanks at both ends and nothing in between. -/

/-- Drops the members at the end of a list that satisfy the test. -/
def dropRightWhile (test : α → Bool) (values : List α) : List α :=
  (values.reverse.dropWhile test).reverse

theorem dropRightWhile_cons (test : α → Bool) (head : α) (tail : List α) :
    dropRightWhile test (head :: tail) =
      if dropRightWhile test tail = [] then if test head then [] else [head]
      else head :: dropRightWhile test tail := by
  simp only [dropRightWhile, List.reverse_cons, List.dropWhile_append, List.isEmpty_iff,
    List.reverse_eq_nil_iff]
  split
  · cases found : test head <;> simp [found]
  · simp

theorem dropRightWhile_append {test : α → Bool} (front : List α) {last : α}
    (kept : test last = false) (rest : List α) :
    dropRightWhile test (front ++ [last] ++ rest) =
      front ++ [last] ++ dropRightWhile test rest := by
  simp only [dropRightWhile, List.reverse_append, List.dropWhile_append, List.isEmpty_iff]
  split
  · next all => simp [all, kept]
  · simp

theorem dropRightWhile_prefix (test : α → Bool) (values : List α) :
    dropRightWhile test values <+: values := by
  have ending := List.dropWhile_suffix (l := values.reverse) test
  simpa [dropRightWhile] using List.reverse_prefix.mpr ending

def trim (text : String) : String :=
  String.ofList (dropRightWhile isBlank (text.toList.dropWhile isBlank))

/-- Trimming stops at a run of characters none of which is blank. -/
theorem toList_trim {text : String} {front middle back : List Char}
    (equal : text.toList = front ++ middle ++ back) (nonempty : middle ≠ [])
    (solid : ∀ char ∈ middle, isBlank char = false) :
    (trim text).toList = front.dropWhile isBlank ++ middle ++ dropRightWhile isBlank back := by
  have first : ((front ++ middle) ++ back).dropWhile isBlank =
      front.dropWhile isBlank ++ middle ++ back := by
    rcases List.exists_cons_of_ne_nil nonempty with ⟨head, tail, rfl⟩
    simp only [List.append_assoc, List.dropWhile_append, List.isEmpty_iff]
    split
    · next all => simp [all, solid head List.mem_cons_self]
    · rfl
  rw [trim, String.toList_ofList, equal, first]
  have last := List.dropLast_concat_getLast nonempty
  rw [← last, ← List.append_assoc, dropRightWhile_append]
  exact solid _ (List.getLast_mem nonempty)

/-- Nothing is left of the text once it is trimmed. -/
def isBlankText (text : String) : Bool :=
  text.toList.all isBlank

example : trim "\u00a0 a b\n" = "a b" := by decide +kernel

end MarkupExport.Text
