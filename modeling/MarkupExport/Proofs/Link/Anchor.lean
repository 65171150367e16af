import MarkupExport.Proofs.Link.Inside

/-!
Places in the same document. A target that begins with `#` names such a place, and its encoding can
be written down directly, one character after the other. That it is resolved against a base, cut
back and encoded again leaves no trace.
-/

namespace MarkupExport.Link

open Url

variable {chars : List Char}

/-! ## Direct encoding -/

/-- What a fragment cannot hold as it is: controls, everything that is not ASCII, and five marks. -/
def isFragmentEscaped (char : Char) : Bool :=
  char.toNat < 0x20 || 0x7f ≤ char.toNat || [' ', '"', '<', '>', '`'].contains char

def anchorChar (char : Char) : List Char :=
  if char = '\\' then ['%', '5', 'C']
  else if isFragmentEscaped char then (String.utf8EncodeChar char).flatMap Text.Percent.byte
  else [char]

/-- What follows the `#`, without blanks and controls at its end and without tabs and line ends. -/
def anchorName (tail : List Char) : List Char :=
  withoutIgnored (Text.dropRightWhile isTrimmed tail)

def anchorText (tail : List Char) : List Char :=
  '#' :: (anchorName tail).flatMap anchorChar

/-! ## Fragments -/

theorem keeps_fragmentSet_iff {char : Char} :
    Text.Percent.Keeps fragmentSet char ↔ isFragmentEscaped char = false := by
  rw [fragmentSet, Text.Percent.keeps_controlsAnd_iff]
  simp [isFragmentEscaped, and_assoc]

theorem char_fragmentSet (char : Char) :
    Text.Percent.char fragmentSet char =
      if isFragmentEscaped char then (String.utf8EncodeChar char).flatMap Text.Percent.byte
      else [char] := by
  cases escaped : isFragmentEscaped char with
  | false => simpa using Text.Percent.char_eq_self (keeps_fragmentSet_iff.mpr escaped)
  | true =>
      have unkept : ¬ Text.Percent.Keeps fragmentSet char := by
        simp [keeps_fragmentSet_iff, escaped]
      have inSet : (decide (0x80 ≤ char.toNat) || fragmentSet char) = true := by
        by_contra outside
        apply unkept
        simpa [Text.Percent.Keeps] using outside
      simp [Text.Percent.char, inSet]

/-- The escape of a backslash is not escaped again. -/
theorem encode_escapeBackslash (char : Char) :
    Text.Percent.encode fragmentSet (escapeBackslash char) = anchorChar char := by
  by_cases backslash : char = '\\'
  · subst backslash
    decide
  · rw [escapeBackslash_of_ne backslash, Text.Percent.encode_cons, char_fragmentSet]
    simp [anchorChar, backslash, Text.Percent.encode]

theorem readFragment_escaped (unskipped : withoutIgnored chars = chars) :
    readFragment (chars.flatMap escapeBackslash) = chars.flatMap anchorChar := by
  have kept : withoutIgnored (chars.flatMap escapeBackslash) = chars.flatMap escapeBackslash := by
    have respects : Respects isIgnored escapeBackslash :=
      respects_escapeBackslash (Text.forall_mem_of_all (by decide))
    rw [withoutIgnored, respects.filter, ← withoutIgnored, unskipped]
  rw [readFragment, kept, Text.Percent.encode, List.flatMap_assoc]
  congr 1
  funext char
  exact encode_escapeBackslash char

/-! ## Anchors -/

theorem withoutIgnored_anchorName (tail : List Char) :
    withoutIgnored (anchorName tail) = anchorName tail := by
  simp [anchorName, withoutIgnored]

theorem cleaned_anchor (tail : List Char) : cleaned ('#' :: tail) = '#' :: anchorName tail :=
  cleaned_append (List.cons_ne_nil '#' []) (Text.forall_mem_of_all (by decide)) tail

theorem isInside_anchor (chars : List Char) : IsInside (cleaned ('#' :: chars)) := by
  rw [isInside_iff, IsAbsolute, trimmed_cleaned, cleaned_anchor]
  have unnamed : scheme? ('#' :: anchorName chars) = none := (scheme?_stop (by simp)).2
  simp [unnamed]

theorem fromPath_follow_fragment (chars : List Char) :
    (follow ('#' :: chars)).fromPath = '/' :: '#' :: readFragment chars :=
  rfl

theorem encodeOnce_anchor (tail : List Char) : encodeOnce ('#' :: tail) = anchorText tail := by
  have target : readFromRoot ('#' :: tail) =
      '#' :: (anchorName tail).flatMap escapeBackslash := by
    rw [readFromRoot, cleaned_anchor]
    rfl
  rw [encodeOnce_of_inside (isInside_anchor tail), target, fromPath_follow_fragment,
    withoutAddedSlash_of_head? (by simp), readFragment_escaped (withoutIgnored_anchorName tail)]
  rfl

theorem encodeOnce_anchorText (tail : List Char) :
    encodeOnce (anchorText tail) = anchorText tail := by
  have isReference := isReference_encodeOnce (isInside_anchor tail)
  rw [encodeOnce_anchor] at isReference
  apply encodeOnce_of_relative isReference
  rw [← cleaned_of_isVisible isReference.isVisible]
  exact isInside_iff.mp (isInside_anchor _)

/-- The encoding of a place in the document is written down directly: a backslash is escaped, what
a fragment cannot hold is encoded byte by byte, and all else stands for itself, a `%` and a further
`#` included. Encoding it again changes nothing, and no slash is put in front of it. -/
theorem encode_anchor (tail : String) :
    (encode ("#" ++ tail)).toList = anchorText tail.toList ∧
      encode (encode ("#" ++ tail)) = encode ("#" ++ tail) ∧
        ¬ ['/', '#'].isPrefixOf (encode ("#" ++ tail)).toList = true := by
  have direct : (encode ("#" ++ tail)).toList = anchorText tail.toList := by
    have chars : ("#" ++ tail).toList = '#' :: tail.toList := by simp
    rw [encode, String.toList_ofList, encodeChars, chars, encodeOnce_anchor,
      settle_of_fixed (encodeOnce_anchorText _)]
  refine ⟨direct, ?_, ?_⟩
  · rw [encode, encodeChars, direct, encodeOnce_anchorText,
      settle_of_fixed (encodeOnce_anchorText _), ← direct, String.ofList_toList]
  · rw [direct]
    simp [anchorText]

example : encode "#a\\b% #\u00e9\t\x7f \n" = "#a%5Cb%%20#%C3%A9%7F" := by decide +kernel

end MarkupExport.Link
