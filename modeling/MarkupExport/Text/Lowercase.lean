import MarkupExport.Text.Casing

/-!
Texts in lower case, by the full mapping of Unicode. Two letters are special: the dotted capital I
becomes two characters, and a capital sigma at the end of a word becomes the final small one.
-/

namespace MarkupExport.Text

def inRanges (ranges : List (Nat × Nat)) (char : Char) : Bool :=
  ranges.any fun range => range.1 ≤ char.toNat && char.toNat ≤ range.2

/-- The lower case of one character by itself. -/
def lowerChar (char : Char) : Char :=
  let code := char.toNat
  if code < 0x80 then char.toLower
  else
    let run := Casing.lowered.find? fun (first, last, step, _) =>
      first ≤ code && code ≤ last && (code - first) % step = 0
    match run with
    | some (first, _, _, image) => Char.ofNat (image + (code - first))
    | none => char

/-- The nearest character that is not passed over has case. -/
def meetsCased (chars : List Char) : Bool :=
  ((chars.dropWhile (inRanges Casing.ignorable)).head?.map (inRanges Casing.cased)).getD false

/-- The lower case of `char` between what stands before it, nearest first, and what follows. -/
def lowerBetween (before : List Char) (char : Char) (after : List Char) : List Char :=
  if char = 'Σ' then [if meetsCased before ∧ ¬ meetsCased after then 'ς' else 'σ']
  else if char = 'İ' then ['i', '\u0307']
  else [lowerChar char]

def lowerAfter (before : List Char) : List Char → List Char
  | [] => []
  | char :: rest => lowerBetween before char rest ++ lowerAfter (char :: before) rest

def lowercase (text : String) : String :=
  String.ofList (lowerAfter [] text.toList)

example : lowercase "Body_Only" = "body_only" := by decide +kernel

example : lowercase "ΟΔΟΣ ΣΑΣ." = "οδος σας." := by decide +kernel

end MarkupExport.Text
