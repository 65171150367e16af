import MarkupExport.Profile.Style
import MarkupExport.Proofs.Text.Entity
import MarkupExport.Proofs.Text.Split

/-!
Escaping loses nothing and lets nothing through. Escaped text is what replacing one reserved
character after the other makes of it, the ampersand first; it holds no reserved character, and it
is decoded to the text that it was. The same holds of the values of attributes between angle
brackets, each of which ends at the quote behind it.
-/

namespace MarkupExport

namespace Text

/-- Every occurrence of a character replaced. -/
def replace (mark : Char) (replacement : String) : String → String :=
  mapChars fun char => if char = mark then replacement.toList else [char]

example : replace '<' "&lt;" (replace '&' "&amp;" "a<&") = "a&lt;&amp;" := by decide +kernel

theorem mapChars_mapChars (first second : Char → List Char) (text : String) :
    mapChars second (mapChars first text) =
      mapChars (fun char => (first char).flatMap second) text := by
  apply String.toList_inj.mp
  simp [toList_mapChars, List.flatMap_assoc]

/-- The ampersand is replaced first, so that no ampersand of an entity is. -/
theorem escapeText_eq_replace (text : String) :
    escapeText text = replace '>' "&gt;" (replace '<' "&lt;" (replace '&' "&amp;" text)) := by
  simp only [replace, mapChars_mapChars]
  rw [escapeText]
  congr 1
  funext char
  unfold textEntity
  split
  · decide
  · decide
  · decide
  · next noAmpersand noLess noGreater =>
      rw [if_neg noAmpersand, List.flatMap_singleton, if_neg noLess, List.flatMap_singleton,
        if_neg noGreater]

theorem escapeAttribute_eq_replace (value : String) :
    escapeAttribute value = replace '"' "&quot;" (replace '&' "&amp;" value) := by
  simp only [replace, mapChars_mapChars]
  rw [escapeAttribute]
  congr 1
  funext char
  unfold attributeEntity
  split
  · decide
  · decide
  · next noAmpersand noQuote =>
      rw [if_neg noAmpersand, List.flatMap_singleton, if_neg noQuote]

end Text

namespace Delimiters

theorem attributes_append (delimiters : Delimiters) (front back : List (String × String)) :
    delimiters.attributes (front ++ back) =
      delimiters.attributes front ++ delimiters.attributes back := by
  induction front with
  | nil => simp [attributes]
  | cons head tail induction =>
      rw [List.cons_append, attributes, attributes, induction, String.append_assoc]

/-- What stands before and behind the value of one of the attributes of a tag. -/
theorem wrap_angle_split (name content key value : String) (front back : List (String × String)) :
    angle.wrap name (front ++ (key, value) :: back) content =
      ("<" ++ name ++ angle.attributes front ++ " " ++ key ++ "=\"") ++
        Text.escapeAttribute value ++
        ("\"" ++ angle.attributes back ++ ">" ++ content ++ "</" ++ name ++ ">") := by
  apply String.toList_inj.mp
  simp [wrap, attributes_append, attributes, namedValue, attributeValue, closing, left, right]

end Delimiters

/-- Text is written so that it holds no reserved character but as an entity, and is read back. -/
structure Escaped (escape : Text.Escape) (written text : String) : Prop where
  free : ∀ mark ∈ escape.reserved, mark ∉ written.toList
  entities : Text.AmpersandsBegin escape.entities written.toList
  decoded : escape.decode written.toList = text.toList

theorem Escaped.mapChars (escape : Text.Escape) (text : String) :
    Escaped escape (Text.mapChars escape.write text) text := by
  constructor <;> rw [Text.toList_mapChars]
  · intro mark reserved
    exact escape.not_mem_flatMap reserved text.toList
  · exact escape.ampersandsBegin_flatMap text.toList
  · exact escape.decode_flatMap text.toList

/-- A value is read up to the first quote behind it. -/
theorem Escaped.takeWhile_quote {written value : String}
    (escaped : Escaped Text.Escape.quoted written value) (rest : List Char) :
    (written.toList ++ '"' :: rest).takeWhile (· ≠ '"') = written.toList := by
  have free : '"' ∉ written.toList := escaped.free '"' (by decide)
  rw [Text.takeWhile_ne_append_cons, Text.takeWhile_ne_eq_self_iff.mpr free]

/-- Escaped text is what replacing the reserved characters in order makes of it. It is free of them,
its ampersands begin entities, it is decoded to the text and so belongs to no other; and the parts
of a text are escaped on their own. Wherever an attribute stands among those of a tag, what is
written of its value goes up to the next quote and is decoded to that value. -/
theorem escaping_lossless :
    (∀ text,
      TextStyle.escaped.render text =
        Text.replace '>' "&gt;" (Text.replace '<' "&lt;" (Text.replace '&' "&amp;" text)) ∧
      Escaped Text.Escape.text (TextStyle.escaped.render text) text) ∧
    Function.Injective TextStyle.escaped.render ∧
    (∀ left right,
      TextStyle.escaped.render (left ++ right) =
        TextStyle.escaped.render left ++ TextStyle.escaped.render right) ∧
    ∀ name content key value front back, ∃ written,
      written = Text.replace '"' "&quot;" (Text.replace '&' "&amp;" value) ∧
      Delimiters.angle.wrap name (front ++ (key, value) :: back) content =
        ("<" ++ name ++ Delimiters.angle.attributes front ++ " " ++ key ++ "=\"") ++ written ++
          ("\"" ++ Delimiters.angle.attributes back ++ ">" ++ content ++ "</" ++ name ++ ">") ∧
      Escaped Text.Escape.quoted written value ∧
      ∀ rest, (written.toList ++ '"' :: rest).takeWhile (· ≠ '"') = written.toList := by
  refine ⟨?_, Text.Escape.text.mapChars_injective, Text.mapChars_append Text.textEntity, ?_⟩
  · intro text
    exact ⟨Text.escapeText_eq_replace text, Escaped.mapChars Text.Escape.text text⟩
  · intro name content key value front back
    have escaped : Escaped Text.Escape.quoted (Text.escapeAttribute value) value :=
      Escaped.mapChars Text.Escape.quoted value
    exact ⟨Text.escapeAttribute value, Text.escapeAttribute_eq_replace value,
      Delimiters.wrap_angle_split name content key value front back, escaped,
      escaped.takeWhile_quote⟩

end MarkupExport
