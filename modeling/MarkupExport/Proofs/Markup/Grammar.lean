import MarkupExport.Profile.Html
import MarkupExport.Text.Blank

/-!
Well-formed HTML: text in which the reserved characters are written as entities, rules, and
comments and elements around well-formed HTML. What the library does with fragments keeps them
well-formed: they are joined, trimmed and surrounded, and text is escaped on its way into them.
-/

namespace MarkupExport

/-! ## Names of tags -/

def Tag.name : Tag → String
  | .plain name | .value name _ | .attributes name _ => name

def UrlTag.name : UrlTag → String
  | .inAttribute tag _ | .asValue tag => tag

/-- The names of the tags that a profile puts around contents. -/
def Profile.tagNames (profile : Profile) : List String :=
  [profile.inlineTags.bold, profile.inlineTags.italic, profile.inlineTags.underline,
      profile.inlineTags.strikeThrough, profile.inlineTags.monospace, profile.links.placeholder,
      profile.lists.term].map Tag.name ++
    [profile.paragraph, profile.sectionBlock, profile.quote, profile.tables.table,
      profile.tables.row, profile.tables.cell].filterMap (fun style => style.tag.map Tag.name) ++
    [profile.source.tag, profile.links.anchor.name] ++
    profile.lists.kinds.map (fun entry => entry.2.name) ++
    match profile.lists.item with
    | .wrapped tag => [tag.name]
    | .bulleted _ => []

namespace Html

def headingNames : List String := ["h3", "h4", "h5"]

/-- The tags that well-formed HTML is made of. -/
def names : List String :=
  Profile.html.tagNames ++ headingNames

@[simp] theorem names_eq :
    names = ["strong", "em", "u", "del", "code", "abbr", "strong", "p", "blockquote", "table",
      "tr", "td", "pre", "a", "ul", "li", "h3", "h4", "h5"] :=
  rfl

def attributeNames : List String := ["href", "lang", "title"]

/-! ## The grammar -/

/-- The value of an attribute, without the quotes around it. -/
inductive AttributeValue : List Char → Prop
  | nil : AttributeValue []
  | char {char rest} : char ≠ '"' → char ≠ '&' → AttributeValue rest →
      AttributeValue (char :: rest)
  | entity {entity rest} : entity ∈ ["&amp;", "&quot;"] → AttributeValue rest →
      AttributeValue (entity.toList ++ rest)

inductive Attributes : List Char → Prop
  | nil : Attributes []
  | cons {name value rest} : name ∈ attributeNames → AttributeValue value →
      Attributes rest → Attributes (" ".toList ++ name.toList ++ "=\"".toList ++ value ++
        "\"".toList ++ rest)

/-- The opening and the closing half of what may stand around well-formed HTML. -/
inductive Surrounds : List Char → List Char → Prop
  | comment : Surrounds "<!--  ".toList "  -->".toList
  | element {name attributes} : name ∈ names → Attributes attributes →
      Surrounds ("<".toList ++ name.toList ++ attributes ++ ">".toList)
        ("</".toList ++ name.toList ++ ">".toList)

/-- The characters that text may hold only as entities. -/
def reserved : List Char := ['<', '>', '&']

inductive Markup : List Char → Prop
  | nil : Markup []
  | char {char rest} : char ∉ reserved → Markup rest → Markup (char :: rest)
  | entity {entity rest} : entity ∈ ["&amp;", "&lt;", "&gt;"] → Markup rest →
      Markup (entity.toList ++ rest)
  | rule {rest} : Markup rest → Markup ("<hr />".toList ++ rest)
  | surrounded {opening closing inner rest} : Surrounds opening closing → Markup inner →
      Markup rest → Markup (opening ++ inner ++ closing ++ rest)

/-! ## Joining and surrounding -/

theorem Markup.append {left right : List Char} (first : Markup left) (second : Markup right) :
    Markup (left ++ right) := by
  induction first with
  | nil => exact second
  | char free _ induction => exact .char free induction
  | entity known _ induction =>
      rw [List.append_assoc]
      exact .entity known induction
  | rule _ induction =>
      rw [List.append_assoc]
      exact .rule induction
  | surrounded surrounds inside _ _ induction =>
      rw [List.append_assoc]
      exact .surrounded surrounds inside induction

theorem Markup.of_free {chars : List Char} (free : ∀ char ∈ chars, char ∉ reserved) :
    Markup chars := by
  induction chars with
  | nil => exact .nil
  | cons head tail induction =>
      apply Markup.char (free head List.mem_cons_self)
      exact induction fun char member => free char (List.mem_cons_of_mem head member)

theorem Markup.surround {opening closing inner : List Char} (surrounds : Surrounds opening closing)
    (inside : Markup inner) : Markup (opening ++ inner ++ closing) := by
  have surrounded := Markup.surrounded surrounds inside .nil
  rwa [List.append_nil] at surrounded

/-! ## Trimming

Blanks are neither reserved nor part of an entity or a tag, so taking them away at an end takes
away whole characters of text. -/

section Trimming

open Text (isBlank dropRightWhile dropRightWhile_append dropRightWhile_cons)

theorem Surrounds.opening_eq {opening closing : List Char} (surrounds : Surrounds opening closing) :
    ∃ tail, opening = '<' :: tail := by
  cases surrounds with
  | comment => exact ⟨_, rfl⟩
  | element _ _ => exact ⟨_, rfl⟩

theorem Surrounds.closing_eq {opening closing : List Char} (surrounds : Surrounds opening closing) :
    ∃ front, closing = front ++ ['>'] := by
  cases surrounds with
  | comment => exact ⟨"  --".toList, rfl⟩
  | element _ _ => exact ⟨_, rfl⟩

theorem entity_ends {entity : String} (known : entity ∈ ["&amp;", "&lt;", "&gt;"]) :
    ∃ middle, entity.toList = '&' :: middle ++ [';'] := by
  simp only [List.mem_cons, List.not_mem_nil, or_false] at known
  rcases known with rfl | rfl | rfl
  · exact ⟨['a', 'm', 'p'], rfl⟩
  · exact ⟨['l', 't'], rfl⟩
  · exact ⟨['g', 't'], rfl⟩

theorem Markup.dropWhile_isBlank {chars : List Char} (markup : Markup chars) :
    Markup (chars.dropWhile isBlank) := by
  induction markup with
  | nil => exact .nil
  | @char char rest free rest_ induction =>
      cases blank : isBlank char with
      | true => simpa [List.dropWhile_cons, blank] using induction
      | false => simpa [List.dropWhile_cons, blank] using Markup.char free rest_
  | entity known rest _ =>
      have whole := Markup.entity known rest
      rcases entity_ends known with ⟨middle, equal⟩
      rw [equal] at whole ⊢
      exact whole
  | rule rest _ => exact .rule rest
  | surrounded surrounds inside rest _ _ =>
      have whole := Markup.surrounded surrounds inside rest
      rcases surrounds.opening_eq with ⟨tail, rfl⟩
      exact whole

theorem Markup.dropRightWhile_isBlank {chars : List Char} (markup : Markup chars) :
    Markup (dropRightWhile isBlank chars) := by
  induction markup with
  | nil => exact .nil
  | @char char rest free _ induction =>
      rw [dropRightWhile_cons]
      split
      · cases isBlank char with
        | true => exact .nil
        | false => exact .char free .nil
      · exact .char free induction
  | entity known _ induction =>
      have whole := Markup.entity known induction
      rcases entity_ends known with ⟨middle, equal⟩
      rw [equal] at whole ⊢
      rw [dropRightWhile_append _ (by decide)]
      exact whole
  | @rule rest _ induction =>
      have ends : "<hr />".toList ++ rest = "<hr /".toList ++ ['>'] ++ rest := rfl
      rw [ends, dropRightWhile_append _ (by decide)]
      exact .rule induction
  | @surrounded opening closing inner rest surrounds inside _ _ induction =>
      have whole := Markup.surrounded surrounds inside induction
      rcases surrounds.closing_eq with ⟨front, rfl⟩
      rw [← List.append_assoc] at whole ⊢
      rw [dropRightWhile_append _ (by decide)]
      exact whole

end Trimming

/-! ## Escaping -/

theorem markup_escapeText (text : String) : Markup (Text.escapeText text).toList := by
  rw [Text.escapeText, Text.toList_mapChars]
  induction text.toList with
  | nil => exact .nil
  | cons head tail induction =>
      rw [List.flatMap_cons]
      unfold Text.textEntity
      split
      · exact Markup.entity (by decide : "&amp;" ∈ _) induction
      · exact Markup.entity (by decide : "&lt;" ∈ _) induction
      · exact Markup.entity (by decide : "&gt;" ∈ _) induction
      · next noAmpersand noLess noGreater =>
          have free : head ∉ reserved := by
            simp only [reserved, List.mem_cons, List.not_mem_nil, or_false, not_or]
            exact ⟨noLess, noGreater, noAmpersand⟩
          exact .char free induction

theorem attributeValue_escapeAttribute (text : String) :
    AttributeValue (Text.escapeAttribute text).toList := by
  rw [Text.escapeAttribute, Text.toList_mapChars]
  induction text.toList with
  | nil => exact .nil
  | cons head tail induction =>
      rw [List.flatMap_cons]
      unfold Text.attributeEntity
      split
      · exact AttributeValue.entity (by decide : "&amp;" ∈ _) induction
      · exact AttributeValue.entity (by decide : "&quot;" ∈ _) induction
      · next noAmpersand noQuote => exact .char noQuote noAmpersand induction

theorem attributes_attributes (pairs : List (String × String))
    (attributes : ∀ pair ∈ pairs, pair.1 ∈ attributeNames) :
    Attributes (Delimiters.angle.attributes pairs).toList := by
  induction pairs with
  | nil => exact .nil
  | cons head tail induction =>
      have first := attributes head List.mem_cons_self
      have value := attributeValue_escapeAttribute head.2
      have rest := induction fun pair member => attributes pair (List.mem_cons_of_mem head member)
      have joined := Attributes.cons first value rest
      simpa [Delimiters.attributes, Delimiters.namedValue, Delimiters.attributeValue] using joined

/-! ## Texts -/

def IsMarkup (text : String) : Prop :=
  Markup text.toList

namespace IsMarkup

variable {left right content : String}

theorem append (first : IsMarkup left) (second : IsMarkup right) : IsMarkup (left ++ right) := by
  rw [IsMarkup, String.toList_append]
  exact Markup.append first second

theorem of_free {text : String} (free : ∀ char ∈ text.toList, char ∉ reserved) : IsMarkup text :=
  Markup.of_free free

theorem empty : IsMarkup "" :=
  Markup.nil

theorem newline : IsMarkup "\n" :=
  Markup.char (by decide) .nil

theorem colon : IsMarkup ": " :=
  Markup.char (by decide) (.char (by decide) .nil)

theorem caret : IsMarkup "^" :=
  Markup.char (by decide) .nil

theorem blank : IsMarkup " " :=
  Markup.char (by decide) .nil

theorem escaped (text : String) : IsMarkup (Text.escapeText text) :=
  markup_escapeText text

theorem trimmed (markup : IsMarkup content) : IsMarkup (Text.trim content) := by
  rw [IsMarkup, Text.trim, String.toList_ofList]
  exact (Markup.dropWhile_isBlank markup).dropRightWhile_isBlank

theorem wrapped {name : String} {pairs : List (String × String)} (markup : IsMarkup content)
    (known : name ∈ names) (attributes : ∀ pair ∈ pairs, pair.1 ∈ attributeNames) :
    IsMarkup (Delimiters.angle.wrap name pairs content) := by
  have surrounds := Surrounds.element known (attributes_attributes pairs attributes)
  have surrounded := Markup.surround surrounds markup
  simpa [IsMarkup, Delimiters.wrap, Delimiters.closing, Delimiters.left, Delimiters.right]
    using surrounded

theorem enclosed {name : String} (markup : IsMarkup content) (known : name ∈ names) :
    IsMarkup ((Tag.plain name).render .angle content) :=
  markup.wrapped known (by simp)

theorem commented (markup : IsMarkup content) : IsMarkup ("<!--  " ++ content ++ "  -->") := by
  rw [IsMarkup, String.toList_append, String.toList_append]
  exact Markup.surround .comment markup

theorem repr (number : Nat) : IsMarkup number.repr := by
  apply of_free
  intro char member
  rw [Nat.repr, String.toList_ofList] at member
  have digit := Nat.isDigit_of_mem_toDigits (by decide) (by decide) member
  intro inside
  simp only [reserved, List.mem_cons, List.not_mem_nil, or_false] at inside
  rcases inside with rfl | rfl | rfl <;> simp at digit

end IsMarkup

end Html

end MarkupExport
