import MarkupExport.Proofs.Export.Requirements
import MarkupExport.Proofs.Text.Percent
import MarkupExport.Proofs.Text.Split

/-!
Values in the tags of forum BBCode. The opening half of such a tag ends at the first bracket that
closes, so a value is read back from the text exactly if it holds no such bracket. The target of a
link is written without brackets; the language of a source block is written as the document has it.
-/

namespace MarkupExport.Bbcode

/-- Name and value of the tag that a text begins with: the name ends at the first `=`, the value at
the first bracket that closes. -/
def openingTag? : List Char → Option (List Char × List Char)
  | '[' :: rest =>
    let assigned := (rest.dropWhile (· ≠ '=')).tail
    if ']' ∈ assigned then
      some (rest.takeWhile (· ≠ '='), assigned.takeWhile (· ≠ ']'))
    else none
  | _ => none

def Bracketless (text : String) : Prop :=
  '[' ∉ text.toList ∧ ']' ∉ text.toList

instance (text : String) : Decidable (Bracketless text) :=
  inferInstanceAs (Decidable (_ ∧ _))

/-- The name and the value of the tag that a node is written in, and what follows the tag. -/
inductive Carries (node : Node) : Rule → (name value suffix : String) → Prop
  | web {type path : String} (typed : node.textProperty? "type" = some type)
      (web : type = "http" ∨ type = "https") (found : node.textProperty? "path" = some path) :
      Carries node .link "url" (Link.encodeValue (Link.encode (type ++ ":" ++ path))) ""
  | forthcoming (typed : node.textProperty? "type" = some "todo") :
      Carries node .link "abbr" "Article forthcoming" ""
  | place {target : String} (typed : node.textProperty? "type" = some "fuzzy")
      (found : node.textProperty? "raw_link" = some target) :
      Carries node .link "url" (Link.encodeValue (Link.encode target)) ""
  | language :
      Carries node .sourceBlock "code"
        (LanguageMap.standard.resolve (node.textProperty? "language")) "\n"

variable {node : Node} {rule : Rule} {name value content suffix : String}

/-! ## Reading a tag back -/

/-- A value is read back up to the first bracket in it that closes. -/
theorem openingTag?_wrapValue (named : '=' ∉ name.toList) :
    openingTag? (Delimiters.bracket.wrapValue name value content ++ suffix).toList =
      some (name.toList, value.toList.takeWhile (· ≠ ']')) := by
  generalize after : content.toList ++ (Delimiters.bracket.closing name).toList ++
    suffix.toList = rest
  have written : (Delimiters.bracket.wrapValue name value content ++ suffix).toList =
      '[' :: (name.toList ++ '=' :: (value.toList ++ ']' :: rest)) := by
    simp [Delimiters.wrapValue, Delimiters.left, Delimiters.right, ← after]
  have others : ∀ char ∈ name.toList, decide (char ≠ '=') = true := by
    intro char member
    simpa using ne_of_mem_of_not_mem member named
  have assigned : ((name.toList ++ '=' :: (value.toList ++ ']' :: rest)).dropWhile (· ≠ '=')).tail =
      value.toList ++ ']' :: rest := by
    rw [List.dropWhile_append_of_pos others]
    simp
  have named : (name.toList ++ '=' :: (value.toList ++ ']' :: rest)).takeWhile (· ≠ '=') =
      name.toList := by
    rw [List.takeWhile_append_of_pos others]
    simp
  rw [written, openingTag?, assigned, named, Text.takeWhile_ne_append_cons]
  simp

theorem openingTag?_eq_iff (named : '=' ∉ name.toList) :
    openingTag? (Delimiters.bracket.wrapValue name value content ++ suffix).toList =
      some (name.toList, value.toList) ↔ ']' ∉ value.toList := by
  rw [openingTag?_wrapValue named, ← Text.takeWhile_ne_eq_self_iff]
  simp

/-! ## Values -/

theorem bracketless_encodeValue (url : String) : Bracketless (Link.encodeValue url) := by
  have marks : Link.valueSet.KeepsMarks := by decide
  have outside (char : Char) (member : char ∈ (Link.encodeValue url).toList) :
      char ∉ ['[', ']'] := by
    rw [Link.encodeValue, String.toList_ofList] at member
    exact (Text.Percent.keeps_controlsAnd_iff.mp
      (Text.Percent.keeps_of_mem_encode marks member)).2.2
  constructor
  · intro member
    simpa using outside '[' member
  · intro member
    simpa using outside ']' member

/-- No alias and no name that an alias stands for has brackets. -/
theorem bracketless_resolve_iff (language : Option String) :
    Bracketless (LanguageMap.standard.resolve language) ↔
      ∀ written ∈ language, Bracketless written := by
  have known : ∀ entry ∈ LanguageMap.standardAliases,
      Bracketless entry.1 ∧ Bracketless entry.2 := by decide +kernel
  have fallback : Bracketless LanguageMap.standard.fallback := by decide +kernel
  cases language with
  | none => simpa [LanguageMap.resolve] using fallback
  | some written =>
      rw [LanguageMap.resolve]
      by_cases empty : written = ""
      · subst empty
        simpa [Bracketless] using fallback
      · rw [if_neg empty]
        cases found : LanguageMap.standard.aliases.lookup written with
        | none => simp
        | some resolved =>
            have both := known (written, resolved) (Ascending.mem_of_lookup found)
            simp [both.1, both.2]

/-! ## Rules -/

theorem carries_link {contents text : String}
    (rendered : Rule.renderLink .bbcode node contents = .ok text) :
    ∃ name value content, Carries node .link name value "" ∧ Bracketless value ∧
      text = Delimiters.bracket.wrapValue name value content := by
  have written := Rule.linkText_of_rendered rendered
  cases written with
  | web typed web found => exact ⟨_, _, _, .web typed web found, bracketless_encodeValue _, rfl⟩
  | placeholder typed => exact ⟨_, _, _, .forthcoming typed, by decide +kernel, rfl⟩
  | internal typed found => exact ⟨_, _, _, .place typed found, bracketless_encodeValue _, rfl⟩

theorem Carries.named (carries : Carries node rule name value suffix) : '=' ∉ name.toList := by
  cases carries <;> decide +kernel

/-- What the dialect makes of a link or a source block begins with a tag that carries a value. The
value has no brackets, unless it is a language that the document has written with brackets, and it
is read back as it is exactly if no bracket in it closes the tag. -/
theorem value_bracketless_iff {context : Context} {contents text : String}
    (dialect : context.profile = .bbcode) (valued : rule = .link ∨ rule = .sourceBlock)
    (rendered : rule.render context node contents = .ok text) :
    ∃ name value content suffix, Carries node rule name value suffix ∧
      text = Delimiters.bracket.wrapValue name value content ++ suffix ∧
      (Bracketless value ↔
        (rule = .sourceBlock → ∀ language ∈ node.textProperty? "language", Bracketless language)) ∧
      (openingTag? text.toList = some (name.toList, value.toList) ↔ ']' ∉ value.toList) := by
  cases valued with
  | inl isLink =>
      subst isLink
      simp only [Rule.render, dialect] at rendered
      obtain ⟨name, value, content, carries, bracketless, written⟩ := carries_link rendered
      have whole : text = Delimiters.bracket.wrapValue name value content ++ "" := by
        simpa using written
      refine ⟨name, value, content, "", carries, whole, by simp [bracketless], ?_⟩
      rw [whole]
      exact openingTag?_eq_iff carries.named
  | inr isSource =>
      subst isSource
      simp only [Rule.render, dialect] at rendered
      obtain ⟨value, _, written⟩ := bind_eq_ok_iff.mp rendered
      cases written
      have carries : Carries node .sourceBlock "code" _ "\n" := .language
      refine ⟨_, _, _, _, carries, rfl, ?_, openingTag?_eq_iff carries.named⟩
      simpa using bracketless_resolve_iff (node.textProperty? "language")

/-- A link whose path has both brackets. -/
def bracketedLink : Node :=
  ((Node.mk .link [] []).withProperty "type" (.text "https")).withProperty
    "path" (.text "//example.com/a]b[c")

theorem value_bracketless_iff_link :
    let context := Context.start bracketedLink {} .bbcode
    let text := "[url=https://example.com/a%5Db%5Bc]site[/url]"
    context.profile = .bbcode ∧ Rule.link.render context bracketedLink "site" = .ok text ∧
      ∃ name value content suffix, Carries bracketedLink .link name value suffix ∧
        text = Delimiters.bracket.wrapValue name value content ++ suffix ∧ Bracketless value ∧
        openingTag? text.toList = some (name.toList, value.toList) := by
  intro context text
  have rendered : Rule.link.render context bracketedLink "site" = .ok text := by decide +kernel
  have dialect : context.profile = .bbcode := rfl
  obtain ⟨name, value, content, suffix, carries, written, bracketless, readBack⟩ :=
    value_bracketless_iff dialect (.inl rfl) rendered
  have free : Bracketless value := bracketless.mpr nofun
  exact ⟨rfl, rendered, name, value, content, suffix, carries, written, free, readBack.mpr free.2⟩

/-- A source block in a language whose name has a bracket. -/
def bracketedSource : Node :=
  ((Node.mk .sourceBlock [] []).withProperty "value" (.text "x")).withProperty
    "language" (.text "a]b")

/-- The name of a language can end the tag before the value is complete. -/
theorem language_ends_tag :
    ¬ ∀ (context : Context) (node : Node) (contents text name value content suffix : String),
      context.profile = .bbcode → Rule.sourceBlock.render context node contents = .ok text →
      Carries node .sourceBlock name value suffix →
      text = Delimiters.bracket.wrapValue name value content ++ suffix → Bracketless value := by
  intro always
  have language : LanguageMap.standard.resolve (bracketedSource.textProperty? "language") =
      "a]b" := by decide +kernel
  have carries : Carries bracketedSource .sourceBlock "code" "a]b" "\n" := language ▸ .language
  have bracketless := always (Context.start bracketedSource {} .bbcode) bracketedSource ""
    "[code=a]b]x[/code]\n" "code" "a]b" "x" "\n" rfl (by decide +kernel) carries
    (by decide +kernel)
  exact absurd bracketless (by decide +kernel)

example : openingTag? "[code=a]b]x[/code]\n".toList = some ("code".toList, "a".toList) := by
  decide +kernel

end MarkupExport.Bbcode
