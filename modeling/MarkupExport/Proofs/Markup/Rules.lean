import MarkupExport.Proofs.Export.Requirements
import MarkupExport.Proofs.Markup.Grammar

/-!
The rules of the HTML profile make well-formed HTML of well-formed contents. Source code alone is
written as it is, so there the reserved characters must be absent from the start.
-/

namespace MarkupExport

namespace Html

open IsMarkup

variable {contents text : String}

/-! ## Blocks -/

theorem markup_tagged {name suffix : String} (markup : IsMarkup contents)
    (known : name ∈ names) (ending : IsMarkup suffix) :
    IsMarkup ((BlockStyle.mk (some (.plain name)) suffix).surround .angle contents) :=
  (markup.enclosed known).append ending

theorem markup_block {style : BlockStyle} (markup : IsMarkup contents)
    (surrounds : ∀ content, IsMarkup content → IsMarkup (style.surround .angle content)) :
    IsMarkup (style.render .angle contents) := by
  rw [BlockStyle.render]
  split
  · exact empty
  · exact surrounds _ markup.trimmed

theorem markup_table (markup : IsMarkup contents) :
    IsMarkup (Rule.renderTable .html contents) := by
  rw [Rule.renderTable]
  split
  · exact empty
  · exact markup_tagged (newline.append markup) (by simp) newline

/-- The value of a source block holds no reserved character. -/
def SourceFree (node : Node) : Prop :=
  ∀ value ∈ node.textProperty? "value", ∀ char ∈ value.toList, char ∉ reserved

theorem all_free_iff (node : Node) :
    ((node.textProperty? "value").all fun value => value.toList.all (· ∉ reserved)) = true ↔
      SourceFree node := by
  cases found : node.textProperty? "value" <;> simp [SourceFree, found]

instance (node : Node) : Decidable (SourceFree node) :=
  decidable_of_decidable_of_iff (all_free_iff node)

theorem markup_sourceBlock {node : Node} (source : SourceFree node)
    (rendered : Rule.renderSourceBlock .html node = .ok text) : IsMarkup text := by
  rcases bind_eq_ok_iff.mp rendered with ⟨value, required, written⟩
  cases written
  have code : IsMarkup (Rule.withoutFinalNewline value) := by
    apply of_free
    intro char member
    apply source value (Node.requireText_eq_ok_iff.mp required)
    rw [Rule.withoutFinalNewline] at member
    split at member
    · rw [String.toList_ofList] at member
      exact List.dropLast_subset _ member
    · exact member
  have known : "pre" ∈ names := by simp
  exact (code.wrapped known (by simp [attributeNames])).append newline

/-! ## Headlines -/

theorem heading_known {level : Int64} (above : ¬ level ≤ 2) (within : level ≤ 5) :
    "h" ++ level.toInt.repr ∈ names := by
  have more : 2 < level.toInt := by
    rw [Int64.le_iff_toInt_le] at above
    exact Int.not_le.mp above
  have less : level.toInt ≤ 5 := Int64.le_iff_toInt_le.mp within
  have levels : level.toInt = 3 ∨ level.toInt = 4 ∨ level.toInt = 5 := by omega
  rcases levels with equal | equal | equal <;> rw [equal] <;> decide

theorem markup_titleLine {level : Int64} {title : String} (markup : IsMarkup title)
    (rendered : Profile.html.titleLine level title = .ok text) : IsMarkup text := by
  simp only [Profile.titleLine, Profile.html] at rendered
  split at rendered
  · cases rendered
    have commented := markup.commented.append newline
    rw [String.append_assoc] at commented
    exact commented
  · next above =>
      split at rendered
      · next within =>
          cases rendered
          exact (markup.enclosed (heading_known above within)).append newline
      · cases rendered

section Context

variable {context : Context} (dialect : context.profile = .html)
  (secondary : ∀ entry ∈ context.secondary, IsMarkup entry.2)

include dialect secondary

/-- A property comes rendered, or as plain text that is escaped here. -/
theorem markup_secondaryText (node : Node) (name : String) :
    IsMarkup ((context.secondaryText? node name).getD "") := by
  rw [Context.secondaryText?]
  split
  · next rendered found =>
      exact secondary (name, rendered) (Ascending.mem_of_lookup found)
  · rw [dialect]
    cases node.textProperty? name with
    | none => exact empty
    | some value => exact escaped value

theorem markup_headline {node : Node} (markup : IsMarkup contents)
    (rendered : Rule.renderHeadline context node contents = .ok text) : IsMarkup text := by
  rw [Rule.renderHeadline] at rendered
  split at rendered
  · cases rendered
    exact empty
  · rcases bind_eq_ok_iff.mp rendered with ⟨level, _, titled⟩
    rcases bind_eq_ok_iff.mp titled with ⟨line, headed, written⟩
    cases written
    have title := (markup_secondaryText dialect secondary node "title").trimmed
    rw [dialect] at headed
    exact (markup_titleLine title headed).append markup

theorem markup_item (node : Node) (markup : IsMarkup contents) :
    IsMarkup (Rule.renderItem context node contents) := by
  have tag := (markup_secondaryText dialect secondary node "tag").trimmed
  simp only [Rule.renderItem, dialect]
  refine (IsMarkup.enclosed ?_ (by simp)).append newline
  refine IsMarkup.append ?_ markup.trimmed
  split
  · exact (tag.enclosed (by simp)).append colon
  · exact empty

end Context

/-! ## Links and lists -/

theorem markup_linkLabel (markup : IsMarkup contents) (fallback : String) :
    IsMarkup (Rule.linkLabel .html contents fallback) := by
  rw [Rule.linkLabel]
  split
  · exact escaped fallback
  · exact markup

theorem markup_anchor (markup : IsMarkup contents) (target : String) :
    IsMarkup (Rule.anchor .html contents target) :=
  (markup_linkLabel markup _).wrapped (by simp) (by simp [attributeNames])

theorem markup_link {node : Node} (markup : IsMarkup contents)
    (rendered : Rule.renderLink .html node contents = .ok text) : IsMarkup text := by
  have written := Rule.linkText_of_rendered rendered
  cases written with
  | web | internal => exact markup_anchor markup _
  | placeholder => exact (markup_linkLabel markup _).wrapped (by simp) (by simp [attributeNames])

theorem markup_list {node : Node} (markup : IsMarkup contents)
    (rendered : Rule.renderList .html node contents = .ok text) : IsMarkup text := by
  rcases bind_eq_ok_iff.mp rendered with ⟨name, _, chosen⟩
  split at chosen
  · next tag listed =>
      cases chosen
      have unordered : tag = .plain "ul" := by
        rcases Option.bind_eq_some_iff.mp listed with ⟨kind, _, found⟩
        cases kind <;> cases found
        rfl
      rw [unordered]
      exact ((newline.append markup).enclosed (by simp)).append newline
  · cases chosen

theorem markup_monospace {node : Node}
    (rendered : Rule.renderMonospace .html node = .ok text) : IsMarkup text := by
  rcases bind_eq_ok_iff.mp rendered with ⟨value, _, written⟩
  cases written
  exact (escaped value).enclosed (by simp)

theorem markup_void : IsMarkup (Delimiters.angle.void "hr") :=
  Markup.rule .nil

/-! ## All rules -/

theorem markup_render {context : Context} (dialect : context.profile = .html)
    (secondary : ∀ entry ∈ context.secondary, IsMarkup entry.2) {node : Node} {rule : Rule}
    (source : rule = .sourceBlock → SourceFree node) (markup : IsMarkup contents)
    (rendered : rule.render context node contents = .ok text) : IsMarkup text := by
  cases rule <;> simp only [Rule.render, dialect] at rendered
  case document => cases rendered; exact markup
  case paragraph =>
    cases rendered
    exact markup_block markup fun _ inside => markup_tagged inside (by simp) newline
  case «section» =>
    cases rendered
    exact markup_block markup fun _ inside => inside.append newline
  case quoteBlock =>
    cases rendered
    exact markup_block markup fun _ inside => markup_tagged inside (by simp) newline
  case horizontalRule => cases rendered; exact markup_void.append newline
  case lineBreak => cases rendered
  case sourceBlock => exact markup_sourceBlock (source rfl) rendered
  case table => cases rendered; exact markup_table markup
  case tableRow =>
    cases rendered
    exact markup_block markup fun _ inside => markup_tagged inside (by simp) newline
  case tableCell =>
    cases rendered
    exact markup_tagged markup.trimmed (by simp) empty
  case headline => exact markup_headline dialect secondary markup rendered
  case bold => cases rendered; exact markup.enclosed (by simp)
  case italic => cases rendered; exact markup.enclosed (by simp)
  case underline => cases rendered; exact markup.enclosed (by simp)
  case strikeThrough => cases rendered; exact markup.enclosed (by simp)
  case monospace => exact markup_monospace rendered
  case link => exact markup_link markup rendered
  case list => exact markup_list markup rendered
  case item => cases rendered; exact markup_item dialect secondary node markup

end Html

end MarkupExport
