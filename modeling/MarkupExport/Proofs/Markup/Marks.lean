import MarkupExport.Proofs.Export.Reached
import MarkupExport.Proofs.Export.Requirements

/-!
The marks of footnotes in texts. A mark is a caret with a number behind it, and where no digit
follows it is the mark of this number and of no other. Rules trim the contents that they write and
put tags and other text around them, and no mark is lost by that.
-/

namespace MarkupExport

open Text (blanks isBlank isBlankText trim)

namespace Mark

def chars (number : Nat) : List Char :=
  '^' :: number.repr.toList

/-- The mark stands in the text, and no digit follows it there. -/
def ShownIn (number : Nat) (text : String) : Prop :=
  ∃ front back, text.toList = front ++ chars number ++ back ∧
    ∀ next ∈ back.head?, next.isDigit = false

/-- The mark stands in the text and something else follows it there, so that it is shown wherever
the text is. -/
def ClosedIn (number : Nat) (text : String) : Prop :=
  ∃ front next back, text.toList = front ++ chars number ++ next :: back ∧ next.isDigit = false

/-- The text begins with something else than a digit. -/
def Closes (text : String) : Prop :=
  ∃ next rest, text.toList = next :: rest ∧ next.isDigit = false

variable {number : Nat} {left right text : String}

/-! ## Marks beside other text -/

theorem ClosedIn.shownIn (closed : ClosedIn number text) : ShownIn number text := by
  rcases closed with ⟨front, next, back, equal, other⟩
  refine ⟨front, next :: back, equal, ?_⟩
  intro following first
  cases first
  exact other

theorem ClosedIn.prepend (closed : ClosedIn number right) (left : String) :
    ClosedIn number (left ++ right) := by
  rcases closed with ⟨front, next, back, equal, other⟩
  exact ⟨left.toList ++ front, next, back, by simp [equal], other⟩

theorem ClosedIn.append (closed : ClosedIn number left) (right : String) :
    ClosedIn number (left ++ right) := by
  rcases closed with ⟨front, next, back, equal, other⟩
  exact ⟨front, next, back ++ right.toList, by simp [equal], other⟩

theorem ShownIn.prepend (shown : ShownIn number right) (left : String) :
    ShownIn number (left ++ right) := by
  rcases shown with ⟨front, back, equal, other⟩
  exact ⟨left.toList ++ front, back, by simp [equal], other⟩

theorem ShownIn.append (shown : ShownIn number left) (closes : Closes right) :
    ClosedIn number (left ++ right) := by
  rcases shown with ⟨front, back, equal, other⟩
  rcases closes with ⟨next, rest, begins, noDigit⟩
  cases back with
  | nil => exact ⟨front, next, rest, by simp [equal, begins], noDigit⟩
  | cons following back =>
      exact ⟨front, following, back ++ right.toList, by simp [equal], other following rfl⟩

theorem closedIn_footnoteMark (number : Nat) : ClosedIn number (footnoteMark number) :=
  ⟨[], ' ', [], by simp [footnoteMark, chars], rfl⟩

/-! ## Marks in trimmed text -/

theorem isBlank_of_mem_chars {char : Char} (member : char ∈ chars number) :
    isBlank char = false := by
  apply Bool.eq_false_iff.mpr
  intro blank
  have listed : char ∈ blanks := List.contains_iff_mem.mp blank
  rcases List.mem_cons.mp member with rfl | inNumber
  · revert listed
    decide
  · rw [Nat.repr, String.toList_ofList] at inNumber
    have digit := Nat.isDigit_of_mem_toDigits (by decide) (by decide) inNumber
    -- Decided as a list: a quantifier over characters would be decided over all of them.
    have noDigits : blanks.all (!·.isDigit) = true := by decide
    have other := List.all_eq_true.mp noDigits char listed
    simp [digit] at other

theorem ShownIn.caret_mem (shown : ShownIn number text) : '^' ∈ text.toList := by
  rcases shown with ⟨front, back, equal, _⟩
  simp [equal, chars]

theorem ShownIn.isBlankText (shown : ShownIn number text) : isBlankText text = false := by
  rw [Text.isBlankText, List.all_eq_false]
  exact ⟨'^', shown.caret_mem, by decide⟩

theorem ShownIn.trim (shown : ShownIn number text) : ShownIn number (trim text) := by
  rcases shown with ⟨front, back, equal, other⟩
  refine ⟨_, _, Text.toList_trim equal (List.cons_ne_nil _ _) fun _ => isBlank_of_mem_chars, ?_⟩
  rcases Text.dropRightWhile_prefix isBlank back with ⟨blank, whole⟩
  intro next first
  apply other next
  rw [← whole, List.head?_append]
  simp [Option.mem_def.mp first]

/-! ## Marks between tags -/

section Tags

variable {content : String} (shown : ShownIn number content) (delimiters : Delimiters)

theorem closes_closing (name : String) : Closes (delimiters.closing name) := by
  cases delimiters <;> simp [Closes, Delimiters.closing, Delimiters.left]

include shown

theorem ShownIn.wrap (name : String) (attributes : List (String × String)) :
    ClosedIn number (delimiters.wrap name attributes content) :=
  (shown.prepend _).append (closes_closing delimiters name)

theorem ShownIn.wrapValue (name value : String) :
    ClosedIn number (delimiters.wrapValue name value content) :=
  (shown.prepend _).append (closes_closing delimiters name)

theorem ShownIn.tagged (tag : Tag) : ClosedIn number (tag.render delimiters content) := by
  cases tag with
  | plain name => exact shown.wrap delimiters name []
  | value name value => exact shown.wrapValue delimiters name value
  | attributes name attributes => exact shown.wrap delimiters name attributes

theorem ShownIn.linked (tag : UrlTag) (url : String) :
    ClosedIn number (tag.render delimiters url content) := by
  cases tag with
  | inAttribute tag name => exact shown.wrap delimiters tag [(name, url)]
  | asValue tag => exact shown.wrapValue delimiters tag _

theorem ShownIn.surrounded {style : BlockStyle} (closes : style.tag = none → Closes style.suffix) :
    ClosedIn number (style.surround delimiters content) := by
  rw [BlockStyle.surround]
  cases own : style.tag with
  | none => exact shown.append (closes own)
  | some tag => exact (shown.tagged delimiters tag).append _

theorem ShownIn.block {style : BlockStyle} (closes : style.tag = none → Closes style.suffix) :
    ClosedIn number (style.render delimiters content) := by
  rw [BlockStyle.render, if_neg (Bool.eq_false_iff.mp shown.isBlankText)]
  exact shown.trim.surrounded delimiters closes

end Tags

end Mark

/-! ## Rules -/

namespace Rule

open Mark

variable {number : Nat} {profile : Profile} {context : Context} {node : Node}
  {contents text title : String}

theorem closedIn_titleLine (shown : ShownIn number title) {level : Int64}
    (rendered : profile.titleLine level title = .ok text) : ClosedIn number text := by
  rw [Profile.titleLine] at rendered
  split at rendered
  · split at rendered
    · cases rendered
      exact (shown.prepend _).append ⟨' ', _, rfl, rfl⟩
    · split at rendered
      · cases rendered
        exact (shown.wrap _ _ _).append _
      · cases rendered
  · split at rendered
    · cases rendered
      exact (((shown.prepend _).tagged _ _).shownIn.tagged _ _).append _
    · cases rendered

/-- A headline that is kept is its title with the contents after it. -/
theorem renderHeadline_eq_ok (kept : node.flag "footnote_section" = false)
    (rendered : renderHeadline context node contents = .ok text) :
    ∃ level line, context.profile.titleLine level
        (trim ((context.secondaryText? node "title").getD "")) = .ok line ∧
      text = line ++ contents := by
  rw [renderHeadline, if_neg (Bool.eq_false_iff.mp kept)] at rendered
  rcases bind_eq_ok_iff.mp rendered with ⟨level, _, titled⟩
  rcases bind_eq_ok_iff.mp titled with ⟨line, headed, written⟩
  cases written
  exact ⟨level, line, headed, rfl⟩

theorem closedIn_linkLabel (closed : ClosedIn number contents) (fallback : String) :
    ShownIn number (linkLabel profile contents fallback) := by
  rw [linkLabel, if_neg (Bool.eq_false_iff.mp closed.shownIn.isBlankText)]
  exact closed.shownIn

theorem closedIn_link (closed : ClosedIn number contents)
    (rendered : renderLink profile node contents = .ok text) : ClosedIn number text := by
  have written := linkText_of_rendered rendered
  cases written with
  | web | internal => exact (closedIn_linkLabel closed _).linked _ _ _
  | placeholder => exact (closedIn_linkLabel closed _).tagged _ _

theorem closedIn_list (closed : ClosedIn number contents)
    (rendered : renderList profile node contents = .ok text) : ClosedIn number text := by
  rcases bind_eq_ok_iff.mp rendered with ⟨name, _, chosen⟩
  split at chosen
  · cases chosen
    exact ((closed.prepend _).shownIn.tagged _ _).append _
  · cases chosen

/-- An item is trimmed contents, in a list with terms after the term. -/
theorem closedIn_item (shown : ShownIn number contents ∨ context.scope = some .descriptive ∧
      ShownIn number ((context.secondaryText? node "tag").getD "")) :
    ClosedIn number (renderItem context node contents) := by
  rw [renderItem]
  have body : ShownIn number
      ((if context.scope = some .descriptive then
        context.profile.lists.term.render context.profile.delimiters
          (trim ((context.secondaryText? node "tag").getD "")) ++
            context.profile.lists.termSeparator
      else "") ++ trim contents) := by
    rcases shown with inContents | ⟨descriptive, inTerm⟩
    · exact inContents.trim.prepend _
    · rw [if_pos descriptive]
      exact (((inTerm.trim.tagged _ _).append _).append _).shownIn
  cases context.profile.lists.item with
  | wrapped tag => exact (body.tagged _ _).append _
  | bulleted bullet => exact (body.prepend _).append ⟨'\n', [], rfl, rfl⟩

/-! ## All rules -/

/-- Where a block has no tag, its text is closed by what follows the block. -/
theorem closes_blocks (known : profile = .html ∨ profile = .bbcode) :
    ∀ style ∈ [profile.paragraph, profile.sectionBlock, profile.quote, profile.tables.table,
      profile.tables.row, profile.tables.cell], style.tag = none → Closes style.suffix := by
  have closes : ∀ ending ∈ ["\n", "\n\n"], Closes ending := by
    simp [Closes]
  rcases known with rfl | rfl <;> simp [Profile.html, Profile.bbcode, closes]

end Rule

/-- The rule for the node writes nothing of what is inside the node. -/
def Node.dropsContents (node : Node) : Bool :=
  match node.kind with
  | .headline => node.flag "footnote_section"
  | .code | .verbatim | .sourceBlock | .lineBreak | .horizontalRule => true
  | _ => false

namespace Rule

open Mark

/-- The marks in the contents of a node are kept, unless all of its contents are dropped. -/
theorem closedIn_contents {number : Nat} {context : Context} {node : Node} {rule : Rule}
    {contents text : String} (rendered : rule.render context node contents = .ok text)
    (known : context.profile = .html ∨ context.profile = .bbcode)
    (handled : context.profile.policy node.kind = .handle (.rule rule))
    (kept : node.dropsContents = false) (closed : ClosedIn number contents) :
    ClosedIn number text := by
  have shown := closed.shownIn
  have closes := closes_blocks known
  simp only [List.forall_mem_cons] at closes
  rcases closes with ⟨paragraph, «section», quote, table, row, cell, _⟩
  have customary := bbcode_policy_eq known handled
  rw [Node.dropsContents] at kept
  cases kind : node.kind <;> rw [kind] at customary kept <;> cases customary <;>
    simp only [render, Except.ok.injEq] at rendered
  case document => exact rendered ▸ closed
  case headline =>
    rcases renderHeadline_eq_ok kept rendered with ⟨level, line, _, rfl⟩
    exact closed.prepend line
  case link => exact closedIn_link closed rendered
  case list => exact closedIn_list closed rendered
  case item => exact rendered ▸ closedIn_item (.inl shown)
  case table =>
    rw [renderTable, if_neg (Bool.eq_false_iff.mp shown.isBlankText)] at rendered
    exact rendered ▸ (shown.prepend _).surrounded _ table
  case tableCell => exact rendered ▸ shown.trim.surrounded _ cell
  case tableRow => exact rendered ▸ shown.block _ row
  case paragraph => exact rendered ▸ shown.block _ paragraph
  case «section» => exact rendered ▸ shown.block _ «section»
  case quoteBlock => exact rendered ▸ shown.block _ quote
  case bold | italic | underline | strikeThrough => exact rendered ▸ shown.tagged _ _
  case code | verbatim | sourceBlock | lineBreak | horizontalRule => cases kept

/-- The marks in the title or the term that stands before the contents are kept. -/
theorem closedIn_leading {number : Nat} {setting : Setting} {scope : Option ListKind}
    {register : FootnoteRegister} {node value : Node} {rule : Rule} {leading contents text : String}
    (rendered : rule.render (setting.context scope (node.renderedLeading scope leading) register)
      node contents = .ok text) (known : setting.profile = .html ∨ setting.profile = .bbcode)
    (handled : setting.profile.policy node.kind = .handle (.rule rule))
    (inside : value ∈ node.leadingNodes scope) (closed : ClosedIn number leading) :
    ClosedIn number text := by
  have customary := bbcode_policy_eq known handled
  rcases Node.renderedLeading_of_mem inside leading with
    ⟨kind, kept, own⟩ | ⟨kind, descriptive, own⟩ <;>
    rw [kind] at customary <;> cases customary <;> rw [own] at rendered
  · rcases renderHeadline_eq_ok kept rendered with ⟨level, line, titled, rfl⟩
    exact (closedIn_titleLine closed.shownIn.trim titled).append contents
  · cases rendered
    exact closedIn_item (.inr ⟨descriptive, closed.shownIn⟩)

end Rule

end MarkupExport
