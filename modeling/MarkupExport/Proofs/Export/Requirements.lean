import Mathlib.Tactic.MkIffOfInductiveProp
import MarkupExport.Export.Transcode
import MarkupExport.Profile.Bbcode
import MarkupExport.Profile.Html
import MarkupExport.Proofs.Footnote.Definitions

/-!
What each kind of node must carry for its rule to succeed. Whether a rule succeeds is decided by
the node and the profile; the contents and the rest of the context have no part in it.
-/

namespace MarkupExport

/-- A sequence of steps succeeds if every step does. -/
theorem bind_eq_ok_iff {first : Except ε α} {next : α → Except ε β} {value : β} :
    first >>= next = .ok value ↔ ∃ middle, first = .ok middle ∧ next middle = .ok value := by
  cases first <;> simp [bind, Except.bind]

theorem bind_succeeds_iff {first : Except ε α} {next : α → Except ε β}
    (total : ∀ middle, ∃ value, next middle = .ok value) :
    (∃ value, first >>= next = .ok value) ↔ ∃ middle, first = .ok middle := by
  simp only [bind_eq_ok_iff]
  constructor
  · intro succeeded
    rcases succeeded with ⟨_, middle, succeeds, _⟩
    exact ⟨middle, succeeds⟩
  · intro succeeded
    rcases succeeded with ⟨middle, succeeds⟩
    rcases total middle with ⟨value, last⟩
    exact ⟨value, middle, succeeds, last⟩

/-- The style has a headline for this level. -/
def HeadlineStyle.Accepts : HeadlineStyle → Int64 → Prop
  | .outline commentThrough maxLevel, level => level ≤ commentThrough ∨ level ≤ maxLevel.toInt64
  | .marked markers _ _, level => 0 ≤ level.toInt ∧ level.toInt < markers.length

namespace Node

/-- The link leads to the web, to a place in the document, or nowhere yet. -/
def HasTarget (node : Node) : Prop :=
  ∃ type, node.textProperty? "type" = some type ∧
    ((type = "http" ∨ type = "https") ∧ (node.textProperty? "path").isSome ∨
      type = "todo" ∨
      type = "fuzzy" ∧ ∃ target, node.textProperty? "raw_link" = some target ∧
        target.toList.head? = some '#')

/-- A node of this tree carries what the profile needs to render it. -/
@[mk_iff exportable_iff]
structure Exportable (node tree : Node) (profile : Profile) : Prop where
  headline : node.kind = .headline → node.flag "footnote_section" = true ∨
    ∃ level, node.intProperty? "level" = some level ∧ profile.headlines.Accepts level
  literal : node.kind = .code ∨ node.kind = .verbatim ∨ node.kind = .sourceBlock →
    (node.textProperty? "value").isSome
  link : node.kind = .link → node.HasTarget
  list : node.kind = .list → ∃ kind tag, node.textProperty? "kind" = some kind.name ∧
    profile.lists.kinds.lookup kind = some tag
  reference : node.kind = .footnoteReference → node.flag "inline" = false ∧ node.children = [] ∧
    ∃ label, node.textProperty? "label" = some label ∧
      (tree.walk.find? fun other => other.Defines label).isSome

theorem requireText_eq_ok_iff {node : Node} {name text : String} :
    node.requireText name = .ok text ↔ node.textProperty? name = some text := by
  cases found : node.textProperty? name <;> simp [requireText, found]

theorem requireText_succeeds_iff {node : Node} {name : String} :
    (∃ text, node.requireText name = .ok text) ↔ (node.textProperty? name).isSome := by
  simp only [requireText_eq_ok_iff, Option.isSome_iff_exists]

end Node

theorem ListKind.ofName?_eq_some_iff {name : String} {kind : ListKind} :
    ListKind.ofName? name = some kind ↔ name = kind.name := by
  constructor
  · intro found
    rw [ListKind.ofName?.eq_def] at found
    split at found <;> cases found <;> rfl
  · intro named
    subst named
    exact ListKind.ofName?_name kind

namespace Rule

variable {profile : Profile} {node : Node} {contents : String}

theorem titleLine_succeeds_iff {level : Int64} {title : String} :
    (∃ line, profile.titleLine level title = .ok line) ↔ profile.headlines.Accepts level := by
  rw [Profile.titleLine]
  cases profile.headlines with
  | outline commentThrough maxLevel =>
      simp only [HeadlineStyle.Accepts]
      by_cases comment : level ≤ commentThrough
      · simp [comment]
      · by_cases heading : level ≤ maxLevel.toInt64 <;> simp [comment, heading]
  | marked markers emphasis underline =>
      simp only [HeadlineStyle.Accepts]
      by_cases negative : level < 0
      · have below := Int64.lt_iff_toInt_lt.mp negative
        simp only [negative, if_true, Int64.toInt_zero] at below ⊢
        constructor
        · intro impossible
          rcases impossible with ⟨_, ⟨⟩⟩
        · omega
      · have above : 0 ≤ level.toInt := by
          have notBelow := mt Int64.lt_iff_toInt_lt.mpr negative
          simpa using notBelow
        simp only [negative, if_false]
        cases found : markers[level.toInt.toNat]? with
        | none =>
            have outside := List.getElem?_eq_none_iff.mp found
            constructor
            · intro impossible
              rcases impossible with ⟨_, ⟨⟩⟩
            · omega
        | some marker =>
            rcases List.getElem?_eq_some_iff.mp found with ⟨inside, _⟩
            constructor
            · intro _
              omega
            · intro _
              exact ⟨_, rfl⟩

theorem renderHeadline_succeeds_iff {context : Context} :
    (∃ text, renderHeadline context node contents = .ok text) ↔
      node.flag "footnote_section" = true ∨
        ∃ level, node.intProperty? "level" = some level ∧
          context.profile.headlines.Accepts level := by
  rw [renderHeadline, Node.requireInt]
  by_cases dropped : node.flag "footnote_section" = true
  · simp [dropped]
  · cases node.intProperty? "level" with
    | none => simp [dropped, bind, Except.bind]
    | some level =>
        simp only [dropped, Bool.false_eq_true, if_false, false_or, Option.some.injEq,
          exists_eq_left']
        rw [← titleLine_succeeds_iff]
        change (∃ text, context.profile.titleLine level _ >>= _ = .ok text) ↔ _
        apply bind_succeeds_iff
        intro line
        exact ⟨_, rfl⟩

theorem renderMonospace_succeeds_iff :
    (∃ text, renderMonospace profile node = .ok text) ↔ (node.textProperty? "value").isSome := by
  rw [← Node.requireText_succeeds_iff]
  apply bind_succeeds_iff
  intro value
  exact ⟨_, rfl⟩

theorem renderSourceBlock_succeeds_iff :
    (∃ text, renderSourceBlock profile node = .ok text) ↔ (node.textProperty? "value").isSome := by
  rw [← Node.requireText_succeeds_iff]
  apply bind_succeeds_iff
  intro value
  exact ⟨_, rfl⟩

theorem renderLink_succeeds_iff (placeholder : profile.links.placeholderType = "todo")
    (internal : profile.links.internalType = "fuzzy") (start : profile.links.internalStart = "#") :
    (∃ text, renderLink profile node contents = .ok text) ↔ node.HasTarget := by
  simp only [renderLink, Node.HasTarget, Node.requireText]
  cases node.textProperty? "type" with
  | none => simp [bind, Except.bind]
  | some type =>
      simp only [bind, Except.bind, placeholder, internal, start, Option.some.injEq,
        exists_eq_left']
      by_cases web : type = "http" ∨ type = "https"
      · have settled : type ≠ "todo" ∧ type ≠ "fuzzy" := by
          rcases web with rfl | rfl <;> decide
        cases node.textProperty? "path" <;> simp [web, settled, pure, Except.pure]
      · by_cases todo : type = "todo"
        · simp [todo, pure, Except.pure]
        · by_cases fuzzy : type = "fuzzy"
          · cases node.textProperty? "raw_link" with
            | none => simp [fuzzy]
            | some target =>
                have starts : ['#'] <+: target.toList ↔ target.toList.head? = some '#' := by
                  cases target.toList <;> simp [eq_comm]
                by_cases inside : target.toList.head? = some '#' <;>
                  simp [fuzzy, starts, inside, pure, Except.pure, throw, throwThe,
                    MonadExceptOf.throw]
          · simp [web, todo, fuzzy, throw, throwThe, MonadExceptOf.throw]

/-- What a link is written as. -/
inductive LinkText (profile : Profile) (node : Node) (contents : String) : String → Prop
  | web {type path : String} (typed : node.textProperty? "type" = some type)
      (web : type = "http" ∨ type = "https") (found : node.textProperty? "path" = some path) :
      LinkText profile node contents (anchor profile contents (type ++ ":" ++ path))
  | placeholder (typed : node.textProperty? "type" = some profile.links.placeholderType) :
      LinkText profile node contents (profile.links.placeholder.render profile.delimiters
        (linkLabel profile contents ((node.textProperty? "path").getD "")))
  | internal {target : String}
      (typed : node.textProperty? "type" = some profile.links.internalType)
      (found : node.textProperty? "raw_link" = some target)
      (begins : profile.links.internalStart.toList.isPrefixOf target.toList = true) :
      LinkText profile node contents (anchor profile contents target)

theorem linkText_of_rendered {text : String}
    (rendered : renderLink profile node contents = .ok text) :
    LinkText profile node contents text := by
  obtain ⟨type, required, chosen⟩ := bind_eq_ok_iff.mp rendered
  have typed := Node.requireText_eq_ok_iff.mp required
  split at chosen
  · next web =>
    obtain ⟨path, found, written⟩ := bind_eq_ok_iff.mp chosen
    cases written
    exact .web typed web (Node.requireText_eq_ok_iff.mp found)
  split at chosen
  · next placeholder =>
    cases chosen
    exact .placeholder (placeholder ▸ typed)
  split at chosen
  · next internal =>
    obtain ⟨target, found, checked⟩ := bind_eq_ok_iff.mp chosen
    split at checked
    · next begins =>
      cases checked
      exact .internal (internal ▸ typed) (Node.requireText_eq_ok_iff.mp found) begins
    · cases checked
  · cases chosen

theorem renderList_succeeds_iff :
    (∃ text, renderList profile node contents = .ok text) ↔
      ∃ kind tag, node.textProperty? "kind" = some kind.name ∧
        profile.lists.kinds.lookup kind = some tag := by
  rw [renderList, Node.requireText]
  cases node.textProperty? "kind" with
  | none => simp [bind, Except.bind]
  | some name =>
      have listed : (∃ tag, listTag? profile name = some tag) ↔
          ∃ kind tag, name = kind.name ∧ profile.lists.kinds.lookup kind = some tag := by
        simp only [listTag?, Option.bind_eq_some_iff, ListKind.ofName?_eq_some_iff]
        constructor
        · intro listed
          rcases listed with ⟨tag, kind, named, found⟩
          exact ⟨kind, tag, named, found⟩
        · intro listed
          rcases listed with ⟨kind, tag, named, found⟩
          exact ⟨tag, kind, named, found⟩
      simp only [bind, Except.bind, Option.some.injEq]
      rw [← listed]
      cases listTag? profile name <;>
        simp [pure, Except.pure, throw, throwThe, MonadExceptOf.throw]

/-- Both profiles give a kind to the same rule, if they give it to one. -/
theorem bbcode_policy_eq {rule : Rule} (known : profile = .html ∨ profile = .bbcode)
    {kind : NodeKind} (handled : profile.policy kind = .handle (.rule rule)) :
    Profile.bbcodePolicy kind = .handle (.rule rule) := by
  rcases known with rfl | rfl
  · cases kind <;> cases handled <;> rfl
  · exact handled

/-- Where a profile gives a kind of node to a rule, the rule succeeds on the exportable nodes. -/
theorem render_succeeds_iff {context : Context} {rule : Rule} {tree : Node}
    (known : context.profile = .html ∨ context.profile = .bbcode)
    (handled : context.profile.policy node.kind = .handle (.rule rule)) :
    (∃ text, rule.render context node contents = .ok text) ↔
      node.Exportable tree context.profile := by
  have links : context.profile.links.placeholderType = "todo" ∧
      context.profile.links.internalType = "fuzzy" ∧ context.profile.links.internalStart = "#" := by
    rcases known with same | same <;> rw [same] <;> exact ⟨rfl, rfl, rfl⟩
  have breaks : node.kind = .lineBreak → ∃ text, context.profile.lineBreak = some text := by
    intro kind
    rcases known with same | same
    · rw [same, kind] at handled
      cases handled
    · rw [same]
      exact ⟨_, rfl⟩
  have customary := bbcode_policy_eq known handled
  rw [Node.exportable_iff]
  cases kind : node.kind <;> rw [kind] at customary <;> cases customary <;> simp only [render]
  case headline => simpa using renderHeadline_succeeds_iff
  case code => simpa using renderMonospace_succeeds_iff
  case verbatim => simpa using renderMonospace_succeeds_iff
  case sourceBlock => simpa using renderSourceBlock_succeeds_iff
  case link => simpa using renderLink_succeeds_iff links.1 links.2.1 links.2.2
  case list => simpa using renderList_succeeds_iff
  case lineBreak =>
    rcases breaks kind with ⟨text, found⟩
    simp [renderLineBreak, found]
  all_goals simp

end Rule

end MarkupExport
