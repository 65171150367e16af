import MarkupExport.Proofs.Export.Carried
import MarkupExport.Proofs.Export.Success
import MarkupExport.Proofs.Export.Termination
import MarkupExport.Proofs.Node.Relabelled

/-!
Labels are only names. If the labels of a tree are renamed so that different ones stay different,
every step of the export goes as before: a label is looked up where it was, gets the number it had,
and no rule reads it. Only errors about footnotes name a label, and they name it under its new name.
-/

namespace MarkupExport

variable {rename : String → String}

/-! ## Errors -/

/-- The label that an error names. -/
def TranscodeError.label? : TranscodeError → Option String
  | .inlineFootnote label | .unknownFootnote label => some label
  | _ => none

/-- If this failed, then for no reason that has to do with a label. -/
def NamesNoLabel (result : Except TranscodeError α) : Prop :=
  ∀ error, result = .error error → error.label? = none

namespace NamesNoLabel

theorem ok (value : α) : NamesNoLabel (.ok value) :=
  nofun

theorem error {error : TranscodeError} (unnamed : error.label? = none) :
    NamesNoLabel (.error error : Except TranscodeError α) := by
  rintro _ ⟨⟩
  exact unnamed

theorem bind {first : Except TranscodeError α} {next : α → Except TranscodeError β}
    (firstUnnamed : NamesNoLabel first) (nextUnnamed : ∀ value, NamesNoLabel (next value)) :
    NamesNoLabel (first >>= next) := by
  cases first with
  | ok value => exact nextUnnamed value
  | error reason => exact .error (firstUnnamed reason rfl)

theorem requireText (node : Node) (name : String) : NamesNoLabel (node.requireText name) := by
  rw [Node.requireText]
  split
  · exact .ok _
  · exact .error rfl

theorem requireInt (node : Node) (name : String) : NamesNoLabel (node.requireInt name) := by
  rw [Node.requireInt]
  split
  · exact .ok _
  · exact .error rfl

theorem titleLine (profile : Profile) (level : Int64) (title : String) :
    NamesNoLabel (profile.titleLine level title) := by
  rw [Profile.titleLine]
  split
  · split
    · exact .ok _
    split
    · exact .ok _
    · exact .error rfl
  · split
    · exact .ok _
    · exact .error rfl

theorem headline (context : Context) (node : Node) (contents : String) :
    NamesNoLabel (Rule.renderHeadline context node contents) := by
  rw [Rule.renderHeadline]
  split
  · exact .ok _
  · exact (requireInt node _).bind fun level => (titleLine _ level _).bind fun _ => .ok _

theorem link (profile : Profile) (node : Node) (contents : String) :
    NamesNoLabel (Rule.renderLink profile node contents) := by
  refine (requireText node _).bind fun type => ?_
  split
  · exact (requireText node _).bind fun _ => .ok _
  split
  · exact .ok _
  split
  · refine (requireText node _).bind fun target => ?_
    split
    · exact .ok _
    · exact .error rfl
  · exact .error rfl

theorem list (profile : Profile) (node : Node) (contents : String) :
    NamesNoLabel (Rule.renderList profile node contents) := by
  refine (requireText node _).bind fun kind => ?_
  split
  · exact .ok _
  · exact .error rfl

/-- No rule complains of a label. -/
theorem render (rule : Rule) (context : Context) (node : Node) (contents : String) :
    NamesNoLabel (rule.render context node contents) := by
  cases rule with
  | lineBreak =>
      rw [Rule.render, Rule.renderLineBreak]
      split
      · exact .ok _
      · exact .error rfl
  | sourceBlock => exact (requireText node _).bind fun _ => .ok _
  | monospace => exact (requireText node _).bind fun _ => .ok _
  | headline => exact headline context node contents
  | link => exact link context.profile node contents
  | list => exact list context.profile node contents
  | _ => exact .ok _

theorem footnoteSection (context : Context) : NamesNoLabel context.footnoteSection := by
  rw [Context.footnoteSection]
  split
  · exact .ok _
  · exact (titleLine _ _ _).bind fun _ => .ok _

end NamesNoLabel

/-! ## What is read of a relabelled node -/

namespace Node

variable (rename) (node : Node)

theorem requireText_relabelled {name : String} (other : name ≠ "label") :
    (node.relabelled rename).requireText name = node.requireText name := by
  rw [requireText, requireText, textProperty?_relabelled_of_ne rename node other, kind_relabelled]

theorem innerScope_relabelled (scope : Option ListKind) :
    Export.innerScope scope (node.relabelled rename) = Export.innerScope scope node := by
  simp [Export.innerScope]

theorem leading?_relabelled (scope : Option ListKind) :
    (node.relabelled rename).leading? scope = (node.leading? scope).map fun named =>
      (named.1, named.2.map (relabelled rename)) := by
  have same : Export.leadingProperty? scope (node.relabelled rename) =
      Export.leadingProperty? scope node := by
    simp [Export.leadingProperty?]
  rw [leading?, leading?, same]
  cases Export.leadingProperty? scope node with
  | none => rfl
  | some name => cases found : node.nodesProperty? name <;> simp [found]

theorem leadingNodes_relabelled (scope : Option ListKind) :
    (node.relabelled rename).leadingNodes scope =
      (node.leadingNodes scope).map (relabelled rename) := by
  rw [leadingNodes, leadingNodes, leading?_relabelled]
  cases node.leading? scope <;> rfl

theorem renderedLeading_relabelled (scope : Option ListKind) (text : String) :
    (node.relabelled rename).renderedLeading scope text = node.renderedLeading scope text := by
  rw [renderedLeading, renderedLeading, leading?_relabelled]
  cases node.leading? scope <;> rfl

end Node

/-- Rules have no eye for labels. -/
theorem Rule.render_relabelled (rename : String → String) (rule : Rule) (context : Context)
    (node : Node) (contents : String) :
    rule.render context (node.relabelled rename) contents = rule.render context node contents := by
  cases rule <;>
    simp [Rule.render, Rule.renderLineBreak, Rule.renderSourceBlock, Rule.renderHeadline,
      Rule.renderMonospace, Rule.renderLink, Rule.renderList, Rule.renderItem, Node.requireInt,
      Node.requireText_relabelled, Context.secondaryText?]

/-! ## Registers -/

namespace FootnoteRegister

variable (register : FootnoteRegister) (injective : Function.Injective rename)

/-- The same footnotes under other labels. -/
def relabelled : FootnoteRegister where
  labels := register.labels.map rename
  entries := register.entries
  nodup_labels := register.nodup_labels.map injective
  ascending_entries := register.ascending_entries

theorem number?_relabelled (label : String) :
    (register.relabelled injective).number? (rename label) = register.number? label := by
  apply Option.ext
  intro number
  rw [number?_eq_some_iff, number?_eq_some_iff]
  simp [relabelled, injective.eq_iff]

theorem ext_parts {left right : FootnoteRegister} (labels : left.labels = right.labels)
    (entries : left.entries = right.entries) : left = right := by
  cases left
  cases right
  cases labels
  cases entries
  rfl

theorem labels_relabelled : (register.relabelled injective).labels = register.labels.map rename :=
  rfl

theorem entries_relabelled : (register.relabelled injective).entries = register.entries :=
  rfl

theorem assign_relabelled {label : String} (unknown : register.number? label = none) :
    ((register.relabelled injective).assign (rename label)).2 =
      (register.assign label).2.relabelled injective := by
  have unknownToo := (number?_relabelled register injective label).trans unknown
  rcases assign_of_unknown unknown with ⟨_, labels, entries⟩
  rcases assign_of_unknown unknownToo with ⟨_, labelsToo, entriesToo⟩
  apply ext_parts
  · rw [labelsToo, labels_relabelled, labels_relabelled, labels, List.map_append,
      List.map_singleton]
  · rw [entriesToo, entries_relabelled, entries_relabelled, entries]

end FootnoteRegister

/-! ## Two exports side by side -/

/-- From this job the export comes to a reference with this label, if it has one, and refuses it for
having its footnote inside. -/
def RefusesInline (setting : Setting) (job : Job) (label : Option String) : Prop :=
  ∃ scope node secondary contents register,
    Reaches setting job ⟨scope, .handle node secondary contents .footnoteReference, register⟩ ∧
      (node.flag "inline" || !node.children.isEmpty) = true ∧ node.textProperty? "label" = label

/-- The results of a job and of the job under other labels. -/
inductive Results (rename : String → String) (setting : Setting) (job : Job) :
    Except TranscodeError String → Except TranscodeError String → Prop
  | ok {text} : Results rename setting job (.ok text) (.ok text)
  | unnamed {error} : error.label? = none →
      Results rename setting job (.error error) (.error error)
  | unknown {label} : Results rename setting job (.error (.unknownFootnote label))
      (.error (.unknownFootnote (rename label)))
  | inline {label} : RefusesInline setting job label →
      Results rename setting job (.error (.inlineFootnote (label.getD "")))
        (.error (.inlineFootnote ((label.map rename).getD "")))

namespace Results

variable {setting : Setting} {outer inner job : Job} {left right : Except TranscodeError String}

theorem of_needed (needs : Needs setting outer inner)
    (results : Results rename setting inner left right) :
    Results rename setting outer left right := by
  cases results with
  | ok => exact .ok
  | unnamed unnamed => exact .unnamed unnamed
  | unknown => exact .unknown
  | inline refuses =>
      rcases refuses with ⟨scope, node, secondary, contents, register, reaches, inline, label⟩
      exact .inline ⟨scope, node, secondary, contents, register, .head needs reaches, inline, label⟩

theorem exists_error {error : TranscodeError}
    (results : Results rename setting job (.error error) right) : ∃ other, right = .error other := by
  cases results <;> exact ⟨_, rfl⟩

theorem of_unnamed (unnamed : NamesNoLabel left) : Results rename setting job left left := by
  cases left with
  | ok text => exact .ok
  | error error => exact .unnamed (unnamed error rfl)

end Results

/-- The tasks are the same under other labels. Only a reference is handled by its mark. -/
inductive Task.Relabels (rename : String → String) : Task → Task → Prop
  | node {node} : Relabels rename (.node node) (.node (node.relabelled rename))
  | nodes {nodes} : Relabels rename (.nodes nodes) (.nodes (nodes.map (Node.relabelled rename)))
  | handle {node secondary contents handler} :
      (handler = .footnoteReference → node.kind = .footnoteReference) →
      Relabels rename (.handle node secondary contents handler)
        (.handle (node.relabelled rename) secondary contents handler)
  | mark {label} : Relabels rename (.mark label) (.mark (rename label))

theorem NamesNoLabel.settled {setting : Setting} {node : Node}
    {result : Except TranscodeError String} (entry : setting.entry node = .settled result) :
    NamesNoLabel result := by
  rw [Setting.entry] at entry
  repeat' split at entry
  all_goals cases entry
  · exact .ok _
  · exact .ok _
  · exact .ok _
  · exact .error rfl

theorem Setting.entry_relabelled {left right : Setting} (asks : left.AsksLike right) (node : Node) :
    right.entry (node.relabelled rename) = left.entry node := by
  simp [Setting.entry, asks.options, asks.profile]

/-- A reference under another label is refused for the same reason, or refers to the footnote that
is called so. -/
theorem Node.referredLabel_relabelled {node : Node} (kind : node.kind = .footnoteReference) :
    (node.relabelled rename).referredLabel =
      if (node.flag "inline" || !node.children.isEmpty) = true then
        .error (.inlineFootnote (((node.textProperty? "label").map rename).getD ""))
      else node.referredLabel.map rename := by
  have labelled : node.kind.isLabelled = true := by rw [kind]; rfl
  have label := Node.label_relabelled rename labelled
  rw [referredLabel, label, flag_relabelled, children_relabelled, List.isEmpty_map]
  split
  · rfl
  · next accepted =>
    rw [referredLabel, if_neg accepted, requireText, requireText, label, kind_relabelled]
    cases node.textProperty? "label" <;> rfl

/-- What happens to a task happens to it under other labels: the result is the same but for the
label in an error, the same claims are made, and the same footnotes are left. -/
theorem Renders.relabelled {tree : Node} {options : ExportOptions} {profile : Profile}
    (known : profile = .html ∨ profile = .bbcode) (injective : Function.Injective rename)
    {scope : Option ListKind} {task : Task} {before after : FootnoteRegister}
    {result : Except TranscodeError String} {claims : List Claim}
    (rendered : Renders (.ofTree tree options profile) scope task before result claims after)
    {other : Task} (relabels : task.Relabels rename other) :
    ∃ otherResult,
      Results rename (.ofTree tree options profile) ⟨scope, task, before⟩ result otherResult ∧
      Renders (.ofTree (tree.relabelled rename) options profile) scope other
        (before.relabelled injective) otherResult
        (claims.map fun claim => ⟨rename claim.label, claim.scope⟩)
        (after.relabelled injective) := by
  have asks : (Setting.ofTree tree options profile).AsksLike
      (.ofTree (tree.relabelled rename) options profile) := ⟨rfl, rfl⟩
  induction rendered generalizing other with
  | nil =>
      cases relabels
      exact ⟨_, .ok, .nil⟩
  | cons _ _ head tail =>
      cases relabels
      rcases head .node with ⟨_, ⟨⟩, first⟩
      rcases tail .nodes with ⟨_, ⟨⟩, rest⟩
      rw [List.map_append]
      exact ⟨_, .ok, .cons first rest⟩
  | headFails _ head =>
      cases relabels
      rcases head .node with ⟨other, results, first⟩
      rcases results.exists_error with ⟨error, rfl⟩
      exact ⟨_, results.of_needed .head, .headFails first⟩
  | tailFails headRendered _ head tail =>
      cases relabels
      rcases head .node with ⟨_, ⟨⟩, first⟩
      rcases tail .nodes with ⟨other, results, rest⟩
      rcases results.exists_error with ⟨error, rfl⟩
      rw [List.map_append]
      exact ⟨_, results.of_needed (.tail headRendered), .tailFails first rest⟩
  | settled entry =>
      cases relabels
      exact ⟨_, .of_unnamed (.settled entry),
        .settled ((Setting.entry_relabelled asks _).trans entry)⟩
  | leadingFails entry _ leading =>
      cases relabels
      rcases leading .nodes with ⟨other, results, inside⟩
      rcases results.exists_error with ⟨error, rfl⟩
      rw [← Node.leadingNodes_relabelled] at inside
      exact ⟨_, results.of_needed (.leading entry),
        .leadingFails ((Setting.entry_relabelled asks _).trans entry) inside⟩
  | contentsFail entry leadingRendered _ leading contents =>
      cases relabels
      rcases leading .nodes with ⟨_, ⟨⟩, first⟩
      rcases contents .nodes with ⟨other, results, inside⟩
      rcases results.exists_error with ⟨error, rfl⟩
      rw [← Node.leadingNodes_relabelled] at first
      rw [← Node.children_relabelled, ← Node.innerScope_relabelled rename] at inside
      rw [List.map_append]
      exact ⟨_, results.of_needed (.contents entry leadingRendered),
        .contentsFail ((Setting.entry_relabelled asks _).trans entry) first inside⟩
  | entered entry leadingRendered contentsRendered _ leading contents handled =>
      cases relabels
      rcases leading .nodes with ⟨_, ⟨⟩, first⟩
      rcases contents .nodes with ⟨_, ⟨⟩, inside⟩
      rcases handled (.handle (by
        rintro rfl
        exact (Profile.footnoteReference_iff known _).mp (Node.entered_of_entry entry).2)) with
        ⟨other, results, finished⟩
      rw [← Node.leadingNodes_relabelled] at first
      rw [← Node.children_relabelled, ← Node.innerScope_relabelled rename] at inside
      rw [← Node.renderedLeading_relabelled rename] at finished
      rw [List.map_append, List.map_append]
      exact ⟨_, results.of_needed (.handled entry leadingRendered contentsRendered),
        .entered ((Setting.entry_relabelled asks _).trans entry) first inside finished⟩
  | @rule scope node secondary contents rule register =>
      cases relabels
      refine ⟨_, .of_unnamed (.render rule _ node contents), ?_⟩
      rw [asks.render_context, Rule.render_footnotes, ← Rule.render_relabelled rename]
      exact .rule
  | @refused _ node _ _ _ _ refused =>
      cases relabels with
      | handle kind =>
          have refusedToo := @Node.referredLabel_relabelled rename _ (kind rfl)
          split at refusedToo
          · next inline =>
            rw [Node.referredLabel, if_pos inline] at refused
            cases refused
            exact ⟨_, .inline ⟨_, _, _, _, _, .refl, inline, rfl⟩, .refused refusedToo⟩
          · next accepted =>
            rw [refused] at refusedToo
            rw [Node.referredLabel, if_neg accepted] at refused
            exact ⟨_, .unnamed (NamesNoLabel.requireText node _ _ refused), .refused refusedToo⟩
  | referred referred _ mark =>
      cases relabels with
      | handle kind =>
          rcases mark .mark with ⟨other, results, marked⟩
          have referredToo := @Node.referredLabel_relabelled rename _ (kind rfl)
          rcases Node.referredLabel_eq_ok_iff.mp referred with ⟨inline, children, _⟩
          rw [if_neg (by simp [inline, children]), referred] at referredToo
          exact ⟨_, results.of_needed (.mark referred), .referred referredToo marked⟩
  | numbered known =>
      cases relabels
      exact ⟨_, .ok, .numbered ((FootnoteRegister.number?_relabelled _ injective _).trans known)⟩
  | undefined unknown absent =>
      cases relabels
      refine ⟨_, .unknown,
        .undefined ((FootnoteRegister.number?_relabelled _ injective _).trans unknown) ?_⟩
      exact (Node.definition_relabelled injective tree _).trans (congrArg _ absent)
  | definitionFails unknown found _ body =>
      cases relabels
      rcases body .nodes with ⟨other, results, inside⟩
      rcases results.exists_error with ⟨error, rfl⟩
      rw [← Node.children_relabelled, ← FootnoteRegister.assign_relabelled _ injective unknown]
        at inside
      exact ⟨_, results.of_needed (.definition unknown found),
        .definitionFails ((FootnoteRegister.number?_relabelled _ injective _).trans unknown)
          ((Node.definition_relabelled injective tree _).trans (congrArg _ found)) inside⟩
  | @claimed _ before _ _ _ _ _ unknown found _ body =>
      cases relabels
      rcases body .nodes with ⟨_, ⟨⟩, inside⟩
      rw [← Node.children_relabelled, ← FootnoteRegister.assign_relabelled _ injective unknown]
        at inside
      have claimed := Renders.claimed
        ((FootnoteRegister.number?_relabelled _ injective _).trans unknown)
        ((Node.definition_relabelled injective tree _).trans (congrArg _ found)) inside
      rw [FootnoteRegister.labels_relabelled, List.length_map] at claimed
      exact ⟨_, .ok, claimed⟩

/-- The results of an export and of the export under other labels. -/
theorem Results.transcode (tree : Node) (options : ExportOptions) {profile : Profile}
    (known : profile = .html ∨ profile = .bbcode) (injective : Function.Injective rename) :
    Results rename (.ofTree tree options profile) ⟨none, .node tree, {}⟩
      (transcode tree options profile) (transcode (tree.relabelled rename) options profile) := by
  rcases (Context.start tree options profile).transcode_renders tree with
    ⟨result, claims, final, performed, rendered⟩
  rcases Renders.relabelled known injective rendered .node with ⟨other, results, again⟩
  have performedToo :
      (Context.start (tree.relabelled rename) options profile).transcode (tree.relabelled rename) =
        (other, { Context.start (tree.relabelled rename) options profile with
          footnotes := final.relabelled injective }) :=
    Context.transcode_of_renders again
  rw [MarkupExport.transcode, MarkupExport.transcode, performed, performedToo]
  cases results with
  | ok => exact .of_unnamed ((NamesNoLabel.footnoteSection _).bind fun _ => .ok _)
  | unnamed unnamed => exact .unnamed unnamed
  | unknown => exact .unknown
  | inline refuses => exact .inline refuses

/-- If the labels of references and definitions are renamed so that different labels stay different,
then the text of the tree is the same. An export that fails does so for the same reason: a label
that has no definition is reported under its new name, and a reference that has its footnote inside
under the new name of its label, if it has one. -/
theorem transcode_relabelled (tree : Node) (options : ExportOptions) (profile : Profile)
    (known : profile = .html ∨ profile = .bbcode) (rename : String → String)
    (injective : Function.Injective rename) :
    match transcode tree options profile with
    | .ok text => transcode (tree.relabelled rename) options profile = .ok text
    | .error (.inlineFootnote name) => ∃ label,
      RefusesInline (.ofTree tree options profile) ⟨none, .node tree, {}⟩ label ∧
        name = label.getD "" ∧
          transcode (tree.relabelled rename) options profile =
            .error (.inlineFootnote ((label.map rename).getD ""))
    | .error (.unknownFootnote label) =>
      transcode (tree.relabelled rename) options profile = .error (.unknownFootnote (rename label))
    | .error error => transcode (tree.relabelled rename) options profile = .error error := by
  have results := Results.transcode tree options known injective
  generalize transcode tree options profile = left at results ⊢
  generalize transcode (tree.relabelled rename) options profile = right at results ⊢
  cases results with
  | ok => rfl
  | @unnamed error unnamed =>
      cases error with
      | inlineFootnote _ | unknownFootnote _ => cases unnamed
      | _ => rfl
  | unknown => rfl
  | @inline label refuses => exact ⟨label, refuses, rfl, rfl⟩

/-- A headline whose title refers to a footnote, and a text that refers to another. -/
def titled (first second : String) (notes : List Node) : Node :=
  let reference label := (Node.mk .footnoteReference [] []).withProperty "label" (.text label)
  let headline := ((Node.mk .headline [] []).withProperty "level" (.int 3)).withProperty "title"
    (.nodes [.text "title", reference first])
  Node.mk .document ([headline, ⟨.paragraph, [reference second], []⟩] ++ notes) []

theorem transcode_relabelled_titled :
    let rename := fun label => "note " ++ label
    let definition label children :=
      (Node.mk .footnoteDefinition children []).withProperty "label" (.text label)
    let left := titled "a" "b" [definition "b" [.text "two"], definition "a" [.text "one"]]
    let right := titled "note a" "note b"
      [definition "note b" [.text "two"], definition "note a" [.text "one"]]
    Function.Injective rename ∧ left.relabelled rename = right ∧
      transcode left {} .html =
        .ok "<h3>title^1</h3>\n<p>^2</p>\n<!--  Footnotes  -->\n^1: one\n^2: two\n" ∧
      transcode right {} .html =
        .ok "<h3>title^1</h3>\n<p>^2</p>\n<!--  Footnotes  -->\n^1: one\n^2: two\n" ∧
      transcode (titled "a" "b" []) {} .html = .error (.unknownFootnote "a") ∧
      transcode ((titled "a" "b" []).relabelled rename) {} .html =
        .error (.unknownFootnote "note a") := by
  intro rename definition left right
  have injective : Function.Injective rename := fun one other equal =>
    (String.append_right_inj "note ").mp equal
  have same : left.relabelled rename = right := by decide +kernel
  have success : transcode left {} .html =
      .ok "<h3>title^1</h3>\n<p>^2</p>\n<!--  Footnotes  -->\n^1: one\n^2: two\n" := by
    decide +kernel
  have failure : transcode (titled "a" "b" []) {} .html = .error (.unknownFootnote "a") := by
    decide +kernel
  -- Nothing below needs the tree to be looked at again.
  clear_value left
  have successToo := transcode_relabelled left {} .html (.inl rfl) rename injective
  have failureToo := transcode_relabelled (titled "a" "b" []) {} .html (.inl rfl) rename injective
  rw [success, same] at successToo
  rw [failure] at failureToo
  exact ⟨injective, same, success, successToo, failure, failureToo⟩

end MarkupExport
