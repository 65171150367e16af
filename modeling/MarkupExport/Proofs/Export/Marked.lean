import MarkupExport.Proofs.Export.Output
import MarkupExport.Proofs.Markup.Marks

/-!
Which footnotes have marks. What is inside a node is rendered before the rule for the node has its
say, so a footnote that is referred to from contents that the rule drops is numbered and listed like
any other. References whose contents are kept have their marks in the body or in a note.
-/

namespace MarkupExport

/-- A rendering of the node in this scope comes to a reference to the label, by way of titles, terms
and children. The reference is lost if a node on the way drops its contents. -/
inductive Node.Refers (options : ExportOptions) (profile : Profile) (label : String) :
    Option ListKind → (lost : Bool) → Node → Prop
  | reference {scope node} : node.Entered options profile → node.kind = .footnoteReference →
      node.textProperty? "label" = some label → Refers options profile label scope false node
  | leading {scope lost node value} : node.Entered options profile →
      value ∈ node.leadingNodes scope → Refers options profile label scope lost value →
      Refers options profile label scope lost node
  | child {scope inside lost node child} : node.Entered options profile → child ∈ node.children →
      Refers options profile label (Export.innerScope scope node) inside child →
      lost = (inside || node.dropsContents) → Refers options profile label scope lost node

theorem Node.Refers.entered {options : ExportOptions} {profile : Profile} {label : String}
    {scope : Option ListKind} {lost : Bool} {node : Node}
    (refers : node.Refers options profile label scope lost) : node.Entered options profile := by
  cases refers <;> assumption

/-- What it is for a task to come to a reference to the label. -/
def Task.Refers (setting : Setting) (label : String) (scope : Option ListKind) (lost : Bool) :
    Task → Prop
  | .node placed => placed.Refers setting.options setting.profile label scope lost
  | .nodes placed =>
    ∃ node ∈ placed, node.Refers setting.options setting.profile label scope lost
  | .handle placed _ _ handler =>
    lost = false ∧ handler = .footnoteReference ∧ placed.referredLabel = .ok label
  | .mark other => lost = false ∧ other = label

/-- The task comes to a reference to the label, or the note of another claimed label does. -/
def Task.Referred (setting : Setting) (scope : Option ListKind) (claims : List Claim) (lost : Bool)
    (label : String) (task : Task) : Prop :=
  task.Refers setting label scope lost ∨
    ∃ host ∈ claims, host.label ≠ label ∧
      ∃ definition, setting.definitions.get? host.label = some definition ∧
        (Task.nodes definition.children).Refers setting label host.scope lost

theorem Task.Referred.within {setting : Setting} {inner outer : Option ListKind}
    {early claims : List Claim} {lost : Bool} {label : String} {part whole : Task}
    (referred : part.Referred setting inner early lost label) (subset : early ⊆ claims)
    (direct : part.Refers setting label inner lost →
      ∃ lost, whole.Refers setting label outer lost) :
    ∃ lost, whole.Referred setting outer claims lost label := by
  rcases referred with refers | ⟨host, member, inNote⟩
  · rcases direct refers with ⟨lost, refers⟩
    exact ⟨lost, .inl refers⟩
  · exact ⟨lost, .inr ⟨host, subset member, inNote⟩⟩

namespace Renders

variable {setting : Setting} {scope : Option ListKind} {task : Task}
  {before after : FootnoteRegister} {text : String} {claims : List Claim}

section Known

variable (known : setting.profile = .html ∨ setting.profile = .bbcode)

include known

/-- References that are not lost are shown by their marks, in whatever a success writes. -/
theorem closedIn_of_refers (rendered : Renders setting scope task before (.ok text) claims after)
    {label : String} (refers : task.Refers setting label scope false) :
    ∃ number, after.number? label = some number ∧ Mark.ClosedIn number text := by
  induction rendered using success_induct with
  | nil _ =>
      rcases refers with ⟨node, member, _⟩
      cases member
  | cons _ tailRendered head tail =>
      rcases refers with ⟨node, member, refers⟩
      rcases List.mem_cons.mp member with rfl | inTail
      · rcases head refers with ⟨number, numbered, closed⟩
        exact ⟨number, tailRendered.growth.number? numbered, closed.append _⟩
      · rcases tail ⟨node, inTail, refers⟩ with ⟨number, numbered, closed⟩
        exact ⟨number, numbered, closed.prepend _⟩
  | settled _ entry => exact absurd refers.entered (Node.not_entered_of_entry entry)
  | @entered _ node handler _ _ _ _ _ _ _ _ _ _ entry _ contentsRendered handledRendered leading
      contents handled =>
      have policy := (Node.entered_of_entry entry).2
      have later := handledRendered.growth
      cases handler with
      | footnoteReference =>
          have kind := (Profile.footnoteReference_iff known _).mp policy
          rcases handledRendered.number?_of_reference with ⟨other, _, referred, _⟩
          rcases Node.referredLabel_eq_ok_iff.mp referred with ⟨_, childless, found⟩
          cases refers with
          | reference _ _ same =>
              cases found.symm.trans same
              exact handled ⟨rfl, rfl, referred⟩
          | leading _ member _ =>
              rw [Node.leadingNodes_other (by simp [kind]) (by simp [kind])] at member
              cases member
          | child _ member _ _ =>
              rw [childless] at member
              cases member
      | rule rule =>
          have rendered := handledRendered.rule_eq
          cases refers with
          | reference _ kind _ =>
              cases ((Profile.footnoteReference_iff known _).mpr kind).symm.trans policy
          | leading _ member inside =>
              rcases leading ⟨_, member, inside⟩ with ⟨number, numbered, closed⟩
              have keptOn := later.number? (contentsRendered.growth.number? numbered)
              exact ⟨number, keptOn, Rule.closedIn_leading rendered known policy member closed⟩
          | child _ member inside shown =>
              rcases Bool.or_eq_false_iff.mp shown.symm with ⟨rfl, kept⟩
              rcases contents ⟨_, member, inside⟩ with ⟨number, numbered, closed⟩
              have keptOn := later.number? numbered
              exact ⟨number, keptOn, Rule.closedIn_contents rendered known policy kept closed⟩
  | rule _ _ => exact nomatch refers.2.1
  | referred _ _ referred mark =>
      rcases refers with ⟨_, _, same⟩
      cases referred.symm.trans same
      exact mark ⟨rfl, rfl⟩
  | numbered _ numbered =>
      rcases refers with ⟨_, rfl⟩
      exact ⟨_, numbered, Mark.closedIn_footnoteMark _⟩
  | claimed unknown _ bodyRendered _ =>
      rcases refers with ⟨_, rfl⟩
      have numbered := bodyRendered.number?_claimed unknown
      exact ⟨_, numbered, Mark.closedIn_footnoteMark _⟩

/-- A task that succeeds claims no label but for a reference that it comes to, directly or in the
note of another label. -/
theorem claims_referred (rendered : Renders setting scope task before (.ok text) claims after) :
    ∀ claim ∈ claims, ∃ lost, task.Referred setting scope claims lost claim.label := by
  induction rendered using success_induct with
  | nil _ | settled _ _ | rule _ _ | numbered _ _ =>
      intro claim member
      cases member
  | cons _ _ head tail =>
      intro claim member
      rcases List.mem_append.mp member with early | late
      · rcases head claim early with ⟨_, referred⟩
        apply referred.within (List.subset_append_left _ _)
        exact fun refers => ⟨_, _, List.mem_cons_self, refers⟩
      · rcases tail claim late with ⟨_, referred⟩
        apply referred.within (List.subset_append_right _ _)
        exact fun ⟨node, inTail, refers⟩ => ⟨_, node, List.mem_cons_of_mem _ inTail, refers⟩
  | entered entry _ _ _ leading contents handled =>
      have judged := Node.entered_of_entry entry
      intro claim member
      rcases List.mem_append.mp member with inside | inHandled
      · rcases List.mem_append.mp inside with inLeading | inContents
        · rcases leading claim inLeading with ⟨_, referred⟩
          apply referred.within (by simp)
          exact fun ⟨value, part, refers⟩ => ⟨_, .leading judged.1 part refers⟩
        · rcases contents claim inContents with ⟨_, referred⟩
          apply referred.within (by simp)
          exact fun ⟨child, part, refers⟩ => ⟨_, .child judged.1 part refers rfl⟩
      · rcases handled claim inHandled with ⟨_, referred⟩
        apply referred.within (List.subset_append_right _ _)
        intro refers
        rcases refers with ⟨rfl, rfl, label⟩
        have kind := (Profile.footnoteReference_iff known _).mp judged.2
        exact ⟨_, .reference judged.1 kind (Node.referredLabel_eq_ok_iff.mp label).2.2⟩
  | referred _ _ label mark =>
      intro claim member
      rcases mark claim member with ⟨_, referred⟩
      apply referred.within (List.Subset.refl _)
      exact fun refers => ⟨_, refers.1, rfl, refers.2 ▸ label⟩
  | @claimed scope label definition _ _ before after unknown found bodyRendered body =>
      intro claim member
      rcases List.mem_cons.mp member with rfl | inBody
      · exact ⟨false, .inl ⟨rfl, rfl⟩⟩
      · have other : label ≠ claim.label := by
          intro same
          have claimedOnce := bodyRendered.number?_claims inBody
          rw [← same, FootnoteRegister.number?_assign_self unknown] at claimedOnce
          cases claimedOnce
        rcases body claim inBody with ⟨lost, refers | ⟨host, inClaims, inNote⟩⟩
        · exact ⟨lost, .inr ⟨⟨label, scope⟩, List.mem_cons_self, other, definition, found, refers⟩⟩
        · exact ⟨lost, .inr ⟨host, List.mem_cons_of_mem _ inClaims, inNote⟩⟩

end Known

end Renders

/-- If an export succeeds, then each of its footnotes is referred to, in the document or in another
footnote. If one of these references is not lost, the mark of the footnote is shown in the body or
in the text of another footnote. -/
theorem transcode_marks_shown (tree : Node) (options : ExportOptions) (profile : Profile)
    (known : profile = .html ∨ profile = .bbcode) (output : String)
    (success : transcode tree options profile = .ok output) :
    ∃ (body : String) (claims : List Claim) (final : FootnoteRegister) (texts : List String)
      (notes : String),
      Exported tree options profile body claims final texts ∧
      (Context.start tree options profile).transcode tree =
        (.ok body, { Context.start tree options profile with footnotes := final }) ∧
      profile.notes texts = .ok notes ∧ output = body ++ notes ∧ texts.length = claims.length ∧
      ∀ (index : Nat) (claim : Claim), claims[index]? = some claim →
        let Referred (lost : Bool) : Prop :=
          (Task.node tree).Referred (.ofTree tree options profile) none claims lost claim.label
        final.number? claim.label = some (index + 1) ∧ (∃ lost, Referred lost) ∧
        (Referred false → Mark.ShownIn (index + 1) body ∨
          ∃ (other : Nat) (note : String), other ≠ index ∧ texts[other]? = some note ∧
            Mark.ShownIn (index + 1) note) := by
  rcases exported_of_known known success with
    ⟨body, claims, final, texts, notes, exported, listed, written⟩
  have rendered := exported.rendered
  refine ⟨body, claims, final, texts, notes, exported, Context.transcode_of_renders rendered,
    listed, written, ?_, ?_⟩
  · rw [exported.length_texts, exported.labels, List.length_map]
  · intro index claim found Referred
    have numbered := exported.number?_claim found
    refine ⟨numbered, rendered.claims_referred known claim (List.mem_of_getElem? found), ?_⟩
    intro shown
    rcases shown with inTree | ⟨host, member, different, definition, defined, inNote⟩
    · rcases rendered.closedIn_of_refers known inTree with ⟨number, same, closed⟩
      cases numbered.symm.trans same
      exact .inl closed.shownIn
    · rcases List.getElem?_of_mem member with ⟨other, hostAt⟩
      rcases exported.note hostAt with ⟨again, note, own, replayed, kept⟩
      rw [Setting.ofTree, FootnoteDefinitions.get?_ofTree] at defined
      cases defined.symm.trans own
      rcases replayed.closedIn_of_refers known inNote with ⟨number, same, closed⟩
      cases numbered.symm.trans same
      refine .inr ⟨other, _, ?_, kept, closed.shownIn.trim⟩
      rintro rfl
      cases hostAt.symm.trans found
      exact different rfl

theorem transcode_marks_shown_crossReferred :
    let output := "^1 [b][u]# Footnotes[/u][/b]\n\n^1: see ^2\n^2: ^1\n"
    transcode crossReferred {} .bbcode = .ok output ∧
      (Task.node crossReferred).Refers (.ofTree crossReferred {} .bbcode) "a" none false ∧
      ∃ (claims : List Claim) (final : FootnoteRegister) (texts : List String) (notes : String),
        Exported crossReferred {} .bbcode "^1 " claims final texts ∧ output = "^1 " ++ notes ∧
        claims.map Claim.label = ["a", "b"] ∧ texts.length = 2 ∧
        (Mark.ShownIn 1 "^1 " ∨ ∃ (other : Nat) (note : String), other ≠ 0 ∧
          texts[other]? = some note ∧ Mark.ShownIn 1 note) := by
  intro output
  have success : transcode crossReferred {} .bbcode = .ok output := by decide +kernel
  have wrote : ((Context.start crossReferred {} .bbcode).transcode crossReferred).1 =
      .ok "^1 " := by decide +kernel
  have numbered : ((Context.start crossReferred {} .bbcode).transcode
      crossReferred).2.footnotes.labels = ["a", "b"] := by decide +kernel
  have refers : (Task.node crossReferred).Refers (.ofTree crossReferred {} .bbcode) "a" none
      false := by
    have entered : crossReferred.Entered {} .bbcode := by decide
    exact Node.Refers.child entered List.mem_cons_self (.reference (by decide) rfl rfl) rfl
  rcases transcode_marks_shown crossReferred {} .bbcode (.inr rfl) output success with
    ⟨body, claims, final, texts, notes, exported, performed, _, written, length, marks⟩
  rw [performed] at wrote numbered
  cases wrote
  have labels : claims.map Claim.label = ["a", "b"] := exported.labels.symm.trans numbered
  have two := congrArg List.length labels
  rw [List.length_map] at two
  rcases List.map_eq_cons_iff.mp labels with ⟨claim, rest, rfl, own, _⟩
  have shown := (marks 0 claim rfl).2.2 (.inl (own ▸ refers))
  exact ⟨success, refers, claim :: rest, final, texts, notes, exported, written, labels,
    length.trans two, shown⟩

/-- A footnote that is referred to from inside this node only. -/
def referredInside (node : Node) : Node :=
  let reference := (Node.mk .footnoteReference [] []).withProperty "label" (.text "a")
  let definition :=
    (Node.mk .footnoteDefinition [.text "note"] []).withProperty "label" (.text "a")
  Node.mk .document [node.withChild reference, definition] []

/-- The footnote is listed, and its mark is nowhere to be seen: neither where a headline is dropped
with all that is in it, nor where literal text is written in place of the contents. -/
theorem dropped_reference_listed :
    let headline := (Node.mk .headline [] []).withProperty "footnote_section" (.bool true)
    let code := (Node.mk .code [] []).withProperty "value" (.text "x")
    let notes := "[b][u]# Footnotes[/u][/b]\n\n^1: note\n"
    ((Context.start (referredInside headline) {} .bbcode).transcode (referredInside headline)).1 =
        .ok "" ∧
      transcode (referredInside headline) {} .bbcode = .ok notes ∧ '^' ∉ "".toList ∧
      ((Context.start (referredInside code) {} .bbcode).transcode (referredInside code)).1 =
        .ok "[font=monospace]x[/font]" ∧
      transcode (referredInside code) {} .bbcode = .ok ("[font=monospace]x[/font]" ++ notes) ∧
      '^' ∉ "[font=monospace]x[/font]".toList := by
  decide +kernel

end MarkupExport
