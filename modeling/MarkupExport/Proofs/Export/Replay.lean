import MarkupExport.Profile.Html
import MarkupExport.Proofs.Footnote.Bookkeeping

/-!
Replays. A rendering depends on the footnotes only through the numbers of the labels that it comes
to, so where all these numbers are known beforehand it comes out the same and has nothing left to
claim. In particular each text in the register is what its definition still renders to when all
labels have their numbers.
-/

namespace MarkupExport

namespace Renders

variable {setting : Setting} {scope : Option ListKind} {task : Task}
  {before after : FootnoteRegister} {text : String} {claims : List Claim}

/-- Where the numbers that a success has left are known, the task succeeds alike and claims
nothing. -/
theorem replay (rendered : Renders setting scope task before (.ok text) claims after)
    {other : FootnoteRegister} (known : after.NumbersIn other) :
    Renders setting scope task other (.ok text) [] other := by
  induction rendered using success_induct with
  | nil _ => exact .nil
  | cons _ tailRendered head tail =>
      have knownMiddle := tailRendered.growth.numbersIn.trans known
      exact .cons (head knownMiddle) (tail known)
  | settled _ entry => exact .settled entry
  | entered entry _ contentsRendered handledRendered leading contents handled =>
      have knownThird := handledRendered.growth.numbersIn.trans known
      have knownSecond := contentsRendered.growth.numbersIn.trans knownThird
      exact .entered entry (leading knownSecond) (contents knownThird) (handled known)
  | rule _ succeeds =>
      rw [Rule.render_footnotes _ _ _ _ _ other] at succeeds
      rw [← succeeds]
      exact .rule
  | referred _ _ referred mark => exact .referred referred (mark known)
  | numbered _ numbered => exact .numbered (known _ _ numbered)
  | claimed unknown _ bodyRendered _ =>
      apply Renders.numbered
      apply known
      rw [FootnoteRegister.number?_define]
      exact bodyRendered.number?_claimed unknown

end Renders

/-! ## Texts of footnotes -/

namespace FootnoteRegister

/-- No text is kept for a number that is still to be given out. -/
def TextsNumbered (register : FootnoteRegister) : Prop :=
  ∀ number, number ∈ register.settled → number ≤ register.labels.length

theorem TextsNumbered.of_settlesAtMost {before after : FootnoteRegister}
    (numbered : before.TextsNumbered) (settles : before.SettlesAtMost after) :
    after.TextsNumbered := by
  intro number member
  rcases settles.numbers number member with inBefore | between
  · exact Nat.le_trans (numbered number inBefore) settles.length_le
  · exact between.2

/-- While the body of a definition is rendered, its own number stays without a text. -/
theorem TextsNumbered.text?_open {register after : FootnoteRegister} {label : String}
    (numbered : register.TextsNumbered) (unknown : register.number? label = none)
    (body : (register.assign label).2.SettlesAtMost after) :
    after.text? (register.labels.length + 1) = none := by
  rw [text?_eq_none_iff]
  intro member
  rcases body.numbers _ member with inAssigned | ⟨above, _⟩
  · rw [settled_assign unknown] at inAssigned
    have below := numbered _ inAssigned
    omega
  · rw [length_assign unknown] at above
    omega

end FootnoteRegister

/-- The text of a claimed label is what its definition renders to, trimmed, in the scope in which
the label was claimed and with nothing left to claim. -/
def Claim.Kept (setting : Setting) (register : FootnoteRegister) (claim : Claim) : Prop :=
  ∃ number definition body, register.number? claim.label = some number ∧
    setting.definitions.get? claim.label = some definition ∧
    Renders setting claim.scope (.nodes definition.children) register (.ok body) [] register ∧
    register.text? number = some (Text.trim body)

namespace Renders

variable {setting : Setting} {scope : Option ListKind} {task : Task}
  {before after : FootnoteRegister} {result : Except TranscodeError String} {claims : List Claim}

/-- What a success has claimed is kept in every later register. -/
theorem claims_kept {text : String}
    (rendered : Renders setting scope task before (.ok text) claims after)
    (numbered : before.TextsNumbered) {final : FootnoteRegister} (later : after.Extends final) :
    ∀ claim ∈ claims, claim.Kept setting final := by
  induction rendered using success_induct with
  | nil _ => intro claim member; cases member
  | cons headRendered tailRendered head tail =>
      intro claim member
      rcases List.mem_append.mp member with early | late
      · exact head numbered (tailRendered.growth.trans later) claim early
      · exact tail (numbered.of_settlesAtMost headRendered.settlesAtMost) later claim late
  | settled _ _ => intro claim member; cases member
  | entered _ leadingRendered contentsRendered handledRendered leading contents handled =>
      have laterThird := handledRendered.growth.trans later
      have numberedSecond := numbered.of_settlesAtMost leadingRendered.settlesAtMost
      have numberedThird := numberedSecond.of_settlesAtMost contentsRendered.settlesAtMost
      intro claim member
      rcases List.mem_append.mp member with inside | late
      · rcases List.mem_append.mp inside with early | middle
        · exact leading numbered (contentsRendered.growth.trans laterThird) claim early
        · exact contents numberedSecond laterThird claim middle
      · exact handled numberedThird later claim late
  | rule _ _ => intro claim member; cases member
  | referred _ _ _ mark => exact mark numbered later
  | numbered _ _ => intro claim member; cases member
  | @claimed _ _ definition body _ before after unknown found bodyRendered inner =>
      have laterBody : after.Extends final :=
        (FootnoteRegister.Extends.define after (before.labels.length + 1) body).trans later
      have numberedAssigned := numbered.of_settlesAtMost (.assign unknown)
      intro claim member
      rcases List.mem_cons.mp member with equal | inBody
      · subst equal
        have own := bodyRendered.number?_claimed unknown
        refine ⟨before.labels.length + 1, definition, body, laterBody.number? own, found, ?_, ?_⟩
        · exact bodyRendered.replay laterBody.numbersIn
        · apply later.texts
          rw [FootnoteRegister.text?_define, if_pos rfl,
            numbered.text?_open unknown bodyRendered.settlesAtMost]
          rfl
      · exact inner numberedAssigned laterBody claim inBody

/-- Every text that a rendering leaves in a fresh register belongs to a claim. -/
theorem claim_of_text? (rendered : Renders setting scope task {} result claims after)
    {number : Nat} {note : String} (found : after.text? number = some note) :
    ∃ claim, claims[number - 1]? = some claim ∧ after.number? claim.label = some number := by
  have labels : after.labels = claims.map Claim.label := rendered.labels
  have bounds := (FootnoteRegister.consistent_of_settlesAtMost rendered.settlesAtMost).text_bounds
    number note found
  rw [labels, List.length_map] at bounds
  have inside : number - 1 < claims.length := by omega
  refine ⟨claims[number - 1], List.getElem?_eq_getElem inside, ?_⟩
  apply FootnoteRegister.number?_eq_some_iff.mpr
  refine ⟨number - 1, by omega, ?_⟩
  rw [labels, List.getElem?_map, List.getElem?_eq_getElem inside]
  rfl

end Renders

/-- A success is repeated, with the same text and without any change, from every context of the
same kind that knows the numbers it has left. If it has started afresh, then every text it has
left belongs to a claimed label, and is the text that the label's definition renders to, trimmed,
in the scope of the claim and with all labels numbered. -/
theorem transcode_replay (context : Context) (node : Node) (text : String)
    (success : (context.transcode node).1 = .ok text) :
    let final := (context.transcode node).2
    (∀ other : Context, other.definitions = context.definitions →
      other.options = context.options → other.profile = context.profile →
      other.scope = context.scope →
      (∀ label number, final.footnotes.number? label = some number →
        other.footnotes.number? label = some number) →
      other.transcode node = (.ok text, other)) ∧
    (∀ tree, context = Context.start tree context.options context.profile →
      ∃ claims, Renders context.setting none (.node node) {} (.ok text) claims final.footnotes ∧
        ∀ number note, final.footnotes.text? number = some note →
          ∃ claim definition body, claims[number - 1]? = some claim ∧
            final.footnotes.number? claim.label = some number ∧
            final.definitions.get? claim.label = some definition ∧
            ({ final with scope := claim.scope } : Context).transcodeAll definition.children =
              (.ok body, { final with scope := claim.scope }) ∧
            note = Text.trim body) := by
  rcases context.transcode_renders node with ⟨result, claims, after, performed, rendered⟩
  rw [performed] at success ⊢
  cases success
  constructor
  · intro other definitions options profile scope known
    have sameSetting : other.setting = context.setting := by
      simp only [Context.setting, definitions, options, profile]
    have again := rendered.replay known
    rw [← sameSetting, ← scope] at again
    exact Context.transcode_of_renders again
  · intro tree started
    have fresh : context.footnotes = {} := congrArg Context.footnotes started
    have outside : context.scope = none := congrArg Context.scope started
    rw [fresh, outside] at rendered
    refine ⟨claims, rendered, ?_⟩
    intro number note found
    rcases rendered.claim_of_text? found with ⟨claim, claimAt, numbered⟩
    rcases rendered.claims_kept (by intro number member; cases member) (.refl after) claim
      (List.mem_of_getElem? claimAt) with ⟨other, definition, body, known, defined, again, kept⟩
    cases known.symm.trans numbered
    cases kept.symm.trans found
    exact ⟨claim, definition, body, claimAt, known, defined,
      Context.transcodeAll_of_renders again, rfl⟩

/-- Two footnotes that refer to each other. -/
def crossReferred : Node :=
  let reference label := (Node.mk .footnoteReference [] []).withProperty "label" (.text label)
  let definition label children :=
    (Node.mk .footnoteDefinition children []).withProperty "label" (.text label)
  Node.mk .document
    [reference "a", definition "a" [.text "see ", reference "b"], definition "b" [reference "a"]] []

theorem transcode_replay_crossReferred :
    let context := Context.start crossReferred {} .html
    let final := (context.transcode crossReferred).2
    let other : Context :=
      { final with secondary := [("title", "x")], footnotes := (final.footnotes.assign "c").2 }
    (context.transcode crossReferred).1 = .ok "^1 " ∧
      other.transcode crossReferred = (.ok "^1 ", other) ∧
      final.footnotes.text? 1 = some "see ^2" ∧
      ∃ claims, Renders context.setting none (.node crossReferred) {} (.ok "^1 ") claims
        final.footnotes := by
  have success : ((Context.start crossReferred {} .html).transcode crossReferred).1 =
      .ok "^1 " := by decide +kernel
  have kept : ((Context.start crossReferred {} .html).transcode crossReferred).2.footnotes.text? 1 =
      some "see ^2" := by decide +kernel
  have unknown : ((Context.start crossReferred {} .html).transcode
      crossReferred).2.footnotes.number? "c" = none := by decide +kernel
  have replayed := transcode_replay _ crossReferred "^1 " success
  have unchanged := (Context.start crossReferred {} .html).transcode_context crossReferred
  intro context
  -- Nothing below needs the run to be evaluated again.
  generalize (Context.start crossReferred {} .html).transcode crossReferred = run at *
  intro final other
  refine ⟨success, ?_, kept, ?_⟩
  · apply replayed.1 other
    · have keptDefinitions := congrArg Context.definitions unchanged
      exact keptDefinitions
    · have keptOptions := congrArg Context.options unchanged
      exact keptOptions
    · have keptProfile := congrArg Context.profile unchanged
      exact keptProfile
    · have keptScope := congrArg Context.scope unchanged
      exact keptScope
    · exact (FootnoteRegister.Extends.assign unknown).numbersIn
  · rcases replayed.2 crossReferred rfl with ⟨claims, rendered, _⟩
    exact ⟨claims, rendered⟩

end MarkupExport
