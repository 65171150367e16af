import Mathlib.Data.List.Sort
import MarkupExport.Proofs.Export.Calls

/-!
The books that an export keeps on its footnotes, over any sequence of calls. Between the moment a
label gets its number and the moment the number gets its text, any number of further labels may
come; what holds throughout is that texts are given to claimed numbers only, and what holds after
a success is that every number claimed on the way has got its text.
-/

namespace MarkupExport

namespace FootnoteRegister

/-! ## Numbers and their texts -/

/-- The numbers that have a text. -/
def settled (register : FootnoteRegister) : List Nat :=
  Ascending.keys register.entries

/-- The number was given out between the two registers. -/
def ClaimedBetween (before after : FootnoteRegister) (number : Nat) : Prop :=
  before.labels.length < number ∧ number ≤ after.labels.length

/-- Only numbers given out meanwhile have got a text. -/
structure SettlesAtMost (before after : FootnoteRegister) : Prop where
  length_le : before.labels.length ≤ after.labels.length
  numbers : ∀ number, number ∈ after.settled →
    number ∈ before.settled ∨ ClaimedBetween before after number

/-- The numbers given out meanwhile, and no others, have got a text. -/
structure Settles (before after : FootnoteRegister) : Prop where
  length_le : before.labels.length ≤ after.labels.length
  numbers : ∀ number, number ∈ after.settled ↔
    number ∈ before.settled ∨ ClaimedBetween before after number

theorem settled_assign {register : FootnoteRegister} {label : String}
    (unknown : register.number? label = none) :
    (register.assign label).2.settled = register.settled :=
  congrArg Ascending.keys (assign_of_unknown unknown).2.2

theorem length_assign {register : FootnoteRegister} {label : String}
    (unknown : register.number? label = none) :
    (register.assign label).2.labels.length = register.labels.length + 1 := by
  rw [(assign_of_unknown unknown).2.1, List.length_append, List.length_singleton]

namespace SettlesAtMost

theorem refl (register : FootnoteRegister) : register.SettlesAtMost register :=
  ⟨Nat.le_refl _, fun _ member => Or.inl member⟩

theorem trans {first second third : FootnoteRegister} (left : first.SettlesAtMost second)
    (right : second.SettlesAtMost third) : first.SettlesAtMost third := by
  have leftLength := left.length_le
  have rightLength := right.length_le
  refine ⟨by omega, ?_⟩
  intro number member
  rcases right.numbers number member with inSecond | between
  · rcases left.numbers number inSecond with inFirst | between
    · exact Or.inl inFirst
    · exact Or.inr ⟨between.1, by have := between.2; omega⟩
  · exact Or.inr ⟨by have := between.1; omega, between.2⟩

theorem assign {register : FootnoteRegister} {label : String}
    (unknown : register.number? label = none) :
    register.SettlesAtMost (register.assign label).2 := by
  constructor
  · rw [length_assign unknown]
    omega
  · intro number member
    rw [settled_assign unknown] at member
    exact Or.inl member

/-- A text for the number of the label that was claimed first. -/
theorem define {register after : FootnoteRegister} {label : String}
    (unknown : register.number? label = none)
    (body : (register.assign label).2.SettlesAtMost after) (text : String) :
    register.SettlesAtMost (after.define (register.labels.length + 1) text) := by
  have claimed := (assign unknown).trans body
  have bodyLength := body.length_le
  rw [length_assign unknown] at bodyLength
  refine ⟨claimed.length_le, ?_⟩
  intro number member
  rcases mem_numbers_define.mp member with equal | member
  · subst equal
    exact Or.inr ⟨by omega, bodyLength⟩
  · exact claimed.numbers number member

end SettlesAtMost

namespace Settles

theorem refl (register : FootnoteRegister) : register.Settles register := by
  refine ⟨Nat.le_refl _, fun number => ⟨Or.inl, ?_⟩⟩
  intro either
  rcases either with member | ⟨above, below⟩
  · exact member
  · omega

theorem trans {first second third : FootnoteRegister} (left : first.Settles second)
    (right : second.Settles third) : first.Settles third := by
  have leftLength := left.length_le
  have rightLength := right.length_le
  refine ⟨by omega, ?_⟩
  intro number
  rw [right.numbers, left.numbers]
  simp only [ClaimedBetween]
  constructor
  · intro either
    rcases either with (member | between) | between
    · exact Or.inl member
    · exact Or.inr (by omega)
    · exact Or.inr (by omega)
  · intro either
    rcases either with member | between
    · exact Or.inl (Or.inl member)
    · by_cases early : number ≤ second.labels.length
      · exact Or.inl (Or.inr (by omega))
      · exact Or.inr (by omega)

/-- The number that was open while the body of its definition was rendered. -/
theorem define {register after : FootnoteRegister} {label : String}
    (unknown : register.number? label = none)
    (body : (register.assign label).2.Settles after) (text : String) :
    register.Settles (after.define (register.labels.length + 1) text) := by
  have bodyLength := body.length_le
  rw [length_assign unknown] at bodyLength
  refine ⟨by rw [labels_define]; omega, ?_⟩
  intro number
  change number ∈ Ascending.keys _ ↔ _
  rw [mem_numbers_define]
  have inBody := body.numbers number
  rw [settled_assign unknown] at inBody
  simp only [ClaimedBetween, length_assign unknown] at inBody ⊢
  rw [labels_define]
  change number = _ ∨ number ∈ after.settled ↔ _
  rw [inBody]
  constructor
  · intro either
    rcases either with equal | member | between
    · exact Or.inr (by omega)
    · exact Or.inl member
    · exact Or.inr (by omega)
  · intro either
    rcases either with member | between
    · exact Or.inr (Or.inl member)
    · by_cases own : number = register.labels.length + 1
      · exact Or.inl own
      · exact Or.inr (Or.inr (by omega))

end Settles

end FootnoteRegister

namespace Renders

variable {setting : Setting} {scope : Option ListKind} {task : Task}
  {before after : FootnoteRegister} {result : Except TranscodeError String} {claims : List Claim}

theorem settlesAtMost (rendered : Renders setting scope task before result claims after) :
    before.SettlesAtMost after :=
  rendered.register_induct .refl .trans .assign .define

/-- A success leaves no number without a text that it gave out itself. -/
theorem settles {text : String}
    (rendered : Renders setting scope task before (.ok text) claims after) :
    before.Settles after := by
  induction rendered using success_induct with
  | nil _ => exact .refl _
  | cons _ _ head tail => exact head.trans tail
  | settled _ _ => exact .refl _
  | entered _ _ _ _ leading contents handled => exact (leading.trans contents).trans handled
  | rule _ _ => exact .refl _
  | referred _ _ _ mark => exact mark
  | numbered _ _ => exact .refl _
  | claimed unknown _ _ body => exact .define unknown body _

end Renders

/-! ## Whole runs -/

namespace FootnoteRegister

/-- The labels are numbered from one to `count`, each number belongs to one label, and only these
numbers may have a text. -/
structure Consistent (register : FootnoteRegister) (count : Nat) : Prop where
  number_bounds : ∀ label number, register.number? label = some number →
    1 ≤ number ∧ number ≤ count
  label_unique : ∀ number, 1 ≤ number → number ≤ count →
    ∃ label, register.number? label = some number ∧
      ∀ other, register.number? other = some number → other = label
  text_bounds : ∀ number text, register.text? number = some text → 1 ≤ number ∧ number ≤ count

theorem mem_settled_of_text? {register : FootnoteRegister} {number : Nat} {text : String}
    (found : register.text? number = some text) : number ∈ register.settled := by
  apply Classical.byContradiction
  intro absent
  rw [text?_eq_none_iff.mpr absent] at found
  cases found

theorem consistent_of_settlesAtMost {register : FootnoteRegister}
    (settles : SettlesAtMost {} register) : register.Consistent register.labels.length := by
  constructor
  · intro label number known
    exact number?_bounds known
  · intro number above below
    rcases exists_label_iff.mpr ⟨above, below⟩ with ⟨label, known⟩
    exact ⟨label, known, fun other sameNumber => number?_injective sameNumber known⟩
  · intro number text found
    rcases settles.numbers number (mem_settled_of_text? found) with member | ⟨above, below⟩
    · cases member
    · exact ⟨above, below⟩

/-- The numbers with a text ascend without a gap. -/
theorem settled_eq_range {register : FootnoteRegister} (settles : Settles {} register) :
    register.settled = List.range' 1 register.labels.length := by
  apply List.Pairwise.eq_of_mem_iff register.ascending_entries List.pairwise_lt_range'
  intro number
  change number ∈ register.settled ↔ _
  rw [settles.numbers, List.mem_range'_1]
  constructor
  · intro either
    rcases either with member | ⟨above, below⟩
    · cases member
    · change 0 < number at above
      omega
  · intro ⟨above, below⟩
    exact Or.inr ⟨above, by omega⟩

theorem length_entries {register : FootnoteRegister}
    (numbers : register.settled = List.range' 1 register.labels.length) :
    register.entries.length = register.labels.length := by
  have lengths := congrArg List.length numbers
  rwa [settled, Ascending.keys, List.length_map, List.length_range'] at lengths

/-- Entry by entry, the number is one more than the place. -/
theorem number_getElem_entries {register : FootnoteRegister}
    (numbers : register.settled = List.range' 1 register.labels.length) {index : Nat}
    (inside : index < register.entries.length) : register.entries[index].1 = index + 1 := by
  have inNumbers : register.settled[index]? = some register.entries[index].1 := by
    simp [settled, Ascending.keys, inside]
  rw [numbers] at inNumbers
  rcases List.getElem?_eq_some_iff.mp inNumbers with ⟨_, equal⟩
  rw [List.getElem_range'] at equal
  omega

end FootnoteRegister

namespace Context

/-- One line for each number, in order. -/
def numberedLines (texts : List String) : String :=
  String.join (texts.mapIdx fun index text => "^" ++ (index + 1).repr ++ ": " ++ text ++ "\n")

theorem footnoteSection_of_nil {context : Context} (empty : context.footnotes.entries = []) :
    context.footnoteSection = .ok "" := by
  rw [footnoteSection, empty]

theorem numberedLines_ne_empty {texts : List String} (lines : texts ≠ []) :
    numberedLines texts ≠ "" := by
  cases texts with
  | nil => exact absurd rfl lines
  | cons text rest =>
      intro empty
      have characters := congrArg String.length empty
      simp [numberedLines, List.mapIdx_cons] at characters

section Settled

variable {context : Context}
  (numbers : context.footnotes.settled = List.range' 1 context.footnotes.labels.length)

include numbers

theorem footnoteSection_of_ne_nil (labels : context.footnotes.labels.length ≠ 0) :
    context.footnoteSection =
      (context.profile.titleLine context.profile.footnotes.level
          (context.profile.text.render context.profile.footnotes.title)).map
        (· ++ numberedLines (context.footnotes.entries.map Prod.snd)) := by
  have lines : context.footnotes.entries.map footnoteLine =
      (context.footnotes.entries.map Prod.snd).mapIdx
        fun index text => "^" ++ (index + 1).repr ++ ": " ++ text ++ "\n" := by
    apply List.ext_getElem (by simp)
    intro index inside _
    rw [List.length_map] at inside
    rw [List.getElem_map, List.getElem_mapIdx, List.getElem_map, footnoteLine,
      FootnoteRegister.number_getElem_entries numbers inside]
  rw [footnoteSection, numberedLines, ← lines]
  cases listed : context.footnotes.entries with
  | nil =>
      have none := FootnoteRegister.length_entries numbers
      rw [listed, List.length_nil] at none
      exact absurd none.symm labels
  | cons entry rest =>
      dsimp only
      cases context.profile.titleLine context.profile.footnotes.level
        (context.profile.text.render context.profile.footnotes.title) with
      | error error => rfl
      | ok title => rfl

theorem footnoteSection_eq_empty_iff :
    context.footnoteSection = .ok "" ↔ context.footnotes.labels.length = 0 := by
  constructor
  · intro empty
    apply Classical.byContradiction
    intro labels
    rw [footnoteSection_of_ne_nil numbers labels] at empty
    cases line : context.profile.titleLine context.profile.footnotes.level
      (context.profile.text.render context.profile.footnotes.title) with
    | error error => rw [line] at empty; cases empty
    | ok title =>
        rw [line] at empty
        have joined := String.append_eq_empty_iff.mp (Except.ok.inj empty)
        apply numberedLines_ne_empty _ joined.2
        intro none
        have length := FootnoteRegister.length_entries numbers
        rw [List.map_eq_nil_iff.mp none, List.length_nil] at length
        exact labels length.symm
  · intro none
    have length := (FootnoteRegister.length_entries numbers).trans none
    exact footnoteSection_of_nil (List.eq_nil_of_length_eq_zero length)

theorem text?_of_listed {index : Nat} {text : String}
    (found : (context.footnotes.entries.map Prod.snd)[index]? = some text) :
    context.footnotes.text? (index + 1) = some text := by
  rw [List.getElem?_map, Option.map_eq_some_iff] at found
  rcases found with ⟨⟨number, kept⟩, found, rfl⟩
  rcases List.getElem?_eq_some_iff.mp found with ⟨inside, equal⟩
  have sameNumber := FootnoteRegister.number_getElem_entries numbers inside
  rw [equal] at sameNumber
  rw [← sameNumber]
  exact FootnoteRegister.text?_of_mem (equal ▸ List.getElem_mem inside)

end Settled

end Context

/-- Over any run, failed calls included, the numbers are consistent and every later call leaves
them and the texts as they are. If no call has failed, every number has its text, and the section
of footnotes lists them all in order under its title. -/
theorem calls_footnotes_consistent (tree : Node) (options : ExportOptions) (profile : Profile)
    (earlier later : List Call) :
    let run := (Context.start tree options profile).calls earlier
    let register := run.2.footnotes
    let count := register.labels.length
    register.Consistent count ∧
      (∀ label number, register.number? label = some number →
        (run.2.calls later).2.footnotes.number? label = some number) ∧
      (∀ number text, register.text? number = some text →
        (run.2.calls later).2.footnotes.text? number = some text) ∧
      ((∀ result ∈ run.1, ∃ text, result = .ok text) →
        register.settled = List.range' 1 count ∧
        (run.2.footnoteSection = .ok "" ↔ count = 0) ∧
        (count ≠ 0 → ∃ texts : List String, texts.length = count ∧
          (∀ index text, texts[index]? = some text → register.text? (index + 1) = some text) ∧
          run.2.footnoteSection =
            (profile.titleLine profile.footnotes.level
                (profile.text.render profile.footnotes.title)).map
              (· ++ Context.numberedLines texts))) := by
  intro run register count
  have atMost : FootnoteRegister.SettlesAtMost {} register :=
    Context.calls_footnotes FootnoteRegister.SettlesAtMost (fun _ => True) .refl .trans
      (fun rendered _ => rendered.settlesAtMost) (Context.start tree options profile) earlier
      fun _ _ => trivial
  have growth : register.Extends (run.2.calls later).2.footnotes :=
    Context.calls_footnotes FootnoteRegister.Extends (fun _ => True) .refl .trans
      (fun rendered _ => rendered.growth) run.2 later fun _ _ => trivial
  refine ⟨FootnoteRegister.consistent_of_settlesAtMost atMost, fun label number known =>
    growth.number? known, growth.texts, ?_⟩
  intro successes
  have settles : FootnoteRegister.Settles {} register := by
    apply Context.calls_footnotes FootnoteRegister.Settles (fun result => ∃ text, result = .ok text)
      .refl .trans _ (Context.start tree options profile) earlier successes
    intro _ _ _ _ _ _ _ rendered succeeded
    rcases succeeded with ⟨text, rfl⟩
    exact rendered.settles
  have numbers := FootnoteRegister.settled_eq_range settles
  have sameProfile : run.2.profile = profile :=
    congrArg Context.profile (Context.calls_context (Context.start tree options profile) earlier)
  refine ⟨numbers, Context.footnoteSection_eq_empty_iff numbers, ?_⟩
  intro nonzero
  have listed := Context.footnoteSection_of_ne_nil numbers nonzero
  rw [sameProfile] at listed
  refine ⟨register.entries.map Prod.snd, ?_, fun index text => Context.text?_of_listed numbers,
    listed⟩
  rw [List.length_map]
  exact FootnoteRegister.length_entries numbers

end MarkupExport
