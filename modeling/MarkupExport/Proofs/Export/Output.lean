import MarkupExport.Proofs.Export.Success

/-!
What an export that succeeds is put together from: the body, and the texts of the footnotes in the
order of their numbers, each on a line of its own under the title of their section.
-/

namespace MarkupExport

/-- The section of footnotes with these texts. Without any there is no title either. -/
def Profile.notes (profile : Profile) (texts : List String) : Except TranscodeError String :=
  if texts = [] then .ok ""
  else (profile.titleLine profile.footnotes.level
    (profile.text.render profile.footnotes.title)).map (· ++ Context.numberedLines texts)

/-- The body comes from a fresh rendering of the tree, which has left these footnotes, and these
are their texts. -/
structure Exported (tree : Node) (options : ExportOptions) (profile : Profile) (body : String)
    (claims : List Claim) (final : FootnoteRegister) (texts : List String) : Prop where
  rendered : Renders (.ofTree tree options profile) none (.node tree) {} (.ok body) claims final
  length_texts : texts.length = final.labels.length
  text?_eq : ∀ index text, texts[index]? = some text → final.text? (index + 1) = some text

namespace Exported

variable {tree : Node} {options : ExportOptions} {profile : Profile} {body : String}
  {claims : List Claim} {final : FootnoteRegister} {texts : List String}
  (exported : Exported tree options profile body claims final texts)

include exported

theorem getElem?_texts {index : Nat} {text : String} (found : final.text? (index + 1) = some text)
    (inside : index < final.labels.length) : texts[index]? = some text := by
  rw [← exported.length_texts] at inside
  have listed := List.getElem?_eq_getElem inside
  rw [listed, ← found]
  exact (exported.text?_eq index texts[index] listed).symm

theorem labels : final.labels = claims.map Claim.label :=
  exported.rendered.labels

theorem number?_claim {index : Nat} {claim : Claim} (found : claims[index]? = some claim) :
    final.number? claim.label = some (index + 1) := by
  apply FootnoteRegister.number?_eq_some_iff.mpr
  exact ⟨index, rfl, by rw [exported.labels, List.getElem?_map, found, Option.map_some]⟩

/-- Under each number stands what the definition of its label still renders to. -/
theorem note {index : Nat} {claim : Claim} (found : claims[index]? = some claim) :
    ∃ definition note, (tree.walk.find? fun node => node.Defines claim.label) = some definition ∧
      Renders (.ofTree tree options profile) claim.scope (.nodes definition.children) final
        (.ok note) [] final ∧ texts[index]? = some (Text.trim note) := by
  rcases exported.rendered.claims_kept (by intro number member; cases member) (.refl final) claim
    (List.mem_of_getElem? found) with ⟨number, definition, note, numbered, defined, again, kept⟩
  have placed := exported.number?_claim found
  cases numbered.symm.trans placed
  have inside := (FootnoteRegister.number?_bounds placed).2
  rw [Setting.ofTree, FootnoteDefinitions.get?_ofTree] at defined
  exact ⟨definition, note, defined, again, exported.getElem?_texts kept inside⟩

end Exported

theorem Context.footnoteSection_eq_notes {context : Context}
    (numbers : context.footnotes.settled = List.range' 1 context.footnotes.labels.length) :
    context.footnoteSection = context.profile.notes (context.footnotes.entries.map Prod.snd) := by
  rw [Profile.notes]
  split
  · next empty =>
      exact footnoteSection_of_nil (List.map_eq_nil_iff.mp empty)
  · next listed =>
      apply footnoteSection_of_ne_nil numbers
      intro none
      have length := (FootnoteRegister.length_entries numbers).trans none
      exact listed (List.map_eq_nil_iff.mpr (List.eq_nil_of_length_eq_zero length))

section Success

variable {tree : Node} {options : ExportOptions} {profile : Profile} {output : String}

/-- A successful export writes the body and then the footnotes, with the tag of the document around
both if there is one. -/
theorem exported_of_success (success : transcode tree options profile = .ok output) :
    ∃ body claims final texts notes, Exported tree options profile body claims final texts ∧
      profile.notes texts = .ok notes ∧
      output = (Context.start tree options profile).surround (body ++ notes) := by
  rcases (Context.start tree options profile).transcode_renders tree with
    ⟨result, claims, final, performed, rendered⟩
  rw [transcode, performed] at success
  rcases bind_eq_ok_iff.mp success with ⟨body, rfl, sectioned⟩
  rcases bind_eq_ok_iff.mp sectioned with ⟨notes, listed, written⟩
  cases written
  let context : Context := { Context.start tree options profile with footnotes := final }
  have numbers : context.footnotes.settled = List.range' 1 context.footnotes.labels.length :=
    FootnoteRegister.settled_eq_range rendered.settles
  have section_eq := Context.footnoteSection_eq_notes numbers
  refine ⟨body, claims, final, final.entries.map Prod.snd, notes, ⟨rendered, ?_, ?_⟩,
    section_eq.symm.trans listed, rfl⟩
  · rw [List.length_map]
    exact FootnoteRegister.length_entries numbers
  · intro index text found
    exact Context.text?_of_listed numbers found

/-- Neither profile has a tag around a whole document. -/
theorem exported_of_known (known : profile = .html ∨ profile = .bbcode)
    (success : transcode tree options profile = .ok output) :
    ∃ body claims final texts notes, Exported tree options profile body claims final texts ∧
      profile.notes texts = .ok notes ∧ output = body ++ notes := by
  rcases exported_of_success success with ⟨body, claims, final, texts, notes, parts, listed, rfl⟩
  refine ⟨body, claims, final, texts, notes, parts, listed, ?_⟩
  rcases known with rfl | rfl <;> rfl

end Success

end MarkupExport
