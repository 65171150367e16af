import MarkupExport.Proofs.CommandLine.AllOrNothing
import MarkupExport.Proofs.CommandLine.Extras
import MarkupExport.Proofs.CommandLine.Parameters

/-!
Which extra parameters a run takes for unknown. Those are the ones that its settings leave over, and
nothing that comes after the settings can be the cause of this error. A parameter of which both
names are given is used up under its first name alone, so the second one is taken for unknown.
-/

namespace MarkupExport

namespace Program

variable {α β ε : Type} {name : String}

theorem fromExcept_bind_apply (wrap : ε → RunError) (result : Except ε α)
    (next : α → Run (StateM FileTree) β) (tree : FileTree) :
    (fromExcept wrap result >>= next) tree =
      match result with
      | .ok value => next value tree
      | .error error => (.error (wrap error), tree) := by
  cases result <;> rfl

theorem loadSettings_bind_apply (path : Option String) (next : Settings → Run (StateM FileTree) β)
    (tree : FileTree) :
    (loadSettings FileTree.access path >>= next) tree =
      match Settings.load (layers FileTree.access path tree).1 [] with
      | .ok loaded => next loaded tree
      | .error error => (.error (.unloadableSettings error), tree) := by
  rw [loadSettings, bind_assoc, bind_apply, lift_apply, readOnly_layers path tree]
  dsimp only
  rw [fromExcept_bind_apply]
  cases Settings.load (layers FileTree.access path tree).1 [] <;> rfl

/-- The run does not end with this error. -/
def Spares (error : RunError) (action : Run (StateM FileTree) α) : Prop :=
  ∀ tree, (action tree).1 ≠ .error error

namespace Spares

variable {error : RunError} {action : Run (StateM FileTree) α} {next : α → Run (StateM FileTree) β}

theorem pure (value : α) : Spares error (Pure.pure value : Run (StateM FileTree) α) := by
  intro tree equal
  cases equal

theorem throw {other : RunError} (different : other ≠ error) :
    Spares error (MonadExcept.throw other : Run (StateM FileTree) α) :=
  fun _ equal => different (Except.error.inj equal)

theorem lift (action : StateM FileTree α) : Spares error (action : Run (StateM FileTree) α) := by
  intro tree equal
  cases equal

theorem fromExcept {wrap : ε → RunError} (different : ∀ cause, wrap cause ≠ error)
    (result : Except ε α) :
    Spares error (Program.fromExcept wrap result : Run (StateM FileTree) α) := by
  cases result with
  | ok value => exact pure value
  | error cause => exact throw (different cause)

theorem bind (first : Spares error action) (others : ∀ value, Spares error (next value)) :
    Spares error (action >>= next) := by
  intro tree
  rw [bind_apply]
  split
  · exact others _ _
  · next failed =>
      intro equal
      refine first tree ?_
      rw [failed]
      exact congrArg Except.error (Except.error.inj equal)

end Spares

theorem spares_convert (conversion : Conversion) (settings : Settings) :
    Spares (.unknownExtra name) (convert FileTree.access conversion settings) := by
  rw [convert_eq]
  refine (Spares.lift _).bind fun _ => (Spares.fromExcept (by simp) _).bind fun _ => ?_
  refine (Spares.lift _).bind fun _ => (Spares.fromExcept (by simp) _).bind fun _ => ?_
  split
  · exact .throw (by simp)
  · exact (Spares.fromExcept (by simp) _).bind fun _ => .pure _

theorem spares_deliver (conversion : Conversion) (settings : Settings) (format : Format)
    (text : String) :
    Spares (.unknownExtra name) (deliver FileTree.access conversion settings format text) := by
  rw [deliver]
  split
  · exact .pure _
  · exact (Spares.lift _).bind fun _ => (Spares.lift _).bind fun _ =>
      (Spares.fromExcept (by simp) _).bind fun _ => .pure _

/-- What a request comes to that asks for no list, from its settings on. -/
theorem answer_apply {request : Request} (unlisted : request.listFormats = false)
    (extras : ExtraValues) (before : FileTree) :
    answer FileTree.access request extras before =
      match Settings.load (layers FileTree.access request.settingsPath before).1 [] with
      | .error error => (.error (.unloadableSettings error), before)
      | .ok loaded =>
        match extras.change loaded with
        | .error error => (.error (.flag error), before)
        | .ok (settings, left) =>
          match left, request.conversion with
          | (name, _) :: _, _ => (.error (.unknownExtra name), before)
          | [], none => (.error .noCommand, before)
          | [], some conversion =>
            (do
              let (format, text) ← convert FileTree.access conversion settings
              deliver FileTree.access conversion settings format text) before := by
  rw [answer, if_neg (Bool.eq_false_iff.mp unlisted), loadSettings_bind_apply]
  cases Settings.load (layers FileTree.access request.settingsPath before).1 [] with
  | error error => rfl
  | ok loaded =>
      dsimp only
      rw [fromExcept_bind_apply]
      cases extras.change loaded with
      | error error => rfl
      | ok both =>
          rcases both with ⟨settings, _ | ⟨entry, left⟩⟩
          · cases request.conversion <;> rfl
          · rfl

theorem answer_eq_unknownExtra_iff (request : Request) (extras : ExtraValues) (before : FileTree) :
    (answer FileTree.access request extras before).1 = .error (.unknownExtra name) ↔
      request.listFormats = false ∧ ∃ loaded changed left,
        Settings.load (layers FileTree.access request.settingsPath before).1 [] = .ok loaded ∧
        extras.change loaded = .ok (changed, left) ∧ (Ascending.keys left).head? = some name := by
  constructor
  · intro ended
    cases unlisted : request.listFormats with
    | true =>
        rw [answer, if_pos unlisted] at ended
        cases ended
    | false =>
        rw [answer_apply unlisted] at ended
        split at ended
        · cases ended
        · next loaded load =>
          split at ended
          · cases ended
          · next changed left change =>
            refine ⟨rfl, loaded, changed, left, load, change, ?_⟩
            split at ended
            · cases ended
              rfl
            · cases ended
            · exact absurd ended (((spares_convert _ _).bind fun _ => spares_deliver _ _ _ _) before)
  · rintro ⟨unlisted, loaded, changed, left, load, change, found⟩
    rw [answer_apply unlisted, load]
    simp only [change]
    cases left with
    | nil => cases found
    | cons entry left => cases found; rfl

/-- What is left of the parameters is what does not count, and the least of it is reported. -/
theorem head?_without_eq_some_iff {values : ExtraValues} (ascending : Ascending.IsAscending values) :
    (Ascending.keys (values.without Parameter.all)).head? = some name ↔
      values.IsLeftOver name ∧ ∀ other, values.IsLeftOver other → name ≤ other := by
  have stillAscending : Ascending.IsAscending (values.without Parameter.all) :=
    Ascending.isAscending_filter ascending _
  simp only [Ascending.head?_keys_eq_some_iff stillAscending, ExtraValues.mem_keys_without]

/-- Settings are changed by those parameters alone that are given. Each takes the value under its
first name if it has one there, and else the value under its second name; this name is used up, and
all other names are left with their values. What is left has nothing to do with any parameter unless
one is given by both of its names, of which the second is left. A run reports a name as unknown if
it is the least one left over, and for no other reason. -/
theorem known_names_taken_iff (values left : ExtraValues) (settings changed : Settings)
    (helpText : HelpPage → String) (arguments : List String) (before : FileTree) (name : String) :
    (values.change settings = .ok (changed, left) ↔
      values.Changes settings changed ∧ left = values.without Parameter.all) ∧
    (values.without Parameter.all = values.filter (fun entry => !Parameter.isName entry.1) ↔
      ∀ parameter, ¬ values.GivesTwice parameter) ∧
    ((outcome FileTree.access helpText arguments before).1 = .error (.unknownExtra name) ↔
      let extras := Extras.split arguments
      ∃ request loaded changed, Request.read extras.plain = .ok request ∧
        request.listFormats = false ∧
        Settings.load (layers FileTree.access request.settingsPath before).1 [] = .ok loaded ∧
        ExtraValues.Changes extras.values loaded changed ∧
        ExtraValues.IsLeftOver extras.values name ∧
        ∀ other, ExtraValues.IsLeftOver extras.values other → name ≤ other) := by
  refine ⟨ExtraValues.change_eq_ok_iff, ExtraValues.without_eq_filter_iff, ?_⟩
  dsimp only
  rw [outcome, ← head?_without_eq_some_iff (Extras.isAscending_values_split arguments)]
  cases read : Request.read (Extras.split arguments).plain with
  | error error =>
      refine iff_of_false (fun equal => ?_) ?_
      · cases error <;> cases equal
      · rintro ⟨_, _, _, impossible, _⟩
        cases impossible
  | ok request =>
      rw [answer_eq_unknownExtra_iff]
      constructor
      · rintro ⟨unlisted, loaded, changed, left, load, change, least⟩
        rcases ExtraValues.change_eq_ok_iff.mp change with ⟨changes, rfl⟩
        exact ⟨request, loaded, changed, rfl, unlisted, load, changes, least⟩
      · rintro ⟨_, loaded, changed, equal, unlisted, load, changes, least⟩
        cases equal
        exact ⟨unlisted, loaded, changed, _, load,
          ExtraValues.change_eq_ok_iff.mpr ⟨changes, rfl⟩, least⟩

/-- The second name of a parameter is left over beside its first one, and a run takes it for
unknown. -/
theorem second_name_unknown :
    let values : ExtraValues := [("body-only", "true"), ("body_only", "true")]
    let arguments := ["a.json", "--extra-body-only", "--extra-body_only"]
    (Extras.split arguments).values = values ∧
      (values.change .standard).toOption.map Prod.snd = some [("body_only", "true")] ∧
      (values.filter fun entry => !Parameter.isName entry.1) = [] ∧
      (run FileTree.access (fun _ => "") arguments {}).1.errors =
        "Unknown extra parameter '--extra-body_only'\n" ∧
      Parameter.isName "body_only" = true := by
  decide +kernel

end Program

end MarkupExport
