import MarkupExport.CommandLine.Program
import MarkupExport.Proofs.File.Write

/-!
The program is all or nothing: a run that exits with an error prints nothing and leaves every file
as it was, and a conversion that ends well either prints its text or puts it in one file. The reason
is the order of a run. Everything that may fail before the last step only looks at the tree, and the
last step either fails and changes nothing or writes the whole text.
-/

namespace MarkupExport.Program

variable {α β ε : Type}

/-! ## Effects on a tree -/

/-- An action that leaves the tree as it is. -/
def ReadOnly (action : StateM FileTree α) : Prop :=
  ∀ tree, (action tree).2 = tree

/-- A run that leaves the tree as it is if it ends with an error. -/
def AllOrNothing (action : Run (StateM FileTree) α) : Prop :=
  ∀ tree error, (action tree).1 = .error error → (action tree).2 = tree

namespace ReadOnly

theorem pure (value : α) : ReadOnly (Pure.pure value : StateM FileTree α) :=
  fun _ => rfl

theorem bind {action : StateM FileTree α} {next : α → StateM FileTree β}
    (first : ReadOnly action) (others : ∀ value, ReadOnly (next value)) :
    ReadOnly (action >>= next) := by
  intro tree
  exact (others _ _).trans (first tree)

theorem ite {condition : Prop} [Decidable condition] {yes no : StateM FileTree α}
    (onYes : ReadOnly yes) (onNo : ReadOnly no) : ReadOnly (if condition then yes else no) := by
  split
  · exact onYes
  · exact onNo

theorem isFile (path : String) : ReadOnly (FileTree.access.isFile path) :=
  fun _ => rfl

theorem isDirectory (path : String) : ReadOnly (FileTree.access.isDirectory path) :=
  fun _ => rfl

theorem read (path : String) : ReadOnly (FileTree.access.read path) :=
  fun _ => rfl

end ReadOnly

/-! ## Runs that may fail -/

theorem bind_apply (action : Run (StateM FileTree) α) (next : α → Run (StateM FileTree) β)
    (tree : FileTree) :
    (action >>= next) tree =
      match action tree with
      | (.ok value, between) => next value between
      | (.error error, between) => (.error error, between) := by
  show (ExceptT.bindCont next (action tree).1) (action tree).2 = _
  rcases action tree with ⟨_ | _, between⟩ <;> rfl

theorem lift_apply (action : StateM FileTree α) (tree : FileTree) :
    (action : Run (StateM FileTree) α) tree = (.ok (action tree).1, (action tree).2) :=
  rfl

namespace ReadOnly

theorem run_pure (value : α) : ReadOnly (Pure.pure value : Run (StateM FileTree) α).run :=
  fun _ => rfl

theorem run_throw (error : RunError) : ReadOnly (throw error : Run (StateM FileTree) α).run :=
  fun _ => rfl

theorem run_lift {action : StateM FileTree α} (readOnly : ReadOnly action) :
    ReadOnly (action : Run (StateM FileTree) α).run :=
  readOnly

theorem run_fromExcept (wrap : ε → RunError) (result : Except ε α) :
    ReadOnly (fromExcept wrap result : Run (StateM FileTree) α).run := by
  cases result with
  | ok value => exact run_pure value
  | error error => exact run_throw (wrap error)

variable {action : Run (StateM FileTree) α} {next : α → Run (StateM FileTree) β}

theorem eq_of_apply {before after : FileTree} {result : Except RunError α}
    (readOnly : ReadOnly action.run) (applied : action before = (result, after)) :
    after = before := by
  have same := readOnly before
  rwa [ExceptT.run, applied] at same

theorem run_bind (first : ReadOnly action.run) (others : ∀ value, ReadOnly (next value).run) :
    ReadOnly (action >>= next).run := by
  intro tree
  show ((action >>= next) tree).2 = tree
  rw [bind_apply]
  split
  · next value between applied =>
    obtain rfl := first.eq_of_apply applied
    exact others value between
  · next applied => exact first.eq_of_apply applied

/-- A sequence that ends well goes on where its first part ended, in the same tree. -/
theorem bind_eq_ok {before after : FileTree} {result : β} (first : ReadOnly action.run)
    (ended : (action >>= next) before = (.ok result, after)) :
    ∃ value, action before = (.ok value, before) ∧ next value before = (.ok result, after) := by
  rw [bind_apply] at ended
  split at ended
  · next value between applied =>
    obtain rfl := first.eq_of_apply applied
    exact ⟨value, applied, ended⟩
  · cases ended

end ReadOnly

namespace AllOrNothing

variable {action : Run (StateM FileTree) α} {next : α → Run (StateM FileTree) β}

theorem of_readOnly (readOnly : ReadOnly action.run) : AllOrNothing action :=
  fun tree _ _ => readOnly tree

/-- What may fail comes first, and all that is written comes last. -/
theorem bind (first : ReadOnly action.run) (others : ∀ value, AllOrNothing (next value)) :
    AllOrNothing (action >>= next) := by
  intro tree error failed
  rw [bind_apply] at failed ⊢
  split at failed
  · next value between applied =>
    obtain rfl := first.eq_of_apply applied
    exact others value between error failed
  · next applied => exact first.eq_of_apply applied

end AllOrNothing

theorem lift_eq_ok {action : StateM FileTree α} {value : α} {before after : FileTree}
    (ended : (action : Run (StateM FileTree) α) before = (.ok value, after)) :
    (action before).1 = value :=
  Except.ok.inj (congrArg Prod.fst ended)

theorem fromExcept_eq_ok {wrap : ε → RunError} {result : Except ε α} {value : α}
    {before after : FileTree}
    (ended : (fromExcept wrap result : Run (StateM FileTree) α) before = (.ok value, after)) :
    result = .ok value := by
  cases result with
  | ok found => rw [Except.ok.inj (congrArg Prod.fst ended)]
  | error error => cases ended

/-! ## Settings -/

theorem readOnly_settingsFile? (path : String) :
    ReadOnly (settingsFile? FileTree.access path) := by
  refine (ReadOnly.isFile path).bind fun isFile => .ite (.pure _) ?_
  split
  · exact .pure _
  · exact (ReadOnly.isFile _).bind fun _ => .pure _

theorem readOnly_layer (path : String) (required : Bool) :
    ReadOnly (layer FileTree.access path required) := by
  refine (readOnly_settingsFile? path).bind fun found => ?_
  cases found with
  | none => exact .pure _
  | some path => exact (ReadOnly.read path).bind fun _ => .pure _

theorem readOnly_layers (path : Option String) : ReadOnly (layers FileTree.access path) := by
  refine (readOnly_layer _ _).bind fun own => ?_
  cases path with
  | none => exact .pure _
  | some path => exact (readOnly_layer path true).bind fun _ => .pure _

theorem readOnly_loadSettings (path : Option String) :
    ReadOnly (loadSettings FileTree.access path).run :=
  (ReadOnly.run_lift (readOnly_layers path)).run_bind fun _ => .run_fromExcept _ _

/-- The settings of a run: those of the files, changed by extra parameters of which none is left
over. -/
def HasSettings (before : FileTree) (path : Option String) (extras : ExtraValues)
    (settings : Settings) : Prop :=
  ∃ loaded, Settings.load (layers FileTree.access path before).1 [] = .ok loaded ∧
    extras.change loaded = .ok (settings, [])

theorem loadSettings_eq_ok {path : Option String} {loaded : Settings} {before after : FileTree}
    (ended : loadSettings FileTree.access path before = (.ok loaded, after)) :
    Settings.load (layers FileTree.access path before).1 [] = .ok loaded := by
  rcases (ReadOnly.run_lift (readOnly_layers path)).bind_eq_ok ended with ⟨found, layers, load⟩
  rw [lift_eq_ok layers]
  exact fromExcept_eq_ok load

/-! ## Converting -/

section Conversion

variable {conversion : Conversion} {settings : Settings} {format : Format} {text printed : String}
  {before after : FileTree}

theorem readOnly_inferFormat (output : Option String) (settings : Settings) :
    ReadOnly (inferFormat FileTree.access output settings) := by
  cases output with
  | none => exact .pure _
  | some path => exact (ReadOnly.isDirectory path).bind fun _ => .ite (.pure _) (.pure _)

/-- The name of the format of a conversion, which may be given. -/
def formatName (conversion : Conversion) (settings : Settings) : StateM FileTree String :=
  match conversion.format with
  | some name => pure name
  | none => inferFormat FileTree.access conversion.output settings

theorem readOnly_formatName (conversion : Conversion) (settings : Settings) :
    ReadOnly (formatName conversion settings) := by
  rw [formatName]
  split
  · exact .pure _
  · exact readOnly_inferFormat _ _

theorem convert_eq (conversion : Conversion) (settings : Settings) :
    convert FileTree.access conversion settings = do
      let name ← (formatName conversion settings : StateM FileTree String)
      let format ← fromExcept .unknownFormat (FormatRegistry.standard.get name)
      let found ← (FileTree.access.read conversion.input : StateM FileTree _)
      let source ← fromExcept (.unreadableFile conversion.input) found
      match Node.read? source with
      | none => throw (.unreadableTree conversion.input)
      | some tree =>
        let text ← fromExcept .serialization (format.serialize tree settings.options)
        return (format, text) := by
  rcases conversion with ⟨input, _ | name, output⟩ <;> rfl

theorem readOnly_convert (conversion : Conversion) (settings : Settings) :
    ReadOnly (convert FileTree.access conversion settings).run := by
  rw [convert_eq]
  refine (ReadOnly.run_lift (readOnly_formatName _ _)).run_bind fun name => ?_
  refine (ReadOnly.run_fromExcept _ _).run_bind fun format => ?_
  refine (ReadOnly.run_lift (.read _)).run_bind fun found => ?_
  refine (ReadOnly.run_fromExcept _ _).run_bind fun source => ?_
  split
  · exact .run_throw _
  · exact (ReadOnly.run_fromExcept _ _).run_bind fun _ => .run_pure _

/-- The text of a conversion: that of the tree in the input file, in the format of that name. -/
def HasText (before : FileTree) (conversion : Conversion) (settings : Settings) (format : Format)
    (text : String) : Prop :=
  FormatRegistry.standard.get (formatName conversion settings before).1 = .ok format ∧
    ∃ source tree, before.read conversion.input = .ok source ∧ Node.read? source = some tree ∧
      format.serialize tree settings.options = .ok text

theorem convert_eq_ok (ended : convert FileTree.access conversion settings before =
      (.ok (format, text), after)) : HasText before conversion settings format text := by
  rw [convert_eq] at ended
  rcases (ReadOnly.run_lift (readOnly_formatName _ _)).bind_eq_ok ended with ⟨name, named, ended⟩
  rcases (ReadOnly.run_fromExcept _ _).bind_eq_ok ended with ⟨registered, chosen, ended⟩
  rcases (ReadOnly.run_lift (.read _)).bind_eq_ok ended with ⟨found, readInput, ended⟩
  rcases (ReadOnly.run_fromExcept _ _).bind_eq_ok ended with ⟨source, opened, ended⟩
  have input : before.read conversion.input = .ok source :=
    (lift_eq_ok readInput).trans (fromExcept_eq_ok opened)
  cases parsed : Node.read? source with
  | none =>
      rw [parsed] at ended
      cases ended
  | some tree =>
      rw [parsed] at ended
      rcases (ReadOnly.run_fromExcept _ _).bind_eq_ok ended with ⟨serialized, serialize, ended⟩
      cases ended
      exact ⟨lift_eq_ok named ▸ fromExcept_eq_ok chosen, source, tree, input, parsed,
        fromExcept_eq_ok serialize⟩

/-! ## Delivering -/

theorem readOnly_outputPath (output input extension : String) :
    ReadOnly (outputPath FileTree.access output input extension) :=
  (ReadOnly.isDirectory output).bind fun _ => .ite (.pure _) (.pure _)

theorem access_write_apply (path text : String) (before : FileTree) :
    FileTree.access.write path text before =
      match before.write path text with
      | .ok after => (.ok (), after)
      | .error error => (.error error, before) := by
  show (match before.write path text with
    | .ok after => (do set after; return .ok () : StateM FileTree (Except FileError Unit))
    | .error error => return .error error) before = _
  cases before.write path text <;> rfl

theorem deliver_of_output_eq_none (printed : conversion.output = none) (settings : Settings)
    (format : Format) (text : String) (tree : FileTree) :
    deliver FileTree.access conversion settings format text tree = (.ok text, tree) := by
  simp only [deliver, printed]
  rfl

/-- The last step fails and leaves the tree, or writes the whole text to one file. -/
theorem deliver_of_output_eq_some {output : String} (written : conversion.output = some output)
    (settings : Settings) (format : Format) (text : String) (before : FileTree) :
    let extension := format.outputExtension settings.options
    let path := (outputPath FileTree.access output conversion.input extension before).1
    deliver FileTree.access conversion settings format text before =
      match before.write path text with
      | .ok after => (.ok "", after)
      | .error error => (.error (.unwritableFile path error), before) := by
  intro extension path
  have target : outputPath FileTree.access output conversion.input extension before =
      (path, before) := Prod.ext rfl (readOnly_outputPath _ _ _ before)
  simp only [deliver, written, bind_apply, lift_apply]
  rw [target]
  simp only [access_write_apply]
  cases before.write path text <;> rfl

theorem allOrNothing_deliver (conversion : Conversion) (settings : Settings) (format : Format)
    (text : String) : AllOrNothing (deliver FileTree.access conversion settings format text) := by
  intro tree error failed
  cases place : conversion.output with
  | none =>
      rw [deliver_of_output_eq_none place] at failed
      cases failed
  | some output =>
      rw [deliver_of_output_eq_some place] at failed ⊢
      split at failed
      · cases failed
      · rfl

/-- A text is printed and no file changes, or it is in the one file that changes and nothing is
printed. -/
def Delivers (before : FileTree) (conversion : Conversion) (extension text printed : String)
    (after : FileTree) : Prop :=
  match conversion.output with
  | none => printed = text ∧ after = before
  | some output =>
    let path := (outputPath FileTree.access output conversion.input extension before).1
    printed = "" ∧ before.WritesOnly path text after

theorem deliver_eq_ok (ended : deliver FileTree.access conversion settings format text before =
      (.ok printed, after)) :
    Delivers before conversion (format.outputExtension settings.options) text printed after := by
  rw [Delivers]
  split
  · next place =>
    rw [deliver_of_output_eq_none place] at ended
    cases ended
    exact ⟨rfl, rfl⟩
  · next output place =>
    rw [deliver_of_output_eq_some place] at ended
    split at ended
    · next tree written =>
      cases ended
      exact ⟨rfl, FileTree.writesOnly_of_write written⟩
    · cases ended

end Conversion

/-! ## Whole runs -/

theorem allOrNothing_answer (request : Request) (extras : ExtraValues) :
    AllOrNothing (answer FileTree.access request extras) := by
  rw [answer]
  split
  · exact .of_readOnly (.run_pure _)
  refine .bind (readOnly_loadSettings _) fun loaded => ?_
  refine .bind (.run_fromExcept _ _) fun ⟨settings, left⟩ => ?_
  dsimp only
  split
  · exact .of_readOnly (.run_throw _)
  · exact .of_readOnly (.run_throw _)
  · exact .bind (readOnly_convert _ _) fun converted => allOrNothing_deliver _ _ _ _

theorem allOrNothing_outcome (helpText : HelpPage → String) (arguments : List String) :
    AllOrNothing (outcome FileTree.access helpText arguments) := by
  simp only [outcome]
  split
  · exact .of_readOnly (.run_throw _)
  · exact .of_readOnly (.run_pure _)
  · exact .of_readOnly (.run_pure _)
  · exact allOrNothing_answer _ _

theorem answer_eq_ok {request : Request} {extras : ExtraValues} {conversion : Conversion}
    {printed : String} {before after : FileTree} (unlisted : request.listFormats = false)
    (requested : request.conversion = some conversion)
    (ended : answer FileTree.access request extras before = (.ok printed, after)) :
    ∃ settings format text, HasSettings before request.settingsPath extras settings ∧
      HasText before conversion settings format text ∧
      Delivers before conversion (format.outputExtension settings.options) text printed after := by
  simp only [answer, unlisted, requested, Bool.false_eq_true, if_false] at ended
  rcases (readOnly_loadSettings _).bind_eq_ok ended with ⟨loaded, load, ended⟩
  rcases (ReadOnly.run_fromExcept _ _).bind_eq_ok ended with ⟨⟨settings, left⟩, change, ended⟩
  dsimp only at ended
  cases left with
  | cons => cases ended
  | nil =>
      rcases (readOnly_convert _ _).bind_eq_ok ended with ⟨⟨format, text⟩, converted, delivered⟩
      exact ⟨settings, format, text, ⟨loaded, loadSettings_eq_ok load, fromExcept_eq_ok change⟩,
        convert_eq_ok converted, deliver_eq_ok delivered⟩

/-- A run that exits with an error prints nothing and leaves every file as it was. A conversion that
ends well is of the tree in its input file, in the format that it names or that is inferred, under
the settings of the files and the extra parameters. Its text is printed while no file changes, or
put into the one file that changes while nothing is printed. -/
theorem run_allOrNothing (helpText : HelpPage → String) (arguments : List String)
    (before : FileTree) :
    let (report, after) := run FileTree.access helpText arguments before
    (report.exitCode ≠ 0 → report.output = "" ∧ after = before) ∧
      ∀ request conversion, Request.read (Extras.split arguments).plain = .ok request →
        request.listFormats = false → request.conversion = some conversion → report.exitCode = 0 →
          ∃ settings format text,
            HasSettings before request.settingsPath (Extras.split arguments).values settings ∧
            HasText before conversion settings format text ∧
            Delivers before conversion (format.outputExtension settings.options) text
              report.output after := by
  have performed : run FileTree.access helpText arguments before =
      (.ofOutcome (outcome FileTree.access helpText arguments before).1,
        (outcome FileTree.access helpText arguments before).2) := rfl
  have unchanged := allOrNothing_outcome helpText arguments before
  rw [performed]
  cases ended : outcome FileTree.access helpText arguments before with
  | mk result after =>
      rw [ended] at unchanged
      cases result with
      | error error =>
          refine ⟨fun _ => ⟨rfl, unchanged error rfl⟩, fun _ _ _ _ _ well => ?_⟩
          cases error <;> cases well
      | ok printed =>
          refine ⟨fun failed => absurd rfl failed, fun _ _ read unlisted requested _ => ?_⟩
          simp only [outcome, read] at ended
          exact answer_eq_ok unlisted requested ended

theorem run_allOrNothing_into_directory :
    let helpText : HelpPage → String := fun _ => "help"
    let arguments := ["a.json", "-o", "out"]
    let before := (FileTree.addFile {} "a.json"
      "[\"paragraph\", [[\"plain-text\", [], \x7b\"value\": \"hi\"\x7d]]]").addDirectory "out"
    let (report, after) := run FileTree.access helpText arguments before
    report.exitCode = 0 ∧ report.output = "" ∧ after.read "out/a.html" = .ok "<p>hi</p>\n" ∧
      ∃ path text, before.WritesOnly path text after := by
  intro helpText arguments before
  have request : Request.read (Extras.split arguments).plain =
      .ok { conversion := some { input := "a.json", output := some "out" } } := by decide +kernel
  have well : (run FileTree.access helpText arguments before).1.exitCode = 0 := by decide +kernel
  have file : (run FileTree.access helpText arguments before).2.read "out/a.html" =
      .ok "<p>hi</p>\n" := by
    decide +kernel
  -- Nothing is computed from here on; an opaque tree keeps the run from being unfolded.
  clear_value before
  rcases (run_allOrNothing helpText arguments before).2 _ _ request rfl rfl well with
    ⟨settings, format, text, _, _, printed, writes⟩
  exact ⟨well, printed, file, _, _, writes⟩

end MarkupExport.Program
