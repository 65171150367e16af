import MarkupExport.CommandLine.Program
import MarkupExport.Proofs.CommandLine.Extras

/-!
The command may be left out. An argument in the first place that is neither a flag nor a command is
nothing that the program itself understands, so the arguments are read once more as those of a
conversion, which is how they are read at once where the command is written. Extra parameters make
no difference to this: the first argument is none, and the command has none in front of it.
-/

namespace MarkupExport

variable {first : String} {rest : List String}

theorem Extras.split_cons_of_noFlag (noFlag : Extras.isFlag first = false) (rest : List String) :
    Extras.split (first :: rest) =
      { plain := first :: (Extras.split rest).plain, values := (Extras.split rest).values } :=
  Extras.split_cons_of_unnamed (Extras.name?_eq_none noFlag) rest

namespace Request

/-- Nothing but its command is understood by the program in place of a flag. -/
theorem ofProgram_eq_error (noFlag : Extras.isFlag first = false) (notConvert : first ≠ "convert")
    (notHelp : first ≠ "help") (rest : List String) :
    ofProgram {} (first :: rest) = .error .usage := by
  have refused : Reading.step .program {} first = .error .usage := by
    cases chars : first.toList with
    | nil => simp [Reading.step, chars, Reading.readPlain]
    | cons char chars =>
        have different : char ≠ '-' := by simpa [Extras.isFlag, chars] using noFlag
        simp [Reading.step, chars, Reading.readPlain, different]
  rw [ofProgram, if_neg fun both => notConvert both.1, if_neg fun both => notHelp both.1, refused]
  rfl

theorem impliesConvert_cons (noFlag : Extras.isFlag first = false) (notConvert : first ≠ "convert")
    (notHelp : first ≠ "help") (rest : List String) : impliesConvert (first :: rest) = true := by
  simpa [impliesConvert, notConvert, notHelp, Extras.isFlag] using noFlag

theorem read_convert_cons (noFlag : Extras.isFlag first = false) (notConvert : first ≠ "convert")
    (notHelp : first ≠ "help") (rest : List String) :
    read ("convert" :: first :: rest) = read (first :: rest) := by
  rw [read, read, ofProgram_eq_error noFlag notConvert notHelp]
  dsimp only
  rw [if_pos (impliesConvert_cons noFlag notConvert notHelp rest)]
  cases ofProgram {} ("convert" :: first :: rest) <;> rfl

end Request

namespace Program

/-- A run is the same whether the command is written or left out, whatever follows, a call for help
included, and on whatever files it works. -/
theorem run_convert_cons {m : Type → Type} [Monad m] (access : FileAccess m)
    (helpText : HelpPage → String) (noFlag : Extras.isFlag first = false)
    (notConvert : first ≠ "convert") (notHelp : first ≠ "help") (rest : List String) :
    run access helpText ("convert" :: first :: rest) = run access helpText (first :: rest) := by
  have command : Extras.isFlag "convert" = false := by decide +kernel
  rw [run, run, outcome, outcome, Extras.split_cons_of_noFlag command,
    Extras.split_cons_of_noFlag noFlag]
  dsimp only
  rw [Request.read_convert_cons noFlag notConvert notHelp]

theorem run_convert_cons_into_directory :
    let helpText : HelpPage → String := fun
      | .command .convert _ => "Usage: scribe convert [OPTIONS] <input>\n"
      | _ => "Usage: scribe [OPTIONS] [COMMAND]\n"
    let rest := ["--extra-ext", "txt", "-v", "--extra-body-only", "-o", "out"]
    let before := (FileTree.addFile {} "a.json"
      "[\"paragraph\", [[\"plain-text\", [], \x7b\"value\": \"hi\"\x7d]]]").addDirectory "out"
    Extras.isFlag "a.json" = false ∧ "a.json" ≠ "convert" ∧ "a.json" ≠ "help" ∧
      (run FileTree.access helpText ("convert" :: "a.json" :: rest) before).1.exitCode = 0 ∧
      ((run FileTree.access helpText ("convert" :: "a.json" :: rest) before).2.read
        "out/a.txt").toOption = some "<p>hi</p>\n" ∧
      (run FileTree.access helpText ["convert", "a.json", "-o", "out", "--help"] before).1 =
        { exitCode := 0, output := "Usage: scribe convert [OPTIONS] <input>\n" } := by
  intro helpText rest before
  have noFlag : Extras.isFlag "a.json" = false := by decide +kernel
  have well : (run FileTree.access helpText ("a.json" :: rest) before).1.exitCode = 0 := by
    decide +kernel
  have written : ((run FileTree.access helpText ("a.json" :: rest) before).2.read
      "out/a.txt").toOption = some "<p>hi</p>\n" := by
    decide +kernel
  have shown : (run FileTree.access helpText ["a.json", "-o", "out", "--help"] before).1 =
      { exitCode := 0, output := "Usage: scribe convert [OPTIONS] <input>\n" } := by
    decide +kernel
  have implied := run_convert_cons FileTree.access helpText noFlag (by decide) (by decide)
  rw [implied, implied]
  exact ⟨noFlag, by decide, by decide, well, written, shown⟩

end Program

end MarkupExport
