import MarkupExport.CommandLine.Program
import MarkupExport.Proofs.File.Extension
import MarkupExport.Proofs.File.Name

/-!
Where the output goes if a directory is given for it. The target is the directory with a name joined
to it, made of the stem of the input and the extension. The stem is a piece of a name, but the
extension is any text; so the target lies in the directory unless a slash in the extension makes
more of it than a name.
-/

namespace MarkupExport.Program

open FilePath

variable {directory input extension : String}

/-! ## The name of the output -/

theorem outputStem (input : String) :
    ((stem? input).getD "output").toList ≠ [] ∧ '/' ∉ ((stem? input).getD "output").toList := by
  cases stemmed : stem? input with
  | none => exact ⟨by decide +kernel, by decide +kernel⟩
  | some stem =>
      rcases Option.map_eq_some_iff.mp stemmed with ⟨name, named, rfl⟩
      rw [Option.getD_some, String.toList_ofList]
      exact (isName_of_fileName? named).stem

theorem outputName_toList (input extension : String) :
    (outputName input extension).toList =
      ((stem? input).getD "output").toList ++ '.' :: extension.toList := by
  simp [outputName]

theorem outputName_relative (input extension : String) :
    (outputName input extension).toList.head? ≠ some '/' := by
  rcases outputStem input with ⟨nonempty, noSlash⟩
  rcases List.exists_cons_of_ne_nil nonempty with ⟨first, rest, stem⟩
  rw [outputName_toList, stem, List.cons_append, List.head?_cons]
  rintro ⟨⟩
  exact noSlash (stem ▸ List.mem_cons_self)

theorem isName_outputName_iff :
    IsName (outputName input extension).toList ↔
      '/' ∉ extension.toList ∧ outputName input extension ≠ ".." := by
  have dots : outputName input extension ≠ ".." ↔
      (outputName input extension).toList ≠ ['.', '.'] := by
    rw [ne_eq, ← String.toList_inj]
    rfl
  rcases outputStem input with ⟨nonempty, noSlash⟩
  rw [dots]
  constructor
  · intro isName
    refine ⟨fun slash => isName.noSlash ?_, isName.notDots⟩
    rw [outputName_toList]
    exact List.mem_append_right _ (List.mem_cons_of_mem _ slash)
  · rintro ⟨single, notDots⟩
    refine ⟨?_, ?_, ?_, notDots⟩
    · simp [outputName_toList]
    · simp [outputName_toList, noSlash, single]
    · simp [outputName_toList, List.append_eq_cons_iff, nonempty]

/-! ## Formats -/

theorem outputExtension_builtIn {format : Format} (builtIn : format = .html ∨ format = .bbcode)
    {options : ExportOptions} (unset : options.extension = none) :
    format.outputExtension options = format.name := by
  rcases builtIn with rfl | rfl <;> simp [Format.outputExtension, unset, Format.html, Format.bbcode]

theorem detect?_of_extension {format : Format} (builtIn : format = .html ∨ format = .bbcode)
    {path : String} (extended : extension? path = some format.name) :
    FormatRegistry.standard.detect? path = some format.name := by
  rw [FormatRegistry.detect?, FormatRegistry.detectAmong?, extended]
  rcases builtIn with rfl | rfl <;> decide +kernel

/-! ## Targets -/

theorem nonempty_of_isDirectory {tree : FileTree}
    (isDirectory : tree.isDirectory directory = true) : directory ≠ "" := by
  rintro rfl
  cases isDirectory

/-- If the output is to go to a directory, then its path is that of the directory with a name joined
to it: the stem of the input, or else `output`, and after a dot the extension. This path lies in the
directory, under this name, exactly if the extension holds no slash and the name is not two dots. If
no extension is asked for, it always does, and both built-in formats are detected from it. -/
theorem outputPath_liesIn_iff (tree : FileTree) (directory input : String) (format : Format)
    (options : ExportOptions) (isDirectory : tree.isDirectory directory = true) :
    let extension := format.outputExtension options
    let name := (stem? input).getD "output" ++ "." ++ extension
    ∃ target, outputPath FileTree.access directory input extension tree = (target, tree) ∧
      target = join directory name ∧
      (LiesIn target directory name ↔ '/' ∉ extension.toList ∧ name ≠ "..") ∧
      (options.extension = none → format = .html ∨ format = .bbcode →
        LiesIn target directory name ∧
          FormatRegistry.standard.detect? target = some format.name) := by
  intro extension name
  have lies : LiesIn (join directory name) directory name ↔ IsName name.toList :=
    liesIn_join_iff (outputName_relative input extension) (nonempty_of_isDirectory isDirectory)
  refine ⟨join directory name, ?_, rfl, lies.trans isName_outputName_iff, ?_⟩
  · show (if tree.isDirectory directory = true then _ else _ : StateM FileTree String) tree = _
    rw [if_pos isDirectory]
    rfl
  · intro unset builtIn
    have own : extension = format.name := outputExtension_builtIn builtIn unset
    have chars : name.toList = ((stem? input).getD "output").toList ++ '.' :: format.name.toList :=
      own ▸ outputName_toList input extension
    have letters : '/' ∉ format.name.toList ∧ '.' ∉ format.name.toList ∧
        1 < format.name.toList.length := by
      rcases builtIn with rfl | rfl <;> decide
    have notDots : name ≠ ".." := by
      intro dots
      have long := congrArg List.length (chars.symm.trans (congrArg String.toList dots))
      have two : "..".toList.length = 2 := rfl
      rw [two, List.length_append, List.length_cons] at long
      omega
    have inside : LiesIn (join directory name) directory name :=
      lies.mpr (isName_outputName_iff.mpr ⟨own ▸ letters.1, notDots⟩)
    refine ⟨inside, detect?_of_extension builtIn (extension?_eq_some_iff.mpr ?_)⟩
    exact ⟨_, inside.fileName.trans (congrArg some chars), (outputStem input).1, letters.2.1⟩

/-- A hidden input, and a directory with a slash and a dot at its end. -/
theorem outputPath_liesIn_iff_hidden :
    let tree := FileTree.addDirectory {} "a/b"
    tree.isDirectory "a/b/." = true ∧
      outputPath FileTree.access "a/b/." "c/.tree" "bbcode" tree = ("a/b/./.tree.bbcode", tree) ∧
      LiesIn "a/b/./.tree.bbcode" "a/b/." ".tree.bbcode" ∧
      FormatRegistry.standard.detect? "a/b/./.tree.bbcode" = some "bbcode" := by
  intro tree
  have isDirectory : tree.isDirectory "a/b/." = true := by decide +kernel
  rcases outputPath_liesIn_iff tree "a/b/." "c/.tree" .bbcode {} isDirectory with
    ⟨target, found, joined, -, builtIn⟩
  have path : target = "a/b/./.tree.bbcode" := joined.trans (by decide +kernel)
  subst path
  exact ⟨isDirectory, found, builtIn rfl (.inr rfl)⟩

/-- An extension that leads back out of the directory: the output is written beside it. -/
theorem slash_leaves_directory :
    let tree := FileTree.addDirectory (.addFile {} "a.json" "[\"document\"]") "b/a.c"
    let arguments := ["a.json", "-o", "b", "--extra-extension", "c/../../d"]
    let after := (run FileTree.access (fun _ => "") arguments tree).2
    tree.isDirectory "b" = true ∧
      (outputPath FileTree.access "b" "a.json" "c/../../d" tree).1 = "b/a.c/../../d" ∧
      (∀ name, ¬ LiesIn "b/a.c/../../d" "b" name) ∧
      (after.read "d").toOption = some "" := by
  intro tree arguments after
  refine ⟨by decide +kernel, by decide +kernel, fun name lies => ?_, by decide +kernel⟩
  have long := congrArg List.length lies.parent
  rw [List.length_append, List.length_singleton] at long
  exact absurd long (by decide +kernel)

end MarkupExport.Program
