import MarkupExport.CommandLine.Report
import MarkupExport.File.Tree
import MarkupExport.Format.Registry
import MarkupExport.Node.Reader

/-!
The program: it lists formats, or converts one tree to a text that is printed or written to a file,
or shows a page of help, whose text is left open.
Files are touched through `FileAccess` alone, and only the last step of a conversion changes one.
-/

namespace MarkupExport.Program

/-- A run that may end with an error. -/
abbrev Run (m : Type → Type) := ExceptT RunError m

variable {m : Type → Type} [Monad m] (access : FileAccess m) (helpText : HelpPage → String)

def fromExcept (wrap : ε → RunError) : Except ε α → Run m α
  | .ok value => pure value
  | .error error => throw (wrap error)

/-! ## Settings -/

/-- The path of a file of settings, which may be named without its extension. -/
def settingsFile? (path : String) : m (Option String) := do
  if ← access.isFile path then return some path
  match FilePath.withEnding? path ".toml" with
  | none => return none
  | some path => return if ← access.isFile path then some path else none

def layer (path : String) (required : Bool) : m Layer := do
  match ← settingsFile? access path with
  | none => return { text := none, required }
  | some path => return { text := (← access.read path).toOption, required }

/-- The settings of the working directory, and over them those of the file that is asked for. -/
def layers (path : Option String) : m (List Layer) := do
  let own ← layer access "scribe.toml" false
  match path with
  | none => return [own]
  | some path => return [own, ← layer access path true]

def loadSettings (path : Option String) : Run m Settings := do
  fromExcept .unloadableSettings (Settings.load (← (layers access path : m (List Layer))) [])

/-! ## Converting -/

/-- The format that the extension of the output file belongs to, or the one of the settings. -/
def inferFormat (output : Option String) (settings : Settings) : m String := do
  match output with
  | none => return settings.defaultFormat
  | some path =>
    if ← access.isDirectory path then return settings.defaultFormat
    else return (FormatRegistry.standard.detect? path).getD settings.defaultFormat

/-- The name of an output file: that of the input file with another extension. -/
def outputName (input extension : String) : String :=
  (FilePath.stem? input).getD "output" ++ "." ++ extension

/-- The path to write to: inside a directory that exists, or as it is given. -/
def outputPath (output input extension : String) : m String := do
  if ← access.isDirectory output then return FilePath.join output (outputName input extension)
  else return output

/-- The text of a conversion, with the format that it is in. -/
def convert (conversion : Conversion) (settings : Settings) : Run m (Format × String) := do
  let name ←
    match conversion.format with
    | some name => pure name
    | none => (inferFormat access conversion.output settings : m String)
  let format ← fromExcept .unknownFormat (FormatRegistry.standard.get name)
  let source ← fromExcept (.unreadableFile conversion.input) (← access.read conversion.input)
  match Node.read? source with
  | none => throw (.unreadableTree conversion.input)
  | some tree =>
    let text ← fromExcept .serialization (format.serialize tree settings.options)
    return (format, text)

/-- Hands over the text of a conversion: what is to be printed of it. -/
def deliver (conversion : Conversion) (settings : Settings) (format : Format) (text : String) :
    Run m String := do
  match conversion.output with
  | none => return text
  | some output =>
    let extension := format.outputExtension settings.options
    let path ← (outputPath access output conversion.input extension : m String)
    fromExcept (.unwritableFile path) (← access.write path text)
    return ""

/-! ## Running -/

def versionText : String :=
  "scribe 0.1.0\n"

def formatLine (format : Format) : String :=
  let gap := String.ofList (List.replicate (8 - format.name.length) ' ')
  "  " ++ format.name ++ gap ++ " " ++ format.description ++ " (" ++
    String.intercalate ", " format.extensions ++ ")\n"

def formatList (registry : FormatRegistry) : String :=
  "Available formats:\n\n" ++ String.join (registry.entries.map fun entry => formatLine entry.2)

/-- Answers a request under extra parameters. -/
def answer (request : Request) (extras : ExtraValues) : Run m String := do
  if request.listFormats then return formatList .standard
  let settings ← loadSettings access request.settingsPath
  let (settings, left) ← fromExcept .flag (extras.change settings)
  match left, request.conversion with
  | (name, _) :: _, _ => throw (.unknownExtra name)
  | [], none => throw .noCommand
  | [], some conversion =>
    let (format, text) ← convert access conversion settings
    deliver access conversion settings format text

/-- Runs the program on arguments, without its own name: the text to print, or an error. -/
def outcome (arguments : List String) : Run m String := do
  let extras := Extras.split arguments
  match Request.read extras.plain with
  | .error .usage => throw .usage
  | .error .version => return versionText
  | .error (.help page) => return helpText page
  | .ok request => answer access request extras.values

def run (arguments : List String) : m Report :=
  Report.ofOutcome <$> (outcome access helpText arguments).run

example : formatList .standard =
    "Available formats:\n\n  bbcode   Forum BBCode (bbcode, bb)\n" ++
      "  html     HTML fragment for blog engines (html, htm)\n" := by
  decide +kernel

example :
    let tree := FileTree.addFile {} "a.json" "[\"document\", [], {}]"
    (run FileTree.access (fun _ => "") ["a.json", "-o", "a.bb"] tree).1 = { exitCode := 0 } := by
  decide +kernel

end MarkupExport.Program
