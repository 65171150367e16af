/-!
Requests: what a list of arguments asks for. Some arguments are understood by the program itself and
by its command `convert`, others by only one of them. Arguments are given by a long name, whose
value may follow an equals sign, or by a letter; letters may share a dash, and a value may follow
its letter directly. Each is given once at most. A call for help ends the reading where it stands.
-/

namespace MarkupExport

/-- One tree to convert, with the name of the format and the place of the output if they are
given. -/
structure Conversion where
  input : String
  format : Option String := none
  output : Option String := none
deriving DecidableEq, Repr

structure Request where
  listFormats : Bool := false
  settingsPath : Option String := none
  conversion : Option Conversion := none
deriving DecidableEq, Repr

inductive Command where
  | program
  | convert
deriving DecidableEq, Repr

/-- What the program can explain. -/
inductive HelpPage where
  | command (command : Command) (long : Bool)
  /-- The command that asks for help. -/
  | help
deriving DecidableEq, Repr

/-- Why arguments ask for no run of the program. -/
inductive RequestError where
  | usage
  | version
  | help (page : HelpPage)
deriving DecidableEq, Repr

inductive Argument where
  | listFormats
  | verbose
  | version
  | help
  | settings
  | format
  | output
deriving DecidableEq, Repr

namespace Argument

def ofName? (command : Command) (name : List Char) : Option Argument :=
  match String.ofList name, command with
  | "list-formats", _ => some .listFormats
  | "verbose", _ => some .verbose
  | "config", _ => some .settings
  | "help", _ => some .help
  | "version", .program => some .version
  | "to", .convert => some .format
  | "output", .convert => some .output
  | _, _ => none

def ofLetter? (command : Command) (letter : Char) : Option Argument :=
  match letter, command with
  | 'v', _ => some .verbose
  | 'h', _ => some .help
  | 'V', .program => some .version
  | 'o', .convert => some .output
  | _, _ => none

def takesValue : Argument → Bool
  | .settings | .format | .output => true
  | .listFormats | .verbose | .version | .help => false

end Argument

/-- What one command was given so far. -/
structure Given where
  listFormats : Bool := false
  verbose : Bool := false
  settingsPath : Option String := none
  format : Option String := none
  output : Option String := none
  input : Option String := none
deriving DecidableEq, Repr

namespace Given

/-- Fills a place that is empty. -/
def fill (place : Option String) (value : String) : Except RequestError (Option String) :=
  if place.isSome then .error .usage else .ok (some value)

/-- Turns on what needs no value. The page is the one to show if it is help. -/
def turnOn (given : Given) (page : HelpPage) : Argument → Except RequestError Given
  | .listFormats =>
    if given.listFormats then .error .usage else .ok { given with listFormats := true }
  | .verbose => if given.verbose then .error .usage else .ok { given with verbose := true }
  | .version => .error .version
  | .help => .error (.help page)
  | .settings | .format | .output => .error .usage

def setValue (given : Given) (value : String) : Argument → Except RequestError Given
  | .settings => return { given with settingsPath := ← fill given.settingsPath value }
  | .format => return { given with format := ← fill given.format value }
  | .output => return { given with output := ← fill given.output value }
  | .listFormats | .verbose | .version | .help => .error .usage

def setInput (given : Given) (value : String) : Except RequestError Given :=
  return { given with input := ← fill given.input value }

end Given

/-- What the next argument may be. -/
inductive Expected where
  | any
  | valueOf (argument : Argument)
  /-- Behind a double dash every argument stands for itself. -/
  | plain
deriving DecidableEq, Repr

/-- The reading of arguments for one command. A value in an argument of its own is held back until
the next flag or input is read, or the end: a command behind it is read first. -/
structure Reading where
  given : Given := {}
  held : Option (Argument × String) := none
  expected : Expected := .any
deriving DecidableEq, Repr

namespace Reading

/-- What was given, with the value that is held back. -/
def settled (reading : Reading) : Except RequestError Given :=
  match reading.held with
  | none => .ok reading.given
  | some (argument, value) => reading.given.setValue value argument

/-- A long name, without its dashes, and what stands behind an equals sign in it. -/
def readName (command : Command) (given : Given) (chars : List Char) :
    Except RequestError Reading :=
  let name := chars.takeWhile (· ≠ '=')
  match Argument.ofName? command name, chars.drop name.length with
  | none, _ => .error .usage
  | some argument, [] =>
    if argument.takesValue then .ok { given, expected := .valueOf argument }
    else return { given := ← given.turnOn (.command command true) argument }
  | some argument, _ :: value =>
    return { given := ← given.setValue (String.ofList value) argument }

/-- Letters behind one dash. -/
def readLetters (command : Command) (given : Given) : List Char → Except RequestError Reading
  | [] => .ok { given }
  | letter :: rest =>
    match Argument.ofLetter? command letter with
    | none => .error .usage
    | some argument =>
      if argument.takesValue then
        match rest with
        | [] => .ok { given, expected := .valueOf argument }
        | '=' :: value | value =>
          return { given := ← given.setValue (String.ofList value) argument }
      else do readLetters command (← given.turnOn (.command command false) argument) rest

/-- An argument that is no name and no value is the input, which only a conversion has. -/
def readPlain (command : Command) (reading : Reading) (argument : String) :
    Except RequestError Reading :=
  match command with
  | .program => .error .usage
  | .convert =>
    return { given := ← (← reading.settled).setInput argument, expected := reading.expected }

def step (command : Command) (reading : Reading) (argument : String) :
    Except RequestError Reading :=
  match reading.expected, argument.toList with
  | .plain, _ => readPlain command reading argument
  | .valueOf _, '-' :: _ :: _ => .error .usage
  | .valueOf awaited, _ => .ok { given := reading.given, held := some (awaited, argument) }
  | .any, ['-', '-'] => .ok { reading with expected := .plain }
  | .any, '-' :: '-' :: name => do readName command (← reading.settled) name
  | .any, '-' :: letter :: letters => do
    readLetters command (← reading.settled) (letter :: letters)
  | .any, _ => readPlain command reading argument

/-- What was given, unless a value is missing at the end. -/
def finish (reading : Reading) : Except RequestError Given :=
  match reading.expected with
  | .valueOf _ => .error .usage
  | .any | .plain => reading.settled

end Reading

namespace Request

/-- The arguments of `convert`, with what the program itself was given before it. Of two values for
one argument the command's own counts. -/
def ofConvert (before : Reading) (arguments : List String) : Except RequestError Request := do
  let inner ← (← arguments.foldlM (Reading.step .convert) {}).finish
  let outer ← before.settled
  match inner.input with
  | none => .error .usage
  | some input =>
    return {
      listFormats := outer.listFormats || inner.listFormats
      settingsPath := inner.settingsPath <|> outer.settingsPath
      conversion := some { input, format := inner.format, output := inner.output } }

/-- The arguments behind the command that asks for help. -/
def ofHelp : List String → RequestError
  | [] => .help (.command .program true)
  | ["convert"] => .help (.command .convert true)
  | ["help"] => .help .help
  | _ => .usage

/-- The arguments of the program up to its command. It has to be given something. -/
def ofProgram (reading : Reading) : List String → Except RequestError Request
  | [] => do
    let given ← reading.finish
    if given = {} then .error .usage
    else return { listFormats := given.listFormats, settingsPath := given.settingsPath }
  | argument :: rest =>
    if argument = "convert" ∧ reading.expected = .any then ofConvert reading rest
    else if argument = "help" ∧ reading.expected = .any then .error (ofHelp rest)
    else do ofProgram (← reading.step .program argument) rest

/-- A first argument that is neither a flag nor a command is the input of a conversion. -/
def impliesConvert : List String → Bool
  | [] => false
  | first :: _ => first.toList.head? ≠ some '-' && ¬ ["convert", "help"].contains first

/-- Reads arguments. The command may be left out if the input comes first. -/
def read (arguments : List String) : Except RequestError Request :=
  match ofProgram {} arguments with
  | .ok request => .ok request
  | .error error =>
    if impliesConvert arguments then ofProgram {} ("convert" :: arguments) else .error error

example : (read ["-v", "convert", "-vo=x", "in", "--to="]).toOption =
    some { conversion := some { input := "in", format := some "", output := some "x" } } := by
  decide +kernel

example : (read ["a", "--config", "b"]).toOption =
    some { settingsPath := some "b", conversion := some { input := "a" } } := by
  decide +kernel

example : (read ["--config", "convert", "a"]).toOption = none := by decide +kernel

example : read ["a", "-o", "b", "-vh", "-o", "c"] = .error (.help (.command .convert false)) :=
  rfl

end Request

end MarkupExport
