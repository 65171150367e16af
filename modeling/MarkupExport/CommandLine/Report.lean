import MarkupExport.CommandLine.Extra
import MarkupExport.CommandLine.Request
import MarkupExport.Export.Error
import MarkupExport.File.Access
import MarkupExport.Format.Basic

/-!
What a run of the program tells. It ends well with the text that it prints, or with one error; only
arguments that ask for no run exit with two, and every other error with one.
-/

namespace MarkupExport

inductive RunError where
  | usage
  | unloadableSettings (error : SettingsError)
  | flag (error : FlagError)
  | unknownExtra (name : String)
  | noCommand
  | unknownFormat (error : FormatError)
  | unreadableFile (path : String) (error : FileError)
  | unreadableTree (path : String)
  | serialization (error : FormatError)
  | unwritableFile (path : String) (error : FileError)
deriving DecidableEq

namespace RunError

def exitCode : RunError → Nat
  | usage => 2
  | _ => 1

/-- The line that is printed, if there is one. -/
def message? : RunError → Option String
  | usage => none
  | unloadableSettings error => some ("Failed to load configuration: " ++ error.message)
  | flag error => some error.message
  | unknownExtra name => some ("Unknown extra parameter '--extra-" ++ name ++ "'")
  | noCommand => some "Unknown subcommand. Use --help for usage information."
  | unknownFormat error => some ("Error: " ++ error.message)
  | unreadableFile path error =>
    some ("Error reading file '" ++ path ++ "': " ++ error.message)
  | unreadableTree path =>
    some ("Error reading document tree '" ++ path ++ "': " ++ FormatError.unreadableTree.message)
  | serialization error => some ("Serialization error: " ++ error.message)
  | unwritableFile path error =>
    some ("Error writing file '" ++ path ++ "': " ++ error.message)

end RunError

structure Report where
  exitCode : Nat
  output : String := ""
  errors : String := ""
deriving DecidableEq, Repr

def Report.ofOutcome : Except RunError String → Report
  | .ok output => { exitCode := 0, output }
  | .error error =>
    { exitCode := error.exitCode, errors := (error.message?.map (· ++ "\n")).getD "" }

end MarkupExport
