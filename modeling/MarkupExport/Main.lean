import MarkupExport.CommandLine.Program

/-! The program on the files of this machine. -/

namespace MarkupExport

/-- What stopped an operation. -/
def FileError.ofSystem : IO.Error → FileError
  | .noFileOrDirectory .. => .notFound
  | .inappropriateType _ code _ => if code = 21 then .isDirectory else .notDirectory
  | error => .other (toString error)

def attempt (action : IO α) : IO (Except FileError α) := do
  try return .ok (← action)
  catch error => return .error (FileError.ofSystem error)

/-- Access to the files of this machine. -/
def diskAccess : FileAccess IO where
  isFile path := do
    let entry := System.mkFilePath [path]
    return (← entry.pathExists) && ! (← entry.isDir)
  isDirectory path := (System.mkFilePath [path]).isDir
  read path := attempt (IO.FS.readFile path)
  write path text := attempt (IO.FS.writeFile path text)

/-- What a command is for and how it is called. -/
def helpText : HelpPage → String
  | .command .program long =>
    (if long then "scribe renders parsed document trees into a target markup dialect."
      else "Export structured document trees to HTML and BBcode") ++
      "\n\nUsage: scribe [OPTIONS] [COMMAND]\n"
  | .command .convert long =>
    (if long then "Render a parsed document tree into an output format."
      else "Render a document tree into an output format (default command)") ++
      "\n\nUsage: scribe convert [OPTIONS] <input>\n"
  | .help =>
    "Print this message or the help of the given subcommand(s)\n\n" ++
      "Usage: scribe help [COMMAND]...\n"

end MarkupExport

def main (arguments : List String) : IO UInt32 := do
  let report ← MarkupExport.Program.run MarkupExport.diskAccess MarkupExport.helpText arguments
  IO.print report.output
  IO.eprint report.errors
  return UInt32.ofNat report.exitCode
