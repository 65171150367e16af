/-! What a program may do with files, and how it can fail. -/

namespace MarkupExport

inductive FileError where
  | notFound
  | notDirectory
  | isDirectory
  | other (description : String)
deriving DecidableEq, Repr

def FileError.message : FileError → String
  | .notFound => "No such file or directory (os error 2)"
  | .notDirectory => "Not a directory (os error 20)"
  | .isDirectory => "Is a directory (os error 21)"
  | .other description => description

/-- The operations on files by path, in the monad that carries them out. -/
structure FileAccess (m : Type → Type) where
  isFile : String → m Bool
  isDirectory : String → m Bool
  read : String → m (Except FileError String)
  /-- Replaces the text of a file, which is created if its directory exists. -/
  write : String → String → m (Except FileError Unit)

end MarkupExport
