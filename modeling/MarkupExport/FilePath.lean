/-!
File paths, taken apart as text. A path is a list of parts between slashes, of which empty ones and
dots mean nothing. The last part names a file unless it leads upwards, and the text after the last
dot in a name, if that is not its first character, is its extension.
-/

namespace MarkupExport.FilePath

/-- The parts that say something. -/
def parts (path : List Char) : List (List Char) :=
  (path.splitOn '/').filter fun part => part ≠ [] ∧ part ≠ ['.']

def fileName? (path : List Char) : Option (List Char) :=
  match (parts path).getLast? with
  | some name => if name = ['.', '.'] then none else some name
  | none => none

/-- What stands before and after the last dot, if there is one after the first character. -/
def splitName (name : List Char) : List Char × Option (List Char) :=
  let extension := (name.reverse.takeWhile (· ≠ '.')).reverse
  let stem := name.take (name.length - extension.length - 1)
  if stem = [] ∨ ¬ name.contains '.' then (name, none) else (stem, some extension)

def stem? (path : String) : Option String :=
  (fileName? path.toList).map fun name => String.ofList (splitName name).1

def extension? (path : String) : Option String :=
  (fileName? path.toList).bind fun name => (splitName name).2.map String.ofList

/-- Drops slashes, and dots behind them, from the end of a path that is given backwards. -/
def dropEmptyParts : List Char → List Char
  | '/' :: rest => dropEmptyParts rest
  | '.' :: '/' :: rest => dropEmptyParts rest
  | path => path

/-- The path of the file beside this one whose name goes on with `ending`. -/
def withEnding? (path ending : String) : Option String :=
  (fileName? path.toList).map fun _ =>
    String.ofList (dropEmptyParts path.toList.reverse).reverse ++ ending

/-- The path of a name inside a directory. -/
def join (directory name : String) : String :=
  if name.toList.head? = some '/' then name
  else if directory = "" ∨ directory.toList.getLast? = some '/' then directory ++ name
  else directory ++ "/" ++ name

example : extension? "a/post.tar.gz/." = some "gz" ∧ stem? "a/post.tar.gz" = some "post.tar" := by
  decide +kernel

example : extension? ".json" = none ∧ extension? "a." = some "" ∧ stem? "a/.." = none := by
  decide +kernel

example : withEnding? "a/b/./" ".c" = some "a/b.c" ∧ withEnding? "." ".c" = none := by
  decide +kernel

end MarkupExport.FilePath
