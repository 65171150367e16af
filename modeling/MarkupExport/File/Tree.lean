import MarkupExport.File.Access

/-!
Trees of files and directories, in which a program can run without a disk. A path is followed part
by part, and every place on the way has to be a directory.
-/

namespace MarkupExport

/-- A place in a tree: names that lead down from the root, or from the working directory or one of
those above it. -/
structure Location where
  absolute : Bool
  levelsUp : Nat := 0
  names : List (List Char) := []
deriving DecidableEq, Repr

namespace Location

def parent (location : Location) : Location :=
  if location.names = [] then
    if location.absolute then location else { location with levelsUp := location.levelsUp + 1 }
  else { location with names := location.names.dropLast }

/-- Where a part of a path leads to. Empty parts and dots lead nowhere else. -/
def step (location : Location) (part : List Char) : Location :=
  if part = [] ∨ part = ['.'] then location
  else if part = ['.', '.'] then location.parent
  else { location with names := location.names ++ [part] }

/-- Where a path sets out. -/
def start (path : List Char) : Location :=
  { absolute := path.head? = some '/' }

/-- Where a path leads to if it passes through nothing but directories. -/
def ofPath (path : String) : Location :=
  (path.toList.splitOn '/').foldl step (start path.toList)

/-- The location and those above it, as far as it names them. -/
def lineage (location : Location) : List Location :=
  (List.range (location.names.length + 1)).map fun count =>
    { location with names := location.names.take count }

end Location

inductive FileEntry where
  | file (text : String)
  | directory
deriving DecidableEq, Repr

/-- The root and the working directory, with what is above it, always exist. -/
structure FileTree where
  directories : List Location := []
  files : List (Location × String) := []

namespace FileTree

def find? (tree : FileTree) (location : Location) : Option FileEntry :=
  if location.names = [] then some .directory
  else
    match tree.files.lookup location with
    | some text => some (.file text)
    | none => if tree.directories.contains location then some .directory else none

/-- Follows the parts of a path. -/
def walk (tree : FileTree) (location : Location) : List (List Char) → Except FileError Location
  | [] => .ok location
  | part :: rest =>
    match tree.find? location with
    | some .directory => walk tree (location.step part) rest
    | some (.file _) => .error .notDirectory
    | none => .error .notFound

def entry (tree : FileTree) (path : String) : Except FileError FileEntry := do
  if path = "" then .error .notFound
  else
    let location ← tree.walk (.start path.toList) (path.toList.splitOn '/')
    match tree.find? location with
    | some entry => .ok entry
    | none => .error .notFound

def isFile (tree : FileTree) (path : String) : Bool :=
  match tree.entry path with
  | .ok (.file _) => true
  | _ => false

def isDirectory (tree : FileTree) (path : String) : Bool :=
  match tree.entry path with
  | .ok .directory => true
  | _ => false

def read (tree : FileTree) (path : String) : Except FileError String := do
  match ← tree.entry path with
  | .file text => .ok text
  | .directory => .error .isDirectory

def put (tree : FileTree) (location : Location) (text : String) : FileTree :=
  { tree with files := (location, text) :: tree.files.filter fun file => file.1 ≠ location }

/-- Only a path whose last part is a name can be written to. The part before it has to be a
directory. -/
def write (tree : FileTree) (path text : String) : Except FileError FileTree := do
  let parts := path.toList.splitOn '/'
  let named := (parts.reverse.dropWhile (· = [])).reverse
  match named.getLast? with
  | none => if path = "" then .error .notFound else .error .isDirectory
  | some name =>
    let directory ← tree.walk (.start path.toList) (named.dropLast ++ [[]])
    let location := directory.step name
    if named ≠ parts ∨ name = ['.'] ∨ name = ['.', '.'] then .error .isDirectory
    else if tree.find? location = some .directory then .error .isDirectory
    else .ok (tree.put location text)

/-! ## Setting up -/

/-- Adds a directory and those that it lies in. -/
def addDirectory (tree : FileTree) (path : String) : FileTree :=
  { tree with directories := (Location.ofPath path).lineage ++ tree.directories }

/-- Adds a file and the directories that it lies in. -/
def addFile (tree : FileTree) (path text : String) : FileTree :=
  let location := Location.ofPath path
  { tree with directories := location.parent.lineage ++ tree.directories }.put location text

/-! ## Access -/

/-- Access to a tree that the program carries along. -/
def access : FileAccess (StateM FileTree) where
  isFile path := return (← get).isFile path
  isDirectory path := return (← get).isDirectory path
  read path := return (← get).read path
  write path text := do
    match (← get).write path text with
    | .ok tree =>
      set tree
      return .ok ()
    | .error error => return .error error

example :
    let tree := (FileTree.addFile {} "a/x" "1").addDirectory "b"
    (tree.read "b/../a/./x").toOption = some "1" ∧ (tree.read "c/../a/x").toOption = none ∧
      tree.isFile "a/x/" = false ∧ tree.isDirectory "b/." = true := by
  decide +kernel

end FileTree

end MarkupExport
