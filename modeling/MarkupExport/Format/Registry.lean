import MarkupExport.FilePath
import MarkupExport.Format.Basic

/-!
Registries of formats. A name stands for the format registered under it last, and the names are
kept in ascending order.
-/

namespace MarkupExport

structure FormatRegistry where
  entries : List (String × Format) := []
  ascending_entries : Ascending.IsAscending entries := by exact List.Pairwise.nil

namespace FormatRegistry

def register (registry : FormatRegistry) (format : Format) : FormatRegistry where
  entries := Ascending.insert format.name format registry.entries
  ascending_entries := Ascending.isAscending_insert registry.ascending_entries

/-- The registry of the built-in formats. -/
def standard : FormatRegistry :=
  (FormatRegistry.register {} .html).register .bbcode

def names (registry : FormatRegistry) : List String :=
  Ascending.keys registry.entries

def get (registry : FormatRegistry) (name : String) : Except FormatError Format :=
  match registry.entries.lookup name with
  | some format => .ok format
  | none => .error (.formatNotFound name)

def formats (registry : FormatRegistry) : List Format :=
  registry.entries.map Prod.snd

/-- The name of the first of these formats that lists the extension of a file. -/
def detectAmong? (formats : List Format) (path : String) : Option String :=
  match FilePath.extension? path with
  | none => none
  | some extension =>
    (formats.find? fun format => format.extensions.contains extension).map Format.name

def detect? (registry : FormatRegistry) (path : String) : Option String :=
  detectAmong? registry.formats path

def serialize (registry : FormatRegistry) (name : String) (tree : Node)
    (options : ExportOptions) : Except FormatError String := do
  (← registry.get name).serialize tree options

example : standard.names = ["bbcode", "html"] := by decide +kernel

example : standard.detect? "posts/page.htm" = some "html" := by decide +kernel

end FormatRegistry

end MarkupExport
