import MarkupExport.Export.Transcode
import MarkupExport.Profile.Bbcode
import MarkupExport.Profile.Html

/-! Formats: profiles under a name, with the extensions of the files that hold their output. -/

namespace MarkupExport

/-- The text of a tree under a profile. -/
def Profile.serialize (profile : Profile) (tree : Node) (options : ExportOptions) :
    Except FormatError String :=
  match MarkupExport.transcode tree options profile with
  | .ok text => .ok text
  | .error error => .error (.transcode error)

/-- A format may write trees in a way of its own, and otherwise follows its profile. -/
structure Format where
  name : String
  description : String := ""
  extensions : List String := []
  profile : Profile
  serialize : Node → ExportOptions → Except FormatError String := profile.serialize

namespace Format

def html : Format where
  name := "html"
  description := "HTML fragment for blog engines"
  extensions := ["html", "htm"]
  profile := .html

def bbcode : Format where
  name := "bbcode"
  description := "Forum BBCode"
  extensions := ["bbcode", "bb"]
  profile := .bbcode

/-- The extension of output files: the one asked for, without dots in front, or the format's
first, or its name. -/
def outputExtension (format : Format) (options : ExportOptions) : String :=
  match options.extension with
  | some extension => String.ofList (extension.toList.dropWhile (· = '.'))
  | none => format.extensions.head?.getD format.name

end Format

/-- The wording of an error; of what is wrong with a tree it says nothing. -/
def FormatError.message : FormatError → String
  | .formatNotFound name => "Format '" ++ name ++ "' not found"
  | .unreadableTree => "Parse error:"
  | .transcode error => "Transcode error: " ++ error.message

/-- A footnote is numbered and listed also where it refers to itself. -/
example :
    let reference : Node :=
      { kind := .footnoteReference, properties := [("label", .text "n")] }
    let definition : Node :=
      { kind := .footnoteDefinition, children := [.text "see ", reference],
        properties := [("label", .text "n")] }
    (transcode { kind := .document, children := [reference, definition] } {} .bbcode).toOption =
      some "^1 [b][u]# Footnotes[/u][/b]\n\n^1: see ^1\n" := by
  decide +kernel

end MarkupExport
