import MarkupExport.Export.Options
import MarkupExport.Settings.Merge
import MarkupExport.Toml.Reader

/-!
Settings: the options of an export and the format that is used when none is asked for. They are
gathered from built-in values, then from files in their order, then from values given one by one,
and each of these goes over what came before it.
-/

namespace MarkupExport

structure Settings where
  options : ExportOptions
  defaultFormat : String
deriving DecidableEq, Repr

/-- A file of settings with its text, if there is such a file. Only an optional one may be
missing. -/
structure Layer where
  text : Option String
  required : Bool

inductive SettingsError where
  | missingFile
  | malformedFile
  | malformedPath (path : String)
  /-- A setting is missing, or its value is not of the type it has to be. -/
  | unusableValue
deriving DecidableEq, Repr

def SettingsError.message : SettingsError → String
  | .missingFile => "a required file is missing"
  | .malformedFile => "a file is not a TOML document"
  | .malformedPath path => "'" ++ path ++ "' is not a path to a setting"
  | .unusableValue => "a setting is missing or its value is of the wrong type"

namespace Settings

def builtIn : SettingValue :=
  .table [
    ("convert", .table [("default_format", .text "html")]),
    ("export", .table [("asynchronous", .bool false), ("body_only", .bool false),
      ("visible_only", .bool false)])]

/-- The entries of the document that a file holds. A byte order mark in front of it is not part of
the document. -/
def entries? (text : String) : Option (List (String × SettingValue)) :=
  (Toml.read? (String.ofList (Toml.unmarked text.toList))).map fun document =>
    (SettingValue.ofToml document).entries

/-- Puts in a file. -/
def putLayer (target : SettingValue) (layer : Layer) : Except SettingsError SettingValue :=
  match layer.text with
  | none => if layer.required then .error .missingFile else .ok target
  | some text =>
    match entries? text with
    | none => .error .malformedFile
    | some entries => .ok (target.putDocument entries)

/-! ## Reading what was gathered -/

def options? (value : SettingValue) : Option ExportOptions := do
  let bodyOnly ← (← value.member? 0 "body_only").bool?
  let visibleOnly ← (← value.member? 1 "visible_only").bool?
  let asynchronous ←
    match value.member? 2 "asynchronous" with
    | none => some false
    | some value => value.bool?
  let extension ←
    match value.member? 3 "extension" with
    | none | some .absent => some none
    | some value => some <$> value.text?
  return { bodyOnly, visibleOnly, extension, asynchronous }

def ofValue? (value : SettingValue) : Option Settings := do
  let options ← options? (← value.entries.lookup "export")
  let convert ← value.entries.lookup "convert"
  return { options, defaultFormat := ← (← convert.member? 0 "default_format").text? }

end Settings

/-- What settings are loaded from: files in the order in which they go over one another, and values
that are given one by one, at most one for a path. -/
structure Loader where
  layers : List Layer := []
  overrides : List (SettingPath × SettingValue) := []

namespace Loader

def withLayer (loader : Loader) (layer : Layer) : Loader :=
  { loader with layers := loader.layers ++ [layer] }

/-- Gives a value to a path, in place of any that it had been given. -/
def setOverride (loader : Loader) (path : String) (value : SettingValue) :
    Except SettingsError Loader :=
  match SettingPath.parse? path with
  | none => .error (.malformedPath path)
  | some parsed =>
    let others := loader.overrides.filter fun entry => entry.1 ≠ parsed
    .ok { loader with overrides := others ++ [(parsed, value)] }

/-- The values given one by one go over all files, whenever they were given. -/
def gather (loader : Loader) : Except SettingsError SettingValue := do
  let gathered ← loader.layers.foldlM Settings.putLayer Settings.builtIn
  return loader.overrides.foldl (fun target (path, value) => target.putPath path value) gathered

def build (loader : Loader) : Except SettingsError Settings := do
  match Settings.ofValue? (← loader.gather) with
  | some settings => .ok settings
  | none => .error .unusableValue

end Loader

namespace Settings

def load (layers : List Layer) (overrides : List (String × SettingValue)) :
    Except SettingsError Settings := do
  let loader ← overrides.foldlM (fun loader (path, value) => Loader.setOverride loader path value)
    { layers }
  loader.build

def standard : Settings where
  options := {}
  defaultFormat := "html"

example : (load [] [("Export.Extension", .text "md")]).toOption =
    some { standard with options := { extension := some "md" } } := by
  decide +kernel

theorem ofValue?_builtIn : ofValue? builtIn = some standard := by
  decide +kernel

end Settings

end MarkupExport
