import MarkupExport.Settings.Basic

/-!
Extra parameters. They are taken out of the arguments before anything else is read from these, and
change settings for one run.
-/

namespace MarkupExport

/-- The arguments without extra parameters, and the parameters with their values by name. -/
structure Extras where
  plain : List String := []
  values : List (String × String) := []
deriving DecidableEq, Repr

namespace Extras

def isFlag (argument : String) : Bool :=
  argument.toList.head? = some '-'

/-- What follows the first list in the second. -/
def after? : List Char → List Char → Option (List Char)
  | [], chars => some chars
  | _ :: _, [] => none
  | first :: start, char :: chars => if first = char then after? start chars else none

/-- The parameter that an argument names. -/
def name? (argument : String) : Option String :=
  (after? "--extra-".toList argument.toList <|> after? "--extras-".toList argument.toList).map
    String.ofList

def addPlain (extras : Extras) (argument : String) : Extras :=
  { extras with plain := argument :: extras.plain }

/-- Adds a value in front of those found later in the arguments, which are kept. -/
def addValue (extras : Extras) (name value : String) : Extras :=
  { extras with values := Ascending.insertNew name value extras.values }

/-- Takes out the parameters. The argument after one is its value unless it is a flag, and without
a value it is turned on; of two values for one parameter the later counts. -/
def split : List String → Extras
  | [] => {}
  | argument :: rest =>
    match name? argument with
    | none => (split rest).addPlain argument
    | some name =>
      match rest with
      | [] => ({} : Extras).addValue name "true"
      | value :: others =>
        if isFlag value then (split (value :: others)).addValue name "true"
        else (split others).addValue name value

example : split ["a", "--extra-x", "1", "--extras-x", "-b"] =
    { plain := ["a", "-b"], values := [("x", "true")] } := by
  decide +kernel

end Extras

/-! ## Changing settings -/

/-- The value of a parameter that is on or off is no word for either. -/
structure FlagError where
  flag : String
  value : String
deriving DecidableEq, Repr

def FlagError.message (error : FlagError) : String :=
  "Invalid boolean value '" ++ Text.lowercase error.value ++ "' for --extra-" ++ error.flag

/-- Values of parameters by name, in the order of the names. -/
abbrev ExtraValues := List (String × String)

namespace ExtraValues

/-- The value under the first of these names that has one, and the values left without it. -/
def take? (values : ExtraValues) : List String → Option (String × ExtraValues)
  | [] => none
  | name :: names =>
    match values.lookup name with
    | some value => some (value, Ascending.erase name values)
    | none => take? values names

def flag (name value : String) : Except FlagError Bool :=
  let word := Text.lowercase value
  if ["true", "1", "yes", "y"].contains word then .ok true
  else if ["false", "0", "no", "n"].contains word then .ok false
  else .error { flag := name, value }

/-- Takes out a parameter that is on or off, if it is there. -/
def takeFlag (values : ExtraValues) (name : String) (names : List String) (otherwise : Bool) :
    Except FlagError (Bool × ExtraValues) := do
  match values.take? names with
  | none => return (otherwise, values)
  | some (value, rest) => return (← flag name value, rest)

/-- Changes settings by the parameters that belong to them, each of which has two names. The
parameters left over belong to none. -/
def change (values : ExtraValues) (settings : Settings) :
    Except FlagError (Settings × ExtraValues) := do
  let options := settings.options
  let (bodyOnly, values) ←
    values.takeFlag "body-only" ["body-only", "body_only"] options.bodyOnly
  let (visibleOnly, values) ←
    values.takeFlag "visible-only" ["visible-only", "visible_only"] options.visibleOnly
  let (asynchronous, values) ←
    values.takeFlag "async" ["async", "asynchronous"] options.asynchronous
  let (extension, values) :=
    match values.take? ["extension", "ext"] with
    | none => (options.extension, values)
    | some (value, rest) => (some value, rest)
  return ({ settings with options := { bodyOnly, visibleOnly, asynchronous, extension } }, values)

end ExtraValues

end MarkupExport
