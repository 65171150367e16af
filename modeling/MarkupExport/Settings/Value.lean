import MarkupExport.Text.Lowercase
import MarkupExport.Toml.Basic

/-!
Values of settings, before it is known which type is asked for. Truth values, numbers and texts
stand in for each other as far as they can be read as one another.
-/

namespace MarkupExport

inductive SettingValue where
  /-- Fills the places of an array that nothing was put in. -/
  | absent
  | bool (value : Bool)
  | int (value : Int64)
  | float (value : Double)
  | text (value : String)
  | array (items : List SettingValue)
  | table (entries : List (String × SettingValue))

namespace SettingValue

mutual

def ofToml : Toml → SettingValue
  | .bool value => .bool value
  | .int value => .int value
  | .float value => .float value
  | .text value => .text value
  | .moment value => .text value.text
  | .array items => .array (ofItems items)
  | .table entries => .table (ofEntries entries)

def ofItems : List Toml → List SettingValue
  | [] => []
  | item :: rest => ofToml item :: ofItems rest

def ofEntries : List (String × Toml) → List (String × SettingValue)
  | [] => []
  | (name, value) :: rest => (name, ofToml value) :: ofEntries rest

end

/-- The entries of a table. Other values have none. -/
def entries : SettingValue → List (String × SettingValue)
  | table entries => entries
  | _ => []

/-- The items of an array. Other values have none. -/
def items : SettingValue → List SettingValue
  | array items => items
  | _ => []

/-- A member of a section, which lists its members by name or in their order. -/
def member? (place : Nat) (name : String) : SettingValue → Option SettingValue
  | table entries => entries.lookup name
  | array items => items[place]?
  | _ => none

/-- As a truth value: numbers are true unless they are zero, and some words stand for one. -/
def bool? : SettingValue → Option Bool
  | bool value => some value
  | int value => some (value ≠ 0)
  | float value => some (¬ value.isZero)
  | text value =>
    let word := Text.lowercase value
    if ["1", "true", "on", "yes"].contains word then some true
    else if ["0", "false", "off", "no"].contains word then some false
    else none
  | absent | array _ | table _ => none

def text? : SettingValue → Option String
  | text value => some value
  | bool value => some (if value then "true" else "false")
  | int value => some value.toInt.repr
  | float value => some value.text
  | absent | array _ | table _ => none

example : (text "Off").bool? = some false ∧ (float .notANumber).bool? = some true := by
  decide +kernel

end SettingValue

end MarkupExport
