import MarkupExport.Settings.Path
import MarkupExport.Settings.Value

/-!
Putting values into tables of settings. Names are compared in lower case. A table is put in entry
by entry, so that what it does not mention stays, and any other value replaces what was there.
-/

namespace MarkupExport.SettingValue

mutual

/-- Puts a value under a name of the target, which becomes a table if it is none. -/
def put (name : String) : SettingValue → SettingValue → SettingValue
  | table incoming, target =>
    let name := Text.lowercase name
    let present := (target.entries.lookup name).getD (table [])
    table (Ascending.insert name (putAll incoming present) target.entries)
  | value, target => table (Ascending.insert (Text.lowercase name) value target.entries)

def putAll : List (String × SettingValue) → SettingValue → SettingValue
  | [], target => target
  | (name, value) :: rest, target => putAll rest (put name value target)

end

/-- Changes one item of a list, which grows as far as it must: at the end, or at the front for a
place counted from the end. -/
def changeAt (index : Int) (change : SettingValue → SettingValue) (items : List SettingValue) :
    List SettingValue :=
  let place := if index < 0 then items.length + index else index
  let front := List.replicate (-place).toNat absent
  let back := List.replicate (place.toNat + 1 - items.length) absent
  (front ++ items ++ back).modify place.toNat change

/-- Puts a value at the end of a path. What lies on the way becomes a table or an array if it is
none. -/
def putAt (value : SettingValue) : PathStep → List PathStep → SettingValue → SettingValue
  | .name name, [], target => put name value target
  | .name name, step :: steps, target =>
    let name := Text.lowercase name
    let present := (target.entries.lookup name).getD absent
    table (Ascending.insert name (putAt value step steps present) target.entries)
  | .place index, [], target => array (changeAt index (fun _ => value) target.items)
  | .place index, step :: steps, target =>
    array (changeAt index (putAt value step steps) target.items)

def putPath (target : SettingValue) (path : SettingPath) (value : SettingValue) : SettingValue :=
  putAt value (.name path.root) path.steps target

/-- Puts in all entries of a document. Names of its own are read as paths if they can be. -/
def putDocument (target : SettingValue) (document : List (String × SettingValue)) : SettingValue :=
  document.foldl (fun target (name, value) =>
    match SettingPath.parse? name with
    | some path => target.putPath path value
    | none => put name value target) target

end MarkupExport.SettingValue
