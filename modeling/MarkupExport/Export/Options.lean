import MarkupExport.Json.Parser

/-!
Export options. As JSON they are an object with one member per option, of which only the
extension may be missing, or an array of all four in order; unknown members are passed over.
-/

namespace MarkupExport

structure ExportOptions where
  /-- Leave out the document's surrounding tag. -/
  bodyOnly : Bool := false
  /-- Leave out nodes that are marked as hidden. -/
  visibleOnly : Bool := false
  /-- The extension of output files, in place of the format's first. -/
  extension : Option String := none
  /-- Hand the export over without waiting for it. Nothing in the output depends on it. -/
  asynchronous : Bool := false
deriving DecidableEq, Repr

namespace ExportOptions

/-- The members that have been met. -/
structure Fields where
  bodyOnly : Option Bool := none
  visibleOnly : Option Bool := none
  extension : Option (Option String) := none
  asynchronous : Option Bool := none

def bool? : Json → Option Bool
  | .bool value => some value
  | _ => none

def extension? : Json → Option (Option String)
  | .null => some none
  | .text (some value) => some (some value)
  | _ => none

def Fields.add? (fields : Fields) : Option String × Json → Option Fields
  | (none, _) => none
  | (some "body_only", value) => do
    guard fields.bodyOnly.isNone
    return { fields with bodyOnly := ← bool? value }
  | (some "visible_only", value) => do
    guard fields.visibleOnly.isNone
    return { fields with visibleOnly := ← bool? value }
  | (some "extension", value) => do
    guard fields.extension.isNone
    return { fields with extension := ← extension? value }
  | (some "asynchronous", value) => do
    guard fields.asynchronous.isNone
    return { fields with asynchronous := ← bool? value }
  | (some _, _) => some fields

def Fields.options? (fields : Fields) : Option ExportOptions := do
  return { bodyOnly := ← fields.bodyOnly, visibleOnly := ← fields.visibleOnly,
           extension := fields.extension.getD none, asynchronous := ← fields.asynchronous }

def ofJson? : Json → Option ExportOptions
  | .object members => (members.foldlM Fields.add? {}).bind Fields.options?
  | .array [bodyOnly, visibleOnly, extension, asynchronous] => do
    return { bodyOnly := ← bool? bodyOnly, visibleOnly := ← bool? visibleOnly,
             extension := ← extension? extension, asynchronous := ← bool? asynchronous }
  | _ => none

def read? (text : String) : Option ExportOptions :=
  (Json.parse? text).bind ofJson?

end ExportOptions

end MarkupExport
