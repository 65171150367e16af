import MarkupExport.Ascending
import MarkupExport.Number.Double
import MarkupExport.Toml.Moment

/-! TOML values. A table lists its entries in ascending order of their names. -/

namespace MarkupExport

inductive Toml where
  | bool (value : Bool)
  | int (value : Int64)
  | float (value : Double)
  | text (value : String)
  | moment (value : Moment)
  | array (items : List Toml)
  | table (entries : List (String × Toml))

namespace Toml

/-- A name behind the names of the tables that lead to it. -/
structure Key where
  path : List String := []
  name : String
deriving DecidableEq, Repr

def Key.ofNames (first : String) : List String → Key
  | [] => { name := first }
  | second :: rest =>
    let key := Key.ofNames second rest
    { key with path := first :: key.path }

def Key.names (key : Key) : List String :=
  key.path ++ [key.name]

end Toml

end MarkupExport
