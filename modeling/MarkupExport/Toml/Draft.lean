import MarkupExport.Toml.Basic

/-!
Documents as they grow, statement by statement. A name is given a value once, and how a table came
about decides in which way it may still grow.
-/

namespace MarkupExport.Toml

/-- A table is declared by a header or as a value, or it comes about because a header or a dotted
name leads through it. -/
inductive Origin where
  | declared
  | header
  | dotted
deriving DecidableEq, Repr

inductive Draft where
  | leaf (value : Toml)
  | table (origin : Origin) (entries : List (String × Draft))
  /-- A list of tables, of which the last one grows. -/
  | tables (earlier : List Draft) (last : Draft)

namespace Draft

def empty : Draft :=
  .table .declared []

/-- Changes the table at the end of a path. Tables that are missing on the way come about with
this origin; a dotted name does not lead through a declared table. -/
def within (origin : Origin) (change : Draft → Option Draft) : List String → Draft → Option Draft
  | [], found => change found
  | name :: path, .table own entries => do
    let inner ←
      match entries.lookup name with
      | none => within origin change path (.table origin [])
      | some (.leaf _) => none
      | some (.table other members) =>
        if origin = .dotted ∧ other = .declared then none
        else within origin change path (.table other members)
      | some (.tables earlier last) =>
        (within origin change path last).map (.tables earlier)
    return .table own (Ascending.insert name inner entries)
  | _ :: _, .leaf _ | _ :: _, .tables _ _ => none

/-- Gives a name a value. Names without dots belong to tables that did not come about by dots. -/
def assign (key : Key) (value : Toml) : Draft → Option Draft :=
  within .dotted (fun
    | .table origin entries => do
      guard (origin = .dotted ↔ key.path ≠ [])
      guard (entries.lookup key.name).isNone
      return .table origin (Ascending.insert key.name (.leaf value) entries)
    | _ => none) key.path

/-- Declares a table, which headers may have led through before. -/
def declare (key : Key) : Draft → Option Draft :=
  within .header (fun
    | .table origin entries => do
      let members ←
        match entries.lookup key.name with
        | none => some []
        | some (.table .header members) => some members
        | some _ => none
      return .table origin (Ascending.insert key.name (.table .declared members) entries)
    | _ => none) key.path

/-- Adds a table to a list of tables. -/
def append (key : Key) : Draft → Option Draft :=
  within .header (fun
    | .table origin entries => do
      let grown ←
        match entries.lookup key.name with
        | none => some (.tables [] empty)
        | some (.tables earlier last) => some (.tables (earlier ++ [last]) empty)
        | some _ => none
      return .table origin (Ascending.insert key.name grown entries)
    | _ => none) key.path

mutual

def close : Draft → Toml
  | .leaf value => value
  | .table _ entries => .table (closeEntries entries)
  | .tables earlier last => .array (closeAll earlier ++ [last.close])

def closeEntries : List (String × Draft) → List (String × Toml)
  | [] => []
  | (name, draft) :: rest => (name, draft.close) :: closeEntries rest

def closeAll : List Draft → List Toml
  | [] => []
  | draft :: rest => draft.close :: closeAll rest

end

end Draft

/-! ## Statements -/

inductive Statement where
  | assign (key : Key) (value : Toml)
  | declare (key : Key)
  | append (key : Key)

/-- The document so far, and the path of the table that assignments go to. -/
structure Progress where
  draft : Draft := .empty
  path : List String := []

def Progress.step (progress : Progress) : Statement → Option Progress
  | .assign key value => do
    let draft ← Draft.within .header (Draft.assign key value) progress.path progress.draft
    return { progress with draft }
  | .declare key => do
    return { draft := ← progress.draft.declare key, path := key.names }
  | .append key => do
    return { draft := ← progress.draft.append key, path := key.names }

def ofStatements? (statements : List Statement) : Option Toml :=
  (statements.foldlM Progress.step {}).map fun progress => progress.draft.close

/-- The table that these assignments fill. -/
def ofAssignments? (assignments : List (Key × Toml)) : Option Toml :=
  (assignments.foldlM (fun (draft : Draft) (key, value) => draft.assign key value) Draft.empty).map
    Draft.close

example :
    (ofStatements? [.assign { name := "a" } (.int 1), .assign { name := "a" } (.int 2)]).isNone :=
  rfl

example : (ofStatements? [.declare { path := ["a"], name := "b" }, .declare { name := "a" },
    .assign { path := ["c"], name := "d" } (.int 1)]).isSome := by
  decide +kernel

end MarkupExport.Toml
