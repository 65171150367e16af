import MarkupExport.Proofs.Settings.Merge

/-!
What comes to stand in one section of the settings. Every entry of a document is put in at a path,
which is its name or what its name spells. Written out as nested tables, the entry says which values
it gives to the members of the section, and these are what prevails there afterwards.
-/

namespace MarkupExport

/-- A value that lies a step further in. -/
def PathStep.wrap : PathStep → SettingValue → SettingValue
  | .name text, value => .table [(text, value)]
  | .place _, value => .array [value]

namespace SettingPath

/-- The path that an entry of a document is put in at. -/
def ofName (name : String) : SettingPath :=
  (parse? name).getD { root := name }

/-- The value at the end of the path, written out as the entry of a document. -/
def entry (path : SettingPath) (value : SettingValue) : String × SettingValue :=
  (path.root, path.steps.foldr PathStep.wrap value)

end SettingPath

namespace SettingValue

/-- The entries of a document, those that spell paths written out. -/
def writtenOut (document : List (String × SettingValue)) : List (String × SettingValue) :=
  document.map fun entry => (SettingPath.ofName entry.1).entry entry.2

/-- The values that a document gives to a member of a section. -/
def givenTo (place member : String) (document : List (String × SettingValue)) :
    List SettingValue :=
  (named place document).flatMap fun value => named member value.entries

theorem givenTo_cons (place member : String) (entry : String × SettingValue)
    (document : List (String × SettingValue)) :
    givenTo place member (entry :: document) =
      givenTo place member [entry] ++ givenTo place member document := by
  rw [givenTo, givenTo, givenTo, ← List.flatMap_append, named_cons, named_cons]
  split <;> rfl

def isTable : SettingValue → Bool
  | table _ => true
  | _ => false

theorem exists_of_isTable {value : SettingValue} (isTable : value.isTable = true) :
    ∃ entries, value = table entries := by
  cases value with
  | table entries => exact ⟨entries, rfl⟩
  | _ => cases isTable

/-- Whatever the document has under this name is a table. -/
def HasTable (place : String) (document : List (String × SettingValue)) : Prop :=
  ∀ entry ∈ document, Text.lowercase entry.1 = place → entry.2.isTable = true

instance (place : String) (document : List (String × SettingValue)) :
    Decidable (HasTable place document) :=
  inferInstanceAs (Decidable (∀ entry ∈ document, _ → _))

/-! ## One value at a path -/

/-- What is found at a place once a value has been put in some steps further in. -/
def placed (value : SettingValue) (steps : List PathStep) (present : Option SettingValue) :
    SettingValue :=
  match steps with
  | [] => value.laidOver present
  | step :: steps => putAt value step steps (present.getD absent)

theorem putAt_name (value target : SettingValue) (name : String) (steps : List PathStep) :
    putAt value (.name name) steps target = table (Ascending.insert (Text.lowercase name)
      (value.placed steps (target.entries.lookup (Text.lowercase name))) target.entries) := by
  cases steps with
  | nil => rw [putAt, put_eq, placed]
  | cons => rw [putAt, placed]

theorem isContainer_putAt (value target : SettingValue) (step : PathStep)
    (steps : List PathStep) : (putAt value step steps target).isContainer = true := by
  cases step with
  | name name =>
      rw [putAt_name]
      rfl
  | place index => cases steps <;> rw [putAt] <;> rfl

theorem isVoid_wrap (step : PathStep) (value : SettingValue) :
    (step.wrap value).isVoid = false := by
  cases step <;> rfl

theorem isContainer_wrap (step : PathStep) (value : SettingValue) :
    (step.wrap value).isContainer = true := by
  cases step <;> rfl

theorem Holds.placed {found : Option SettingValue} {values : List SettingValue}
    (holds : Holds found values) (value : SettingValue) (steps : List PathStep) :
    Holds (some (value.placed steps found)) (values ++ [steps.foldr PathStep.wrap value]) := by
  cases steps with
  | nil => exact holds.append value
  | cons step steps =>
      rw [List.foldr_cons, Holds, prevailing_append (isVoid_wrap ..)]
      exact .some (.inr ⟨isContainer_putAt .., isContainer_wrap ..⟩)

/-! ## A member of a section -/

/-- The section is there, and in it what prevails among the values. -/
def HoldsAt (place member : String) (target : SettingValue) (values : List SettingValue) : Prop :=
  ∃ members, target.entries.lookup place = some (table members) ∧
    Holds (members.lookup member) values

theorem holds_insert {member name : String} {value found : SettingValue}
    {members : List (String × SettingValue)} {values : List SettingValue}
    (holds : Holds (members.lookup member) values)
    (inserted : Holds (members.lookup (Text.lowercase name)) values →
      Holds (some found) (values ++ [value])) :
    Holds ((Ascending.insert (Text.lowercase name) found members).lookup member)
      (values ++ named member [(name, value)]) := by
  rw [Ascending.lookup_insert, named_cons]
  by_cases same : Text.lowercase name = member
  · subst same
    rw [if_pos rfl, if_pos rfl]
    exact inserted holds
  · rw [if_neg same, if_neg fun equal => same equal.symm]
    simpa [named] using holds

/-- Putting a value into a section gives it what the written out entry says. -/
theorem exists_placed {member : String} {members entries : List (String × SettingValue)}
    {values : List SettingValue} (holds : Holds (members.lookup member) values)
    {value : SettingValue} {steps : List PathStep}
    (isTable : steps.foldr PathStep.wrap value = table entries) :
    ∃ others, value.placed steps (some (table members)) = table others ∧
      Holds (others.lookup member) (values ++ named member entries) := by
  cases steps with
  | nil =>
      rw [List.foldr_nil] at isTable
      rcases exists_putAll entries members with ⟨others, equal⟩
      refine ⟨others, by rw [isTable, placed, laidOver, Option.getD_some, equal], ?_⟩
      have found := lookup_putAll entries (table members) member
      rw [equal, SettingValue.entries, SettingValue.entries] at found
      rw [found]
      exact holds.overAll _
  | cons step steps =>
      cases step with
      -- A place would make the section an array.
      | place index => cases isTable
      | name name =>
          rw [List.foldr_cons, PathStep.wrap, table.injEq] at isTable
          subst isTable
          rw [placed, putAt_name]
          exact ⟨_, rfl, holds_insert holds fun holds => holds.placed value steps⟩

theorem givenTo_singleton (place member : String) (entry : String × SettingValue) :
    givenTo place member [entry] =
      if Text.lowercase entry.1 = place then named member entry.2.entries else [] := by
  rw [givenTo, named_cons]
  split
  · rw [List.flatMap_cons]
    exact List.append_nil _
  · rfl

theorem HoldsAt.putPath {place member : String} {target : SettingValue}
    {values : List SettingValue} (holds : HoldsAt place member target values)
    (path : SettingPath) (value : SettingValue)
    (isTable : Text.lowercase path.root = place → (path.entry value).2.isTable = true) :
    HoldsAt place member (target.putPath path value)
      (values ++ givenTo place member [path.entry value]) := by
  rcases holds with ⟨members, isSection, holds⟩
  rw [HoldsAt, SettingValue.putPath, putAt_name, givenTo_singleton, SettingValue.entries]
  simp only [Ascending.lookup_insert]
  by_cases same : Text.lowercase path.root = place
  · rcases exists_of_isTable (isTable same) with ⟨entries, written⟩
    rcases exists_placed holds written with ⟨others, equal, holds⟩
    refine ⟨others, by rw [if_pos same.symm, same, isSection, equal], ?_⟩
    have here : Text.lowercase (path.entry value).1 = place := same
    rwa [if_pos here, written, SettingValue.entries]
  · refine ⟨members, by rwa [if_neg fun equal => same equal.symm], ?_⟩
    have elsewhere : Text.lowercase (path.entry value).1 ≠ place := same
    rwa [if_neg elsewhere, List.append_nil]

theorem putDocument_cons (target : SettingValue) (entry : String × SettingValue)
    (document : List (String × SettingValue)) :
    target.putDocument (entry :: document) =
      (target.putPath (SettingPath.ofName entry.1) entry.2).putDocument document := by
  rcases entry with ⟨name, value⟩
  rw [SettingValue.putDocument, List.foldl_cons, SettingValue.putDocument, SettingPath.ofName]
  cases read : SettingPath.parse? name with
  | some path => simp only [read, Option.getD_some]
  | none => simp only [read, Option.getD_none, SettingValue.putPath, putAt]

theorem HoldsAt.putDocument {place member : String} {target : SettingValue}
    {values : List SettingValue} (holds : HoldsAt place member target values)
    {document : List (String × SettingValue)} (hasTable : HasTable place (writtenOut document)) :
    HoldsAt place member (target.putDocument document)
      (values ++ givenTo place member (writtenOut document)) := by
  induction document generalizing target values with
  | nil => rwa [writtenOut, List.map_nil, givenTo, named, List.filter_nil, List.map_nil,
      List.flatMap_nil, List.append_nil]
  | cons entry document induction =>
      rcases List.forall_mem_cons.mp hasTable with ⟨isTable, inRest⟩
      rw [writtenOut, List.map_cons, putDocument_cons, givenTo_cons, ← List.append_assoc]
      exact induction (holds.putPath _ _ isTable) inRest

theorem HoldsAt.putDocuments {place member : String} {target : SettingValue}
    {values : List SettingValue} (holds : HoldsAt place member target values)
    {documents : List (List (String × SettingValue))}
    (hasTable : ∀ document ∈ documents, HasTable place (writtenOut document)) :
    HoldsAt place member (documents.foldl SettingValue.putDocument target)
      (values ++ documents.flatMap fun document => givenTo place member (writtenOut document)) := by
  induction documents generalizing target values with
  | nil => rwa [List.flatMap_nil, List.append_nil]
  | cons document documents induction =>
      rcases List.forall_mem_cons.mp hasTable with ⟨isTable, inRest⟩
      rw [List.foldl_cons, List.flatMap_cons, ← List.append_assoc]
      exact induction (holds.putDocument isTable) inRest

end SettingValue

end MarkupExport
