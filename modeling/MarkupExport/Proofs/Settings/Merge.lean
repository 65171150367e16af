import MarkupExport.Settings.Merge

/-!
What is found under a name once values have been put there one after the other. A value replaces
what was there, except that tables go into each other; so the last value prevails, unless it is a
table without entries, which leaves everything as it was. Which entries a table has then makes no
difference here: nothing that is a table is read as a setting.
-/

namespace MarkupExport.SettingValue

/-! ## One value over another -/

/-- What is found where the value has been put, from what was found there before. -/
def laidOver : SettingValue → Option SettingValue → SettingValue
  | table entries, present => putAll entries (present.getD (table []))
  | value, _ => value

theorem put_eq (name : String) (value target : SettingValue) :
    put name value target = table (Ascending.insert (Text.lowercase name)
      (value.laidOver (target.entries.lookup (Text.lowercase name))) target.entries) := by
  cases value <;> rw [put, laidOver]
  all_goals nofun

/-- A value is put under one name, in lower case, and all others are left alone. -/
theorem lookup_put (name other : String) (value target : SettingValue) :
    (put name value target).entries.lookup other =
      if other = Text.lowercase name then some (value.laidOver (target.entries.lookup other))
      else target.entries.lookup other := by
  rw [put_eq, entries, Ascending.lookup_insert]
  split
  · next same => rw [same]
  · rfl

/-- What is found once these values have been put there in order. -/
def overAll (values : List SettingValue) (present : Option SettingValue) : Option SettingValue :=
  values.foldl (fun present value => some (value.laidOver present)) present

/-- The values that entries give to a name in lower case. -/
def named (name : String) (entries : List (String × SettingValue)) : List SettingValue :=
  (entries.filter fun entry => Text.lowercase entry.1 = name).map Prod.snd

theorem map_snd_filter_cons {Key : Type} (asked : Key → Prop) [DecidablePred asked]
    (entry : Key × SettingValue) (entries : List (Key × SettingValue)) :
    ((entry :: entries).filter fun entry => asked entry.1).map Prod.snd =
      if asked entry.1 then entry.2 :: (entries.filter fun entry => asked entry.1).map Prod.snd
      else (entries.filter fun entry => asked entry.1).map Prod.snd := by
  by_cases holds : asked entry.1 <;> simp [holds]

theorem named_cons (name : String) (entry : String × SettingValue)
    (entries : List (String × SettingValue)) :
    named name (entry :: entries) =
      if Text.lowercase entry.1 = name then entry.2 :: named name entries
      else named name entries :=
  map_snd_filter_cons (Text.lowercase · = name) entry entries

theorem lookup_putAll (entries : List (String × SettingValue)) (target : SettingValue)
    (name : String) :
    (putAll entries target).entries.lookup name =
      overAll (named name entries) (target.entries.lookup name) := by
  induction entries generalizing target with
  | nil => rw [putAll]; rfl
  | cons entry entries induction =>
      rw [putAll, induction, lookup_put, named_cons]
      by_cases same : Text.lowercase entry.1 = name
      · rw [if_pos same, if_pos same.symm]
        rfl
      · rw [if_neg same, if_neg fun equal => same equal.symm]

/-! ## The value that prevails -/

/-- Tables and arrays are not read as settings, whatever they hold. -/
def isContainer : SettingValue → Bool
  | table _ | array _ => true
  | _ => false

/-- The values are the same, or neither can be read as a setting. -/
def Alike (left right : SettingValue) : Prop :=
  left = right ∨ left.isContainer = true ∧ right.isContainer = true

/-- A table without entries. -/
def isVoid : SettingValue → Bool
  | table [] => true
  | _ => false

/-- Of values given in this order, the last one that is no empty table. -/
def prevailing (values : List SettingValue) : Option SettingValue :=
  (values.filter fun value => !value.isVoid).getLast?.or values.getLast?

/-- What is found is what prevails among these values. -/
def Holds (found : Option SettingValue) (values : List SettingValue) : Prop :=
  Option.Rel Alike found (prevailing values)

theorem eq_of_isVoid {value : SettingValue} (isVoid : value.isVoid = true) : value = table [] := by
  cases value with
  | table entries =>
      cases entries with
      | nil => rfl
      | cons => cases isVoid
  | _ => cases isVoid

theorem prevailing_eq_none_iff {values : List SettingValue} :
    prevailing values = none ↔ values = [] := by
  rw [prevailing, Option.or_eq_none_iff, List.getLast?_eq_none_iff, List.getLast?_eq_none_iff]
  exact ⟨And.right, fun empty => ⟨by rw [empty]; rfl, empty⟩⟩

theorem prevailing_append {value : SettingValue} (notVoid : value.isVoid = false)
    (values : List SettingValue) : prevailing (values ++ [value]) = some value := by
  rw [prevailing, List.filter_append, List.filter_cons_of_pos (by simp [notVoid]), List.filter_nil,
    List.getLast?_concat, Option.some_or]

/-- An empty table after other values makes no difference. -/
theorem prevailing_append_void {values : List SettingValue} (notEmpty : values ≠ []) :
    prevailing (values ++ [table []]) = prevailing values := by
  have filtered : (values ++ [table []]).filter (fun value => !value.isVoid) =
      values.filter fun value => !value.isVoid := by
    rw [List.filter_append, List.filter_cons_of_neg (by simp [isVoid]), List.filter_nil,
      List.append_nil]
  rw [prevailing, prevailing, filtered]
  by_cases allVoid : values.filter (fun value => !value.isVoid) = []
  · have lastVoid : (values.getLast notEmpty).isVoid = true := by
      simpa using List.filter_eq_nil_iff.mp allVoid _ (List.getLast_mem notEmpty)
    rw [allVoid, List.getLast?_concat, List.getLast?_eq_some_getLast notEmpty,
      eq_of_isVoid lastVoid]
  · rw [List.getLast?_eq_some_getLast allVoid, Option.some_or, Option.some_or]

/-! What is found is what prevails, whatever is put on top. -/

theorem exists_putAll (entries members : List (String × SettingValue)) :
    ∃ others, putAll entries (table members) = table others := by
  induction entries generalizing members with
  | nil => exact ⟨members, by rw [putAll]⟩
  | cons entry entries induction =>
      rw [putAll, put_eq]
      exact induction _

theorem alike_laidOver {value : SettingValue} (notVoid : value.isVoid = false)
    (present : Option SettingValue) : Alike (value.laidOver present) value := by
  cases value with
  | table entries =>
      cases entries with
      | nil => cases notVoid
      | cons entry entries =>
          rw [laidOver, putAll, put_eq]
          rcases exists_putAll entries _ with ⟨others, equal⟩
          rw [equal]
          exact .inr ⟨rfl, rfl⟩
  | _ => exact .inl rfl

theorem holds_toList (found : Option SettingValue) : Holds found found.toList := by
  cases found with
  | none => exact .none
  | some value =>
      have alone : prevailing [value] = some value := by
        cases void : value.isVoid with
        | false => exact prevailing_append void []
        | true =>
            rw [eq_of_isVoid void]
            rfl
      rw [Option.toList_some, Holds, alone]
      exact .some (.inl rfl)

theorem holds_none_iff {values : List SettingValue} : Holds none values ↔ values = [] := by
  rw [Holds, ← prevailing_eq_none_iff]
  cases prevailing values with
  | none => simp
  | some => simp

theorem Holds.append {found : Option SettingValue} {values : List SettingValue}
    (holds : Holds found values) (value : SettingValue) :
    Holds (some (value.laidOver found)) (values ++ [value]) := by
  cases void : value.isVoid with
  | false =>
      rw [Holds, prevailing_append void]
      exact .some (alike_laidOver void found)
  | true =>
      rw [eq_of_isVoid void, laidOver, putAll]
      cases found with
      | none =>
          rw [holds_none_iff.mp holds]
          exact .some (.inl rfl)
      | some kept =>
          have notEmpty : values ≠ [] := by
            rintro rfl
            cases holds
          rwa [Holds, prevailing_append_void notEmpty]

theorem Holds.overAll {found : Option SettingValue} {values : List SettingValue}
    (holds : Holds found values) (more : List SettingValue) :
    Holds (overAll more found) (values ++ more) := by
  induction more generalizing found values with
  | nil => rwa [List.append_nil]
  | cons value more induction =>
      rw [List.append_cons]
      exact induction (holds.append value)

end MarkupExport.SettingValue
