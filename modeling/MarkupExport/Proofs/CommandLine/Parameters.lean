import MarkupExport.CommandLine.Extra
import MarkupExport.Proofs.Export.Requirements

/-!
How extra parameters change settings. Each setting has two names for its parameter, of which one
counts: the first if it is given, and else the second. The names that count are taken out one after
the other, and since no name belongs to two parameters, it makes no difference to one parameter
which others have been taken out before it.
-/

namespace MarkupExport

/-- A setting that a parameter changes. -/
inductive Parameter where
  | bodyOnly
  | visibleOnly
  | asynchronous
  | extension
deriving DecidableEq, Repr

namespace Parameter

def all : List Parameter :=
  [bodyOnly, visibleOnly, asynchronous, extension]

def first : Parameter → String
  | bodyOnly => "body-only"
  | visibleOnly => "visible-only"
  | asynchronous => "async"
  | extension => "extension"

def second : Parameter → String
  | bodyOnly => "body_only"
  | visibleOnly => "visible_only"
  | asynchronous => "asynchronous"
  | extension => "ext"

/-- The name is one of the eight. -/
def isName (name : String) : Bool :=
  all.any fun parameter => name = parameter.first || name = parameter.second

theorem any_all_eq_false_iff {test : Parameter → Bool} :
    all.any test = false ↔ ∀ parameter, test parameter = false := by
  have everyOne (parameter : Parameter) : parameter ∈ all := by cases parameter <;> decide
  simp [everyOne]

theorem isName_eq_false_iff {name : String} :
    isName name = false ↔
      ∀ parameter : Parameter, name ≠ parameter.first ∧ name ≠ parameter.second := by
  rw [isName, any_all_eq_false_iff]
  simp

theorem first_ne_second (parameter : Parameter) : parameter.first ≠ parameter.second := by
  cases parameter <;> decide

theorem names_ne {parameter other : Parameter} (different : other ≠ parameter) :
    parameter.first ≠ other.first ∧ parameter.first ≠ other.second ∧
      parameter.second ≠ other.first ∧ parameter.second ≠ other.second := by
  cases parameter <;> cases other <;> first | exact absurd rfl different | decide

end Parameter

namespace ExtraValues

variable {values left : ExtraValues} {parameter : Parameter} {taken : List Parameter}
  {settings changed : Settings}

/-! ## Names that count -/

/-- The name is the one that counts for this parameter. -/
def counts (values : ExtraValues) (parameter : Parameter) (name : String) : Bool :=
  name = parameter.first || name = parameter.second && (values.lookup parameter.first).isNone

/-- The value of a parameter, under the name that counts. -/
def given? (values : ExtraValues) (parameter : Parameter) : Option String :=
  (values.lookup parameter.first).or (values.lookup parameter.second)

/-- What is left when the names that count for these parameters are taken out. -/
def without (values : ExtraValues) (taken : List Parameter) : ExtraValues :=
  values.filter fun entry => !taken.any fun parameter => values.counts parameter entry.1

/-- Both names of this parameter are given. -/
def GivesTwice (values : ExtraValues) (parameter : Parameter) : Prop :=
  parameter.first ∈ Ascending.keys values ∧ parameter.second ∈ Ascending.keys values

/-- The name is given, and belongs to no parameter, or stands second for one that is given by its
first name. -/
def IsLeftOver (values : ExtraValues) (name : String) : Prop :=
  name ∈ Ascending.keys values ∧ (Parameter.isName name = false ∨
    ∃ parameter : Parameter, name = parameter.second ∧ values.GivesTwice parameter)

theorem counts_eq_false {other : Parameter} (different : other ≠ parameter) :
    values.counts other parameter.first = false ∧
      values.counts other parameter.second = false := by
  rcases Parameter.names_ne different with ⟨first, firstSecond, second, seconds⟩
  simp [counts, first, firstSecond, second, seconds]

/-- A name that is given counts unless it is left over. -/
theorem uncounted_iff {name : String} (isGiven : name ∈ Ascending.keys values) :
    (Parameter.all.any fun parameter => values.counts parameter name) = false ↔
      values.IsLeftOver name := by
  rw [Parameter.any_all_eq_false_iff]
  constructor
  · intro uncounted
    refine ⟨isGiven, Decidable.or_iff_not_imp_left.mpr fun known => ?_⟩
    rw [Parameter.isName_eq_false_iff, Classical.not_forall] at known
    rcases known with ⟨parameter, named⟩
    have notCounted := uncounted parameter
    rw [counts, Bool.or_eq_false_iff, decide_eq_false_iff_not] at notCounted
    have second : name = parameter.second :=
      Decidable.byContradiction fun notSecond => named ⟨notCounted.1, notSecond⟩
    have first : parameter.first ∈ Ascending.keys values :=
      Decidable.byContradiction fun absent => by
        simp [second, Ascending.lookup_eq_none_iff_not_mem_keys.mpr absent] at notCounted
    exact ⟨parameter, second, first, second ▸ isGiven⟩
  · rintro ⟨_, unknown | ⟨parameter, rfl, first, _⟩⟩ other
    · have different := Parameter.isName_eq_false_iff.mp unknown other
      simp [counts, different]
    · by_cases same : other = parameter
      · subst same
        have found : (values.lookup other.first).isNone = false :=
          Bool.eq_false_iff.mpr fun isNone =>
            Ascending.lookup_eq_none_iff_not_mem_keys.mp (Option.isNone_iff_eq_none.mp isNone) first
        rw [counts, found, Bool.and_false, Bool.or_false]
        exact decide_eq_false other.first_ne_second.symm
      · exact (counts_eq_false same).2

theorem mem_keys_without {name : String} :
    name ∈ Ascending.keys (values.without Parameter.all) ↔ values.IsLeftOver name := by
  constructor
  · intro member
    rcases List.mem_map.mp member with ⟨entry, inside, rfl⟩
    rcases List.mem_filter.mp inside with ⟨inValues, uncounted⟩
    exact (uncounted_iff (List.mem_map_of_mem inValues)).mp (Bool.not_eq_true' _ ▸ uncounted)
  · intro leftOver
    rcases List.mem_map.mp leftOver.1 with ⟨entry, inValues, rfl⟩
    have uncounted := (uncounted_iff leftOver.1).mpr leftOver
    exact List.mem_map_of_mem (List.mem_filter.mpr ⟨inValues, by rw [uncounted]; rfl⟩)

/-- Every known name is taken out if no parameter is given by both of its names. -/
theorem without_eq_filter_iff :
    values.without Parameter.all = values.filter (fun entry => !Parameter.isName entry.1) ↔
      ∀ parameter, ¬ values.GivesTwice parameter := by
  constructor
  · intro onlyUnknown parameter twice
    have leftOver := mem_keys_without.mpr ⟨twice.2, .inr ⟨parameter, rfl, twice⟩⟩
    rw [onlyUnknown] at leftOver
    rcases List.mem_map.mp leftOver with ⟨entry, inside, named⟩
    have unknown : Parameter.isName parameter.second = false := by
      simpa [named] using (List.mem_filter.mp inside).2
    exact (Parameter.isName_eq_false_iff.mp unknown parameter).2 rfl
  · intro once
    refine List.filter_congr fun entry member => Bool.coe_false_iff_false.mp ?_
    have isGiven : entry.1 ∈ Ascending.keys values := List.mem_map_of_mem member
    refine (uncounted_iff isGiven).trans ⟨fun leftOver => ?_, fun unknown => ⟨isGiven, .inl unknown⟩⟩
    rcases leftOver.2 with unknown | ⟨parameter, _, twice⟩
    · exact unknown
    · exact absurd twice (once parameter)

/-- Other parameters are still given under the same names. -/
theorem lookup_without (notTaken : parameter ∉ taken) :
    (values.without taken).lookup parameter.first = values.lookup parameter.first ∧
      (values.without taken).lookup parameter.second = values.lookup parameter.second := by
  have uncounted : ∀ other ∈ taken, values.counts other parameter.first = false ∧
      values.counts other parameter.second = false :=
    fun other member => counts_eq_false fun equal => notTaken (equal ▸ member)
  simp only [without, Ascending.lookup_filter (fun name => !taken.any (values.counts · name))]
  constructor
  · rw [if_pos]
    simpa using fun other member => (uncounted other member).1
  · rw [if_pos]
    simpa using fun other member => (uncounted other member).2

theorem given?_without (notTaken : parameter ∉ taken) :
    (values.without taken).given? parameter = values.given? parameter := by
  rw [given?, (lookup_without notTaken).1, (lookup_without notTaken).2, given?]

theorem without_concat (notTaken : parameter ∉ taken) :
    values.without (taken ++ [parameter]) = (values.without taken).without [parameter] := by
  have same : (values.without taken).counts parameter = values.counts parameter := by
    funext name
    rw [counts, (lookup_without notTaken).1, counts]
  simp only [without, List.any_append, List.any_cons, List.any_nil, Bool.or_false] at same ⊢
  rw [same, List.filter_filter]
  simp only [Bool.not_or, Bool.and_comm]

/-! ## Taking out one parameter -/

theorem without_of_not_given (absent : values.given? parameter = none) :
    values.without [parameter] = values := by
  rw [given?, Option.or_eq_none_iff, Ascending.lookup_eq_none_iff_not_mem_keys,
    Ascending.lookup_eq_none_iff_not_mem_keys] at absent
  refine List.filter_eq_self.mpr fun entry member => ?_
  have key : entry.1 ∈ Ascending.keys values := List.mem_map_of_mem member
  have notFirst : entry.1 ≠ parameter.first := fun equal => absent.1 (equal ▸ key)
  have notSecond : entry.1 ≠ parameter.second := fun equal => absent.2 (equal ▸ key)
  simp [counts, notFirst, notSecond]

theorem take?_names (values : ExtraValues) (parameter : Parameter) :
    values.take? [parameter.first, parameter.second] =
      (values.given? parameter).map fun value => (value, values.without [parameter]) := by
  rw [take?, given?]
  cases first : values.lookup parameter.first with
  | some value => simp [without, counts, first, Ascending.erase]
  | none =>
      rw [take?]
      cases second : values.lookup parameter.second with
      | none => rfl
      | some value =>
          have others : Ascending.erase parameter.second values = values.without [parameter] := by
            refine List.filter_congr fun entry member => ?_
            have notFirst : entry.1 ≠ parameter.first := fun equal =>
              Ascending.lookup_eq_none_iff_not_mem_keys.mp first
                (equal ▸ List.mem_map_of_mem member)
            simp [counts, first, notFirst]
          simp [others]

/-- What a parameter that is on or off is turned to, if it is given. -/
def turned (values : ExtraValues) (parameter : Parameter) (otherwise : Bool) :
    Except FlagError Bool :=
  match values.given? parameter with
  | none => .ok otherwise
  | some value => flag parameter.first value

theorem takeFlag_names (values : ExtraValues) (otherwise : Bool) (notTaken : parameter ∉ taken) :
    (values.without taken).takeFlag parameter.first [parameter.first, parameter.second] otherwise =
      (fun on => (on, values.without (taken ++ [parameter]))) <$>
        values.turned parameter otherwise := by
  rw [takeFlag, take?_names, given?_without notTaken, without_concat notTaken, turned]
  cases given : values.given? parameter with
  | none =>
      rw [without_of_not_given ((given?_without notTaken).trans given)]
      rfl
  | some value => cases turn : flag parameter.first value <;> simp [turn]

/-- Settings are changed by the parameters that are given, each to the value under the name that
counts, and by nothing else. -/
structure Changes (values : ExtraValues) (settings changed : Settings) : Prop where
  bodyOnly : values.turned .bodyOnly settings.options.bodyOnly = .ok changed.options.bodyOnly
  visibleOnly :
    values.turned .visibleOnly settings.options.visibleOnly = .ok changed.options.visibleOnly
  asynchronous :
    values.turned .asynchronous settings.options.asynchronous = .ok changed.options.asynchronous
  extension : changed.options.extension = (values.given? .extension).or settings.options.extension
  defaultFormat : changed.defaultFormat = settings.defaultFormat

theorem change_eq (values : ExtraValues) (settings : Settings) :
    values.change settings = do
      let bodyOnly ← values.turned .bodyOnly settings.options.bodyOnly
      let visibleOnly ← values.turned .visibleOnly settings.options.visibleOnly
      let asynchronous ← values.turned .asynchronous settings.options.asynchronous
      let extension := (values.given? .extension).or settings.options.extension
      return ({ settings with options := { bodyOnly, visibleOnly, asynchronous, extension } },
        values.without Parameter.all) := by
  have whole : values.without [] = values := List.filter_eq_self.mpr fun _ _ => rfl
  have first := takeFlag_names values settings.options.bodyOnly
    (show Parameter.bodyOnly ∉ [] by decide)
  have second := takeFlag_names values settings.options.visibleOnly
    (show Parameter.visibleOnly ∉ [.bodyOnly] by decide)
  have third := takeFlag_names values settings.options.asynchronous
    (show Parameter.asynchronous ∉ [.bodyOnly, .visibleOnly] by decide)
  have notTaken : Parameter.extension ∉ [.bodyOnly, .visibleOnly, .asynchronous] := by decide
  have last := take?_names (values.without [.bodyOnly, .visibleOnly, .asynchronous]) .extension
  rw [whole] at first
  rw [← without_concat notTaken, given?_without notTaken] at last
  simp only [Parameter.first, Parameter.second] at first second third last
  -- One parameter after the other is taken out of what the ones before it have left.
  rw [change, first, bind_map_left]
  refine bind_congr fun bodyOnly => ?_
  dsimp only [List.nil_append]
  rw [second, bind_map_left]
  refine bind_congr fun visibleOnly => ?_
  dsimp only [List.cons_append, List.nil_append]
  rw [third, bind_map_left]
  refine bind_congr fun asynchronous => ?_
  dsimp only [List.cons_append, List.nil_append]
  rw [last]
  cases given : values.given? .extension with
  | none =>
      have untouched := without_of_not_given ((given?_without notTaken).trans given)
      rw [← without_concat notTaken] at untouched
      exact congrArg Except.ok (Prod.ext rfl untouched.symm)
  | some value => rfl

theorem change_eq_ok_iff :
    values.change settings = .ok (changed, left) ↔
      values.Changes settings changed ∧ left = values.without Parameter.all := by
  rw [change_eq]
  simp only [bind_eq_ok_iff]
  constructor
  · rintro ⟨bodyOnly, body, visibleOnly, visible, asynchronous, async, ended⟩
    cases ended
    exact ⟨⟨body, visible, async, rfl, rfl⟩, rfl⟩
  · rintro ⟨changes, rfl⟩
    refine ⟨_, changes.bodyOnly, _, changes.visibleOnly, _, changes.asynchronous, ?_⟩
    rw [← changes.extension, ← changes.defaultFormat]
    rfl

end ExtraValues

end MarkupExport
