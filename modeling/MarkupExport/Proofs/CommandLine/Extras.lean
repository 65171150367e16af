import MarkupExport.CommandLine.Extra

/-!
Taking extra parameters out of arguments. Whether an argument belongs to a parameter is decided by
itself and the one in front of it: a parameter is known by its beginning, and what follows it is its
value unless that is a flag. Parameters are flags themselves, so none of them is ever taken for a
value, and arguments can be split in parts wherever no value is cut off from its parameter.
-/

namespace MarkupExport.Extras

variable {argument name value : String} {arguments before after rest : List String}

/-! ## Parameters and their values by place -/

/-- The parameter that is named at this place. -/
def nameAt? (arguments : List String) (place : Nat) : Option String :=
  arguments[place]?.bind name?

/-- The value for a parameter at this place: what comes next, if anything does and it is no flag. -/
def valueAfter? (arguments : List String) (place : Nat) : Option String :=
  arguments[place + 1]?.filter fun argument => !isFlag argument

/-- The value of a parameter stands at this place. -/
def isValueAt (arguments : List String) : Nat → Bool
  | 0 => false
  | place + 1 => (nameAt? arguments place).isSome && (valueAfter? arguments place).isSome

/-- What stands at this place is neither a parameter nor the value of one. -/
def isPlainAt (arguments : List String) (place : Nat) : Bool :=
  (nameAt? arguments place).isNone && !isValueAt arguments place

/-- The arguments at these places, in their order. -/
def select (chosen : Nat → Bool) (arguments : List String) : List String :=
  ((List.range arguments.length).filter chosen).filterMap fun place => arguments[place]?

/-- The places where this parameter is named. -/
def placesOf (name : String) (arguments : List String) : List Nat :=
  (List.range arguments.length).filter fun place => nameAt? arguments place = some name

/-- The value that a parameter is given where it is named last. -/
def lastValue? (name : String) (arguments : List String) : Option String :=
  (placesOf name arguments).getLast?.map fun place => (valueAfter? arguments place).getD "true"

/-! ## Names -/

theorem after?_eq_some_iff {start chars others : List Char} :
    after? start chars = some others ↔ chars = start ++ others := by
  induction start generalizing chars with
  | nil => rw [after?, Option.some.injEq, List.nil_append]
  | cons first start induction =>
      cases chars with
      | nil => simp [after?]
      | cons char chars =>
          by_cases same : first = char
          · rw [after?, if_pos same, induction, List.cons_append, List.cons.injEq]
            exact (and_iff_right same.symm).symm
          · rw [after?, if_neg same, List.cons_append, List.cons.injEq]
            exact iff_of_false nofun fun equal => same equal.1.symm

/-- A parameter is named behind one of two beginnings. -/
theorem name?_eq_some_iff :
    name? argument = some name ↔
      argument = "--extra-" ++ name ∨ argument = "--extras-" ++ name := by
  have spelled (start : String) (chars : List Char) :
      after? start.toList argument.toList = some chars ↔
        argument = start ++ String.ofList chars := by
    rw [after?_eq_some_iff, ← String.toList_inj, String.toList_append, String.toList_ofList]
  rw [name?, Option.orElse_eq_orElse, Option.orElse_eq_or, Option.map_eq_some_iff]
  constructor
  · rintro ⟨chars, found, rfl⟩
    rcases Option.or_eq_some_iff.mp found with first | ⟨_, second⟩
    · exact .inl ((spelled _ chars).mp first)
    · exact .inr ((spelled _ chars).mp second)
  · intro beginning
    refine ⟨name.toList, Option.or_eq_some_iff.mpr ?_, String.ofList_toList⟩
    rw [spelled, spelled, String.ofList_toList]
    refine beginning.imp_right fun equal => ⟨?_, equal⟩
    rw [equal, String.toList_append]
    rfl

/-- A parameter is a flag. -/
theorem name?_eq_none (noFlag : isFlag argument = false) : name? argument = none := by
  have otherStart : ∀ start, after? ('-' :: start) argument.toList = none := by
    intro start
    cases chars : argument.toList with
    | nil => rfl
    | cons first chars =>
        have different : '-' ≠ first := by
          rintro rfl
          simp [isFlag, chars] at noFlag
        rw [after?, if_neg different]
  rw [name?, show "--extra-".toList = '-' :: "-extra-".toList from rfl,
    show "--extras-".toList = '-' :: "-extras-".toList from rfl, otherStart, otherStart]
  rfl

theorem isFlag_of_name? (named : name? argument = some name) : isFlag argument = true := by
  cases flag : isFlag argument with
  | true => rfl
  | false => rw [name?_eq_none flag] at named; cases named

/-! ## One argument in front of others -/

theorem valueAfter?_flag (argument : String) (flag : isFlag value = true) (rest : List String) :
    valueAfter? (argument :: value :: rest) 0 = none := by
  simp [valueAfter?, Option.filter, flag]

theorem valueAfter?_noFlag (argument : String) (noFlag : isFlag value = false)
    (rest : List String) : valueAfter? (argument :: value :: rest) 0 = some value := by
  simp [valueAfter?, Option.filter, noFlag]

theorem split_cons_of_unnamed (unnamed : name? argument = none) (rest : List String) :
    split (argument :: rest) = (split rest).addPlain argument := by
  rw [split, unnamed]

theorem split_cons_of_alone (named : name? argument = some name)
    (alone : valueAfter? (argument :: rest) 0 = none) :
    split (argument :: rest) = (split rest).addValue name "true" := by
  rw [split, named]
  cases rest with
  | nil => rfl
  | cons next others =>
      have flag : isFlag next = true := by simpa [valueAfter?, Option.filter] using alone
      simp only [flag, if_true]

theorem split_cons_cons_of_named (named : name? argument = some name)
    (noFlag : isFlag value = false) (rest : List String) :
    split (argument :: value :: rest) = (split rest).addValue name value := by
  rw [split, named]
  simp only [noFlag, Bool.false_eq_true, if_false]

/-! ## Plain arguments -/

theorem select_cons (chosen : Nat → Bool) (argument : String) (rest : List String) :
    select chosen (argument :: rest) =
      if chosen 0 then argument :: select (fun place => chosen (place + 1)) rest
      else select (fun place => chosen (place + 1)) rest := by
  rw [select, List.length_cons, List.range_succ_eq_map, List.filter_cons, List.filter_map]
  split
  · rw [List.filterMap_cons, List.filterMap_map]
    rfl
  · rw [List.filterMap_map]
    rfl

theorem isPlainAt_cons_zero :
    isPlainAt (argument :: rest) 0 = (name? argument).isNone := by
  simp [isPlainAt, isValueAt, nameAt?]

/-- What stands in front matters to an argument only as a parameter whose value it is. -/
theorem isValueAt_cons_succ (rest : List String)
    (alone : name? argument = none ∨ valueAfter? (argument :: rest) 0 = none) (place : Nat) :
    isValueAt (argument :: rest) (place + 1) = isValueAt rest place := by
  cases place with
  | zero => rcases alone with absent | absent <;> simp [isValueAt, nameAt?, absent]
  | succ place => rfl

theorem isPlainAt_cons_succ (rest : List String)
    (alone : name? argument = none ∨ valueAfter? (argument :: rest) 0 = none) (place : Nat) :
    isPlainAt (argument :: rest) (place + 1) = isPlainAt rest place := by
  rw [isPlainAt, isValueAt_cons_succ rest alone]
  rfl

/-- The arguments kept are those that are neither parameters nor their values. -/
theorem plain_split (arguments : List String) :
    (split arguments).plain = select (isPlainAt arguments) arguments := by
  fun_induction split arguments with
  | case1 => rfl
  | case2 argument rest unnamed induction =>
      have others := funext (isPlainAt_cons_succ rest (.inl unnamed))
      rw [select_cons, isPlainAt_cons_zero, unnamed, others, ← induction]
      rfl
  | case3 argument name named =>
      rw [select_cons, isPlainAt_cons_zero, named]
      rfl
  | case4 argument name named next rest flag induction =>
      have others := funext (isPlainAt_cons_succ _ (.inr (valueAfter?_flag argument flag rest)))
      rw [select_cons, isPlainAt_cons_zero, named, others, ← induction]
      rfl
  | case5 argument name named value rest noFlag induction =>
      have unnamed := name?_eq_none (eq_false_of_ne_true noFlag)
      have valueHere : isPlainAt (argument :: value :: rest) 1 = false := by
        simp [isPlainAt, isValueAt, nameAt?, valueAfter?, named, noFlag]
      have others := funext (isPlainAt_cons_succ rest (.inl unnamed))
      rw [select_cons, isPlainAt_cons_zero, named, select_cons, valueHere]
      exact induction.trans (congrArg (select · rest) others.symm)

/-! ## Values -/

theorem placesOf_cons (name argument : String) (rest : List String) :
    placesOf name (argument :: rest) =
      if name? argument = some name then 0 :: (placesOf name rest).map (· + 1)
      else (placesOf name rest).map (· + 1) := by
  simp only [placesOf, List.length_cons, List.range_succ_eq_map, List.filter_cons, List.filter_map,
    decide_eq_true_eq]
  rfl

/-- Where a parameter is named again, the value that it is given in front does not count. -/
theorem lastValue?_cons (name argument : String) (rest : List String) :
    lastValue? name (argument :: rest) =
      (lastValue? name rest).or
        (if name? argument = some name then some ((valueAfter? (argument :: rest) 0).getD "true")
        else none) := by
  have later : ((placesOf name rest).map (· + 1)).getLast?.map
      (fun place => (valueAfter? (argument :: rest) place).getD "true") = lastValue? name rest := by
    rw [List.getLast?_map, Option.map_map]
    rfl
  rw [lastValue?, placesOf_cons, ← later]
  split
  · rw [List.getLast?_cons]
    cases ((placesOf name rest).map (· + 1)).getLast? <;> rfl
  · exact Option.or_none.symm

theorem lookup_addValue (extras : Extras) (name other value : String) :
    (extras.addValue name value).values.lookup other =
      (extras.values.lookup other).or (if name = other then some value else none) := by
  rw [addValue, Ascending.lookup_insertNew]
  by_cases same : other = name
  · subst same
    cases extras.values.lookup other <;> simp
  · simp [same, Ne.symm same]

theorem lookup_split (arguments : List String) (name : String) :
    (split arguments).values.lookup name = lastValue? name arguments := by
  fun_induction split arguments with
  | case1 => rfl
  | case2 argument rest unnamed induction =>
      rw [lastValue?_cons, unnamed, if_neg nofun, Option.or_none]
      exact induction
  | case3 argument own named =>
      rw [lookup_addValue, lastValue?_cons, named]
      simp [lastValue?, placesOf, valueAfter?]
  | case4 argument own named next rest flag induction =>
      rw [lookup_addValue, lastValue?_cons, named, induction, valueAfter?_flag argument flag]
      simp
  | case5 argument own named value rest noFlag induction =>
      have noFlag := eq_false_of_ne_true noFlag
      rw [lookup_addValue, lastValue?_cons, named, induction, valueAfter?_noFlag argument noFlag,
        lastValue?_cons name value rest, name?_eq_none noFlag]
      simp

/-- Every parameter has one value. -/
theorem isAscending_values_split (arguments : List String) :
    Ascending.IsAscending (split arguments).values := by
  fun_induction split arguments with
  | case1 => exact .nil
  | case2 argument rest unnamed induction => exact induction
  | case3 argument name named =>
      have empty : Ascending.IsAscending ({} : Extras).values := List.Pairwise.nil
      exact Ascending.isAscending_insertNew empty
  | case4 argument name named next rest flag induction =>
      exact Ascending.isAscending_insertNew induction
  | case5 argument name named value rest noFlag induction =>
      exact Ascending.isAscending_insertNew induction

/-! ## Arguments without parameters -/

theorem name?_of_mem_plain (member : argument ∈ (split arguments).plain) :
    name? argument = none := by
  rw [plain_split, select, List.mem_filterMap] at member
  rcases member with ⟨place, inside, found⟩
  have plain := (List.mem_filter.mp inside).2
  rw [isPlainAt, nameAt?, found, Option.bind_some, Bool.and_eq_true, Option.isNone_iff_eq_none]
    at plain
  exact plain.1

theorem split_of_unnamed (unnamed : ∀ argument ∈ arguments, name? argument = none) :
    split arguments = { plain := arguments } := by
  induction arguments with
  | nil => rfl
  | cons argument rest induction =>
      rcases List.forall_mem_cons.mp unnamed with ⟨first, others⟩
      rw [split_cons_of_unnamed first, induction others]
      rfl

/-! ## Arguments in two parts -/

/-- Parts between which no parameter loses its value are split apart. -/
theorem split_append (apart : isValueAt (before ++ after) before.length = false) :
    (split (before ++ after)).plain = (split before).plain ++ (split after).plain ∧
      ∀ name, (split (before ++ after)).values.lookup name =
        ((split after).values.lookup name).or ((split before).values.lookup name) := by
  fun_induction split before with
  | case1 => exact ⟨rfl, fun name => Option.or_none.symm⟩
  | case2 argument rest unnamed induction =>
      rw [List.cons_append, List.length_cons, isValueAt_cons_succ _ (.inl unnamed)] at apart
      rcases induction apart with ⟨plain, values⟩
      rw [List.cons_append, split_cons_of_unnamed unnamed]
      exact ⟨congrArg (argument :: ·) plain, values⟩
  | case3 argument own named =>
      have alone : valueAfter? (argument :: after) 0 = none := by
        simpa [isValueAt, nameAt?, named] using apart
      rw [List.singleton_append, split_cons_of_alone named alone]
      refine ⟨rfl, fun name => ?_⟩
      rw [lookup_addValue, lookup_addValue]
      rfl
  | case4 argument own named next rest flag induction =>
      have alone : valueAfter? (argument :: (next :: rest ++ after)) 0 = none :=
        valueAfter?_flag argument flag (rest ++ after)
      rw [List.cons_append, List.length_cons, isValueAt_cons_succ _ (.inr alone)] at apart
      rcases induction apart with ⟨plain, values⟩
      rw [List.cons_append, split_cons_of_alone named alone]
      refine ⟨plain, fun name => ?_⟩
      rw [lookup_addValue, lookup_addValue, values, Option.or_assoc]
  | case5 argument own named value rest noFlag induction =>
      have noFlag := eq_false_of_ne_true noFlag
      have unnamed := name?_eq_none noFlag
      rw [List.cons_append, List.cons_append, List.length_cons, List.length_cons] at apart
      have behind : isValueAt (rest ++ after) rest.length = false :=
        (isValueAt_cons_succ _ (.inl unnamed) rest.length).symm.trans apart
      rcases induction behind with ⟨plain, values⟩
      rw [List.cons_append, List.cons_append, split_cons_cons_of_named named noFlag]
      refine ⟨plain, fun name => ?_⟩
      rw [lookup_addValue, lookup_addValue, values, Option.or_assoc]

theorem isValueAt_of_flag {place : Nat} (found : arguments[place]? = some argument)
    (flag : isFlag argument = true) : isValueAt arguments place = false := by
  cases place with
  | zero => rfl
  | succ place => simp [isValueAt, valueAfter?, found, Option.filter, flag]

theorem isValueAt_of_length_le {place : Nat} (beyond : arguments.length ≤ place) :
    isValueAt arguments place = false := by
  cases place with
  | zero => rfl
  | succ place => simp [isValueAt, valueAfter?, List.getElem?_eq_none beyond]

/-- A place where no value stands parts the arguments. -/
theorem split_take_drop {place : Nat} (noValue : isValueAt arguments place = false) :
    (split arguments).plain =
        (split (arguments.take place)).plain ++ (split (arguments.drop place)).plain ∧
      ∀ name, (split arguments).values.lookup name =
        ((split (arguments.drop place)).values.lookup name).or
          ((split (arguments.take place)).values.lookup name) := by
  have apart : isValueAt (arguments.take place ++ arguments.drop place)
      (arguments.take place).length = false := by
    rw [List.take_append_drop, List.length_take]
    rcases Nat.le_total place arguments.length with within | beyond
    · rwa [Nat.min_eq_left within]
    · rw [Nat.min_eq_right beyond]
      exact isValueAt_of_length_le (Nat.le_refl _)
  have parted := split_append apart
  rwa [List.take_append_drop] at parted

/-- A parameter that is put in with its value adds no plain argument, and changes no value but its
own. -/
theorem split_insert {place : Nat} (noValue : isValueAt arguments place = false)
    (named : name? argument = some name) (noFlag : isFlag value = false) :
    let inserted := split (arguments.take place ++ argument :: value :: arguments.drop place)
    inserted.plain = (split arguments).plain ∧
      ∀ other, other ≠ name →
        inserted.values.lookup other = (split arguments).values.lookup other := by
  intro inserted
  have parameterNext : (arguments.take place ++ argument :: value :: arguments.drop place)[
      (arguments.take place).length]? = some argument := by simp
  have apart := isValueAt_of_flag parameterNext (isFlag_of_name? named)
  rcases split_append apart with ⟨plain, values⟩
  rcases split_take_drop noValue with ⟨plainBefore, valuesBefore⟩
  rw [split_cons_cons_of_named named noFlag] at plain values
  refine ⟨plain.trans plainBefore.symm, fun other different => ?_⟩
  rw [values, valuesBefore, lookup_addValue, if_neg (Ne.symm different), Option.or_none]

/-- Arguments are split into those that are neither parameters nor values of parameters, in their
order, and one value for each parameter, which it has where it is named last. Nothing is left to
take out of the plain arguments. A parameter that is put in with a value, wherever it does not part
another one from its own, leaves the plain arguments and the values of all others as they were. -/
theorem split_exact (arguments : List String) :
    (split arguments).plain = select (isPlainAt arguments) arguments ∧
      Ascending.IsAscending (split arguments).values ∧
      (∀ name, (split arguments).values.lookup name = lastValue? name arguments) ∧
      split (split arguments).plain = { plain := (split arguments).plain } ∧
      ∀ place name value, isValueAt arguments place = false → isFlag value = false →
        let inserted := split
          (arguments.take place ++ ("--extra-" ++ name) :: value :: arguments.drop place)
        inserted.plain = (split arguments).plain ∧
          ∀ other, other ≠ name →
            inserted.values.lookup other = (split arguments).values.lookup other :=
  ⟨plain_split arguments, isAscending_values_split arguments, lookup_split arguments,
    split_of_unnamed fun _ => name?_of_mem_plain,
    fun _ _ _ noValue noFlag => split_insert noValue (name?_eq_some_iff.mpr (.inl rfl)) noFlag⟩

theorem split_exact_crowded :
    let arguments := ["--extra-", "a", "b", "--extras-x", "--extra-x", "1", "--extra-x"]
    let inserted := arguments.take 4 ++ ["--extra-y", ""] ++ arguments.drop 4
    isFlag "" = false ∧ isValueAt arguments 4 = false ∧
      (split inserted).plain = ["b"] ∧ (split inserted).values.lookup "x" = some "true" := by
  intro arguments inserted
  have noFlag : isFlag "" = false := by decide +kernel
  have noValue : isValueAt arguments 4 = false := by decide +kernel
  have plain : (split arguments).plain = ["b"] := by decide +kernel
  have last : lastValue? "x" arguments = some "true" := by decide +kernel
  rcases split_exact arguments with ⟨_, _, values, _, insert⟩
  rcases insert 4 "y" "" noValue noFlag with ⟨samePlain, sameValues⟩
  exact ⟨noFlag, noValue, samePlain.trans plain,
    (sameValues "x" (by decide)).trans ((values "x").trans last)⟩

end MarkupExport.Extras
