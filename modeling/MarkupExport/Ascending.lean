/-!
Finite maps as lists of pairs in ascending order of their keys. A key stands in such a list at
most once, so equal maps are equal lists, and reading the list front to back is reading the map
in key order.
-/

namespace MarkupExport.Ascending

variable {Key : Type u} {Value : Type v} [LT Key] [DecidableLT Key] [DecidableEq Key]

def keys (entries : List (Key × Value)) : List Key :=
  entries.map Prod.fst

omit [DecidableLT Key] [DecidableEq Key] in
/-- The keys are in strictly ascending order. -/
def IsAscending (entries : List (Key × Value)) : Prop :=
  (keys entries).Pairwise (· < ·)

/-- Gives `key` this value, whether or not it had one. -/
def insert (key : Key) (value : Value) : List (Key × Value) → List (Key × Value)
  | [] => [(key, value)]
  | (other, kept) :: rest =>
    if key < other then (key, value) :: (other, kept) :: rest
    else if key = other then (key, value) :: rest
    else (other, kept) :: insert key value rest

/-- Gives `key` this value unless it has one already. -/
def insertNew (key : Key) (value : Value) (entries : List (Key × Value)) : List (Key × Value) :=
  if (keys entries).contains key then entries else insert key value entries

/-- Collects pairs from front to back; of two values for one key the later is kept. -/
def ofList (pairs : List (Key × Value)) : List (Key × Value) :=
  pairs.foldl (fun entries pair => insert pair.1 pair.2 entries) []

def erase (key : Key) (entries : List (Key × Value)) : List (Key × Value) :=
  entries.filter (fun entry => entry.1 ≠ key)

example : ofList [("b", 1), ("a", 2), ("b", 3)] = [("a", 2), ("b", 3)] := by decide

example : insertNew "a" 4 [("a", 2), ("b", 3)] = [("a", 2), ("b", 3)] := by decide

/-! Insertion keeps the order and changes the value of one key. -/

theorem mem_keys_insert {key other : Key} {value : Value} {entries : List (Key × Value)} :
    other ∈ keys (insert key value entries) ↔ other = key ∨ other ∈ keys entries := by
  induction entries with
  | nil => simp [insert, keys]
  | cons entry rest induction =>
      rcases entry with ⟨head, kept⟩
      simp only [keys] at induction
      simp only [insert]
      split
      · simp [keys]
      · split
        · next equal => simp [keys, equal]
        · simp only [keys, List.map_cons, List.mem_cons, induction]
          constructor <;> (intro member; rcases member with equal | equal | member <;> simp_all)

section Order

variable [LE Key] [Std.LawfulOrderLT Key] [Std.IsLinearOrder Key]

theorem isAscending_insert {key : Key} {value : Value} {entries : List (Key × Value)}
    (ascending : IsAscending entries) : IsAscending (insert key value entries) := by
  induction entries with
  | nil => simp [insert, IsAscending, keys]
  | cons entry rest induction =>
      rcases entry with ⟨head, kept⟩
      have parts := List.pairwise_cons.mp ascending
      simp only [insert]
      split
      · next less =>
          refine List.pairwise_cons.mpr ⟨?_, ascending⟩
          intro other member
          rcases List.mem_cons.mp member with equal | member
          · exact equal ▸ less
          · exact Std.lt_trans less (parts.1 other member)
      · split
        · next equal => exact List.pairwise_cons.mpr ⟨equal ▸ parts.1, parts.2⟩
        · next notLess different =>
            refine List.pairwise_cons.mpr ⟨?_, induction parts.2⟩
            intro other member
            rcases mem_keys_insert.mp member with equal | member
            · exact equal ▸ Std.lt_of_le_of_ne (Std.not_lt.mp notLess) (Ne.symm different)
            · exact parts.1 other member

theorem isAscending_insertNew {key : Key} {value : Value} {entries : List (Key × Value)}
    (ascending : IsAscending entries) : IsAscending (insertNew key value entries) := by
  simp only [insertNew]
  split
  · exact ascending
  · exact isAscending_insert ascending

theorem isAscending_ofList (pairs : List (Key × Value)) : IsAscending (ofList pairs) := by
  suffices step : ∀ entries : List (Key × Value), IsAscending entries →
      IsAscending (pairs.foldl (fun entries pair => insert pair.1 pair.2 entries) entries) from
    step [] List.Pairwise.nil
  induction pairs with
  | nil => exact fun _ ascending => ascending
  | cons pair rest induction =>
      exact fun _ ascending => induction _ (isAscending_insert ascending)

/-- A key beyond all others is inserted at the end. -/
theorem insert_of_lt {key : Key} {value : Value} {entries : List (Key × Value)}
    (beyond : ∀ other ∈ keys entries, other < key) :
    insert key value entries = entries ++ [(key, value)] := by
  induction entries with
  | nil => rfl
  | cons entry rest induction =>
      rcases entry with ⟨head, kept⟩
      rcases List.forall_mem_cons.mp beyond with ⟨less, inRest⟩
      have different : key ≠ head := fun equal => Std.lt_irrefl (equal ▸ less)
      rw [insert, if_neg (Std.not_lt.mpr (Std.le_of_lt less)), if_neg different, induction inRest,
        List.cons_append]

/-- Two keys are given their values in either order. -/
theorem insert_insert {key other : Key} (different : key ≠ other) (value kept : Value)
    (entries : List (Key × Value)) :
    insert key value (insert other kept entries) =
      insert other kept (insert key value entries) := by
  induction entries with
  | nil => grind [insert]
  | cons entry rest induction => grind [insert]

/-- Pairs for different keys are collected in either order. -/
theorem ofList_swap {first second : Key × Value} (different : first.1 ≠ second.1)
    (before after : List (Key × Value)) :
    ofList (before ++ first :: second :: after) = ofList (before ++ second :: first :: after) := by
  simp only [ofList, List.foldl_append, List.foldl_cons]
  rw [insert_insert different.symm]

theorem ofList_eq_self {entries : List (Key × Value)} (ascending : IsAscending entries) :
    ofList entries = entries := by
  suffices step : ∀ before : List (Key × Value), IsAscending (before ++ entries) →
      entries.foldl (fun entries pair => insert pair.1 pair.2 entries) before =
        before ++ entries from
    step [] ascending
  induction entries with
  | nil => exact fun before _ => (List.append_nil before).symm
  | cons entry rest induction =>
      intro before whole
      have beyond : ∀ other ∈ keys before, other < entry.1 := by
        rw [IsAscending, keys, List.map_append, List.pairwise_append] at whole
        exact fun other member => whole.2.2 other member entry.1 List.mem_cons_self
      have shifted : before ++ entry :: rest = (before ++ [entry]) ++ rest := by
        rw [List.append_assoc, List.singleton_append]
      rw [List.foldl_cons, insert_of_lt beyond, shifted]
      exact induction ascending.of_cons _ (shifted ▸ whole)

omit [DecidableLT Key] [DecidableEq Key] in
/-- The first key is the least one. -/
theorem head?_keys_eq_some_iff {key : Key} {entries : List (Key × Value)}
    (ascending : IsAscending entries) :
    (keys entries).head? = some key ↔
      key ∈ keys entries ∧ ∀ other ∈ keys entries, key ≤ other := by
  cases entries with
  | nil => simp [keys]
  | cons entry rest =>
      have beyond := (List.pairwise_cons.mp ascending).1
      constructor
      · intro equal
        cases equal
        refine ⟨List.mem_cons_self, fun other member => ?_⟩
        rcases List.mem_cons.mp member with equal | inRest
        · exact equal ▸ Std.le_refl _
        · exact Std.le_of_lt (beyond other inRest)
      · rintro ⟨member, least⟩
        rcases List.mem_cons.mp member with equal | inRest
        · exact congrArg some equal.symm
        · exact absurd (beyond key inRest) (Std.not_lt.mpr (least entry.1 List.mem_cons_self))

end Order

theorem eq_or_mem_of_mem_insert {key : Key} {value : Value} {entries : List (Key × Value)}
    {entry : Key × Value} (member : entry ∈ insert key value entries) :
    entry = (key, value) ∨ entry ∈ entries := by
  induction entries with
  | nil => exact .inl (List.mem_singleton.mp member)
  | cons head rest induction =>
      rw [insert] at member
      split at member
      · exact List.mem_cons.mp member
      · split at member
        · exact (List.mem_cons.mp member).imp_right (List.mem_cons_of_mem head)
        · rcases List.mem_cons.mp member with equal | inRest
          · exact .inr (equal ▸ List.mem_cons_self)
          · exact (induction inRest).imp_right (List.mem_cons_of_mem head)

theorem mem_keys_ofList {pairs : List (Key × Value)} {key : Key} :
    key ∈ keys (ofList pairs) ↔ key ∈ keys pairs := by
  suffices step : ∀ entries : List (Key × Value),
      key ∈ keys (pairs.foldl (fun entries pair => insert pair.1 pair.2 entries) entries) ↔
        key ∈ keys entries ∨ key ∈ keys pairs by
    rw [ofList, step]
    simp [keys]
  induction pairs with
  | nil => simp [keys]
  | cons pair rest induction =>
      intro entries
      have keysCons : key ∈ keys (pair :: rest) ↔ key = pair.1 ∨ key ∈ keys rest := List.mem_cons
      rw [List.foldl_cons, induction, mem_keys_insert, keysCons]
      constructor
      · rintro ((equal | before) | inRest)
        · exact .inr (.inl equal)
        · exact .inl before
        · exact .inr (.inr inRest)
      · rintro (before | equal | inRest)
        · exact .inl (.inr before)
        · exact .inl (.inl equal)
        · exact .inr inRest

/-- Every entry of the collection is one of the pairs collected. -/
theorem mem_of_mem_ofList {pairs : List (Key × Value)} {entry : Key × Value}
    (member : entry ∈ ofList pairs) : entry ∈ pairs := by
  suffices step : ∀ entries : List (Key × Value),
      entry ∈ pairs.foldl (fun entries pair => insert pair.1 pair.2 entries) entries →
        entry ∈ entries ∨ entry ∈ pairs from
    (step [] member).resolve_left List.not_mem_nil
  clear member
  induction pairs with
  | nil => exact fun _ kept => .inl kept
  | cons pair rest induction =>
      intro entries kept
      rcases induction _ kept with inserted | inRest
      · rcases eq_or_mem_of_mem_insert inserted with equal | before
        · exact .inr (List.mem_cons.mpr (.inl equal))
        · exact .inl before
      · exact .inr (List.mem_cons_of_mem pair inRest)

omit [LT Key] [DecidableLT Key] in
theorem lookup_cons_eq (head other : Key) (kept : Value) (rest : List (Key × Value)) :
    ((head, kept) :: rest).lookup other =
      if other = head then some kept else rest.lookup other := by
  by_cases equal : other = head
  · simp [equal]
  · simp [List.lookup_cons, equal, beq_false_of_ne equal]

theorem lookup_insert (key other : Key) (value : Value) (entries : List (Key × Value)) :
    (insert key value entries).lookup other =
      if other = key then some value else entries.lookup other := by
  induction entries with
  | nil => simp [insert, lookup_cons_eq]
  | cons entry rest induction =>
      rcases entry with ⟨head, kept⟩
      simp only [insert]
      split
      · simp [lookup_cons_eq]
      · split
        · next equal => by_cases same : other = head <;> simp [lookup_cons_eq, equal, same]
        · next different =>
            by_cases same : other = head
            · subst same
              simp [Ne.symm different]
            · simp [lookup_cons_eq, induction, same]

omit [LT Key] [DecidableLT Key] in
theorem lookup_eq_none_iff_not_mem_keys {key : Key} {entries : List (Key × Value)} :
    entries.lookup key = none ↔ key ∉ keys entries := by
  rw [List.lookup_eq_none_iff]
  constructor
  · intro different member
    rcases List.mem_map.mp member with ⟨entry, inside, rfl⟩
    simpa using different entry inside
  · intro notMember entry inside
    have other : key ≠ entry.1 := fun equal =>
      notMember (equal ▸ List.mem_map_of_mem inside)
    simpa using other

theorem lookup_insertNew (key other : Key) (value : Value) (entries : List (Key × Value)) :
    (insertNew key value entries).lookup other =
      if other = key then some ((entries.lookup key).getD value) else entries.lookup other := by
  simp only [insertNew, List.contains_iff_mem]
  by_cases known : key ∈ keys entries
  · rw [if_pos known]
    have found : entries.lookup key ≠ none := fun absent =>
      lookup_eq_none_iff_not_mem_keys.mp absent known
    rcases Option.ne_none_iff_exists'.mp found with ⟨kept, keptAt⟩
    by_cases same : other = key
    · subst same
      simp [keptAt]
    · simp [same]
  · rw [if_neg known, lookup_insert, lookup_eq_none_iff_not_mem_keys.mpr known]
    rfl

theorem mem_keys_insertNew {key other : Key} {value : Value} {entries : List (Key × Value)} :
    other ∈ keys (insertNew key value entries) ↔ other = key ∨ other ∈ keys entries := by
  simp only [insertNew, List.contains_iff_mem]
  by_cases known : key ∈ keys entries
  · rw [if_pos known]
    constructor
    · exact Or.inr
    · intro member
      rcases member with equal | member
      · exact equal ▸ known
      · exact member
  · rw [if_neg known]
    exact mem_keys_insert

omit [LT Key] [DecidableLT Key] in
theorem mem_of_lookup {key : Key} {value : Value} {entries : List (Key × Value)}
    (found : entries.lookup key = some value) : (key, value) ∈ entries := by
  rcases List.lookup_eq_some_iff.mp found with ⟨before, after, equal, _⟩
  rw [equal]
  exact List.mem_append_right before List.mem_cons_self

omit [DecidableLT Key] in
/-- A pair of the list is what its key is looked up to. -/
theorem lookup_of_mem [Std.Irrefl (α := Key) (· < ·)] {key : Key} {value : Value}
    {entries : List (Key × Value)} (ascending : IsAscending entries)
    (member : (key, value) ∈ entries) : entries.lookup key = some value := by
  induction entries with
  | nil => cases member
  | cons entry rest induction =>
      rcases entry with ⟨head, kept⟩
      have parts := List.pairwise_cons.mp ascending
      rw [lookup_cons_eq]
      rcases List.mem_cons.mp member with equal | inRest
      · cases equal
        exact if_pos rfl
      · have less : head < key := parts.1 key (List.mem_map_of_mem inRest)
        have different : key ≠ head := by
          intro equal
          subst equal
          exact Std.Irrefl.irrefl key less
        rw [if_neg different]
        exact induction parts.2 inRest

omit [LT Key] [DecidableLT Key] in
theorem lookup_filter (kept : Key → Bool) (key : Key) (entries : List (Key × Value)) :
    (entries.filter fun entry => kept entry.1).lookup key =
      if kept key then entries.lookup key else none := by
  induction entries with
  | nil => exact (ite_self none).symm
  | cons entry rest induction =>
      rcases entry with ⟨head, value⟩
      rw [List.filter_cons, lookup_cons_eq]
      by_cases same : key = head
      · subst same
        by_cases stays : kept key = true <;> simp [stays, induction]
      · rw [if_neg same]
        by_cases stays : kept head = true <;> simp [stays, lookup_cons_eq, same, induction]

omit [DecidableLT Key] [DecidableEq Key] in
theorem isAscending_filter {entries : List (Key × Value)} (ascending : IsAscending entries)
    (kept : Key × Value → Bool) : IsAscending (entries.filter kept) :=
  ascending.sublist (List.filter_sublist.map Prod.fst)

end MarkupExport.Ascending
