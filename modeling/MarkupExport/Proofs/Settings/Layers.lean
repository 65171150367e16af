import MarkupExport.Proofs.Settings.Keys
import MarkupExport.Proofs.Settings.Reordered

/-!
Settings are loaded key by key. Whatever order files and overrides are given in, what a key gets
depends only on the values that are given to it: the built-in one, those of the files in their
order, and the last override. A file gives one value at most, so the order of its entries does not
count.
-/

namespace MarkupExport

open SettingValue

/-! ## Files -/

namespace Layer

/-- The entries of the document in the file, if there is one. -/
def entries (layer : Layer) : List (String × SettingValue) :=
  (layer.text.bind Settings.entries?).getD []

/-- The values that the file gives to a key. -/
def given (layer : Layer) (key : SettingKey) : List SettingValue :=
  key.given layer.entries

/-- The file is a document, the sections that it has are tables, and no key is set twice in it. Names
are the same in any case, and one that spells a path is taken for what it spells. -/
structure IsReadable (layer : Layer) : Prop where
  isDocument : layer.text.all (fun text => (Settings.entries? text).isSome) = true
  hasTables : ∀ place ∈ ["export", "convert"], HasTable place (writtenOut layer.entries)
  setsOnce : ∀ key, (layer.given key).length ≤ 1

instance (layer : Layer) : Decidable layer.IsReadable :=
  decidable_of_iff (_ ∧ _ ∧ _)
    ⟨fun ⟨isDocument, hasTables, setsOnce⟩ => ⟨isDocument, hasTables, setsOnce⟩,
      fun isReadable => ⟨isReadable.isDocument, isReadable.hasTables, isReadable.setsOnce⟩⟩

example : ¬ IsReadable
    { text := some "[export]\nbody_only = true\nBody_Only = false\n", required := true } := by
  decide +kernel

/-- The file is there if it has to be. -/
def IsThere (layer : Layer) : Prop :=
  layer.required = true → layer.text.isSome = true

instance (layer : Layer) : Decidable layer.IsThere :=
  inferInstanceAs (Decidable (_ → _))

/-- A file that is not there and does not have to be. -/
def isIdle (layer : Layer) : Bool :=
  layer.text.isNone && !layer.required

theorem putLayer_eq {layer : Layer} (isReadable : layer.IsReadable) (isThere : layer.IsThere)
    (target : SettingValue) :
    Settings.putLayer target layer = .ok (target.putDocument layer.entries) := by
  rcases layer with ⟨_ | text, required⟩
  · cases required with
    | false => rfl
    | true => cases isThere rfl
  · rcases Option.isSome_iff_exists.mp isReadable.isDocument with ⟨entries, isDocument⟩
    simp only [Settings.putLayer, isDocument, Layer.entries, Option.bind_some, Option.getD_some]

theorem foldlM_putLayer {layers : List Layer}
    (sound : ∀ layer ∈ layers, layer.IsReadable ∧ layer.IsThere) (target : SettingValue) :
    layers.foldlM Settings.putLayer target =
      .ok ((layers.map entries).foldl SettingValue.putDocument target) := by
  induction layers generalizing target with
  | nil => rfl
  | cons layer layers induction =>
      rcases List.forall_mem_cons.mp sound with ⟨⟨isReadable, isThere⟩, inRest⟩
      rw [List.foldlM_cons, putLayer_eq isReadable isThere]
      exact induction inRest _

/-- Documents that list the entries of readable files in another order give the same to a key. -/
theorem similar_given {layers : List Layer} (readable : ∀ layer ∈ layers, layer.IsReadable)
    {documents : List (List (String × SettingValue))}
    (reordered : List.Forall₂ Reordered (layers.map entries) documents) (key : SettingKey) :
    (∀ document ∈ documents, HasTable key.place (writtenOut document)) ∧
      List.Forall₂ Similar (layers.flatMap (·.given key)) (documents.flatMap key.given) := by
  induction layers generalizing documents with
  | nil =>
      cases reordered
      exact ⟨nofun, .nil⟩
  | cons layer layers induction =>
      rcases List.forall_mem_cons.mp readable with ⟨isReadable, inRest⟩
      cases reordered with
      | cons first rest =>
          rcases induction inRest rest with ⟨hasTables, similar⟩
          have hasTable := first.hasTable (isReadable.hasTables key.place key.place_mem)
          refine ⟨List.forall_mem_cons.mpr ⟨hasTable, hasTables⟩, ?_⟩
          exact List.rel_append (first.similar_givenTo (isReadable.setsOnce key)) similar

theorem exists_error_of_missing {layer : Layer} (required : layer.required = true)
    (missing : layer.text = none) {layers : List Layer} (member : layer ∈ layers)
    (target : SettingValue) : ∃ error, layers.foldlM Settings.putLayer target = .error error := by
  induction layers generalizing target with
  | nil => cases member
  | cons head layers induction =>
      rw [List.foldlM_cons]
      cases put : Settings.putLayer target head with
      | error error => exact ⟨error, rfl⟩
      | ok target =>
          rcases List.mem_cons.mp member with rfl | inRest
          · rw [Settings.putLayer, missing, required] at put
            cases put
          · exact induction inRest target

theorem foldlM_filter_isIdle (layers : List Layer) (target : SettingValue) :
    (layers.filter fun layer => !layer.isIdle).foldlM Settings.putLayer target =
      layers.foldlM Settings.putLayer target := by
  induction layers generalizing target with
  | nil => rfl
  | cons layer layers induction =>
      rw [List.filter_cons, List.foldlM_cons]
      cases idle : layer.isIdle with
      | false =>
          rw [Bool.not_false, if_pos rfl, List.foldlM_cons]
          exact congrArg _ (funext induction)
      | true =>
          rcases layer with ⟨_ | text, _ | _⟩ <;> cases idle
          exact induction target

end Layer

/-! ## Overrides -/

namespace Loader

def valuesOf (key : SettingKey) (overrides : List (SettingKey × SettingValue)) :
    List SettingValue :=
  (overrides.filter fun override => override.1 = key).map Prod.snd

theorem valuesOf_cons (key : SettingKey) (override : SettingKey × SettingValue)
    (overrides : List (SettingKey × SettingValue)) :
    valuesOf key (override :: overrides) =
      if override.1 = key then override.2 :: valuesOf key overrides
      else valuesOf key overrides :=
  map_snd_filter_cons (· = key) override overrides

/-- Of several overrides of a key only the last is kept. -/
def keep (kept : List (SettingKey × SettingValue)) (override : SettingKey × SettingValue) :
    List (SettingKey × SettingValue) :=
  kept.filter (fun other => other.1 ≠ override.1) ++ [override]

theorem valuesOf_keep (key : SettingKey) (kept : List (SettingKey × SettingValue))
    (override : SettingKey × SettingValue) :
    valuesOf key (keep kept override) =
      if override.1 = key then [override.2] else valuesOf key kept := by
  rw [keep, valuesOf, List.filter_append, List.filter_filter]
  by_cases same : override.1 = key
  · subst same
    simp
  · have unaffected (other : SettingKey × SettingValue) :
        (decide (other.1 = key) && !decide (other.1 = override.1)) = decide (other.1 = key) := by
      by_cases equal : other.1 = key
      · simp [equal, Ne.symm same]
      · simp [equal]
    simp [same, unaffected, valuesOf]

theorem valuesOf_foldl_keep (key : SettingKey) (overrides kept : List (SettingKey × SettingValue)) :
    valuesOf key (overrides.foldl keep kept) =
      ((valuesOf key overrides).getLast?.map ([·])).getD (valuesOf key kept) := by
  induction overrides generalizing kept with
  | nil => rfl
  | cons override overrides induction =>
      rw [List.foldl_cons, induction, valuesOf_keep, valuesOf_cons]
      split
      · cases last : (valuesOf key overrides).getLast? with
        | none => simp [List.getLast?_cons, last]
        | some value => simp [List.getLast?_cons, last]
      · rfl

theorem valuesOf_kept (key : SettingKey) (overrides : List (SettingKey × SettingValue)) :
    valuesOf key (overrides.foldl keep []) = (valuesOf key overrides).getLast?.toList := by
  rw [valuesOf_foldl_keep]
  cases (valuesOf key overrides).getLast? <;> rfl

/-- Overrides as a loader has them. -/
def placed (overrides : List (SettingKey × SettingValue)) : List (SettingPath × SettingValue) :=
  overrides.map fun override => (override.1.path, override.2)

theorem setOverride_text (layers : List Layer) (kept : List (SettingKey × SettingValue))
    (key : SettingKey) (value : SettingValue) :
    setOverride { layers, overrides := placed kept } key.text value =
      .ok { layers, overrides := placed (keep kept (key, value)) } := by
  have others : (placed kept).filter (fun entry => entry.1 ≠ key.path) =
      placed (kept.filter fun other => other.1 ≠ key) := by
    rw [placed, List.filter_map, placed]
    congr 1
    refine List.filter_congr fun other _ => ?_
    simp [SettingKey.path_injective.eq_iff]
  rw [setOverride, key.parse?_text]
  simp only [others, keep]
  rw [placed, placed, List.map_append]
  rfl

/-- Overrides give to each key what is kept for it. -/
theorem holdsAt_overrides {key : SettingKey} {target : SettingValue} {values : List SettingValue}
    (holds : HoldsAt key.place key.name target values)
    (overrides : List (SettingKey × SettingValue)) :
    HoldsAt key.place key.name
      ((placed overrides).foldl (fun target (path, value) => target.putPath path value) target)
      (values ++ valuesOf key overrides) := by
  induction overrides generalizing target values with
  | nil => rwa [valuesOf, List.filter_nil, List.map_nil, List.append_nil]
  | cons override overrides induction =>
      have put := holds.putPath override.1.path override.2 fun _ => rfl
      rw [SettingKey.givenTo_path] at put
      rw [valuesOf_cons]
      by_cases same : override.1 = key
      · rw [if_pos same] at put ⊢
        rw [List.append_cons]
        exact induction put
      · rw [if_neg same, List.append_nil] at put
        rw [if_neg same]
        exact induction put

/-! ## Calls -/

inductive Call where
  | withLayer (layer : Layer)
  | setOverride (key : SettingKey) (value : SettingValue)

namespace Call

def perform (loader : Loader) : Call → Except SettingsError Loader
  | withLayer layer => .ok (loader.withLayer layer)
  | setOverride key value => loader.setOverride key.text value

def layer? : Call → Option Layer
  | withLayer layer => some layer
  | setOverride .. => none

def override? : Call → Option (SettingKey × SettingValue)
  | withLayer _ => none
  | setOverride key value => some (key, value)

def isIdle : Call → Bool
  | withLayer layer => layer.isIdle
  | setOverride .. => false

end Call

/-- Loads settings after these calls. -/
def buildAfter (calls : List Call) : Except SettingsError Settings := do
  (← calls.foldlM Call.perform {}).build

def layersOf (calls : List Call) : List Layer :=
  calls.filterMap Call.layer?

def overridesOf (calls : List Call) : List (SettingKey × SettingValue) :=
  calls.filterMap Call.override?

theorem foldlM_perform (calls : List Call) (layers : List Layer)
    (kept : List (SettingKey × SettingValue)) :
    calls.foldlM Call.perform { layers, overrides := placed kept } = .ok
      { layers := layers ++ layersOf calls
        overrides := placed ((overridesOf calls).foldl keep kept) } := by
  induction calls generalizing layers kept with
  | nil =>
      rw [layersOf, List.filterMap_nil, List.append_nil]
      rfl
  | cons call calls induction =>
      rw [List.foldlM_cons]
      cases call with
      | withLayer layer =>
          refine (induction (layers ++ [layer]) kept).trans ?_
          rw [layersOf, layersOf, List.filterMap_cons, List.append_assoc]
          rfl
      | setOverride key value =>
          rw [Call.perform, setOverride_text]
          exact induction layers (keep kept (key, value))

theorem buildAfter_eq (calls : List Call) :
    buildAfter calls = build
      { layers := layersOf calls, overrides := placed ((overridesOf calls).foldl keep []) } := by
  have performed := foldlM_perform calls [] []
  rw [List.nil_append] at performed
  exact congrArg (· >>= build) performed

theorem layersOf_filter (calls : List Call) :
    layersOf (calls.filter fun call => !call.isIdle) =
      (layersOf calls).filter fun layer => !layer.isIdle := by
  rw [layersOf, List.filterMap_filter, layersOf, List.filter_filterMap]
  congr 1
  funext call
  cases call with
  | withLayer layer => rw [Call.layer?, Option.filter_some]; rfl
  | setOverride => rfl

theorem overridesOf_filter (calls : List Call) :
    overridesOf (calls.filter fun call => !call.isIdle) = overridesOf calls := by
  rw [overridesOf, List.filterMap_filter, overridesOf]
  congr 1
  funext call
  cases call with
  | withLayer => rw [Call.override?, ite_self]
  | setOverride => rfl

/-- Every file that has to be there is there, and every file that is there can be read. -/
def AreSound (calls : List Call) : Prop :=
  ∀ layer ∈ layersOf calls, layer.IsReadable ∧ layer.IsThere

instance (calls : List Call) : Decidable (AreSound calls) :=
  inferInstanceAs (Decidable (∀ layer ∈ layersOf calls, _))

/-- All values that are given to a key, each of which goes over those before it. -/
def given (calls : List Call) (key : SettingKey) : List SettingValue :=
  key.builtIn?.toList ++ (layersOf calls).flatMap (·.given key) ++
    (valuesOf key (overridesOf calls)).getLast?.toList

/-- The last override of a key, or else what the last file gives to it, or else its first value. -/
def lastGiven (calls : List Call) (key : SettingKey) : Option SettingValue :=
  ((valuesOf key (overridesOf calls)).getLast?.or
    ((layersOf calls).flatMap (·.given key)).getLast?).or key.builtIn?

/-- The value that a key ends up with. -/
def winning (calls : List Call) (key : SettingKey) : Option SettingValue :=
  prevailing (given calls key)

theorem winning_eq {calls : List Call} {key : SettingKey}
    (noneVoid : ∀ value ∈ given calls key, value.isVoid = false) :
    winning calls key = lastGiven calls key := by
  have kept : (given calls key).filter (fun value => !value.isVoid) = given calls key :=
    List.filter_eq_self.mpr fun value member => by rw [noneVoid value member]; rfl
  have alone (value : Option SettingValue) : value.toList.getLast? = value := by
    cases value <;> rfl
  rw [winning, prevailing, kept, Option.or_self, given, List.getLast?_append, List.getLast?_append,
    alone, alone, lastGiven, Option.or_assoc]

/-- Settings from documents, each of which goes over those before it, and from overrides. -/
def ofDocuments (documents : List (List (String × SettingValue)))
    (overrides : List (SettingKey × SettingValue)) : Option Settings :=
  let gathered := documents.foldl SettingValue.putDocument Settings.builtIn
  Settings.ofValue? ((placed (overrides.foldl keep [])).foldl
    (fun target (path, value) => target.putPath path value) gathered)

/-- Documents and overrides come together key by key. -/
theorem ofDocuments_eq {documents : List (List (String × SettingValue))}
    (hasTables : ∀ key : SettingKey, ∀ document ∈ documents,
      HasTable key.place (writtenOut document))
    (overrides : List (SettingKey × SettingValue)) :
    ofDocuments documents overrides = SettingKey.read? fun key =>
      prevailing (key.builtIn?.toList ++ documents.flatMap key.given ++
        (valuesOf key overrides).getLast?.toList) := by
  -- In all three stages every key holds what prevails among the values it has been given so far.
  have gathered := fun key => (SettingKey.holdsAt_builtIn key).putDocuments (hasTables key)
  have withOverrides := fun key => holdsAt_overrides (gathered key) (overrides.foldl keep [])
  simp only [valuesOf_kept] at withOverrides
  exact SettingKey.ofValue?_of_holdsAt withOverrides (List.cons_ne_nil _ _)

theorem buildAfter_of_sound {calls : List Call} (sound : AreSound calls) :
    buildAfter calls =
      match SettingKey.read? (winning calls) with
      | some settings => .ok settings
      | none => .error .unusableValue := by
  have hasTables (key : SettingKey) : ∀ document ∈ (layersOf calls).map Layer.entries,
      HasTable key.place (writtenOut document) := by
    intro document member
    rcases List.mem_map.mp member with ⟨layer, inLayers, rfl⟩
    exact (sound layer inLayers).1.hasTables key.place key.place_mem
  have isRead : ofDocuments ((layersOf calls).map Layer.entries) (overridesOf calls) =
      SettingKey.read? (winning calls) := by
    rw [ofDocuments_eq hasTables]
    simp only [List.flatMap_map]
    rfl
  rw [buildAfter_eq, build, gather, Layer.foldlM_putLayer sound, ← isRead]
  rfl

theorem ofDocuments_of_reordered {calls : List Call} (sound : AreSound calls)
    {documents : List (List (String × SettingValue))}
    (reordered : List.Forall₂ Reordered ((layersOf calls).map Layer.entries) documents) :
    ofDocuments documents (overridesOf calls) = (buildAfter calls).toOption := by
  have similar := Layer.similar_given (fun layer member => (sound layer member).1) reordered
  have alike (key : SettingKey) : Option.Rel Alike (winning calls key)
      (prevailing (key.builtIn?.toList ++ documents.flatMap key.given ++
        (valuesOf key (overridesOf calls)).getLast?.toList)) :=
    prevailing_similar (List.rel_append
      (List.rel_append (Similar.forall₂_refl _) (similar key).2) (Similar.forall₂_refl _))
  rw [ofDocuments_eq fun key => (similar key).1, buildAfter_of_sound sound,
    ← SettingKey.read?_congr alike]
  cases SettingKey.read? (winning calls) <;> rfl

/-- Only what is given to each key counts. Files and overrides may come in any order among each
other, files that are neither there nor have to be may be left out, and one that has to be there
and is not is an error wherever it stands. Else there are settings just if the winning value of
every key can be read, and these are its values, in whatever order the entries of each file are put
in. A value wins by being the last one given, unless an empty table is among them. -/
theorem buildAfter_key_by_key (calls : List Call) :
    (∀ others, layersOf others = layersOf calls → overridesOf others = overridesOf calls →
      buildAfter others = buildAfter calls) ∧
    buildAfter (calls.filter fun call => !call.isIdle) = buildAfter calls ∧
    (∀ layer ∈ layersOf calls, layer.required = true → layer.text = none →
      ∃ error, buildAfter calls = .error error) ∧
    (AreSound calls →
      ((∃ settings, buildAfter calls = .ok settings) ↔
        ∀ key : SettingKey, (key.convert? (winning calls key)).isSome = true) ∧
      (∀ settings, buildAfter calls = .ok settings →
        ∀ key : SettingKey, key.convert? (winning calls key) = some (key.read settings)) ∧
      (∀ others, AreSound others → (∀ key, winning others key = winning calls key) →
        buildAfter others = buildAfter calls) ∧
      ∀ documents, List.Forall₂ Reordered ((layersOf calls).map Layer.entries) documents →
        ofDocuments documents (overridesOf calls) = (buildAfter calls).toOption) ∧
    ∀ key, (∀ value ∈ given calls key, value.isVoid = false) →
      winning calls key = lastGiven calls key := by
  refine ⟨fun others sameLayers sameOverrides => ?_, ?_, fun layer member required missing => ?_,
    fun sound => ⟨?_, fun settings isOk => ?_, fun others othersSound same => ?_,
      fun documents reordered => ofDocuments_of_reordered sound reordered⟩,
    fun key => winning_eq⟩
  · rw [buildAfter_eq, buildAfter_eq, sameLayers, sameOverrides]
  · rw [buildAfter_eq, buildAfter_eq, layersOf_filter, overridesOf_filter, build, gather,
      Layer.foldlM_filter_isIdle]
    rfl
  · rcases Layer.exists_error_of_missing required missing member Settings.builtIn with
      ⟨error, isError⟩
    rw [buildAfter_eq, build, gather, isError]
    exact ⟨error, rfl⟩
  · rw [← SettingKey.exists_read?_iff, buildAfter_of_sound sound]
    cases SettingKey.read? (winning calls) <;> simp
  · rw [← SettingKey.read?_eq_some_iff]
    rw [buildAfter_of_sound sound] at isOk
    cases isRead : SettingKey.read? (winning calls) with
    | none => rw [isRead] at isOk; cases isOk
    | some found => rw [isRead] at isOk; cases isOk; rfl
  · rw [buildAfter_of_sound sound, buildAfter_of_sound othersSound, funext same]

theorem buildAfter_key_by_key_mixed :
    let perhaps : Layer := { text := some "[export]\nbody_only = 'perhaps'\n", required := true }
    let one : Layer := { text := some "[Export]\nBody_Only = 1\n[a]\nb = 2\n", required := true }
    let calls : List Call := [.withLayer perhaps, .setOverride .extension (.text "bb"),
      .withLayer { text := none, required := false }, .withLayer one]
    let missing : Call := .withLayer { text := none, required := true }
    buildAfter [calls[1], calls[0], calls[2], calls[3]] = buildAfter calls ∧
      buildAfter [calls[0], calls[1], calls[3]] = buildAfter calls ∧
      (∃ error, buildAfter (missing :: calls) = .error error) ∧
      (∃ settings, buildAfter calls = .ok settings) ∧
      ofDocuments [perhaps.entries, [], one.entries.reverse] (overridesOf calls) =
        (buildAfter calls).toOption ∧
      winning calls .bodyOnly = lastGiven calls .bodyOnly := by
  intro perhaps one calls missing
  have sound : AreSound calls := by decide +kernel
  rcases buildAfter_key_by_key calls with ⟨anyOrder, _, _, inOrder, winning⟩
  rcases inOrder sound with ⟨isOk, _, sameWinning, reordered⟩
  have turned : Reordered one.entries one.entries.reverse := by
    rcases List.length_eq_two.mp (by decide +kernel : one.entries.length = 2) with
      ⟨first, second, entries⟩
    rw [entries]
    exact .single .here
  refine ⟨anyOrder _ rfl rfl, sameWinning _ (by decide +kernel) fun key => rfl, ?_, ?_,
    reordered _ (.cons .refl (.cons .refl (.cons turned .nil))), ?_⟩
  · exact (buildAfter_key_by_key (missing :: calls)).2.2.1 _ List.mem_cons_self rfl rfl
  · refine isOk.mpr fun key => ?_
    cases key <;> decide +kernel
  · exact winning .bodyOnly (by decide +kernel)

/-- An empty table is no value to read, yet it does not take the place of one. -/
theorem empty_table_leaves_value :
    let calls : List Call :=
      [.withLayer { text := some "[export]\nbody_only = \x7b\x7d\n", required := true }]
    AreSound calls ∧ ¬ ((∃ settings, buildAfter calls = .ok settings) ↔
      ∀ key : SettingKey, (key.convert? (lastGiven calls key)).isSome = true) := by
  intro calls
  have isOk : (buildAfter calls).toOption = some Settings.standard := by decide +kernel
  have unreadable : (SettingKey.bodyOnly.convert? (lastGiven calls .bodyOnly)).isSome = false := by
    decide +kernel
  refine ⟨by decide +kernel, fun claimed => ?_⟩
  cases built : buildAfter calls with
  | error error => rw [built] at isOk; cases isOk
  | ok settings =>
      have readable := claimed.mp ⟨settings, built⟩ .bodyOnly
      rw [unreadable] at readable
      cases readable

/-- A name that spells a path leads into the section, though it is the name of none. -/
theorem spelled_path_sets_key :
    let spelled : Layer := { text := some "'export.body_only' = true\n", required := true }
    AreSound [.withLayer spelled] ∧
      (∀ entry ∈ spelled.entries, Text.lowercase entry.1 ∉ ["export", "convert"]) ∧
      (buildAfter [.withLayer spelled]).toOption =
        some { Settings.standard with options := { bodyOnly := true } } ∧
      (buildAfter []).toOption = some Settings.standard := by
  decide +kernel

end Loader

end MarkupExport
