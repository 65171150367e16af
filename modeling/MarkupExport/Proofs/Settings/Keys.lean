import Mathlib.Tactic.Choose
import MarkupExport.Proofs.Settings.Sections
import MarkupExport.Settings.Basic

/-!
The keys that settings are read from: where the value of each stands, which value it has at first,
and what it is read as.
-/

namespace MarkupExport

open SettingValue

inductive SettingKey where
  | bodyOnly
  | visibleOnly
  | asynchronous
  | extension
  | defaultFormat
deriving DecidableEq, Repr

namespace SettingKey

/-- The section that the key is in. -/
def place : SettingKey → String
  | defaultFormat => "convert"
  | _ => "export"

def name : SettingKey → String
  | bodyOnly => "body_only"
  | visibleOnly => "visible_only"
  | asynchronous => "asynchronous"
  | extension => "extension"
  | defaultFormat => "default_format"

def path (key : SettingKey) : SettingPath where
  root := key.place
  steps := [.name key.name]

def text (key : SettingKey) : String :=
  key.place ++ "." ++ key.name

/-- The values that a document gives to the key. -/
def given (key : SettingKey) (document : List (String × SettingValue)) : List SettingValue :=
  givenTo key.place key.name (writtenOut document)

instance {holds : SettingKey → Prop} [DecidablePred holds] : Decidable (∀ key, holds key) :=
  decidable_of_iff (∀ key ∈ [bodyOnly, visibleOnly, asynchronous, extension, defaultFormat],
    holds key)
    ⟨fun all key => all key (by cases key <;> decide), fun all key _ => all key⟩

theorem parse?_text (key : SettingKey) : SettingPath.parse? key.text = some key.path := by
  cases key <;> decide +kernel

theorem path_injective : Function.Injective path := by
  intro left right equal
  cases left <;> cases right <;> first | rfl | (revert equal; decide)

theorem place_mem (key : SettingKey) : key.place ∈ ["export", "convert"] := by
  cases key <;> decide

theorem lowercase_place (key : SettingKey) : Text.lowercase key.place = key.place := by
  cases key <;> decide +kernel

theorem lowercase_name (key : SettingKey) : Text.lowercase key.name = key.name := by
  cases key <;> decide +kernel

/-- An override of one key gives nothing to another. -/
theorem givenTo_path (key other : SettingKey) (value : SettingValue) :
    givenTo key.place key.name [other.path.entry value] =
      if other = key then [value] else [] := by
  have written : other.path.entry value = (other.place, table [(other.name, value)]) := rfl
  rw [written, givenTo_singleton, SettingValue.entries, named_cons, lowercase_place,
    lowercase_name]
  cases key <;> cases other <;> rfl

/-! ## Reading a value -/

/-- What a value of the key has to be. -/
@[reducible] def Kind : SettingKey → Type
  | bodyOnly | visibleOnly | asynchronous => Bool
  | extension => Option String
  | defaultFormat => String

/-- Reads the value that a key ends up with. Only an extension may be left out. -/
def convert? : (key : SettingKey) → Option SettingValue → Option key.Kind
  | bodyOnly, value | visibleOnly, value | asynchronous, value => value.bind bool?
  | extension, none | extension, some .absent => some none
  | extension, some value => some <$> value.text?
  | defaultFormat, value => value.bind text?

/-- What the settings have for the key. -/
def read (settings : Settings) : (key : SettingKey) → key.Kind
  | bodyOnly => settings.options.bodyOnly
  | visibleOnly => settings.options.visibleOnly
  | asynchronous => settings.options.asynchronous
  | extension => settings.options.extension
  | defaultFormat => settings.defaultFormat

/-- The value that a key has when none is given. -/
def builtIn? : SettingKey → Option SettingValue
  | bodyOnly | visibleOnly | asynchronous => some (.bool false)
  | extension => none
  | defaultFormat => some (.text "html")

theorem holdsAt_builtIn (key : SettingKey) :
    HoldsAt key.place key.name Settings.builtIn key.builtIn?.toList := by
  cases key <;> exact ⟨_, rfl, holds_toList _⟩

theorem convert?_of_isContainer {value : SettingValue} (isContainer : value.isContainer = true)
    (key : SettingKey) : key.convert? (some value) = none := by
  cases value with
  | table | array => cases key <;> rfl
  | _ => cases isContainer

theorem convert?_congr {left right : Option SettingValue} (alike : Option.Rel Alike left right)
    (key : SettingKey) : key.convert? left = key.convert? right := by
  cases alike with
  | none => rfl
  | some alike =>
      rcases alike with rfl | ⟨isLeft, isRight⟩
      · rfl
      · rw [convert?_of_isContainer isLeft, convert?_of_isContainer isRight]

/-- Settings from the values of all keys. -/
def read? (values : SettingKey → Option SettingValue) : Option Settings := do
  let bodyOnly ← bodyOnly.convert? (values bodyOnly)
  let visibleOnly ← visibleOnly.convert? (values visibleOnly)
  let asynchronous ← asynchronous.convert? (values asynchronous)
  let extension ← extension.convert? (values extension)
  let defaultFormat ← defaultFormat.convert? (values defaultFormat)
  return { options := { bodyOnly, visibleOnly, extension, asynchronous }, defaultFormat }

theorem read?_eq_some_iff {values : SettingKey → Option SettingValue} {settings : Settings} :
    read? values = some settings ↔
      ∀ key : SettingKey, key.convert? (values key) = some (key.read settings) := by
  constructor
  · intro isRead key
    simp only [read?, Option.bind_eq_bind, Option.bind_eq_some_iff] at isRead
    obtain ⟨_, bodyOnly, _, visibleOnly, _, asynchronous, _, extension, _, defaultFormat, equal⟩ :=
      isRead
    cases equal
    cases key <;> assumption
  · intro all
    simp only [read?, all, Option.bind_eq_bind, Option.bind_some]
    rfl

theorem exists_read?_iff {values : SettingKey → Option SettingValue} :
    (∃ settings, read? values = some settings) ↔
      ∀ key : SettingKey, (key.convert? (values key)).isSome = true := by
  constructor
  · rintro ⟨settings, isRead⟩ key
    rw [read?_eq_some_iff.mp isRead key]
    rfl
  · intro all
    have value (key : SettingKey) := Option.isSome_iff_exists.mp (all key)
    rcases value bodyOnly with ⟨_, bodyOnly⟩
    rcases value visibleOnly with ⟨_, visibleOnly⟩
    rcases value asynchronous with ⟨_, asynchronous⟩
    rcases value extension with ⟨_, extension⟩
    rcases value defaultFormat with ⟨_, defaultFormat⟩
    simp only [read?, bodyOnly, visibleOnly, asynchronous, extension, defaultFormat,
      Option.bind_eq_bind, Option.bind_some]
    exact ⟨_, rfl⟩

theorem read?_congr {left right : SettingKey → Option SettingValue}
    (alike : ∀ key, Option.Rel Alike (left key) (right key)) : read? left = read? right := by
  simp only [read?, convert?_congr (alike _)]

/-- Settings are read key by key from a value that has all sections. -/
theorem ofValue?_eq {value : SettingValue}
    {members : SettingKey → List (String × SettingValue)}
    (isSection : ∀ key, value.entries.lookup key.place = some (table (members key)))
    (isGiven : (members asynchronous).lookup asynchronous.name ≠ none) :
    Settings.ofValue? value = read? fun key => (members key).lookup key.name := by
  have hasOptions : value.entries.lookup "export" = some (table (members bodyOnly)) :=
    isSection bodyOnly
  have inExport (key : SettingKey) (place : key.place = "export") :
      members key = members bodyOnly := by
    have equal := isSection key
    rw [place, hasOptions] at equal
    simpa using equal.symm
  have hasOthers : value.entries.lookup "convert" = some (table (members defaultFormat)) :=
    isSection defaultFormat
  rcases Option.ne_none_iff_exists'.mp isGiven with ⟨flag, isFlag⟩
  rw [inExport asynchronous rfl] at isFlag
  -- A missing flag is no error here, but `convert?` refuses it, so the flag is needed below.
  simp only [Settings.ofValue?, Settings.options?, read?, name, member?, hasOptions, hasOthers,
    inExport visibleOnly rfl, inExport asynchronous rfl, inExport extension rfl,
    Option.bind_eq_bind, Option.bind_some] at isFlag ⊢
  rw [isFlag]
  cases (members bodyOnly).lookup "extension" with
  | none => simp only [convert?, Option.bind_assoc, Option.bind_some]; rfl
  | some value =>
      cases value <;> simp only [convert?, Option.bind_assoc, Option.bind_some] <;> rfl

theorem ofValue?_of_holdsAt {value : SettingValue} {given : SettingKey → List SettingValue}
    (holds : ∀ key : SettingKey, HoldsAt key.place key.name value (given key))
    (isGiven : given asynchronous ≠ []) :
    Settings.ofValue? value = read? fun key => prevailing (given key) := by
  choose members isSection holds using holds
  have isFound : (members asynchronous).lookup asynchronous.name ≠ none := by
    intro notFound
    have holdsNothing := holds asynchronous
    rw [notFound, holds_none_iff] at holdsNothing
    exact isGiven holdsNothing
  rw [ofValue?_eq isSection isFound]
  exact read?_congr holds

end SettingKey

end MarkupExport
