import MarkupExport.Format.Registry
import MarkupExport.Proofs.File.Extension

/-!
What a registry knows after any number of registrations. Names, look-ups and the search by extension
all read the same entries, and these hold for each name the format that was registered under it
last. A search finds one of the formats that are held, in whatever order it goes through them.
-/

namespace MarkupExport

/-! ## The last format of a name -/

/-- No later one of these formats has the same name. -/
def Format.IsCurrent (history : List Format) (format : Format) : Prop :=
  ∃ earlier later, history = earlier ++ format :: later ∧
    ∀ other ∈ later, other.name ≠ format.name

def Format.lastNamed? (history : List Format) (name : String) : Option Format :=
  history.reverse.find? fun format => format.name = name

namespace Format

variable {history : List Format} {format : Format} {name : String}

theorem lastNamed?_concat (history : List Format) (format : Format) (name : String) :
    lastNamed? (history ++ [format]) name =
      if format.name = name then some format else lastNamed? history name := by
  rw [lastNamed?, List.reverse_append, List.reverse_singleton, List.singleton_append,
    List.find?_cons]
  by_cases same : format.name = name <;> simp [same, lastNamed?]

theorem lastNamed?_eq_none_iff :
    lastNamed? history name = none ↔ ∀ format ∈ history, format.name ≠ name := by
  simp [lastNamed?]

theorem lastNamed?_eq_some_iff :
    lastNamed? history name = some format ↔ IsCurrent history format ∧ format.name = name := by
  rw [lastNamed?, List.find?_eq_some_iff_append, decide_eq_true_eq, and_comm]
  refine and_congr_left fun named => ?_
  subst named
  constructor
  · rintro ⟨later, earlier, reversed, different⟩
    refine ⟨earlier.reverse, later.reverse, ?_, fun other member => ?_⟩
    · rw [← List.reverse_reverse history, reversed]
      simp
    · simpa using different other (List.mem_reverse.mp member)
  · rintro ⟨earlier, later, rfl, different⟩
    refine ⟨later.reverse, earlier.reverse, by simp, fun other member => ?_⟩
    simpa using different other (List.mem_reverse.mp member)

end Format

namespace FormatRegistry

open Format

variable {registry : FormatRegistry} {history calls : List Format} {format : Format} {name : String}

/-! ## Registrations -/

/-- The registry holds the last format of each name. -/
def Holds (registry : FormatRegistry) (history : List Format) : Prop :=
  ∀ name, registry.entries.lookup name = lastNamed? history name

theorem Holds.empty : Holds {} [] :=
  fun _ => rfl

theorem Holds.register (holds : Holds registry history) (format : Format) :
    Holds (registry.register format) (history ++ [format]) := by
  intro name
  rw [lastNamed?_concat, ← holds name]
  refine (Ascending.lookup_insert _ _ _ _).trans ?_
  by_cases same : format.name = name
  · rw [if_pos same.symm, if_pos same]
  · rw [if_neg (Ne.symm same), if_neg same]

theorem Holds.registerAll (holds : Holds registry history) (calls : List Format) :
    Holds (calls.foldl FormatRegistry.register registry) (history ++ calls) := by
  induction calls generalizing registry history with
  | nil => rwa [List.append_nil]
  | cons format calls induction =>
      have whole := induction (holds.register format)
      rwa [List.append_assoc, List.singleton_append] at whole

theorem Holds.standard : Holds .standard [.html, .bbcode] :=
  (Holds.empty.register .html).register .bbcode

/-! ## What is read off the entries -/

namespace Holds

theorem mem_names_iff (holds : Holds registry history) :
    name ∈ registry.names ↔ ∃ format ∈ history, format.name = name := by
  have absent : name ∉ registry.names ↔ ∀ format ∈ history, format.name ≠ name := by
    rw [← lastNamed?_eq_none_iff, ← holds name, Ascending.lookup_eq_none_iff_not_mem_keys]
    rfl
  simpa using not_congr absent

theorem mem_formats_iff (holds : Holds registry history) :
    format ∈ registry.formats ↔ IsCurrent history format := by
  rw [formats, List.mem_map]
  constructor
  · rintro ⟨⟨name, found⟩, member, rfl⟩
    have entry := Ascending.lookup_of_mem registry.ascending_entries member
    rw [holds name, lastNamed?_eq_some_iff] at entry
    exact entry.1
  · intro current
    have entry := lastNamed?_eq_some_iff.mpr ⟨current, rfl⟩
    rw [← holds format.name] at entry
    exact ⟨_, Ascending.mem_of_lookup entry, rfl⟩

end Holds

theorem detectAmong?_eq_none_iff {order : List Format} {path : String} :
    detectAmong? order path = none ↔
      ∀ extension, FilePath.HasExtension path extension →
        ∀ format ∈ order, extension ∉ format.extensions := by
  simp only [← FilePath.extension?_eq_some_iff]
  rw [detectAmong?]
  cases FilePath.extension? path with
  | none => simp
  | some extension => simp

theorem of_detectAmong?_eq_some {order : List Format} {path : String}
    (detected : detectAmong? order path = some name) :
    ∃ extension, FilePath.HasExtension path extension ∧
      ∃ format ∈ order, extension ∈ format.extensions ∧ format.name = name := by
  simp only [← FilePath.extension?_eq_some_iff]
  rw [detectAmong?] at detected
  cases extended : FilePath.extension? path with
  | none => rw [extended] at detected; cases detected
  | some extension =>
      rw [extended] at detected
      rcases Option.map_eq_some_iff.mp detected with ⟨format, found, named⟩
      refine ⟨extension, rfl, format, List.mem_of_find?_eq_some found, ?_, named⟩
      simpa using List.find?_some found

/-! ## Whole histories -/

/-- The registry tells what has been registered, and nothing else. -/
structure IsFaithful (registry : FormatRegistry) (history : List Format) : Prop where
  ascending : registry.names.Pairwise (· < ·)
  names : ∀ name, name ∈ registry.names ↔ ∃ format ∈ history, format.name = name
  get : ∀ name format,
    registry.get name = .ok format ↔ IsCurrent history format ∧ format.name = name
  missing : ∀ name error,
    registry.get name = .error error ↔
      error = .formatNotFound name ∧ ∀ format ∈ history, format.name ≠ name
  serialize : ∀ format tree options, IsCurrent history format →
    registry.serialize format.name tree options = format.serialize tree options
  serialize_missing : ∀ name tree options, (∀ format ∈ history, format.name ≠ name) →
    registry.serialize name tree options = .error (.formatNotFound name)
  /-- The formats may be gone through in any order; `detect?` takes them by name. -/
  undetected : ∀ order path, order.Perm registry.formats →
    (detectAmong? order path = none ↔
      ∀ extension, FilePath.HasExtension path extension →
        ∀ format, IsCurrent history format → extension ∉ format.extensions)
  detected : ∀ order path name, order.Perm registry.formats →
    detectAmong? order path = some name →
      ∃ extension, FilePath.HasExtension path extension ∧
        ∃ format, IsCurrent history format ∧ extension ∈ format.extensions ∧ format.name = name

theorem Holds.get_eq (holds : Holds registry history) (name : String) :
    registry.get name =
      match lastNamed? history name with
      | some format => .ok format
      | none => .error (.formatNotFound name) := by
  cases last : lastNamed? history name with
  | none => simp only [FormatRegistry.get, holds name, last]
  | some format => simp only [FormatRegistry.get, holds name, last]

theorem Holds.isFaithful (holds : Holds registry history) : registry.IsFaithful history where
  ascending := registry.ascending_entries
  names name := holds.mem_names_iff
  get name format := by
    rw [holds.get_eq, ← lastNamed?_eq_some_iff]
    cases lastNamed? history name <;> simp
  missing name error := by
    rw [holds.get_eq, ← lastNamed?_eq_none_iff]
    cases lastNamed? history name <;> simp [eq_comm]
  serialize format tree options current := by
    rw [FormatRegistry.serialize, holds.get_eq, lastNamed?_eq_some_iff.mpr ⟨current, rfl⟩]
    rfl
  serialize_missing name tree options absent := by
    rw [FormatRegistry.serialize, holds.get_eq, lastNamed?_eq_none_iff.mpr absent]
    rfl
  undetected order path anyOrder := by
    rw [detectAmong?_eq_none_iff]
    simp only [anyOrder.mem_iff, holds.mem_formats_iff]
  detected order path name anyOrder found := by
    simpa only [anyOrder.mem_iff, holds.mem_formats_iff] using of_detectAmong?_eq_some found

/-- After any registrations, in an empty registry or on top of the built-in formats, a registry
tells what has been registered: names in ascending order, the last format of each name and what it
makes of a tree, and for a file name a format that lists its extension, if the last format of some
name does. -/
theorem register_faithful (calls : List Format) :
    (calls.foldl register {}).IsFaithful calls ∧
      (calls.foldl register standard).IsFaithful ([.html, .bbcode] ++ calls) :=
  ⟨(Holds.empty.registerAll calls).isFaithful, (Holds.standard.registerAll calls).isFaithful⟩

/-- An extension goes with the format that has been replaced. -/
example :
    let registry := standard.register { Format.html with extensions := ["xhtml"] }
    registry.names = ["bbcode", "html"] ∧ registry.detect? "a.html" = none ∧
      registry.detect? "a.tar.xhtml" = some "html" := by
  decide +kernel

end FormatRegistry

end MarkupExport
