import Mathlib.Data.Option.Basic
import MarkupExport.Node.Reader

/-!
A node field by field. Whether it is written as an object or as an array, a node has at most one
value for each of three fields, and it is read from these values alone. A field that is left out is
read as if it were empty.
-/

namespace MarkupExport

/-- What a node is made of, in the order in which an array holds it. -/
inductive Field where
  | kind
  | children
  | properties
deriving DecidableEq

namespace Field

def name : Field → String
  | .kind => "kind"
  | .children => "children"
  | .properties => "properties"

def index : Field → Nat
  | .kind => 0
  | .children => 1
  | .properties => 2

def ofName? (name : String) : Option Field :=
  [kind, children, properties].find? fun field => field.name = name

def ofIndex? (index : Nat) : Option Field :=
  [kind, children, properties][index]?

theorem forall_iff {holds : Field → Prop} :
    (∀ field, holds field) ↔ holds .kind ∧ holds .children ∧ holds .properties :=
  ⟨fun all => ⟨all _, all _, all _⟩, fun ⟨ofKind, ofChildren, ofProperties⟩ field =>
    match field with
    | .kind => ofKind
    | .children => ofChildren
    | .properties => ofProperties⟩

theorem ofName?_eq_some_iff {name : String} {field : Field} :
    ofName? name = some field ↔ field.name = name := by
  constructor
  · intro found
    simpa using List.find?_some found
  · rintro rfl
    cases field <;> decide

theorem name_ne_of_unknown {name : String} (unknown : ofName? name = none) (field : Field) :
    name ≠ field.name := by
  rintro rfl
  rw [ofName?_eq_some_iff.mpr rfl] at unknown
  cases unknown

theorem name_injective : Function.Injective name := by
  intro field other
  cases field <;> cases other <;> decide

theorem index_injective : Function.Injective index := by
  intro field other
  cases field <;> cases other <;> decide

theorem ofIndex?_eq_some_iff {index : Nat} {field : Field} :
    ofIndex? index = some field ↔ field.index = index := by
  rcases index with _ | _ | _ | index <;> cases field <;> simp [ofIndex?, Field.index]

abbrev Value : Field → Type
  | .kind => NodeKind
  | .children => List Node
  | .properties => Properties

def of (node : Node) : (field : Field) → field.Value
  | .kind => node.kind
  | .children => node.children
  | .properties => node.properties

def ofJson? : (field : Field) → Json → Option field.Value
  | .kind => NodeKind.ofJson?
  | .children => Node.children?
  | .properties => Properties.ofJson?

/-- No children and no properties. There is no empty kind. -/
def empty? : Field → Option Json
  | .kind => none
  | .children => some (.array [])
  | .properties => some (.object [])

/-- What the field is if these values are given for it. -/
def read? (field : Field) : List Json → Option field.Value
  | [] => field.empty?.bind field.ofJson?
  | [value] => field.ofJson? value
  | _ :: _ :: _ => none

theorem read?_perm (field : Field) {values others : List Json} (same : values.Perm others) :
    field.read? values = field.read? others := by
  rcases values with _ | ⟨value, _ | ⟨next, values⟩⟩
  · rw [same.nil_eq]
  · rw [List.singleton_perm.mp same]
  · have length := same.length_eq
    rcases others with _ | ⟨_, _ | _⟩
    · cases length
    · cases length
    · rfl

/-- An empty field may as well be left out. -/
theorem read?_of_empty {field : Field} {empty : Json} {values : List Json} {content : field.Value}
    (isEmpty : field.empty? = some empty) (read : field.read? (empty :: values) = some content) :
    field.read? values = some content := by
  cases values with
  | nil =>
      rw [read?, isEmpty]
      exact read
  | cons value values => cases read

/-- A value that is given for the field is the only one, and says what the field is. -/
theorem read?_append_cons {field : Field} {before after : List Json} {value : Json}
    {content : field.Value} (read : field.read? (before ++ value :: after) = some content) :
    before = [] ∧ after = [] ∧ field.ofJson? value = some content := by
  rcases before with _ | ⟨first, _ | ⟨_, _⟩⟩
  · cases after with
    | nil => exact ⟨rfl, rfl, read⟩
    | cons => cases read
  · cases read
  · cases read

end Field

namespace Json

/-- The values that are given for this field. -/
def memberValues (field : Field) (members : List (Option String × Json)) : List Json :=
  members.filterMap fun member => if member.1 = some field.name then some member.2 else none

end Json

/-! ## What is passed over -/

/-- Of the fields, only the children hold nodes whose members are passed over unread. -/
def Field.readPart : Field → Json → Json
  | .kind, value => value
  | .children, value => Json.readChildren value
  | .properties, value => value

theorem Json.readMembers_cons_unknown {name : String} (unknown : Field.ofName? name = none)
    (value : Json) (members : List (Option String × Json)) :
    readMembers ((some name, value) :: members) = readMembers members := by
  have notKind : name ≠ "kind" := Field.name_ne_of_unknown unknown .kind
  have notChildren : name ≠ "children" := Field.name_ne_of_unknown unknown .children
  have notProperties : name ≠ "properties" := Field.name_ne_of_unknown unknown .properties
  simp [readMembers, notKind, notChildren, notProperties]

theorem Json.readMembers_cons_field (field : Field) (value : Json)
    (members : List (Option String × Json)) :
    readMembers ((some field.name, value) :: members) =
      (some field.name, field.readPart value) :: readMembers members := by
  cases field <;> simp [readMembers, Field.name, Field.readPart]

/-! ## The members of an object -/

namespace Field

/-- What is known of the field once these values have been met. -/
def met? (field : Field) : List Json → Option (Option field.Value)
  | [] => some none
  | [value] => (field.ofJson? value).map some
  | _ :: _ :: _ => none

theorem read?_eq_met?_bind (field : Field) (values : List Json) :
    field.read? values =
      (field.met? values).bind (·.or (field.empty?.bind field.ofJson?)) := by
  rcases values with _ | ⟨value, _ | _⟩
  · rfl
  · rw [read?, met?]
    cases field.ofJson? value <;> rfl
  · rfl

theorem met?_cons_eq_some_iff {field : Field} {value : Json} {values : List Json}
    {met : Option field.Value} :
    field.met? (value :: values) = some met ↔
      values = [] ∧ (field.ofJson? value).map some = some met := by
  cases values <;> simp [met?]

theorem eq_nil_of_met? {field : Field} {values : List Json}
    (unmet : field.met? values = some none) : values = [] := by
  cases values with
  | nil => rfl
  | cons value values => simp [met?_cons_eq_some_iff] at unmet

end Field

namespace NodeFields

def met (fields : NodeFields) : (field : Field) → Option field.Value
  | .kind => fields.kind
  | .children => fields.children
  | .properties => fields.properties

def set (fields : NodeFields) : (field : Field) → field.Value → NodeFields
  | .kind, kind => { fields with kind := some kind }
  | .children, children => { fields with children := some children }
  | .properties, properties => { fields with properties := some properties }

theorem met_set_self (fields : NodeFields) (field : Field) (value : field.Value) :
    (fields.set field value).met field = some value := by
  cases field <;> rfl

theorem met_set_of_ne (fields : NodeFields) {field other : Field} (different : other ≠ field)
    (value : field.Value) : (fields.set field value).met other = fields.met other := by
  cases field <;> cases other <;> first | rfl | exact absurd rfl different

/-- A node is made of what has been met, and of nothing where nothing has been. -/
theorem node?_eq_some_iff {fields : NodeFields} {node : Node} :
    fields.node? = some node ↔ ∀ field : Field,
      (fields.met field).or (field.empty?.bind field.ofJson?) = some (field.of node) := by
  rcases fields with ⟨kind, children, properties⟩
  rcases node with ⟨nodeKind, nodeChildren, nodeProperties⟩
  constructor
  · intro made
    rcases Option.map_eq_some_iff.mp made with ⟨_, rfl, same⟩
    cases same
    rintro ⟨⟩
    · rfl
    · cases children <;> rfl
    · cases properties <;> rfl
  · intro known
    have ofKind := known .kind
    have ofChildren := known .children
    have ofProperties := known .properties
    have made : kind = some nodeKind := by
      cases kind with
      | none => cases ofKind
      | some kind => exact ofKind
    have holds : children.getD [] = nodeChildren := by
      cases children <;> exact Option.some.inj ofChildren
    have carries : properties.getD [] = nodeProperties := by
      cases properties <;> exact Option.some.inj ofProperties
    rw [node?, made, Option.map_some, holds, carries]

end NodeFields

theorem Json.memberValues_cons_self (field : Field) (value : Json)
    (members : List (Option String × Json)) :
    memberValues field ((some field.name, value) :: members) =
      value :: memberValues field members :=
  List.filterMap_cons_some (if_pos rfl)

theorem Json.memberValues_cons_of_ne {field : Field} {name : String}
    (different : name ≠ field.name) (value : Json) (members : List (Option String × Json)) :
    memberValues field ((some name, value) :: members) = memberValues field members :=
  List.filterMap_cons_none (if_neg fun same => different (Option.some.inj same))

theorem Json.memberValues_append (field : Field) (members others : List (Option String × Json)) :
    memberValues field (members ++ others) =
      memberValues field members ++ memberValues field others :=
  List.filterMap_append

namespace Node

theorem fields?_cons_unknown {name : String} (unknown : Field.ofName? name = none) (value : Json)
    (members : List (Option String × Json)) :
    fields? ((some name, value) :: members) = fields? members := by
  have notKind : name ≠ "kind" := Field.name_ne_of_unknown unknown .kind
  have notChildren : name ≠ "children" := Field.name_ne_of_unknown unknown .children
  have notProperties : name ≠ "properties" := Field.name_ne_of_unknown unknown .properties
  rw [fields?]
  refine Eq.trans (congrArg _ (funext fun fields => ?_)) (bind_pure (fields? members))
  rw [if_neg notKind, if_neg notChildren, if_neg notProperties]

theorem fields?_cons_field (field : Field) (value : Json) (members : List (Option String × Json)) :
    fields? ((some field.name, value) :: members) =
      (fields? members).bind fun fields =>
        if (fields.met field).isNone then (field.ofJson? value).map (fields.set field)
        else none := by
  have guarded (fields : NodeFields) :
      (do
        guard (fields.met field).isNone
        return fields.set field (← field.ofJson? value)) =
      if (fields.met field).isNone then (field.ofJson? value).map (fields.set field) else none := by
    have opened : guard (fields.met field).isNone =
        if (fields.met field).isNone then some () else none := rfl
    rw [opened]
    split
    · cases field.ofJson? value <;> rfl
    · rfl
  rw [fields?]
  refine congrArg _ (funext fun fields => ?_)
  rw [← guarded]
  cases field <;> rfl

/-- What has been met is what the values given for each field say. -/
theorem met?_of_fields? {members : List (Option String × Json)} {fields : NodeFields}
    (read : fields? members = some fields) :
    (∀ member ∈ members, member.1.isSome) ∧
      ∀ field : Field, field.met? (Json.memberValues field members) = some (fields.met field) := by
  induction members generalizing fields with
  | nil =>
      rw [fields?] at read
      cases read
      exact ⟨nofun, fun field => by cases field <;> rfl⟩
  | cons member members induction =>
      rcases member with ⟨_ | name, value⟩
      · rw [fields?] at read
        cases read
      rw [List.forall_mem_cons]
      cases known : Field.ofName? name with
      | none =>
          rw [fields?_cons_unknown known] at read
          refine ⟨⟨rfl, (induction read).1⟩, fun field => ?_⟩
          rw [Json.memberValues_cons_of_ne (Field.name_ne_of_unknown known field)]
          exact (induction read).2 field
      | some field =>
          rw [← Field.ofName?_eq_some_iff.mp known, fields?_cons_field] at read
          rcases Option.bind_eq_some_iff.mp read with ⟨others, readOthers, read⟩
          rw [Option.ite_none_right_eq_some, Option.isNone_iff_eq_none] at read
          rcases read with ⟨unmet, read⟩
          rcases Option.map_eq_some_iff.mp read with ⟨content, readValue, rfl⟩
          rcases induction readOthers with ⟨named, given⟩
          refine ⟨⟨rfl, named⟩, fun other => ?_⟩
          rw [← Field.ofName?_eq_some_iff.mp known]
          by_cases same : other = field
          · subst same
            have alone := Field.eq_nil_of_met? (unmet ▸ given other)
            rw [Json.memberValues_cons_self, alone, Field.met?, readValue,
              NodeFields.met_set_self]
            rfl
          · have otherName := Field.name_injective.ne (Ne.symm same)
            rw [Json.memberValues_cons_of_ne otherName, NodeFields.met_set_of_ne others same]
            exact given other

/-- Members are read if each field is given at most one value, and that value is read. -/
theorem exists_fields? {members : List (Option String × Json)}
    (named : ∀ member ∈ members, member.1.isSome)
    (known : ∀ field : Field, ∃ met, field.met? (Json.memberValues field members) = some met) :
    ∃ fields, fields? members = some fields := by
  induction members with
  | nil => exact ⟨{}, by rw [fields?]⟩
  | cons member members induction =>
      rcases List.forall_mem_cons.mp named with ⟨isNamed, namedOthers⟩
      rcases member with ⟨_ | name, value⟩
      · cases isNamed
      cases isKnown : Field.ofName? name with
      | none =>
          rw [fields?_cons_unknown isKnown]
          refine induction namedOthers fun field => ?_
          have found := known field
          rwa [Json.memberValues_cons_of_ne (Field.name_ne_of_unknown isKnown field)] at found
      | some field =>
          rcases known field with ⟨met, found⟩
          rw [← Field.ofName?_eq_some_iff.mp isKnown] at found known ⊢
          rw [Json.memberValues_cons_self, Field.met?_cons_eq_some_iff] at found
          rcases found with ⟨alone, said⟩
          rcases Option.map_eq_some_iff.mp said with ⟨content, readValue, rfl⟩
          have knownOthers (other : Field) :
              ∃ met, other.met? (Json.memberValues other members) = some met := by
            by_cases same : other = field
            · rw [same, alone]
              exact ⟨none, rfl⟩
            · have found := known other
              rwa [Json.memberValues_cons_of_ne (Field.name_injective.ne (Ne.symm same))] at found
          rcases induction namedOthers knownOthers with ⟨others, readOthers⟩
          have unmet := (met?_of_fields? readOthers).2 field
          rw [alone, Field.met?, Option.some.injEq] at unmet
          refine ⟨others.set field content, ?_⟩
          rw [fields?_cons_field, readOthers, Option.bind_some, ← unmet, readValue]
          rfl

/-! ## From values to nodes -/

/-- An object is read from the values given for each field, in whatever order they come. -/
theorem ofJson?_object_eq_some_iff {members : List (Option String × Json)} {node : Node} :
    ofJson? (.object members) = some node ↔ (∀ member ∈ members, member.1.isSome) ∧
      ∀ field : Field, field.read? (Json.memberValues field members) = some (field.of node) := by
  rw [ofJson?]
  constructor
  · intro read
    rcases Option.bind_eq_some_iff.mp read with ⟨fields, readFields, made⟩
    rcases met?_of_fields? readFields with ⟨named, met⟩
    refine ⟨named, fun field => ?_⟩
    rw [Field.read?_eq_met?_bind, met, Option.bind_some]
    exact NodeFields.node?_eq_some_iff.mp made field
  · rintro ⟨named, known⟩
    have found (field : Field) := Option.bind_eq_some_iff.mp
      ((Field.read?_eq_met?_bind field _).symm.trans (known field))
    rcases exists_fields? named fun field => (found field).imp fun _ => And.left with
      ⟨fields, readFields⟩
    refine Option.bind_eq_some_iff.mpr ⟨fields, readFields, ?_⟩
    rw [NodeFields.node?_eq_some_iff]
    intro field
    rcases found field with ⟨met, given, holds⟩
    cases ((met?_of_fields? readFields).2 field).symm.trans given
    exact holds

/-- An array is read from the item at the place of each field. -/
theorem ofJson?_array_eq_some_iff {items : List Json} {node : Node} :
    ofJson? (.array items) = some node ↔ items.length ≤ 3 ∧
      ∀ field : Field, field.read? items[field.index]?.toList = some (field.of node) := by
  have made (kind : Option NodeKind) (children : Option (List Node))
      (properties : Option Properties) :
      (do return { kind := ← kind, children := ← children, properties := ← properties }) =
        some node ↔ kind = some node.kind ∧ children = some node.children ∧
          properties = some node.properties := by
    rcases node with ⟨nodeKind, nodeChildren, nodeProperties⟩
    cases kind <;> cases children <;> cases properties <;> simp
  rw [Field.forall_iff]
  rcases items with _ | ⟨kind, _ | ⟨children, _ | ⟨properties, _ | _⟩⟩⟩
  · simp [ofJson?, Field.read?, Field.empty?]
  · exact (made (NodeKind.ofJson? kind) (some []) (some [])).trans
      (and_iff_right (by simp : [kind].length ≤ 3)).symm
  · exact (made (NodeKind.ofJson? kind) (children? children) (some [])).trans
      (and_iff_right (by simp : [kind, children].length ≤ 3)).symm
  · exact (made (NodeKind.ofJson? kind) (children? children) (Properties.ofJson? properties)).trans
      (and_iff_right (by simp : [kind, children, properties].length ≤ 3)).symm
  · simp [ofJson?]

/-! ## What is passed over is not read -/

mutual

theorem ofJson?_readPart : ∀ value : Json, ofJson? value.readPart = ofJson? value
  | .object members => by
    rw [Json.readPart, ofJson?, ofJson?, fields?_readMembers members]
  | .array [] | .array [_] | .array (_ :: _ :: _ :: _ :: _) => rfl
  | .array [kind, children] | .array [kind, children, properties] => by
    rw [Json.readPart, ofJson?, ofJson?, children?_readChildren children]
  | .null | .bool _ | .number _ | .text _ => rfl

theorem fields?_readMembers : ∀ members : List (Option String × Json),
    fields? (Json.readMembers members) = fields? members
  | [] => by rw [Json.readMembers]
  | (none, _) :: _ => by simp [Json.readMembers, fields?]
  | (some name, value) :: members => by
    have others := fields?_readMembers members
    cases known : Field.ofName? name with
    | none => rw [Json.readMembers_cons_unknown known, fields?_cons_unknown known, others]
    | some field =>
        have same : field.ofJson? (field.readPart value) = field.ofJson? value := by
          cases field with
          | kind | properties => rfl
          | children => exact children?_readChildren value
        rw [← Field.ofName?_eq_some_iff.mp known, Json.readMembers_cons_field, fields?_cons_field,
          fields?_cons_field, others, same]

theorem children?_readChildren : ∀ value : Json,
    children? (Json.readChildren value) = children? value
  | .array items => by
    rw [Json.readChildren, children?, children?, items?_readItems items]
  | .null | .bool _ | .number _ | .text _ | .object _ => rfl

theorem items?_readItems : ∀ items : List Json, items? (Json.readItems items) = items? items
  | [] => by rw [Json.readItems]
  | item :: items => by
    rw [Json.readItems, items?, items?, ofJson?_readPart item, items?_readItems items]

end

end Node

end MarkupExport
