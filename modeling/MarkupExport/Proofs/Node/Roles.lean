import MarkupExport.Proofs.Json.Nesting
import MarkupExport.Proofs.Node.Fields

/-!
What the parts of a JSON text are read as. A role settles the roles of all parts below it, and with
them which members are passed over. The reader's check is then two conditions apart: everything it
looks at has a value, and no more brackets than it allows are open outside of the members that are
passed over.
-/

namespace MarkupExport

/-- What a value is read as: a node or one of its fields, inside a property value or not, a property
value, or nothing that has parts of its own. -/
inductive Role where
  | node (inside : Bool)
  | field (field : Field) (inside : Bool)
  | property
  | other

namespace Role

/-- What a member is read as, if it is not passed over. -/
def member : Role → Option String → Option Role
  | node inside, some name => (Field.ofName? name).map (field · inside)
  | field .properties _, _ => some property
  | _, _ => some other

theorem member_node_name (inside : Bool) (part : Field) :
    (node inside).member (some part.name) = some (field part inside) := by
  rw [member, Field.ofName?_eq_some_iff.mpr rfl, Option.map_some]

theorem member_node_unknown {name : String} (inside : Bool)
    (unknown : Field.ofName? name = none) : (node inside).member (some name) = none := by
  rw [member, unknown, Option.map_none]

/-- What the item at this place of an array is read as. -/
def item : Role → Nat → Role
  | node inside, index => ((Field.ofIndex? index).map (field · inside)).getD other
  | field .children inside, _ => node inside
  | property, _ => node true
  | _, _ => other

/-- All of the value has to be readable, also what is passed over. -/
def isWhole : Role → Bool
  | node inside | field .children inside => inside
  | field .kind _ | field .properties _ | property | other => true

theorem isWhole_of_member {role part : Role} {key : Option String} (whole : role.isWhole = true)
    (found : role.member key = some part) : part.isWhole = true := by
  unfold member at found
  split at found
  · rcases Option.map_eq_some_iff.mp found with ⟨field, _, rfl⟩
    cases field <;> first | rfl | exact whole
  · cases found
    rfl
  · cases found
    rfl

/-- The children are what is not read whole in an array. -/
theorem isWhole_item_node {index : Nat} (inside : Bool) (notChildren : index ≠ 1) :
    ((node inside).item index).isWhole = true := by
  rcases index with _ | _ | _ | index <;> first | rfl | exact absurd rfl notChildren

theorem isWhole_item {role : Role} (whole : role.isWhole = true) (index : Nat) :
    (role.item index).isWhole = true := by
  unfold item
  split
  · cases Field.ofIndex? index with
    | none => rfl
    | some field => cases field <;> first | rfl | exact whole
  · exact whole
  · rfl
  · rfl

end Role

namespace Json

mutual

/-- How many brackets are open at once at most, outside of the members that are passed over. -/
def shownNesting (role : Role) : Json → Nat
  | .null | .bool _ | .number _ | .text _ => 0
  | .array items => itemsShown role 0 items + 1
  | .object members => membersShown role members + 1

def itemsShown (role : Role) (index : Nat) : List Json → Nat
  | [] => 0
  | item :: items => max (shownNesting (role.item index) item) (itemsShown role (index + 1) items)

def membersShown (role : Role) : List (Option String × Json) → Nat
  | [] => 0
  | (key, value) :: members =>
    max (match role.member key with
      | some part => shownNesting part value
      | none => 0) (membersShown role members)

end

mutual

/-- Every text and number that is looked at has a value, and so has what is passed over inside a
property value; this opens no more brackets than are left to it. -/
def IsValued (limit : Nat) (role : Role) : Json → Prop
  | .null | .bool _ => True
  | .number literal => literal.inRange
  | .text value => value.isSome
  | .array items => ItemsValued (limit - 1) role 0 items
  | .object members => MembersValued (limit - 1) role members

def ItemsValued (limit : Nat) (role : Role) (index : Nat) : List Json → Prop
  | [] => True
  | item :: items =>
    IsValued limit (role.item index) item ∧ ItemsValued limit role (index + 1) items

def MembersValued (limit : Nat) (role : Role) : List (Option String × Json) → Prop
  | [] => True
  | (key, value) :: members =>
    (key.isSome ∧ match role.member key with
      | some part => IsValued limit part value
      | none => role.isWhole → value.isReadable limit) ∧ MembersValued limit role members

end

/-- One bracket more is open around what leaves one of them over. -/
theorem opened_iff {limit depth : Nat} {valued : Prop} :
    0 < limit ∧ valued ∧ depth ≤ limit - 1 ↔ valued ∧ depth + 1 ≤ limit :=
  ⟨fun ⟨_, holds, _⟩ => ⟨holds, by omega⟩, fun ⟨holds, _⟩ => ⟨by omega, holds, by omega⟩⟩

/-! ## What is read whole -/

mutual

theorem isReadable_iff {limit : Nat} {role : Role} (whole : role.isWhole = true) :
    ∀ value : Json, value.isReadable limit = true ↔
      value.IsValued limit role ∧ value.shownNesting role ≤ limit
  | .null | .bool _ | .number _ | .text _ => by
    simp [isReadable, IsValued, shownNesting]
  | .array items => by
    rw [isReadable, Bool.and_eq_true, decide_eq_true_eq, IsValued, shownNesting,
      areReadable_iff 0 fun place _ _ => Role.isWhole_item whole place]
    exact opened_iff
  | .object members => by
    rw [isReadable, Bool.and_eq_true, decide_eq_true_eq, IsValued, shownNesting,
      membersReadable_iff (fun _ _ => Role.isWhole_of_member whole) (fun _ _ => whole) members]
    exact opened_iff

theorem areReadable_iff {limit : Nat} {role : Role} (index : Nat) : ∀ {items : List Json},
    (∀ place, index ≤ place → place < index + items.length →
      (role.item place).isWhole = true) →
    (areReadable limit items = true ↔
      ItemsValued limit role index items ∧ itemsShown role index items ≤ limit)
  | [], _ => by simp [areReadable, ItemsValued, itemsShown]
  | item :: items, whole => by
    rw [List.length_cons] at whole
    rw [areReadable, Bool.and_eq_true, ItemsValued, itemsShown, Nat.max_le,
      isReadable_iff (whole index (by omega) (by omega)) item,
      areReadable_iff (index + 1) fun place below above => whole place (by omega) (by omega)]
    exact and_and_and_comm

theorem membersReadable_iff {limit : Nat} {role : Role}
    (whole : ∀ key part, role.member key = some part → part.isWhole = true)
    (wholePassed : ∀ key, role.member key = none → role.isWhole = true) :
    ∀ members : List (Option String × Json), membersReadable limit members = true ↔
      MembersValued limit role members ∧ membersShown role members ≤ limit
  | [] => by simp [membersReadable, MembersValued, membersShown]
  | (key, value) :: members => by
    rw [membersReadable, Bool.and_eq_true, Bool.and_eq_true, MembersValued, membersShown,
      Nat.max_le, membersReadable_iff whole wholePassed members]
    cases found : role.member key with
    | none => simp [wholePassed key found, and_assoc]
    | some part =>
        dsimp only
        rw [isReadable_iff (whole key part found) value]
        exact (and_congr_left fun _ => and_assoc.symm).trans and_and_and_comm

end

theorem isReadable_array_iff {limit : Nat} {role : Role} {items : List Json}
    (whole : ∀ place < items.length, (role.item place).isWhole = true) :
    (Json.array items).isReadable limit = true ↔
      (Json.array items).IsValued limit role ∧ (Json.array items).shownNesting role ≤ limit := by
  rw [isReadable, Bool.and_eq_true, decide_eq_true_eq, IsValued, shownNesting,
    areReadable_iff 0 fun place _ above => whole place (by omega)]
  exact opened_iff

theorem isReadable_object_iff {limit : Nat} {role : Role} {members : List (Option String × Json)}
    (whole : ∀ key part, role.member key = some part → part.isWhole = true)
    (wholePassed : ∀ key, role.member key = none → role.isWhole = true) :
    (Json.object members).isReadable limit = true ↔
      (Json.object members).IsValued limit role ∧
        (Json.object members).shownNesting role ≤ limit := by
  rw [isReadable, Bool.and_eq_true, decide_eq_true_eq, IsValued, shownNesting,
    membersReadable_iff whole wholePassed members]
  exact opened_iff

/-! ## What is read in part -/

mutual

theorem isReadable_readPart_iff {limit : Nat} : ∀ value : Json,
    value.readPart.isReadable limit = true ↔
      value.IsValued limit (.node false) ∧ value.shownNesting (.node false) ≤ limit
  | .null | .bool _ | .number _ | .text _ => by
    simp [readPart, isReadable, IsValued, shownNesting]
  | .array [] => isReadable_array_iff nofun
  | .array [kind] => by
    refine isReadable_array_iff fun place single => ?_
    rw [Nat.lt_one_iff.mp single]
    rfl
  | .array (kind :: children :: others) => by
    have first : kind.isReadable (limit - 1) = true ↔
        kind.IsValued (limit - 1) ((Role.node false).item 0) ∧
          kind.shownNesting ((Role.node false).item 0) ≤ limit - 1 := isReadable_iff rfl kind
    have second : (readChildren children).isReadable (limit - 1) = true ↔
        children.IsValued (limit - 1) ((Role.node false).item 1) ∧
          children.shownNesting ((Role.node false).item 1) ≤ limit - 1 :=
      isReadable_readChildren_iff children
    have rest : areReadable (limit - 1) others = true ↔
        ItemsValued (limit - 1) (.node false) 2 others ∧
          itemsShown (.node false) 2 others ≤ limit - 1 :=
      areReadable_iff 2 fun place below _ => Role.isWhole_item_node false (by omega)
    have all : areReadable (limit - 1) (kind :: readChildren children :: others) = true ↔
        ItemsValued (limit - 1) (.node false) 0 (kind :: children :: others) ∧
          itemsShown (.node false) 0 (kind :: children :: others) ≤ limit - 1 := by
      rw [areReadable, areReadable, Bool.and_eq_true, Bool.and_eq_true, first, second, rest,
        ItemsValued, ItemsValued, itemsShown, itemsShown, Nat.max_le, Nat.max_le]
      exact (and_congr_right fun _ => and_and_and_comm).trans and_and_and_comm
    rw [readPart, isReadable, Bool.and_eq_true, decide_eq_true_eq, IsValued, shownNesting, all]
    exact opened_iff
  | .object members => by
    rw [readPart, isReadable, Bool.and_eq_true, decide_eq_true_eq, IsValued, shownNesting,
      membersReadable_readMembers_iff members]
    exact opened_iff

theorem membersReadable_readMembers_iff {limit : Nat} : ∀ members : List (Option String × Json),
    membersReadable limit (readMembers members) = true ↔
      MembersValued limit (.node false) members ∧ membersShown (.node false) members ≤ limit
  | [] => by simp [readMembers, membersReadable, MembersValued, membersShown]
  | (key, value) :: members => by
    have others : membersReadable limit (readMembers members) = true ↔
        MembersValued limit (.node false) members ∧ membersShown (.node false) members ≤ limit :=
      membersReadable_readMembers_iff members
    rcases key with _ | name
    · simp [readMembers, membersReadable, MembersValued]
    cases known : Field.ofName? name with
    | none =>
        rw [readMembers_cons_unknown known, MembersValued, membersShown,
          Role.member_node_unknown false known, others]
        simp [Role.isWhole]
    | some field =>
        have first : (field.readPart value).isReadable limit = true ↔
            value.IsValued limit (.field field false) ∧
              value.shownNesting (.field field false) ≤ limit := by
          cases field with
          | kind | properties => exact isReadable_iff rfl value
          | children => exact isReadable_readChildren_iff value
        rw [← Field.ofName?_eq_some_iff.mp known, MembersValued, membersShown,
          Role.member_node_name, readMembers_cons_field, membersReadable, Bool.and_eq_true,
          Bool.and_eq_true, first, others, Nat.max_le]
        exact (and_congr_left fun _ => and_assoc.symm).trans and_and_and_comm

theorem isReadable_readChildren_iff {limit : Nat} : ∀ value : Json,
    (readChildren value).isReadable limit = true ↔
      value.IsValued limit (.field .children false) ∧
        value.shownNesting (.field .children false) ≤ limit
  | .null | .bool _ | .number _ | .text _ => by
    simp [readChildren, isReadable, IsValued, shownNesting]
  | .object members => isReadable_object_iff (by rintro _ _ ⟨⟩; rfl) nofun
  | .array items => by
    rw [readChildren, isReadable, Bool.and_eq_true, decide_eq_true_eq, IsValued, shownNesting,
      areReadable_readItems_iff items]
    exact opened_iff

theorem areReadable_readItems_iff {limit index : Nat} : ∀ items : List Json,
    areReadable limit (readItems items) = true ↔
      ItemsValued limit (.field .children false) index items ∧
        itemsShown (.field .children false) index items ≤ limit
  | [] => by simp [readItems, areReadable, ItemsValued, itemsShown]
  | item :: items => by
    rw [readItems, areReadable, Bool.and_eq_true, ItemsValued, itemsShown, Nat.max_le,
      isReadable_readPart_iff item, areReadable_readItems_iff items]
    exact and_and_and_comm

end

end Json

end MarkupExport
