import Mathlib.Logic.Relation
import MarkupExport.Proofs.Node.Roles

/-!
The ways in which a tree may be laid out. Each is a small change to one value, made wherever a value
of that role stands. What is read stays the same under every change, and so does it that all of it
has a value; brackets are counted at the end only, since a change may open one more.
-/

namespace MarkupExport

/-- A place for a value inside another, with what the other and the one are read as. -/
inductive Slot : Role → Role → (Json → Json) → Prop
  | member {role part : Role} {key : Option String} (before after : List (Option String × Json))
    (found : role.member key = some part) :
    Slot role part fun value => .object (before ++ (key, value) :: after)
  | item {role part : Role} (before after : List Json) (found : role.item before.length = part) :
    Slot role part fun value => .array (before ++ value :: after)

namespace Json

/-- The value that is written for the field, or an empty one if none is. -/
def written? (members : List (Option String × Json)) (field : Field) : Option Json :=
  (memberValues field members).head?.or field.empty?

/-- With this role, the first value says what the second says: they differ by one change to the
layout. -/
inductive Rewrites : Role → Json → Json → Prop
  /-- The members of a node come in any order. -/
  | reorder {inside : Bool} {members others : List (Option String × Json)}
    (same : members.Perm others) : Rewrites (.node inside) (.object members) (.object others)
  /-- Outside property values a node may have any member of another name. -/
  | addUnknown {name : String} (value : Json) (members : List (Option String × Json))
    (unknown : Field.ofName? name = none) :
    Rewrites (.node false) (.object members) (.object ((some name, value) :: members))
  /-- No children and no properties need not be written. -/
  | leaveOut {inside : Bool} {field : Field} {empty : Json}
    (members : List (Option String × Json)) (isEmpty : field.empty? = some empty) :
    Rewrites (.node inside) (.object ((some field.name, empty) :: members)) (.object members)
  /-- A node may be the array of its fields. -/
  | asArray {inside : Bool} {members : List (Option String × Json)}
    {kind children properties : Json}
    (writtenKind : written? members .kind = some kind)
    (writtenChildren : written? members .children = some children)
    (writtenProperties : written? members .properties = some properties) :
    Rewrites (.node inside) (.object members) (.array [kind, children, properties])
  /-- In an array, the last fields are left out if they are empty. -/
  | shorten {inside : Bool} {items : List Json} {field : Field} {empty : Json}
    (last : field.index = items.length) (isEmpty : field.empty? = some empty) :
    Rewrites (.node inside) (.array (items ++ [empty])) (.array items)
  /-- A kind may be an object with the kind as its one member. -/
  | kindAsObject {inside : Bool} (name : String) :
    Rewrites (.field .kind inside) (.text (some name)) (.object [(some name, .null)])
  /-- Properties of different names come in any order. -/
  | swap {inside : Bool} {first second : Option String × Json}
    (before after : List (Option String × Json)) (different : first.1 ≠ second.1) :
    Rewrites (.field .properties inside) (.object (before ++ first :: second :: after))
      (.object (before ++ second :: first :: after))
  /-- A part may be laid out anew where it stands. -/
  | part {role part : Role} {context : Json → Json} {value other : Json}
    (slot : Slot role part context) (rewritten : Rewrites part value other) :
    Rewrites role (context value) (context other)

end Json

/-! ## What is read -/

namespace Role

abbrev Content : Role → Type
  | .node _ => Node
  | .field part _ => part.Value
  | .property => Property
  | .other => Json

def ofJson? : (role : Role) → Json → Option role.Content
  | .node _ => Node.ofJson?
  | .field part _ => part.ofJson?
  | .property => Property.ofJson?
  | .other => some

end Role

/-- A node's member may say the same in another way. -/
theorem Node.ofJson?_member {node : Node} {field : Field} {value : Json}
    {before after : List (Option String × Json)}
    (read : Node.ofJson? (.object (before ++ (some field.name, value) :: after)) = some node) :
    field.ofJson? value = some (field.of node) ∧ ∀ other,
      field.ofJson? other = some (field.of node) →
        Node.ofJson? (.object (before ++ (some field.name, other) :: after)) = some node := by
  rw [ofJson?_object_eq_some_iff] at read
  rcases read with ⟨named, known⟩
  have own := known field
  rw [Json.memberValues_append, Json.memberValues_cons_self] at own
  rcases Field.read?_append_cons own with ⟨noneBefore, noneAfter, readValue⟩
  refine ⟨readValue, fun other readOther => ofJson?_object_eq_some_iff.mpr ⟨?_, fun part => ?_⟩⟩
  · rw [List.forall_mem_append, List.forall_mem_cons] at named ⊢
    exact named
  · by_cases same : part = field
    · subst same
      rw [Json.memberValues_append, Json.memberValues_cons_self, noneBefore, noneAfter]
      exact readOther
    · have otherName := Field.name_injective.ne (Ne.symm same)
      have others := known part
      rw [Json.memberValues_append, Json.memberValues_cons_of_ne otherName] at others ⊢
      exact others

/-- An item of a node may say the same in another way. -/
theorem Node.ofJson?_item {node : Node} {field : Field} {value : Json} {before after : List Json}
    (place : field.index = before.length)
    (read : Node.ofJson? (.array (before ++ value :: after)) = some node) :
    field.ofJson? value = some (field.of node) ∧ ∀ other,
      field.ofJson? other = some (field.of node) →
        Node.ofJson? (.array (before ++ other :: after)) = some node := by
  have here (value : Json) : (before ++ value :: after)[field.index]?.toList = [value] := by
    rw [place]
    simp
  rw [ofJson?_array_eq_some_iff] at read
  rcases read with ⟨short, known⟩
  have own := known field
  rw [here] at own
  refine ⟨own, fun other readOther => ofJson?_array_eq_some_iff.mpr ⟨?_, fun part => ?_⟩⟩
  · simpa using short
  · by_cases same : part = field
    · subst same
      rw [here]
      exact readOther
    · have elsewhere : (before ++ other :: after)[part.index]? =
          (before ++ value :: after)[part.index]? := by
        have apart := Field.index_injective.ne same
        grind
      rw [elsewhere]
      exact known part

theorem Node.items?_slot {nodes : List Node} {value : Json} {before after : List Json}
    (read : Node.items? (before ++ value :: after) = some nodes) :
    ∃ node, Node.ofJson? value = some node ∧ ∀ other, Node.ofJson? other = some node →
      Node.items? (before ++ other :: after) = some nodes := by
  induction before generalizing nodes with
  | nil =>
      rw [List.nil_append, items?] at read
      rcases Option.bind_eq_some_iff.mp read with ⟨node, readValue, readAfter⟩
      refine ⟨node, readValue, fun other same => ?_⟩
      rw [List.nil_append, items?, same]
      exact readAfter
  | cons item before induction =>
      rw [List.cons_append, items?] at read
      rcases Option.bind_eq_some_iff.mp read with ⟨first, readItem, read⟩
      rcases Option.bind_eq_some_iff.mp read with ⟨others, readOthers, ⟨⟩⟩
      rcases induction readOthers with ⟨node, readValue, reread⟩
      refine ⟨node, readValue, fun other same => ?_⟩
      rw [List.cons_append, items?, readItem, reread other same]
      rfl

theorem Properties.pairs?_slot {pairs : Properties} {key : Option String} {value : Json}
    {before after : List (Option String × Json)}
    (read : Properties.pairs? (before ++ (key, value) :: after) = some pairs) :
    ∃ property, Property.ofJson? value = some property ∧
      ∀ other, Property.ofJson? other = some property →
        Properties.pairs? (before ++ (key, other) :: after) = some pairs := by
  induction before generalizing pairs with
  | nil =>
      rcases key with _ | name
      · rw [List.nil_append, pairs?] at read
        cases read
      rw [List.nil_append, pairs?] at read
      rcases Option.bind_eq_some_iff.mp read with ⟨property, readValue, readAfter⟩
      refine ⟨property, readValue, fun other same => ?_⟩
      rw [List.nil_append, pairs?, same]
      exact readAfter
  | cons member before induction =>
      rcases member with ⟨_ | name, content⟩
      · rw [List.cons_append, pairs?] at read
        cases read
      rw [List.cons_append, pairs?] at read
      rcases Option.bind_eq_some_iff.mp read with ⟨first, readContent, read⟩
      rcases Option.bind_eq_some_iff.mp read with ⟨others, readOthers, ⟨⟩⟩
      rcases induction readOthers with ⟨property, readValue, reread⟩
      refine ⟨property, readValue, fun other same => ?_⟩
      rw [List.cons_append, pairs?, readContent, reread other same]
      rfl

theorem Properties.pairs?_swap {pairs : Properties} {first second : Option String × Json}
    {before after : List (Option String × Json)}
    (read : Properties.pairs? (before ++ first :: second :: after) = some pairs) :
    ∃ front left right back, pairs = front ++ left :: right :: back ∧
      first.1 = some left.1 ∧ second.1 = some right.1 ∧
      Properties.pairs? (before ++ second :: first :: after) =
        some (front ++ right :: left :: back) := by
  induction before generalizing pairs with
  | nil =>
      rcases first with ⟨_ | name, value⟩
      · rw [List.nil_append, pairs?] at read
        cases read
      rw [List.nil_append, pairs?] at read
      rcases Option.bind_eq_some_iff.mp read with ⟨left, readFirst, read⟩
      rcases Option.bind_eq_some_iff.mp read with ⟨others, readOthers, ⟨⟩⟩
      rcases second with ⟨_ | other, content⟩
      · rw [pairs?] at readOthers
        cases readOthers
      rw [pairs?] at readOthers
      rcases Option.bind_eq_some_iff.mp readOthers with ⟨right, readSecond, readOthers⟩
      rcases Option.bind_eq_some_iff.mp readOthers with ⟨back, readAfter, ⟨⟩⟩
      refine ⟨[], (name, left), (other, right), back, rfl, rfl, rfl, ?_⟩
      rw [List.nil_append, pairs?, readSecond, pairs?, readFirst, readAfter]
      rfl
  | cons member before induction =>
      rcases member with ⟨_ | name, value⟩
      · rw [List.cons_append, pairs?] at read
        cases read
      rw [List.cons_append, pairs?] at read
      rcases Option.bind_eq_some_iff.mp read with ⟨property, readValue, read⟩
      rcases Option.bind_eq_some_iff.mp read with ⟨others, readOthers, ⟨⟩⟩
      rcases induction readOthers with ⟨front, left, right, back, rfl, isLeft, isRight, swapped⟩
      refine ⟨(name, property) :: front, left, right, back, rfl, isLeft, isRight, ?_⟩
      rw [List.cons_append, pairs?, readValue, swapped]
      rfl

/-- What a value says depends on its parts through what they say. -/
theorem Slot.ofJson? {role part : Role} {context : Json → Json} {value : Json}
    {content : role.Content} (slot : Slot role part context)
    (read : role.ofJson? (context value) = some content) :
    ∃ inner, part.ofJson? value = some inner ∧
      ∀ other, part.ofJson? other = some inner → role.ofJson? (context other) = some content := by
  cases slot with
  | member before after found =>
      unfold Role.member at found
      split at found
      · rcases Option.map_eq_some_iff.mp found with ⟨field, known, rfl⟩
        cases Field.ofName?_eq_some_iff.mp known
        exact ⟨_, Node.ofJson?_member read⟩
      · cases found
        rcases Option.map_eq_some_iff.mp read with ⟨pairs, readPairs, rfl⟩
        rcases Properties.pairs?_slot readPairs with ⟨property, readValue, reread⟩
        refine ⟨property, readValue, fun other same => ?_⟩
        exact Option.map_eq_some_iff.mpr ⟨pairs, reread other same, rfl⟩
      · cases found
        exact ⟨value, rfl, fun other same => Option.some.inj same ▸ read⟩
  | item before after found =>
      unfold Role.item at found
      split at found
      · cases known : Field.ofIndex? before.length with
        | none =>
            rw [known] at found
            cases found
            exact ⟨value, rfl, fun other same => Option.some.inj same ▸ read⟩
        | some field =>
            rw [known] at found
            cases found
            exact ⟨_, Node.ofJson?_item (Field.ofIndex?_eq_some_iff.mp known) read⟩
      · cases found
        exact Node.items?_slot read
      · cases found
        rcases Option.map_eq_some_iff.mp read with ⟨nodes, readNodes, rfl⟩
        rcases Node.items?_slot readNodes with ⟨node, readValue, reread⟩
        refine ⟨node, readValue, fun other same => ?_⟩
        exact Option.map_eq_some_iff.mpr ⟨nodes, reread other same, rfl⟩
      · cases found
        exact ⟨value, rfl, fun other same => Option.some.inj same ▸ read⟩

/-- Where a field is read from members, it is read from its first value, or from an empty one. -/
theorem Field.read?_written? {field : Field} {members : List (Option String × Json)}
    {written : Json} {content : field.Value} (isWritten : Json.written? members field = some written)
    (read : field.read? (Json.memberValues field members) = some content) :
    field.ofJson? written = some content := by
  rw [Json.written?] at isWritten
  cases given : Json.memberValues field members with
  | nil =>
      rw [given] at isWritten read
      rw [Field.read?, show field.empty? = some written from isWritten] at read
      exact read
  | cons value values =>
      rw [given] at isWritten read
      cases isWritten
      have given : field.read? ([] ++ written :: values) = some content := read
      exact (Field.read?_append_cons given).2.2

/-- A change to the layout changes nothing of what is read. -/
theorem Json.Rewrites.ofJson? {role : Role} {value other : Json} {content : role.Content}
    (rewrites : Rewrites role value other) (read : role.ofJson? value = some content) :
    role.ofJson? other = some content := by
  induction rewrites with
  | reorder same =>
      rcases Node.ofJson?_object_eq_some_iff.mp read with ⟨named, known⟩
      refine Node.ofJson?_object_eq_some_iff.mpr
        ⟨fun member isMember => named member (same.mem_iff.mpr isMember), fun field => ?_⟩
      rw [← known field]
      exact (field.read?_perm (same.filterMap _)).symm
  | addUnknown value members unknown =>
      have same := Node.fields?_cons_unknown unknown value members
      exact (congrArg (Option.bind · NodeFields.node?) same).trans read
  | @leaveOut _ field empty members isEmpty =>
      rcases Node.ofJson?_object_eq_some_iff.mp read with ⟨named, known⟩
      refine Node.ofJson?_object_eq_some_iff.mpr
        ⟨(List.forall_mem_cons.mp named).2, fun part => ?_⟩
      have own := known part
      by_cases same : part = field
      · subst same
        rw [Json.memberValues_cons_self] at own
        exact Field.read?_of_empty isEmpty own
      · rwa [Json.memberValues_cons_of_ne (Field.name_injective.ne (Ne.symm same))] at own
  | @asArray _ _ kind children properties writtenKind writtenChildren writtenProperties =>
      rcases Node.ofJson?_object_eq_some_iff.mp read with ⟨_, known⟩
      have short : [kind, children, properties].length ≤ 3 := Nat.le_refl 3
      refine Node.ofJson?_array_eq_some_iff.mpr ⟨short, Field.forall_iff.mpr ⟨?_, ?_, ?_⟩⟩
      · exact Field.read?_written? writtenKind (known _)
      · exact Field.read?_written? writtenChildren (known _)
      · exact Field.read?_written? writtenProperties (known _)
  | @shorten _ items field empty last isEmpty =>
      rcases Node.ofJson?_array_eq_some_iff.mp read with ⟨short, known⟩
      rw [List.length_append] at short
      refine Node.ofJson?_array_eq_some_iff.mpr ⟨by omega, fun part => ?_⟩
      have own := known part
      by_cases same : part = field
      · subst same
        rw [last, List.getElem?_concat_length] at own
        rw [last, List.getElem?_eq_none (Nat.le_refl _)]
        exact Field.read?_of_empty isEmpty own
      · have apart := Field.index_injective.ne same
        have elsewhere : (items ++ [empty])[part.index]? = items[part.index]? := by grind
        rwa [elsewhere] at own
  | kindAsObject name => exact read
  | swap before after different =>
      rcases Option.map_eq_some_iff.mp read with ⟨pairs, readPairs, rfl⟩
      rcases Properties.pairs?_swap readPairs with
        ⟨front, left, right, back, rfl, isLeft, isRight, swapped⟩
      refine Option.map_eq_some_iff.mpr ⟨_, swapped, Ascending.ofList_swap ?_ front back⟩
      intro same
      exact different (by rw [isLeft, isRight, same])
  | part slot rewritten induction =>
      rcases slot.ofJson? read with ⟨inner, readValue, reread⟩
      exact reread _ (induction readValue)

/-! ## What has a value -/

namespace Json

theorem membersValued_iff {limit : Nat} {role : Role} {members : List (Option String × Json)} :
    MembersValued limit role members ↔ ∀ member ∈ members, MembersValued limit role [member] := by
  induction members with
  | nil => simp [MembersValued]
  | cons member members induction =>
      rcases member with ⟨key, value⟩
      rw [List.forall_mem_cons, MembersValued, induction, MembersValued, MembersValued, and_true]

theorem memberValued_iff {limit : Nat} {role part : Role} {key : Option String} {value : Json}
    (found : role.member key = some part) :
    MembersValued limit role [(key, value)] ↔ key.isSome ∧ value.IsValued limit part := by
  rw [MembersValued, MembersValued, found, and_true]

theorem itemsValued_append {limit : Nat} {role : Role} {before after : List Json} {index : Nat} :
    ItemsValued limit role index (before ++ after) ↔
      ItemsValued limit role index before ∧
        ItemsValued limit role (index + before.length) after := by
  induction before generalizing index with
  | nil => simp [ItemsValued]
  | cons item before induction =>
      rw [List.cons_append, ItemsValued, induction, ItemsValued, and_assoc, List.length_cons,
        Nat.add_right_comm, Nat.add_assoc]

theorem isValued_of_empty? {limit : Nat} {role : Role} {field : Field} {empty : Json}
    (isEmpty : field.empty? = some empty) : empty.IsValued limit role := by
  cases field <;> cases isEmpty <;> simp [IsValued, ItemsValued, MembersValued]

end Json

theorem Slot.isValued {limit : Nat} {role part : Role} {context : Json → Json} {value : Json}
    (slot : Slot role part context) (valued : (context value).IsValued limit role) :
    value.IsValued (limit - 1) part ∧
      ∀ other : Json, other.IsValued (limit - 1) part → (context other).IsValued limit role := by
  cases slot with
  | member before after found =>
      rw [Json.IsValued, Json.membersValued_iff, List.forall_mem_append, List.forall_mem_cons,
        Json.memberValued_iff found] at valued
      rcases valued with ⟨inBefore, ⟨named, partValued⟩, inAfter⟩
      refine ⟨partValued, fun other otherValued => ?_⟩
      rw [Json.IsValued, Json.membersValued_iff, List.forall_mem_append, List.forall_mem_cons,
        Json.memberValued_iff found]
      exact ⟨inBefore, ⟨named, otherValued⟩, inAfter⟩
  | item before after found =>
      rw [Json.IsValued, Json.itemsValued_append, Json.ItemsValued, Nat.zero_add, found] at valued
      rcases valued with ⟨inBefore, partValued, inAfter⟩
      refine ⟨partValued, fun other otherValued => ?_⟩
      rw [Json.IsValued, Json.itemsValued_append, Json.ItemsValued, Nat.zero_add, found]
      exact ⟨inBefore, otherValued, inAfter⟩

theorem Json.isValued_of_written? {limit : Nat} {inside : Bool} {field : Field}
    {members : List (Option String × Json)} {written : Json}
    (isWritten : written? members field = some written)
    (valued : MembersValued limit (.node inside) members) :
    written.IsValued limit (.field field inside) := by
  rcases Option.or_eq_some_iff.mp isWritten with isFirst | ⟨_, isEmpty⟩
  · have given := List.mem_of_head? isFirst
    rcases List.mem_filterMap.mp given with ⟨⟨key, value⟩, isMember, isField⟩
    rw [Option.ite_none_right_eq_some] at isField
    rcases isField with ⟨rfl, ⟨⟩⟩
    have memberValued := membersValued_iff.mp valued _ isMember
    exact ((memberValued_iff (Role.member_node_name inside field)).mp memberValued).2
  · exact isValued_of_empty? isEmpty

/-- A change to the layout leaves every text and number with a value. -/
theorem Json.Rewrites.isValued {limit : Nat} {role : Role} {value other : Json}
    (rewrites : Rewrites role value other) (valued : value.IsValued limit role) :
    other.IsValued limit role := by
  induction rewrites generalizing limit with
  | reorder same =>
      rw [IsValued, membersValued_iff] at valued ⊢
      exact fun member isMember => valued member (same.mem_iff.mpr isMember)
  | addUnknown value members unknown =>
      rw [IsValued] at valued
      rw [IsValued, MembersValued, Role.member_node_unknown false unknown]
      exact ⟨⟨rfl, nofun⟩, valued⟩
  | leaveOut members isEmpty =>
      rw [IsValued, MembersValued] at valued
      exact valued.2
  | asArray writtenKind writtenChildren writtenProperties =>
      rw [IsValued] at valued
      rw [IsValued, ItemsValued, ItemsValued, ItemsValued, ItemsValued]
      exact ⟨isValued_of_written? writtenKind valued, isValued_of_written? writtenChildren valued,
        isValued_of_written? writtenProperties valued, trivial⟩
  | shorten last isEmpty =>
      rw [IsValued, itemsValued_append] at valued
      exact valued.1
  | @kindAsObject inside name =>
      have plain : (Role.field .kind inside).member (some name) = some .other := rfl
      rw [IsValued, memberValued_iff plain, IsValued]
      exact ⟨rfl, trivial⟩
  | swap before after different =>
      rw [IsValued, membersValued_iff] at valued ⊢
      exact fun member isMember => valued member
        (((List.Perm.swap _ _ after).append_left before).mem_iff.mpr isMember)
  | part slot rewritten induction =>
      rcases slot.isValued valued with ⟨partValued, rewritten⟩
      exact rewritten _ (induction partValued)

end MarkupExport
