import MarkupExport.Node.Printer
import MarkupExport.Proofs.Json.Nesting
import MarkupExport.Proofs.Node.Parts

/-!
Trees survive writing and reading. What is written of a tree is a plain value that holds nothing a
reader passes over, and reading it gives the tree back. A tree that was read is ordered and opens no
more brackets than what it was read from, so it can be written and read again.
-/

namespace MarkupExport

/-! ## What is written -/

mutual

theorem Node.isPlain_toJson : ∀ node : Node, node.toJson.IsPlain
  | ⟨kind, children, properties⟩ => by
    have inChildren := Node.arePlain_itemsToJson children
    have inProperties := Properties.membersPlain_membersToJson properties
    rw [Node.toJson]
    by_cases childless : children.isEmpty <;> by_cases bare : properties.isEmpty <;>
      simp [Json.IsPlain, Json.MembersPlain, childless, bare, inChildren, inProperties]

theorem Node.arePlain_itemsToJson : ∀ nodes : List Node, Json.ArePlain (Node.itemsToJson nodes)
  | [] => trivial
  | node :: nodes => ⟨node.isPlain_toJson, Node.arePlain_itemsToJson nodes⟩

theorem Properties.membersPlain_membersToJson : ∀ properties : List (String × Property),
    Json.MembersPlain (Properties.membersToJson properties)
  | [] => trivial
  | (_, property) :: properties =>
    ⟨rfl, property.isPlain_toJson, Properties.membersPlain_membersToJson properties⟩

theorem Property.isPlain_toJson : ∀ property : Property, property.toJson.IsPlain
  | .bool _ => trivial
  | .int value => ⟨value, rfl⟩
  | .text _ => rfl
  | .nodes values => Node.arePlain_itemsToJson values

end

mutual

theorem Node.readPart_toJson : ∀ node : Node, Json.readPart node.toJson = node.toJson
  | ⟨kind, children, properties⟩ => by
    have inChildren := Node.readItems_itemsToJson children
    rw [Node.toJson]
    by_cases childless : children.isEmpty <;> by_cases bare : properties.isEmpty <;>
      simp [Json.readPart, Json.readMembers, Json.readChildren, childless, bare, inChildren]

theorem Node.readItems_itemsToJson : ∀ nodes : List Node,
    Json.readItems (Node.itemsToJson nodes) = Node.itemsToJson nodes
  | [] => rfl
  | node :: nodes => by
    rw [Node.itemsToJson, Json.readItems, node.readPart_toJson, Node.readItems_itemsToJson nodes]

end

mutual

theorem Node.ofJson?_toJson : ∀ node : Node, node.IsOrdered → Node.ofJson? node.toJson = some node
  | ⟨kind, children, properties⟩, ordered => by
    rw [Node.IsOrdered] at ordered
    have named : NodeKind.ofJson? (.text (some kind.name)) = some kind := kind.ofName?_name
    have inChildren : Node.children? (.array (Node.itemsToJson children)) = some children := by
      rw [Node.children?, Node.items?_itemsToJson children ordered.1]
    have inProperties : Properties.ofJson? (.object (Properties.membersToJson properties)) =
        some properties := by
      rw [Properties.ofJson?, Properties.pairs?_membersToJson properties ordered.2.2,
        Option.map_some, Ascending.ofList_eq_self ordered.2.1]
    rw [Node.toJson]
    cases children <;> cases properties <;>
      (simp [Node.ofJson?, Node.fields?, named, inChildren, inProperties]; rfl)

theorem Node.items?_itemsToJson : ∀ nodes : List Node, Node.AllOrdered nodes →
    Node.items? (Node.itemsToJson nodes) = some nodes
  | [], _ => rfl
  | node :: nodes, ordered => by
    rw [Node.itemsToJson, Node.items?, node.ofJson?_toJson ordered.1,
      Node.items?_itemsToJson nodes ordered.2]
    rfl

theorem Properties.pairs?_membersToJson : ∀ properties : List (String × Property),
    Properties.AllOrdered properties →
      Properties.pairs? (Properties.membersToJson properties) = some properties
  | [], _ => rfl
  | (name, property) :: properties, ordered => by
    rw [Properties.membersToJson, Properties.pairs?, property.ofJson?_toJson ordered.1,
      Properties.pairs?_membersToJson properties ordered.2]
    rfl

theorem Property.ofJson?_toJson : ∀ property : Property, property.IsOrdered →
    Property.ofJson? property.toJson = some property
  | .bool _, _ => rfl
  | .int value, _ => by
    rw [Property.toJson, Property.ofJson?, NumberLiteral.int64?_ofInt, Option.map_some]
  | .text _, _ => rfl
  | .nodes values, ordered => by
    rw [Property.toJson, Property.ofJson?, Node.items?_itemsToJson values ordered, Option.map_some]

end

/-! ## What was read -/

theorem Properties.membersNesting_le_iff {properties : List (String × Property)} {limit : Nat} :
    Json.membersNesting (Properties.membersToJson properties) ≤ limit ↔
      ∀ entry ∈ properties, entry.2.toJson.nesting ≤ limit := by
  induction properties with
  | nil => simp [Properties.membersToJson, Json.membersNesting]
  | cons entry properties induction =>
      rw [Properties.membersToJson, Json.membersNesting, List.forall_mem_cons, ← induction,
        Nat.max_le]

/-- The children and properties that have been met are ordered, and opening their brackets does not
reach the limit. -/
structure NodeFields.Fits (limit : Nat) (fields : NodeFields) : Prop where
  children : ∀ nodes, fields.children = some nodes →
    Node.AllOrdered nodes ∧ Json.itemsNesting (Node.itemsToJson nodes) < limit
  properties : ∀ properties, fields.properties = some properties →
    Ascending.IsAscending properties ∧ Properties.AllOrdered properties ∧
      Json.membersNesting (Properties.membersToJson properties) < limit

theorem NodeFields.Fits.mono {limit larger : Nat} {fields : NodeFields} (fits : fields.Fits limit)
    (grows : limit ≤ larger) : fields.Fits larger where
  children nodes met := (fits.children nodes met).imp_right (Nat.lt_of_lt_of_le · grows)
  properties properties met :=
    (fits.properties properties met).imp_right (And.imp_right (Nat.lt_of_lt_of_le · grows))

/-- Children and properties that are left out open no brackets. -/
theorem NodeFields.Fits.node {limit : Nat} {fields : NodeFields} {node : Node}
    (fits : fields.Fits limit) (made : fields.node? = some node) :
    node.IsOrdered ∧ node.toJson.nesting ≤ limit + 1 := by
  rcases fields with ⟨kind, children, properties⟩
  rcases Option.map_eq_some_iff.mp made with ⟨kind, _, rfl⟩
  rcases fits with ⟨inChildren, inProperties⟩
  dsimp only at inChildren inProperties
  have ordered : Node.AllOrdered (children.getD []) ∧
      Ascending.IsAscending (properties.getD []) ∧ Properties.AllOrdered (properties.getD []) := by
    refine ⟨?_, ?_, ?_⟩
    · cases children with
      | none => trivial
      | some nodes => exact (inChildren nodes rfl).1
    · cases properties with
      | none => exact List.Pairwise.nil
      | some properties => exact (inProperties properties rfl).1
    · cases properties with
      | none => trivial
      | some properties => exact (inProperties properties rfl).2.1
  have childrenFit : children.getD [] ≠ [] →
      Json.itemsNesting (Node.itemsToJson (children.getD [])) < limit := by
    cases children with
    | none => exact fun some => absurd rfl some
    | some nodes => exact fun _ => (inChildren nodes rfl).2
  have propertiesFit : properties.getD [] ≠ [] →
      Json.membersNesting (Properties.membersToJson (properties.getD [])) < limit := by
    cases properties with
    | none => exact fun some => absurd rfl some
    | some properties => exact fun _ => (inProperties properties rfl).2.2
  refine ⟨ordered, ?_⟩
  generalize children.getD [] = children at childrenFit
  generalize properties.getD [] = properties at propertiesFit
  rw [Node.toJson]
  cases children <;> cases properties <;>
    simp [Json.nesting, Json.membersNesting] at childrenFit propertiesFit ⊢ <;> omega

mutual

theorem Node.fits_of_ofJson? : ∀ (value : Json) (node : Node), Node.ofJson? value = some node →
    node.IsOrdered ∧ node.toJson.nesting ≤ value.nesting
  | .object members, node, read => by
    rw [Node.ofJson?] at read
    rcases Option.bind_eq_some_iff.mp read with ⟨fields, met, made⟩
    exact (Node.fits_of_fields? members fields met).node made
  | .array [kind], node, read => by
    rw [Node.ofJson?] at read
    rcases Option.bind_eq_some_iff.mp read with ⟨kind, _, made⟩
    have fits : NodeFields.Fits 0 { kind := some kind } := ⟨nofun, nofun⟩
    exact (fits.mono (Nat.zero_le _)).node made
  | .array [kind, children], node, read => by
    rw [Node.ofJson?] at read
    rcases Option.bind_eq_some_iff.mp read with ⟨kind', _, made⟩
    rcases Option.bind_eq_some_iff.mp made with ⟨nodes, met, made⟩
    have inChildren := Node.fits_of_children? children nodes met
    have fits : NodeFields.Fits (Json.itemsNesting [kind, children])
        { kind := some kind', children := some nodes } := by
      simp only [Json.itemsNesting]
      refine ⟨?_, nofun⟩
      rintro _ ⟨⟩
      exact inChildren.imp_right (by omega)
    exact fits.node made
  | .array [kind, children, properties], node, read => by
    rw [Node.ofJson?] at read
    rcases Option.bind_eq_some_iff.mp read with ⟨kind', _, made⟩
    rcases Option.bind_eq_some_iff.mp made with ⟨nodes, metChildren, made⟩
    rcases Option.bind_eq_some_iff.mp made with ⟨entries, metProperties, made⟩
    have inChildren := Node.fits_of_children? children nodes metChildren
    have inProperties := Properties.fits_of_ofJson? properties entries metProperties
    have fits : NodeFields.Fits (Json.itemsNesting [kind, children, properties])
        { kind := some kind', children := some nodes, properties := some entries } := by
      simp only [Json.itemsNesting]
      refine ⟨?_, ?_⟩
      · rintro _ ⟨⟩
        exact inChildren.imp_right (by omega)
      · rintro _ ⟨⟩
        exact inProperties.imp_right (And.imp_right (by omega))
    exact fits.node made
  | .array [], _, read | .array (_ :: _ :: _ :: _ :: _), _, read
  | .null, _, read | .bool _, _, read | .number _, _, read | .text _, _, read => by
    simp [Node.ofJson?] at read

theorem Node.fits_of_fields? : ∀ (members : List (Option String × Json)) (fields : NodeFields),
    Node.fields? members = some fields → fields.Fits (Json.membersNesting members)
  | [], fields, met => by
    rw [Node.fields?] at met
    cases met
    exact ⟨nofun, nofun⟩
  | (none, _) :: _, _, met => by
    rw [Node.fields?] at met
    cases met
  | (some key, value) :: members, fields, met => by
    rw [Node.fields?] at met
    rcases Option.bind_eq_some_iff.mp met with ⟨others, metOthers, met⟩
    have inMembers := (Node.fits_of_fields? members others metOthers).mono
      (Nat.le_max_right value.nesting _)
    rw [Json.membersNesting]
    split at met
    · rcases Option.bind_eq_some_iff.mp met with ⟨_, _, met⟩
      rcases Option.bind_eq_some_iff.mp met with ⟨kind, _, ⟨⟩⟩
      exact ⟨inMembers.children, inMembers.properties⟩
    split at met
    · rcases Option.bind_eq_some_iff.mp met with ⟨_, _, met⟩
      rcases Option.bind_eq_some_iff.mp met with ⟨nodes, read, ⟨⟩⟩
      have inChildren := Node.fits_of_children? value nodes read
      refine ⟨?_, inMembers.properties⟩
      rintro _ ⟨⟩
      exact inChildren.imp_right (by omega)
    split at met
    · rcases Option.bind_eq_some_iff.mp met with ⟨_, _, met⟩
      rcases Option.bind_eq_some_iff.mp met with ⟨entries, read, ⟨⟩⟩
      have inProperties := Properties.fits_of_ofJson? value entries read
      refine ⟨inMembers.children, ?_⟩
      rintro _ ⟨⟩
      exact inProperties.imp_right (And.imp_right (by omega))
    · cases met
      exact inMembers

theorem Node.fits_of_children? : ∀ (value : Json) (nodes : List Node),
    Node.children? value = some nodes →
      Node.AllOrdered nodes ∧ Json.itemsNesting (Node.itemsToJson nodes) < value.nesting
  | .array items, nodes, read => by
    rw [Node.children?] at read
    rw [Json.nesting]
    exact (Node.fits_of_items? items nodes read).imp_right Nat.lt_succ_of_le
  | .null, _, read | .bool _, _, read | .number _, _, read | .text _, _, read
  | .object _, _, read => by
    simp [Node.children?] at read

theorem Node.fits_of_items? : ∀ (items : List Json) (nodes : List Node),
    Node.items? items = some nodes →
      Node.AllOrdered nodes ∧ Json.itemsNesting (Node.itemsToJson nodes) ≤ Json.itemsNesting items
  | [], nodes, read => by
    rw [Node.items?] at read
    cases read
    exact ⟨trivial, Nat.le_refl 0⟩
  | item :: items, nodes, read => by
    rw [Node.items?] at read
    rcases Option.bind_eq_some_iff.mp read with ⟨node, readNode, read⟩
    rcases Option.bind_eq_some_iff.mp read with ⟨others, readOthers, ⟨⟩⟩
    have first := Node.fits_of_ofJson? item node readNode
    have inOthers := Node.fits_of_items? items others readOthers
    rw [Node.itemsToJson, Json.itemsNesting, Json.itemsNesting]
    exact ⟨⟨first.1, inOthers.1⟩, by omega⟩

theorem Properties.fits_of_ofJson? : ∀ (value : Json) (properties : Properties),
    Properties.ofJson? value = some properties →
      Ascending.IsAscending properties ∧ Properties.AllOrdered properties ∧
        Json.membersNesting (Properties.membersToJson properties) < value.nesting
  | .object members, properties, read => by
    rw [Properties.ofJson?] at read
    rcases Option.map_eq_some_iff.mp read with ⟨pairs, readPairs, rfl⟩
    have inPairs := Properties.fits_of_pairs? members pairs readPairs
    rw [Properties.allOrdered_iff, Properties.membersNesting_le_iff] at inPairs
    rw [Properties.allOrdered_iff, Json.nesting, Nat.lt_succ_iff, Properties.membersNesting_le_iff]
    exact ⟨Ascending.isAscending_ofList pairs,
      fun entry kept => inPairs.1 entry (Ascending.mem_of_mem_ofList kept),
      fun entry kept => inPairs.2 entry (Ascending.mem_of_mem_ofList kept)⟩
  | .null, _, read | .bool _, _, read | .number _, _, read | .text _, _, read
  | .array _, _, read => by
    simp [Properties.ofJson?] at read

theorem Properties.fits_of_pairs? : ∀ (members : List (Option String × Json))
    (pairs : List (String × Property)), Properties.pairs? members = some pairs →
      Properties.AllOrdered pairs ∧
        Json.membersNesting (Properties.membersToJson pairs) ≤ Json.membersNesting members
  | [], pairs, read => by
    rw [Properties.pairs?] at read
    cases read
    exact ⟨trivial, Nat.le_refl 0⟩
  | (none, _) :: _, _, read => by
    rw [Properties.pairs?] at read
    cases read
  | (some name, value) :: members, pairs, read => by
    rw [Properties.pairs?] at read
    rcases Option.bind_eq_some_iff.mp read with ⟨property, readProperty, read⟩
    rcases Option.bind_eq_some_iff.mp read with ⟨others, readOthers, ⟨⟩⟩
    have first := Property.fits_of_ofJson? value property readProperty
    have inOthers := Properties.fits_of_pairs? members others readOthers
    rw [Properties.membersToJson, Json.membersNesting, Json.membersNesting]
    exact ⟨⟨first.1, inOthers.1⟩, by omega⟩

theorem Property.fits_of_ofJson? : ∀ (value : Json) (property : Property),
    Property.ofJson? value = some property →
      property.IsOrdered ∧ property.toJson.nesting ≤ value.nesting
  | .array items, property, read => by
    rw [Property.ofJson?] at read
    rcases Option.map_eq_some_iff.mp read with ⟨nodes, readNodes, rfl⟩
    have inNodes := Node.fits_of_items? items nodes readNodes
    exact ⟨inNodes.1, Nat.succ_le_succ inNodes.2⟩
  | .bool _, _, read => by
    cases read
    exact ⟨trivial, Nat.le_refl 0⟩
  | .number _, _, read | .text _, _, read => by
    rw [Property.ofJson?] at read
    rcases Option.map_eq_some_iff.mp read with ⟨_, _, rfl⟩
    exact ⟨trivial, Nat.le_refl 0⟩
  | .null, _, read | .object _, _, read => by
    simp [Property.ofJson?] at read

end

/-! ## Reading what was written -/

namespace Node

/-- A tree that opens no more brackets than the reader allows is read back from its text. -/
theorem read?_write_of_nesting_le {node : Node} (ordered : node.IsOrdered)
    (shallow : node.toJson.nesting ≤ nestingLimit) : read? node.write = some node := by
  have plain := node.isPlain_toJson
  have readable := Json.isReadable_of_isPlain node.toJson plain shallow
  rw [read?, write, Json.parse?_toText plain, Option.bind_eq_bind, Option.bind_some,
    node.readPart_toJson]
  dsimp only
  rw [readable, (Option.guard_eq_some' ()).mpr rfl]
  exact node.ofJson?_toJson ordered

theorem fits_of_read? {text : String} {node : Node} (read : read? text = some node) :
    node.IsOrdered ∧ node.toJson.nesting ≤ nestingLimit := by
  rcases Option.bind_eq_some_iff.mp read with ⟨value, _, read⟩
  rcases Option.bind_eq_some_iff.mp read with ⟨_, readable, made⟩
  have limited : value.readPart.isReadable nestingLimit = true := by
    exact (Option.guard_eq_some' _).mp readable
  exact (fits_of_ofJson? _ node made).imp_right
    (Nat.le_trans · (Json.nesting_le_of_isReadable _ limited))

/-- Reading undoes writing, for every ordered tree that opens at most as many brackets at once as
the reader allows. Every tree that was ever read is one, whatever it was read from. -/
theorem read?_write :
    (∀ node : Node, node.IsOrdered → node.toJson.nesting ≤ 127 →
      read? node.write = some node) ∧
    ∀ (text : String) (node : Node), read? text = some node → read? node.write = some node :=
  ⟨fun _ ordered shallow => read?_write_of_nesting_le ordered shallow,
    fun _ _ read => read?_write_of_nesting_le (fits_of_read? read).1 (fits_of_read? read).2⟩

/-- A tree with controls, an extreme number and nodes inside properties, and one read from a text
that is not its own. -/
theorem read?_write_nested :
    let inner : Node :=
      { kind := .headline
        properties := [("", .text "a\"\\\x00\n\x7f"), ("level", .int Int64.minValue),
          ("title", .nodes [.text "b"]), ("todo", .nodes []), ("é", .bool true)] }
    let tree : Node := { kind := .document, children := [inner, { kind := .paragraph }] }
    (tree.IsOrdered ∧ tree.toJson.nesting ≤ 127 ∧ read? tree.write = some tree) ∧
      ∃ text, text ≠ tree.write ∧ read? text = some (.text "b") ∧
        read? (Node.text "b").write = some (.text "b") := by
  intro inner tree
  have ordered : tree.IsOrdered := by
    simp only [tree, inner, IsOrdered, AllOrdered, Properties.AllOrdered, Property.IsOrdered,
      Ascending.IsAscending, Ascending.keys, Node.text]
    decide +kernel
  have shallow : tree.toJson.nesting ≤ 127 := by decide +kernel
  have read : read?
      "[\x7b\"plain-text\":null\x7d,[],\x7b\"value\":1,\"value\":\"\\u0062\"\x7d]" =
        some (.text "b") := by
    decide +kernel
  exact ⟨⟨ordered, shallow, read?_write.1 tree ordered shallow⟩, _, by decide +kernel, read,
    read?_write.2 _ _ read⟩

end Node

end MarkupExport
