import MarkupExport.Proofs.Footnote.Definitions
import MarkupExport.Proofs.Node.Parts

/-!
Trees without what is hidden. In a redacted tree every hidden node is replaced by one and the same
hidden node, so two trees whose redactions are equal differ only inside their hidden nodes, which
stand at the same places. Whatever can be read of a node that is shown can be read of its
redaction.
-/

namespace MarkupExport

/-- What stands in the place of a hidden node. -/
def Node.cover : Node :=
  { kind := .comment, properties := [("hidden", .bool true)] }

mutual

def Node.redacted : Node → Node
  | ⟨kind, children, properties⟩ =>
    if Node.flag ⟨kind, children, properties⟩ "hidden" then Node.cover
    else ⟨kind, Node.redactedAll children, Properties.redacted properties⟩

def Node.redactedAll : List Node → List Node
  | [] => []
  | node :: nodes => node.redacted :: Node.redactedAll nodes

def Properties.redacted : List (String × Property) → List (String × Property)
  | [] => []
  | (name, property) :: properties => (name, property.redacted) :: Properties.redacted properties

def Property.redacted : Property → Property
  | .nodes values => .nodes (Node.redactedAll values)
  | .bool value => .bool value
  | .int value => .int value
  | .text value => .text value

end

/-- The trees differ only inside nodes that are hidden in both. -/
def Node.LooksLike (left right : Node) : Prop :=
  left.redacted = right.redacted

instance (left right : Node) : Decidable (left.LooksLike right) :=
  inferInstanceAs (Decidable (left.redacted = right.redacted))

theorem Node.redactedAll_eq (nodes : List Node) :
    Node.redactedAll nodes = nodes.map Node.redacted := by
  induction nodes with
  | nil => rfl
  | cons head tail induction => rw [Node.redactedAll, induction, List.map_cons]

theorem Property.redacted_eq (property : Property) :
    property.redacted = property.withNodes (List.map Node.redacted) := by
  cases property with
  | nodes values => exact congrArg Property.nodes (Node.redactedAll_eq values)
  | bool _ | int _ | text _ => rfl

theorem Properties.lookup_redacted (properties : List (String × Property)) (name : String) :
    (Properties.redacted properties).lookup name =
      (properties.lookup name).map (Property.withNodes (List.map Node.redacted)) := by
  induction properties with
  | nil => rfl
  | cons entry properties induction =>
      rcases entry with ⟨other, property⟩
      rw [Properties.redacted, Ascending.lookup_cons_eq, Ascending.lookup_cons_eq, induction,
        Property.redacted_eq]
      split <;> rfl

theorem Property.parts_redacted (property : Property) :
    property.redacted.parts = property.parts.map Node.redacted := by
  cases property with
  | nodes values => exact Node.redactedAll_eq values
  | bool _ | int _ | text _ => rfl

theorem Properties.parts_redacted (properties : List (String × Property)) :
    ((Properties.redacted properties).flatMap fun entry => entry.2.parts) =
      (properties.flatMap fun entry => entry.2.parts).map Node.redacted := by
  induction properties with
  | nil => rfl
  | cons entry properties induction =>
      rcases entry with ⟨name, property⟩
      rw [Properties.redacted, List.flatMap_cons, List.flatMap_cons, induction,
        Property.parts_redacted, List.map_append]

namespace Node

theorem redacted_of_hidden {node : Node} (hidden : node.flag "hidden" = true) :
    node.redacted = cover := by
  rcases node with ⟨kind, children, properties⟩
  rw [redacted, if_pos hidden]

section Shown

variable {node : Node} (shown : node.flag "hidden" = false)

include shown

theorem redacted_of_shown :
    node.redacted =
      ⟨node.kind, node.children.map redacted, Properties.redacted node.properties⟩ := by
  rcases node with ⟨kind, children, properties⟩
  rw [redacted, if_neg (by simp [shown]), redactedAll_eq]

theorem kind_redacted : node.redacted.kind = node.kind := by
  rw [redacted_of_shown shown]

theorem children_redacted : node.redacted.children = node.children.map redacted := by
  rw [redacted_of_shown shown]

theorem lookup_redacted (name : String) :
    node.redacted.properties.lookup name =
      (node.properties.lookup name).map (Property.withNodes (List.map redacted)) := by
  rw [redacted_of_shown shown, Properties.lookup_redacted]

theorem textProperty?_redacted (name : String) :
    node.redacted.textProperty? name = node.textProperty? name :=
  textProperty?_viewed (lookup_redacted shown) name

theorem intProperty?_redacted (name : String) :
    node.redacted.intProperty? name = node.intProperty? name :=
  intProperty?_viewed (lookup_redacted shown) name

theorem flag_redacted (name : String) : node.redacted.flag name = node.flag name :=
  flag_viewed (lookup_redacted shown) name

theorem nodesProperty?_redacted (name : String) :
    node.redacted.nodesProperty? name =
      (node.nodesProperty? name).map fun values => values.map redacted :=
  nodesProperty?_viewed (lookup_redacted shown) name

theorem parts_redacted : node.redacted.parts = node.parts.map redacted := by
  rw [redacted_of_shown shown, parts, parts, List.map_append, Properties.parts_redacted]

theorem defines_redacted {label : String} : node.redacted.Defines label ↔ node.Defines label := by
  rw [Defines, Defines, kind_redacted shown, textProperty?_redacted shown]

end Shown

/-- Redaction takes nothing out of sight and brings nothing into it. -/
theorem flag_hidden_redacted (node : Node) :
    node.redacted.flag "hidden" = node.flag "hidden" := by
  cases hidden : node.flag "hidden" with
  | true =>
      rw [redacted_of_hidden hidden]
      rfl
  | false => rw [flag_redacted hidden, hidden]

/-! ## Definitions that are hidden -/

/-- The label is defined by a node that is hidden, or that stands inside one that is. -/
def HidesDefinition (tree : Node) (label : String) : Prop :=
  ∃ outer ∈ tree.walk, outer.flag "hidden" = true ∧ ∃ inner ∈ outer.walk, inner.Defines label

/-- What is shown of the footnote with this label. -/
def shownNote (tree : Node) (label : String) : Option (List Node) :=
  (tree.walk.find? fun node => node.Defines label).map fun node => node.children.map redacted

theorem HidesDefinition.of_part {node part : Node} {label : String} (inside : part ∈ node.parts)
    (hides : part.HidesDefinition label) : node.HidesDefinition label := by
  rcases hides with ⟨outer, member, hidden, defined⟩
  exact ⟨outer, mem_walk_of_part inside member, hidden, defined⟩

/-- Where no hidden node defines the label, its definition is found in the redacted tree. -/
theorem find?_walk_redacted {tree : Node} {label : String} (clear : ¬ tree.HidesDefinition label) :
    (tree.redacted.walk.find? fun node => node.Defines label) =
      (tree.walk.find? fun node => node.Defines label).map redacted := by
  induction tree using Node.induct with
  | step node induction =>
      cases hidden : node.flag "hidden" with
      | true =>
          have undefined : (node.walk.find? fun inner => inner.Defines label) = none := by
            apply List.find?_eq_none.mpr
            intro inner member defines
            exact clear ⟨node, node.mem_walk_self, hidden, inner, member, by simpa using defines⟩
          rw [undefined, redacted_of_hidden hidden]
          rfl
      | false =>
          have inParts : ((node.parts.map redacted).flatMap walk).find?
              (fun inner => inner.Defines label) =
                ((node.parts.flatMap walk).find? fun inner => inner.Defines label).map
                  redacted := by
            have each : ∀ part ∈ node.parts,
                (part.redacted.walk.find? fun inner => inner.Defines label) =
                  (part.walk.find? fun inner => inner.Defines label).map redacted :=
              fun part member => induction part member fun hides => clear (hides.of_part member)
            generalize node.parts = parts at each
            induction parts with
            | nil => rfl
            | cons head tail inTail =>
                rw [List.map_cons, List.flatMap_cons, List.flatMap_cons, List.find?_append,
                  List.find?_append, each head List.mem_cons_self,
                  inTail fun part member => each part (List.mem_cons_of_mem head member)]
                cases head.walk.find? fun inner => inner.Defines label <;> rfl
          rw [walk_eq node, walk_eq node.redacted, parts_redacted hidden]
          by_cases defines : node.Defines label
          · simp [defines, defines_redacted hidden]
          · simp [defines, defines_redacted hidden, inParts]

/-- Where no hidden node defines the label, what is shown of its footnote can be read off the
redacted tree. -/
theorem shownNote_eq {tree : Node} {label : String} (clear : ¬ tree.HidesDefinition label) :
    tree.shownNote label =
      (tree.redacted.walk.find? fun node => node.Defines label).map Node.children := by
  rw [shownNote, find?_walk_redacted clear]
  cases found : tree.walk.find? fun node => node.Defines label with
  | none => rfl
  | some definition =>
      have shown : definition.flag "hidden" = false := by
        apply Bool.eq_false_iff.mpr
        intro hidden
        have defines : definition.Defines label := by simpa using List.find?_some found
        exact clear ⟨definition, List.mem_of_find?_eq_some found, hidden, definition,
          definition.mem_walk_self, defines⟩
      exact congrArg some (children_redacted shown).symm

theorem LooksLike.shownNote_eq {left right : Node} (alike : left.LooksLike right) {label : String}
    (leftClear : ¬ left.HidesDefinition label) (rightClear : ¬ right.HidesDefinition label) :
    left.shownNote label = right.shownNote label := by
  rw [Node.shownNote_eq leftClear, Node.shownNote_eq rightClear, alike]

/-- No label is defined by a hidden node if no hidden node holds a definition. -/
theorem not_hidesDefinition {tree : Node} (clear : ∀ outer ∈ tree.walk, outer.flag "hidden" = true →
    ∀ inner ∈ outer.walk, inner.kind ≠ .footnoteDefinition) (label : String) :
    ¬ tree.HidesDefinition label := by
  intro hides
  rcases hides with ⟨outer, member, hidden, inner, inside, defines⟩
  exact clear outer member hidden inner inside defines.1

end Node

end MarkupExport
