import Mathlib.Data.List.Lex
import MarkupExport.Proofs.Node.Parts

/-!
Positions in a tree. A node is known by the way that leads to it from the root, step by step through
children and properties, since equal nodes may stand at several places. Document order is an order
of positions: a node comes before what is inside it, properties come before children and in the
order of their names. The walk of a tree visits each position once, in document order.
-/

namespace MarkupExport.Node

/-- The way from a node to one directly inside it. -/
inductive Step where
  | property (name : String) (index : Nat)
  | child (index : Nat)
deriving DecidableEq, Repr

/-- The way from the root to a node. -/
abbrev Position := List Step

def part? (node : Node) : Step → Option Node
  | .property name index => (node.nodesProperty? name).bind fun values => values[index]?
  | .child index => node.children[index]?

/-- The node at the position, if the way leads to one. -/
def at? (tree : Node) : Position → Option Node
  | [] => some tree
  | step :: rest => (tree.part? step).bind fun part => part.at? rest

/-! ## Document order -/

/-- The order of what is directly inside one node. -/
inductive Step.Before : Step → Step → Prop
  | names {first second left right} : first < second →
      Before (.property first left) (.property second right)
  | values {name left right} : left < right → Before (.property name left) (.property name right)
  | body {name left right} : Before (.property name left) (.child right)
  | children {left right} : left < right → Before (.child left) (.child right)

/-- The way to the first node goes on to the second, or it takes an earlier step where they part. -/
def Position.Before : Position → Position → Prop :=
  List.Lex Step.Before

instance Step.asymm_before : Std.Asymm Step.Before where
  asymm first second before after := by
    cases before with
    | names less =>
        cases after with
        | names greater => exact String.lt_asymm less greater
        | values _ => exact String.lt_irrefl _ less
    | values less =>
        cases after with
        | names greater => exact String.lt_irrefl _ greater
        | values greater => omega
    | body => cases after
    | children less =>
        cases after with
        | children greater => omega

theorem Position.Before.asymm {first second : Position} (before : first.Before second) :
    ¬ second.Before first :=
  (List.Lex.asymm Step.Before).asymm first second before

theorem Position.Before.irrefl (position : Position) : ¬ position.Before position :=
  fun before => before.asymm before

/-- The nodes stand at these positions of the tree, which are all its positions, each of them once
and in document order. -/
structure InDocumentOrder (tree : Node) (positions : List Position) (nodes : List Node) : Prop where
  once : positions.Nodup
  ordered : positions.Pairwise Position.Before
  complete : ∀ position, position ∈ positions ↔ ∃ node, tree.at? position = some node
  nodes : nodes.map some = positions.map tree.at?

/-! ## The steps from a node -/

/-- Nodes in a row, with the step that leads to each. -/
def numbered (step : Nat → Step) (nodes : List Node) : List (Step × Node) :=
  nodes.mapIdx fun index node => (step index, node)

/-- The steps from a node and where they lead, in document order. -/
def steps (node : Node) : List (Step × Node) :=
  (node.properties.flatMap fun entry => numbered (.property entry.1) entry.2.parts) ++
    numbered .child node.children

section Numbered

variable {way : Nat → Step} {nodes : List Node}

theorem mem_numbered {step : Step} {node : Node} :
    (step, node) ∈ numbered way nodes ↔ ∃ index, step = way index ∧ nodes[index]? = some node := by
  simp only [numbered, List.mem_mapIdx, Prod.mk.injEq, List.getElem?_eq_some_iff]
  constructor
  · rintro ⟨index, inside, rfl, found⟩
    exact ⟨index, rfl, inside, found⟩
  · rintro ⟨index, rfl, inside, found⟩
    exact ⟨index, inside, rfl, found⟩

theorem map_snd_numbered : (numbered way nodes).map Prod.snd = nodes := by
  apply List.ext_getElem (by simp [numbered])
  intro index _ _
  simp [numbered]

theorem pairwise_numbered
    (ascends : ∀ {left right}, left < right → (way left).Before (way right)) :
    (numbered way nodes).Pairwise fun first second => first.1.Before second.1 := by
  rw [List.pairwise_iff_getElem]
  intro left right insideLeft insideRight less
  simpa [numbered] using ascends less

end Numbered

theorem map_snd_steps (node : Node) : node.steps.map Prod.snd = node.parts := by
  simp only [steps, parts, List.map_append, List.map_flatMap, map_snd_numbered]

section Ascending

variable {node : Node} (ascending : Ascending.IsAscending node.properties)

include ascending

theorem nodesProperty?_eq_some_iff {name : String} {values : List Node} :
    node.nodesProperty? name = some values ↔ (name, .nodes values) ∈ node.properties := by
  constructor
  · intro found
    rw [nodesProperty?] at found
    split at found
    · next kept keptAt =>
        cases found
        exact Ascending.mem_of_lookup keptAt
    · cases found
  · intro member
    rw [nodesProperty?, Ascending.lookup_of_mem ascending member]

theorem mem_steps_iff {step : Step} {part : Node} :
    (step, part) ∈ node.steps ↔ node.part? step = some part := by
  rw [steps, List.mem_append, List.mem_flatMap]
  cases step with
  | child index => simp [mem_numbered, part?]
  | property name index =>
      simp only [part?, Option.bind_eq_some_iff, nodesProperty?_eq_some_iff ascending]
      constructor
      · rintro (⟨⟨other, property⟩, member, inEntry⟩ | inChildren)
        · rcases mem_numbered.mp inEntry with ⟨_, ⟨⟩, found⟩
          cases property with
          | nodes values => exact ⟨values, member, found⟩
          | bool _ | int _ | text _ => cases found
        · rcases mem_numbered.mp inChildren with ⟨_, ⟨⟩, _⟩
      · rintro ⟨values, member, found⟩
        exact .inl ⟨(name, .nodes values), member, mem_numbered.mpr ⟨index, rfl, found⟩⟩

theorem pairwise_steps : node.steps.Pairwise fun first second => first.1.Before second.1 := by
  rw [steps, List.pairwise_append, List.pairwise_flatMap]
  refine ⟨⟨fun entry _ => pairwise_numbered .values, ?_⟩, pairwise_numbered .children, ?_⟩
  · refine (List.pairwise_map.mp ascending).imp ?_
    intro first second less left inLeft right inRight
    rcases mem_numbered.mp inLeft with ⟨_, isLeft, _⟩
    rcases mem_numbered.mp inRight with ⟨_, isRight, _⟩
    rw [isLeft, isRight]
    exact .names less
  · intro left inLeft right inRight
    rcases List.mem_flatMap.mp inLeft with ⟨_, _, inLeft⟩
    rcases mem_numbered.mp inLeft with ⟨_, isLeft, _⟩
    rcases mem_numbered.mp inRight with ⟨_, isRight, _⟩
    rw [isLeft, isRight]
    exact .body

end Ascending

/-! ## The walk -/

/-- The positions below a node, from those inside each of its parts. -/
def positionsBelow (node : Node) (within : Node → List Position) : List Position :=
  node.steps.flatMap fun entry => (within entry.2).map (entry.1 :: ·)

section Visit

variable {node : Node} {within : Node → List Position}

theorem mem_parts_of_mem_steps {entry : Step × Node} (member : entry ∈ node.steps) :
    entry.2 ∈ node.parts := by
  rw [← map_snd_steps]
  exact List.mem_map_of_mem member

theorem pairwise_positionsBelow (ascending : Ascending.IsAscending node.properties)
    (ordered : ∀ part ∈ node.parts, (within part).Pairwise Position.Before) :
    (node.positionsBelow within).Pairwise Position.Before := by
  rw [positionsBelow, List.pairwise_flatMap]
  constructor
  · intro entry member
    rw [List.pairwise_map]
    exact (ordered entry.2 (mem_parts_of_mem_steps member)).imp .cons
  · refine (pairwise_steps ascending).imp ?_
    intro first second before left inLeft right inRight
    rcases List.mem_map.mp inLeft with ⟨_, _, rfl⟩
    rcases List.mem_map.mp inRight with ⟨_, _, rfl⟩
    exact .rel before

theorem mem_positionsBelow_iff (ascending : Ascending.IsAscending node.properties)
    (complete : ∀ part ∈ node.parts, ∀ position,
      position ∈ within part ↔ ∃ inner, part.at? position = some inner)
    {step : Step} {rest : Position} :
    step :: rest ∈ node.positionsBelow within ↔ ∃ inner, node.at? (step :: rest) = some inner := by
  simp only [positionsBelow, List.mem_flatMap, List.mem_map, List.cons.injEq, at?,
    Option.bind_eq_some_iff]
  constructor
  · rintro ⟨⟨_, part⟩, member, _, inside, rfl, rfl⟩
    rcases (complete part (mem_parts_of_mem_steps member) _).mp inside with ⟨inner, found⟩
    exact ⟨inner, part, (mem_steps_iff ascending).mp member, found⟩
  · rintro ⟨inner, part, leads, found⟩
    have member := (mem_steps_iff ascending).mpr leads
    have inside := (complete part (mem_parts_of_mem_steps member) rest).mpr ⟨inner, found⟩
    exact ⟨(step, part), member, rest, inside, rfl, rfl⟩

theorem map_at?_positionsBelow (ascending : Ascending.IsAscending node.properties)
    (nodes : ∀ part ∈ node.parts, part.walk.map some = (within part).map part.at?) :
    (node.positionsBelow within).map node.at? = (node.parts.flatMap walk).map some := by
  rw [positionsBelow, List.map_flatMap, List.map_flatMap, ← map_snd_steps, List.flatMap_map]
  apply List.flatMap_congr
  intro entry member
  have leads := (mem_steps_iff ascending).mp member
  rw [nodes entry.2 (mem_parts_of_mem_steps member), List.map_map]
  apply List.map_congr_left
  intro rest _
  simp [at?, leads]

/-- A node comes first, then its parts in their order. -/
theorem InDocumentOrder.ofParts (ascending : Ascending.IsAscending node.properties)
    (visited : ∀ part ∈ node.parts, InDocumentOrder part (within part) part.walk) :
    InDocumentOrder node ([] :: node.positionsBelow within) node.walk := by
  have ordered : ([] :: node.positionsBelow within).Pairwise Position.Before := by
    refine List.pairwise_cons.mpr ⟨?_, pairwise_positionsBelow ascending fun part inside =>
      (visited part inside).ordered⟩
    intro position below
    rcases List.mem_flatMap.mp below with ⟨_, _, inside⟩
    rcases List.mem_map.mp inside with ⟨_, _, rfl⟩
    exact .nil
  refine ⟨?_, ordered, ?_, ?_⟩
  · refine ordered.imp ?_
    rintro first _ before rfl
    exact Position.Before.irrefl first before
  · intro position
    cases position with
    | nil => simp [at?]
    | cons step rest =>
        rw [← mem_positionsBelow_iff ascending fun part inside => (visited part inside).complete]
        simp
  · rw [walk_eq, List.map_cons, List.map_cons, map_at?_positionsBelow ascending fun part inside =>
      (visited part inside).nodes]
    rfl

end Visit

/-- The walk of an ordered tree visits every node once, in document order. -/
theorem exists_positions_walk {tree : Node} (ordered : tree.IsOrdered) :
    ∃ positions, InDocumentOrder tree positions tree.walk := by
  induction tree using Node.induct with
  | step node induction =>
      have inPart : ∀ part : Node, ∃ positions, part ∈ node.parts →
          InDocumentOrder part positions part.walk := by
        intro part
        by_cases inside : part ∈ node.parts
        · rcases induction part inside (ordered.part inside) with ⟨positions, visited⟩
          exact ⟨positions, fun _ => visited⟩
        · exact ⟨[], fun member => absurd member inside⟩
      choose within visited using inPart
      exact ⟨_, InDocumentOrder.ofParts ordered.ascending visited⟩

/-! ## The first node of a kind -/

/-- The node at this position is the first one in document order that passes the test. -/
structure IsFirst (tree : Node) (test : Node → Prop) (position : Position) (node : Node) : Prop where
  found : tree.at? position = some node
  passes : test node
  first : ∀ other inner, tree.at? other = some inner → test inner →
    other = position ∨ position.Before other

theorem InDocumentOrder.mem_iff {tree node : Node} {positions : List Position} {nodes : List Node}
    (visited : InDocumentOrder tree positions nodes) :
    node ∈ nodes ↔ ∃ position, tree.at? position = some node := by
  have inMap : node ∈ nodes ↔ some node ∈ positions.map tree.at? := by
    simp [← visited.nodes]
  rw [inMap, List.mem_map]
  constructor
  · rintro ⟨position, _, found⟩
    exact ⟨position, found⟩
  · rintro ⟨position, found⟩
    exact ⟨position, (visited.complete position).mpr ⟨node, found⟩, found⟩

theorem InDocumentOrder.isFirst_of_find? {tree node : Node} {positions : List Position}
    {nodes : List Node} (visited : InDocumentOrder tree positions nodes) {test : Node → Prop}
    [DecidablePred test] (found : nodes.find? (fun inner => test inner) = some node) :
    ∃ position, tree.IsFirst test position node := by
  rcases List.find?_eq_some_iff_append.mp found with ⟨passes, before, after, split, fail⟩
  have same := visited.nodes
  rw [split, List.map_append, List.map_cons] at same
  rcases List.map_eq_append_iff.mp same.symm with ⟨front, back, isSplit, inFront, inBack⟩
  rcases List.map_eq_cons_iff.mp inBack with ⟨position, rest, rfl, here, _⟩
  refine ⟨position, here, by simpa using passes, ?_⟩
  intro other inner there innerPasses
  have inside := (visited.complete other).mpr ⟨inner, there⟩
  rw [isSplit] at inside
  rcases List.mem_append.mp inside with earlier | later
  · have member : some inner ∈ before.map some := inFront ▸ there ▸ List.mem_map_of_mem earlier
    have innerFails := fail inner (by simpa using member)
    simp [innerPasses] at innerFails
  · have ordered := visited.ordered
    rw [isSplit, List.pairwise_append, List.pairwise_cons] at ordered
    exact (List.mem_cons.mp later).imp_right (ordered.2.1.1 other)

theorem IsFirst.unique {tree left right : Node} {test : Node → Prop} {first second : Position}
    (isFirst : tree.IsFirst test first left) (isAlso : tree.IsFirst test second right) :
    left = right := by
  have same : first = second := by
    rcases isFirst.first second right isAlso.found isAlso.passes with equal | before
    · exact equal.symm
    · rcases isAlso.first first left isFirst.found isFirst.passes with equal | after
      · exact equal
      · exact absurd after before.asymm
  subst same
  exact Option.some.inj (isFirst.found.symm.trans isAlso.found)

theorem find?_walk_eq_some_iff {tree node : Node} (ordered : tree.IsOrdered) {test : Node → Prop}
    [DecidablePred test] :
    tree.walk.find? (fun inner => test inner) = some node ↔
      ∃ position, tree.IsFirst test position node := by
  rcases exists_positions_walk ordered with ⟨positions, visited⟩
  refine ⟨visited.isFirst_of_find?, ?_⟩
  rintro ⟨position, isFirst⟩
  have member := visited.mem_iff.mpr ⟨position, isFirst.found⟩
  cases found : tree.walk.find? (fun inner => test inner) with
  | none =>
      have fails := List.find?_eq_none.mp found node member
      simp [isFirst.passes] at fails
  | some other =>
      rcases visited.isFirst_of_find? found with ⟨_, isAlso⟩
      exact congrArg some (isAlso.unique isFirst)

end MarkupExport.Node
