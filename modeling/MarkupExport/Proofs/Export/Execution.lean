import MarkupExport.Proofs.Export.Renders

/-!
Exports follow the relation: every call has the outcome that the relation gives it, and changes
nothing of its context but the footnotes. In particular the depth to which claims are nested is
never the reason for an outcome, since every claim leaves one label less to be claimed.
-/

namespace MarkupExport

namespace Export

/-- The result of a step and the context that it leaves. -/
def perform (step : Export α) (context : Context) : Except TranscodeError α × Context :=
  step.run.run context

theorem perform_bind (step : Export α) (next : α → Export β) (context : Context) :
    (step >>= next).perform context =
      match step.perform context with
      | (.ok value, after) => (next value).perform after
      | (.error error, after) => (.error error, after) := by
  change ExceptT.bindCont next (step.run.run context).1 (step.run.run context).2 = _
  simp only [perform]
  rcases step.run.run context with ⟨result, after⟩
  cases result with
  | ok value => rfl
  | error error => rfl

@[simp] theorem perform_pure (value : α) (context : Context) :
    (pure value : Export α).perform context = (.ok value, context) :=
  rfl

@[simp] theorem perform_throw (error : TranscodeError) (context : Context) :
    (throw error : Export α).perform context = (.error error, context) :=
  rfl

@[simp] theorem perform_context (current : Context) :
    Export.context.perform current = (.ok current, current) :=
  rfl

theorem perform_ofExcept (result : Except TranscodeError α) (context : Context) :
    (ofExcept result).perform context = (result, context) := by
  cases result with
  | ok value => rfl
  | error error => rfl

theorem perform_inScope (scope : Option ListKind) (step : Export α) (context : Context) :
    (inScope scope step).perform context =
      ((step.perform { context with scope }).1,
        { (step.perform { context with scope }).2 with scope := context.scope }) :=
  rfl

theorem perform_withSecondary (secondary : List (String × String)) (step : Export α)
    (context : Context) :
    (withSecondary secondary step).perform context =
      ((step.perform { context with secondary }).1,
        { (step.perform { context with secondary }).2 with secondary := context.secondary }) :=
  rfl

theorem perform_assignFootnote {label : String} {context : Context}
    (unknown : context.footnotes.number? label = none) :
    (assignFootnote label).perform context =
      (.ok (context.footnotes.labels.length + 1),
        { context with footnotes := (context.footnotes.assign label).2 }) := by
  have number : (context.footnotes.assign label).1.1 = context.footnotes.labels.length + 1 :=
    congrArg Prod.fst (FootnoteRegister.assign_of_unknown unknown).1
  rw [← number]
  rfl

/-! ## The steps of a node -/

theorem leading_eq (claim : String → Export Nat) (name : String)
    (properties : List (String × Property)) :
    Export.leading claim (some name) properties =
      match properties.lookup name with
      | some property => Export.property claim name property
      | none => return [] := by
  induction properties with
  | nil => rw [Export.leading, List.lookup_nil]
  | cons entry properties induction =>
      rcases entry with ⟨other, property⟩
      rw [Export.leading, Ascending.lookup_cons_eq]
      by_cases same : name = other
      · simp [same]
      · simp only [Option.some.injEq, same, if_false]
        exact induction

theorem leading_none (claim : String → Export Nat) (properties : List (String × Property)) :
    Export.leading claim none properties = return [] := by
  induction properties with
  | nil => rw [Export.leading]
  | cons entry properties induction =>
      rcases entry with ⟨other, property⟩
      rw [Export.leading, if_neg (by simp)]
      exact induction

/-- The leading property of a node is rendered as its nodes are. -/
theorem leading_node (claim : String → Export Nat) (scope : Option ListKind) (node : Node) :
    Export.leading claim (leadingProperty? scope node) node.properties = do
      let text ← Export.nodes claim (node.leadingNodes scope)
      return node.renderedLeading scope text := by
  unfold Node.leadingNodes Node.renderedLeading Node.leading?
  cases leadingProperty? scope node with
  | none => simp [leading_none, Export.nodes]
  | some name =>
      rw [leading_eq]
      simp only [Node.nodesProperty?]
      cases node.properties.lookup name with
      | none => simp [Export.nodes]
      | some property => cases property <;> simp [Export.property, Export.nodes]

/-- A node is settled as its entry says, or else rendered from the inside out. -/
theorem perform_node (claim : String → Export Nat) (node : Node) (context : Context) :
    (Export.node claim node).perform context =
      match context.setting.entry node with
      | .settled result => (result, context)
      | .entered handler =>
        Export.perform (do
          let leading ← Export.nodes claim (node.leadingNodes context.scope)
          let contents ← inScope (innerScope context.scope node) (Export.nodes claim node.children)
          withSecondary (node.renderedLeading context.scope leading)
            (handle claim node contents handler)) context := by
  rcases node with ⟨kind, children, properties⟩
  rw [Export.node, perform_bind, perform_context]
  simp only [Setting.entry, Context.setting]
  by_cases hidden : (context.options.visibleOnly &&
      Node.flag ⟨kind, children, properties⟩ "hidden") = true
  · simp only [hidden, if_true]
    rfl
  · simp only [hidden, Bool.false_eq_true, if_false]
    by_cases plain : kind = .plainText
    · simp only [plain, if_true]
      rfl
    · simp only [plain, if_false]
      cases context.profile.policy kind with
      | fail => rfl
      | skip => rfl
      | handle handler =>
          simp only [leading_node claim context.scope ⟨kind, children, properties⟩, bind_assoc,
            pure_bind]

/-! ## The number of labels left -/

/-- The defined labels that have no number yet. -/
def unclaimed (definitions : FootnoteDefinitions) (register : FootnoteRegister) : Nat :=
  definitions.entries.countP fun entry => (register.number? entry.1).isNone

theorem unclaimed_le_size (definitions : FootnoteDefinitions) (register : FootnoteRegister) :
    unclaimed definitions register ≤ definitions.size :=
  List.countP_le_length

theorem countP_unknown_le {before after : FootnoteRegister} (growth : before.Extends after)
    (entries : List (String × Node)) :
    entries.countP (fun entry => (after.number? entry.1).isNone) ≤
      entries.countP (fun entry => (before.number? entry.1).isNone) := by
  apply List.countP_mono_left
  intro entry _ unknown
  rw [Option.isNone_iff_eq_none] at unknown ⊢
  exact growth.unknown unknown

theorem unclaimed_le {before after : FootnoteRegister} (growth : before.Extends after)
    (definitions : FootnoteDefinitions) :
    unclaimed definitions after ≤ unclaimed definitions before :=
  countP_unknown_le growth definitions.entries

/-- Claiming a defined label leaves one label less. -/
theorem unclaimed_assign {definitions : FootnoteDefinitions} {register : FootnoteRegister}
    {label : String} {definition : Node} (unknown : register.number? label = none)
    (found : definitions.get? label = some definition) :
    unclaimed definitions (register.assign label).2 < unclaimed definitions register := by
  rcases List.lookup_eq_some_iff.mp found with ⟨before, after, equal, _⟩
  have known := FootnoteRegister.number?_assign_self unknown
  have early := countP_unknown_le (.assign unknown) before
  have late := countP_unknown_le (.assign unknown) after
  simp only [unclaimed, equal, List.countP_append, List.countP_cons, unknown, known,
    Option.isNone_some, Option.isNone_none, if_true, Bool.false_eq_true, if_false]
  omega

/-! ## Steps and tasks -/

/-- From every context that leaves no more labels than this, the step does what the task asks. -/
def Follows (depth : Nat) (task : Task) (step : Export String) : Prop :=
  ∀ context, unclaimed context.definitions context.footnotes ≤ depth →
    ∃ result claims after, step.perform context = (result, { context with footnotes := after }) ∧
      Renders context.setting context.scope task context.footnotes result claims after

theorem follows_nodes {depth : Nat} {claim : String → Export Nat} {nodes : List Node}
    (each : ∀ node ∈ nodes, Follows depth (.node node) (Export.node claim node)) :
    Follows depth (.nodes nodes) (Export.nodes claim nodes) := by
  induction nodes with
  | nil =>
      intro context _
      exact ⟨.ok "", [], context.footnotes, by rw [Export.nodes]; rfl, .nil⟩
  | cons head tail induction =>
      intro context bound
      rcases each head List.mem_cons_self context bound with
        ⟨result, early, middle, performed, rendered⟩
      simp only [Export.nodes, perform_bind, performed]
      cases result with
      | error error => exact ⟨.error error, early, middle, rfl, .headFails rendered⟩
      | ok first =>
          have boundAfter := Nat.le_trans (unclaimed_le rendered.growth context.definitions) bound
          rcases induction (fun node member => each node (List.mem_cons_of_mem _ member))
              { context with footnotes := middle } boundAfter with
            ⟨result, late, after, tailPerformed, tailRendered⟩
          simp only [tailPerformed]
          cases result with
          | error error =>
              exact ⟨.error error, early ++ late, after, rfl, .tailFails rendered tailRendered⟩
          | ok rest =>
              exact ⟨.ok (first ++ rest), early ++ late, after, rfl, .cons rendered tailRendered⟩

/-- What is asked of the way in which labels are claimed: a label without a number gets its mark. -/
def ClaimsMarks (depth : Nat) (claim : String → Export Nat) : Prop :=
  ∀ label context, unclaimed context.definitions context.footnotes ≤ depth →
    context.footnotes.number? label = none →
    ∃ result claims after,
      Export.perform (do return footnoteMark (← claim label)) context =
        (result, { context with footnotes := after }) ∧
      Renders context.setting context.scope (.mark label) context.footnotes result claims after

theorem footnoteReference_eq (claim : String → Export Nat) (node : Node) :
    footnoteReference claim node = do
      let label ← ofExcept node.referredLabel
      match (← context).footnotes.number? label with
      | some number => return footnoteMark number
      | none => return footnoteMark (← claim label) := by
  rw [footnoteReference, Node.referredLabel]
  by_cases refused : (node.flag "inline" || !node.children.isEmpty) = true
  · rw [if_pos refused, if_pos refused]
    rfl
  · rw [if_neg refused, if_neg refused]
    rfl

section Steps

variable {depth : Nat} {claim : String → Export Nat} (claimsMarks : ClaimsMarks depth claim)

include claimsMarks

theorem follows_reference (node : Node) (secondary : List (String × String)) (contents : String) :
    Follows depth (.handle node secondary contents .footnoteReference)
      (footnoteReference claim node) := by
  intro context bound
  rw [footnoteReference_eq, perform_bind, perform_ofExcept]
  cases referred : node.referredLabel with
  | error error => exact ⟨.error error, [], context.footnotes, rfl, .refused referred⟩
  | ok label =>
      simp only [perform_bind, perform_context]
      cases found : context.footnotes.number? label with
      | some number =>
          exact ⟨.ok (footnoteMark number), [], context.footnotes, rfl,
            .referred referred (.numbered found)⟩
      | none =>
          rcases claimsMarks label context bound found with
            ⟨result, claims, after, performed, rendered⟩
          exact ⟨result, claims, after, performed, .referred referred rendered⟩

theorem follows_handle (node : Node) (secondary : List (String × String)) (contents : String)
    (handler : Handler) :
    Follows depth (.handle node secondary contents handler)
      (withSecondary secondary (handle claim node contents handler)) := by
  intro context bound
  rw [perform_withSecondary]
  cases handler with
  | rule rule =>
      refine ⟨_, [], context.footnotes, ?_, .rule⟩
      rw [handle, perform_bind, perform_context]
      simp only [perform_ofExcept]
      rfl
  | footnoteReference =>
      rcases follows_reference claimsMarks node secondary contents { context with secondary }
        bound with ⟨result, claims, after, performed, rendered⟩
      refine ⟨result, claims, after, ?_, rendered⟩
      rw [handle, performed]

theorem follows_node (node : Node) : Follows depth (.node node) (Export.node claim node) := by
  induction node using Node.induct with
  | step node induction =>
      intro context bound
      rw [perform_node]
      cases entry : context.setting.entry node with
      | settled result => exact ⟨result, [], context.footnotes, rfl, .settled entry⟩
      | entered handler =>
          have leadingFollows : Follows depth (.nodes (node.leadingNodes context.scope))
              (Export.nodes claim (node.leadingNodes context.scope)) :=
            follows_nodes fun part member => induction part (Node.mem_parts_of_leading member)
          have contentsFollow : Follows depth (.nodes node.children)
              (Export.nodes claim node.children) :=
            follows_nodes fun part member => induction part (Node.mem_parts_of_child member)
          rcases leadingFollows context bound with ⟨result, early, second, performed, leading⟩
          simp only [perform_bind, performed]
          cases result with
          | error error => exact ⟨.error error, early, second, rfl, .leadingFails entry leading⟩
          | ok text =>
              have boundSecond := Nat.le_trans (unclaimed_le leading.growth context.definitions) bound
              rcases contentsFollow
                  { context with footnotes := second, scope := innerScope context.scope node }
                  boundSecond with ⟨result, middle, third, performed, contents⟩
              simp only [perform_inScope, performed]
              cases result with
              | error error =>
                  exact ⟨.error error, early ++ middle, third, rfl,
                    .contentsFail entry leading contents⟩
              | ok inner =>
                  have boundThird := Nat.le_trans
                    (unclaimed_le contents.growth context.definitions) boundSecond
                  rcases follows_handle claimsMarks node
                      (node.renderedLeading context.scope text) inner handler
                      { context with footnotes := third } boundThird with
                    ⟨result, late, after, performed, handled⟩
                  exact ⟨result, early ++ middle ++ late, after, performed,
                    .entered entry leading contents handled⟩

end Steps

/-- Each claim may nest others, but fewer than there were labels left before it. -/
theorem claimsMarks_claim (depth : Nat) : ClaimsMarks depth (Export.claim depth) := by
  induction depth with
  | zero =>
      intro label context bound unknown
      refine ⟨.error (.unknownFootnote label), [], context.footnotes, ?_, .undefined unknown ?_⟩
      · rw [perform_bind, Export.claim, perform_throw]
      · cases found : context.definitions.get? label with
        | none => exact found
        | some definition =>
            have fewer := unclaimed_assign unknown found
            omega
  | succ depth induction =>
      intro label context bound unknown
      rw [perform_bind, Export.claim, perform_bind, perform_context]
      cases found : context.definitions.get? label with
      | none =>
          refine ⟨.error (.unknownFootnote label), [], context.footnotes, ?_,
            .undefined unknown found⟩
          simp only [found, perform_throw]
      | some definition =>
          have fewer := unclaimed_assign unknown found
          have boundAssigned : unclaimed context.definitions (context.footnotes.assign label).2 ≤
              depth := by omega
          have bodyFollows : Follows depth (.nodes definition.children)
              (Export.nodes (Export.claim depth) definition.children) :=
            follows_nodes fun node _ => follows_node induction node
          rcases bodyFollows { context with footnotes := (context.footnotes.assign label).2 }
              boundAssigned with ⟨result, claims, after, performed, rendered⟩
          simp only [found, perform_bind, perform_assignFootnote unknown, performed]
          cases result with
          | error error =>
              exact ⟨.error error, ⟨label, context.scope⟩ :: claims, after, rfl,
                .definitionFails unknown found rendered⟩
          | ok body =>
              exact ⟨_, ⟨label, context.scope⟩ :: claims, _, rfl,
                .claimed unknown found rendered⟩

end Export

namespace Context

/-- A call on a node gives what the relation says, and changes nothing but the footnotes. -/
theorem transcode_renders (context : Context) (node : Node) :
    ∃ result claims after, context.transcode node = (result, { context with footnotes := after }) ∧
      Renders context.setting context.scope (.node node) context.footnotes result claims after :=
  Export.follows_node (Export.claimsMarks_claim context.definitions.size) node context
    (Export.unclaimed_le_size context.definitions context.footnotes)

theorem transcode_context (context : Context) (node : Node) :
    (context.transcode node).2 =
      { context with footnotes := (context.transcode node).2.footnotes } := by
  rcases context.transcode_renders node with ⟨result, claims, after, performed, _⟩
  rw [performed]

theorem transcodeAll_renders (context : Context) (nodes : List Node) :
    ∃ result claims after,
      context.transcodeAll nodes = (result, { context with footnotes := after }) ∧
      Renders context.setting context.scope (.nodes nodes) context.footnotes result claims after :=
  Export.follows_nodes
    (fun node _ => Export.follows_node (Export.claimsMarks_claim context.definitions.size) node)
    context (Export.unclaimed_le_size context.definitions context.footnotes)

section Outcome

variable {context : Context} {result : Except TranscodeError String} {claims : List Claim}
  {after : FootnoteRegister}

theorem transcode_of_renders {node : Node}
    (rendered : Renders context.setting context.scope (.node node) context.footnotes result claims
      after) :
    context.transcode node = (result, { context with footnotes := after }) := by
  rcases context.transcode_renders node with ⟨_, _, _, performed, actual⟩
  rcases actual.unique rendered with ⟨rfl, rfl, rfl⟩
  exact performed

theorem transcodeAll_of_renders {nodes : List Node}
    (rendered : Renders context.setting context.scope (.nodes nodes) context.footnotes result
      claims after) :
    context.transcodeAll nodes = (result, { context with footnotes := after }) := by
  rcases context.transcodeAll_renders nodes with ⟨_, _, _, performed, actual⟩
  rcases actual.unique rendered with ⟨rfl, rfl, rfl⟩
  exact performed

end Outcome

end Context

end MarkupExport
