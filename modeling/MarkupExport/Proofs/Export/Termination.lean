import Mathlib.Data.List.Flatten
import Mathlib.Data.Prod.Lex
import Mathlib.Logic.Relation
import MarkupExport.Proofs.Export.Calls

/-!
Exports end. To do a task is to do others first: those of the nodes inside, and that of a footnote
definition, which may stand anywhere, even around the reference that asks for it. Nodes get smaller
on the way in, and on the way to a definition there is one label less to be claimed. So whatever
the profile, whatever is known already and whatever fails, no chain of tasks goes on forever, and
no definition is rendered twice for a reference.
-/

namespace MarkupExport

/-- A task to be done in a scope, from these footnotes on. -/
structure Job where
  scope : Option ListKind
  task : Task
  footnotes : FootnoteRegister

/-- To do the first job the second is done, after those before it have succeeded. There is one
case for each call that an export makes of itself. -/
inductive Needs (setting : Setting) : Job → Job → Prop
  | head {scope head tail before} :
      Needs setting ⟨scope, .nodes (head :: tail), before⟩ ⟨scope, .node head, before⟩
  | tail {scope head tail before middle first claims} :
      Renders setting scope (.node head) before (.ok first) claims middle →
      Needs setting ⟨scope, .nodes (head :: tail), before⟩ ⟨scope, .nodes tail, middle⟩
  | leading {scope node handler before} : setting.entry node = .entered handler →
      Needs setting ⟨scope, .node node, before⟩ ⟨scope, .nodes (node.leadingNodes scope), before⟩
  | contents {scope node handler before middle leading claims} :
      setting.entry node = .entered handler →
      Renders setting scope (.nodes (node.leadingNodes scope)) before (.ok leading) claims middle →
      Needs setting ⟨scope, .node node, before⟩
        ⟨Export.innerScope scope node, .nodes node.children, middle⟩
  | handled {scope node handler before second third leading contents early late} :
      setting.entry node = .entered handler →
      Renders setting scope (.nodes (node.leadingNodes scope)) before (.ok leading) early second →
      Renders setting (Export.innerScope scope node) (.nodes node.children) second (.ok contents)
        late third →
      Needs setting ⟨scope, .node node, before⟩
        ⟨scope, .handle node (node.renderedLeading scope leading) contents handler, third⟩
  | mark {scope node secondary contents label before} : node.referredLabel = .ok label →
      Needs setting ⟨scope, .handle node secondary contents .footnoteReference, before⟩
        ⟨scope, .mark label, before⟩
  | definition {scope label definition} {before : FootnoteRegister} :
      before.number? label = none → setting.definitions.get? label = some definition →
      Needs setting ⟨scope, .mark label, before⟩
        ⟨scope, .nodes definition.children, (before.assign label).2⟩

/-- Sooner or later, to do the first job the second is done. -/
abbrev Reaches (setting : Setting) : Job → Job → Prop :=
  Relation.ReflTransGen (Needs setting)

/-! ## What gets less -/

/-- Twice the number of nodes to be rendered, and what is still to be done once they are. -/
def Task.weight : Task → Nat
  | .node placed => 2 * placed.walk.length
  | .nodes placed => 2 * (placed.flatMap Node.walk).length + 1
  | .handle _ _ _ _ => 1
  | .mark _ => 0

theorem Task.weight_parts_lt {outer : Node} {inner : List Node}
    (inside : inner.Sublist outer.parts) :
    (Task.nodes inner).weight < (Task.node outer).weight := by
  have fewer := (inside.flatMap Node.walk).length_le
  simp only [weight, Node.walk_eq outer, List.length_cons]
  omega

theorem Task.weight_nodes_cons (head : Node) (tail : List Node) :
    (Task.nodes (head :: tail)).weight = (Task.node head).weight + (Task.nodes tail).weight := by
  simp only [weight, List.flatMap_cons, List.length_append]
  omega

theorem Task.one_lt_weight_node (placed : Node) : 1 < (Task.node placed).weight := by
  simp only [weight, Node.walk_eq placed, List.length_cons]
  omega

theorem Task.weight_nodes_pos (placed : List Node) : 0 < (Task.nodes placed).weight :=
  Nat.succ_pos _

/-- The labels that are left to be claimed, and the weight of the task. -/
def Job.measure (setting : Setting) (job : Job) : Nat × Nat :=
  (Export.unclaimed setting.definitions job.footnotes, job.task.weight)

section Measure

variable {setting : Setting} {outer inner : Job}

theorem Job.measure_lt_of_growth (growth : outer.footnotes.Extends inner.footnotes)
    (lighter : inner.task.weight < outer.task.weight) :
    Prod.Lex (· < ·) (· < ·) (inner.measure setting) (outer.measure setting) := by
  apply Prod.lex_def.mpr
  rcases Nat.lt_or_eq_of_le (Export.unclaimed_le growth setting.definitions) with fewer | equal
  · exact .inl fewer
  · exact .inr ⟨equal, lighter⟩

theorem Needs.measure_lt (needs : Needs setting outer inner) :
    Prod.Lex (· < ·) (· < ·) (inner.measure setting) (outer.measure setting) := by
  cases needs with
  | @head _ head tail _ =>
      have lighter : (Task.node head).weight < (Task.nodes (head :: tail)).weight := by
        have positive := Task.weight_nodes_pos tail
        rw [Task.weight_nodes_cons]
        omega
      exact Job.measure_lt_of_growth (.refl _) lighter
  | @tail _ head tail _ _ _ _ rendered =>
      have lighter : (Task.nodes tail).weight < (Task.nodes (head :: tail)).weight := by
        have positive := Task.one_lt_weight_node head
        rw [Task.weight_nodes_cons]
        omega
      exact Job.measure_lt_of_growth rendered.growth lighter
  | @leading scope node _ _ _ =>
      have lighter := Task.weight_parts_lt (node.leadingNodes_sublist scope)
      exact Job.measure_lt_of_growth (.refl _) lighter
  | @contents _ node _ _ _ _ _ _ leading =>
      have lighter := Task.weight_parts_lt node.children_sublist
      exact Job.measure_lt_of_growth leading.growth lighter
  | @handled _ node _ _ _ _ _ _ _ _ _ leading contents =>
      have lighter := Task.one_lt_weight_node node
      exact Job.measure_lt_of_growth (leading.growth.trans contents.growth) lighter
  | mark _ => exact Job.measure_lt_of_growth (.refl _) Nat.zero_lt_one
  | definition unknown found =>
      -- The definition may be any node of the tree, so here only the labels get fewer.
      exact Prod.lex_def.mpr (.inl (Export.unclaimed_assign unknown found))

end Measure

theorem needs_wellFounded (setting : Setting) :
    WellFounded fun inner outer => Needs setting outer inner :=
  Subrelation.wf Needs.measure_lt
    (InvImage.wf (Job.measure setting)
      (WellFounded.prod_lex Nat.lt_wfRel.wf Nat.lt_wfRel.wf))

/-! ## What is claimed -/

/-- Calls made one after the other, with the results of all and the claims of all. -/
inductive Performs (setting : Setting) (scope : Option ListKind) : List Call → FootnoteRegister →
    List (Except TranscodeError String) → List Claim → FootnoteRegister → Prop
  | nil {register} : Performs setting scope [] register [] [] register
  | cons {call rest before middle after result results early late} :
      Renders setting scope call.task before result early middle →
      Performs setting scope rest middle results late after →
      Performs setting scope (call :: rest) before (result :: results) (early ++ late) after

theorem Performs.labels {setting : Setting} {scope : Option ListKind} {calls : List Call}
    {before after : FootnoteRegister} {results : List (Except TranscodeError String)}
    {claims : List Claim} (performs : Performs setting scope calls before results claims after) :
    after.labels = before.labels ++ claims.map Claim.label := by
  induction performs with
  | nil => simp
  | cons rendered _ induction => simp [induction, rendered.labels]

theorem Context.calls_perform (context : Context) (calls : List Call) :
    ∃ claims, Performs context.setting context.scope calls context.footnotes
      (context.calls calls).1 claims (context.calls calls).2.footnotes := by
  induction calls generalizing context with
  | nil => exact ⟨[], .nil⟩
  | cons call rest induction =>
      rcases context.call_renders call with ⟨result, early, middle, performed, rendered⟩
      rcases induction { context with footnotes := middle } with ⟨late, performs⟩
      rw [Context.calls_cons, performed]
      exact ⟨early ++ late, .cons rendered performs⟩

/-- In every context, whatever its profile, its definitions and the footnotes it knows, no chain of
jobs goes on forever, so every call comes to its result; and over any sequence of calls, failed
ones included, each label is claimed at most once, and never if it was known before. A label's
definition is rendered for a reference only with a claim of the label. -/
theorem calls_terminate (context : Context) (calls : List Call) :
    (WellFounded fun inner outer => Needs context.setting outer inner) ∧
      ∃ claims, Performs context.setting context.scope calls context.footnotes
          (context.calls calls).1 claims (context.calls calls).2.footnotes ∧
        (claims.map Claim.label).Nodup ∧
        ∀ claim ∈ claims, context.footnotes.number? claim.label = none := by
  refine ⟨needs_wellFounded context.setting, ?_⟩
  rcases context.calls_perform calls with ⟨claims, performs⟩
  have distinct := (context.calls calls).2.footnotes.nodup_labels
  rw [performs.labels] at distinct
  have parts := List.nodup_append.mp distinct
  refine ⟨claims, performs, parts.2.1, ?_⟩
  intro claim member
  apply FootnoteRegister.number?_eq_none_iff.mpr
  intro known
  exact parts.2.2 claim.label known claim.label (List.mem_map_of_mem member) rfl

end MarkupExport
