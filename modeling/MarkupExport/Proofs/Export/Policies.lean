import Mathlib.Control.Monad.Basic
import MarkupExport.Profile.Html
import MarkupExport.Proofs.Export.Execution
import MarkupExport.Proofs.Footnote.Definitions

/-!
What the policies of a profile decide. Whenever a node is entered, the policy for its kind is asked
for and no other, and none is for plain text; so policies that agree on the kinds of the nodes in a
tree export it alike, footnotes included.
-/

namespace MarkupExport

/-- The policies agree on the kinds of all nodes in the tree but plain text. -/
def Node.PoliciesAgree (left right : NodeKind → Policy) (tree : Node) : Prop :=
  ∀ node ∈ tree.walk, node.kind ≠ .plainText → left node.kind = right node.kind

namespace Node.PoliciesAgree

variable {left right : NodeKind → Policy} {node : Node} (agree : node.PoliciesAgree left right)

include agree

theorem part {part : Node} (inside : part ∈ node.parts) : part.PoliciesAgree left right :=
  fun inner member => agree inner (mem_walk_of_part inside member)

theorem leading (scope : Option ListKind) :
    ∀ part ∈ node.leadingNodes scope, part.PoliciesAgree left right :=
  fun _ member => agree.part (mem_parts_of_leading member)

theorem children : ∀ part ∈ node.children, part.PoliciesAgree left right :=
  fun _ member => agree.part (mem_parts_of_child member)

theorem definition {label : String} {definition : Node}
    (found : (FootnoteDefinitions.ofTree node).get? label = some definition) :
    definition.PoliciesAgree left right := by
  rw [FootnoteDefinitions.get?_ofTree] at found
  intro inner member
  exact agree inner (mem_walk_trans (List.mem_of_find?_eq_some found) member)

end Node.PoliciesAgree

/-- The setting with other policies in its profile. -/
def Setting.withPolicies (setting : Setting) (policy : NodeKind → Policy) : Setting :=
  { setting with profile := { setting.profile with policy } }

/-- The policies agree on all that the task looks into by itself. -/
def Task.PoliciesAgree (left right : NodeKind → Policy) : Task → Prop
  | .node tree => tree.PoliciesAgree left right
  | .nodes trees => ∀ tree ∈ trees, tree.PoliciesAgree left right
  | .handle _ _ _ _ | .mark _ => True

section Policies

variable {setting : Setting} {policy : NodeKind → Policy}

theorem Setting.entry_withPolicies {node : Node}
    (agree : node.PoliciesAgree setting.profile.policy policy) :
    (setting.withPolicies policy).entry node = setting.entry node := by
  rw [Setting.entry, Setting.entry]
  by_cases plain : node.kind = .plainText
  · simp only [plain, if_true]
    rfl
  · have same := agree node node.mem_walk_self plain
    simp only [plain, if_false, same]
    rfl

/-- Rules have no eye for policies. -/
theorem Rule.render_withPolicies (rule : Rule) (scope : Option ListKind)
    (secondary : List (String × String)) (register : FootnoteRegister) (node : Node)
    (contents : String) :
    rule.render ((setting.withPolicies policy).context scope secondary register) node contents =
      rule.render (setting.context scope secondary register) node contents := by
  cases rule <;> rfl

/-- Whatever is rendered under some policies is rendered alike under others that agree with them on
the task and on all definitions, to its end or until it fails. -/
theorem Renders.withPolicies
    (definitions : ∀ label definition, setting.definitions.get? label = some definition →
      definition.PoliciesAgree setting.profile.policy policy)
    {scope : Option ListKind} {task : Task} {before after : FootnoteRegister}
    {result : Except TranscodeError String} {claims : List Claim}
    (rendered : Renders setting scope task before result claims after)
    (agree : task.PoliciesAgree setting.profile.policy policy) :
    Renders (setting.withPolicies policy) scope task before result claims after := by
  induction rendered with
  | nil => exact .nil
  | cons _ _ head tail =>
      rcases List.forall_mem_cons.mp agree with ⟨first, rest⟩
      exact .cons (head first) (tail rest)
  | headFails _ head => exact .headFails (head (List.forall_mem_cons.mp agree).1)
  | tailFails _ _ head tail =>
      rcases List.forall_mem_cons.mp agree with ⟨first, rest⟩
      exact .tailFails (head first) (tail rest)
  | settled entry => exact .settled ((Setting.entry_withPolicies agree).trans entry)
  | leadingFails entry _ leading =>
      exact .leadingFails ((Setting.entry_withPolicies agree).trans entry)
        (leading (Node.PoliciesAgree.leading agree _))
  | contentsFail entry _ _ leading contents =>
      exact .contentsFail ((Setting.entry_withPolicies agree).trans entry)
        (leading (Node.PoliciesAgree.leading agree _))
        (contents (Node.PoliciesAgree.children agree))
  | entered entry _ _ _ leading contents handled =>
      exact .entered ((Setting.entry_withPolicies agree).trans entry)
        (leading (Node.PoliciesAgree.leading agree _))
        (contents (Node.PoliciesAgree.children agree))
        (handled trivial)
  | rule =>
      rw [← Rule.render_withPolicies]
      exact .rule
  | refused refused => exact .refused refused
  | referred referred _ mark => exact .referred referred (mark trivial)
  | numbered known => exact .numbered known
  | undefined unknown absent => exact .undefined unknown absent
  | definitionFails unknown found _ body =>
      exact .definitionFails unknown found (body (definitions _ _ found).children)
  | claimed unknown found _ body =>
      exact .claimed unknown found (body (definitions _ _ found).children)

end Policies

theorem transcode_eq_of_policiesAgree {tree : Node} {options : ExportOptions} {profile : Profile}
    {policy : NodeKind → Policy} (agree : tree.PoliciesAgree profile.policy policy) :
    transcode tree options { profile with policy } = transcode tree options profile := by
  rcases (Context.start tree options profile).transcode_renders tree with
    ⟨result, claims, after, performed, rendered⟩
  have again : (Context.start tree options { profile with policy }).transcode tree =
      (result, { Context.start tree options { profile with policy } with footnotes := after }) :=
    Context.transcode_of_renders
      (rendered.withPolicies (fun _ _ found => agree.definition found) agree)
  rw [transcode, transcode, performed, again]
  rfl

/-- Another policy for a kind makes no difference to the result, output or error, for a tree that
holds no node of that kind among its children and properties at any depth; and another policy for
plain text makes none for any tree. -/
theorem transcode_withPolicy (tree : Node) (options : ExportOptions) (profile : Profile)
    (kind : NodeKind) (policy : Policy)
    (absent : (∀ node ∈ tree.walk, node.kind ≠ kind) ∨ kind = .plainText) :
    transcode tree options (profile.withPolicy kind policy) = transcode tree options profile := by
  apply transcode_eq_of_policiesAgree
  intro node member notPlain
  have other : node.kind ≠ kind := by
    rcases absent with absent | plain
    · exact absent node member
    · exact plain ▸ notPlain
  exact (if_neg other).symm

/-- A title, a footnote and a text, exported with a policy that would refuse links and one that
would refuse texts. -/
theorem transcode_withPolicy_unasked :
    let reference := (Node.mk .footnoteReference [] []).withProperty "label" (.text "a")
    let definition :=
      (Node.mk .footnoteDefinition [.text "note"] []).withProperty "label" (.text "a")
    let headline := Node.mk .headline [.text "b"]
      [("level", .int 3), ("title", .nodes [.text "t", reference])]
    let tree := Node.mk .document [headline, definition] []
    (∀ node ∈ tree.walk, node.kind ≠ .link) ∧ (∃ node ∈ tree.walk, node.kind = .plainText) ∧
      transcode tree {} (Profile.html.withPolicy .link .fail) =
        .ok "<h3>t^1</h3>\nb<!--  Footnotes  -->\n^1: note\n" ∧
      transcode tree {} (Profile.html.withPolicy .plainText .skip) =
        .ok "<h3>t^1</h3>\nb<!--  Footnotes  -->\n^1: note\n" := by
  intro reference definition headline tree
  have absent : ∀ node ∈ tree.walk, node.kind ≠ .link := by decide +kernel
  have output :
      transcode tree {} .html = .ok "<h3>t^1</h3>\nb<!--  Footnotes  -->\n^1: note\n" := by
    decide +kernel
  refine ⟨absent, by decide +kernel, ?_, ?_⟩
  · rw [transcode_withPolicy tree {} .html .link .fail (.inl absent), output]
  · rw [transcode_withPolicy tree {} .html .plainText .skip (.inr rfl), output]

end MarkupExport
