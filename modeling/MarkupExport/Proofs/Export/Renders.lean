import MarkupExport.Export.Transcode
import MarkupExport.Proofs.Footnote.Register
import MarkupExport.Proofs.Node.Parts

/-!
Exports as a relation between the footnotes before and after a step. The options, the profile and
the definitions never change, the scope is handed down, and only the footnotes are handed on. The
relation says nothing of how deep footnotes may nest, and it keeps account of the labels that are
claimed on the way.
-/

namespace MarkupExport

/-- What stays the same throughout an export. -/
structure Setting where
  options : ExportOptions
  profile : Profile
  definitions : FootnoteDefinitions

def Context.setting (context : Context) : Setting where
  options := context.options
  profile := context.profile
  definitions := context.definitions

def Setting.context (setting : Setting) (scope : Option ListKind)
    (secondary : List (String × String)) (footnotes : FootnoteRegister) : Context where
  options := setting.options
  profile := setting.profile
  definitions := setting.definitions
  scope
  secondary
  footnotes

/-! ## What a node asks for -/

/-- What is known of a node before anything inside it is looked at. -/
inductive Entry where
  | settled (result : Except TranscodeError String)
  | entered (handler : Handler)

def Setting.entry (setting : Setting) (node : Node) : Entry :=
  if setting.options.visibleOnly && node.flag "hidden" then .settled (.ok "")
  else if node.kind = .plainText then
    .settled (.ok (setting.profile.text.render ((node.textProperty? "value").getD "")))
  else
    match setting.profile.policy node.kind with
    | .skip => .settled (.ok "")
    | .fail => .settled (.error (.unsupportedNodeKind node.kind setting.profile.name))
    | .handle handler => .entered handler

namespace Node

/-- The property that is rendered before the children, with its nodes. -/
def leading? (node : Node) (scope : Option ListKind) : Option (String × List Node) :=
  match Export.leadingProperty? scope node with
  | some name => (node.nodesProperty? name).map (name, ·)
  | none => none

def leadingNodes (node : Node) (scope : Option ListKind) : List Node :=
  match node.leading? scope with
  | some (_, values) => values
  | none => []

theorem leadingNodes_sublist (node : Node) (scope : Option ListKind) :
    (node.leadingNodes scope).Sublist node.parts := by
  rw [leadingNodes, leading?]
  cases Export.leadingProperty? scope node with
  | none => exact List.nil_sublist _
  | some name =>
      dsimp only
      cases found : node.nodesProperty? name with
      | none => exact List.nil_sublist _
      | some values => exact sublist_parts_of_nodesProperty found

theorem mem_parts_of_leading {node value : Node} {scope : Option ListKind}
    (inside : value ∈ node.leadingNodes scope) : value ∈ node.parts :=
  (node.leadingNodes_sublist scope).subset inside

/-- What the leading property becomes once it is rendered. -/
def renderedLeading (node : Node) (scope : Option ListKind) (text : String) :
    List (String × String) :=
  match node.leading? scope with
  | some (name, _) => [(name, text)]
  | none => []

/-- The label that a footnote reference refers to. -/
def referredLabel (node : Node) : Except TranscodeError String :=
  if node.flag "inline" || !node.children.isEmpty then
    .error (.inlineFootnote ((node.textProperty? "label").getD ""))
  else node.requireText "label"

end Node

def footnoteMark (number : Nat) : String :=
  "^" ++ number.repr ++ " "

/-! ## The relation -/

/-- A label that is met for the first time, and the list around the reference that meets it. -/
structure Claim where
  label : String
  scope : Option ListKind
deriving DecidableEq

inductive Task where
  | node (node : Node)
  | nodes (nodes : List Node)
  /-- What remains to be done for a node once the nodes inside it are rendered. -/
  | handle (node : Node) (secondary : List (String × String)) (contents : String)
      (handler : Handler)
  /-- The mark of the footnote with this label. -/
  | mark (label : String)

/-- In this scope, the task turns the first register into the second with this result, and makes
these claims in this order. -/
inductive Renders (setting : Setting) : Option ListKind → Task → FootnoteRegister →
    Except TranscodeError String → List Claim → FootnoteRegister → Prop
  | nil {scope register} : Renders setting scope (.nodes []) register (.ok "") [] register
  | cons {scope head tail before middle after first rest early late} :
      Renders setting scope (.node head) before (.ok first) early middle →
      Renders setting scope (.nodes tail) middle (.ok rest) late after →
      Renders setting scope (.nodes (head :: tail)) before (.ok (first ++ rest))
        (early ++ late) after
  | headFails {scope head tail before after error claims} :
      Renders setting scope (.node head) before (.error error) claims after →
      Renders setting scope (.nodes (head :: tail)) before (.error error) claims after
  | tailFails {scope head tail before middle after first error early late} :
      Renders setting scope (.node head) before (.ok first) early middle →
      Renders setting scope (.nodes tail) middle (.error error) late after →
      Renders setting scope (.nodes (head :: tail)) before (.error error) (early ++ late) after
  | settled {scope node register result} : setting.entry node = .settled result →
      Renders setting scope (.node node) register result [] register
  | leadingFails {scope node handler before after error claims} :
      setting.entry node = .entered handler →
      Renders setting scope (.nodes (node.leadingNodes scope)) before (.error error) claims after →
      Renders setting scope (.node node) before (.error error) claims after
  | contentsFail {scope node handler before middle after leading error early late} :
      setting.entry node = .entered handler →
      Renders setting scope (.nodes (node.leadingNodes scope)) before (.ok leading) early middle →
      Renders setting (Export.innerScope scope node) (.nodes node.children) middle
        (.error error) late after →
      Renders setting scope (.node node) before (.error error) (early ++ late) after
  | entered {scope node handler before second third after leading contents result early middle
      late} :
      setting.entry node = .entered handler →
      Renders setting scope (.nodes (node.leadingNodes scope)) before (.ok leading) early second →
      Renders setting (Export.innerScope scope node) (.nodes node.children) second
        (.ok contents) middle third →
      Renders setting scope
        (.handle node (node.renderedLeading scope leading) contents handler) third result late
        after →
      Renders setting scope (.node node) before result (early ++ middle ++ late) after
  | rule {scope node secondary contents rule register} :
      Renders setting scope (.handle node secondary contents (.rule rule)) register
        (rule.render (setting.context scope secondary register) node contents) [] register
  | refused {scope node secondary contents register error} :
      node.referredLabel = .error error →
      Renders setting scope (.handle node secondary contents .footnoteReference) register
        (.error error) [] register
  | referred {scope node secondary contents before after label result claims} :
      node.referredLabel = .ok label →
      Renders setting scope (.mark label) before result claims after →
      Renders setting scope (.handle node secondary contents .footnoteReference) before result
        claims after
  | numbered {scope register label number} : register.number? label = some number →
      Renders setting scope (.mark label) register (.ok (footnoteMark number)) [] register
  | undefined {scope register label} : register.number? label = none →
      setting.definitions.get? label = none →
      Renders setting scope (.mark label) register (.error (.unknownFootnote label)) [] register
  | definitionFails {scope before after label definition error claims} :
      before.number? label = none → setting.definitions.get? label = some definition →
      Renders setting scope (.nodes definition.children) (before.assign label).2 (.error error)
        claims after →
      Renders setting scope (.mark label) before (.error error) (⟨label, scope⟩ :: claims) after
  | claimed {scope before after label definition body claims} :
      before.number? label = none → setting.definitions.get? label = some definition →
      Renders setting scope (.nodes definition.children) (before.assign label).2 (.ok body)
        claims after →
      Renders setting scope (.mark label) before
        (.ok (footnoteMark (before.labels.length + 1))) (⟨label, scope⟩ :: claims)
        (after.define (before.labels.length + 1) body)

namespace Renders

variable {setting : Setting} {scope : Option ListKind} {task : Task}
  {before after : FootnoteRegister} {result : Except TranscodeError String} {claims : List Claim}

/-- A task has one outcome. -/
theorem unique (left : Renders setting scope task before result claims after)
    {otherResult : Except TranscodeError String} {otherClaims : List Claim}
    {otherAfter : FootnoteRegister}
    (right : Renders setting scope task before otherResult otherClaims otherAfter) :
    result = otherResult ∧ claims = otherClaims ∧ after = otherAfter := by
  induction left generalizing otherResult otherClaims otherAfter with
  | nil =>
      cases right
      exact ⟨rfl, rfl, rfl⟩
  | cons _ _ head tail =>
      cases right with
      | cons otherHead otherTail =>
          rcases head otherHead with ⟨⟨⟩, rfl, rfl⟩
          rcases tail otherTail with ⟨⟨⟩, rfl, rfl⟩
          exact ⟨rfl, rfl, rfl⟩
      | headFails otherHead => exact nomatch (head otherHead).1
      | tailFails otherHead otherTail =>
          rcases head otherHead with ⟨⟨⟩, rfl, rfl⟩
          exact nomatch (tail otherTail).1
  | headFails _ head =>
      cases right with
      | cons otherHead _ => exact nomatch (head otherHead).1
      | headFails otherHead => exact head otherHead
      | tailFails otherHead _ => exact nomatch (head otherHead).1
  | tailFails _ _ head tail =>
      cases right with
      | cons otherHead otherTail =>
          rcases head otherHead with ⟨⟨⟩, rfl, rfl⟩
          exact nomatch (tail otherTail).1
      | headFails otherHead => exact nomatch (head otherHead).1
      | tailFails otherHead otherTail =>
          rcases head otherHead with ⟨⟨⟩, rfl, rfl⟩
          rcases tail otherTail with ⟨⟨⟩, rfl, rfl⟩
          exact ⟨rfl, rfl, rfl⟩
  | settled entry =>
      cases right with
      | settled otherEntry =>
          cases entry.symm.trans otherEntry
          exact ⟨rfl, rfl, rfl⟩
      | leadingFails otherEntry _ => exact nomatch entry.symm.trans otherEntry
      | contentsFail otherEntry _ _ => exact nomatch entry.symm.trans otherEntry
      | entered otherEntry _ _ _ => exact nomatch entry.symm.trans otherEntry
  | leadingFails entry _ leading =>
      cases right with
      | settled otherEntry => exact nomatch entry.symm.trans otherEntry
      | leadingFails _ otherLeading => exact leading otherLeading
      | contentsFail _ otherLeading _ => exact nomatch (leading otherLeading).1
      | entered _ otherLeading _ _ => exact nomatch (leading otherLeading).1
  | contentsFail entry _ _ leading contents =>
      cases right with
      | settled otherEntry => exact nomatch entry.symm.trans otherEntry
      | leadingFails _ otherLeading => exact nomatch (leading otherLeading).1
      | contentsFail _ otherLeading otherContents =>
          rcases leading otherLeading with ⟨⟨⟩, rfl, rfl⟩
          rcases contents otherContents with ⟨⟨⟩, rfl, rfl⟩
          exact ⟨rfl, rfl, rfl⟩
      | entered _ otherLeading otherContents _ =>
          rcases leading otherLeading with ⟨⟨⟩, rfl, rfl⟩
          exact nomatch (contents otherContents).1
  | entered entry _ _ _ leading contents handled =>
      cases right with
      | settled otherEntry => exact nomatch entry.symm.trans otherEntry
      | leadingFails _ otherLeading => exact nomatch (leading otherLeading).1
      | contentsFail _ otherLeading otherContents =>
          rcases leading otherLeading with ⟨⟨⟩, rfl, rfl⟩
          exact nomatch (contents otherContents).1
      | entered otherEntry otherLeading otherContents otherHandled =>
          cases entry.symm.trans otherEntry
          rcases leading otherLeading with ⟨⟨⟩, rfl, rfl⟩
          rcases contents otherContents with ⟨⟨⟩, rfl, rfl⟩
          rcases handled otherHandled with ⟨rfl, rfl, rfl⟩
          exact ⟨rfl, rfl, rfl⟩
  | rule =>
      cases right
      exact ⟨rfl, rfl, rfl⟩
  | refused refused =>
      cases right with
      | refused otherRefused =>
          cases refused.symm.trans otherRefused
          exact ⟨rfl, rfl, rfl⟩
      | referred referred _ => exact nomatch refused.symm.trans referred
  | referred referred _ mark =>
      cases right with
      | refused refused => exact nomatch referred.symm.trans refused
      | referred otherReferred otherMark =>
          cases referred.symm.trans otherReferred
          exact mark otherMark
  | numbered known =>
      cases right with
      | numbered otherKnown =>
          cases known.symm.trans otherKnown
          exact ⟨rfl, rfl, rfl⟩
      | undefined unknown _ => exact nomatch known.symm.trans unknown
      | definitionFails unknown _ _ => exact nomatch known.symm.trans unknown
      | claimed unknown _ _ => exact nomatch known.symm.trans unknown
  | undefined unknown absent =>
      cases right with
      | numbered known => exact nomatch known.symm.trans unknown
      | undefined _ _ => exact ⟨rfl, rfl, rfl⟩
      | definitionFails _ found _ => exact nomatch absent.symm.trans found
      | claimed _ found _ => exact nomatch absent.symm.trans found
  | definitionFails unknown found _ body =>
      cases right with
      | numbered known => exact nomatch known.symm.trans unknown
      | undefined _ absent => exact nomatch absent.symm.trans found
      | definitionFails _ otherFound otherBody =>
          cases found.symm.trans otherFound
          rcases body otherBody with ⟨⟨⟩, rfl, rfl⟩
          exact ⟨rfl, rfl, rfl⟩
      | claimed _ otherFound otherBody =>
          cases found.symm.trans otherFound
          exact nomatch (body otherBody).1
  | claimed unknown found _ body =>
      cases right with
      | numbered known => exact nomatch known.symm.trans unknown
      | undefined _ absent => exact nomatch absent.symm.trans found
      | definitionFails _ otherFound otherBody =>
          cases found.symm.trans otherFound
          exact nomatch (body otherBody).1
      | claimed _ otherFound otherBody =>
          cases found.symm.trans otherFound
          rcases body otherBody with ⟨⟨⟩, rfl, rfl⟩
          exact ⟨rfl, rfl, rfl⟩

/-! ## Two inductions

What a rendering does to the register it does by claiming labels; and what a success does is made
of the successes of its parts. -/

/-- A relation between registers that bridges every claim bridges the whole task. -/
theorem register_induct {relation : FootnoteRegister → FootnoteRegister → Prop}
    (refl : ∀ register, relation register register)
    (trans : ∀ {first second third}, relation first second → relation second third →
      relation first third)
    (assign : ∀ {register : FootnoteRegister} {label}, register.number? label = none →
      relation register (register.assign label).2)
    (define : ∀ {register after : FootnoteRegister} {label}, register.number? label = none →
      relation (register.assign label).2 after → ∀ text,
        relation register (after.define (register.labels.length + 1) text))
    (rendered : Renders setting scope task before result claims after) :
    relation before after := by
  induction rendered with
  | nil => exact refl _
  | cons _ _ head tail => exact trans head tail
  | headFails _ head => exact head
  | tailFails _ _ head tail => exact trans head tail
  | settled _ => exact refl _
  | leadingFails _ _ leading => exact leading
  | contentsFail _ _ _ leading contents => exact trans leading contents
  | entered _ _ _ _ leading contents handled => exact trans (trans leading contents) handled
  | rule => exact refl _
  | refused _ => exact refl _
  | referred _ _ mark => exact mark
  | numbered _ => exact refl _
  | undefined _ _ => exact refl _
  | definitionFails unknown _ _ body => exact trans (assign unknown) body
  | claimed unknown _ _ body => exact define unknown body _

theorem success_induct
    {motive : ∀ {scope task before text claims after},
      Renders setting scope task before (.ok text) claims after → Prop}
    (nil : ∀ {scope register}
      (rendered : Renders setting scope (.nodes []) register (.ok "") [] register), motive rendered)
    (cons : ∀ {scope head tail before middle after first rest early late}
      (headRendered : Renders setting scope (.node head) before (.ok first) early middle)
      (tailRendered : Renders setting scope (.nodes tail) middle (.ok rest) late after),
      motive headRendered → motive tailRendered → motive (.cons headRendered tailRendered))
    (settled : ∀ {scope node register text}
      (rendered : Renders setting scope (.node node) register (.ok text) [] register),
      setting.entry node = .settled (.ok text) → motive rendered)
    (entered : ∀ {scope node handler before second third after leading contents text early middle
        late} (entry : setting.entry node = .entered handler)
      (leadingRendered : Renders setting scope (.nodes (node.leadingNodes scope)) before
        (.ok leading) early second)
      (contentsRendered : Renders setting (Export.innerScope scope node) (.nodes node.children)
        second (.ok contents) middle third)
      (handledRendered : Renders setting scope
        (.handle node (node.renderedLeading scope leading) contents handler) third (.ok text) late
        after),
      motive leadingRendered → motive contentsRendered → motive handledRendered →
      motive (.entered entry leadingRendered contentsRendered handledRendered))
    (rule : ∀ {scope node secondary contents rule register text}
      (rendered : Renders setting scope (.handle node secondary contents (.rule rule)) register
        (.ok text) [] register),
      rule.render (setting.context scope secondary register) node contents = .ok text →
      motive rendered)
    (referred : ∀ {scope node secondary contents before after label text claims}
      (rendered : Renders setting scope (.handle node secondary contents .footnoteReference) before
        (.ok text) claims after)
      (markRendered : Renders setting scope (.mark label) before (.ok text) claims after),
      node.referredLabel = .ok label → motive markRendered → motive rendered)
    (numbered : ∀ {scope label number} {register : FootnoteRegister}
      (rendered : Renders setting scope (.mark label) register (.ok (footnoteMark number)) []
        register),
      register.number? label = some number → motive rendered)
    (claimed : ∀ {scope label definition body claims} {before after : FootnoteRegister}
      (unknown : before.number? label = none)
      (found : setting.definitions.get? label = some definition)
      (bodyRendered : Renders setting scope (.nodes definition.children) (before.assign label).2
        (.ok body) claims after),
      motive bodyRendered → motive (.claimed unknown found bodyRendered))
    {scope : Option ListKind} {task : Task} {before : FootnoteRegister} {text : String}
    {claims : List Claim} {after : FootnoteRegister}
    (rendered : Renders setting scope task before (.ok text) claims after) : motive rendered := by
  suffices success : ∀ {scope task before result claims after}
      (rendered : Renders setting scope task before result claims after) {text}
      (succeeds : result = .ok text), motive (succeeds ▸ rendered) from success rendered rfl
  intro scope task before result claims after rendered text succeeds
  induction rendered generalizing text with
  | nil =>
      cases succeeds
      exact nil _
  | cons _ _ head tail =>
      cases succeeds
      exact cons _ _ (head rfl) (tail rfl)
  | headFails _ _ => cases succeeds
  | tailFails _ _ _ _ => cases succeeds
  | settled entry =>
      subst succeeds
      exact settled _ entry
  | leadingFails _ _ _ => cases succeeds
  | contentsFail _ _ _ _ _ => cases succeeds
  | entered entry _ _ _ leading contents handled =>
      subst succeeds
      exact entered entry _ _ _ (leading rfl) (contents rfl) (handled rfl)
  | rule => exact rule _ succeeds
  | refused _ => cases succeeds
  | referred label _ mark =>
      subst succeeds
      exact referred _ _ label (mark rfl)
  | numbered known =>
      cases succeeds
      exact numbered _ known
  | undefined _ _ => cases succeeds
  | definitionFails _ _ _ _ => cases succeeds
  | claimed unknown found _ body =>
      cases succeeds
      exact claimed unknown found _ (body rfl)

/-- Registers only grow, whether or not the task fails. -/
theorem growth (rendered : Renders setting scope task before result claims after) :
    before.Extends after :=
  rendered.register_induct .refl .trans .assign fun unknown body text =>
    ((FootnoteRegister.Extends.assign unknown).trans body).trans (.define _ _ text)

/-- While its definition is rendered, a label keeps the number that it has claimed. -/
theorem number?_claimed {label : String} (unknown : before.number? label = none)
    (rendered : Renders setting scope task (before.assign label).2 result claims after) :
    after.number? label = some (before.labels.length + 1) :=
  rendered.growth.number? (FootnoteRegister.number?_assign_self unknown)

/-- The labels numbered on the way are those that were claimed, in the same order. -/
theorem labels (rendered : Renders setting scope task before result claims after) :
    after.labels = before.labels ++ claims.map Claim.label := by
  induction rendered with
  | nil => simp
  | cons _ _ head tail => simp [tail, head]
  | headFails _ head => exact head
  | tailFails _ _ head tail => simp [tail, head]
  | settled _ => simp
  | leadingFails _ _ leading => exact leading
  | contentsFail _ _ _ leading contents => simp [contents, leading]
  | entered _ _ _ _ leading contents handled => simp [handled, contents, leading]
  | rule => simp
  | refused _ => simp
  | referred _ _ mark => exact mark
  | numbered _ => simp
  | undefined _ _ => simp
  | definitionFails unknown _ _ body =>
      simp [body, (FootnoteRegister.assign_of_unknown unknown).2.1]
  | claimed unknown _ _ body =>
      simp [FootnoteRegister.labels_define, body, (FootnoteRegister.assign_of_unknown unknown).2.1]

/-- A task claims only labels that have no number before. -/
theorem number?_claims (rendered : Renders setting scope task before result claims after)
    {claim : Claim} (member : claim ∈ claims) : before.number? claim.label = none := by
  have labels := after.nodup_labels
  rw [rendered.labels, List.nodup_append] at labels
  rw [FootnoteRegister.number?_eq_none_iff]
  intro known
  exact labels.2.2 _ known _ (List.mem_map_of_mem member) rfl

theorem rule_eq {node : Node} {secondary : List (String × String)} {contents : String} {rule : Rule}
    (rendered : Renders setting scope (.handle node secondary contents (.rule rule)) before result
      claims after) :
    rule.render (setting.context scope secondary before) node contents = result := by
  cases rendered
  rfl

end Renders

/-- Rules have no eye for footnotes. -/
theorem Rule.render_footnotes (rule : Rule) (setting : Setting) (scope : Option ListKind)
    (secondary : List (String × String)) (left right : FootnoteRegister) (node : Node)
    (contents : String) :
    rule.render (setting.context scope secondary left) node contents =
      rule.render (setting.context scope secondary right) node contents := by
  cases rule <;> rfl

end MarkupExport
