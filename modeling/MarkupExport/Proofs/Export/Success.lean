import MarkupExport.Proofs.Export.Reached
import MarkupExport.Proofs.Export.Replay
import MarkupExport.Proofs.Export.Requirements

/-!
When an export succeeds. A success leaves a register under which every node that the export can
come to renders without claiming anything, in whatever order the footnotes were met; so each of
them is acceptable. If they all are, no step of the export has a reason to fail.
-/

namespace MarkupExport

def Setting.ofTree (tree : Node) (options : ExportOptions) (profile : Profile) : Setting where
  options
  profile
  definitions := .ofTree tree

namespace Node

/-- The profile does not refuse the node, and if it looks inside, then it finds what it needs. -/
structure Acceptable (node tree : Node) (options : ExportOptions) (profile : Profile) : Prop where
  permitted : node.Judged options → profile.policy node.kind ≠ .fail
  exportable : node.Entered options profile → node.Exportable tree profile

/-! ## One node -/

theorem referredLabel_eq_ok_iff {node : Node} {label : String} :
    node.referredLabel = .ok label ↔
      node.flag "inline" = false ∧ node.children = [] ∧
        node.textProperty? "label" = some label := by
  rw [referredLabel, requireText]
  cases inline : node.flag "inline" with
  | true => simp
  | false =>
      cases children : node.children with
      | nil => cases found : node.textProperty? "label" <;> simp
      | cons head tail => simp

theorem exportable_reference_iff {node tree : Node} {profile : Profile}
    (kind : node.kind = .footnoteReference) :
    node.Exportable tree profile ↔ ∃ label, node.referredLabel = .ok label ∧
      (tree.walk.find? fun other => other.Defines label).isSome := by
  simp only [referredLabel_eq_ok_iff]
  constructor
  · intro exportable
    rcases exportable.reference kind with ⟨inline, children, label, found, defined⟩
    exact ⟨label, ⟨inline, children, found⟩, defined⟩
  · intro referred
    rcases referred with ⟨label, ⟨inline, children, found⟩, defined⟩
    rw [exportable_iff, kind]
    refine ⟨nofun, ?_, nofun, nofun, fun _ => ⟨inline, children, label, found, defined⟩⟩
    intro literal
    rcases literal with other | other | other <;> cases other

end Node

section Known

variable {profile : Profile} (known : profile = .html ∨ profile = .bbcode)

include known

theorem Profile.footnoteReference_iff (kind : NodeKind) :
    profile.policy kind = .handle .footnoteReference ↔ kind = .footnoteReference := by
  rcases known with rfl | rfl <;> cases kind <;> decide

theorem Profile.accepts_footnotes : profile.headlines.Accepts profile.footnotes.level := by
  rcases known with rfl | rfl
  · exact .inl (by decide)
  · exact ⟨by decide, by decide⟩

end Known

/-! ## From a success to the nodes it comes to -/

namespace Renders

section Parts

variable {setting : Setting} {scope : Option ListKind} {before after final : FootnoteRegister}
  {text : String} {claims : List Claim}

theorem handler_of_entered {node : Node}
    (rendered : Renders setting scope (.node node) before (.ok text) claims after)
    (entered : node.Entered setting.options setting.profile) :
    ∃ handler, setting.profile.policy node.kind = .handle handler ∧
      setting.entry node = .entered handler := by
  rcases node.entry_cases setting with ⟨passed, _⟩ | ⟨_, _, error, entry⟩ | ⟨_, handled⟩
  · exact absurd entered passed
  · cases rendered with
    | settled other => cases entry.symm.trans other
    | entered other _ _ _ => cases entry.symm.trans other
  · exact handled

/-- Under a register that knows the numbers a success has left, its parts claim nothing either. -/
theorem parts_replay {node : Node} {handler : Handler}
    (rendered : Renders setting scope (.node node) before (.ok text) claims after)
    (entry : setting.entry node = .entered handler)
    (known : after.NumbersIn final) :
    ∃ leading contents,
      Renders setting scope (.nodes (node.leadingNodes scope)) final (.ok leading) [] final ∧
      Renders setting (Export.innerScope scope node) (.nodes node.children) final (.ok contents) []
        final ∧
      Renders setting scope (.handle node (node.renderedLeading scope leading) contents handler)
        final (.ok text) [] final := by
  cases rendered with
  | settled other => cases entry.symm.trans other
  | entered other leadingRendered contentsRendered handled =>
      cases entry.symm.trans other
      have knownThird := handled.growth.numbersIn.trans known
      have knownSecond := contentsRendered.growth.numbersIn.trans knownThird
      exact ⟨_, _, leadingRendered.replay knownSecond,
        contentsRendered.replay knownThird, handled.replay known⟩

theorem member_replay {nodes : List Node} {node : Node}
    (rendered : Renders setting scope (.nodes nodes) before (.ok text) claims after)
    (known : after.NumbersIn final) (member : node ∈ nodes) :
    ∃ fragment, Renders setting scope (.node node) final (.ok fragment) [] final := by
  induction nodes generalizing before text claims with
  | nil => cases member
  | cons head tail induction =>
      cases rendered with
      | cons headRendered tailRendered =>
          rcases List.mem_cons.mp member with equal | inTail
          · subst equal
            exact ⟨_, headRendered.replay (tailRendered.growth.numbersIn.trans known)⟩
          · exact induction tailRendered inTail

/-- A footnote reference that succeeds leaves a number for its label. -/
theorem number?_of_reference {node : Node} {secondary : List (String × String)}
    {contents : String}
    (rendered : Renders setting scope (.handle node secondary contents .footnoteReference) before
      (.ok text) claims after) :
    ∃ label number, node.referredLabel = .ok label ∧ after.number? label = some number := by
  cases rendered with
  | @referred _ _ _ _ _ _ label _ _ referred mark =>
      cases mark with
      | @numbered _ _ _ number found => exact ⟨label, number, referred, found⟩
      | @claimed _ _ _ _ _ _ _ unknown _ body =>
          refine ⟨label, before.labels.length + 1, referred, ?_⟩
          rw [FootnoteRegister.number?_define]
          exact body.number?_claimed unknown

end Parts

section Success

variable {tree : Node} {options : ExportOptions} {profile : Profile} {text : String}
  {claims : List Claim} {final : FootnoteRegister}

/-- Every label that a success has numbered has a definition, whose contents render under the
register it has left. -/
theorem definition_replay
    (root : Renders (.ofTree tree options profile) none (.node tree) {} (.ok text) claims final)
    {label : String} {number : Nat} (numbered : final.number? label = some number) :
    ∃ definition scope body, (tree.walk.find? fun node => node.Defines label) = some definition ∧
      Renders (.ofTree tree options profile) scope (.nodes definition.children) final (.ok body) []
        final := by
  have labels : final.labels = claims.map Claim.label := root.labels
  have member : label ∈ final.labels := by
    apply Classical.byContradiction
    intro absent
    rw [← FootnoteRegister.number?_eq_none_iff, numbered] at absent
    cases absent
  rw [labels] at member
  rcases List.mem_map.mp member with ⟨claim, inClaims, rfl⟩
  rcases root.claims_kept (by intro number settled; cases settled) (.refl final) claim
    inClaims with ⟨_, definition, body, _, found, again, _⟩
  refine ⟨definition, claim.scope, body, ?_, again⟩
  rw [← FootnoteDefinitions.get?_ofTree]
  exact found

/-- Every node that is reached renders under the register that a success has left. -/
theorem reached_replay
    (root : Renders (.ofTree tree options profile) none (.node tree) {} (.ok text) claims final)
    (known : profile = .html ∨ profile = .bbcode) {enclosing : Option Node}
    {node : Node} (reached : Node.Reached tree options profile enclosing node) :
    ∃ scope, Node.Fits enclosing scope ∧ ∃ fragment,
      Renders (.ofTree tree options profile) scope (.node node) final (.ok fragment) [] final := by
  induction reached with
  | root => exact ⟨none, .of_none none, text, root.replay (.refl final)⟩
  | @child _ node _ _ entered member induction =>
      rcases induction with ⟨scope, fits, fragment, rendered⟩
      rcases rendered.handler_of_entered entered with ⟨handler, _, entry⟩
      rcases rendered.parts_replay entry (.refl final) with
        ⟨_, contents, _, contentsRendered, _⟩
      exact ⟨Export.innerScope scope node, fits.inner node,
        contentsRendered.member_replay (.refl final) member⟩
  | title _ entered kind shown found member induction =>
      rcases induction with ⟨scope, fits, fragment, rendered⟩
      rcases rendered.handler_of_entered entered with ⟨handler, _, entry⟩
      rcases rendered.parts_replay entry (.refl final) with
        ⟨leading, _, leadingRendered, _, _⟩
      exact ⟨scope, fits, leadingRendered.member_replay (.refl final)
        ((Node.mem_leadingNodes_headline kind).mpr ⟨shown, _, found, member⟩)⟩
  | term _ entered kind descriptive found member induction =>
      rcases induction with ⟨scope, fits, fragment, rendered⟩
      rcases rendered.handler_of_entered entered with ⟨handler, _, entry⟩
      rcases rendered.parts_replay entry (.refl final) with
        ⟨leading, _, leadingRendered, _, _⟩
      have inside : scope = some .descriptive := by
        rw [fits _ rfl, descriptive]
        rfl
      exact ⟨scope, fits, leadingRendered.member_replay (.refl final)
        ((Node.mem_leadingNodes_item kind).mpr ⟨inside, _, found, member⟩)⟩
  | @footnote _ reference label definition _ _ entered kind found defined member induction =>
      rcases induction with ⟨scope, fits, fragment, rendered⟩
      rcases rendered.handler_of_entered entered with ⟨handler, policy, entry⟩
      rcases rendered.parts_replay entry (.refl final) with ⟨_, _, _, _, handled⟩
      cases ((Profile.footnoteReference_iff known _).mpr kind).symm.trans policy
      rcases handled.number?_of_reference with ⟨_, number, referred, numbered⟩
      rcases Node.referredLabel_eq_ok_iff.mp referred with ⟨_, _, same⟩
      cases found.symm.trans same
      rcases root.definition_replay numbered with ⟨_, scope, body, again, bodyRendered⟩
      cases defined.symm.trans again
      exact ⟨scope, .of_none scope, bodyRendered.member_replay (.refl final) member⟩

theorem acceptable_of_reached
    (root : Renders (.ofTree tree options profile) none (.node tree) {} (.ok text) claims final)
    (known : profile = .html ∨ profile = .bbcode) {enclosing : Option Node}
    {node : Node} (reached : Node.Reached tree options profile enclosing node) :
    node.Acceptable tree options profile := by
  rcases root.reached_replay known reached with ⟨scope, _, fragment, rendered⟩
  constructor
  · intro judged refused
    rcases rendered.handler_of_entered ⟨judged, by simp [Setting.ofTree, refused]⟩ with
      ⟨handler, handled, _⟩
    cases refused.symm.trans handled
  · intro entered
    rcases rendered.handler_of_entered entered with ⟨handler, policy, entry⟩
    rcases rendered.parts_replay entry (.refl final) with ⟨_, contents, _, _, handled⟩
    cases handler with
    | rule rule =>
        generalize equal : Except.ok fragment = result at handled
        cases handled with
        | rule => exact (Rule.render_succeeds_iff known policy).mp ⟨fragment, equal.symm⟩
    | footnoteReference =>
        have kind := (Profile.footnoteReference_iff known _).mp policy
        rcases handled.number?_of_reference with ⟨label, number, referred, numbered⟩
        rcases root.definition_replay numbered with ⟨_, _, _, defined, _⟩
        exact (Node.exportable_reference_iff kind).mpr ⟨label, referred, by simp [defined]⟩

end Success

end Renders

/-! ## From the nodes it can come to to a success -/

section Acceptable

variable {tree : Node} {options : ExportOptions} {profile : Profile}

/-- The task is about nodes that are reached, in the scope that their lists give. -/
def Task.Placed (tree : Node) (options : ExportOptions) (profile : Profile)
    (scope : Option ListKind) : Task → Prop
  | .node placed => ∃ enclosing, Node.Reached tree options profile enclosing placed ∧
      Node.Fits enclosing scope
  | .nodes placed => ∀ node ∈ placed, ∃ enclosing,
      Node.Reached tree options profile enclosing node ∧ Node.Fits enclosing scope
  | .handle placed _ _ handler => ∃ enclosing,
      Node.Reached tree options profile enclosing placed ∧ placed.Entered options profile ∧
        profile.policy placed.kind = .handle handler
  | .mark label => ∃ enclosing reference,
      Node.Reached tree options profile enclosing reference ∧
        reference.Entered options profile ∧ reference.kind = .footnoteReference ∧
        reference.textProperty? "label" = some label

theorem placed_children {enclosing : Option Node} {scope : Option ListKind} {node : Node}
    (reached : Node.Reached tree options profile enclosing node) (fits : Node.Fits enclosing scope)
    (entered : node.Entered options profile) :
    (Task.nodes node.children).Placed tree options profile (Export.innerScope scope node) :=
  fun _ member => ⟨node.enclosingParts enclosing, reached.child entered member, fits.inner node⟩

theorem placed_leading (listed : tree.ItemsListed) {enclosing : Option Node}
    {scope : Option ListKind} {node : Node}
    (reached : Node.Reached tree options profile enclosing node) (fits : Node.Fits enclosing scope)
    (entered : node.Entered options profile) :
    (Task.nodes (node.leadingNodes scope)).Placed tree options profile scope := by
  intro value member
  refine ⟨enclosing, ?_, fits⟩
  by_cases headline : node.kind = .headline
  · rcases (Node.mem_leadingNodes_headline headline).mp member with ⟨shown, values, found, inside⟩
    exact reached.title entered headline shown found inside
  · by_cases item : node.kind = .item
    · rcases (Node.mem_leadingNodes_item item).mp member with
        ⟨descriptive, values, found, inside⟩
      -- An item stands in a list, so the scope is the kind of that list.
      rcases Option.isSome_iff_exists.mp (listed enclosing node reached.occurs item) with
        ⟨list, rfl⟩
      have kind : list.textProperty? "kind" = some "descriptive" := by
        have scopeKind := fits list rfl
        rw [descriptive] at scopeKind
        rcases Option.bind_eq_some_iff.mp scopeKind.symm with ⟨name, named, known⟩
        rw [ListKind.ofName?_eq_some_iff] at known
        rw [named, known]
        rfl
      exact reached.term entered item kind found inside
    · rw [Node.leadingNodes_other headline item] at member
      cases member

theorem succeeds_of_acceptable (known : profile = .html ∨ profile = .bbcode)
    (listed : tree.ItemsListed)
    (acceptable : ∀ enclosing node, Node.Reached tree options profile enclosing node →
      node.Acceptable tree options profile)
    {scope : Option ListKind} {task : Task} {before after : FootnoteRegister}
    {result : Except TranscodeError String} {claims : List Claim}
    (rendered : Renders (.ofTree tree options profile) scope task before result claims after)
    (placed : task.Placed tree options profile scope) :
    ∃ text, result = .ok text := by
  induction rendered with
  | nil => exact ⟨_, rfl⟩
  | cons _ _ _ _ => exact ⟨_, rfl⟩
  | headFails _ head => exact head (placed _ List.mem_cons_self)
  | tailFails _ _ _ tail => exact tail fun node member => placed node (List.mem_cons_of_mem _ member)
  | @settled _ node _ result entry =>
      rcases placed with ⟨enclosing, reached, _⟩
      rcases node.entry_cases (.ofTree tree options profile) with
        ⟨_, text, passed, _⟩ | ⟨judged, refused, _⟩ | ⟨_, handler, _, handled⟩
      · cases passed.symm.trans entry
        exact ⟨text, rfl⟩
      · exact absurd refused ((acceptable enclosing node reached).permitted judged)
      · cases handled.symm.trans entry
  | leadingFails entry _ leading =>
      rcases placed with ⟨enclosing, reached, fits⟩
      exact leading (placed_leading listed reached fits (Node.entered_of_entry entry).1)
  | contentsFail entry _ _ _ contents =>
      rcases placed with ⟨enclosing, reached, fits⟩
      exact contents (placed_children reached fits (Node.entered_of_entry entry).1)
  | entered entry _ _ _ _ _ handled =>
      rcases placed with ⟨enclosing, reached, fits⟩
      exact handled ⟨enclosing, reached, Node.entered_of_entry entry⟩
  | rule =>
      rcases placed with ⟨enclosing, reached, entered, policy⟩
      exact (Rule.render_succeeds_iff known policy).mpr
        ((acceptable enclosing _ reached).exportable entered)
  | refused refused =>
      rcases placed with ⟨enclosing, reached, entered, policy⟩
      have kind := (Profile.footnoteReference_iff known _).mp policy
      rcases (Node.exportable_reference_iff kind).mp
        ((acceptable enclosing _ reached).exportable entered) with ⟨label, referred, _⟩
      cases refused.symm.trans referred
  | referred referred _ mark =>
      rcases placed with ⟨enclosing, reached, entered, policy⟩
      have kind := (Profile.footnoteReference_iff known _).mp policy
      exact mark ⟨enclosing, _, reached, entered, kind,
        (Node.referredLabel_eq_ok_iff.mp referred).2.2⟩
  | numbered _ => exact ⟨_, rfl⟩
  | undefined _ absent =>
      rcases placed with ⟨enclosing, reference, reached, entered, kind, found⟩
      have exportable := (acceptable enclosing reference reached).exportable entered
      rcases exportable.reference kind with ⟨_, _, label, labelled, defined⟩
      cases found.symm.trans labelled
      rw [← FootnoteDefinitions.get?_ofTree] at defined
      rw [Setting.ofTree] at absent
      rw [absent] at defined
      cases defined
  | definitionFails _ defined _ body =>
      rcases placed with ⟨enclosing, reference, reached, entered, kind, found⟩
      rw [Setting.ofTree, FootnoteDefinitions.get?_ofTree] at defined
      exact body fun _ member =>
        ⟨none, reached.footnote entered kind found defined member, .of_none _⟩
  | claimed _ _ _ _ => exact ⟨_, rfl⟩

theorem footnoteSection_succeeds (context : Context)
    (accepts : context.profile.headlines.Accepts context.profile.footnotes.level) :
    ∃ text, context.footnoteSection = .ok text := by
  rw [Context.footnoteSection]
  cases context.footnotes.entries with
  | nil => exact ⟨_, rfl⟩
  | cons entry rest =>
      have titled : ∃ line, context.profile.titleLine context.profile.footnotes.level
          (context.profile.text.render context.profile.footnotes.title) = .ok line :=
        Rule.titleLine_succeeds_iff.mpr accepts
      rcases titled with ⟨line, titled⟩
      simp only [titled, bind, Except.bind]
      exact ⟨_, rfl⟩

/-- With either profile, and if every item lies inside a list of its own part of the tree, an
export succeeds exactly if every node that it can come to is acceptable. -/
theorem transcode_succeeds_iff (tree : Node) (options : ExportOptions) (profile : Profile)
    (known : profile = .html ∨ profile = .bbcode) (listed : tree.ItemsListed) :
    (∃ text, MarkupExport.transcode tree options profile = .ok text) ↔
      ∀ enclosing node, Node.Reached tree options profile enclosing node →
        node.Acceptable tree options profile := by
  rcases (Context.start tree options profile).transcode_renders tree with
    ⟨result, claims, final, performed, root⟩
  rw [MarkupExport.transcode, performed]
  constructor
  · intro succeeded enclosing node reached
    rcases succeeded with ⟨text, success⟩
    cases result with
    | error error => cases success
    | ok body => exact Renders.acceptable_of_reached root known reached
  · intro acceptable
    rcases succeeds_of_acceptable known listed acceptable root ⟨none, .root, .of_none none⟩ with
      ⟨body, rfl⟩
    rcases footnoteSection_succeeds { Context.start tree options profile with footnotes := final }
      (Profile.accepts_footnotes known) with ⟨notes, noted⟩
    simp only [bind, Except.bind, noted]
    exact ⟨_, rfl⟩

/-- A descriptive list with a footnote at its term; the footnote holds another list, in which it
refers to itself. -/
def glossary : Node :=
  let reference := (Node.mk .footnoteReference [] []).withProperty "label" (.text "a")
  let item := (Node.mk .item [] []).withProperty "tag" (.nodes [.text "term", reference])
  let list := (Node.mk .list [item] []).withProperty "kind" (.text "descriptive")
  let bullets := (Node.mk .list [⟨.item, [reference], []⟩] []).withProperty "kind"
    (.text "unordered")
  let definition := (Node.mk .footnoteDefinition [bullets] []).withProperty "label" (.text "a")
  Node.mk .document [list, definition] []

theorem transcode_succeeds_iff_glossary :
    glossary.ItemsListed ∧
      MarkupExport.transcode glossary {} .bbcode =
        .ok ("[list]\n[*][b]term^1[/b]: \n[/list]\n[b][u]# Footnotes[/u][/b]\n\n" ++
          "^1: [list]\n[*]^1\n[/list]\n") ∧
      (∀ enclosing node, Node.Reached glossary {} .bbcode enclosing node →
        node.Acceptable glossary {} .bbcode) ∧
      ¬ ∀ enclosing node, Node.Reached glossary {} .html enclosing node →
        node.Acceptable glossary {} .html := by
  have listed : glossary.ItemsListed :=
    Node.itemsListed_of_places 4 (by decide +kernel) (by decide +kernel)
  have success : MarkupExport.transcode glossary {} .bbcode =
      .ok ("[list]\n[*][b]term^1[/b]: \n[/list]\n[b][u]# Footnotes[/u][/b]\n\n" ++
        "^1: [list]\n[*]^1\n[/list]\n") := by
    decide +kernel
  have failure : ∀ text, MarkupExport.transcode glossary {} .html ≠ .ok text := by
    have refused : MarkupExport.transcode glossary {} .html =
        .error (.unsupportedListKind "descriptive" "html") := by decide +kernel
    intro text
    rw [refused]
    nofun
  refine ⟨listed, success, ?_, ?_⟩
  · exact (transcode_succeeds_iff glossary {} .bbcode (.inr rfl) listed).mp ⟨_, success⟩
  · intro acceptable
    rcases (transcode_succeeds_iff glossary {} .html (.inl rfl) listed).mpr acceptable with
      ⟨text, other⟩
    exact failure text other

end Acceptable

end MarkupExport
