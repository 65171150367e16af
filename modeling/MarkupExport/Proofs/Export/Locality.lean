import MarkupExport.Proofs.Export.Termination
import MarkupExport.Proofs.Export.Tour

/-!
Scopes are local. An export carries the kind of the innermost list along, into titles and terms and
on into the footnotes that are referred to there, and only items ask for it. Where each item lies
in a list of its own, that list is entered between wherever the scope came from and the item, so
nothing depends on the scope in which the export began.
-/

namespace MarkupExport

/-! ## What asks for the scope -/

/-- The text of an item, with this term in front if it has one. -/
def Profile.itemText (profile : Profile) (term? : Option String) (contents : String) : String :=
  let lead :=
    match term? with
    | some term =>
      profile.lists.term.render profile.delimiters (Text.trim term) ++ profile.lists.termSeparator
    | none => ""
  let body := lead ++ Text.trim contents
  match profile.lists.item with
  | .wrapped tag => tag.render profile.delimiters body ++ "\n"
  | .bulleted bullet => bullet ++ body ++ "\n"

theorem Rule.renderItem_eq (context : Context) (node : Node) (contents : String) :
    renderItem context node contents = context.profile.itemText
      (if context.scope = some .descriptive then some ((context.secondaryText? node "tag").getD "")
        else none) contents := by
  rw [renderItem, Profile.itemText.eq_def]
  by_cases descriptive : context.scope = some .descriptive
  · cases context.profile.lists.item <;> simp only [if_pos descriptive]
  · cases context.profile.lists.item <;> simp only [if_neg descriptive]

/-- Items alone are written by the scope. -/
theorem Rule.render_scope {rule : Rule} (other : rule ≠ .item) (setting : Setting)
    (left right : Option ListKind) (secondary : List (String × String))
    (register : FootnoteRegister) (node : Node) (contents : String) :
    rule.render (setting.context left secondary register) node contents =
      rule.render (setting.context right secondary register) node contents := by
  cases rule with
  | item => exact absurd rfl other
  | _ => rfl

theorem Profile.item_of_policy {profile : Profile} (known : profile = .html ∨ profile = .bbcode)
    {kind : NodeKind} (policy : profile.policy kind = .handle (.rule .item)) : kind = .item := by
  revert policy
  rcases known with rfl | rfl <;> cases kind <;> decide

namespace Node.ItemsListed

variable {node : Node} (listed : node.ItemsListed)

include listed

theorem leading? (left right : Option ListKind) : node.leading? left = node.leading? right := by
  have property : Export.leadingProperty? left node = Export.leadingProperty? right node := by
    have noItem := listed.ne_item
    rw [Export.leadingProperty?, Export.leadingProperty?]
    cases kind : node.kind <;> first | rfl | exact absurd kind noItem
  rw [Node.leading?, Node.leading?, property]

theorem leadingNodes (left right : Option ListKind) :
    node.leadingNodes left = node.leadingNodes right := by
  rw [Node.leadingNodes, Node.leadingNodes, listed.leading? left right]

theorem renderedLeading (left right : Option ListKind) (text : String) :
    node.renderedLeading left text = node.renderedLeading right text := by
  rw [Node.renderedLeading, Node.renderedLeading, listed.leading? left right]

theorem of_leading {scope : Option ListKind} :
    ∀ value ∈ node.leadingNodes scope, value.ItemsListed := by
  intro value inside
  refine listed.part (fun isList => ?_) (mem_parts_of_leading inside)
  rw [leadingNodes_other (by simp [isList]) listed.ne_item] at inside
  cases inside

/-- What is inside a node is closed in its turn, unless the node is the list that closes it. -/
theorem contents (left right : Option ListKind) :
    Export.innerScope left node = Export.innerScope right node ∨
      ∀ child ∈ node.children, child.ItemsListed := by
  by_cases isList : node.kind = .list
  · left
    rw [Export.innerScope, Export.innerScope, if_pos isList, if_pos isList]
  · right
    exact fun child inside => listed.part isList (mem_parts_of_child inside)

end Node.ItemsListed

/-! ## Two scopes -/

/-- In the text of each footnote all items are listed. -/
def Setting.NotesListed (setting : Setting) : Prop :=
  ∀ label definition, setting.definitions.get? label = some definition →
    ∀ child ∈ definition.children, child.ItemsListed

/-- The task does not write an item that lies outside of lists. -/
def Task.ItemsListed : Task → Prop
  | .node placed => placed.ItemsListed
  | .nodes placed => ∀ node ∈ placed, node.ItemsListed
  | .handle _ _ _ handler => handler ≠ .rule .item
  | .mark _ => True

section Known

variable {profile : Profile} (known : profile = .html ∨ profile = .bbcode)
  {setting : Setting} (same : setting.profile = profile) (notes : setting.NotesListed)

include known same notes

/-- Such a task comes to the same in every scope. -/
theorem Renders.rescoped {scope : Option ListKind} {task : Task} {before after : FootnoteRegister}
    {result : Except TranscodeError String} {claims : List Claim}
    (rendered : Renders setting scope task before result claims after)
    (listed : task.ItemsListed) (other : Option ListKind) :
    ∃ others, Renders setting other task before result others after := by
  induction rendered generalizing other with
  | nil => exact ⟨[], .nil⟩
  | cons _ _ head tail =>
      rcases List.forall_mem_cons.mp listed with ⟨first, rest⟩
      rcases head first other with ⟨early, headRendered⟩
      rcases tail rest other with ⟨late, tailRendered⟩
      exact ⟨_, .cons headRendered tailRendered⟩
  | headFails _ head =>
      rcases head (List.forall_mem_cons.mp listed).1 other with ⟨claims, headRendered⟩
      exact ⟨claims, .headFails headRendered⟩
  | tailFails _ _ head tail =>
      rcases List.forall_mem_cons.mp listed with ⟨first, rest⟩
      rcases head first other with ⟨early, headRendered⟩
      rcases tail rest other with ⟨late, tailRendered⟩
      exact ⟨_, .tailFails headRendered tailRendered⟩
  | settled entry => exact ⟨[], .settled entry⟩
  | @leadingFails scope node _ _ _ _ _ entry _ leading =>
      have closed : node.ItemsListed := listed
      rcases leading closed.of_leading other with ⟨claims, leadingRendered⟩
      rw [closed.leadingNodes scope other] at leadingRendered
      exact ⟨claims, .leadingFails entry leadingRendered⟩
  | @contentsFail scope node _ _ _ _ _ _ _ _ entry _ contentsRendered leading contents =>
      have closed : node.ItemsListed := listed
      rcases leading closed.of_leading other with ⟨early, leadingRendered⟩
      rw [closed.leadingNodes scope other] at leadingRendered
      rcases closed.contents scope other with within | children
      · exact ⟨_, .contentsFail entry leadingRendered (within ▸ contentsRendered)⟩
      · rcases contents children (Export.innerScope other node) with ⟨late, rendered⟩
        exact ⟨_, .contentsFail entry leadingRendered rendered⟩
  | @entered scope node handler _ _ _ _ leadingText _ _ _ _ _ entry _ contentsRendered _ leading
      contents handled =>
      have closed : node.ItemsListed := listed
      have ordinary : handler ≠ .rule .item := by
        rintro rfl
        have policy := (Node.entered_of_entry entry).2
        rw [same] at policy
        exact closed.ne_item (Profile.item_of_policy known policy)
      rcases leading closed.of_leading other with ⟨early, leadingRendered⟩
      rw [closed.leadingNodes scope other] at leadingRendered
      rcases handled ordinary other with ⟨late, handledRendered⟩
      rw [closed.renderedLeading scope other leadingText] at handledRendered
      rcases closed.contents scope other with within | children
      · exact ⟨_, .entered entry leadingRendered (within ▸ contentsRendered) handledRendered⟩
      · rcases contents children (Export.innerScope other node) with ⟨middle, rendered⟩
        exact ⟨_, .entered entry leadingRendered rendered handledRendered⟩
  | @rule scope _ _ _ rule _ =>
      have ordinary : rule ≠ .item := fun item => listed (congrArg Handler.rule item)
      rw [Rule.render_scope ordinary setting scope other]
      exact ⟨[], .rule⟩
  | refused refused => exact ⟨[], .refused refused⟩
  | referred referred _ mark =>
      rcases mark trivial other with ⟨claims, markRendered⟩
      exact ⟨claims, .referred referred markRendered⟩
  | numbered known => exact ⟨[], .numbered known⟩
  | undefined unknown absent => exact ⟨[], .undefined unknown absent⟩
  | definitionFails unknown found _ body =>
      rcases body (notes _ _ found) other with ⟨claims, bodyRendered⟩
      exact ⟨_, .definitionFails unknown found bodyRendered⟩
  | claimed unknown found _ body =>
      rcases body (notes _ _ found) other with ⟨claims, bodyRendered⟩
      exact ⟨_, .claimed unknown found bodyRendered⟩

end Known

/-! ## The list around an item -/

namespace Task

/-- The innermost list around what is done next for a task, from the one around the task itself.
The text of a footnote stands in no list, wherever it is referred to. -/
def enclosingNext : Task → Task → Option Node → Option Node
  | .node outer, .nodes _, enclosing => outer.enclosingParts enclosing
  | .mark _, _, _ => none
  | _, _, enclosing => enclosing

/-- The nodes that the task is about. -/
def subjects : Task → List Node
  | .node placed | .handle placed _ _ _ => [placed]
  | .nodes placed => placed
  | .mark _ => []

end Task

/-- The first job comes to the second, and this is the innermost list around what that is about,
if there is one inside the node or the footnote from which it was come to. -/
inductive Stands (setting : Setting) (start : Job) : Option Node → Job → Prop
  | start : Stands setting start none start
  | step {enclosing outer inner} : Stands setting start enclosing outer →
      Needs setting outer inner →
      Stands setting start (outer.task.enclosingNext inner.task enclosing) inner

/-- No job that is come to is left out. -/
theorem Reaches.stands {setting : Setting} {start job : Job} (reaches : Reaches setting start job) :
    ∃ enclosing, Stands setting start enclosing job := by
  induction reaches with
  | refl => exact ⟨none, .start⟩
  | tail _ needs induction =>
      rcases induction with ⟨enclosing, stands⟩
      exact ⟨_, stands.step needs⟩

/-- The node stands within this list, in something in which all items are listed. -/
def Node.Listed (enclosing : Option Node) (node : Node) : Prop :=
  ∃ root : Node, root.ItemsListed ∧ Occurs root enclosing node

theorem Node.Listed.part {enclosing : Option Node} {node part : Node}
    (listed : node.Listed enclosing) (inside : part ∈ node.parts) :
    part.Listed (node.enclosingParts enclosing) := by
  rcases listed with ⟨root, closed, occurs⟩
  exact ⟨root, closed, occurs.part inside⟩

/-- The scope of the job is the kind of the list around its nodes. -/
def Job.Fits (enclosing : Option Node) (job : Job) : Prop :=
  ∀ node ∈ job.task.subjects, Node.Fits enclosing job.scope ∧ node.Listed enclosing

section Stands

variable {setting : Setting} (notes : setting.NotesListed)

include notes

theorem Job.Fits.step {enclosing : Option Node} {outer inner : Job} (fits : outer.Fits enclosing)
    (needs : Needs setting outer inner) :
    inner.Fits (outer.task.enclosingNext inner.task enclosing) := by
  cases needs with
  | @head scope first others _ =>
      intro node inside
      rw [List.mem_singleton.mp inside]
      exact fits first List.mem_cons_self
  | tail _ =>
      intro node inside
      exact fits node (List.mem_cons_of_mem _ inside)
  | @leading scope node _ _ _ =>
      intro value inside
      rcases fits node List.mem_cons_self with ⟨kind, listed⟩
      have around : node.enclosingParts enclosing = enclosing := by
        rcases Node.renderedLeading_of_mem inside "" with ⟨kind, _⟩ | ⟨kind, _⟩
        · simp [Node.enclosingParts, kind]
        · simp [Node.enclosingParts, kind]
      refine ⟨?_, listed.part (Node.mem_parts_of_leading inside)⟩
      rw [Task.enclosingNext, around]
      exact kind
  | @contents scope node _ _ _ _ _ _ _ =>
      intro child inside
      rcases fits node List.mem_cons_self with ⟨kind, listed⟩
      exact ⟨kind.inner node, listed.part (Node.mem_parts_of_child inside)⟩
  | handled _ _ _ => exact fits
  | mark _ =>
      intro node inside
      cases inside
  | definition _ found =>
      intro child inside
      exact ⟨Node.Fits.of_none _, child, notes _ _ found child inside, .root⟩

theorem Stands.fits {start job : Job} {enclosing : Option Node}
    (stands : Stands setting start enclosing job)
    (listed : ∀ node ∈ start.task.subjects, node.ItemsListed) : job.Fits enclosing := by
  induction stands with
  | start => exact fun node inside => ⟨Node.Fits.of_none _, node, listed node inside, .root⟩
  | step _ needs induction => exact induction.step notes needs

/-- Wherever an item is written, the scope is the kind of its own innermost list. -/
theorem Stands.item {start : Job} {enclosing : Option Node} {scope : Option ListKind} {item : Node}
    {secondary : List (String × String)} {contents : String} {handler : Handler}
    {register : FootnoteRegister}
    (stands : Stands setting start enclosing ⟨scope, .handle item secondary contents handler,
      register⟩)
    (listed : ∀ node ∈ start.task.subjects, node.ItemsListed) (kind : item.kind = .item) :
    ∃ list, enclosing = some list ∧ list.kind = .list ∧ scope = listScope (some list) := by
  rcases stands.fits notes listed item List.mem_cons_self with ⟨fits, root, closed, occurs⟩
  rcases Option.isSome_iff_exists.mp (closed enclosing item occurs kind) with ⟨list, rfl⟩
  exact ⟨list, rfl, occurs.isList, fits list rfl⟩

end Stands

/-! ## Exports -/

section Exports

variable {profile : Profile} (known : profile = .html ∨ profile = .bbcode)

include known

theorem Stands.isItem {setting : Setting} (same : setting.profile = profile)
    {start scope : Option ListKind} {node item : Node} {enclosing : Option Node}
    {secondary : List (String × String)} {contents : String}
    {footnotes register : FootnoteRegister}
    (stands : Stands setting ⟨start, .node node, footnotes⟩ enclosing
      ⟨scope, .handle item secondary contents (.rule .item), register⟩) : item.kind = .item := by
  cases stands with
  | step _ needs =>
      cases needs with
      | handled entry _ _ =>
          have policy := (Node.entered_of_entry entry).2
          rw [same] at policy
          exact Profile.item_of_policy known policy

/-- Where all items of a node and of the footnotes' texts are listed, the scope in which the node
is rendered makes no difference to the result or to the footnotes. So every item that is come to,
in however many lists and footnotes, leads with its term just if its own innermost list is
descriptive; and a footnote is the same wherever it is referred to first. -/
theorem transcode_scope_local {tree node : Node}
    (notes : ∀ definition ∈ tree.walk, definition.kind = .footnoteDefinition →
      ∀ child ∈ definition.children, child.ItemsListed)
    (listed : node.ItemsListed) (options : ExportOptions) (secondary : List (String × String))
    (footnotes : FootnoteRegister) :
    let setting := Setting.ofTree tree options profile
    let run scope := (setting.context scope secondary footnotes).transcode node
    (∀ left right, (run left).1 = (run right).1 ∧
        (run left).2.footnotes = (run right).2.footnotes) ∧
      (∀ start enclosing scope item values contents register,
        Stands setting ⟨start, .node node, footnotes⟩ enclosing
            ⟨scope, .handle item values contents (.rule .item), register⟩ →
          ∃ list, enclosing = some list ∧ list.kind = .list ∧
            let context := setting.context scope values register
            let term := (context.secondaryText? item "tag").getD ""
            Rule.item.render context item contents = .ok (profile.itemText
              (if list.textProperty? "kind" = some "descriptive" then some term else none)
              contents)) ∧
      ∀ left right label before result claims after,
        Renders setting left (.mark label) before result claims after →
          ∃ others, Renders setting right (.mark label) before result others after := by
  intro setting run
  have inNotes : setting.NotesListed := by
    intro label definition found
    have defined : (tree.walk.find? fun node => node.Defines label) = some definition := by
      rwa [← FootnoteDefinitions.get?_ofTree]
    have defines : definition.Defines label := by simpa using List.find?_some defined
    exact notes definition (List.mem_of_find?_eq_some defined) defines.1
  refine ⟨fun left right => ?_, ?_, ?_⟩
  · rcases (setting.context left secondary footnotes).transcode_renders node with
      ⟨result, claims, after, performed, rendered⟩
    rcases rendered.rescoped known rfl inNotes listed right with ⟨others, again⟩
    have onTheLeft : run left = (result, _) := performed
    have onTheRight : run right = (result, _) := Context.transcode_of_renders again
    rw [onTheLeft, onTheRight]
    exact ⟨rfl, rfl⟩
  · intro start enclosing scope item values contents register stands
    have kind := stands.isItem known rfl
    rcases stands.item inNotes (List.forall_mem_singleton.mpr listed) kind with
      ⟨list, around, isList, rfl⟩
    have descriptive : (setting.context (listScope (some list)) values register).scope =
        some .descriptive ↔ list.textProperty? "kind" = some "descriptive" :=
      @Node.listScope_eq_descriptive_iff (some list)
    refine ⟨list, around, isList, congrArg Except.ok ?_⟩
    rw [Rule.renderItem_eq]
    exact congrArg (profile.itemText · contents) (if_congr descriptive rfl rfl)
  · intro left right label before result claims after rendered
    exact rendered.rescoped known rfl inNotes trivial right

end Exports

/-- A descriptive list with one item. -/
def termList (term : String) (contents : List Node) : Node :=
  let item := (Node.mk .item contents []).withProperty "tag" (.nodes [.text term])
  (Node.mk .list [item] []).withProperty "kind" (.text "descriptive")

/-- A numbered list in a descriptive one, and a footnote that is referred to inside both and has a
list of its own. -/
def nestedLists : Node :=
  let reference := (Node.mk .footnoteReference [] []).withProperty "label" (.text "a")
  let item := (Node.mk .item [.text "x", reference] []).withProperty "tag" (.nodes [.text "inner"])
  let inner := (Node.mk .list [item] []).withProperty "kind" (.text "ordered")
  let definition := (Node.mk .footnoteDefinition [termList "note" [.text "y"]] []).withProperty
    "label" (.text "a")
  ⟨.document, [termList "outer" [inner], definition], []⟩

theorem transcode_scope_local_nested :
    (∀ definition ∈ nestedLists.walk, definition.kind = .footnoteDefinition →
      ∀ child ∈ definition.children, child.ItemsListed) ∧
      nestedLists.ItemsListed ∧
      let run scope :=
        ((Setting.ofTree nestedLists {} .bbcode).context scope [] {}).transcode nestedLists
      (run (some .unordered)).1 =
          .ok "[list]\n[*][b]outer[/b]: [list=1]\n[*]x^1\n[/list]\n[/list]\n" ∧
        ∀ left right, (run left).1 = (run right).1 ∧
          (run left).2.footnotes = (run right).2.footnotes := by
  have definitions : ∀ definition ∈ nestedLists.walk, definition.kind = .footnoteDefinition →
      definition.children = [termList "note" [.text "y"]] := by
    decide +kernel
  have note : (termList "note" [.text "y"]).ItemsListed :=
    Node.itemsListed_of_places 3 (by decide +kernel) (by decide +kernel)
  have notes : ∀ definition ∈ nestedLists.walk, definition.kind = .footnoteDefinition →
      ∀ child ∈ definition.children, child.ItemsListed := by
    intro definition inside kind child member
    rw [definitions definition inside kind, List.mem_singleton] at member
    exact member ▸ note
  have listed : nestedLists.ItemsListed :=
    Node.itemsListed_of_places 5 (by decide +kernel) (by decide +kernel)
  refine ⟨notes, listed, by decide +kernel, ?_⟩
  exact (transcode_scope_local (.inr rfl) notes listed {} [] {}).1

/-- An item outside of lists is written by the scope that it is in. -/
example :
    let item := (Node.mk .item [.text "x"] []).withProperty "tag" (.nodes [.text "term"])
    let run scope := ((Setting.ofTree item {} .bbcode).context scope [] {}).transcode item
    (run none).1.toOption = some "[*]x\n" ∧
      (run (some .descriptive)).1.toOption = some "[*][b]term[/b]: x\n" := by
  decide +kernel

end MarkupExport
