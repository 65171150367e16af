import MarkupExport.Proofs.Export.Renders

/-!
What an export reads of a node. Two nodes of which the same can be read are entered alike, lead with
alike nodes, and are treated alike by every rule; how far the nodes inside them are alike is
measured by a view of lists of nodes.
-/

namespace MarkupExport

namespace Node

/-- The nodes carry the same themselves, and have the same view inside. -/
structure ReadsAs (view : List Node → α) (left right : Node) : Prop where
  kind : left.kind = right.kind
  text : ∀ name, left.textProperty? name = right.textProperty? name
  int : ∀ name, left.intProperty? name = right.intProperty? name
  flag : ∀ name, left.flag name = right.flag name
  children : view left.children = view right.children
  nodes : ∀ name, (left.nodesProperty? name).map view = (right.nodesProperty? name).map view

namespace ReadsAs

variable {view : List Node → α} {left right : Node} (reads : left.ReadsAs view right)

include reads

theorem requireText (name : String) : left.requireText name = right.requireText name := by
  rw [Node.requireText, Node.requireText, reads.text, reads.kind]

theorem requireInt (name : String) : left.requireInt name = right.requireInt name := by
  rw [Node.requireInt, Node.requireInt, reads.int, reads.kind]

theorem referredLabel (empty : left.children.isEmpty = right.children.isEmpty) :
    left.referredLabel = right.referredLabel := by
  simp only [Node.referredLabel, reads.flag, reads.text, empty, reads.requireText]

theorem innerScope (scope : Option ListKind) :
    Export.innerScope scope left = Export.innerScope scope right := by
  rw [Export.innerScope, Export.innerScope, reads.kind, reads.text]

theorem leadingProperty? (scope : Option ListKind) :
    Export.leadingProperty? scope left = Export.leadingProperty? scope right := by
  rw [Export.leadingProperty?, Export.leadingProperty?, reads.kind, reads.flag]

theorem leadingNodes (scope : Option ListKind) :
    view (left.leadingNodes scope) = view (right.leadingNodes scope) := by
  rw [Node.leadingNodes, Node.leadingNodes, leading?, leading?, reads.leadingProperty?]
  cases Export.leadingProperty? scope right with
  | none => rfl
  | some name =>
      have nodes := reads.nodes name
      cases leftNodes : left.nodesProperty? name <;>
        cases rightNodes : right.nodesProperty? name <;> simp_all

theorem renderedLeading (scope : Option ListKind) (text : String) :
    left.renderedLeading scope text = right.renderedLeading scope text := by
  rw [Node.renderedLeading, Node.renderedLeading, leading?, leading?, reads.leadingProperty?]
  cases Export.leadingProperty? scope right with
  | none => rfl
  | some name =>
      have nodes := reads.nodes name
      cases leftNodes : left.nodesProperty? name <;>
        cases rightNodes : right.nodesProperty? name <;> simp_all

theorem secondaryText? (context : Context) (name : String) :
    context.secondaryText? left name = context.secondaryText? right name := by
  rw [Context.secondaryText?, Context.secondaryText?, reads.text]

/-- Rules see no more of a node than what it carries. -/
theorem render (rule : Rule) (context : Context) (contents : String) :
    rule.render context left contents = rule.render context right contents := by
  cases rule <;>
    simp only [Rule.render, Rule.renderLineBreak, Rule.renderSourceBlock, Rule.renderHeadline,
      Rule.renderMonospace, Rule.renderLink, Rule.renderList, Rule.renderItem, reads.kind,
      reads.text, reads.flag, reads.requireText, reads.requireInt, reads.secondaryText?]

end ReadsAs

end Node

/-- The settings ask for the same in the same dialect; only their definitions may differ. -/
structure Setting.AsksLike (left right : Setting) : Prop where
  options : left.options = right.options
  profile : left.profile = right.profile

namespace Setting.AsksLike

variable {left right : Setting} (asks : left.AsksLike right)

include asks

theorem entry {view : List Node → α} {node other : Node} (reads : node.ReadsAs view other) :
    left.entry node = right.entry other := by
  simp only [Setting.entry, asks.options, asks.profile, reads.kind, reads.text, reads.flag]

/-- Rules have no eye for definitions. -/
theorem render_context (rule : Rule) (scope : Option ListKind)
    (secondary : List (String × String)) (register : FootnoteRegister) (node : Node)
    (contents : String) :
    rule.render (left.context scope secondary register) node contents =
      rule.render (right.context scope secondary register) node contents := by
  rcases left with ⟨options, profile, definitions⟩
  rcases right with ⟨others, dialect, notes⟩
  cases asks.options
  cases asks.profile
  cases rule <;> rfl

theorem render {view : List Node → α} {node other : Node} (reads : node.ReadsAs view other)
    (rule : Rule) (scope : Option ListKind) (secondary : List (String × String))
    (register : FootnoteRegister) (contents : String) :
    rule.render (left.context scope secondary register) node contents =
      rule.render (right.context scope secondary register) other contents := by
  rw [reads.render, asks.render_context]

end Setting.AsksLike

end MarkupExport
