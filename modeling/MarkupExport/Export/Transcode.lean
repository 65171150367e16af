import MarkupExport.Export.Rule

/-!
Exports. The children of a node are rendered first and in order, then the policy for its kind
decides what becomes of them. A footnote is rendered where it is first referred to; its text is
kept and listed after the body. What an export has learnt about footnotes outlasts an error.
-/

namespace MarkupExport

/-- A step of an export: it may fail, and it keeps the state it has reached either way. -/
abbrev Export := ExceptT TranscodeError (StateM Context)

namespace Export

/-! ## Steps -/

def context : Export Context := get

def ofExcept : Except TranscodeError α → Export α
  | .ok value => pure value
  | .error error => throw error

/-- Runs a step inside a list of this kind. -/
def inScope (scope : Option ListKind) (step : Export α) : Export α :=
  ExceptT.mk fun context =>
    let (result, after) := step.run { context with scope }
    (result, { after with scope := context.scope })

/-- Runs a step with these rendered properties at hand. -/
def withSecondary (secondary : List (String × String)) (step : Export α) : Export α :=
  ExceptT.mk fun context =>
    let (result, after) := step.run { context with secondary }
    (result, { after with secondary := context.secondary })

def assignFootnote (label : String) : Export Nat :=
  ExceptT.mk fun context =>
    let (assigned, footnotes) := context.footnotes.assign label
    (.ok assigned.1, { context with footnotes })

def defineFootnote (number : Nat) (text : String) : Export Unit :=
  ExceptT.mk fun context =>
    (.ok (), { context with footnotes := context.footnotes.define number text })

/-! ## Nodes -/

/-- The property whose nodes are rendered before the children: a title, or a term in a list that
has terms. -/
def leadingProperty? (scope : Option ListKind) (node : Node) : Option String :=
  match node.kind with
  | .headline => if node.flag "footnote_section" then none else some "title"
  | .item => if scope = some .descriptive then some "tag" else none
  | _ => none

/-- The list that encloses the children of a node. -/
def innerScope (scope : Option ListKind) (node : Node) : Option ListKind :=
  if node.kind = .list then (node.textProperty? "kind").bind ListKind.ofName? else scope

/-- The mark of a footnote. A label that has no number yet is claimed. -/
def footnoteReference (claim : String → Export Nat) (node : Node) : Export String := do
  if node.flag "inline" || !node.children.isEmpty then
    throw (.inlineFootnote ((node.textProperty? "label").getD ""))
  else
    let label ← ofExcept (node.requireText "label")
    match (← context).footnotes.number? label with
    | some number => return "^" ++ number.repr ++ " "
    | none => return "^" ++ (← claim label).repr ++ " "

def handle (claim : String → Export Nat) (node : Node) (contents : String) :
    Handler → Export String
  | .rule rule => do ofExcept (rule.render (← context) node contents)
  | .footnoteReference => footnoteReference claim node

mutual

/-- Renders a node. `claim` numbers a label that is met for the first time. -/
def node (claim : String → Export Nat) : Node → Export String
  | ⟨kind, children, properties⟩ => do
    let node : Node := ⟨kind, children, properties⟩
    let context ← context
    if context.options.visibleOnly && node.flag "hidden" then return ""
    else if kind = .plainText then
      return context.profile.text.render ((node.textProperty? "value").getD "")
    else
      match context.profile.policy kind with
      | .skip => return ""
      | .fail => throw (.unsupportedNodeKind kind context.profile.name)
      | .handle handler =>
        let secondary ← Export.leading claim (leadingProperty? context.scope node) properties
        let contents ← inScope (innerScope context.scope node) (Export.nodes claim children)
        withSecondary secondary (handle claim node contents handler)

/-- Renders nodes one after the other. -/
def nodes (claim : String → Export Nat) : List Node → Export String
  | [] => return ""
  | head :: tail => do
    let first ← Export.node claim head
    let rest ← Export.nodes claim tail
    return first ++ rest

/-- Renders the nodes of one property. -/
def leading (claim : String → Export Nat) (wanted : Option String) :
    List (String × Property) → Export (List (String × String))
  | [] => return []
  | (name, property) :: properties =>
    if wanted = some name then Export.property claim name property
    else Export.leading claim wanted properties

def property (claim : String → Export Nat) (name : String) :
    Property → Export (List (String × String))
  | .nodes values => do return [(name, ← Export.nodes claim values)]
  | .bool _ | .int _ | .text _ => return []

end

/-! ## Footnotes

A label is claimed by giving it the next number and rendering its definition, in which further
labels may be claimed. Each is claimed once, so claims nest no deeper than there are labels. -/

def claim : (depth : Nat) → String → Export Nat
  | 0, label => throw (.unknownFootnote label)
  | depth + 1, label => do
    match (← context).definitions.get? label with
    | none => throw (.unknownFootnote label)
    | some definition =>
      let number ← assignFootnote label
      let body ← nodes (claim depth) definition.children
      defineFootnote number body
      return number

end Export

namespace Context

/-! ## Whole exports -/

/-- Renders a node and gives the state that is left, whether or not it fails. -/
def transcode (context : Context) (node : Node) : Except TranscodeError String × Context :=
  (Export.node (Export.claim context.definitions.size) node).run.run context

def transcodeAll (context : Context) (nodes : List Node) :
    Except TranscodeError String × Context :=
  (Export.nodes (Export.claim context.definitions.size) nodes).run.run context

def footnoteLine (entry : Nat × String) : String :=
  "^" ++ entry.1.repr ++ ": " ++ entry.2 ++ "\n"

/-- The headline and the numbered texts, if there are any. -/
def footnoteSection (context : Context) : Except TranscodeError String :=
  match context.footnotes.entries with
  | [] => .ok ""
  | entries => do
    let style := context.profile.footnotes
    let title ← context.profile.titleLine style.level (context.profile.text.render style.title)
    return title ++ String.join (entries.map footnoteLine)

/-- Puts the tag of the document around it, unless only the body is wanted. -/
def surround (context : Context) (body : String) : String :=
  match context.profile.template with
  | some tag =>
    if context.options.bodyOnly then body
    else tag.render context.profile.delimiters body ++ "\n"
  | none => body

end Context

/-- The text of a tree in a profile's dialect. -/
def transcode (tree : Node) (options : ExportOptions) (profile : Profile) :
    Except TranscodeError String := do
  let (result, context) := (Context.start tree options profile).transcode tree
  let body ← result
  return context.surround (body ++ (← context.footnoteSection))

end MarkupExport
