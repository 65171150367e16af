import MarkupExport.Profile.Bbcode
import MarkupExport.Proofs.Export.Execution

/-!
What the options do. Whether hidden nodes are wanted is asked wherever a node is entered, whether
the body alone is wanted is asked once, when all else is done, and the others are not asked at all.
-/

namespace MarkupExport

/-- The settings leave out the same nodes, and write and define the others alike. -/
structure Setting.WritesLike (left right : Setting) : Prop where
  visibleOnly : left.options.visibleOnly = right.options.visibleOnly
  profile : left.profile = right.profile
  definitions : left.definitions = right.definitions

namespace Setting.WritesLike

variable {left right : Setting} (like : left.WritesLike right)

include like

theorem entry (node : Node) : left.entry node = right.entry node := by
  rw [Setting.entry, Setting.entry, like.visibleOnly, like.profile]

/-- Rules have no eye for options. -/
theorem render (rule : Rule) (scope : Option ListKind) (secondary : List (String × String))
    (register : FootnoteRegister) (node : Node) (contents : String) :
    rule.render (left.context scope secondary register) node contents =
      rule.render (right.context scope secondary register) node contents := by
  rcases left with ⟨options, profile, definitions⟩
  rcases right with ⟨others, dialect, notes⟩
  cases like.profile
  cases rule <;> rfl

/-- Whatever is rendered in one setting is rendered alike in the other, to its end or until it
fails. -/
theorem renders {scope : Option ListKind} {task : Task} {before after : FootnoteRegister}
    {result : Except TranscodeError String} {claims : List Claim}
    (rendered : Renders left scope task before result claims after) :
    Renders right scope task before result claims after := by
  induction rendered with
  | nil => exact .nil
  | cons _ _ head tail => exact .cons head tail
  | headFails _ head => exact .headFails head
  | tailFails _ _ head tail => exact .tailFails head tail
  | settled entry => exact .settled (like.entry _ ▸ entry)
  | leadingFails entry _ leading => exact .leadingFails (like.entry _ ▸ entry) leading
  | contentsFail entry _ _ leading contents =>
      exact .contentsFail (like.entry _ ▸ entry) leading contents
  | entered entry _ _ _ leading contents handled =>
      exact .entered (like.entry _ ▸ entry) leading contents handled
  | rule =>
      rw [like.render]
      exact .rule
  | refused refused => exact .refused refused
  | referred referred _ mark => exact .referred referred mark
  | numbered known => exact .numbered known
  | undefined unknown absent => exact .undefined unknown (like.definitions ▸ absent)
  | definitionFails unknown found _ body =>
      exact .definitionFails unknown (like.definitions ▸ found) body
  | claimed unknown found _ body => exact .claimed unknown (like.definitions ▸ found) body

end Setting.WritesLike

namespace Context

/-- The text of a node and after it the section of the footnotes, without a tag around them. -/
def body (context : Context) (node : Node) : Except TranscodeError String := do
  let (result, after) := context.transcode node
  return (← result) ++ (← after.footnoteSection)

theorem body_congr {left right : Context} (like : left.setting.WritesLike right.setting)
    (scope : left.scope = right.scope) (footnotes : left.footnotes = right.footnotes)
    (node : Node) : left.body node = right.body node := by
  rcases left.transcode_renders node with ⟨result, claims, after, performed, rendered⟩
  have again := like.renders rendered
  rw [scope, footnotes] at again
  have profile : left.profile = right.profile := like.profile
  rw [body, body, performed, transcode_of_renders again]
  simp only [footnoteSection, profile]

end Context

theorem body_start_congr {tree : Node} {options others : ExportOptions} {profile : Profile}
    (visible : options.visibleOnly = others.visibleOnly) :
    (Context.start tree options profile).body tree =
      (Context.start tree others profile).body tree := by
  have like : (Context.start tree options profile).setting.WritesLike
      (Context.start tree others profile).setting :=
    ⟨visible, rfl, rfl⟩
  exact Context.body_congr like rfl rfl tree

/-- The tag of a whole document around its body, in dialects that have one. -/
def Profile.document (profile : Profile) (body : String) : String :=
  match profile.template with
  | some tag => tag.render profile.delimiters body ++ "\n"
  | none => body

theorem Context.surround_eq (context : Context) (body : String) : context.surround body =
    if context.options.bodyOnly then body else context.profile.document body := by
  rw [surround, Profile.document]
  cases context.profile.template with
  | none => exact (ite_self body).symm
  | some tag => rfl

theorem transcode_eq_body (tree : Node) (options : ExportOptions) (profile : Profile) :
    transcode tree options profile = ((Context.start tree options profile).body tree).map
      fun body => if options.bodyOnly then body else profile.document body := by
  have start := (Context.start tree options profile).transcode_context tree
  rw [transcode, Context.body]
  generalize (Context.start tree options profile).transcode tree = run at start
  rcases run with ⟨result, after⟩
  dsimp only at start ⊢
  have sameOptions : after.options = options := congrArg Context.options start
  have sameProfile : after.profile = profile := congrArg Context.profile start
  cases result with
  | error error => rfl
  | ok text =>
      cases after.footnoteSection with
      | error error => rfl
      | ok notes =>
          rw [← sameOptions, ← sameProfile]
          exact congrArg Except.ok (after.surround_eq (text ++ notes))

/-- Nothing depends on the extension or on whether the export is waited for. With the body alone
the tree is followed by its footnotes and by nothing else; without this the same errors arise, and
the tag of the document, if the dialect has one, stands around all of that with a line end after
it. -/
theorem transcode_options (tree : Node) (options : ExportOptions) (profile : Profile) :
    (∀ extension asynchronous,
      transcode tree { options with extension, asynchronous } profile =
        transcode tree options profile) ∧
      transcode tree { options with bodyOnly := true } profile =
        (Context.start tree options profile).body tree ∧
      transcode tree { options with bodyOnly := false } profile =
        match transcode tree { options with bodyOnly := true } profile, profile.template with
        | .error error, _ => .error error
        | .ok body, none => .ok body
        | .ok body, some tag => .ok (tag.render profile.delimiters body ++ "\n") := by
  have asked (others : ExportOptions) (visible : others.visibleOnly = options.visibleOnly) :
      transcode tree others profile = ((Context.start tree options profile).body tree).map
        fun body => if others.bodyOnly then body else profile.document body := by
    rw [transcode_eq_body, body_start_congr visible]
  rw [asked options rfl, asked { options with bodyOnly := true } rfl,
    asked { options with bodyOnly := false } rfl]
  refine ⟨fun extension asynchronous => asked _ rfl, congrFun Except.map_id _, ?_⟩
  cases (Context.start tree options profile).body tree with
  | error error => rfl
  | ok body =>
      cases template : profile.template with
      | none => simp [Except.map, Profile.document, template]
      | some tag => simp [Except.map, Profile.document, template]

/-- A footnote with its text, in a dialect whose documents have a tag. -/
example :
    let reference := (Node.mk .footnoteReference [] []).withProperty "label" (.text "a")
    let definition :=
      (Node.mk .footnoteDefinition [.text "note"] []).withProperty "label" (.text "a")
    let write := fun options => (transcode ⟨.document, [reference, definition], []⟩ options
      { Profile.bbcode with template := some (.plain "doc") }).toOption
    write { bodyOnly := true } = some "^1 [b][u]# Footnotes[/u][/b]\n\n^1: note\n" ∧
      write {} = some "[doc]^1 [b][u]# Footnotes[/u][/b]\n\n^1: note\n[/doc]\n" := by
  decide +kernel

end MarkupExport
