import Mathlib.Logic.Function.Iterate
import MarkupExport.Proofs.Export.Output

/-!
The order in which footnotes are met, told without an export: a tour of the tree enters and leaves
nodes one at a time, from a list of visits to come. It writes nothing and hands nothing back, and
all it remembers is the labels it has met. A successful export meets its footnotes in this order.
-/

namespace MarkupExport

/-- A node to be entered or to be left, inside this list if there is one. -/
inductive Visit where
  | enter (list : Option Node) (node : Node)
  | leave (list : Option Node) (node : Node)
deriving DecidableEq

namespace Node

/-- The nodes of the title, if the node is a headline, or of the term, if it is an item in a list
that has terms. -/
def heading (node : Node) (list : Option Node) : List Node :=
  if node.kind = .headline ∧ node.flag "footnote_section" = false then
    (node.nodesProperty? "title").getD []
  else if node.kind = .item ∧ list.bind (·.textProperty? "kind") = some "descriptive" then
    (node.nodesProperty? "tag").getD []
  else []

/-- The list around what is inside the node. -/
def innermost (node : Node) (list : Option Node) : Option Node :=
  if node.kind = .list then some node else list

/-- The label that the node refers to, if it is a reference. -/
def reference? (node : Node) : Option String :=
  if node.kind = .footnoteReference then node.textProperty? "label" else none

/-- What is shown of the footnote with this label. -/
def note (tree : Node) (label : String) : List Node :=
  ((tree.walk.find? fun node => node.Defines label).map Node.children).getD []

end Node

/-- The visits to come, and the labels met so far, each as often as it was met. -/
structure Tour where
  visits : List Visit
  met : List String
deriving DecidableEq

namespace Tour

/-- One visit. A label that is met for the first time counts as met before its note is toured, and
the note is toured before anything else. -/
def step (tree : Node) (options : ExportOptions) (profile : Profile) (tour : Tour) : Tour :=
  match tour.visits with
  | [] => tour
  | .enter list node :: rest =>
    if node.Entered options profile then
      { tour with visits := (node.heading list).map (.enter list) ++
          (node.children.map (.enter (node.innermost list)) ++ .leave list node :: rest) }
    else { tour with visits := rest }
  | .leave list node :: rest =>
    match node.reference? with
    | none => { tour with visits := rest }
    | some label =>
      { visits := if label ∈ tour.met then rest else (tree.note label).map (.enter list) ++ rest
        met := tour.met ++ [label] }

def start (tree : Node) : Tour where
  visits := [.enter none tree]
  met := []

/-- After some steps the first tour has become the second. -/
def Leads (tree : Node) (options : ExportOptions) (profile : Profile) (before after : Tour) :
    Prop :=
  ∃ steps, (step tree options profile)^[steps] before = after

/-- The labels that a tour of the whole tree meets, in order. -/
def Meets (tree : Node) (options : ExportOptions) (profile : Profile) (met : List String) : Prop :=
  Leads tree options profile (start tree) ⟨[], met⟩

namespace Leads

variable {tree : Node} {options : ExportOptions} {profile : Profile}

theorem refl (tour : Tour) : Leads tree options profile tour tour :=
  ⟨0, rfl⟩

theorem trans {first second third : Tour} (left : Leads tree options profile first second)
    (right : Leads tree options profile second third) : Leads tree options profile first third := by
  rcases left with ⟨early, rfl⟩
  rcases right with ⟨late, rfl⟩
  exact ⟨late + early, Function.iterate_add_apply _ late early first⟩

variable (tree options profile) in
theorem step (tour : Tour) : Leads tree options profile tour (tour.step tree options profile) :=
  ⟨1, rfl⟩

section Visit

variable {node : Node} {list : Option Node} {rest : List Visit} {met : List String}

theorem enter (entered : node.Entered options profile) :
    Leads tree options profile ⟨.enter list node :: rest, met⟩
      ⟨(node.heading list).map (.enter list) ++
        (node.children.map (.enter (node.innermost list)) ++ .leave list node :: rest), met⟩ := by
  have stepped := step tree options profile ⟨.enter list node :: rest, met⟩
  simpa only [Tour.step, if_pos entered] using stepped

theorem pass (passed : ¬ node.Entered options profile) :
    Leads tree options profile ⟨.enter list node :: rest, met⟩ ⟨rest, met⟩ := by
  have stepped := step tree options profile ⟨.enter list node :: rest, met⟩
  simpa only [Tour.step, if_neg passed] using stepped

theorem leave (plain : node.reference? = none) :
    Leads tree options profile ⟨.leave list node :: rest, met⟩ ⟨rest, met⟩ := by
  have stepped := step tree options profile ⟨.leave list node :: rest, met⟩
  simpa only [Tour.step, plain] using stepped

variable {label : String} (refers : node.reference? = some label)

include refers

theorem meetAgain (known : label ∈ met) :
    Leads tree options profile ⟨.leave list node :: rest, met⟩ ⟨rest, met ++ [label]⟩ := by
  have stepped := step tree options profile ⟨.leave list node :: rest, met⟩
  simpa only [Tour.step, refers, if_pos known] using stepped

theorem meet (unknown : label ∉ met) :
    Leads tree options profile ⟨.leave list node :: rest, met⟩
      ⟨(tree.note label).map (.enter list) ++ rest, met ++ [label]⟩ := by
  have stepped := step tree options profile ⟨.leave list node :: rest, met⟩
  simpa only [Tour.step, refers, if_neg unknown] using stepped

end Visit

end Leads

/-- A finished tour stays as it is, so there is one list of labels that a tour meets. -/
theorem Meets.unique {tree : Node} {options : ExportOptions} {profile : Profile}
    {met other : List String} (left : Meets tree options profile met)
    (right : Meets tree options profile other) : met = other := by
  have finished (labels : List String) :
      Tour.step tree options profile ⟨[], labels⟩ = ⟨[], labels⟩ := rfl
  rcases left with ⟨early, left⟩
  rcases right with ⟨late, right⟩
  rcases Nat.le_total early late with less | less
  · rcases Nat.exists_eq_add_of_le' less with ⟨more, rfl⟩
    rw [Function.iterate_add_apply, left, Function.iterate_fixed (finished met)] at right
    exact congrArg Tour.met right
  · rcases Nat.exists_eq_add_of_le' less with ⟨more, rfl⟩
    rw [Function.iterate_add_apply, right, Function.iterate_fixed (finished other)] at left
    exact (congrArg Tour.met left).symm

end Tour

/-! ## Lists and scopes -/

/-- The scope inside a list. -/
def listScope (list : Option Node) : Option ListKind :=
  list.bind fun list => (list.textProperty? "kind").bind ListKind.ofName?

namespace Node

theorem innerScope_listScope (node : Node) (list : Option Node) :
    Export.innerScope (listScope list) node = listScope (node.innermost list) := by
  rw [Export.innerScope, innermost]
  split <;> rfl

theorem listScope_eq_descriptive_iff {list : Option Node} :
    listScope list = some .descriptive ↔
      list.bind (·.textProperty? "kind") = some "descriptive" := by
  cases list with
  | none => simp [listScope]
  | some list => simp [listScope, Option.bind_eq_some_iff, ListKind.ofName?_eq_some_iff,
      ListKind.name]

theorem leadingNodes_listScope (node : Node) (list : Option Node) :
    node.leadingNodes (listScope list) = node.heading list := by
  by_cases headline : node.kind = .headline
  · rw [leadingNodes, leading?, Export.leadingProperty?, heading, headline]
    cases node.flag "footnote_section" with
    | true => simp
    | false => cases found : node.nodesProperty? "title" <;> simp [found]
  · by_cases item : node.kind = .item
    · simp only [leadingNodes, leading?, Export.leadingProperty?, heading, item,
        ← listScope_eq_descriptive_iff]
      by_cases descriptive : listScope list = some .descriptive
      · cases found : node.nodesProperty? "tag" <;> simp [descriptive, found]
      · simp [descriptive]
    · rw [leadingNodes_other headline item, heading]
      simp [headline, item]

theorem reference?_eq_some {node : Node} {label : String} (kind : node.kind = .footnoteReference)
    (referred : node.referredLabel = .ok label) : node.reference? = some label := by
  rw [reference?, if_pos kind]
  exact (referredLabel_eq_ok_iff.mp referred).2.2

end Node

/-! ## An export on tour -/

namespace Task

/-- The visits that a tour makes for a task. -/
inductive Visits (profile : Profile) (list : Option Node) : Task → List Visit → Prop
  | node {placed} : Visits profile list (.node placed) [.enter list placed]
  | nodes {placed} : Visits profile list (.nodes placed) (placed.map (.enter list))
  | handle {placed secondary contents handler} : profile.policy placed.kind = .handle handler →
      Visits profile list (.handle placed secondary contents handler) [.leave list placed]
  | mark {placed label} : placed.reference? = some label →
      Visits profile list (.mark label) [.leave list placed]

/-- A tour that has met the labels of the first register, and whose next visits are those of the
task, has met those of the second register once these visits are made. -/
def Toured (tree : Node) (options : ExportOptions) (profile : Profile) (task : Task)
    (list : Option Node) (before after : FootnoteRegister) : Prop :=
  ∀ {visits}, task.Visits profile list visits → ∀ {met}, met.eraseDups = before.labels →
    ∀ rest, ∃ later, Tour.Leads tree options profile ⟨visits ++ rest, met⟩ ⟨rest, later⟩ ∧
      later.eraseDups = after.labels

end Task

theorem eraseDups_snoc_of_mem {label : String} {met : List String} (known : label ∈ met) :
    (met ++ [label]).eraseDups = met.eraseDups := by
  simp [List.eraseDups_append, List.removeAll, known]

theorem eraseDups_snoc_of_not_mem {label : String} {met : List String} (unknown : label ∉ met) :
    (met ++ [label]).eraseDups = met.eraseDups ++ [label] := by
  simp [List.eraseDups_append, List.removeAll, unknown, List.eraseDups_cons]

/-- A task that succeeds gives numbers to labels in the order in which a tour meets them. -/
theorem Renders.toured {tree : Node} {options : ExportOptions} {profile : Profile}
    (known : profile = .html ∨ profile = .bbcode) {scope : Option ListKind} {task : Task}
    {before after : FootnoteRegister} {text : String} {claims : List Claim}
    (rendered : Renders (.ofTree tree options profile) scope task before (.ok text) claims after)
    {list : Option Node} (inside : scope = listScope list) :
    task.Toured tree options profile list before after := by
  induction rendered using success_induct generalizing list with
  | nil _ =>
      intro visits asked met agree rest
      cases asked
      exact ⟨met, .refl _, agree⟩
  | @cons _ first others _ _ _ _ _ _ _ _ _ head tail =>
      intro visits asked met agree rest
      cases asked
      rcases head inside .node agree (others.map (.enter list) ++ rest) with ⟨middle, early, agreed⟩
      rcases tail inside .nodes agreed rest with ⟨later, late, agreed⟩
      exact ⟨later, early.trans late, agreed⟩
  | settled _ entry =>
      intro visits asked met agree rest
      cases asked
      exact ⟨met, .pass (Node.not_entered_of_entry entry), agree⟩
  | @entered _ node handler _ _ _ _ _ _ _ _ _ _ entry _ _ _ leading contents handled =>
      intro visits asked met agree rest
      cases asked
      subst inside
      have entered := Node.entered_of_entry entry
      rw [node.leadingNodes_listScope] at leading
      rcases leading rfl .nodes agree
          (node.children.map (.enter (node.innermost list)) ++ .leave list node :: rest) with
        ⟨second, early, agreed⟩
      rcases contents (node.innerScope_listScope list) .nodes agreed (.leave list node :: rest) with
        ⟨third, middle, agreed⟩
      rcases handled rfl (.handle entered.2) agreed rest with ⟨later, late, agreed⟩
      exact ⟨later, (((Tour.Leads.enter entered.1).trans early).trans middle).trans late, agreed⟩
  | @rule _ node _ _ rule _ _ _ _ =>
      intro visits asked met agree rest
      cases asked with
      | handle policy =>
          have plain : node.reference? = none := by
            have other : node.kind ≠ .footnoteReference := by
              intro kind
              cases ((Profile.footnoteReference_iff known _).mpr kind).symm.trans policy
            rw [Node.reference?, if_neg other]
          exact ⟨met, .leave plain, agree⟩
  | referred _ _ referred mark =>
      intro visits asked met agree rest
      cases asked with
      | handle policy =>
          have kind := (Profile.footnoteReference_iff known _).mp policy
          exact mark inside (.mark (Node.reference?_eq_some kind referred)) agree rest
  | @numbered _ label _ register _ numbered =>
      intro visits asked met agree rest
      cases asked with
      | mark refers =>
          have member : label ∈ met := by
            apply List.mem_eraseDups.mp
            apply Classical.byContradiction
            intro absent
            rw [agree, ← FootnoteRegister.number?_eq_none_iff, numbered] at absent
            cases absent
          have agreed := (eraseDups_snoc_of_mem member).trans agree
          exact ⟨met ++ [label], .meetAgain refers member, agreed⟩
  | @claimed _ label definition _ _ before after unknown found _ body =>
      intro visits asked met agree rest
      cases asked with
      | mark refers =>
          have absent : label ∉ met := by
            intro member
            rw [← List.mem_eraseDups, agree] at member
            exact FootnoteRegister.number?_eq_none_iff.mp unknown member
          have agreed : (met ++ [label]).eraseDups = (before.assign label).2.labels := by
            rw [eraseDups_snoc_of_not_mem absent, agree,
              (FootnoteRegister.assign_of_unknown unknown).2.1]
          have note : tree.note label = definition.children := by
            rw [Setting.ofTree, FootnoteDefinitions.get?_ofTree] at found
            rw [Node.note, found]
            rfl
          rcases body inside .nodes agreed rest with ⟨later, late, agreed⟩
          rw [← note] at late
          exact ⟨later, (Tour.Leads.meet refers absent).trans late, agreed⟩

/-! ## Numbers -/

/-- The context is one for exports of this tree, and in it these labels are numbered from one. -/
structure Context.Numbers (context : Context) (tree : Node) (options : ExportOptions)
    (profile : Profile) (labels : List String) : Prop where
  setting : context.setting = .ofTree tree options profile
  number? : ∀ index label, labels[index]? = some label →
    context.footnotes.number? label = some (index + 1)

namespace Context.Numbers

variable {tree : Node} {options : ExportOptions} {profile : Profile} {labels : List String}
  {context : Context} (numbers : context.Numbers tree options profile labels)

include numbers

theorem numbersIn {final : FootnoteRegister} (same : final.labels = labels) :
    final.NumbersIn context.footnotes := by
  intro label number known
  rcases FootnoteRegister.number?_eq_some_iff.mp known with ⟨index, rfl, found⟩
  exact numbers.number? index label (same ▸ found)

/-- Where labels are numbered already, references are written with these numbers. -/
theorem transcode_reference (known : profile = .html ∨ profile = .bbcode) {reference : Node}
    (entered : reference.Entered options profile) (kind : reference.kind = .footnoteReference)
    {label : String} (referred : reference.referredLabel = .ok label) {index : Nat}
    (found : labels[index]? = some label) :
    context.transcode reference = (.ok (footnoteMark (index + 1)), context) := by
  have handled := (Profile.footnoteReference_iff known _).mpr kind
  have entry : context.setting.entry reference = .entered .footnoteReference := by
    rw [numbers.setting]
    rcases reference.entry_cases (.ofTree tree options profile) with
      ⟨passed, _⟩ | ⟨_, refused, _⟩ | ⟨_, handler, policy, entry⟩
    · exact absurd entered passed
    · cases handled.symm.trans refused
    · cases handled.symm.trans policy
      exact entry
  have leading : Renders context.setting context.scope
      (.nodes (reference.leadingNodes context.scope)) context.footnotes (.ok "") []
      context.footnotes := by
    rw [Node.leadingNodes_other (by simp [kind]) (by simp [kind])]
    exact .nil
  have contents : Renders context.setting (Export.innerScope context.scope reference)
      (.nodes reference.children) context.footnotes (.ok "") [] context.footnotes := by
    rw [(Node.referredLabel_eq_ok_iff.mp referred).2.1]
    exact .nil
  have mark : Renders context.setting context.scope (.mark label) context.footnotes
      (.ok (footnoteMark (index + 1))) [] context.footnotes :=
    .numbered (numbers.number? index label found)
  exact Context.transcode_of_renders (.entered entry leading contents (.referred referred mark))

end Context.Numbers

/-- If an export succeeds, its footnotes are numbered in the order in which a tour of the tree
meets their labels for the first time. These are the numbers of all marks and of all notes: where
the labels are so numbered from the start, each reference is written with the number of its label,
the tree becomes the same body, and the definition of each label what is listed under its number. -/
theorem transcode_numbers_in_order (tree : Node) (options : ExportOptions) (profile : Profile)
    (known : profile = .html ∨ profile = .bbcode) (output : String)
    (success : transcode tree options profile = .ok output) :
    ∃ (met : List String) (body : String) (texts : List String) (notes : String),
      Tour.Meets tree options profile met ∧
      (∃ final, (Context.start tree options profile).transcode tree = (.ok body, final) ∧
        ∀ label number, final.footnotes.number? label = some number ↔
          ∃ index, number = index + 1 ∧ met.eraseDups[index]? = some label) ∧
      texts.length = met.eraseDups.length ∧ profile.notes texts = .ok notes ∧
      output = body ++ notes ∧
      ∀ context : Context, context.Numbers tree options profile met.eraseDups →
        (context.scope = none → context.transcode tree = (.ok body, context)) ∧
        (∀ (reference : Node) (label : String) (index : Nat), reference.Entered options profile →
          reference.kind = .footnoteReference → reference.referredLabel = .ok label →
          met.eraseDups[index]? = some label →
          context.transcode reference = (.ok ("^" ++ (index + 1).repr ++ " "), context)) ∧
        ∀ (index : Nat) (label : String), met.eraseDups[index]? = some label →
          ∃ (definition : Node) (scope : Option ListKind) (note : String),
          (tree.walk.find? fun node => node.Defines label) = some definition ∧
          ({ context with scope } : Context).transcodeAll definition.children =
            (.ok note, { context with scope }) ∧
          texts[index]? = some (Text.trim note) := by
  rcases exported_of_known known success with
    ⟨body, claims, final, texts, notes, exported, listed, written⟩
  have rendered := exported.rendered
  have outside : (none : Option ListKind) = listScope none := rfl
  have unmet : ([] : List String).eraseDups = ({} : FootnoteRegister).labels := rfl
  rcases rendered.toured known outside .node unmet [] with ⟨met, leads, agreed⟩
  refine ⟨met, body, texts, notes, leads, ?_, ?_, listed, written, ?_⟩
  · refine ⟨{ Context.start tree options profile with footnotes := final },
      Context.transcode_of_renders rendered, ?_⟩
    intro label number
    rw [agreed]
    exact FootnoteRegister.number?_eq_some_iff
  · rw [agreed]
    exact exported.length_texts
  · intro context numbers
    have later := numbers.numbersIn agreed.symm
    refine ⟨?_, ?_, ?_⟩
    · intro outside
      have again := rendered.replay later
      rw [← numbers.setting, ← outside] at again
      exact Context.transcode_of_renders again
    · intro reference label index entered kind referred found
      exact numbers.transcode_reference known entered kind referred found
    · intro index label found
      rw [agreed, exported.labels, List.getElem?_map, Option.map_eq_some_iff] at found
      rcases found with ⟨claim, claimAt, rfl⟩
      rcases exported.note claimAt with ⟨definition, note, defined, again, kept⟩
      have again := again.replay later
      rw [← numbers.setting] at again
      exact ⟨definition, claim.scope, note, defined, Context.transcodeAll_of_renders again, kept⟩

/-- Footnotes at a title, in a body and at terms, one of them in a footnote that is referred to from
inside a list of terms; two refer to each other. -/
def annotated : Node :=
  let reference label := (Node.mk .footnoteReference [] []).withProperty "label" (.text label)
  let definition label children :=
    (Node.mk .footnoteDefinition children []).withProperty "label" (.text label)
  let item term children := (Node.mk .item children []).withProperty "tag" (.nodes term)
  let headline := ((Node.mk .headline [⟨.paragraph, [reference "body"], []⟩] []).withProperty
    "title" (.nodes [.text "Title", reference "title"])).withProperty "level" (.int 0)
  let list := (Node.mk .list [item [reference "term"] [reference "body"]] []).withProperty
    "kind" (.text "descriptive")
  Node.mk .document
    [headline, list, definition "body" [reference "title"],
      definition "title" [.text "a", reference "nested"], definition "nested" [reference "title"],
      definition "term" [item [reference "deep"] []], definition "deep" [.text "b"]] []

theorem transcode_numbers_in_order_annotated :
    let output := "[b][u]Title^1[/u][/b]\n\n^3\n\n[list]\n[*][b]^4[/b]: ^3\n[/list]\n" ++
      "[b][u]# Footnotes[/u][/b]\n\n^1: a^2\n^2: ^1\n^3: ^1\n^4: [*][b]^5[/b]:\n^5: b\n"
    transcode annotated {} .bbcode = .ok output ∧
      Tour.Meets annotated {} .bbcode
        ["title", "nested", "title", "body", "title", "term", "deep", "body"] ∧
      ∃ (final : Context) (body : String) (texts : List String) (notes : String),
        (Context.start annotated {} .bbcode).transcode annotated = (.ok body, final) ∧
        final.footnotes.number? "deep" = some 5 ∧ texts.length = 5 ∧ output = body ++ notes := by
  intro output
  have success : transcode annotated {} .bbcode = .ok output := by decide +kernel
  have meets : Tour.Meets annotated {} .bbcode
      ["title", "nested", "title", "body", "title", "term", "deep", "body"] :=
    ⟨36, by decide +kernel⟩
  rcases transcode_numbers_in_order annotated {} .bbcode (.inr rfl) output success with
    ⟨met, body, texts, notes, others, ⟨final, performed, numbered⟩, length, _, written, _⟩
  cases meets.unique others
  refine ⟨success, meets, final, body, texts, notes, performed, ?_, ?_, written⟩
  · exact (numbered "deep" 5).mpr ⟨4, rfl, by decide⟩
  · exact length.trans (by decide)

end MarkupExport
