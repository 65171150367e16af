import MarkupExport.Proofs.Export.Termination

/-!
A call leaves its context as it was. Scope and rendered properties are exchanged on the way down and
put back on the way up, also where a step fails; so whatever a call comes to, only the footnotes
have changed, and they have grown. Nor does the call look at the rendered properties that it finds:
each handler is given those of its own node.
-/

namespace MarkupExport

/-- A call that the relation gives an outcome has that outcome. -/
theorem Context.call_of_renders {context : Context} {call : Call}
    {result : Except TranscodeError String} {claims : List Claim} {after : FootnoteRegister}
    (rendered : Renders context.setting context.scope call.task context.footnotes result claims
      after) : context.call call = (result, { context with footnotes := after }) := by
  cases call with
  | transcode node => exact transcode_of_renders rendered
  | transcodeAll nodes => exact transcodeAll_of_renders rendered

/-- What a handler is given of its node's properties is what they have been rendered to. -/
theorem Needs.handle_leading {setting : Setting} {outer : Job} {scope : Option ListKind}
    {node : Node} {secondary : List (String × String)} {contents : String} {handler : Handler}
    {register : FootnoteRegister}
    (needs : Needs setting outer ⟨scope, .handle node secondary contents handler, register⟩) :
    ∃ before text claims after, secondary = node.renderedLeading scope text ∧
      Renders setting scope (.nodes (node.leadingNodes scope)) before (.ok text) claims after := by
  cases needs with
  | handled _ leading _ => exact ⟨_, _, _, _, rfl, leading⟩

/-- A call hands back the context that it was given, with more footnotes at most, whether or not it
fails. The rendered properties that stand in the context make no difference to it, and every handler
that it comes to, at any depth, is given what the leading property of its own node was rendered
to. -/
theorem call_leaves_context (context : Context) (call : Call) :
    (context.call call).2 = { context with footnotes := (context.call call).2.footnotes } ∧
      context.footnotes.Extends (context.call call).2.footnotes ∧
      (∀ secondary, Context.call { context with secondary } call =
        ((context.call call).1, { (context.call call).2 with secondary })) ∧
      ∀ scope node secondary contents handler register,
        Reaches context.setting ⟨context.scope, call.task, context.footnotes⟩
            ⟨scope, .handle node secondary contents handler, register⟩ →
          ∃ before text claims after, secondary = node.renderedLeading scope text ∧
            Renders context.setting scope (.nodes (node.leadingNodes scope)) before (.ok text)
              claims after := by
  rcases context.call_renders call with ⟨result, claims, after, performed, rendered⟩
  rw [performed]
  refine ⟨rfl, rendered.growth, ?_, ?_⟩
  · intro secondary
    exact @Context.call_of_renders { context with secondary } _ _ _ _ rendered
  · intro scope node secondary contents handler register reaches
    rcases reaches.cases_tail with start | ⟨outer, _, needs⟩
    · cases call <;> cases start
    · exact needs.handle_leading

end MarkupExport
