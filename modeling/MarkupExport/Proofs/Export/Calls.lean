import MarkupExport.Proofs.Export.Execution

/-!
Runs: one context is called again and again, on any nodes and whether or not earlier calls have
failed. Whatever every rendering does to the footnotes, and can be done once more, is done by
every run.
-/

namespace MarkupExport

inductive Call where
  | transcode (node : Node)
  | transcodeAll (nodes : List Node)

def Call.task : Call → Task
  | .transcode node => .node node
  | .transcodeAll nodes => .nodes nodes

namespace Context

def call (context : Context) : Call → Except TranscodeError String × Context
  | .transcode node => context.transcode node
  | .transcodeAll nodes => context.transcodeAll nodes

/-- The results of the calls in order, and the context that the last of them leaves. -/
def calls (context : Context) : List Call → List (Except TranscodeError String) × Context
  | [] => ([], context)
  | call :: rest =>
    let (result, next) := context.call call
    let (results, last) := next.calls rest
    (result :: results, last)

theorem call_renders (context : Context) (call : Call) :
    ∃ result claims after, context.call call = (result, { context with footnotes := after }) ∧
      Renders context.setting context.scope call.task context.footnotes result claims after := by
  cases call with
  | transcode node => exact context.transcode_renders node
  | transcodeAll nodes => exact context.transcodeAll_renders nodes

theorem calls_cons (context : Context) (call : Call) (rest : List Call) :
    context.calls (call :: rest) =
      ((context.call call).1 :: ((context.call call).2.calls rest).1,
        ((context.call call).2.calls rest).2) :=
  rfl

/-- Calls change nothing but the footnotes. -/
theorem calls_context (context : Context) (calls : List Call) :
    (context.calls calls).2 =
      { context with footnotes := (context.calls calls).2.footnotes } := by
  induction calls generalizing context with
  | nil => rfl
  | cons call rest induction =>
      rcases context.call_renders call with ⟨result, claims, after, performed, _⟩
      rw [calls_cons, performed]
      exact induction { context with footnotes := after }

/-- A run does to the footnotes what each rendering does whose result is as allowed. -/
theorem calls_footnotes (motive : FootnoteRegister → FootnoteRegister → Prop)
    (allowed : Except TranscodeError String → Prop) (refl : ∀ register, motive register register)
    (trans : ∀ {first second third}, motive first second → motive second third →
      motive first third)
    (step : ∀ {setting scope task before result claims after},
      Renders setting scope task before result claims after → allowed result →
        motive before after)
    (context : Context) (calls : List Call)
    (results : ∀ result ∈ (context.calls calls).1, allowed result) :
    motive context.footnotes (context.calls calls).2.footnotes := by
  induction calls generalizing context with
  | nil => exact refl _
  | cons call rest induction =>
      rcases context.call_renders call with ⟨result, claims, after, performed, rendered⟩
      rw [calls_cons, performed] at results ⊢
      have first := step rendered (results result List.mem_cons_self)
      apply trans first
      apply induction { context with footnotes := after }
      intro later member
      exact results later (List.mem_cons_of_mem _ member)

end Context

end MarkupExport
