import MarkupExport.Proofs.Json.Lexeme

/-!
The tokens of a value, and the texts that spell it. What the reader has taken in is kept whole by
its open frames, so the tokens it accepts are those of the value it ends with, and a value's own
tokens complete it wherever a value may begin. A text is read as the one value that it spells.
-/

namespace MarkupExport.Json

mutual

/-- The tokens that stand for this value. -/
def tokens : Json → List Token
  | .null => [.null]
  | .bool value => [.bool value]
  | .number literal => [.number literal]
  | .text value => [.text value]
  | .array items => .arrayStart :: (itemsTokens items ++ [.arrayEnd])
  | .object members => .objectStart :: (membersTokens members ++ [.objectEnd])

/-- Items with a comma between each two. -/
def itemsTokens : List Json → List Token
  | [] => []
  | [item] => tokens item
  | item :: next :: items => tokens item ++ .comma :: itemsTokens (next :: items)

def membersTokens : List (Option String × Json) → List Token
  | [] => []
  | [(key, value)] => .text key :: .colon :: tokens value
  | (key, value) :: next :: members =>
    .text key :: .colon :: (tokens value ++ .comma :: membersTokens (next :: members))

end

/-- The text is this value, in whatever way it is laid out. -/
def IsSpelledBy (value : Json) (text : String) : Prop :=
  Token.Spells text.toList value.tokens

/-! ## Where a value or a key may begin -/

/-- Where this is the progress, a value may begin inside these frames. -/
def Opens (progress : Progress) (frames : List Frame) : Prop :=
  ∀ token, token ≠ .arrayEnd → progress.step token = Progress.openValue frames token

theorem Opens.step {progress next : Progress} {frames : List Frame} {token : Token}
    (opens : Opens progress frames) (begins : Progress.openValue frames token = some next) :
    progress.step token = some next := by
  rw [opens token, begins]
  rintro rfl
  cases begins

theorem opens_awaitValue (frames : List Frame) : Opens (.awaitValue frames) frames :=
  fun _ _ => rfl

theorem opens_awaitItemOrEnd (frames : List Frame) :
    Opens (.awaitItemOrEnd frames) (.array [] :: frames) := by
  intro token other
  cases token <;> first | rfl | exact absurd rfl other

/-- In an object, a key may come next after these members. -/
def AwaitsKey (progress : Progress) (members : Members) (frames : List Frame) : Prop :=
  ∀ key, progress.step (.text key) = some (.awaitColon members key frames)

/-! ## What the open frames have taken in -/

/-- Items that are complete, each with the comma behind it. -/
def itemsSpent (items : List Json) : List Token :=
  items.flatMap fun item => item.tokens ++ [.comma]

def membersSpent (members : Members) : List Token :=
  members.flatMap fun member => .text member.1 :: .colon :: (member.2.tokens ++ [.comma])

theorem itemsTokens_concat (items : List Json) (last : Json) :
    itemsTokens (items ++ [last]) = itemsSpent items ++ last.tokens := by
  induction items with
  | nil => rfl
  | cons item items induction =>
      have split : itemsTokens (item :: (items ++ [last])) =
          item.tokens ++ .comma :: itemsTokens (items ++ [last]) := by
        cases items <;> rfl
      rw [List.cons_append, split, induction]
      simp [itemsSpent]

theorem membersTokens_concat (members : Members) (key : Option String) (value : Json) :
    membersTokens (members ++ [(key, value)]) =
      membersSpent members ++ .text key :: .colon :: value.tokens := by
  induction members with
  | nil => rfl
  | cons member members induction =>
      have split : membersTokens (member :: (members ++ [(key, value)])) =
          .text member.1 :: .colon ::
            (member.2.tokens ++ .comma :: membersTokens (members ++ [(key, value)])) := by
        cases members <;> rfl
      rw [List.cons_append, split, induction]
      simp [membersSpent]

theorem itemsSpent_concat (items : List Json) (last : Json) :
    itemsSpent (items ++ [last]) = itemsSpent items ++ (last.tokens ++ [.comma]) := by
  simp [itemsSpent]

theorem membersSpent_concat (members : Members) (key : Option String) (value : Json) :
    membersSpent (members ++ [(key, value)]) =
      membersSpent members ++ .text key :: .colon :: (value.tokens ++ [.comma]) := by
  simp [membersSpent]

def Frame.spent : Frame → List Token
  | .array items => .arrayStart :: itemsSpent items.reverse
  | .object members key =>
    .objectStart :: (membersSpent members.reverse ++ [.text key, .colon])

def framesSpent (frames : List Frame) : List Token :=
  frames.reverse.flatMap Frame.spent

theorem framesSpent_cons (frame : Frame) (frames : List Frame) :
    framesSpent (frame :: frames) = framesSpent frames ++ frame.spent := by
  simp [framesSpent]

namespace Progress

/-- All tokens that led to this progress. -/
def spent : Progress → List Token
  | .awaitValue frames => framesSpent frames
  | .awaitItemOrEnd frames => framesSpent frames ++ [.arrayStart]
  | .awaitKeyOrEnd frames => framesSpent frames ++ [.objectStart]
  | .awaitKey members frames =>
    framesSpent frames ++ .objectStart :: membersSpent members.reverse
  | .awaitColon members key frames =>
    framesSpent frames ++ .objectStart :: (membersSpent members.reverse ++ [.text key])
  | .complete value frames => framesSpent frames ++ value.tokens

theorem openValue_spent {frames : List Frame} {token : Token} {reached : Progress}
    (step : openValue frames token = some reached) :
    reached.spent = framesSpent frames ++ [token] := by
  cases token <;> cases step <;> rfl

/-- Each token is kept by the progress that it leads to. -/
theorem step_spent {progress reached : Progress} {token : Token}
    (step : progress.step token = some reached) : reached.spent = progress.spent ++ [token] := by
  cases progress with
  | awaitValue frames => exact openValue_spent step
  | awaitItemOrEnd frames =>
      by_cases ending : token = .arrayEnd
      · subst ending
        cases step
        simp [spent, tokens, itemsTokens]
      · rw [opens_awaitItemOrEnd frames token ending] at step
        rw [openValue_spent step, framesSpent_cons]
        rfl
  | awaitKeyOrEnd frames =>
      cases token with
      | objectEnd =>
          cases step
          simp [spent, tokens, membersTokens]
      | text key =>
          cases step
          simp [spent, membersSpent]
      | _ => cases step
  | awaitKey members frames =>
      cases token with
      | text key =>
          cases step
          simp [spent]
      | _ => cases step
  | awaitColon members key frames =>
      cases token with
      | colon =>
          cases step
          simp [spent, framesSpent_cons, Frame.spent]
      | _ => cases step
  | complete value frames =>
      cases frames with
      | nil => cases token <;> cases step
      | cons frame frames =>
          rw [spent, framesSpent_cons]
          cases frame with
          | array items =>
              cases token with
              | comma =>
                  cases step
                  simp [spent, framesSpent_cons, Frame.spent, itemsSpent_concat]
              | arrayEnd =>
                  cases step
                  simp [spent, Frame.spent, tokens, itemsTokens_concat]
              | _ => cases step
          | object members key =>
              cases token with
              | comma =>
                  cases step
                  simp [spent, Frame.spent, membersSpent_concat]
              | objectEnd =>
                  cases step
                  simp [spent, Frame.spent, tokens, membersTokens_concat]
              | _ => cases step

/-- What becomes of this progress when these tokens follow. -/
def run (progress : Progress) (tokens : List Token) : Option Progress :=
  tokens.foldlM step progress

theorem run_spent {progress reached : Progress} {tokens : List Token}
    (run : progress.run tokens = some reached) : reached.spent = progress.spent ++ tokens := by
  induction tokens generalizing progress with
  | nil =>
      cases run
      exact (List.append_nil _).symm
  | cons token tokens induction =>
      rcases Option.bind_eq_some_iff.mp run with ⟨next, step, run⟩
      rw [induction run, step_spent step, List.append_assoc, List.singleton_append]

theorem run_append {progress middle : Progress} {front : List Token}
    (reached : progress.run front = some middle) (rest : List Token) :
    progress.run (front ++ rest) = middle.run rest := by
  have split : progress.run (front ++ rest) = (progress.run front).bind (run · rest) :=
    List.foldlM_append
  rw [split, reached, Option.bind_some]

theorem run_cons {progress next : Progress} {token : Token}
    (stepped : progress.step token = some next) (rest : List Token) :
    progress.run (token :: rest) = next.run rest := by
  rw [run, List.foldlM_cons, stepped]
  rfl

/-! ## The tokens of a value complete it -/

theorem run_key {progress : Progress} {members : Members} {frames : List Frame}
    (awaits : AwaitsKey progress members frames) (key : Option String) (rest : List Token) :
    progress.run (.text key :: .colon :: rest) =
      (awaitValue (.object members key :: frames)).run rest := by
  rw [run_cons (awaits key)]
  rfl

mutual

/-- Whatever is open around it, a value is complete after its tokens. -/
theorem run_tokens {progress : Progress} {frames : List Frame} (opens : Opens progress frames) :
    ∀ value : Json, progress.run value.tokens = some (.complete value frames)
  | .null | .bool _ | .number _ | .text _ => by
    rw [tokens, run_cons (opens.step rfl)]
    rfl
  | .array [] => by
    rw [tokens, run_cons (opens.step rfl)]
    rfl
  | .array (item :: items) => by
    rw [tokens, run_cons (opens.step rfl)]
    exact run_items (opens_awaitItemOrEnd frames) (item :: items) nofun
  | .object [] => by
    rw [tokens, run_cons (opens.step rfl)]
    rfl
  | .object (member :: members) => by
    have awaits : AwaitsKey (.awaitKeyOrEnd frames) [] frames := fun _ => rfl
    rw [tokens, run_cons (opens.step rfl)]
    exact run_members awaits (member :: members) nofun

theorem run_items {progress : Progress} {done : List Json} {frames : List Frame}
    (opens : Opens progress (.array done :: frames)) :
    ∀ items : List Json, items ≠ [] → progress.run (itemsTokens items ++ [.arrayEnd]) =
      some (.complete (.array (done.reverse ++ items)) frames)
  | [item], _ => by
    rw [itemsTokens, run_append (run_tokens opens item), ← List.reverse_cons]
    rfl
  | item :: next :: items, _ => by
    rw [itemsTokens, List.append_assoc, run_append (run_tokens opens item), List.cons_append,
      run_cons rfl, run_items (opens_awaitValue _) (next :: items) nofun, List.reverse_cons,
      List.append_assoc, List.singleton_append]

theorem run_members {progress : Progress} {done : Members} {frames : List Frame}
    (awaits : AwaitsKey progress done frames) :
    ∀ members : Members, members ≠ [] → progress.run (membersTokens members ++ [.objectEnd]) =
      some (.complete (.object (done.reverse ++ members)) frames)
  | [(key, value)], _ => by
    rw [membersTokens, List.cons_append, List.cons_append, run_key awaits,
      run_append (run_tokens (opens_awaitValue _) value), ← List.reverse_cons]
    rfl
  | (key, value) :: next :: members, _ => by
    have awaitsNext : AwaitsKey (.awaitKey ((key, value) :: done) frames)
        ((key, value) :: done) frames := fun _ => rfl
    rw [membersTokens, List.cons_append, List.cons_append, List.append_assoc, run_key awaits,
      run_append (run_tokens (opens_awaitValue _) value), List.cons_append, run_cons rfl,
      run_members awaitsNext (next :: members) nofun, List.reverse_cons, List.append_assoc,
      List.singleton_append]

end

/-! ## What the reader accepts -/

/-- No number and no word may come where a value is complete. -/
theorem step_complete {value : Json} {frames : List Frame} {token : Token}
    (runs : token.runsOn = true) : (complete value frames).step token = none := by
  rcases frames with _ | ⟨_ | _, frames⟩ <;> cases token <;> cases runs <;> rfl

/-- A number or a word completes a value. -/
theorem complete_of_runsOn {progress next : Progress} {token : Token} (runs : token.runsOn = true)
    (step : progress.step token = some next) :
    ∃ value frames, next = .complete value frames := by
  cases progress with
  | awaitValue frames => cases token <;> cases runs <;> cases step <;> exact ⟨_, _, rfl⟩
  | awaitItemOrEnd frames => cases token <;> cases runs <;> cases step <;> exact ⟨_, _, rfl⟩
  | awaitKeyOrEnd frames => cases token <;> cases runs <;> cases step
  | awaitKey members frames => cases token <;> cases runs <;> cases step
  | awaitColon members key frames => cases token <;> cases runs <;> cases step
  | complete value frames =>
      rw [step_complete runs] at step
      cases step

/-- Accepted tokens hold no number and no word directly after another. -/
theorem separated_of_run {progress reached : Progress} {tokens : List Token}
    (accepted : progress.run tokens = some reached) : Token.Separated tokens := by
  induction tokens generalizing progress with
  | nil => exact .nil
  | cons token tokens induction =>
      rcases Option.bind_eq_some_iff.mp accepted with ⟨next, step, accepted⟩
      refine List.isChain_cons.mpr ⟨fun other head runs => ?_, induction accepted⟩
      rcases complete_of_runsOn runs step with ⟨value, frames, rfl⟩
      cases tokens with
      | nil => cases head
      | cons first tokens =>
          cases head
          rcases Option.bind_eq_some_iff.mp accepted with ⟨_, second, _⟩
          refine Bool.eq_false_iff.mpr fun runsToo => ?_
          rw [step_complete runsToo] at second
          cases second

end Progress

/-- Tokens are read as the one value whose tokens they are. -/
theorem ofTokens?_eq_some_iff {tokens : List Token} {value : Json} :
    ofTokens? tokens = some value ↔ tokens = value.tokens := by
  constructor
  · intro read
    rcases Option.bind_eq_some_iff.mp read with ⟨reached, run, ended⟩
    have kept := Progress.run_spent run
    unfold Progress.value? at ended
    split at ended
    · cases ended
      exact kept.symm
    · cases ended
  · rintro rfl
    have run := Progress.run_tokens (opens_awaitValue []) value
    exact Option.bind_eq_some_iff.mpr ⟨_, run, rfl⟩

/-- A text is read as the one value that it spells. -/
theorem parse?_eq_some_iff {text : String} {value : Json} :
    parse? text = some value ↔ value.IsSpelledBy text := by
  constructor
  · intro read
    rcases Option.bind_eq_some_iff.mp read with ⟨tokens, spelled, read⟩
    rw [IsSpelledBy, ← ofTokens?_eq_some_iff.mp read]
    exact Token.spells_of_readAll spelled
  · intro spelled
    have separated := Progress.separated_of_run (Progress.run_tokens (opens_awaitValue []) value)
    exact Option.bind_eq_some_iff.mpr
      ⟨_, Token.readAll_of_spells spelled separated, ofTokens?_eq_some_iff.mpr rfl⟩

end MarkupExport.Json
