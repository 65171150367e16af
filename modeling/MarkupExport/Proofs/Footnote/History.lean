import Mathlib.Data.Finset.Card
import MarkupExport.Proofs.Footnote.Register

/-!
A footnote register under any use. Labels may be assigned and looked up, and texts given to numbers,
in any order and as often as one likes, and a number may get a text that belongs to no label. What
the register answers and what it holds follow from what it has been asked so far: a label has its
place among the labels assigned, a number the first text that it was given.
-/

namespace MarkupExport.FootnoteRegister

/-- What a register can be asked to do. -/
inductive Operation where
  | assign (label : String)
  | lookup (label : String)
  | define (number : Nat) (text : String)
deriving DecidableEq, Repr

inductive Answer where
  | assigned (number : Nat) (isNew : Bool)
  | found (number : Option Nat)
  | done
deriving DecidableEq, Repr

def perform (register : FootnoteRegister) : Operation → Answer × FootnoteRegister
  | .assign label =>
    let assigned := register.assign label
    (.assigned assigned.1.1 assigned.1.2, assigned.2)
  | .lookup label => (.found (register.number? label), register)
  | .define number text => (.done, register.define number text)

/-- The answers in order, and the register that the last operation leaves. -/
def performAll (register : FootnoteRegister) : List Operation → List Answer × FootnoteRegister
  | [] => ([], register)
  | operation :: rest =>
    let (answer, next) := register.perform operation
    let (answers, last) := next.performAll rest
    (answer :: answers, last)

namespace Operation

/-- The label that the operation assigns. -/
def label? : Operation → Option String
  | .assign label => some label
  | .lookup _ | .define _ _ => none

/-- The number and the text that the operation gives it. -/
def text? : Operation → Option (Nat × String)
  | .define number text => some (number, text)
  | .assign _ | .lookup _ => none

end Operation

/-- The labels that have been assigned, once for every time. -/
def assigned (operations : List Operation) : List String :=
  operations.filterMap Operation.label?

/-- The texts that numbers have been given, as they were given. -/
def given (operations : List Operation) : List (Nat × String) :=
  operations.filterMap Operation.text?

theorem assigned_concat (operations : List Operation) (operation : Operation) :
    assigned (operations ++ [operation]) = assigned operations ++ operation.label?.toList := by
  cases operation <;> simp [assigned, Operation.label?]

theorem given_concat (operations : List Operation) (operation : Operation) :
    given (operations ++ [operation]) = given operations ++ operation.text?.toList := by
  cases operation <;> simp [given, Operation.text?]

/-! ## What is expected -/

/-- The labels are numbered from one to as many as they are, in the order in which they first
occur. -/
structure NumberedByFirst (labels : List String) (number? : String → Option Nat) : Prop where
  numbered : ∀ label, (∃ number, number? label = some number) ↔ label ∈ labels
  numbers : ∀ number, (∃ label, number? label = some number) ↔
    1 ≤ number ∧ number ≤ labels.toFinset.card
  inOrder : ∀ first second left right, number? first = some left → number? second = some right →
    (left < right ↔ labels.idxOf first < labels.idxOf second)

/-- The entries are in ascending order, and each of the numbers given has the first of its texts,
trimmed. -/
structure HoldsFirst (texts : List (Nat × String)) (register : FootnoteRegister) : Prop where
  ascending : register.entries.Pairwise fun first second => first.1 < second.1
  entry : ∀ number text, (number, text) ∈ register.entries ↔
    ∃ written, texts.lookup number = some written ∧ text = Text.trim written
  size : register.size = register.entries.length ∧
    register.size = (texts.map Prod.fst).toFinset.card
  isEmpty : register.isEmpty = true ↔ texts = []

/-- The answer after the earlier operations, given the numbers that labels have in the end. -/
inductive Answers (number? : String → Option Nat) (earlier : List Operation) :
    Operation → Answer → Prop
  | first {label number} : label ∉ assigned earlier → number? label = some number →
      Answers number? earlier (.assign label) (.assigned number true)
  | again {label number} : label ∈ assigned earlier → number? label = some number →
      Answers number? earlier (.assign label) (.assigned number false)
  | found {label number} : label ∈ assigned earlier → number? label = some number →
      Answers number? earlier (.lookup label) (.found (some number))
  | unknown {label} : label ∉ assigned earlier →
      Answers number? earlier (.lookup label) (.found none)
  | done {number text} : Answers number? earlier (.define number text) .done

/-- Every operation has got the answer that its place in the sequence asks for. -/
structure AnswersAll (number? : String → Option Nat) (operations : List Operation)
    (answers : List Answer) : Prop where
  length : answers.length = operations.length
  each : ∀ index operation answer, operations[index]? = some operation →
    answers[index]? = some answer → Answers number? (operations.take index) operation answer

/-! ## One operation -/

theorem growth_perform (register : FootnoteRegister) (operation : Operation) :
    register.Extends (register.perform operation).2 := by
  cases operation with
  | lookup _ => exact .refl register
  | define number text => exact .define register number text
  | assign label =>
      cases known : register.number? label with
      | none => exact .assign known
      | some number =>
          rw [perform, assign_of_known known]
          exact .refl register

/-- A number has the text that it had, or else the one it is given now. -/
theorem text?_perform (register : FootnoteRegister) (operation : Operation) (number : Nat) :
    (register.perform operation).2.text? number =
      (register.text? number).or ((operation.text?.toList.lookup number).map Text.trim) := by
  cases operation with
  | lookup _ => simp [perform, Operation.text?]
  | define other text =>
      rw [perform, text?_define]
      by_cases same : number = other
      · subst same
        cases register.text? number <;> simp [Operation.text?]
      · simp [Operation.text?, Ascending.lookup_cons_eq, same]
  | assign label =>
      have kept : (register.perform (.assign label)).2.text? number = register.text? number := by
        cases known : register.number? label with
        | none => exact text?_assign known number
        | some number => rw [perform, assign_of_known known]
      simp [kept, Operation.text?]

/-! ## The register after a sequence of operations -/

/-- The members of the second list, each once, in the order in which they first occur there. -/
structure FirstSeen (labels seen : List String) : Prop where
  mem_iff : ∀ label, label ∈ labels ↔ label ∈ seen
  ordered : labels.Pairwise fun first second => seen.idxOf first < seen.idxOf second

namespace FirstSeen

variable {labels seen : List String} {label : String}

theorem idxOf_concat (firstSeen : FirstSeen labels seen) {other : String} (member : other ∈ labels)
    (label : String) : (seen ++ [label]).idxOf other = seen.idxOf other :=
  List.idxOf_append_of_mem ((firstSeen.mem_iff other).mp member)

theorem ordered_concat (firstSeen : FirstSeen labels seen) (label : String) :
    labels.Pairwise fun first second =>
      (seen ++ [label]).idxOf first < (seen ++ [label]).idxOf second := by
  refine firstSeen.ordered.imp_of_mem ?_
  intro first second inFirst inSecond before
  rwa [firstSeen.idxOf_concat inFirst, firstSeen.idxOf_concat inSecond]

theorem again (firstSeen : FirstSeen labels seen) (member : label ∈ labels) :
    FirstSeen labels (seen ++ [label]) := by
  refine ⟨?_, firstSeen.ordered_concat label⟩
  intro other
  rw [firstSeen.mem_iff, List.mem_append, List.mem_singleton]
  constructor
  · exact Or.inl
  · rintro (inside | rfl)
    · exact inside
    · exact (firstSeen.mem_iff other).mp member

theorem snoc (firstSeen : FirstSeen labels seen) (absent : label ∉ labels) :
    FirstSeen (labels ++ [label]) (seen ++ [label]) := by
  constructor
  · intro other
    simp [firstSeen.mem_iff]
  · have unseen : label ∉ seen := fun member => absent ((firstSeen.mem_iff label).mpr member)
    refine List.pairwise_append.mpr
      ⟨firstSeen.ordered_concat label, List.pairwise_singleton _ _, ?_⟩
    intro first inFirst last isLast
    rw [List.mem_singleton.mp isLast, firstSeen.idxOf_concat inFirst,
      List.idxOf_append_of_notMem unseen]
    have inside := List.idxOf_lt_length_of_mem ((firstSeen.mem_iff first).mp inFirst)
    omega

end FirstSeen

/-- What a register holds once the operations have been performed on a new one. -/
structure Follows (operations : List Operation) (register : FootnoteRegister) : Prop where
  labels : FirstSeen register.labels (assigned operations)
  texts : ∀ number, register.text? number = ((given operations).lookup number).map Text.trim

theorem Follows.empty : Follows [] {} :=
  ⟨⟨fun _ => Iff.rfl, List.Pairwise.nil⟩, fun _ => rfl⟩

theorem Follows.concat {earlier : List Operation} {register : FootnoteRegister}
    (follows : Follows earlier register) (operation : Operation) :
    Follows (earlier ++ [operation]) (register.perform operation).2 := by
  constructor
  · rw [assigned_concat]
    cases operation with
    | lookup _ | define _ _ =>
        rw [Operation.label?, Option.toList_none, List.append_nil]
        exact follows.labels
    | assign label =>
        change FirstSeen (register.assign label).2.labels (assigned earlier ++ [label])
        rw [labels_assign]
        split
        · next member => exact follows.labels.again member
        · next absent => exact follows.labels.snoc absent
  · intro number
    rw [text?_perform, follows.texts, given_concat, List.lookup_append, Option.map_or]

theorem performAll_append (register : FootnoteRegister) (front back : List Operation) :
    (register.performAll (front ++ back)).2 =
      ((register.performAll front).2.performAll back).2 := by
  induction front generalizing register with
  | nil => rfl
  | cons head tail induction => exact induction (register.perform head).2

theorem follows_performAll (operations : List Operation) :
    Follows operations (performAll {} operations).2 := by
  induction operations using List.reverseRecOn with
  | nil => exact .empty
  | append_singleton earlier operation induction =>
      rw [performAll_append]
      exact induction.concat operation

/-! ## Numbers -/

theorem FirstSeen.numberedByFirst {register : FootnoteRegister} {seen : List String}
    (firstSeen : FirstSeen register.labels seen) : NumberedByFirst seen register.number? := by
  have count : seen.toFinset.card = register.labels.length := by
    rw [← List.toFinset_card_of_nodup register.nodup_labels]
    congr 1
    ext label
    simp [firstSeen.mem_iff]
  have ascends : ∀ {first second : String} {left right : Nat}, left < right →
      register.labels[left]? = some first → register.labels[right]? = some second →
        seen.idxOf first < seen.idxOf second := by
    intro first second left right before atLeft atRight
    rcases List.getElem?_eq_some_iff.mp atLeft with ⟨insideLeft, rfl⟩
    rcases List.getElem?_eq_some_iff.mp atRight with ⟨insideRight, rfl⟩
    exact List.pairwise_iff_getElem.mp firstSeen.ordered left right insideLeft insideRight before
  constructor
  · intro label
    rw [exists_number_iff, firstSeen.mem_iff]
  · intro number
    rw [exists_label_iff, count]
  · intro first second left right isLeft isRight
    rcases number?_eq_some_iff.mp isLeft with ⟨left, rfl, atLeft⟩
    rcases number?_eq_some_iff.mp isRight with ⟨right, rfl, atRight⟩
    constructor
    · intro less
      exact ascends (by omega) atLeft atRight
    · intro before
      apply Classical.byContradiction
      intro notLess
      rcases Nat.lt_or_eq_of_le (by omega : right ≤ left) with less | rfl
      · have after := ascends less atRight atLeft
        omega
      · rw [Option.some.inj (atLeft.symm.trans atRight)] at before
        omega

/-! ## Texts -/

theorem Follows.holdsFirst {operations : List Operation} {register : FootnoteRegister}
    (follows : Follows operations register) : HoldsFirst (given operations) register := by
  have numbers : ∀ number, number ∈ Ascending.keys register.entries ↔
      number ∈ Ascending.keys (given operations) := by
    intro number
    have texts := follows.texts number
    rw [← not_iff_not, ← text?_eq_none_iff, ← Ascending.lookup_eq_none_iff_not_mem_keys, texts,
      Option.map_eq_none_iff]
  have ascending := register.ascending_entries
  constructor
  · exact List.pairwise_map.mp ascending
  · intro number text
    have found : (number, text) ∈ register.entries ↔ register.text? number = some text :=
      ⟨text?_of_mem, Ascending.mem_of_lookup⟩
    rw [found, follows.texts, Option.map_eq_some_iff]
    exact exists_congr fun written => and_congr_right fun _ => eq_comm
  · refine ⟨rfl, ?_⟩
    have distinct : (Ascending.keys register.entries).Nodup := ascending.imp Nat.ne_of_lt
    have same : (Ascending.keys (given operations)).toFinset =
        (Ascending.keys register.entries).toFinset := by
      ext number
      simp [numbers]
    change register.entries.length = (Ascending.keys (given operations)).toFinset.card
    rw [same, List.toFinset_card_of_nodup distinct, Ascending.keys, List.length_map]
  · have bare : Ascending.keys register.entries = [] ↔ Ascending.keys (given operations) = [] := by
      rw [List.eq_nil_iff_forall_not_mem, List.eq_nil_iff_forall_not_mem]
      exact forall_congr' fun number => not_congr (numbers number)
    rw [FootnoteRegister.isEmpty, List.isEmpty_iff]
    simpa [Ascending.keys] using bare

/-! ## Answers -/

theorem growth_performAll (register : FootnoteRegister) (operations : List Operation) :
    register.Extends (register.performAll operations).2 := by
  induction operations generalizing register with
  | nil => exact .refl register
  | cons operation rest induction =>
      exact (register.growth_perform operation).trans (induction (register.perform operation).2)

/-- An operation is answered from what the register held before it. -/
theorem Follows.answers {earlier : List Operation} {register final : FootnoteRegister}
    (follows : Follows earlier register) (operation : Operation)
    (growth : (register.perform operation).2.Extends final) :
    Answers final.number? earlier operation (register.perform operation).1 := by
  have early := (register.growth_perform operation).trans growth
  cases operation with
  | define _ _ => exact .done
  | lookup label =>
      cases known : register.number? label with
      | none =>
          rw [perform, known]
          rw [number?_eq_none_iff, follows.labels.mem_iff] at known
          exact .unknown known
      | some number =>
          have member := exists_number_iff.mp ⟨number, known⟩
          rw [perform, known]
          exact .found ((follows.labels.mem_iff label).mp member) (early.number? known)
  | assign label =>
      cases known : register.number? label with
      | none =>
          have now := growth.number? (number?_assign_self known)
          have answer : (register.perform (.assign label)).1 =
              .assigned (register.labels.length + 1) true := by
            rw [perform, (assign_of_unknown known).1]
          rw [answer]
          rw [number?_eq_none_iff, follows.labels.mem_iff] at known
          exact .first known now
      | some number =>
          have member := exists_number_iff.mp ⟨number, known⟩
          rw [perform, assign_of_known known]
          exact .again ((follows.labels.mem_iff label).mp member) (early.number? known)

/-- The answers of a sequence are those that each operation gets after the ones before it. -/
theorem getElem?_performAll (register : FootnoteRegister) (operations : List Operation)
    (index : Nat) :
    (register.performAll operations).1[index]? = operations[index]?.map fun operation =>
      ((register.performAll (operations.take index)).2.perform operation).1 := by
  induction operations generalizing register index with
  | nil => rfl
  | cons head tail induction =>
      cases index with
      | zero => rfl
      | succ index => exact induction (register.perform head).2 index

theorem length_performAll (register : FootnoteRegister) (operations : List Operation) :
    (register.performAll operations).1.length = operations.length := by
  induction operations generalizing register with
  | nil => rfl
  | cons head tail induction =>
      exact congrArg (· + 1) (induction (register.perform head).2)

theorem answersAll_performAll (operations : List Operation) :
    AnswersAll (performAll {} operations).2.number? operations (performAll {} operations).1 := by
  refine ⟨length_performAll {} operations, ?_⟩
  intro index operation answer asked answered
  rw [getElem?_performAll, asked, Option.map_some, Option.some.injEq] at answered
  subst answered
  apply (follows_performAll (operations.take index)).answers
  rcases List.getElem?_eq_some_iff.mp asked with ⟨inside, rfl⟩
  have split : (performAll {} operations).2 =
      ((performAll {} (operations.take index)).2.performAll (operations.drop index)).2 := by
    rw [← performAll_append, List.take_append_drop]
  rw [split, List.drop_eq_getElem_cons inside]
  exact growth_performAll _ _

/-- Whatever a new register is asked to do, in whatever order: the labels assigned are numbered from
one in the order in which they were first assigned, and an answer tells this number of a label and
whether it is new. A number holds the first text that it was given, whether or not it belongs to a
label, and the entries list the numbers given in ascending order. -/
theorem performAll_follows_history (operations : List Operation) :
    let run := performAll {} operations
    NumberedByFirst (assigned operations) run.2.number? ∧
      AnswersAll run.2.number? operations run.1 ∧ HoldsFirst (given operations) run.2 := by
  intro run
  have follows := follows_performAll operations
  exact ⟨follows.labels.numberedByFirst, answersAll_performAll operations, follows.holdsFirst⟩

example :
    (performAll {} [.assign "b", .define 7 " seven ", .assign "a", .lookup "c", .define 2 "two",
      .assign "b", .define 7 "again", .lookup "a"]).1 =
        [.assigned 1 true, .done, .assigned 2 true, .found none, .done, .assigned 1 false, .done,
          .found (some 2)] := by
  decide +kernel

end MarkupExport.FootnoteRegister
