import MarkupExport.Proofs.Text.Code
import MarkupExport.Url.Punycode

/-!
Punycode is read back as the word that it spells. While a word is spelled, a reader that has read
everything written so far knows the characters passed so far, and the delta that is waiting leads it
to the place that comes next.
-/

namespace MarkupExport.Url.Punycode

/-! ## Numbers -/

def digits : List Char :=
  (List.range 36).map digit

theorem digitValue?_digit {value : Nat} (small : value < 36) :
    digitValue? (digit value) = some value := by
  have all : ∀ value < 36, digitValue? (digit value) = some value := by decide
  exact all value small

theorem digit_mem_digits {value : Nat} (small : value < 36) : digit value ∈ digits :=
  List.mem_map_of_mem (List.mem_range.mpr small)

theorem threshold_bounds (position bias : Nat) :
    1 ≤ threshold position bias ∧ threshold position bias ≤ 26 := by
  simp only [threshold]
  omega

theorem mem_digits_of_mem_number (bias position value : Nat) :
    ∀ letter ∈ number bias position value, letter ∈ digits := by
  fun_induction number bias position value with
  | case1 position value limit last =>
      have bounds := threshold_bounds position bias
      rintro _ (_ | ⟨_, ⟨⟩⟩)
      exact digit_mem_digits (by omega)
  | case2 position value limit more induction =>
      have bounds := threshold_bounds position bias
      have below := Nat.mod_lt (value - limit) (by omega : 36 - limit > 0)
      rintro letter (_ | ⟨_, member⟩)
      · exact digit_mem_digits (by omega)
      · exact induction letter member

theorem readNumber_number (bias position value weight index : Nat) (rest : List Char) :
    readNumber bias position weight index (number bias position value ++ rest) =
      some (index + value * weight, rest) := by
  fun_induction number bias position value generalizing weight index with
  | case1 position value limit last =>
      have bounds := threshold_bounds position bias
      have read : digitValue? (digit value) = some value := digitValue?_digit (by omega)
      rw [List.singleton_append, readNumber, read, Option.bind_eq_bind, Option.bind_some]
      exact if_pos last
  | case2 position value limit more induction =>
      have bounds := threshold_bounds position bias
      have positive : 0 < 36 - limit := by omega
      have below := Nat.mod_lt (value - limit) positive
      have read : digitValue? (digit (limit + (value - limit) % (36 - limit))) =
          some (limit + (value - limit) % (36 - limit)) := digitValue?_digit (by omega)
      have atLeast : ¬ limit + (value - limit) % (36 - limit) < limit := by omega
      have parts : limit + (value - limit) % (36 - limit) +
          (value - limit) / (36 - limit) * (36 - limit) = value := by
        have divided := Nat.mod_add_div' (value - limit) (36 - limit)
        omega
      rw [List.cons_append, readNumber, read, Option.bind_eq_bind, Option.bind_some]
      refine (if_neg atLeast).trans ((induction _ _).trans ?_)
      congr 2
      calc index + (limit + (value - limit) % (36 - limit)) * weight +
            (value - limit) / (36 - limit) * (weight * (36 - limit))
          = index + (limit + (value - limit) % (36 - limit) +
              (value - limit) / (36 - limit) * (36 - limit)) * weight := by
            rw [Nat.mul_comm weight, ← Nat.mul_assoc, Nat.add_assoc, ← Nat.add_mul]
        _ = index + value * weight := by rw [parts]

/-! ## Words -/

theorem readAll_of_readNumber {word chars rest : List Char} {code index bias result : Nat}
    (read : readNumber bias 36 1 index chars = some (result, rest))
    (valid : Nat.isValidChar (code + result / (word.length + 1))) :
    readAll word code index bias chars =
      readAll
        (word.take (result % (word.length + 1)) ++
          Char.ofNat (code + result / (word.length + 1)) ::
            word.drop (result % (word.length + 1)))
        (code + result / (word.length + 1)) (result % (word.length + 1) + 1)
        (adapt (result - index) (word.length + 1) (index = 0)) rest := by
  cases chars with
  | nil => cases read
  | cons char chars =>
      conv => lhs; rw [readAll]
      split
      · next none => rw [read] at none; cases none
      · next found =>
        rw [read] at found
        cases found
        exact if_pos valid

/-- A number that leads from the last character inserted to this one has it inserted. -/
theorem readAll_number {front after rest : List Char} {char : Char} {last index delta bias : Nat}
    (earlier : last ≤ char.toNat)
    (leads : index + delta =
      (char.toNat - last) * ((front ++ after).length + 1) + front.length) :
    readAll (front ++ after) last index bias (number bias 36 delta ++ rest) =
      readAll (front ++ char :: after) char.toNat (front.length + 1)
        (adapt delta ((front ++ after).length + 1) (index = 0)) rest := by
  have read : readNumber bias 36 1 index (number bias 36 delta ++ rest) =
      some (index + delta, rest) := by
    rw [readNumber_number, Nat.mul_one]
  have inside : front.length < (front ++ after).length + 1 := by
    rw [List.length_append]
    omega
  have code : last + (index + delta) / ((front ++ after).length + 1) = char.toNat := by
    rw [leads, Nat.mul_comm, Nat.mul_add_div (Nat.succ_pos _), Nat.div_eq_of_lt inside]
    omega
  have place : (index + delta) % ((front ++ after).length + 1) = front.length := by
    rw [leads, Nat.mul_comm, Nat.mul_add_mod, Nat.mod_eq_of_lt inside]
  have valid : Nat.isValidChar (last + (index + delta) / ((front ++ after).length + 1)) := by
    rw [code]
    exact char.valid
  rw [readAll_of_readNumber read valid, code, place, Nat.add_sub_cancel_left, Char.ofNat_toNat,
    List.take_left, List.drop_left]

/-! ## Spelling -/

/-- A reader of what is written after `start` begins with `basic` and has come to `known`; the
character it inserted last has the code `last` and stands before the index. The waiting delta leads
on to the place of a character with the given code. -/
structure Leads (start basic known : List Char) (last index code place : Nat)
    (spelling : Spelling) : Prop where
  counted : spelling.count = known.length
  first : index = 0 ↔ spelling.count = basic.length
  grown : basic.length ≤ spelling.count
  earlier : last ≤ code
  leads : index + spelling.delta = (code - last) * (known.length + 1) + place
  reads : ∃ numbers, spelling.written = start ++ numbers ∧ (∀ letter ∈ numbers, letter ∈ digits) ∧
    ∀ rest, readAll basic 0x80 0 72 (numbers ++ rest) =
      readAll known last index spelling.bias rest

/-- What is known of a word when the characters with this code are inserted and the first part of
the word has been passed. -/
def known (code : Nat) (front rest : List Char) : List Char :=
  front.filter (·.toNat ≤ code) ++ rest.filter (·.toNat < code)

section Passing

variable {word start basic front rest : List Char} {char : Char} {last index code : Nat}
  {spelling : Spelling}

theorem Leads.insert {after : List Char}
    (leads : Leads start basic (front ++ after) last index char.toNat front.length spelling) :
    Leads start basic (front ++ char :: after) char.toNat (front.length + 1) char.toNat
      (front.length + 1)
      { written := spelling.written ++ number spelling.bias 36 spelling.delta
        delta := 0
        bias := adapt spelling.delta (spelling.count + 1) (spelling.count = basic.length)
        count := spelling.count + 1 } := by
  rcases leads with ⟨counted, first, grown, earlier, leads, numbers, written, inDigits, reads⟩
  constructor
  case counted =>
    rw [counted, List.length_append, List.length_append, List.length_cons, Nat.add_assoc]
  case first =>
    dsimp only
    omega
  case grown => exact Nat.le_succ_of_le grown
  case earlier => exact Nat.le_refl _
  case leads => rw [Nat.sub_self, Nat.zero_mul, Nat.zero_add, Nat.add_zero]
  case reads =>
    refine ⟨numbers ++ number spelling.bias 36 spelling.delta, ?_, ?_, fun rest => ?_⟩
    · dsimp only
      rw [written, List.append_assoc]
    · intro letter member
      rcases List.mem_append.mp member with member | member
      · exact inDigits letter member
      · exact mem_digits_of_mem_number _ _ _ letter member
    · rw [List.append_assoc, reads, readAll_number earlier leads, ← counted,
        decide_eq_decide.mpr first]

/-- Passing a character keeps the delta that is waiting in step with the place reached, and inserts
the character if its code is the one in turn. -/
theorem Leads.pass
    (leads : Leads start basic (known code front (char :: rest)) last index code
      (front.filter (·.toNat ≤ code)).length spelling) :
    ∃ last index, Leads start basic (known code (front ++ [char]) rest) last index code
      ((front ++ [char]).filter (·.toNat ≤ code)).length
      (spelling.pass basic.length code char) := by
  rw [Spelling.pass]
  by_cases below : char.toNat < code
  · have same : known code (front ++ [char]) rest = known code front (char :: rest) := by
      simp [known, below, Nat.le_of_lt below]
    have further : ((front ++ [char]).filter (·.toNat ≤ code)).length =
        (front.filter (·.toNat ≤ code)).length + 1 := by
      simp [Nat.le_of_lt below]
    rw [if_pos below, same, further]
    refine ⟨last, index, leads.counted, leads.first, leads.grown, leads.earlier, ?_, leads.reads⟩
    rw [← Nat.add_assoc, ← Nat.add_assoc, leads.leads]
  rw [if_neg below]
  by_cases equal : char.toNat = code
  · subst equal
    have before : known char.toNat front (char :: rest) =
        front.filter (·.toNat ≤ char.toNat) ++ rest.filter (·.toNat < char.toNat) := by
      simp [known]
    have after : known char.toNat (front ++ [char]) rest =
        front.filter (·.toNat ≤ char.toNat) ++ char :: rest.filter (·.toNat < char.toNat) := by
      simp [known]
    have further : ((front ++ [char]).filter (·.toNat ≤ char.toNat)).length =
        (front.filter (·.toNat ≤ char.toNat)).length + 1 := by
      simp
    rw [before] at leads
    rw [if_pos rfl, after, further]
    exact ⟨_, _, leads.insert⟩
  · have above : ¬ char.toNat ≤ code := by omega
    have same : known code (front ++ [char]) rest = known code front (char :: rest) := by
      simp [known, below, above]
    have still : ((front ++ [char]).filter (·.toNat ≤ code)).length =
        (front.filter (·.toNat ≤ code)).length := by
      simp [above]
    rw [if_neg equal, same, still]
    exact ⟨last, index, leads⟩

theorem Leads.passAll (front : List Char)
    (leads : Leads start basic (known code front rest) last index code
      (front.filter (·.toNat ≤ code)).length spelling) :
    ∃ last index, Leads start basic ((front ++ rest).filter (·.toNat ≤ code)) last index code
      ((front ++ rest).filter (·.toNat ≤ code)).length
      (rest.foldl (Spelling.pass basic.length code) spelling) := by
  induction rest generalizing front last index spelling with
  | nil =>
      rw [known, List.filter_nil, List.append_nil] at leads
      rw [List.append_nil]
      exact ⟨last, index, leads⟩
  | cons char rest induction =>
      rcases leads.pass with ⟨last, index, passed⟩
      rw [List.foldl_cons, List.append_cons]
      exact induction (front ++ [char]) passed

/-- Before a code is in turn, the delta moves on past the codes that no character has. -/
theorem Leads.move {next : Nat}
    (leads : Leads start basic (word.filter (·.toNat < next)) last index next 0 spelling)
    (reached : next ≤ code) (between : ∀ char ∈ word, char.toNat < code → char.toNat < next) :
    Leads start basic (known code [] word) last index code 0
      { spelling with delta := spelling.delta + (code - next) * (spelling.count + 1) } := by
  have same : known code [] word = word.filter (·.toNat < next) := by
    rw [known, List.filter_nil, List.nil_append]
    refine List.filter_congr fun char member => decide_eq_decide.mpr ?_
    exact ⟨between char member, fun below => Nat.lt_of_lt_of_le below reached⟩
  rw [same]
  have earlier := leads.earlier
  refine ⟨leads.counted, leads.first, leads.grown, Nat.le_trans earlier reached, ?_, leads.reads⟩
  dsimp only
  rw [← Nat.add_assoc, leads.leads, ← leads.counted, Nat.add_zero, Nat.add_zero, ← Nat.add_mul]
  congr 1
  omega

/-- After the last character has been passed, the delta leads to the first place of the next
code. -/
theorem Leads.finish
    (leads : Leads start basic (word.filter (·.toNat ≤ code)) last index code
      (word.filter (·.toNat ≤ code)).length spelling) :
    Leads start basic (word.filter (·.toNat < code + 1)) last index (code + 1) 0
      { spelling with delta := spelling.delta + 1 } := by
  have same : word.filter (·.toNat < code + 1) = word.filter (·.toNat ≤ code) := by
    simp only [Nat.lt_succ_iff]
  have earlier := leads.earlier
  rw [same]
  refine ⟨leads.counted, leads.first, leads.grown, Nat.le_succ_of_le earlier, ?_, leads.reads⟩
  have shifted : code + 1 - last = code - last + 1 := by omega
  dsimp only
  rw [← Nat.add_assoc, leads.leads, shifted, Nat.add_mul, Nat.one_mul]
  omega

theorem insertAll_reads {next : Nat} {codes : List Nat}
    (leads : Leads start basic (word.filter (·.toNat < next)) last index next 0 spelling)
    (ascending : codes.Pairwise (· < ·)) (ahead : ∀ code ∈ codes, next ≤ code)
    (complete : ∀ char ∈ word, next ≤ char.toNat → char.toNat ∈ codes) :
    ∃ numbers, insertAll word basic.length next codes spelling = start ++ numbers ∧
      (∀ letter ∈ numbers, letter ∈ digits) ∧ readAll basic 0x80 0 72 numbers = some word := by
  induction codes generalizing next last index spelling with
  | nil =>
      have all : word.filter (·.toNat < next) = word := by
        refine List.filter_eq_self.mpr fun char member => decide_eq_true ?_
        exact Nat.lt_of_not_le fun above => List.not_mem_nil (complete char member above)
      rcases leads.reads with ⟨numbers, written, inDigits, reads⟩
      have read := reads []
      rw [List.append_nil, all, readAll] at read
      exact ⟨numbers, written, inDigits, read⟩
  | cons code codes induction =>
      rcases List.pairwise_cons.mp ascending with ⟨least, ascending⟩
      have reached : next ≤ code := ahead code List.mem_cons_self
      have between : ∀ char ∈ word, char.toNat < code → char.toNat < next := by
        intro char member below
        refine Nat.lt_of_not_le fun above => ?_
        rcases List.mem_cons.mp (complete char member above) with equal | later
        · omega
        · exact absurd (least _ later) (Nat.not_lt_of_lt below)
      have moved := leads.move reached between
      rcases Leads.passAll [] moved with ⟨last, index, passed⟩
      refine induction passed.finish ascending least fun char member above => ?_
      rcases List.mem_cons.mp (complete char member (by omega)) with equal | later
      · omega
      · exact later

end Passing

/-! ## Spelled words -/

/-- The ASCII characters of a word, with a hyphen after them if there are any. -/
def basicPart (word : List Char) : List Char :=
  if (word.filter isAscii).isEmpty then [] else word.filter isAscii ++ ['-']

theorem encode_eq (word : List Char) :
    ∃ numbers, encode word = basicPart word ++ numbers ∧ (∀ letter ∈ numbers, letter ∈ digits) ∧
      readAll (word.filter isAscii) 0x80 0 72 numbers = some word := by
  have leads : Leads (basicPart word) (word.filter isAscii) (word.filter (·.toNat < 0x80)) 0x80 0
      0x80 0 ⟨basicPart word, 0, 72, (word.filter isAscii).length⟩ := by
    constructor
    case counted => rfl
    case first => exact ⟨fun _ => rfl, fun _ => rfl⟩
    case reads => exact ⟨[], (List.append_nil _).symm, nofun, fun _ => rfl⟩
    case leads => rw [Nat.sub_self, Nat.zero_mul]
    all_goals exact Nat.le_refl _
  have codes (code : Nat) : code ∈ Ascending.keys (Ascending.ofList
      ((word.filter (fun char => !isAscii char)).map fun char => (char.toNat, ()))) ↔
        ∃ char ∈ word, 0x80 ≤ char.toNat ∧ char.toNat = code := by
    rw [Ascending.mem_keys_ofList]
    simp [Ascending.keys, isAscii, and_assoc]
  refine insertAll_reads leads (Ascending.isAscending_ofList _) ?_ ?_
  · intro code member
    rcases (codes code).mp member with ⟨char, _, above, rfl⟩
    exact above
  · exact fun char member above => (codes _).mpr ⟨char, member, above, rfl⟩

theorem mem_encode {word : List Char} {letter : Char} (member : letter ∈ encode word) :
    letter ∈ word ∧ isAscii letter ∨ letter ∈ '-' :: digits := by
  rcases encode_eq word with ⟨numbers, written, inDigits, _⟩
  rw [written, basicPart] at member
  rcases List.mem_append.mp member with member | member
  · split at member
    · cases member
    · rcases List.mem_append.mp member with member | member
      · exact .inl (List.mem_filter.mp member)
      · exact .inr (List.mem_cons.mpr (.inl (List.mem_singleton.mp member)))
  · exact .inr (List.mem_cons_of_mem _ (inDigits letter member))

theorem decode_encode (word : List Char) : decode (encode word) = some word := by
  rcases encode_eq word with ⟨numbers, written, inDigits, read⟩
  have hyphenless : ∀ letter ∈ numbers.reverse, decide (letter ≠ '-') = true := by
    have all : ∀ letter ∈ digits, decide (letter ≠ '-') = true :=
      Text.forall_mem_of_all (by decide)
    exact fun letter member => all letter (inDigits letter (List.mem_reverse.mp member))
  have split : (encode word).reverse.takeWhile (· ≠ '-') = numbers.reverse ∧
      ((encode word).reverse.drop (numbers.reverse.length + 1)).reverse = word.filter isAscii := by
    rw [written, basicPart, List.reverse_append]
    split
    · next empty =>
      rw [List.takeWhile_append_of_pos hyphenless, List.isEmpty_iff.mp empty, List.drop_append]
      simp
    · rw [List.takeWhile_append_of_pos hyphenless, List.reverse_append, List.drop_append]
      simp
  have ascii : (word.filter isAscii).all isAscii = true :=
    List.all_eq_true.mpr fun _ member => (List.mem_filter.mp member).2
  rw [decode, split.1, split.2, ascii, List.reverse_reverse]
  exact read

end MarkupExport.Url.Punycode
