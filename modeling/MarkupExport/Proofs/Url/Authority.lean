import MarkupExport.Proofs.Url.Ends
import MarkupExport.Proofs.Url.Host

/-!
Authorities are read back from their texts. The user information of an authority ends at its last
`@`, the host at a colon outside square brackets, the port where its digits end; none of these parts
is written with a character at which it would end before.
-/

namespace MarkupExport.Url

section Characters

variable {kind : SchemeKind} {char : Char}

theorem isSlash_iff : kind.isSlash char = true ↔ char = '/' ∨ char = '\\' ∧ kind ≠ .other := by
  simp [SchemeKind.isSlash]

theorem isSlash_special (other : char ≠ '/') (unescaped : char ≠ '\\') :
    SchemeKind.special.isSlash char = false := by
  rw [Bool.eq_false_iff, Ne, isSlash_iff]
  rintro (slash | ⟨backslash, _⟩)
  · exact other slash
  · exact unescaped backslash

theorem endsAuthority_iff : endsAuthority kind char = true ↔
    (char = '/' ∨ char = '\\' ∧ kind ≠ .other) ∨ char = '?' ∨ char = '#' := by
  rw [endsAuthority, Bool.or_eq_true, Bool.or_eq_true, isSlash_iff, decide_eq_true_eq,
    decide_eq_true_eq, or_assoc]

/-- No authority ends at a character that is none of these. -/
theorem endsAuthority_of_not_mem (inside : char ∉ ['/', '\\', '?', '#']) :
    endsAuthority kind char = false := by
  simp only [List.mem_cons, List.not_mem_nil, or_false, not_or] at inside
  rw [Bool.eq_false_iff, Ne, endsAuthority_iff]
  rintro ((slash | ⟨backslash, _⟩) | question | hash)
  · exact inside.1 slash
  · exact inside.2.1 backslash
  · exact inside.2.2.1 question
  · exact inside.2.2.2 hash

end Characters

/-! ## User information -/

section UserInfo

variable {kind : SchemeKind}

/-- A character of a user name or password as it is written, or the colon between these. -/
def IsInfoChar (char : Char) : Prop :=
  Text.Percent.Keeps userInfoSet char ∨ char = ':'

/-- Nothing, or what is written as itself with an `@` after it. -/
def IsUserInfo (info : List Char) : Prop :=
  info = [] ∨ ∃ text, info = text ++ ['@'] ∧ text ≠ [] ∧ (∀ char ∈ text, IsInfoChar char) ∧
    userInfo text = text ++ ['@']

theorem IsInfoChar.plain {char : Char} (isInfo : IsInfoChar char) :
    char ∉ ['/', '\\', '?', '#', '@'] := by
  rcases isInfo with keeps | rfl
  · have free := (Text.Percent.keeps_controlsAnd_iff.mp keeps).2.2
    simp only [List.mem_cons, List.not_mem_nil, or_false, not_or] at free ⊢
    simp [free]
  · decide

theorem IsInfoChar.isVisible {char : Char} (isInfo : IsInfoChar char) : IsVisible char := by
  rcases isInfo with keeps | rfl
  · exact isVisible_of_keeps (by decide) keeps
  · decide

theorem keepsMarks_userInfoSet : userInfoSet.KeepsMarks := by
  decide

theorem isInfoChar_encode (written : List Char) :
    ∀ char ∈ Text.Percent.encode userInfoSet written, IsInfoChar char ∧ char ≠ ':' := by
  intro char member
  have keeps := Text.Percent.keeps_of_mem_encode keepsMarks_userInfoSet member
  refine ⟨.inl keeps, ?_⟩
  rintro rfl
  exact absurd keeps (by decide)

/-- A user name alone. -/
theorem isUserInfo_name {name : List Char} (some : Text.Percent.encode userInfoSet name ≠ []) :
    IsUserInfo (Text.Percent.encode userInfoSet name ++ ['@']) := by
  have plain := isInfoChar_encode name
  refine .inr ⟨_, rfl, some, fun char member => (plain char member).1, ?_⟩
  have span : (Text.Percent.encode userInfoSet name).span (· ≠ ':') =
      (Text.Percent.encode userInfoSet name, []) :=
    span_all fun char member => decide_eq_true (plain char member).2
  rw [userInfo, span]
  dsimp only
  rw [Text.Percent.encode_encode keepsMarks_userInfoSet, if_neg some]

theorem isUserInfo_password (name : List Char) {password : List Char} (some : password ≠ []) :
    IsUserInfo (Text.Percent.encode userInfoSet name ++
      ':' :: Text.Percent.encode userInfoSet password ++ ['@']) := by
  have plain := isInfoChar_encode name
  have nonempty : Text.Percent.encode userInfoSet name ++
      ':' :: Text.Percent.encode userInfoSet password ≠ [] :=
    List.append_ne_nil_of_right_ne_nil _ (List.cons_ne_nil _ _)
  refine .inr ⟨_, rfl, nonempty, fun char member => ?_, ?_⟩
  · rcases List.mem_append.mp member with inName | member
    · exact (plain char inName).1
    · rcases List.mem_cons.mp member with colon | inPassword
      · exact .inr colon
      · exact (isInfoChar_encode password char inPassword).1
  · have span : (Text.Percent.encode userInfoSet name ++
          ':' :: Text.Percent.encode userInfoSet password).span (· ≠ ':') =
        (Text.Percent.encode userInfoSet name,
          ':' :: Text.Percent.encode userInfoSet password) :=
      span_append (fun char member => decide_eq_true (plain char member).2) (by simp)
    rcases List.exists_cons_of_ne_nil (mt Text.Percent.encode_eq_nil_iff.mp some) with
      ⟨first, others, encoded⟩
    have again := Text.Percent.encode_encode keepsMarks_userInfoSet password
    rw [userInfo, span]
    rw [encoded] at again nonempty ⊢
    simp only [Text.Percent.encode_encode keepsMarks_userInfoSet, again]
    exact if_neg nonempty

theorem isUserInfo_userInfo (written : List Char) : IsUserInfo (userInfo written) := by
  have alone (name : List Char) : IsUserInfo (if Text.Percent.encode userInfoSet name = [] then []
      else Text.Percent.encode userInfoSet name ++ ['@']) := by
    split
    · exact .inl rfl
    · next some => exact isUserInfo_name some
  rw [userInfo, List.span_eq_takeWhile_dropWhile]
  cases parts : written.dropWhile (· ≠ ':') with
  | nil => exact alone _
  | cons colon password =>
      cases password with
      | nil => exact alone _
      | cons first others =>
          have isColon : colon = ':' := by
            have stops := List.head?_dropWhile_not (· ≠ ':') written
            rw [parts] at stops
            simpa using stops
          dsimp only
          rw [isColon, if_neg (List.append_ne_nil_of_right_ne_nil _ (List.cons_ne_nil _ _))]
          exact isUserInfo_password _ (List.cons_ne_nil _ _)

theorem readUserInfo_ok {chars rest : List Char} {info : List Char}
    (read : readUserInfo kind chars = .ok (info, rest)) : IsUserInfo info ∧ rest <:+ chars := by
  rw [readUserInfo, List.span_eq_takeWhile_dropWhile] at read
  dsimp only at read
  split at read
  · split at read
    · cases read
    · cases read
      refine ⟨isUserInfo_userInfo _, ?_⟩
      generalize equal : chars.takeWhile (fun char => !endsAuthority kind char) = authority
      have host : (authority.reverse.takeWhile (· ≠ '@')).reverse <:+ authority := by
        rw [← List.reverse_prefix, List.reverse_reverse]
        exact List.takeWhile_prefix _
      rcases host with ⟨written, split⟩
      refine ⟨written, ?_⟩
      rw [← List.append_assoc, split, ← equal, List.takeWhile_append_dropWhile]
  · cases read
    exact ⟨.inl rfl, List.suffix_refl _⟩

theorem readUserInfo_again {info core rest : List Char} (isInfo : IsUserInfo info)
    (inside : ∀ char ∈ core, char ∉ ['/', '\\', '?', '#', '@'])
    (ends : ∀ char ∈ rest.head?, endsAuthority kind char = true) :
    readUserInfo kind (info ++ core ++ rest) = .ok (info, core ++ rest) := by
  have continues {char : Char} (plain : char ∉ ['/', '\\', '?', '#', '@']) :
      (!endsAuthority kind char) = true := by
    rw [Bool.not_eq_true', endsAuthority_of_not_mem]
    exact fun mark => plain (List.mem_append_left ['@'] mark)
  have stops : ∀ char ∈ rest.head?, (!endsAuthority kind char) = false := by simpa using ends
  have noAt : '@' ∉ core := fun member => inside '@' member (by decide)
  rcases isInfo with rfl | ⟨text, rfl, some, chars, again⟩
  · rw [List.nil_append, readUserInfo, span_append (fun char member => continues
      (inside char member)) stops]
    dsimp only
    rw [List.contains_eq_mem, decide_eq_false noAt, if_neg Bool.false_ne_true]
  · have span : (text ++ ['@'] ++ core ++ rest).span (fun char => !endsAuthority kind char) =
        (text ++ ['@'] ++ core, rest) := by
      refine span_append (fun char member => ?_) stops
      rcases List.mem_append.mp member with member | member
      · rcases List.mem_append.mp member with member | member
        · exact continues (chars char member).plain
        · rw [List.mem_singleton.mp member, Bool.not_eq_true', endsAuthority_of_not_mem (by decide)]
      · exact continues (inside char member)
    have host : ((text ++ ['@'] ++ core).reverse.takeWhile (· ≠ '@')).reverse = core := by
      have pass : ∀ char ∈ core.reverse, decide (char ≠ '@') = true := by
        intro char member
        exact decide_eq_true fun equal => noAt (equal ▸ List.mem_reverse.mp member)
      rw [List.reverse_append, List.takeWhile_append_of_pos pass]
      simp
    have written : (text ++ ['@'] ++ core).take ((text ++ ['@'] ++ core).length - core.length - 1) =
        text := by
      have length : (text ++ ['@'] ++ core).length - core.length - 1 = text.length := by
        simp only [List.length_append, List.length_singleton]
        omega
      rw [length, List.append_assoc, List.take_left]
    rw [readUserInfo, span]
    dsimp only
    rw [host, written, if_pos (by simp), if_neg fun none => some none.1, again]

end UserInfo

/-! ## Hosts and ports -/

theorem Host.IsText.plain {text : List Char} (isText : Host.IsText text) :
    ∀ char ∈ text, char ∉ ['/', '\\', '?', '#', '@'] := by
  intro char member mark
  have marks : ∀ mark ∈ ['/', '\\', '?', '#', '@'],
      ¬ Host.IsNameChar mark ∧ mark ∉ ['[', ':', ']'] := Text.forall_mem_of_all (by decide)
  rcases isText.char member with name | bracket
  · exact (marks char mark).1 name
  · exact (marks char mark).2 bracket

theorem Host.IsText.isVisible {text : List Char} (isText : Host.IsText text) :
    ∀ char ∈ text, IsVisible char := by
  intro char member
  rcases isText.char member with ⟨low, high, free⟩ | bracket
  · exact isVisible_of_keeps (show ' ' ∈ Host.reserved by decide)
      (Text.Percent.keeps_controlsAnd_iff.mpr ⟨low, high, free⟩)
  · have brackets : ∀ mark ∈ ['[', ':', ']'], IsVisible mark :=
      Text.forall_mem_of_all (by decide)
    exact brackets char bracket

theorem spanHost_append {kind : SchemeKind} {inBrackets : Bool} {front rest : List Char}
    (inside : ∀ char ∈ front, (char = ':' → inBrackets = true) ∧ char ∉ ['[', ']'] ∧
      endsAuthority kind char = false) :
    spanHost kind inBrackets (front ++ rest) =
      (front ++ (spanHost kind inBrackets rest).1, (spanHost kind inBrackets rest).2) := by
  induction front with
  | nil => rfl
  | cons char front induction =>
      rcases List.forall_mem_cons.mp inside with ⟨⟨colon, bracket, continues⟩, others⟩
      simp only [List.mem_cons, List.not_mem_nil, or_false, not_or] at bracket
      have goesOn : ¬ ((char = ':' && !inBrackets) || endsAuthority kind char) = true := by
        rw [continues, Bool.or_false, Bool.and_eq_true, decide_eq_true_eq, Bool.not_eq_true']
        rintro ⟨isColon, outside⟩
        rw [colon isColon] at outside
        cases outside
      rw [List.cons_append, spanHost, if_neg goesOn]
      dsimp only
      rw [if_neg bracket.1, if_neg bracket.2, induction others]
      rfl

theorem spanHost_end {kind : SchemeKind} {rest : List Char}
    (ends : ∀ char ∈ rest.head?, char = ':' ∨ endsAuthority kind char = true) :
    spanHost kind false rest = ([], rest) := by
  cases rest with
  | nil => rfl
  | cons char rest =>
      have stops : ((char = ':' && !false) || endsAuthority kind char) = true := by
        simpa using ends char rfl
      rw [spanHost, if_pos stops]

/-- A host ends at a colon only outside the brackets of its own text. -/
theorem spanHost_again {kind : SchemeKind} {text rest : List Char} (isText : Host.IsText text)
    (ends : ∀ char ∈ rest.head?, char = ':' ∨ endsAuthority kind char = true) :
    spanHost kind false (text ++ rest) = (text, rest) := by
  have continues (char : Char) (name : Host.IsNameChar char) :
      char ≠ ':' ∧ char ∉ ['[', ']'] ∧ endsAuthority kind char = false := by
    have reserved : ∀ mark ∈ [':', '[', ']', '/', '\\', '?', '#'], ¬ Host.IsNameChar mark :=
      Text.forall_mem_of_all (by decide)
    refine ⟨?_, fun bracket => ?_, endsAuthority_of_not_mem fun mark => ?_⟩
    · rintro rfl
      exact reserved ':' (by decide) name
    · exact reserved char (List.mem_append_left _ (List.mem_cons_of_mem ':' bracket)) name
    · exact reserved char (List.mem_append_right [':', '[', ']'] mark) name
  cases isText with
  | name chars =>
      rw [spanHost_append, spanHost_end ends, List.append_nil]
      intro char member
      rcases continues char (chars char member) with ⟨notColon, others⟩
      exact ⟨fun colon => absurd colon notColon, others⟩
  | @bracketed inner chars =>
      have inside : ∀ char ∈ inner, (char = ':' → true = true) ∧ char ∉ ['[', ']'] ∧
          endsAuthority kind char = false := by
        intro char member
        rcases chars char member with name | rfl
        · exact ⟨fun _ => rfl, (continues char name).2⟩
        · exact ⟨fun _ => rfl, by decide, endsAuthority_of_not_mem (by decide)⟩
      have opens : endsAuthority kind '[' = false := endsAuthority_of_not_mem (by decide)
      have closes : endsAuthority kind ']' = false := endsAuthority_of_not_mem (by decide)
      have closed : spanHost kind true (']' :: rest) = ([']'], rest) := by
        rw [spanHost, closes, if_neg (by decide)]
        dsimp only
        rw [if_neg (by decide), if_pos rfl, spanHost_end ends]
      have opened : spanHost kind true (inner ++ ']' :: rest) = (inner ++ [']'], rest) := by
        rw [spanHost_append inside, closed]
      rw [List.append_assoc, List.cons_append, List.singleton_append, spanHost, opens,
        if_neg (by decide)]
      dsimp only
      rw [if_pos rfl, opened]
      rfl

theorem spanHost_suffix (kind : SchemeKind) (inBrackets : Bool) (chars : List Char) :
    (spanHost kind inBrackets chars).2 <:+ chars := by
  induction chars generalizing inBrackets with
  | nil => exact List.suffix_refl _
  | cons char rest induction =>
      rw [spanHost]
      split
      · exact List.suffix_refl _
      · exact (induction _).trans (List.suffix_cons char rest)

def readHost (kind : SchemeKind) (written : List Char) : Except UrlError UrlHost :=
  if kind = .special then Host.ofDomain written else Host.ofText written

/-- The port that follows a host, if a colon does. -/
def portAfter (scheme chars : List Char) : Except UrlError (Option Nat × List Char) :=
  match chars with
  | ':' :: rest => readPort scheme rest
  | rest => .ok (none, rest)

/-- The authority in which this host has been read. -/
def authorityOf (scheme info afterHost : List Char) (host : UrlHost) :
    Except UrlError (UrlAuthority × List Char) := do
  if host = .empty ∧ afterHost.head? = some ':' then throw .emptyHost
  if host = .empty ∧ info ≠ [] then throw .emptyHost
  match afterHost with
  | ':' :: rest =>
    let (port, rest) ← readPort scheme rest
    return ({ userInfo := info, host, port }, rest)
  | rest => return ({ userInfo := info, host }, rest)

theorem readAuthority_eq {scheme chars info afterInfo written afterHost : List Char}
    (readInfo : readUserInfo (.ofScheme scheme) chars = .ok (info, afterInfo))
    (span : spanHost (.ofScheme scheme) false afterInfo = (written, afterHost)) :
    readAuthority scheme chars =
      if SchemeKind.ofScheme scheme = .special ∧ written = [] then .error .emptyHost
      else (readHost (.ofScheme scheme) written).bind (authorityOf scheme info afterHost) := by
  rw [readAuthority, readInfo]
  dsimp only [bind, Except.bind]
  rw [span]
  dsimp only
  by_cases missing : SchemeKind.ofScheme scheme = .special ∧ written = []
  · rw [if_pos missing, if_pos missing]
    rfl
  rw [if_neg missing, if_neg missing, readHost]
  split
  · cases Host.ofDomain written <;> rfl
  · cases Host.ofText written <;> rfl

theorem authorityOf_eq_ok_iff {scheme info afterHost rest : List Char} {host : UrlHost}
    {authority : UrlAuthority} :
    authorityOf scheme info afterHost host = .ok (authority, rest) ↔
      (host = .empty → afterHost.head? ≠ some ':' ∧ info = []) ∧
        ∃ port, portAfter scheme afterHost = .ok (port, rest) ∧
          authority = { userInfo := info, host, port } := by
  rw [authorityOf.eq_def]
  dsimp only [bind, Except.bind]
  by_cases colon : host = .empty ∧ afterHost.head? = some ':'
  · rw [if_pos colon]
    refine ⟨nofun, fun both => ?_⟩
    exact absurd colon.2 (both.1 colon.1).1
  rw [if_neg colon]
  by_cases named : host = .empty ∧ info ≠ []
  · rw [if_pos named]
    refine ⟨nofun, fun both => ?_⟩
    exact absurd (both.1 named.1).2 named.2
  rw [if_neg named]
  have alone : host = .empty → afterHost.head? ≠ some ':' ∧ info = [] :=
    fun empty => ⟨fun found => colon ⟨empty, found⟩,
      Decidable.byContradiction fun named' => named ⟨empty, named'⟩⟩
  rw [and_iff_right alone, portAfter.eq_def]
  split
  · next after =>
    cases readPort scheme after with
    | error => exact ⟨nofun, nofun⟩
    | ok read =>
      rcases read with ⟨port, left⟩
      constructor
      · rintro ⟨⟩
        exact ⟨port, rfl, rfl⟩
      · rintro ⟨_, ⟨⟩, rfl⟩
        rfl
  · constructor
    · rintro ⟨⟩
      exact ⟨none, rfl, rfl⟩
    · rintro ⟨_, ⟨⟩, rfl⟩
      rfl

theorem readPort_ok {scheme chars rest : List Char} {port : Option Nat}
    (read : readPort scheme chars = .ok (port, rest)) :
    (∀ value, port = some value →
      value ≤ 0xffff ∧ SchemeKind.defaultPort? scheme ≠ some value) ∧ rest <:+ chars := by
  rw [readPort, List.span_eq_takeWhile_dropWhile] at read
  dsimp only at read
  split at read
  · cases read
  next fits =>
  rw [not_or, Nat.not_lt] at fits
  split at read
  · cases read
    exact ⟨nofun, List.dropWhile_suffix _⟩
  · next unusual =>
    cases read
    refine ⟨?_, List.dropWhile_suffix _⟩
    rintro _ ⟨⟩
    exact ⟨fits.1, fun default => unusual (.inr default)⟩

theorem readPort_again {scheme rest : List Char} {port : Nat} (small : port ≤ 0xffff)
    (unusual : SchemeKind.defaultPort? scheme ≠ some port)
    (follows : ∀ char ∈ rest.head?, char ∈ ['/', '?', '#']) :
    readPort scheme (Nat.toDigits 10 port ++ rest) = .ok (some port, rest) := by
  have marks : ∀ mark ∈ ['/', '?', '#'], mark.isDigit = false ∧ followsPort mark = true :=
    Text.forall_mem_of_all (by decide)
  have span : (Nat.toDigits 10 port ++ rest).span Char.isDigit = (Nat.toDigits 10 port, rest) :=
    span_append (fun _ member => Nat.isDigit_of_mem_toDigits (by decide) (by decide) member)
      fun char head => (marks char (follows char head)).1
  have value : Nat.ofDigitChars 10 (Nat.toDigits 10 port) 0 = port := Nat.ofDigitChars_ten_toDigits
  have allowed : rest.head?.all followsPort = true := by
    rw [Option.all_eq_true]
    exact fun char head => (marks char (follows char head)).2
  rw [readPort, span]
  dsimp only
  rw [value, allowed, if_neg (by simp [small]), if_neg (by simp [unusual])]

theorem portAfter_ok {scheme chars rest : List Char} {port : Option Nat}
    (read : portAfter scheme chars = .ok (port, rest)) :
    (∀ value, port = some value →
      value ≤ 0xffff ∧ SchemeKind.defaultPort? scheme ≠ some value ∧ chars.head? = some ':') ∧
        rest <:+ chars := by
  rw [portAfter.eq_def] at read
  split at read
  · rcases readPort_ok read with ⟨bounds, inside⟩
    exact ⟨fun value found => ⟨(bounds value found).1, (bounds value found).2, rfl⟩,
      inside.trans (List.suffix_cons ':' _)⟩
  · cases read
    exact ⟨nofun, List.suffix_refl _⟩

/-! ## Authorities -/

def portText : Option Nat → List Char
  | none => []
  | some port => ':' :: Nat.toDigits 10 port

theorem text_authority (info : List Char) (host : UrlHost) (port : Option Nat) :
    UrlAuthority.text { userInfo := info, host, port } =
      info ++ Host.text host ++ portText port := by
  cases port <;> rfl

theorem portText_plain {port : Option Nat} {char : Char} (member : char ∈ portText port) :
    IsVisible char ∧ char ∉ ['/', '\\', '?', '#', '@'] := by
  cases port with
  | none => cases member
  | some port =>
      rcases List.mem_cons.mp member with rfl | inDigits
      · decide
      · have isDigit := Nat.isDigit_of_mem_toDigits (by decide) (by decide) inDigits
        refine ⟨?_, fun mark => ?_⟩
        · rw [Text.isDigit_iff_toNat] at isDigit
          rw [IsVisible]
          omega
        · have marks : ∀ mark ∈ ['/', '\\', '?', '#', '@'], mark.isDigit = false :=
            Text.forall_mem_of_all (by decide)
          rw [marks char mark] at isDigit
          cases isDigit

/-- An authority that is read back from its text. -/
structure IsAuthority (scheme : List Char) (authority : UrlAuthority) : Prop where
  info : IsUserInfo authority.userInfo
  host : Host.IsText (Host.text authority.host)
  again : readHost (.ofScheme scheme) (Host.text authority.host) = .ok authority.host
  named : SchemeKind.ofScheme scheme = .special → Host.text authority.host ≠ []
  alone : authority.host = .empty → authority.userInfo = [] ∧ authority.port = none
  port : ∀ port, authority.port = some port →
    port ≤ 0xffff ∧ SchemeKind.defaultPort? scheme ≠ some port

theorem IsAuthority.char {scheme : List Char} {authority : UrlAuthority} {char : Char}
    (isAuthority : IsAuthority scheme authority) (member : char ∈ authority.text) :
    IsVisible char ∧ char ∉ ['/', '\\', '?', '#'] := by
  have fewer {char : Char} (plain : char ∉ ['/', '\\', '?', '#', '@']) :
      char ∉ ['/', '\\', '?', '#'] :=
    fun mark => plain (List.mem_append_left ['@'] mark)
  rw [text_authority] at member
  rcases List.mem_append.mp member with member | inPort
  · rcases List.mem_append.mp member with inInfo | inHost
    · rcases isAuthority.info with empty | ⟨text, written, _, chars, _⟩
      · rw [empty] at inInfo
        cases inInfo
      · rw [written] at inInfo
        rcases List.mem_append.mp inInfo with inText | mark
        · exact ⟨(chars char inText).isVisible, fewer (chars char inText).plain⟩
        · rw [List.mem_singleton.mp mark]
          decide
    · exact ⟨isAuthority.host.isVisible char inHost, fewer (isAuthority.host.plain char inHost)⟩
  · exact ⟨(portText_plain inPort).1, fewer (portText_plain inPort).2⟩

theorem readAuthority_ok {scheme chars rest : List Char} {authority : UrlAuthority}
    (read : readAuthority scheme chars = .ok (authority, rest)) :
    IsAuthority scheme authority ∧ rest <:+ chars := by
  cases readInfo : readUserInfo (.ofScheme scheme) chars with
  | error error =>
      rw [readAuthority, readInfo] at read
      cases read
  | ok pair =>
      rcases pair with ⟨info, afterInfo⟩
      rcases span : spanHost (.ofScheme scheme) false afterInfo with ⟨written, afterHost⟩
      rw [readAuthority_eq readInfo span] at read
      split at read
      · cases read
      cases hosted : readHost (.ofScheme scheme) written with
      | error error =>
          rw [hosted] at read
          cases read
      | ok host =>
          rw [hosted] at read
          rcases authorityOf_eq_ok_iff.mp read with ⟨alone, port, found, rfl⟩
          rcases readUserInfo_ok readInfo with ⟨isInfo, inChars⟩
          rcases portAfter_ok found with ⟨bounds, inAfter⟩
          have inInfo : afterHost <:+ afterInfo := by
            have inside := spanHost_suffix (.ofScheme scheme) false afterInfo
            rwa [span] at inside
          have hostFacts : Host.IsText (Host.text host) ∧
              readHost (.ofScheme scheme) (Host.text host) = .ok host ∧
                (SchemeKind.ofScheme scheme = .special → Host.text host ≠ []) := by
            rw [readHost] at hosted ⊢
            split at hosted
            · next special =>
              rcases Host.ofDomain_text hosted with ⟨isText, named, again⟩
              exact ⟨isText, by rw [if_pos special, again], fun _ => named⟩
            · next other =>
              rcases Host.ofText_text hosted with ⟨isText, again⟩
              exact ⟨isText, by rw [if_neg other, again], fun special => absurd special other⟩
          rcases hostFacts with ⟨isText, again, named⟩
          refine ⟨⟨isInfo, isText, again, named, fun empty => ?_, fun port found => ?_⟩, ?_⟩
          · refine ⟨(alone empty).2, ?_⟩
            cases port with
            | none => rfl
            | some value => exact absurd (bounds value rfl).2.2 (alone empty).1
          · exact ⟨(bounds port found).1, (bounds port found).2.1⟩
          · exact inAfter.trans (inInfo.trans inChars)

theorem readAuthority_again {scheme rest : List Char} {authority : UrlAuthority}
    (isAuthority : IsAuthority scheme authority)
    (follows : ∀ char ∈ rest.head?, char ∈ ['/', '?', '#']) :
    readAuthority scheme (authority.text ++ rest) = .ok (authority, rest) := by
  rcases authority with ⟨info, host, port⟩
  rcases isAuthority with ⟨isInfo, isText, again, named, alone, bounds⟩
  dsimp only at isInfo isText again named alone bounds
  have marks : ∀ mark ∈ ['/', '?', '#'], mark ≠ ':' ∧
      endsAuthority (.ofScheme scheme) mark = true := by
    simp [endsAuthority, SchemeKind.isSlash]
  have afterHost : ∀ char ∈ (portText port ++ rest).head?,
      char = ':' ∨ endsAuthority (.ofScheme scheme) char = true := by
    cases port with
    | none => exact fun char head => .inr (marks char (follows char head)).2
    | some port =>
        rintro _ ⟨⟩
        exact .inl rfl
  have plain : ∀ char ∈ Host.text host ++ portText port, char ∉ ['/', '\\', '?', '#', '@'] :=
    List.forall_mem_append.mpr ⟨isText.plain, fun char member => (portText_plain member).2⟩
  have readInfo := readUserInfo_again isInfo plain
    fun char head => (marks char (follows char head)).2
  rw [List.append_assoc (Host.text host)] at readInfo
  have found : portAfter scheme (portText port ++ rest) = .ok (port, rest) := by
    cases port with
    | none =>
        have noColon : ∀ after, rest ≠ ':' :: after := by
          rintro after rfl
          exact (marks ':' (follows ':' rfl)).1 rfl
        rw [portAfter.eq_def]
        split
        · next after equal => exact absurd equal (noColon after)
        · rfl
    | some port => exact readPort_again (bounds port rfl).1 (bounds port rfl).2 follows
  have written : UrlAuthority.text ⟨info, host, port⟩ ++ rest =
      info ++ (Host.text host ++ portText port) ++ rest := by
    rw [text_authority, List.append_assoc info]
  rw [written, readAuthority_eq readInfo (spanHost_again isText afterHost),
    if_neg fun missing => named missing.1 missing.2, again]
  refine authorityOf_eq_ok_iff.mpr ⟨fun empty => ⟨?_, (alone empty).1⟩, port, found, rfl⟩
  have portless := (alone empty).2
  subst portless
  exact fun head => (marks ':' (follows ':' head)).1 rfl

end MarkupExport.Url
