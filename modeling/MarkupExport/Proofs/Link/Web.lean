import MarkupExport.Profile.Bbcode
import MarkupExport.Proofs.Export.Requirements
import MarkupExport.Proofs.Link.Settles

/-!
Web links. Each part of a URL is encoded with a set of its own, and a target that does not parse
with another one, but all of these sets have the blanks, the controls and the angle brackets in
common. So whichever of them encodes a web link, none of these characters is left in it.
-/

namespace MarkupExport

open Url

/-- A printed ASCII character other than an angle bracket. -/
def IsLinkChar (char : Char) : Prop :=
  0x20 < char.toNat ∧ char.toNat < 0x7f ∧ char ≠ '<' ∧ char ≠ '>'

instance (char : Char) : Decidable (IsLinkChar char) :=
  inferInstanceAs (Decidable (_ ∧ _ ∧ _ ∧ _))

/-- Every set that holds these three marks leaves only such characters. -/
theorem isLinkChar_of_keeps {members : List Char} {char : Char}
    (marks : ' ' ∈ members ∧ '<' ∈ members ∧ '>' ∈ members)
    (keeps : Text.Percent.Keeps (Text.Percent.controlsAnd members) char) : IsLinkChar char := by
  rcases Text.Percent.keeps_controlsAnd_iff.mp keeps with ⟨_, high, absent⟩
  rcases marks with ⟨space, less, greater⟩
  have visible : IsVisible char := isVisible_of_keeps space keeps
  exact ⟨visible, high, fun equal => absent (equal ▸ less), fun equal => absent (equal ▸ greater)⟩

theorem isLinkChar_of_isSchemeChar {char : Char} (inScheme : isSchemeChar char = true) :
    IsLinkChar char :=
  isLinkChar_of_keeps (by decide) (Link.keeps_of_isSchemeChar inScheme)

namespace Url

/-! ## The parts of a URL -/

section Parts

variable {scheme : List Char} {kind : SchemeKind} {char : Char}

theorem IsUserInfo.isLinkChar {info : List Char} (isInfo : IsUserInfo info) (member : char ∈ info) :
    IsLinkChar char := by
  rcases isInfo with rfl | ⟨text, rfl, _, inText, _⟩
  · cases member
  rcases List.mem_append.mp member with member | at'
  · rcases inText char member with keeps | rfl
    · exact isLinkChar_of_keeps (by decide) keeps
    · decide
  · rw [List.mem_singleton.mp at']
    decide

theorem Host.IsText.isLinkChar {text : List Char} (isText : Host.IsText text)
    (member : char ∈ text) : IsLinkChar char := by
  rcases isText.char member with name | bracket
  · have marks : ' ' ∈ Host.reserved ∧ '<' ∈ Host.reserved ∧ '>' ∈ Host.reserved := by decide
    exact isLinkChar_of_keeps marks (Text.Percent.keeps_controlsAnd_iff.mpr name)
  · have brackets : ∀ mark ∈ ['[', ':', ']'], IsLinkChar mark :=
      Text.forall_mem_of_all (by decide)
    exact brackets char bracket

theorem isLinkChar_portText {port : Option Nat} (member : char ∈ portText port) :
    IsLinkChar char := by
  cases port with
  | none => cases member
  | some port =>
      rcases List.mem_cons.mp member with rfl | inDigits
      · decide
      · have digit := Nat.isDigit_of_mem_toDigits (by decide) (by decide) inDigits
        apply isLinkChar_of_isSchemeChar
        simp [isSchemeChar, Text.isAlphanum_iff, digit]

theorem IsAuthority.isLinkChar {authority : UrlAuthority}
    (isAuthority : IsAuthority scheme authority) (member : char ∈ authority.text) :
    IsLinkChar char := by
  rw [text_authority, List.mem_append, List.mem_append] at member
  rcases member with (inInfo | inHost) | inPort
  · exact isAuthority.info.isLinkChar inInfo
  · exact isAuthority.host.isLinkChar inHost
  · exact isLinkChar_portText inPort

theorem isLinkChar_segments {segments : List Path.Segment}
    (clean : ∀ segment ∈ segments, Path.IsClean kind segment) :
    ∀ char ∈ segments.flatMap ('/' :: ·), IsLinkChar char := by
  intro char member
  rcases List.mem_flatMap.mp member with ⟨segment, inPath, inSegment⟩
  rcases List.mem_cons.mp inSegment with rfl | inside
  · decide
  · exact isLinkChar_of_keeps (by decide) (clean segment inPath char inside).1

theorem isLinkChar_of_keeps_querySet (keeps : Text.Percent.Keeps (querySet kind) char) :
    IsLinkChar char := by
  rw [querySet] at keeps
  split at keeps
  · exact isLinkChar_of_keeps (by decide) keeps
  · exact isLinkChar_of_keeps (by decide) keeps

theorem IsTail.isLinkChar {query fragment : Option (List Char)}
    (isTail : IsTail kind query fragment) : ∀ char ∈ tailText query fragment, IsLinkChar char := by
  refine List.forall_mem_append.mpr ⟨?_, ?_⟩
  · cases query with
    | none => exact nofun
    | some text =>
        refine List.forall_mem_cons.mpr ⟨by decide, fun char member => ?_⟩
        exact isLinkChar_of_keeps_querySet (isTail.query text rfl char member)
  · cases fragment with
    | none => exact nofun
    | some text =>
        refine List.forall_mem_cons.mpr ⟨by decide, fun char member => ?_⟩
        exact isLinkChar_of_keeps (by decide) (isTail.fragment text rfl char member)

theorem HasAuthority.isLinkChar {url : Url} (hasAuthority : HasAuthority scheme url) :
    ∀ char ∈ url.afterScheme, IsLinkChar char := by
  rcases hasAuthority with ⟨isAuthority, plain, rooted, isTail⟩
  rw [afterScheme_eq]
  refine List.forall_mem_append.mpr ⟨?_, List.forall_mem_append.mpr ⟨?_, isTail.isLinkChar⟩⟩
  · exact List.forall_mem_cons.mpr ⟨by decide, List.forall_mem_cons.mpr ⟨by decide,
      fun char member => isAuthority.isLinkChar member⟩⟩
  · exact isLinkChar_segments fun segment member => (plain segment member).1

end Parts

/-! ## Web schemes -/

/-- The schemes of the web. -/
inductive IsWeb : List Char → Prop
  | http : IsWeb ['h', 't', 't', 'p']
  | https : IsWeb ['h', 't', 't', 'p', 's']

section Web

variable {scheme rest : List Char}

theorem IsWeb.isScheme (web : IsWeb scheme) : IsScheme scheme := by
  cases web with
  | http => exact ⟨'h', "ttp".toList, rfl, by decide, Text.forall_mem_of_all (by decide)⟩
  | https => exact ⟨'h', "ttps".toList, rfl, by decide, Text.forall_mem_of_all (by decide)⟩

theorem IsWeb.toLower (web : IsWeb scheme) : scheme.map Char.toLower = scheme := by
  cases web <;> decide

theorem IsWeb.special (web : IsWeb scheme) : SchemeKind.ofScheme scheme = .special := by
  cases web <;> decide

theorem IsWeb.isVisible (web : IsWeb scheme) : ∀ char ∈ scheme ++ [':'], IsVisible char :=
  List.forall_mem_append.mpr
    ⟨fun char member => isVisible_of_isSchemeChar (web.isScheme.mem char member),
      List.forall_mem_singleton.mpr (by decide)⟩

theorem IsWeb.scheme? (web : IsWeb scheme) (rest : List Char) :
    Url.scheme? (trimmed (scheme ++ ':' :: rest)) =
      some (scheme, Text.dropRightWhile isTrimmed rest) := by
  have nonempty : scheme ++ [':'] ≠ [] := List.append_ne_nil_of_right_ne_nil _ (by decide)
  rw [← List.singleton_append, ← List.append_assoc, trimmed_append nonempty web.isVisible,
    List.append_assoc, List.singleton_append, scheme?_append web.isScheme, web.toLower]

/-- A web URL that parses has an authority, whatever follows the scheme. -/
theorem IsWeb.parse_ok {url : Url} (web : IsWeb scheme)
    (parsed : parse (scheme ++ ':' :: rest) = .ok url) : HasAuthority scheme url := by
  rw [parse, web.scheme? rest] at parsed
  dsimp only at parsed
  rw [web.special] at parsed
  refine (readFromAuthority_ok ?_ parsed).1
  rw [web.special]
  decide

end Web

end Url

/-! ## Passes -/

namespace Link

/-- This scheme and its colon, then nothing but printed ASCII characters without angle brackets. -/
def IsWebLink (scheme text : List Char) : Prop :=
  ∃ rest, text = scheme ++ ':' :: rest ∧ ∀ char ∈ rest, IsLinkChar char

theorem isWebLink_encodeOnce {scheme : List Char} (web : IsWeb scheme) (rest : List Char) :
    IsWebLink scheme (encodeOnce (scheme ++ ':' :: rest)) := by
  have encodes := encodes_encodeOnce (scheme ++ ':' :: rest)
  generalize encodeOnce (scheme ++ ':' :: rest) = once at encodes
  cases encodes with
  | @parsed url parsed =>
      have hasAuthority := web.parse_ok parsed
      have sameScheme : url.scheme = scheme := by
        cases hasAuthority
        rfl
      exact ⟨url.afterScheme, by rw [text_eq, sameScheme], hasAuthority.isLinkChar⟩
  | unparsed =>
      refine ⟨encodeUnparsed rest, encodeUnparsed_scheme web.isScheme rest, fun char member => ?_⟩
      have keeps := Text.Percent.keeps_of_mem_encode
        (show unparsedSet.KeepsMarks by decide) member
      exact isLinkChar_of_keeps (by decide) keeps
  | reference relative =>
      have named : Url.scheme? (trimmed (scheme ++ ':' :: rest)) ≠ none := by
        rw [web.scheme? rest]
        exact Option.some_ne_none _
      exact absurd (.inr named) relative

theorem isWebLink_encodeChars {scheme : List Char} (web : IsWeb scheme) (rest : List Char) :
    IsWebLink scheme (encodeChars (scheme ++ ':' :: rest)) := by
  refine settle_induct (motive := IsWebLink scheme) ?_ passes (isWebLink_encodeOnce web rest)
  rintro _ ⟨others, rfl, _⟩
  exact isWebLink_encodeOnce web others

end Link

namespace Rule

/-- A link to the web always becomes an anchor. Its URL begins with the same scheme and its colon,
and consists of printed ASCII characters other than angle brackets, whatever the path holds. -/
theorem renderLink_web (profile : Profile) (node : Node) (contents : String) {type path : String}
    (typed : node.textProperty? "type" = some type) (web : type = "http" ∨ type = "https")
    (placed : node.textProperty? "path" = some path) :
    ∃ url, url = Link.encode (type ++ ":" ++ path) ∧
      renderLink profile node contents =
        .ok (profile.links.anchor.render profile.delimiters url (linkLabel profile contents url)) ∧
      (type ++ ":").toList <+: url.toList ∧ ∀ char ∈ url.toList, IsLinkChar char := by
  have isWeb : IsWeb type.toList := by
    rcases web with rfl | rfl
    · exact .http
    · exact .https
  have written : (type ++ ":" ++ path).toList = type.toList ++ ':' :: path.toList := by simp
  have front : (type ++ ":").toList = type.toList ++ [':'] := by simp
  rcases Link.isWebLink_encodeChars isWeb path.toList with ⟨rest, encoded, inAlphabet⟩
  have url : (Link.encode (type ++ ":" ++ path)).toList = type.toList ++ ':' :: rest := by
    rw [Link.encode, String.toList_ofList, written, encoded]
  refine ⟨_, rfl, ?_, ?_, ?_⟩
  · rw [renderLink, Node.requireText_eq_ok_iff.mpr typed, Node.requireText_eq_ok_iff.mpr placed]
    exact if_pos web
  · rw [url, front]
    exact ⟨rest, by rw [List.append_assoc]; rfl⟩
  · rw [url]
    refine List.forall_mem_append.mpr ⟨fun char member => ?_,
      List.forall_mem_cons.mpr ⟨by decide, inAlphabet⟩⟩
    exact isLinkChar_of_isSchemeChar (isWeb.isScheme.mem char member)

/-- No URL has so great a port, so this target is encoded as it stands. -/
theorem renderLink_web_great_port :
    let path := "\t//a<b>@h:99999\\<c d>\u00e9\x7f"
    let node := (Node.mk .link [] []).withProperty "type" (.text "https")
      |>.withProperty "path" (.text path)
    ∃ url, url = Link.encode ("https" ++ ":" ++ path) ∧
      renderLink Profile.bbcode node "" =
        .ok (Profile.bbcode.links.anchor.render Profile.bbcode.delimiters url
          (linkLabel Profile.bbcode "" url)) ∧
      ("https" ++ ":").toList <+: url.toList ∧ ∀ char ∈ url.toList, IsLinkChar char :=
  renderLink_web Profile.bbcode _ "" rfl (.inr rfl) rfl

example : Link.encode "https:\t//a<b>@h:99999\\<c d>\u00e9\x7f" =
      "https:%09//a%3Cb%3E@h:99999%5C%3Cc%20d%3E%C3%A9%7F" ∧
    Link.encode "https:\t//a<b>@h:81\\<c d>\u00e9\x7f" =
      "https://a%3Cb%3E@h:81/%3Cc%20d%3E%C3%A9%7F" := by
  decide +kernel

end Rule

end MarkupExport
