import MarkupExport.Url.Host
import MarkupExport.Url.Path

/-!
Reading URLs. A text is cut off at blanks and controls on both ends, tabs and line ends in it are
skipped, and what follows the scheme is read as the scheme's kind says. A reference without a
scheme is resolved against the URL of the document that holds it.
-/

namespace MarkupExport.Url

/-! ## Scheme -/

def isSchemeChar (char : Char) : Bool :=
  char.isAlphanum || char = '+' || char = '-' || char = '.'

/-- The scheme in lower case, without its first letter, and what follows the colon. -/
def schemeTail? : List Char → Option (List Char × List Char)
  | [] => none
  | char :: rest =>
    if isIgnored char then schemeTail? rest
    else if char = ':' then some ([], rest)
    else if isSchemeChar char then
      (schemeTail? rest).map fun (tail, after) => (char.toLower :: tail, after)
    else none

/-- A scheme begins with a letter and ends at a colon. -/
def scheme? (chars : List Char) : Option (List Char × List Char) :=
  match chars.dropWhile isIgnored with
  | [] => none
  | char :: rest =>
    if char.isAlpha then
      (schemeTail? rest).map fun (tail, after) => (char.toLower :: tail, after)
    else none

def trimmed (chars : List Char) : List Char :=
  Text.dropRightWhile isTrimmed (chars.dropWhile isTrimmed)

/-! ## Query and fragment -/

def readFragment (chars : List Char) : List Char :=
  Text.Percent.encode fragmentSet (withoutIgnored chars)

/-- What follows the path, which begins with its mark. -/
def readTail (kind : SchemeKind) (chars : List Char) : Option (List Char) × Option (List Char) :=
  match chars with
  | '#' :: rest => (none, some (readFragment rest))
  | '?' :: rest =>
    let (query, after) := rest.span (· ≠ '#')
    (some (Text.Percent.encode (querySet kind) (withoutIgnored query)),
      match after with
      | [] => none
      | _ :: fragment => some (readFragment fragment))
  | _ => (none, none)

/-! ## Authority

In this part the skipped characters have been removed. -/

def endsAuthority (kind : SchemeKind) (char : Char) : Bool :=
  kind.isSlash char || char = '?' || char = '#'

/-- User name, colon and password, each encoded; a colon with nothing after it is left out. -/
def userInfo (written : List Char) : List Char :=
  let (name, password) := written.span (· ≠ ':')
  let encode := Text.Percent.encode userInfoSet
  let text :=
    match password with
    | [] | [_] => encode name
    | colon :: password => encode name ++ colon :: encode password
  if text = [] then [] else text ++ ['@']

/-- The user information before the last `@` of the authority, and what follows it. -/
def readUserInfo (kind : SchemeKind) (chars : List Char) :
    Except UrlError (List Char × List Char) :=
  let (authority, after) := chars.span (fun char => !endsAuthority kind char)
  if authority.contains '@' then
    let host := (authority.reverse.takeWhile (· ≠ '@')).reverse
    let written := authority.take (authority.length - host.length - 1)
    if written = [] ∧ host = [] ∧ after ≠ [] then .error .emptyHost
    else .ok (userInfo written, host ++ after)
  else .ok ([], chars)

/-- The host ends at a colon outside square brackets, or with the authority. -/
def spanHost (kind : SchemeKind) : (inBrackets : Bool) → List Char → List Char × List Char
  | _, [] => ([], [])
  | inBrackets, char :: rest =>
    if (char = ':' && !inBrackets) || endsAuthority kind char then ([], char :: rest)
    else
      let inside := if char = '[' then true else if char = ']' then false else inBrackets
      let (host, after) := spanHost kind inside rest
      (char :: host, after)

/-- Whether a port may be followed by this character. -/
def followsPort (char : Char) : Bool :=
  ['/', '\\', '?', '#'].contains char

/-- The port, unless it is the scheme's default, and what follows its digits. -/
def readPort (scheme chars : List Char) : Except UrlError (Option Nat × List Char) :=
  let (digits, rest) := chars.span Char.isDigit
  let port := Nat.ofDigitChars 10 digits 0
  if 0xffff < port ∨ ¬ rest.head?.all followsPort then .error .invalidPort
  else if digits = [] ∨ SchemeKind.defaultPort? scheme = some port then .ok (none, rest)
  else .ok (some port, rest)

def readAuthority (scheme chars : List Char) : Except UrlError (UrlAuthority × List Char) := do
  let kind := SchemeKind.ofScheme scheme
  let (info, rest) ← readUserInfo kind chars
  let (written, rest) := spanHost kind false rest
  if kind = .special ∧ written = [] then throw .emptyHost
  let host ← if kind = .special then Host.ofDomain written else Host.ofText written
  if host = .empty ∧ rest.head? = some ':' then throw .emptyHost
  if host = .empty ∧ info ≠ [] then throw .emptyHost
  match rest with
  | ':' :: rest =>
    let (port, rest) ← readPort scheme rest
    return ({ userInfo := info, host, port }, rest)
  | rest => return ({ userInfo := info, host }, rest)

/-- The path after an authority. Special schemes always have one. -/
def readPath (kind : SchemeKind) (chars : List Char) : List Path.Segment × List Char :=
  match chars with
  | [] => if kind = .other then ([], []) else ([[]], [])
  | char :: rest =>
    if kind = .other ∧ (char = '?' ∨ char = '#') then ([], chars)
    else
      let (segments, _, after) :=
        Path.read kind [] (if kind ≠ .other ∧ kind.isSlash char ∨ char = '/' then rest else chars)
      (segments, after)

/-- Everything after the two slashes of the authority. -/
def readFromAuthority (scheme chars : List Char) : Except UrlError Url := do
  let kind := SchemeKind.ofScheme scheme
  let (authority, rest) ← readAuthority scheme chars
  let (segments, rest) := readPath kind rest
  let (query, fragment) := readTail kind rest
  return { scheme, authority := some authority, path := .segments segments, query, fragment }

/-! ## Files -/

def fileUrl (host : UrlHost) (before : List Char) : Url :=
  let (segments, hasDrive, rest) := Path.read .file [] before
  let (query, fragment) := readTail .file rest
  { scheme := "file".toList
    authority := some { host := if hasDrive then .empty else host }
    path := .segments segments, query, fragment }

/-- What follows the first skipped characters and the slash after them, if there is one. -/
def afterSlash? (chars : List Char) : Option (List Char) :=
  match chars.dropWhile isIgnored with
  | char :: rest => if SchemeKind.file.isSlash char then some rest else none
  | [] => none

/-- Two slashes introduce a host, unless a drive letter stands in its place. The host
`localhost` is none. -/
def readFile (chars : List Char) : Except UrlError Url :=
  match afterSlash? chars with
  | none => .ok (fileUrl .empty chars)
  | some single =>
    match afterSlash? single with
    | none => .ok (fileUrl .empty single)
    | some double => do
      let (written, rest) := double.span (fun char => !endsAuthority .file char)
      let written := withoutIgnored written
      if written = [] then return fileUrl .empty rest
      else if Path.isDriveLetter written then return fileUrl .empty double
      else
        let host ← Host.ofDomain written
        if host = .name "localhost".toList then return fileUrl .empty rest
        else return fileUrl host ((afterSlash? rest).getD rest)

/-! ## Whole URLs -/

def readOther (scheme chars : List Char) : Except UrlError Url :=
  match chars with
  | '/' :: '/' :: rest => readFromAuthority scheme rest
  | '/' :: rest =>
    let (segments, _, after) := Path.read .other [] rest
    let (query, fragment) := readTail .other after
    .ok { scheme, authority := none, path := .segments segments, query, fragment }
  | chars =>
    let (text, after) := Path.readText chars
    let (query, fragment) := readTail .other after
    .ok { scheme, authority := none, path := .text text, query, fragment }

def parse (written : List Char) : Except UrlError Url :=
  match scheme? (trimmed written) with
  | none => .error .missingScheme
  | some (scheme, rest) =>
    match SchemeKind.ofScheme scheme with
    | .file => readFile rest
    | .special =>
      readFromAuthority scheme ((withoutIgnored rest).dropWhile SchemeKind.special.isSlash)
    | .other => readOther scheme (withoutIgnored rest)

/-! ## References -/

/-- What a reference without a scheme means in a document with this URL, whose scheme is a special
one. Two slashes introduce a host, one slash a path from the root. -/
def resolve (base : Url) (written : List Char) : Except UrlError Url :=
  let chars := withoutIgnored (trimmed written)
  let follow (before : List Path.Segment) (chars : List Char) : Url :=
    let (segments, _, rest) := Path.read .special before chars
    let (query, fragment) := readTail .special rest
    { base with path := .segments segments, query, fragment }
  match chars with
  | [] => .ok { base with fragment := none }
  | '#' :: rest => .ok { base with fragment := some (readFragment rest) }
  | '?' :: _ =>
    let (query, fragment) := readTail .special chars
    .ok { base with query, fragment }
  | first :: rest =>
    if SchemeKind.special.isSlash first then
      match rest with
      | second :: after =>
        if first = '/' ∧ second = '/' then readFromAuthority base.scheme after
        else if SchemeKind.special.isSlash second then
          readFromAuthority base.scheme (after.dropWhile SchemeKind.special.isSlash)
        else .ok (follow [] rest)
      | [] => .ok (follow [] [])
    else .ok (follow (base.path.reversed.drop 1) chars)

end MarkupExport.Url
