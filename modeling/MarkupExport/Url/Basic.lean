import MarkupExport.Text.Percent

/-!
URLs in their parts. All parts hold characters as they are written: what a part cannot hold is
percent-encoded there.
-/

namespace MarkupExport

/-- Schemes differ in how much structure they give to what follows them: `file` and the special
schemes have a host and take `\` for `/`, the others take nothing for granted. -/
inductive SchemeKind where
  | file
  | special
  | other
deriving DecidableEq, Repr

namespace SchemeKind

/-- The special schemes other than `file`, each with its default port. -/
def specialPorts : List (String × Nat) :=
  [("http", 80), ("https", 443), ("ws", 80), ("wss", 443), ("ftp", 21)]

def ofScheme (scheme : List Char) : SchemeKind :=
  if String.ofList scheme = "file" then .file
  else if (specialPorts.lookup (String.ofList scheme)).isSome then .special
  else .other

def defaultPort? (scheme : List Char) : Option Nat :=
  specialPorts.lookup (String.ofList scheme)

/-- A slash, or a backslash where the scheme takes it for one. -/
def isSlash (kind : SchemeKind) (char : Char) : Bool :=
  char = '/' || (char = '\\' && kind ≠ .other)

end SchemeKind

/-- A host is a domain name, an address, or in schemes without domain names any text. -/
inductive UrlHost where
  | empty
  | name (text : List Char)
  | ipv4 (value : Nat)
  | ipv6 (groups : List Nat)
deriving DecidableEq, Repr

structure UrlAuthority where
  /-- User name and password with the `@` after them, or nothing. -/
  userInfo : List Char := []
  host : UrlHost
  port : Option Nat := none
deriving DecidableEq, Repr

/-- A path is a list of segments, each with a slash before it, or a text without structure. -/
inductive UrlPath where
  | segments (values : List (List Char))
  | text (value : List Char)
deriving DecidableEq, Repr

/-- The segments of a path, last one first. -/
def UrlPath.reversed : UrlPath → List (List Char)
  | .segments values => values.reverse
  | .text _ => []

structure Url where
  scheme : List Char
  authority : Option UrlAuthority
  path : UrlPath
  query : Option (List Char) := none
  fragment : Option (List Char) := none
deriving DecidableEq, Repr

/-- Why a text is no URL. -/
inductive UrlError where
  | missingScheme
  | emptyHost
  | invalidHost
  | invalidPort
deriving DecidableEq, Repr

namespace Url

/-! ## Character classes -/

/-- Characters that are skipped wherever they stand in a URL. -/
def isIgnored (char : Char) : Bool :=
  char = '\t' || char = '\n' || char = '\r'

/-- Characters that are cut off at both ends of a URL. -/
def isTrimmed (char : Char) : Bool :=
  char.toNat ≤ 0x20

def withoutIgnored (chars : List Char) : List Char :=
  chars.filter (fun char => !isIgnored char)

open Text in
/-- What a fragment cannot hold. -/
def fragmentSet : Percent.Set :=
  Percent.controlsAnd [' ', '"', '<', '>', '`']

open Text in
/-- What a path cannot hold. -/
def pathSet : Percent.Set :=
  Percent.controlsAnd [' ', '"', '<', '>', '`', '#', '?', '{', '}']

open Text in
/-- What a user name or password cannot hold. -/
def userInfoSet : Percent.Set :=
  Percent.controlsAnd [' ', '"', '<', '>', '`', '#', '?', '{', '}', '/', ':', ';', '=', '@', '[',
    '\\', ']', '^', '|']

open Text in
/-- What a query cannot hold; special schemes encode the single quote too. -/
def querySet (kind : SchemeKind) : Percent.Set :=
  if kind = .other then Percent.controlsAnd [' ', '"', '#', '<', '>']
  else Percent.controlsAnd [' ', '"', '#', '<', '>', '\'']

end Url

end MarkupExport
