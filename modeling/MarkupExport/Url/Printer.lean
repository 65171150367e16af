import MarkupExport.Url.Host

/-!
Writing URLs. A path without an authority that begins with an empty segment gets `/.` in front, as
it would otherwise be read as a host.
-/

namespace MarkupExport

def UrlAuthority.text (authority : UrlAuthority) : List Char :=
  authority.userInfo ++ Url.Host.text authority.host ++
    match authority.port with
    | none => []
    | some port => ':' :: Nat.toDigits 10 port

def UrlPath.chars : UrlPath → List Char
  | .segments values => values.flatMap ('/' :: ·)
  | .text value => value

namespace Url

/-- Path, query and fragment. -/
def fromPath (url : Url) : List Char :=
  url.path.chars ++
    (match url.query with
      | none => []
      | some query => '?' :: query) ++
    match url.fragment with
    | none => []
    | some fragment => '#' :: fragment

/-- What stands between the scheme's colon and the path. -/
def beforePath (url : Url) : List Char :=
  match url.authority, url.path with
  | some authority, _ => '/' :: '/' :: authority.text
  | none, .segments ([] :: _ :: _) => ['/', '.']
  | none, _ => []

def text (url : Url) : List Char :=
  url.scheme ++ ':' :: (url.beforePath ++ url.fromPath)

end Url

end MarkupExport
