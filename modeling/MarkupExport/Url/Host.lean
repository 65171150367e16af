import MarkupExport.Text.Blank
import MarkupExport.Url.Basic
import MarkupExport.Url.Ipv4
import MarkupExport.Url.Ipv6
import MarkupExport.Url.Punycode

/-!
Hosts. Where a scheme has domain names, a host is percent-decoded and brought to ASCII label by
label, and one that ends in a number is an address of four bytes. Elsewhere it is kept as text.
An address of eight groups stands in square brackets in either case.
-/

namespace MarkupExport.Url.Host

/-! ## Domain names -/

/-- The reserved characters that no host holds. -/
def reserved : List Char :=
  [' ', '#', '/', ':', '<', '>', '?', '@', '[', '\\', ']', '^', '|']

/-- Characters that no domain name holds. -/
def isDenied (char : Char) : Bool :=
  Text.Percent.isControl char || reserved.contains char || char = '%' || Text.isBlank char ||
    (0x80 ≤ char.toNat && char.toNat < 0xa0) || char = '\ufffd'

/-- The spelling that marks a label as Punycode. -/
def spelledMark : List Char := ['x', 'n', '-', '-']

/-- A label in ASCII. One that is spelled in Punycode must need it. -/
def label? (label : List Char) : Option (List Char) :=
  if label.any (fun char => !Punycode.isAscii char) then
    some (spelledMark ++ Punycode.encode label)
  else if label.take 4 = spelledMark then do
    let word ← Punycode.decode (label.drop 4)
    guard (word.any (fun char => !Punycode.isAscii char) && !word.any isDenied &&
      Punycode.encode word = label.drop 4)
    return label
  else some label

def domain? (written : List Char) : Option (List Char) := do
  let decoded ← String.fromUTF8? ⟨(Text.Percent.decode written).toArray⟩
  let lower := decoded.toList.map Char.toLower
  guard (!lower.any isDenied)
  return ['.'].intercalate (← (lower.splitOn '.').mapM label?)

/-! ## Hosts -/

/-- The text between square brackets, for a host that begins with one. -/
def bracketed? (written : List Char) : Option (Option (List Char)) :=
  match written with
  | '[' :: rest => some (if rest.getLast? = some ']' then some rest.dropLast else none)
  | _ => none

/-- The host of a scheme with domain names. -/
def ofDomain (written : List Char) : Except UrlError UrlHost :=
  match bracketed? written with
  | some inner =>
    match inner.bind Ipv6.address? with
    | some groups => .ok (.ipv6 groups)
    | none => .error .invalidHost
  | none =>
    match domain? written with
    | none => .error .invalidHost
    | some name =>
      if name = [] then .error .emptyHost
      else if Ipv4.endsInNumber name then
        match Ipv4.address? name with
        | some address => .ok (.ipv4 address)
        | none => .error .invalidHost
      else .ok (.name name)

/-- The host of a scheme without domain names. -/
def ofText (written : List Char) : Except UrlError UrlHost :=
  match bracketed? written with
  | some inner =>
    match inner.bind Ipv6.address? with
    | some groups => .ok (.ipv6 groups)
    | none => .error .invalidHost
  | none =>
    if written = [] then .ok .empty
    else if written.any (fun char => char = '\x00' || reserved.contains char) then
      .error .invalidHost
    else .ok (.name (Text.Percent.encode (Text.Percent.controlsAnd []) written))

def text : UrlHost → List Char
  | .empty => []
  | .name text => text
  | .ipv4 address => Ipv4.text address
  | .ipv6 groups => '[' :: Ipv6.text groups ++ [']']

example : (ofDomain "m%C3%BCnchen.DE".toList).toOption =
    some (.name "xn--mnchen-3ya.de".toList) := by
  decide +kernel

end MarkupExport.Url.Host
