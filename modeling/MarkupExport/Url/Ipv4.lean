import MarkupExport.Text.Percent

/-!
Addresses of four bytes. The parts of a written address may be decimal, octal (a leading zero) or
hexadecimal (`0x`), and the last part fills all bytes that the parts before it leave over.
-/

namespace MarkupExport.Url.Ipv4

def value? (base : Nat) (digits : List Char) : Option Nat :=
  digits.foldlM (fun value char => do
    let digit ← Text.hexValue? char
    guard (digit < base)
    return base * value + digit) 0

def part? : List Char → Option Nat
  | [] => none
  | '0' :: 'x' :: digits => value? 16 digits
  | '0' :: digit :: digits => value? 8 (digit :: digits)
  | digits => value? 10 digits

def parts (name : List Char) : List (List Char) :=
  let parts := name.splitOn '.'
  if parts.getLast? = some [] then parts.dropLast else parts

/-- A name whose last part is a number is an address or nothing. -/
def endsInNumber (name : List Char) : Bool :=
  match (parts name).getLast? with
  | none => false
  | some last => (last ≠ [] && last.all Char.isDigit) || (part? last).isSome

def address? (name : List Char) : Option Nat := do
  let numbers ← (parts name).mapM part?
  let last ← numbers.getLast?
  let leading := numbers.dropLast
  guard (leading.length < 4 ∧ leading.all (· < 256) ∧ last < Nat.pow 256 (4 - leading.length))
  return leading.foldl (256 * · + ·) 0 * Nat.pow 256 (4 - leading.length) + last

/-- The four bytes in decimal. -/
def text (address : Nat) : List Char :=
  ['.'].intercalate ([0x1000000, 0x10000, 0x100, 1].map fun unit =>
    Nat.toDigits 10 (address / unit % 256))

example : (address? "0x7f.1".toList).map text = some "127.0.0.1".toList := by decide +kernel

example : address? "1.2.3.256".toList = none := by decide +kernel

end MarkupExport.Url.Ipv4
