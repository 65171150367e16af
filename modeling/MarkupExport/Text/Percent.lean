/-!
Percent-encoding. A character of the chosen set is written as one `%XX` for each byte of its
UTF-8 form, with upper-case digits; characters outside ASCII belong to every set.
-/

namespace MarkupExport.Text

/-- The hexadecimal digit of a value below 16, in upper case. -/
def hexDigit (value : Nat) : Char :=
  if value < 10 then Char.ofNat (48 + value) else Char.ofNat (55 + value)

/-- The value of a hexadecimal digit in either case. -/
def hexValue? (char : Char) : Option Nat :=
  if '0' ≤ char ∧ char ≤ '9' then some (char.toNat - 48)
  else if 'a' ≤ char ∧ char ≤ 'f' then some (char.toNat - 87)
  else if 'A' ≤ char ∧ char ≤ 'F' then some (char.toNat - 55)
  else none

example : (List.range 16).map (hexValue? ∘ hexDigit) = (List.range 16).map some := by decide

namespace Percent

/-- A set of ASCII characters that a part of a URL cannot hold as they are. -/
abbrev Set := Char → Bool

def byte (value : UInt8) : List Char :=
  ['%', hexDigit (value.toNat / 16), hexDigit (value.toNat % 16)]

def char (reserved : Set) (value : Char) : List Char :=
  if 0x80 ≤ value.toNat || reserved value then
    (String.utf8EncodeChar value).flatMap byte
  else [value]

def encode (reserved : Set) (chars : List Char) : List Char :=
  chars.flatMap (char reserved)

/-- The characters below the space, and DEL. -/
def isControl (value : Char) : Bool :=
  value.toNat < 0x20 || value.toNat == 0x7f

/-- The controls and the members of a list. -/
def controlsAnd (members : List Char) : Set :=
  fun value => isControl value || members.contains value

example : encode (controlsAnd [' ']) ['a', ' ', 'é'] = "a%20%C3%A9".toList := by decide +kernel

/-! Decoding gives bytes: what is not a `%` with two digits stands for its own UTF-8 form. -/

def decode : List Char → List UInt8
  | '%' :: high :: low :: rest =>
    match hexValue? high, hexValue? low with
    | some high, some low => UInt8.ofNat (16 * high + low) :: decode rest
    | _, _ => 0x25 :: decode (high :: low :: rest)
  | value :: rest => String.utf8EncodeChar value ++ decode rest
  | [] => []

example : decode "a%2Fb%zz".toList = "a/b%zz".toUTF8.toList := by decide +kernel

end Percent

end MarkupExport.Text
