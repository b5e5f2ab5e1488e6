/-!
# Base-16 text

Bytes are written as two lower-case digits each. Reading works on the bytes of the text: blanks
of ASCII and underscores are dropped, then the bytes are taken in pairs. An odd number of bytes
is refused before any of them is looked at; otherwise the first byte that is no digit is named.
-/

namespace WordMachine.Text

/-- What is wrong with base-16 text. -/
inductive HexFault where
  | oddLength
  | invalidDigit (byte : UInt8)
deriving DecidableEq, Repr

/-- The fault in words; a byte is shown as the character of that number. -/
def HexFault.message : HexFault → String
  | .oddLength => "odd number of hex digits"
  | .invalidDigit b => "invalid hex digit '" ++ String.singleton (Char.ofNat b.toNat) ++ "'"

/-- The value of a base-16 digit given by its code. -/
def hexValue? (code : Nat) : Option Nat :=
  if 48 ≤ code ∧ code ≤ 57 then some (code - 48)
  else if 97 ≤ code ∧ code ≤ 102 then some (code - 87)
  else if 65 ≤ code ∧ code ≤ 70 then some (code - 55)
  else none

/-- The lower-case digit of a value below sixteen. -/
def hexDigit (value : Nat) : Char :=
  Char.ofNat (if value < 10 then 48 + value else 87 + value)

/-- The two digits of each byte. -/
def encodeHex (bytes : List UInt8) : List Char :=
  bytes.flatMap fun b => [hexDigit (b.toNat / 16), hexDigit (b.toNat % 16)]

/-- Whether a byte is dropped before reading: space, tab, line feed, form feed, carriage return
and underscore. -/
def isHexFiller (b : UInt8) : Bool :=
  b == 32 || b == 9 || b == 10 || b == 12 || b == 13 || b == 95

/-- Reads an even number of digits; `read` holds the bytes so far, newest first. -/
def readHexPairs (read : List UInt8) : List UInt8 → Except HexFault (List UInt8)
  | hi :: lo :: rest =>
    match hexValue? hi.toNat, hexValue? lo.toNat with
    | some h, some l => readHexPairs (UInt8.ofNat (16 * h + l) :: read) rest
    | none, _ => .error (.invalidDigit hi)
    | some _, none => .error (.invalidDigit lo)
  | _ => .ok read.reverse

/-- The bytes that a base-16 text writes. -/
def decodeHex (text : String) : Except HexFault (List UInt8) :=
  let digits := text.toUTF8.toList.filter (!isHexFiller ·)
  if digits.length % 2 = 0 then readHexPairs [] digits else .error .oddLength

/-- The value of a string of base-16 digits of either case; `none` at any other character. -/
def hexNumber? : (value : Nat) → List Char → Option Nat
  | value, [] => some value
  | value, c :: rest =>
    match hexValue? c.toNat with
    | none => none
    | some d => hexNumber? (value * 16 + d) rest

end WordMachine.Text
