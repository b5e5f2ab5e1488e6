import WordMachine.Decimal.Binary64
import WordMachine.Text.Numeral

/-!
# Numbers in scientific form

A number written with a point, an exponent, both or neither, as whole digits times a power of ten,
and whether it is finite as a binary fraction. Numbers far from the bound are told by the place of
their leading digit, so that no power of ten is computed that is larger than the bound asks for.
-/

namespace WordMachine

/-- The number `digits · 10 ^ exponent`. -/
structure Scientific where
  digits : Nat
  exponent : Int
deriving DecidableEq, Repr

namespace Scientific

/-- Reads an exponent without its letter. -/
def exponent? (text : List Char) : Option Int :=
  let magnitude (digits : List Char) : Option Nat :=
    if digits.isEmpty then none else Text.decimalValue? 0 digits
  match text with
  | '-' :: digits => (magnitude digits).map fun n => -Int.ofNat n
  | '+' :: digits => (magnitude digits).map Int.ofNat
  | digits => (magnitude digits).map Int.ofNat

/-- Reads a number without sign. At least one digit stands before or after the point. -/
def ofText? (text : List Char) : Option Scientific := do
  let whole := text.takeWhile Text.isDigit
  let (fraction, rest) :=
    match text.dropWhile Text.isDigit with
    | '.' :: rest => (rest.takeWhile Text.isDigit, rest.dropWhile Text.isDigit)
    | rest => ([], rest)
  guard !(whole.isEmpty && fraction.isEmpty)
  let digits ← Text.decimalValue? 0 (whole ++ fraction)
  let places : Int := fraction.length
  match rest with
  | [] => return ⟨digits, -places⟩
  | c :: rest =>
    guard (c = 'e' || c = 'E')
    return ⟨digits, (← exponent? rest) - places⟩

/-- Whether the number is not too large for a binary fraction. -/
def isFinite (s : Scientific) : Bool :=
  let top := ((Nat.toDigits 10 s.digits).length : Int) + s.exponent
  if s.digits = 0 ∨ top < 300 then true
  else if 310 < top then false
  else (Binary64.nearest? (s.digits * Nat.pow 10 s.exponent.toNat)
    (Nat.pow 10 (-s.exponent).toNat)).isSome

end Scientific

end WordMachine
