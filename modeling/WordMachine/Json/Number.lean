import WordMachine.Decimal.Shortest
import WordMachine.Text.Numeral

/-!
# JSON numbers

A number without fraction and exponent is an integer if it fits into 64 bits: unsigned, or signed
when it is negative. Every other number is a binary fraction, computed in a fixed way from its
digits: as many leading digits as fit into 64 bits make a whole number, which is then multiplied or
divided by one power of ten. That is not always the nearest fraction to the text. A number too
large for a binary fraction has no value.
-/

namespace WordMachine.Json

/-- The parts of a written number. -/
structure NumberText where
  negative : Bool := false
  whole : List Char := []
  /-- The digits after the point; empty if there is no point. -/
  fraction : List Char := []
  /-- The exponent, negative or not, and its digits. -/
  exponent : Option (Bool × List Char) := none
deriving DecidableEq, Repr

/-- The value of a number. -/
inductive Number where
  | unsigned (n : Nat)
  /-- The number `-n`. -/
  | signed (n : Nat)
  | fraction (negative : Bool) (magnitude : Binary64)
deriving DecidableEq, Repr

/-- The largest unsigned integer. -/
def maxUnsigned : Nat := Nat.pow 2 64 - 1

/-- Reads digits as long as the value fits; gives the value, the number of digits read, and the
digits that are left. -/
def takeDigits (value count : Nat) : List Char → Nat × Nat × List Char
  | [] => (value, count, [])
  | c :: rest =>
    let next := value * 10 + (c.toNat - '0'.toNat)
    if next ≤ maxUnsigned then takeDigits next (count + 1) rest else (value, count, c :: rest)

/-- `value · 10 ^ exponent`; beyond three hundred and eight places, in steps of that many. -/
def scale? (value : Binary64) (exponent : Int) : Option Binary64 :=
  if exponent < -308 then
    if value.mantissa = 0 then some value
    else do
      let power ← Binary64.nearest? (Nat.pow 10 308) 1
      let smaller ← value.div? power
      scale? smaller (exponent + 308)
  else if 308 < exponent then
    if value.mantissa = 0 then some value else none
  else do
    let power ← Binary64.nearest? (Nat.pow 10 exponent.natAbs) 1
    if exponent < 0 then value.div? power else value.mul? power
termination_by (-exponent).toNat
decreasing_by omega

/-- The largest exponent that is taken at its value. -/
def maxExponent : Nat := Nat.pow 2 31 - 1

namespace NumberText

/-- Whether the number is written without fraction and exponent. -/
def isInteger (t : NumberText) : Bool := t.fraction.isEmpty && t.exponent.isNone

/-- The leading digits as a whole number, and the power of ten that belongs to it before the
written exponent. -/
def leading (t : NumberText) : Nat × Int :=
  let (value, _, dropped) := takeDigits 0 0 t.whole
  let (value, places, _) := takeDigits value 0 t.fraction
  (value, (dropped.length : Int) - places)

/-- The magnitude as a binary fraction. -/
def magnitude? (t : NumberText) : Option Binary64 := do
  let (digits, exponent) := t.leading
  let value ← Binary64.nearest? digits 1
  match t.exponent with
  | none => scale? value exponent
  | some (negative, text) =>
    let written := (Text.decimalValue? 0 text).getD 0
    if maxExponent < written then
      if digits = 0 ∨ negative then some .zero else none
    else scale? value (if negative then exponent - written else exponent + written)

/-- The value of a written number. -/
def value? (t : NumberText) : Option Number :=
  let asFraction := t.magnitude?.map (Number.fraction t.negative)
  if t.isInteger then
    match takeDigits 0 0 t.whole with
    | (n, _, []) =>
      if !t.negative then some (.unsigned n)
      else if 0 < n ∧ n ≤ Nat.pow 2 63 then some (.signed n)
      else asFraction
    | _ => asFraction
  else asFraction

end NumberText

/-- Fractions are written with a point where their leading digit stands at most sixteen places before
it or five after it, and else with an exponent. -/
def fractionLayout : DecimalLayout := ⟨-5, 15⟩

/-- The text of a binary fraction. -/
def fractionText (negative : Bool) (magnitude : Binary64) : String :=
  (if negative then "-" else "") ++ String.ofList (magnitude.shortest.text fractionLayout)

end WordMachine.Json
