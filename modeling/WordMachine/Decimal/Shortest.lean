import WordMachine.Decimal.Binary64

/-!
# Shortest decimal text

Of the decimal fractions that round to a binary fraction, the one with the fewest digits, and of
those the nearest. All comparisons are made on natural numbers: with `u` a quarter of the last
binary place, the number is `4 · mantissa · u`, and everything within `2 · u` of it rounds to it
(only `u` below it when the mantissa is the least of its exponent); the ends count when the
mantissa is even.
-/

namespace WordMachine

/-- A decimal fraction `d.ddd · 10 ^ exponent`. -/
structure Decimal where
  digits : List Char
  exponent : Int
deriving DecidableEq, Repr

namespace Binary64

/-- The exponent of the leading decimal digit of `n / d`, which is below one; at most `steps`
places are tried. -/
def leadingBelowOne (n d : Nat) : (steps : Nat) → Int
  | 0 => 0
  | steps + 1 => if d ≤ 10 * n then -1 else leadingBelowOne (10 * n) d steps - 1

/-- The exponent of the leading decimal digit of a number that is not zero. -/
def leadingExponent (b : Binary64) : Int :=
  let (n, d) := b.ratio
  if d ≤ n then ((Nat.toDigits 10 (n / d)).length : Int) - 1 else leadingBelowOne n d 400

/-- The grid of the multiples of `10 ^ place`: one of its steps is `num / den` quarters of the last
binary place. -/
structure Grid where
  num : Nat
  den : Nat

/-- The grid at a decimal place. -/
def gridAt (b : Binary64) (place : Int) : Grid where
  num := Nat.pow 10 place.toNat * Nat.pow 2 (2 - b.exponent).toNat
  den := Nat.pow 10 (-place).toNat * Nat.pow 2 (b.exponent - 2).toNat

/-- Whether the point `c` of a grid rounds to the number. -/
def roundsFrom (b : Binary64) (g : Grid) (c : Nat) : Bool :=
  let low := 4 * b.mantissa - if b.mantissa = Nat.pow 2 52 ∧ b.exponent ≠ -1074 then 1 else 2
  let high := 4 * b.mantissa + 2
  if b.mantissa % 2 = 0 then low * g.den ≤ c * g.num && c * g.num ≤ high * g.den
  else low * g.den < c * g.num && c * g.num < high * g.den

/-- The point of a grid that rounds to the number, the nearer of two, the even one of two equally
near. -/
def pointOn? (b : Binary64) (g : Grid) : Option Nat :=
  let exact := 4 * b.mantissa * g.den
  let below := exact / g.num
  let above := below + 1
  match b.roundsFrom g below, b.roundsFrom g above with
  | true, true =>
    let down := exact - below * g.num
    let up := above * g.num - exact
    if down < up ∨ (down = up ∧ below % 2 = 0) then some below else some above
  | true, false => some below
  | false, true => some above
  | false, false => none

/-- The point on the coarsest grid that has one, with the place of the grid; `left` grids are
tried, each ten times finer. -/
def shortestFrom (b : Binary64) (place : Int) : (left : Nat) → Nat × Int
  | 0 => ((b.pointOn? (b.gridAt place)).getD 0, place)
  | left + 1 =>
    match b.pointOn? (b.gridAt place) with
    | some c => (c, place)
    | none => shortestFrom b (place - 1) left

/-- The digits without the zeros at the end; one digit stays. -/
def dropTrailingZeros (digits : List Char) : List Char :=
  match (digits.reverse.dropWhile (· = '0')).reverse with
  | [] => ['0']
  | kept => kept

/-- The shortest decimal fraction that rounds to the number. -/
def shortest (b : Binary64) : Decimal :=
  if b.mantissa = 0 then ⟨['0'], 0⟩
  else
    let (c, place) := b.shortestFrom b.leadingExponent 17
    let digits := Nat.toDigits 10 c
    ⟨dropTrailingZeros digits, place + digits.length - 1⟩

end Binary64

/-! ## Layout -/

/-- How a decimal fraction is laid out. -/
structure DecimalLayout where
  /-- Exponents of the leading digit from here on are written with a point only. -/
  leastFixed : Int
  /-- And up to here. -/
  mostFixed : Int

namespace Decimal

/-- The fraction with a point and no exponent; at least one digit stands on either side. -/
def fixedText (d : Decimal) : List Char :=
  if d.exponent < 0 then
    '0' :: '.' :: (List.replicate ((-d.exponent).toNat - 1) '0' ++ d.digits)
  else
    let whole := d.exponent.toNat + 1
    let filled := d.digits ++ List.replicate (whole - d.digits.length) '0'
    let fraction := filled.drop whole
    filled.take whole ++ '.' :: (if fraction.isEmpty then ['0'] else fraction)

/-- The fraction with an exponent, which always has a sign. -/
def exponentText (d : Decimal) : List Char :=
  let sign := if d.exponent < 0 then '-' else '+'
  let mantissa :=
    match d.digits with
    | first :: second :: rest => first :: '.' :: second :: rest
    | digits => digits
  mantissa ++ 'e' :: sign :: Nat.toDigits 10 d.exponent.natAbs

/-- The fraction in a layout. -/
def text (layout : DecimalLayout) (d : Decimal) : List Char :=
  if layout.leastFixed ≤ d.exponent ∧ d.exponent ≤ layout.mostFixed then d.fixedText
  else d.exponentText

end Decimal

end WordMachine
