/-!
# Sixty-four-bit binary fractions

The finite, non-negative numbers of the 64-bit binary format: `mantissa · 2 ^ exponent` with a
mantissa below `2 ^ 53` and an exponent of at least `-1074`. A ratio of natural numbers is rounded
to the nearest of them, a tie to the one with the even mantissa; what would reach `2 ^ 1024` has
no value.
-/

namespace WordMachine

/-- A finite, non-negative binary fraction. -/
structure Binary64 where
  mantissa : Nat
  exponent : Int
deriving DecidableEq, Repr

namespace Binary64

/-- The number zero. -/
def zero : Binary64 := ⟨0, -1074⟩

/-- The ratio `n / d` divided by `2 ^ e`, again as a ratio. -/
def unscale (n d : Nat) (e : Int) : Nat × Nat :=
  if 0 ≤ e then (n, d * Nat.pow 2 e.toNat) else (n * Nat.pow 2 (-e).toNat, d)

/-- The natural number nearest to a ratio, a tie to the even one. -/
def roundRatio (n d : Nat) : Nat :=
  let q := n / d
  let r := n % d
  if d < 2 * r ∨ (d = 2 * r ∧ q % 2 = 1) then q + 1 else q

/-- The least exponent at which `n / d` has a mantissa below `2 ^ 53`, but not below `-1074`. -/
def exponentFor (n d : Nat) : Int :=
  let e : Int := max (-1074) ((n.log2 : Int) - (d.log2 : Int) - 53)
  let (n', d') := unscale n d e
  if n' / d' < Nat.pow 2 53 then e else e + 1

/-- The nearest binary fraction to `n / d`; `none` if it is too large. -/
def nearest? (n d : Nat) : Option Binary64 :=
  if n = 0 then some zero
  else
    let e := exponentFor n d
    let (n', d') := unscale n d e
    let m := roundRatio n' d'
    let b : Binary64 := if m = Nat.pow 2 53 then ⟨Nat.pow 2 52, e + 1⟩ else ⟨m, e⟩
    if b.exponent ≤ 971 then some b else none

/-- The number as a ratio. -/
def ratio (b : Binary64) : Nat × Nat :=
  if 0 ≤ b.exponent then (b.mantissa * Nat.pow 2 b.exponent.toNat, 1)
  else (b.mantissa, Nat.pow 2 (-b.exponent).toNat)

/-- The rounded product. -/
def mul? (a b : Binary64) : Option Binary64 :=
  nearest? (a.ratio.1 * b.ratio.1) (a.ratio.2 * b.ratio.2)

/-- The rounded quotient; the divisor is not zero. -/
def div? (a b : Binary64) : Option Binary64 :=
  nearest? (a.ratio.1 * b.ratio.2) (a.ratio.2 * b.ratio.1)

end Binary64

end WordMachine
