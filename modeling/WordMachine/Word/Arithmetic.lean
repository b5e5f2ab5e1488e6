import WordMachine.Word.Basic

/-!
# Arithmetic on words

Nothing here wraps around. The checked operations answer `none` exactly where the true result is
no word (or does not exist), the saturating ones answer the nearest word. Both come also as folds
over several inputs, from the left, deepest input first.

Each checked operation has one lemma that gives it in terms of natural numbers.
-/

namespace WordMachine

/-- Why an arithmetic operation has no result. -/
inductive ArithmeticFault where
  | overflow
  | underflow
  | divisionByZero
deriving DecidableEq, Repr

/-- The fault in words. -/
def ArithmeticFault.message : ArithmeticFault → String
  | .overflow => "overflow"
  | .underflow => "underflow"
  | .divisionByZero => "division by zero"

namespace Word

/-! ## 1. Checked operations -/

/-- The sum, if it is a word. -/
def add? (a b : Word) : Option Word := ofNat? (a.toNat + b.toNat)

/-- The difference, if it is not negative. -/
def sub? (a b : Word) : Option Word :=
  if b.toNat ≤ a.toNat then some ⟨a.toNat - b.toNat, by have := a.isLt; omega⟩ else none

/-- The product, if it is a word. -/
def mul? (a b : Word) : Option Word := ofNat? (a.toNat * b.toNat)

/-- The quotient rounded down, unless the divisor is zero. -/
def div? (a b : Word) : Option Word :=
  if b.toNat = 0 then none
  else some ⟨a.toNat / b.toNat, Nat.lt_of_le_of_lt (Nat.div_le_self _ _) a.isLt⟩

/-- The remainder, unless the divisor is zero. -/
def mod? (a b : Word) : Option Word :=
  if b.toNat = 0 then none
  else some ⟨a.toNat % b.toNat, Nat.lt_of_le_of_lt (Nat.mod_le _ _) a.isLt⟩

/-- The power, if it is a word. The first two cases keep the exponents that are computed below
`256`: a base of at least two overflows from there on. -/
def pow? (a b : Word) : Option Word :=
  if a.toNat ≤ 1 then some (if b.toNat = 0 then one else a)
  else if 256 ≤ b.toNat then none
  else ofNat? (Nat.pow a.toNat b.toNat)

theorem sub?_eq_some_iff {a b w : Word} :
    a.sub? b = some w ↔ b.toNat ≤ a.toNat ∧ w.toNat = a.toNat - b.toNat := by
  unfold sub?
  split
  · rename_i h
    constructor
    · intro e; cases e; exact ⟨h, rfl⟩
    · intro e; exact congrArg some (ext e.2.symm)
  · rename_i h
    exact ⟨fun e => (by cases e), fun e => absurd e.1 h⟩

theorem div?_eq_some_iff {a b w : Word} :
    a.div? b = some w ↔ b.toNat ≠ 0 ∧ w.toNat = a.toNat / b.toNat := by
  unfold div?
  split
  · rename_i h
    exact ⟨fun e => (by cases e), fun e => absurd h e.1⟩
  · rename_i h
    constructor
    · intro e; cases e; exact ⟨h, rfl⟩
    · intro e; exact congrArg some (ext e.2.symm)

theorem mod?_eq_some_iff {a b w : Word} :
    a.mod? b = some w ↔ b.toNat ≠ 0 ∧ w.toNat = a.toNat % b.toNat := by
  unfold mod?
  split
  · rename_i h
    exact ⟨fun e => (by cases e), fun e => absurd h e.1⟩
  · rename_i h
    constructor
    · intro e; cases e; exact ⟨h, rfl⟩
    · intro e; exact congrArg some (ext e.2.symm)

/-- The shortcuts of `pow?` do not change it: it is the true power wherever that is a word. -/
theorem pow?_eq_ofNat? (a b : Word) : a.pow? b = ofNat? (Nat.pow a.toNat b.toNat) := by
  unfold pow?
  split
  · rename_i ha
    symm
    rw [ofNat?_eq_some_iff]
    rcases Nat.lt_or_ge a.toNat 1 with h0 | h1
    · have h0 : a.toNat = 0 := by omega
      split
      · rename_i hb; rw [hb]; rfl
      · rename_i hb
        rw [h0]
        exact (Nat.zero_pow (Nat.pos_of_ne_zero hb)).symm
    · have h1 : a.toNat = 1 := by omega
      have hpow : Nat.pow 1 b.toNat = 1 := Nat.one_pow _
      rw [h1, hpow]
      split
      · rfl
      · exact h1
  · rename_i ha
    split
    · rename_i hb
      symm
      rw [ofNat?_eq_none_iff]
      calc size ≤ Nat.pow 2 b.toNat := Nat.pow_le_pow_right (by decide) hb
        _ ≤ Nat.pow a.toNat b.toNat := Nat.pow_le_pow_left (by omega) _
    · rfl

/-! ## 2. Saturating operations -/

/-- The sum, or the largest word. -/
def saturatingAdd (a b : Word) : Word := clamp (a.toNat + b.toNat)

/-- The difference, or zero. -/
def saturatingSub (a b : Word) : Word := ⟨a.toNat - b.toNat, by have := a.isLt; omega⟩

/-- The product, or the largest word. -/
def saturatingMul (a b : Word) : Word := clamp (a.toNat * b.toNat)

/-! ## 3. Folds -/

/-- Folds a checked operation over the inputs and names the fault of the first step that has no
result. -/
def foldChecked (op : Word → Word → Option Word) (fault : ArithmeticFault) :
    Word → List Word → Except ArithmeticFault Word
  | acc, [] => .ok acc
  | acc, x :: xs =>
    match op acc x with
    | some r => foldChecked op fault r xs
    | none => .error fault

/-- The sum of all inputs. -/
def sum : Word → List Word → Except ArithmeticFault Word := foldChecked add? .overflow

/-- The first input less all others. -/
def difference : Word → List Word → Except ArithmeticFault Word := foldChecked sub? .underflow

/-- The product of all inputs. -/
def product : Word → List Word → Except ArithmeticFault Word := foldChecked mul? .overflow

/-- The first input divided by each of the others in turn. -/
def quotient : Word → List Word → Except ArithmeticFault Word := foldChecked div? .divisionByZero

/-- The first input reduced by each of the others in turn. -/
def remainder : Word → List Word → Except ArithmeticFault Word := foldChecked mod? .divisionByZero

/-- The first input raised to each of the others in turn. -/
def power : Word → List Word → Except ArithmeticFault Word := foldChecked pow? .overflow

/-- The smallest input. -/
def least : Word → List Word → Word := List.foldl fun a b => if b < a then b else a

/-- The largest input. -/
def greatest : Word → List Word → Word := List.foldl fun a b => if a < b then b else a

/-- The sum of all inputs, or the largest word. -/
def saturatingSum : Word → List Word → Word := List.foldl saturatingAdd

/-- The first input less all others, or zero. -/
def saturatingDifference : Word → List Word → Word := List.foldl saturatingSub

/-- The product of all inputs, or the largest word. -/
def saturatingProduct : Word → List Word → Word := List.foldl saturatingMul

/-! ## 4. Tests and choices -/

/-- The first input if every input is true, else zero. -/
def every (first : Word) (rest : List Word) : Word :=
  if (first :: rest).all truthy then first else zero

/-- The first input that is true, else zero. -/
def any (first : Word) (rest : List Word) : Word :=
  ((first :: rest).find? truthy).getD zero

end Word

end WordMachine
