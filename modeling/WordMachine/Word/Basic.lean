/-!
# Words

A word is a natural number below `2 ^ 256`. This file fixes

* the type `Word` and the ways into it: `ofNat?` refuses what does not fit, `clamp` cuts it down;
* truth: zero is false, every other word is true, and a computed truth value is `0` or `1`;
* the two written forms, decimal digits and `0x` with lower-case digits and no leading zeros.
-/

namespace WordMachine

/-- How many words there are. -/
def Word.size : Nat := Nat.pow 2 256

/-- A 256-bit unsigned number. -/
structure Word where
  toNat : Nat
  isLt : toNat < Word.size
deriving DecidableEq

namespace Word

/-! ## 1. Numbers as words -/

/-- The word with the given value, if there is one. -/
def ofNat? (n : Nat) : Option Word :=
  if h : n < size then some ⟨n, h⟩ else none

/-- The word zero. -/
def zero : Word := ⟨0, by decide⟩

/-- The word one. -/
def one : Word := ⟨1, by decide⟩

/-- The largest word. -/
def max : Word := ⟨size - 1, by decide⟩

/-- The largest word not above `n`. -/
def clamp (n : Nat) : Word :=
  if h : n < size then ⟨n, h⟩ else max

/-- The value of a number that surely fits. -/
def ofUInt64 (n : UInt64) : Word :=
  ⟨n.toNat, Nat.lt_trans n.toNat_lt (by decide)⟩

instance : Inhabited Word := ⟨zero⟩

instance : LE Word := ⟨fun a b => a.toNat ≤ b.toNat⟩
instance : LT Word := ⟨fun a b => a.toNat < b.toNat⟩
instance (a b : Word) : Decidable (a ≤ b) := inferInstanceAs (Decidable (a.toNat ≤ b.toNat))
instance (a b : Word) : Decidable (a < b) := inferInstanceAs (Decidable (a.toNat < b.toNat))

theorem ext {a b : Word} (h : a.toNat = b.toNat) : a = b := by
  cases a; cases b; cases h; rfl

theorem ofNat?_eq_some_iff {n : Nat} {w : Word} : ofNat? n = some w ↔ w.toNat = n := by
  unfold ofNat?
  constructor
  · intro h
    split at h
    · cases h; rfl
    · cases h
  · intro h
    have hn : n < size := h ▸ w.isLt
    rw [dif_pos hn]
    exact congrArg some (ext h.symm)

theorem ofNat?_eq_none_iff {n : Nat} : ofNat? n = none ↔ size ≤ n := by
  unfold ofNat?
  split
  · simp only [reduceCtorEq, false_iff]; omega
  · simp only [true_iff]; omega

@[simp] theorem ofNat?_toNat (w : Word) : ofNat? w.toNat = some w :=
  ofNat?_eq_some_iff.2 rfl

/-! ## 2. Truth -/

/-- A word is true unless it is zero. -/
def truthy (w : Word) : Bool := w.toNat != 0

/-- The word of a truth value: one for true. -/
def ofBool (b : Bool) : Word := if b then one else zero

theorem truthy_eq_true_iff {w : Word} : w.truthy = true ↔ w ≠ zero := by
  unfold truthy
  rw [bne_iff_ne]
  exact not_congr ⟨fun h => ext h, fun h => congrArg toNat h⟩

/-! ## 3. Written forms -/

/-- Decimal digits, without leading zeros. -/
def decimal (w : Word) : String := toString w.toNat

/-- `0x` and lower-case base-16 digits, without leading zeros. -/
def hex (w : Word) : String := "0x" ++ String.ofList (Nat.toDigits 16 w.toNat)

end Word

end WordMachine
