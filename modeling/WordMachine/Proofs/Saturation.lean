import WordMachine.Proofs.Folds

/-!
# Saturating folds clamp once

A saturating function cuts every value on the way down to a word. Here it is shown that cutting
down the exact result once comes to the same, so that no order of the inputs is better than another:

* `toNat_clamp` says what clamping does to a number;
* `Saturates` says that clamping before a step is not seen after it, and `foldl_clamp` takes this
  through a fold;
* for products this holds although a zero may come behind a clamped value: both are zero then
  (`saturates_mul`). A clamped difference, which only goes down, is the difference of natural
  numbers at every step (`toNat_saturatingDifference`).
-/

namespace WordMachine

namespace Word

/-! ## 1. Clamping -/

theorem size_pos : 0 < size := zero.isLt

@[simp] theorem toNat_clamp (n : Nat) : (clamp n).toNat = min n (size - 1) := by
  unfold clamp
  split
  · rename_i h
    show n = _
    omega
  · rename_i h
    show size - 1 = _
    omega

theorem clamp_toNat (w : Word) : clamp w.toNat = w := by
  have hw := w.isLt
  apply ext
  rw [toNat_clamp]
  omega

theorem clamp_of_lt {n : Nat} (h : n < size) : (clamp n).toNat = n := by
  rw [toNat_clamp]
  omega

theorem clamp_of_le {n : Nat} (h : size - 1 ≤ n) : clamp n = max := by
  apply ext
  rw [toNat_clamp]
  show _ = size - 1
  omega

/-! ## 2. Folds -/

/-- **A saturating operation clamps `f`**, and `f` does not tell a clamped number from the number,
once its value is clamped, too. -/
structure Saturates (op : Word → Word → Word) (f : Nat → Nat → Nat) : Prop where
  value : ∀ a b : Word, op a b = clamp (f a.toNat b.toNat)
  absorbs : ∀ (n : Nat) (b : Word), clamp (f (clamp n).toNat b.toNat) = clamp (f n b.toNat)

theorem saturates_add : Saturates saturatingAdd (· + ·) where
  value _ _ := rfl
  absorbs n b := by
    apply ext
    simp only [toNat_clamp]
    omega

theorem saturates_mul : Saturates saturatingMul (· * ·) where
  value _ _ := rfl
  absorbs n b := by
    by_cases hn : n < size
    · rw [clamp_of_lt hn]
    by_cases hb : b.toNat = 0
    · -- a zero behind a clamped value
      simp [hb]
    · have hpos : 1 ≤ b.toNat := by omega
      have hmax : (clamp n).toNat = size - 1 := by
        rw [toNat_clamp]
        omega
      have hclamped : size - 1 ≤ (clamp n).toNat * b.toNat := by
        rw [hmax]
        exact Nat.le_mul_of_pos_right _ hpos
      have hexact : size - 1 ≤ n * b.toNat :=
        calc size - 1 ≤ n := by omega
          _ ≤ n * b.toNat := Nat.le_mul_of_pos_right _ hpos
      rw [clamp_of_le hclamped, clamp_of_le hexact]

/-- **Clamping at every step is clamping once.** -/
theorem foldl_clamp {op : Word → Word → Word} {f : Nat → Nat → Nat} (h : Saturates op f) (n : Nat)
    (xs : List Word) : xs.foldl op (clamp n) = clamp (foldNat f n xs) := by
  induction xs generalizing n with
  | nil => rfl
  | cons x xs ih =>
      have hstep : op (clamp n) x = clamp (f n x.toNat) := by
        rw [h.value, h.absorbs]
      rw [List.foldl_cons, hstep, ih]
      rfl

theorem saturatingSum_eq (x : Word) (xs : List Word) :
    saturatingSum x xs = clamp (natSum (x :: xs)) := by
  have hfold := foldl_clamp saturates_add x.toNat xs
  rw [clamp_toNat, foldNat_add, ← natSum_cons] at hfold
  exact hfold

theorem saturatingProduct_eq (x : Word) (xs : List Word) :
    saturatingProduct x xs = clamp (natProd (x :: xs)) := by
  have hfold := foldl_clamp saturates_mul x.toNat xs
  rw [clamp_toNat, foldNat_mul, ← natProd_cons] at hfold
  exact hfold

/-- Differences of natural numbers stop at zero by themselves. -/
theorem toNat_saturatingDifference (x : Word) (xs : List Word) :
    (saturatingDifference x xs).toNat = x.toNat - natSum xs := by
  have hfold : (saturatingDifference x xs).toNat = foldNat (· - ·) x.toNat xs := by
    induction xs generalizing x with
    | nil => rfl
    | cons y ys ih => exact ih (saturatingSub x y)
  rw [hfold, foldNat_sub]

end Word

/-! ## 3. Functions -/

namespace WordFunction

/-- **The function answers the number.** -/
def Answers (f : WordFunction) (inputs : List Word) (n : Int) : Prop :=
  ∃ w : Word, f.apply inputs = some (.ok w) ∧ (w.toNat : Int) = n

/-- The number determines the word. -/
theorem Answers.apply_eq {f : WordFunction} {inputs : List Word} {n : Int} {w : Word}
    (h : f.Answers inputs n) (hw : (w.toNat : Int) = n) : f.apply inputs = some (.ok w) := by
  obtain ⟨w', hw', hn⟩ := h
  have heq : w' = w := Word.ext (by omega)
  rw [hw', heq]

theorem Answers.unique {f : WordFunction} {inputs inputs' : List Word} {n : Int}
    (h : f.Answers inputs n) (h' : f.Answers inputs' n) : f.apply inputs' = f.apply inputs := by
  obtain ⟨w, hw, hn⟩ := h
  rw [hw]
  exact h'.apply_eq hn

/-- A word that a checked function gives is its number. -/
theorem Gives.toNat_of_apply {f : WordFunction} {inputs : List Word} {fits : Prop} {n : Nat}
    {fault : ArithmeticFault} (h : Gives f inputs fits n fault) {w : Word}
    (hw : f.apply inputs = some (.ok w)) : w.toNat = n := by
  by_cases hfits : fits
  · obtain ⟨w', hw', hn⟩ := h.value hfits
    rw [hw] at hw'
    cases hw'
    exact hn
  · rw [h.failure hfits] at hw
    cases hw

end WordFunction

open WordFunction (Answers)

theorem saturatingAdd_answers (x : Word) (xs : List Word) :
    Answers .saturatingAdd (x :: xs) (min (Word.natSum (x :: xs) : Int) (Word.size - 1)) := by
  have hpos := Word.size_pos
  refine ⟨Word.saturatingSum x xs, rfl, ?_⟩
  rw [Word.saturatingSum_eq, Word.toNat_clamp]
  omega

theorem saturatingMul_answers (x : Word) (xs : List Word) :
    Answers .saturatingMul (x :: xs) (min (Word.natProd (x :: xs) : Int) (Word.size - 1)) := by
  have hpos := Word.size_pos
  refine ⟨Word.saturatingProduct x xs, rfl, ?_⟩
  rw [Word.saturatingProduct_eq, Word.toNat_clamp]
  omega

theorem saturatingSub_answers (x : Word) (xs : List Word) :
    Answers .saturatingSub (x :: xs) (max (x.toNat - Word.natSum xs : Int) 0) := by
  refine ⟨Word.saturatingDifference x xs, rfl, ?_⟩
  rw [Word.toNat_saturatingDifference]
  omega

/-- **Saturating folds clamp the true result.** Whatever the inputs, and with numbers of any size:

* `saturating-add` answers the sum, or the largest word if the sum is larger;
* `saturating-mul` answers the product, or the largest word if the product is larger. The product is
  zero if some input is, also behind a value that had to be clamped;
* `saturating-sub` answers the first input less the sum of the others, or zero if that is negative.

So the first two do not depend on the order of their inputs, and the third one does not depend on
the order of those behind the first. Where `add`, `mul` or `sub` succeeds, the saturating function
gives the same word. -/
theorem saturating_folds_clamp (x : Word) (xs : List Word) :
    Answers .saturatingAdd (x :: xs) (min (Word.natSum (x :: xs) : Int) (Word.size - 1)) ∧
    Answers .saturatingMul (x :: xs) (min (Word.natProd (x :: xs) : Int) (Word.size - 1)) ∧
    Answers .saturatingSub (x :: xs) (max (x.toNat - Word.natSum xs : Int) 0) ∧
    (∀ ys, (x :: xs).Perm ys →
      WordFunction.saturatingAdd.apply ys = WordFunction.saturatingAdd.apply (x :: xs) ∧
      WordFunction.saturatingMul.apply ys = WordFunction.saturatingMul.apply (x :: xs)) ∧
    (∀ ys, xs.Perm ys →
      WordFunction.saturatingSub.apply (x :: ys) = WordFunction.saturatingSub.apply (x :: xs)) ∧
    (∀ w, WordFunction.add.apply (x :: xs) = some (.ok w) →
      WordFunction.saturatingAdd.apply (x :: xs) = some (.ok w)) ∧
    (∀ w, WordFunction.mul.apply (x :: xs) = some (.ok w) →
      WordFunction.saturatingMul.apply (x :: xs) = some (.ok w)) ∧
    (∀ w, WordFunction.sub.apply (x :: xs) = some (.ok w) →
      WordFunction.saturatingSub.apply (x :: xs) = some (.ok w)) := by
  refine ⟨saturatingAdd_answers x xs, saturatingMul_answers x xs, saturatingSub_answers x xs,
    fun ys hperm => ?_, fun ys hperm => ?_, fun w hw => ?_, fun w hw => ?_, fun w hw => ?_⟩
  · obtain ⟨y, ys, rfl⟩ := List.exists_cons_of_ne_nil fun hnil =>
      List.cons_ne_nil x xs (List.perm_nil.1 (hnil ▸ hperm))
    have hadd := saturatingAdd_answers y ys
    have hmul := saturatingMul_answers y ys
    rw [← Word.natSum_perm hperm] at hadd
    rw [← Word.natProd_perm hperm] at hmul
    exact ⟨(saturatingAdd_answers x xs).unique hadd, (saturatingMul_answers x xs).unique hmul⟩
  · have hsub := saturatingSub_answers x ys
    rw [← Word.natSum_perm hperm] at hsub
    exact (saturatingSub_answers x xs).unique hsub
  · have hn := (Word.add_gives x xs).toNat_of_apply hw
    have hlt := w.isLt
    exact (saturatingAdd_answers x xs).apply_eq (by omega)
  · have hn := (Word.mul_gives x xs).toNat_of_apply hw
    have hlt := w.isLt
    exact (saturatingMul_answers x xs).apply_eq (by omega)
  · have hn := (Word.sub_gives x xs).toNat_of_apply hw
    exact (saturatingSub_answers x xs).apply_eq (by omega)

/-- A zero behind a clamped value is not too late, as it is for `mul`. -/
example : WordFunction.saturatingMul.apply [.max, .max, .zero] = some (.ok .zero) ∧
    WordFunction.mul.apply [.max, .max, .zero] = some (.error .overflow) := by decide

end WordMachine
