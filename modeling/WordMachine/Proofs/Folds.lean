import Mathlib.Algebra.BigOperators.Group.List.Lemmas
import Mathlib.Algebra.BigOperators.Ring.List
import Mathlib.Algebra.Ring.Nat
import WordMachine.Word.Function

/-!
# Checked folds in closed form

A checked function takes its inputs one by one, from the left, and gives up at the first value on
the way that is no word. So it might fail where the result itself would be a word, and the order of
the inputs might matter. Here the folds are compared with sums, products and powers of natural
numbers, which have no largest one.

* `Computes` says what one checked operation does, in natural numbers;
* `EachStep` says that a fold gets through, and `foldChecked_gives` what it gives then;
* sums, differences and quotients have one test on the totals (`checkedFolds_closed`): they do not
  fail on the way, and the order does not matter;
* products and powers have a test on every beginning of the list (`product_power_exact`): a zero
  behind an overflow comes too late.
-/

namespace WordMachine

namespace Word

/-- The sum of some words, which need not be a word. -/
def natSum (words : List Word) : Nat := (words.map toNat).sum

/-- The product of some words, which need not be a word. -/
def natProd (words : List Word) : Nat := (words.map toNat).prod

@[simp] theorem natSum_nil : natSum [] = 0 := rfl

@[simp] theorem natSum_cons (x : Word) (xs : List Word) :
    natSum (x :: xs) = x.toNat + natSum xs := List.sum_cons

@[simp] theorem natProd_nil : natProd [] = 1 := rfl

@[simp] theorem natProd_cons (x : Word) (xs : List Word) :
    natProd (x :: xs) = x.toNat * natProd xs := List.prod_cons

theorem natSum_perm {xs ys : List Word} (h : xs.Perm ys) : natSum xs = natSum ys :=
  (h.map toNat).sum_eq

theorem natProd_perm {xs ys : List Word} (h : xs.Perm ys) : natProd xs = natProd ys :=
  (h.map toNat).prod_eq

theorem forall_ne_zero_iff {xs : List Word} : (∀ x ∈ xs, x.toNat ≠ 0) ↔ zero ∉ xs := by
  constructor
  · exact fun h hmem => h zero hmem rfl
  · intro h x hx hzero
    have heq : x = zero := ext hzero
    exact h (heq ▸ hx)

/-- Only a zero among the factors makes a product zero. -/
theorem natProd_pos {xs : List Word} (h : zero ∉ xs) : 0 < natProd xs := by
  have hfactors : 0 ∉ xs.map toNat := by
    intro hmem
    obtain ⟨x, hx, hzero⟩ := List.mem_map.1 hmem
    exact forall_ne_zero_iff.2 h x hx hzero
  exact Nat.pos_of_ne_zero (List.prod_ne_zero hfactors)

/-- Without a zero, no beginning of a list has a larger product than the list. -/
theorem natProd_beginning_le {xs ys : List Word} (h : zero ∉ xs) (hys : ys <+: xs) :
    natProd ys ≤ natProd xs :=
  Nat.le_of_dvd (natProd_pos h) (hys.sublist.map toNat).prod_dvd_prod

/-! ## 1. One step -/

/-- **A checked operation computes `f` where that is allowed**, and has no value elsewhere. -/
structure Computes (op : Word → Word → Option Word) (allowed : Nat → Nat → Prop)
    (f : Nat → Nat → Nat) : Prop where
  value : ∀ a b : Word, allowed a.toNat b.toNat →
    ∃ w, op a b = some w ∧ w.toNat = f a.toNat b.toNat
  refusal : ∀ a b : Word, ¬ allowed a.toNat b.toNat → op a b = none

/-- An operation whose only check is that its value is a word. -/
theorem computes_of_ofNat? {op : Word → Word → Option Word} {f : Nat → Nat → Nat}
    (h : ∀ a b, op a b = ofNat? (f a.toNat b.toNat)) :
    Computes op (fun a b => f a b < size) f where
  value a b hlt := by
    refine ⟨⟨f a.toNat b.toNat, hlt⟩, ?_, rfl⟩
    rw [h, ofNat?_eq_some_iff]
  refusal a b hge := by
    rw [h, ofNat?_eq_none_iff]
    exact Nat.not_lt.1 hge

/-- An operation that is known by the values it has. -/
theorem computes_of_iff {op : Word → Word → Option Word} {allowed : Nat → Nat → Prop}
    {f : Nat → Nat → Nat} (hle : ∀ a b, f a b ≤ a)
    (h : ∀ {a b w}, op a b = some w ↔ allowed a.toNat b.toNat ∧ w.toNat = f a.toNat b.toNat) :
    Computes op allowed f where
  value a b hallowed := by
    have hlt : f a.toNat b.toNat < size := Nat.lt_of_le_of_lt (hle _ _) a.isLt
    exact ⟨⟨f a.toNat b.toNat, hlt⟩, h.2 ⟨hallowed, rfl⟩, rfl⟩
  refusal a b hnot := by
    refine Option.eq_none_iff_forall_ne_some.2 fun w hw => ?_
    exact hnot (h.1 hw).1

theorem computes_sub : Computes sub? (fun a b => b ≤ a) (· - ·) :=
  computes_of_iff Nat.sub_le sub?_eq_some_iff

theorem computes_div : Computes div? (fun _ b => b ≠ 0) (· / ·) :=
  computes_of_iff Nat.div_le_self div?_eq_some_iff

theorem computes_mod : Computes mod? (fun _ b => b ≠ 0) (· % ·) :=
  computes_of_iff Nat.mod_le mod?_eq_some_iff

/-! ## 2. Folds -/

/-- **Each step of a fold is allowed**, from a number on. -/
def EachStep (allowed : Nat → Nat → Prop) (f : Nat → Nat → Nat) : Nat → List Word → Prop
  | _, [] => True
  | a, b :: bs => allowed a b.toNat ∧ EachStep allowed f (f a b.toNat) bs

/-- The number that a fold comes to. -/
def foldNat (f : Nat → Nat → Nat) (a : Nat) (bs : List Word) : Nat :=
  bs.foldl (fun a b => f a b.toNat) a

end Word

/-- **The function gives the number if the condition holds, and the fault if it does not.** -/
structure WordFunction.Gives (f : WordFunction) (inputs : List Word) (fits : Prop) (n : Nat)
    (fault : ArithmeticFault) : Prop where
  value : fits → ∃ w : Word, f.apply inputs = some (.ok w) ∧ w.toNat = n
  failure : ¬ fits → f.apply inputs = some (.error fault)

open WordFunction (Gives)

/-- The number and the condition determine the outcome. -/
theorem WordFunction.Gives.unique {f : WordFunction} {inputs inputs' : List Word} {fits : Prop}
    {n : Nat} {fault : ArithmeticFault} (h : Gives f inputs fits n fault)
    (h' : Gives f inputs' fits n fault) : f.apply inputs' = f.apply inputs := by
  by_cases hfits : fits
  · obtain ⟨w, hw, hn⟩ := h.value hfits
    obtain ⟨w', hw', hn'⟩ := h'.value hfits
    have heq : w' = w := Word.ext (hn'.trans hn.symm)
    rw [hw, hw', heq]
  · rw [h.failure hfits, h'.failure hfits]

namespace Word

variable {op : Word → Word → Option Word} {allowed : Nat → Nat → Prop} {f : Nat → Nat → Nat}

theorem foldChecked_of_eachStep (h : Computes op allowed f) (fault : ArithmeticFault)
    {xs : List Word} {x : Word} (hsteps : EachStep allowed f x.toNat xs) :
    ∃ w, foldChecked op fault x xs = .ok w ∧ w.toNat = foldNat f x.toNat xs := by
  induction xs generalizing x with
  | nil => exact ⟨x, rfl, rfl⟩
  | cons y ys ih =>
      obtain ⟨hfirst, hrest⟩ := hsteps
      obtain ⟨r, hr, hvalue⟩ := h.value x y hfirst
      rw [← hvalue] at hrest
      obtain ⟨w, hw, hn⟩ := ih hrest
      refine ⟨w, ?_, ?_⟩
      · rw [foldChecked, hr]
        exact hw
      · rw [hn, hvalue]
        rfl

theorem foldChecked_of_not_eachStep (h : Computes op allowed f) (fault : ArithmeticFault)
    {xs : List Word} {x : Word} (hsteps : ¬ EachStep allowed f x.toNat xs) :
    foldChecked op fault x xs = .error fault := by
  induction xs generalizing x with
  | nil => exact absurd trivial hsteps
  | cons y ys ih =>
      by_cases hfirst : allowed x.toNat y.toNat
      · obtain ⟨r, hr, hvalue⟩ := h.value x y hfirst
        have hrest : ¬ EachStep allowed f r.toNat ys := by
          rw [hvalue]
          exact fun hrest => hsteps ⟨hfirst, hrest⟩
        rw [foldChecked, hr]
        exact ih hrest
      · rw [foldChecked, h.refusal x y hfirst]

/-- **What a checked fold gives**, once its condition and its value are known in closed form. -/
theorem foldChecked_gives (h : Computes op allowed f) {g : WordFunction} {fault : ArithmeticFault}
    {x : Word} {xs : List Word} (hg : g.apply (x :: xs) = some (foldChecked op fault x xs))
    {fits : Prop} {n : Nat} (hfits : EachStep allowed f x.toNat xs ↔ fits)
    (hn : foldNat f x.toNat xs = n) : Gives g (x :: xs) fits n fault where
  value hholds := by
    obtain ⟨w, hw, hvalue⟩ := foldChecked_of_eachStep h fault (hfits.2 hholds)
    exact ⟨w, by rw [hg, hw], hvalue.trans hn⟩
  failure hnot := by
    rw [hg, foldChecked_of_not_eachStep h fault fun hsteps => hnot (hfits.1 hsteps)]

/-- Where an input is allowed or not whatever came before, each input has to be. -/
theorem eachStep_iff_forall {good : Nat → Prop} {xs : List Word} (a : Nat) :
    EachStep (fun _ b => good b) f a xs ↔ ∀ x ∈ xs, good x.toNat := by
  induction xs generalizing a with
  | nil => simp [EachStep]
  | cons x xs ih => simp [EachStep, ih]

/-- Where every value on the way has to be a word, every beginning of the list has to come to
one. -/
theorem eachStep_iff_beginnings {xs : List Word} (a : Nat) :
    EachStep (fun a b => f a b < size) f a xs ↔
      ∀ ys, ys ≠ [] → ys <+: xs → foldNat f a ys < size := by
  induction xs generalizing a with
  | nil =>
      refine ⟨fun _ ys hne hys => ?_, fun _ => trivial⟩
      exact absurd (List.prefix_nil.1 hys) hne
  | cons x xs ih =>
      constructor
      · rintro ⟨hfirst, hrest⟩ ys hne hys
        rcases List.prefix_cons_iff.1 hys with rfl | ⟨zs, rfl, hzs⟩
        · exact absurd rfl hne
        · by_cases hnil : zs = []
          · subst hnil
            exact hfirst
          · exact (ih _).1 hrest zs hnil hzs
      · intro h
        refine ⟨h [x] (List.cons_ne_nil _ _) (by simp), (ih _).2 fun ys _ hys => ?_⟩
        exact h (x :: ys) (List.cons_ne_nil _ _) (List.cons_prefix_cons.2 ⟨rfl, hys⟩)

/-! ## 3. The numbers that the folds come to -/

theorem foldNat_add (a : Nat) (xs : List Word) : foldNat (· + ·) a xs = a + natSum xs := by
  induction xs generalizing a with
  | nil => rfl
  | cons x xs ih =>
      rw [natSum_cons, ← Nat.add_assoc]
      exact ih _

theorem foldNat_sub (a : Nat) (xs : List Word) : foldNat (· - ·) a xs = a - natSum xs := by
  induction xs generalizing a with
  | nil => rfl
  | cons x xs ih =>
      rw [natSum_cons, ← Nat.sub_sub]
      exact ih _

theorem foldNat_mul (a : Nat) (xs : List Word) : foldNat (· * ·) a xs = a * natProd xs := by
  induction xs generalizing a with
  | nil => exact (Nat.mul_one a).symm
  | cons x xs ih =>
      rw [natProd_cons, ← Nat.mul_assoc]
      exact ih _

/-- Rounding down at every step is rounding down once. -/
theorem foldNat_div (a : Nat) (xs : List Word) : foldNat (· / ·) a xs = a / natProd xs := by
  induction xs generalizing a with
  | nil => exact (Nat.div_one a).symm
  | cons x xs ih =>
      rw [natProd_cons, ← Nat.div_div_eq_div_mul]
      exact ih _

theorem foldNat_pow (a : Nat) (xs : List Word) : foldNat (· ^ ·) a xs = a ^ natProd xs := by
  induction xs generalizing a with
  | nil => exact (Nat.pow_one a).symm
  | cons x xs ih =>
      rw [natProd_cons, Nat.pow_mul]
      exact ih _

/-! ## 4. Sums, differences and quotients -/

/-- A sum does not shrink on the way, so only its end has to be a word. -/
theorem eachStep_add {x : Word} {xs : List Word} :
    EachStep (fun a b => a + b < size) (· + ·) x.toNat xs ↔ natSum (x :: xs) < size := by
  rw [eachStep_iff_beginnings, natSum_cons]
  constructor
  · intro h
    by_cases hnil : xs = []
    · subst hnil
      exact x.isLt
    · have hall := h xs hnil (List.prefix_refl xs)
      rwa [foldNat_add] at hall
  · rintro h ys - ⟨zs, rfl⟩
    have hle : natSum ys ≤ natSum (ys ++ zs) := by simp [natSum]
    rw [foldNat_add]
    omega

theorem eachStep_sub (a : Nat) {xs : List Word} :
    EachStep (fun a b => b ≤ a) (· - ·) a xs ↔ natSum xs ≤ a := by
  induction xs generalizing a with
  | nil => exact ⟨fun _ => Nat.zero_le a, fun _ => trivial⟩
  | cons x xs ih =>
      unfold EachStep
      rw [ih, natSum_cons]
      omega

theorem add_gives (x : Word) (xs : List Word) :
    Gives .add (x :: xs) (natSum (x :: xs) < size) (natSum (x :: xs)) .overflow :=
  foldChecked_gives (computes_of_ofNat? fun _ _ => rfl) rfl eachStep_add
    ((foldNat_add _ _).trans (natSum_cons x xs).symm)

theorem sub_gives (x : Word) (xs : List Word) :
    Gives .sub (x :: xs) (natSum xs ≤ x.toNat) (x.toNat - natSum xs) .underflow :=
  foldChecked_gives computes_sub rfl (eachStep_sub _) (foldNat_sub _ _)

theorem div_gives (x : Word) (xs : List Word) :
    Gives .div (x :: xs) (zero ∉ xs) (x.toNat / natProd xs) .divisionByZero :=
  foldChecked_gives computes_div rfl ((eachStep_iff_forall _).trans forall_ne_zero_iff)
    (foldNat_div _ _)

theorem mod_gives (x : Word) (xs : List Word) :
    Gives .mod (x :: xs) (zero ∉ xs) (foldNat (· % ·) x.toNat xs) .divisionByZero :=
  foldChecked_gives computes_mod rfl ((eachStep_iff_forall _).trans forall_ne_zero_iff) rfl

/-- **Sums, differences and quotients in closed form.** Whatever the inputs, and over the natural
numbers:

* `add` gives the sum if that is a word, and overflows otherwise;
* `sub` gives the first input less the sum of the others if that sum is not larger, and underflows
  otherwise;
* `div` gives the first input divided by the product of the others, rounded down, if none of these
  is zero, and divides by zero otherwise. The product need not be a word;
* `mod` divides by zero exactly if one of the others is zero.

So `add` does not depend on the order of its inputs, and `sub` and `div` do not depend on the order
of those behind the first. -/
theorem checkedFolds_closed (x : Word) (xs : List Word) :
    Gives .add (x :: xs) (natSum (x :: xs) < size) (natSum (x :: xs)) .overflow ∧
    (∀ ys, (x :: xs).Perm ys → WordFunction.add.apply ys = WordFunction.add.apply (x :: xs)) ∧
    Gives .sub (x :: xs) (natSum xs ≤ x.toNat) (x.toNat - natSum xs) .underflow ∧
    Gives .div (x :: xs) (zero ∉ xs) (x.toNat / natProd xs) .divisionByZero ∧
    Gives .mod (x :: xs) (zero ∉ xs) (foldNat (· % ·) x.toNat xs) .divisionByZero ∧
    (∀ ys, xs.Perm ys →
      WordFunction.sub.apply (x :: ys) = WordFunction.sub.apply (x :: xs) ∧
      WordFunction.div.apply (x :: ys) = WordFunction.div.apply (x :: xs)) := by
  refine ⟨add_gives x xs, fun ys hperm => ?_, sub_gives x xs, div_gives x xs, mod_gives x xs,
    fun ys hperm => ⟨?_, ?_⟩⟩
  · obtain ⟨y, ys, rfl⟩ := List.exists_cons_of_ne_nil fun hnil =>
      List.cons_ne_nil x xs (List.perm_nil.1 (hnil ▸ hperm))
    have h := add_gives y ys
    rw [← natSum_perm hperm] at h
    exact (add_gives x xs).unique h
  · have h := sub_gives x ys
    rw [← natSum_perm hperm] at h
    exact (sub_gives x xs).unique h
  · have h := div_gives x ys
    rw [← natProd_perm hperm, ← hperm.mem_iff] at h
    exact (div_gives x xs).unique h

/-! ## 5. Products and powers -/

/-- Every beginning of the factors has a product that is a word. -/
def ProductsFit (words : List Word) : Prop := ∀ ys, ys <+: words → natProd ys < size

theorem eachStep_mul {x : Word} {xs : List Word} :
    EachStep (fun a b => a * b < size) (· * ·) x.toNat xs ↔ ProductsFit (x :: xs) := by
  rw [eachStep_iff_beginnings]
  constructor
  · intro h ys hys
    rcases List.prefix_cons_iff.1 hys with rfl | ⟨zs, rfl, hzs⟩
    · exact one.isLt
    · by_cases hnil : zs = []
      · subst hnil
        simpa using x.isLt
      · have hprod := h zs hnil hzs
        rwa [foldNat_mul, ← natProd_cons] at hprod
  · intro h ys _ hys
    have hprod := h (x :: ys) (List.cons_prefix_cons.2 ⟨rfl, hys⟩)
    rwa [foldNat_mul, ← natProd_cons]

/-- Without a zero, a product does not shrink on the way. -/
theorem productsFit_iff {words : List Word} (h : zero ∉ words) :
    ProductsFit words ↔ natProd words < size := by
  constructor
  · exact fun hfit => hfit words (List.prefix_refl words)
  · exact fun hlt ys hys => Nat.lt_of_le_of_lt (natProd_beginning_le h hys) hlt

theorem mul_gives (x : Word) (xs : List Word) :
    Gives .mul (x :: xs) (ProductsFit (x :: xs)) (natProd (x :: xs)) .overflow :=
  foldChecked_gives (computes_of_ofNat? fun _ _ => rfl) rfl eachStep_mul
    ((foldNat_mul _ _).trans (natProd_cons x xs).symm)

theorem exp_gives (x : Word) (xs : List Word) :
    Gives .exp (x :: xs) (∀ ys, ys ≠ [] → ys <+: xs → x.toNat ^ natProd ys < size)
      (x.toNat ^ natProd xs) .overflow := by
  refine foldChecked_gives (computes_of_ofNat? pow?_eq_ofNat?) rfl ?_ (foldNat_pow _ _)
  refine (eachStep_iff_beginnings (f := (· ^ ·)) x.toNat).trans ?_
  simp only [foldNat_pow]

/-- **Products and powers, exactly.** Whatever the inputs, and over the natural numbers:

* `mul` gives the product if every beginning of the inputs has a product that is a word, and
  overflows otherwise. If no input is zero, this is to say that the whole product is a word, and
  then the order of the inputs does not matter;
* `exp` gives the first input to the product of the others if the same holds with the product of
  every beginning of these, and overflows otherwise. Zero to zero is one. -/
theorem product_power_exact (x : Word) (xs : List Word) :
    Gives .mul (x :: xs) (∀ ys, ys <+: x :: xs → natProd ys < size) (natProd (x :: xs)) .overflow ∧
    (zero ∉ x :: xs →
      ((∀ ys, ys <+: x :: xs → natProd ys < size) ↔ natProd (x :: xs) < size) ∧
      ∀ ys, (x :: xs).Perm ys → WordFunction.mul.apply ys = WordFunction.mul.apply (x :: xs)) ∧
    Gives .exp (x :: xs) (∀ ys, ys ≠ [] → ys <+: xs → x.toNat ^ natProd ys < size)
      (x.toNat ^ natProd xs) .overflow ∧
    WordFunction.exp.apply [zero, zero] = some (.ok one) := by
  refine ⟨mul_gives x xs, fun hzero => ⟨productsFit_iff hzero, fun ys hperm => ?_⟩,
    exp_gives x xs, rfl⟩
  obtain ⟨y, ys, rfl⟩ := List.exists_cons_of_ne_nil fun hnil =>
    List.cons_ne_nil x xs (List.perm_nil.1 (hnil ▸ hperm))
  have hzero' : zero ∉ y :: ys := fun hmem => hzero (hperm.mem_iff.2 hmem)
  have h := mul_gives y ys
  have h' := mul_gives x xs
  rw [productsFit_iff hzero', ← natProd_perm hperm] at h
  rw [productsFit_iff hzero] at h'
  exact h'.unique h

/-- A zero in front keeps a product small, a zero behind an overflow comes too late. -/
example : WordFunction.mul.apply [zero, max, max] = some (.ok zero) ∧
    WordFunction.mul.apply [max, max, zero] = some (.error .overflow) := by decide

end Word

end WordMachine
