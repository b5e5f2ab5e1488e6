import Mathlib.Data.List.Forall2

/-!
# Loops that stop at the first fault

Assembling, decoding and resolving go through a list in the same way: what was made of the elements
before is kept, newest first, the index of the next element is counted along, and the first element
that nothing can be made of ends the loop with a fault that may hold the index. `Walks` says this of a
loop once its two relations are given, and two equivalences say what follows from it:

* `Walks.eq_ok_iff`: the loop answers what was made of the elements, if something was made of each;
* `Walks.eq_error_iff`: otherwise it answers the fault of the first element without.
-/

namespace WordMachine

/-- **A loop over a list**: `good a b` says that `b` is made of `a`, and `bad k a e` that nothing is
made of `a` and that `e` is its fault at index `k`. -/
structure Walks {α β ε : Type} (good : α → β → Prop) (bad : Nat → α → ε → Prop)
    (go : List β → Nat → List α → Except ε (List β)) : Prop where
  nil : ∀ read k, go read k [] = .ok read.reverse
  ok : ∀ {a b}, good a b → ∀ read k rest, go read k (a :: rest) = go (b :: read) (k + 1) rest
  error : ∀ {k a e}, bad k a e → ∀ read rest, go read k (a :: rest) = .error e
  total : ∀ k a, (∃ b, good a b) ∨ ∃ e, bad k a e

namespace Walks

variable {α β ε : Type} {good : α → β → Prop} {bad : Nat → α → ε → Prop}
  {go : List β → Nat → List α → Except ε (List β)}

theorem go_eq_ok_iff (h : Walks good bad go) {xs : List α} :
    ∀ {read : List β} {k : Nat} {ys : List β},
      go read k xs = .ok ys ↔ ∃ made, ys = read.reverse ++ made ∧ List.Forall₂ good xs made := by
  induction xs with
  | nil =>
      intro read k ys
      rw [h.nil]
      constructor
      · intro heq
        cases heq
        exact ⟨[], (List.append_nil _).symm, .nil⟩
      · rintro ⟨made, rfl, hmade⟩
        cases hmade
        rw [List.append_nil]
  | cons a xs ih =>
      intro read k ys
      constructor
      · intro hgo
        rcases h.total k a with ⟨b, hb⟩ | ⟨e, he⟩
        · rw [h.ok hb] at hgo
          obtain ⟨made, rfl, hmade⟩ := ih.1 hgo
          exact ⟨b :: made, by simp, .cons hb hmade⟩
        · rw [h.error he] at hgo
          cases hgo
      · rintro ⟨made, rfl, hmade⟩
        cases hmade with
        | cons hb hmade =>
            rw [h.ok hb]
            exact ih.2 ⟨_, by simp, hmade⟩

theorem go_eq_error_iff (h : Walks good bad go) {xs : List α} {e : ε} :
    ∀ {read : List β} {k : Nat},
      go read k xs = .error e ↔ ∃ j a, xs[j]? = some a ∧ bad (k + j) a e ∧
        ∀ j' < j, ∀ a', xs[j']? = some a' → ∃ b, good a' b := by
  induction xs with
  | nil =>
      intro read k
      rw [h.nil]
      constructor
      · intro heq
        cases heq
      · rintro ⟨j, a, hj, -⟩
        cases hj
  | cons a xs ih =>
      intro read k
      constructor
      · intro hgo
        rcases h.total k a with ⟨b, hb⟩ | ⟨e', he⟩
        · rw [h.ok hb] at hgo
          obtain ⟨j, a', hj, hbad, hbefore⟩ := ih.1 hgo
          -- one element further on in the list, and the index of the rest is one higher
          refine ⟨j + 1, a', hj, ?_, fun j' hj' => ?_⟩
          · rw [Nat.add_right_comm] at hbad
            exact hbad
          · cases j' with
            | zero =>
                intro a'' ha''
                cases ha''
                exact ⟨b, hb⟩
            | succ j' => exact hbefore j' (Nat.lt_of_succ_lt_succ hj')
        · rw [h.error he] at hgo
          cases hgo
          exact ⟨0, a, rfl, he, fun j' hj' => absurd hj' (Nat.not_lt_zero _)⟩
      · rintro ⟨j, a', hj, hbad, hbefore⟩
        cases j with
        | zero =>
            cases hj
            exact h.error hbad read xs
        | succ j =>
            obtain ⟨b, hb⟩ := hbefore 0 (Nat.succ_pos _) a rfl
            rw [h.ok hb]
            refine ih.2 ⟨j, a', hj, ?_, fun j' hj' => hbefore (j' + 1) (Nat.succ_lt_succ hj')⟩
            rw [Nat.add_right_comm]
            exact hbad

/-- **A whole run succeeds with what is made of the elements, one by one.** -/
theorem eq_ok_iff (h : Walks good bad go) {xs : List α} {k : Nat} {ys : List β} :
    go [] k xs = .ok ys ↔ List.Forall₂ good xs ys := by
  rw [h.go_eq_ok_iff]
  constructor
  · rintro ⟨made, rfl, hmade⟩
    exact hmade
  · exact fun hmade => ⟨ys, rfl, hmade⟩

/-- **A whole run fails with the fault of the first element that nothing is made of.** -/
theorem eq_error_iff (h : Walks good bad go) {xs : List α} {e : ε} :
    go [] 0 xs = .error e ↔ ∃ k a, xs[k]? = some a ∧ bad k a e ∧
      ∀ j < k, ∀ a', xs[j]? = some a' → ∃ b, good a' b := by
  rw [h.go_eq_error_iff]
  simp only [Nat.zero_add]

/-- Something is made of the whole list if something is made of each element. -/
theorem exists_made_iff {xs : List α} :
    (∃ made, List.Forall₂ good xs made) ↔ ∀ a ∈ xs, ∃ b, good a b := by
  induction xs with
  | nil => exact ⟨fun _ a ha => absurd ha List.not_mem_nil, fun _ => ⟨[], .nil⟩⟩
  | cons a xs ih =>
      rw [List.forall_mem_cons, ← ih]
      constructor
      · rintro ⟨made, hmade⟩
        cases hmade with
        | cons hb hmade => exact ⟨⟨_, hb⟩, _, hmade⟩
      · rintro ⟨⟨b, hb⟩, made, hmade⟩
        exact ⟨b :: made, .cons hb hmade⟩

theorem exists_ok_iff (h : Walks good bad go) {xs : List α} {k : Nat} :
    (∃ ys, go [] k xs = .ok ys) ↔ ∀ a ∈ xs, ∃ b, good a b := by
  rw [← exists_made_iff]
  exact exists_congr fun ys => h.eq_ok_iff

/-- An element that nothing can be made of is enough for a fault. -/
theorem exists_error (h : Walks good bad go) {xs : List α} {a : α} (hmem : a ∈ xs)
    (hnone : ∀ b, ¬ good a b) (k : Nat) : ∃ e, go [] k xs = .error e := by
  cases hgo : go [] k xs with
  | error e => exact ⟨e, rfl⟩
  | ok ys =>
      obtain ⟨b, hb⟩ := h.exists_ok_iff.1 ⟨ys, hgo⟩ a hmem
      exact absurd hb (hnone b)

end Walks

/-- The elements that something of a kind is made of, told from what is made of them. -/
theorem forall₂_eq_and_iff {α β : Type} {g : β → α} {p : β → Prop} {xs : List α} {ys : List β} :
    List.Forall₂ (fun a b => a = g b ∧ p b) xs ys ↔ xs = ys.map g ∧ ∀ b ∈ ys, p b := by
  induction ys generalizing xs with
  | nil =>
      rw [List.forall₂_nil_right_iff]
      exact ⟨fun h => ⟨h, fun b hb => absurd hb List.not_mem_nil⟩, fun h => h.1⟩
  | cons b ys ih =>
      rw [List.map_cons, List.forall_mem_cons]
      constructor
      · intro h
        cases h with
        | cons hb h =>
            obtain ⟨rfl, hys⟩ := ih.1 h
            exact ⟨by rw [hb.1], hb.2, hys⟩
      · rintro ⟨rfl, hb, hys⟩
        exact .cons ⟨rfl, hb⟩ (ih.2 ⟨rfl, hys⟩)

end WordMachine
