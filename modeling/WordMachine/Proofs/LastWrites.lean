import Mathlib.Data.List.Induction
import Mathlib.Data.List.Nodup
import WordMachine.Proofs.TokenTable

/-!
# The last write counts

A fixed host is built up by writes: the supply of a token is set (`withToken`), or the balance of an
account in a token (`withBalance`). Either one puts the token into the table if it is not there.
Reads and writes search the table each on their own, and a document may give an account several
balances. Here it is shown that nevertheless

* a token is a map from its slots to amounts, where setting one slot leaves the others
  (`Token.amount_set`);
* one write changes one slot of one token, and makes the token known (`FixedHost.amount?_write`);
* after any writes each slot has the amount that was written last, or what it had at first
  (`FixedHost.amount?_writeAll`);
* accounts that are distinct stay distinct (`Token.nodup_accounts_set`).
-/

namespace WordMachine

/-! ## 1. The slots of a token -/

/-- What a token has an amount for. -/
inductive TokenSlot where
  | supply
  | balance (account : Word)
deriving DecidableEq

namespace Token

/-- The amount in a slot. -/
def amount (t : Token) : TokenSlot → Word
  | .supply => t.totalSupply
  | .balance account => t.balanceOf account

/-- The token with an amount put into a slot. -/
def set (t : Token) (amount : Word) : TokenSlot → Token
  | .supply => { t with totalSupply := amount }
  | .balance account => { t with balances := setBalance account amount t.balances }

/-- The accounts that have balances, in their order. -/
def accounts (t : Token) : List Word := t.balances.map (·.account)

theorem find?_setBalance (account other amount : Word) (balances : List Balance) :
    (setBalance account amount balances).find? (·.account = other) =
      if other = account then some ⟨account, amount⟩ else balances.find? (·.account = other) := by
  induction balances with
  | nil =>
      by_cases h : other = account
      · simp [setBalance, h]
      · simp [setBalance, h, Ne.symm h]
  | cons first rest ih =>
      unfold setBalance
      by_cases hfirst : first.account = account
      · by_cases h : other = account
        · simp [hfirst, h]
        · simp [hfirst, h, Ne.symm h]
      · rw [if_neg hfirst, List.find?_cons, ih, List.find?_cons]
        by_cases h : other = account
        · simp [h, hfirst]
        · simp [h]

/-- **Setting one slot leaves the others as they are**, whether or not accounts are repeated. -/
theorem amount_set (t : Token) (amount : Word) (slot other : TokenSlot) :
    (t.set amount slot).amount other = if other = slot then amount else t.amount other := by
  cases slot with
  | supply => cases other <;> simp [Token.amount, set, balanceOf]
  | balance account =>
      cases other with
      | supply => simp [Token.amount, set]
      | balance other =>
          by_cases h : other = account
          · simp [Token.amount, set, balanceOf, find?_setBalance, h]
          · simp [Token.amount, set, balanceOf, find?_setBalance, h]

/-- A token starts with nothing in any slot. -/
theorem amount_empty (slot : TokenSlot) : ({} : Token).amount slot = Word.zero := by
  cases slot <;> rfl

theorem accounts_setBalance (account amount : Word) (balances : List Balance) :
    (setBalance account amount balances).map (·.account) =
      if account ∈ balances.map (·.account) then balances.map (·.account)
      else balances.map (·.account) ++ [account] := by
  induction balances with
  | nil => simp [setBalance]
  | cons first rest ih =>
      unfold setBalance
      by_cases hfirst : first.account = account
      · simp [hfirst]
      · rw [if_neg hfirst, List.map_cons, ih, List.map_cons]
        by_cases h : account ∈ rest.map (·.account)
        · rw [if_pos h, if_pos (List.mem_cons_of_mem _ h)]
        · have hnew : account ∉ first.account :: rest.map (·.account) :=
            List.not_mem_cons_of_ne_of_not_mem (Ne.symm hfirst) h
          rw [if_neg h, if_neg hnew, List.cons_append]

/-- **Accounts that are distinct stay distinct.** -/
theorem nodup_accounts_set {t : Token} (h : t.accounts.Nodup) (amount : Word) (slot : TokenSlot) :
    (t.set amount slot).accounts.Nodup := by
  cases slot with
  | supply => exact h
  | balance account =>
      unfold accounts set
      dsimp only
      rw [accounts_setBalance]
      split
      · exact h
      · rename_i hnew
        exact List.Nodup.append h (List.nodup_singleton account) (List.disjoint_singleton.2 hnew)

end Token

/-- The addresses of the tokens in a table. -/
def TokenTable.addresses (table : TokenTable) : List Word := table.entries.map (·.1)

theorem TokenTable.get?_eq_none_iff {table : TokenTable} {address : Word} :
    table.get? address = none ↔ address ∉ table.addresses := by
  simp only [Option.eq_none_iff_forall_ne_some, ne_eq, ← mem_entries_iff, addresses, List.mem_map,
    Prod.exists, exists_and_right, exists_eq_right, not_exists]

/-! ## 2. Writes -/

/-- An amount for a slot of a token. -/
structure TokenWrite where
  token : Word
  slot : TokenSlot
  amount : Word

/-- The tokens that are named by writes. -/
def namedTokens (writes : List TokenWrite) : List Word := writes.map (·.token)

theorem mem_namedTokens_concat {writes : List TokenWrite} {w : TokenWrite} {token : Word} :
    token ∈ namedTokens (writes ++ [w]) ↔ token ∈ namedTokens writes ∨ w.token = token := by
  simp [namedTokens, eq_comm]

/-- The amount of the last write to a slot of a token. -/
def lastAmount? (writes : List TokenWrite) (token : Word) (slot : TokenSlot) : Option Word :=
  (writes.reverse.find? fun w => w.token = token ∧ w.slot = slot).map (·.amount)

theorem lastAmount?_concat (writes : List TokenWrite) (w : TokenWrite) (token : Word)
    (slot : TokenSlot) :
    lastAmount? (writes ++ [w]) token slot =
      if w.token = token ∧ w.slot = slot then some w.amount else lastAmount? writes token slot := by
  unfold lastAmount?
  rw [List.reverse_append, List.reverse_singleton, List.singleton_append, List.find?_cons]
  by_cases h : w.token = token ∧ w.slot = slot
  · simp [h]
  · simp [h]

namespace FixedHost

/-- A write into the table of a host. -/
def write (h : FixedHost) (w : TokenWrite) : FixedHost :=
  match w.slot with
  | .supply => h.withToken w.token w.amount
  | .balance account => h.withBalance w.token account w.amount

/-- Writes, one after the other. -/
def writeAll (h : FixedHost) (writes : List TokenWrite) : FixedHost := writes.foldl write h

theorem writeAll_concat (h : FixedHost) (writes : List TokenWrite) (w : TokenWrite) :
    h.writeAll (writes ++ [w]) = (h.writeAll writes).write w := by
  unfold writeAll
  rw [List.foldl_append]
  rfl

/-- A write is a change of one token, and of nothing else. -/
theorem write_eq (h : FixedHost) (w : TokenWrite) :
    h.write w = { h with tokens := h.tokens.modify w.token (·.set w.amount w.slot) } := by
  obtain ⟨token, slot, amount⟩ := w
  cases slot <;> rfl

/-- The amount in a slot of a token, if the token is known. -/
def amount? (h : FixedHost) (token : Word) (slot : TokenSlot) : Option Word :=
  (h.tokens.get? token).map (·.amount slot)

theorem amount?_eq_none_iff {h : FixedHost} {token : Word} {slot : TokenSlot} :
    h.amount? token slot = none ↔ token ∉ h.tokens.addresses := by
  rw [amount?, Option.map_eq_none_iff, TokenTable.get?_eq_none_iff]

/-- **One write changes one slot of one token**; the token's other slots are empty if it is new. -/
theorem amount?_write (h : FixedHost) (w : TokenWrite) (token : Word) (slot : TokenSlot) :
    (h.write w).amount? token slot =
      if w.token = token then
        some (if w.slot = slot then w.amount else (h.amount? token slot).getD Word.zero)
      else h.amount? token slot := by
  rw [write_eq]
  unfold amount?
  dsimp only
  rw [TokenTable.get?_modify]
  by_cases htoken : w.token = token
  · subst htoken
    have hold : ((h.tokens.get? w.token).getD {}).amount slot =
        ((h.tokens.get? w.token).map (·.amount slot)).getD Word.zero := by
      cases h.tokens.get? w.token with
      | none => exact Token.amount_empty slot
      | some t => rfl
    rw [if_pos rfl, if_pos rfl, Option.map_some, Token.amount_set, hold]
    by_cases hslot : w.slot = slot
    · rw [if_pos hslot, if_pos hslot.symm]
    · rw [if_neg hslot, if_neg (Ne.symm hslot)]
  · rw [if_neg htoken, if_neg (Ne.symm htoken)]

/-- **After any writes a slot has the amount that was written last.** Where none was written it has
what it had, and nothing if its token was new to the table. -/
theorem amount?_writeAll (h : FixedHost) (writes : List TokenWrite) (token : Word)
    (slot : TokenSlot) :
    (h.writeAll writes).amount? token slot =
      (lastAmount? writes token slot).or
        (if token ∈ namedTokens writes then some ((h.amount? token slot).getD Word.zero)
          else h.amount? token slot) := by
  -- from the last write back: it decides, or what the writes before it left
  induction writes using List.reverseRecOn with
  | nil => simp [writeAll, lastAmount?, namedTokens]
  | append_singleton writes w ih =>
      rw [writeAll_concat, amount?_write, ih, lastAmount?_concat]
      by_cases htoken : w.token = token
      · rw [if_pos htoken, if_pos (mem_namedTokens_concat.2 (Or.inr htoken))]
        by_cases hslot : w.slot = slot
        · rw [if_pos hslot, if_pos ⟨htoken, hslot⟩, Option.some_or]
        · have hother : ¬(w.token = token ∧ w.slot = slot) := fun hboth => hslot hboth.2
          rw [if_neg hslot, if_neg hother]
          cases lastAmount? writes token slot with
          | some amount => rfl
          | none => by_cases hbefore : token ∈ namedTokens writes <;> simp [hbefore]
      · have hother : ¬(w.token = token ∧ w.slot = slot) := fun hboth => htoken hboth.1
        rw [if_neg htoken, if_neg hother]
        simp only [mem_namedTokens_concat, htoken, or_false]

/-! ## 3. Reads after writes -/

/-- The read of a slot of a token. -/
def read (h : FixedHost) (token : Word) (slot : TokenSlot) : Except HostFault Word :=
  (h.amount? token slot).elim (.error (.unknownToken token)) .ok

theorem host_balanceOf (h : FixedHost) (token account : Word) :
    h.host.balanceOf token account = h.read token (.balance account) := by
  unfold host read amount?
  dsimp only
  cases h.tokens.get? token <;> rfl

theorem host_totalSupply (h : FixedHost) (token : Word) :
    h.host.totalSupply token = h.read token .supply := by
  unfold host read amount?
  dsimp only
  cases h.tokens.get? token <;> rfl

theorem read_eq_unknown_iff {h : FixedHost} {token : Word} {slot : TokenSlot} :
    h.read token slot = .error (.unknownToken token) ↔ token ∉ h.tokens.addresses := by
  rw [← amount?_eq_none_iff, read]
  cases h.amount? token slot <;> simp

/-- A read is answered with the amount that was written last. If none was, it is answered as at
first, and with zero where the token was put into the table by another write. -/
theorem read_writeAll (h : FixedHost) (writes : List TokenWrite) (token : Word)
    (slot : TokenSlot) :
    (h.writeAll writes).read token slot =
      (lastAmount? writes token slot).elim
        (if token ∉ h.tokens.addresses ∧ token ∈ namedTokens writes then .ok Word.zero
          else h.read token slot) .ok := by
  rw [read, amount?_writeAll, read]
  cases lastAmount? writes token slot with
  | some amount => rfl
  | none =>
      simp only [← @amount?_eq_none_iff h token slot]
      by_cases hnamed : token ∈ namedTokens writes
      · cases h.amount? token slot <;> simp [hnamed]
      · simp [hnamed]

theorem mem_addresses_write {h : FixedHost} {w : TokenWrite} {token : Word} :
    token ∈ (h.write w).tokens.addresses ↔ token ∈ h.tokens.addresses ∨ w.token = token := by
  rw [← not_iff_not, not_or, ← @amount?_eq_none_iff _ _ w.slot, ← @amount?_eq_none_iff h _ w.slot,
    amount?_write]
  by_cases htoken : w.token = token
  · simp [htoken]
  · simp [htoken]

/-- **A token is known after writes if it was known or is named.** -/
theorem mem_addresses_writeAll {h : FixedHost} {writes : List TokenWrite} {token : Word} :
    token ∈ (h.writeAll writes).tokens.addresses ↔
      token ∈ h.tokens.addresses ∨ token ∈ namedTokens writes := by
  induction writes using List.reverseRecOn with
  | nil => simp [writeAll, namedTokens]
  | append_singleton writes w ih =>
      rw [writeAll_concat, mem_addresses_write, ih, mem_namedTokens_concat, or_assoc]

theorem read_writeAll_eq_unknown_iff {h : FixedHost} {writes : List TokenWrite} {token : Word}
    {slot : TokenSlot} :
    (h.writeAll writes).read token slot = .error (.unknownToken token) ↔
      token ∉ h.tokens.addresses ∧ token ∉ namedTokens writes := by
  rw [read_eq_unknown_iff, mem_addresses_writeAll, not_or]

/-- Writes leave all but the table as it was. -/
theorem writeAll_eq (h : FixedHost) (writes : List TokenWrite) :
    h.writeAll writes = { h with tokens := (h.writeAll writes).tokens } := by
  induction writes using List.reverseRecOn with
  | nil => rfl
  | append_singleton writes w ih =>
      rw [writeAll_concat, write_eq, ih]

/-- **No account is repeated in a token by writes.** -/
theorem nodup_accounts_writeAll {h : FixedHost}
    (hdistinct : ∀ entry ∈ h.tokens.entries, entry.2.accounts.Nodup) (writes : List TokenWrite) :
    ∀ entry ∈ (h.writeAll writes).tokens.entries, entry.2.accounts.Nodup := by
  induction writes using List.reverseRecOn with
  | nil => exact hdistinct
  | append_singleton writes w ih =>
      rw [writeAll_concat, write_eq]
      exact TokenTable.forall_entries_modify List.nodup_nil
        (fun t ht => t.nodup_accounts_set ht w.amount w.slot) ih w.token

/-- **The last write counts.** After any writes into the table of any host, also of one that has
several balances of an account: a balance or supply that was written is read as it was written last;
one that was not is read as at first, and as zero if its token was unknown and is named by some
write; a token is unknown just if it was and no write names it; scalar values and the context are
read as before; and if no token had an account twice, none has. -/
theorem last_write_counts (h : FixedHost) (writes : List TokenWrite) :
    (∀ token account, (h.writeAll writes).host.balanceOf token account =
      (lastAmount? writes token (.balance account)).elim
        (if token ∉ h.tokens.addresses ∧ token ∈ namedTokens writes then .ok Word.zero
          else h.host.balanceOf token account) .ok) ∧
    (∀ token, (h.writeAll writes).host.totalSupply token =
      (lastAmount? writes token .supply).elim
        (if token ∉ h.tokens.addresses ∧ token ∈ namedTokens writes then .ok Word.zero
          else h.host.totalSupply token) .ok) ∧
    (∀ token account,
      (h.writeAll writes).host.balanceOf token account = .error (.unknownToken token) ↔
        token ∉ h.tokens.addresses ∧ token ∉ namedTokens writes) ∧
    (∀ token,
      (h.writeAll writes).host.totalSupply token = .error (.unknownToken token) ↔
        token ∉ h.tokens.addresses ∧ token ∉ namedTokens writes) ∧
    (h.writeAll writes).host.scalar = h.host.scalar ∧
    (h.writeAll writes).host.context = h.host.context ∧
    ((∀ entry ∈ h.tokens.entries, entry.2.accounts.Nodup) →
      ∀ entry ∈ (h.writeAll writes).tokens.entries, entry.2.accounts.Nodup) := by
  refine ⟨fun token account => ?_, fun token => ?_, fun token account => ?_, fun token => ?_, ?_, ?_,
    fun hdistinct => nodup_accounts_writeAll hdistinct writes⟩
  · rw [host_balanceOf, host_balanceOf, read_writeAll]
  · rw [host_totalSupply, host_totalSupply, read_writeAll]
  · rw [host_balanceOf, read_writeAll_eq_unknown_iff]
  · rw [host_totalSupply, read_writeAll_eq_unknown_iff]
  · rw [writeAll_eq]
    rfl
  · rw [writeAll_eq]
    rfl

/-- A host that knows one token, at the address one. -/
def holding (balances : List Balance) : FixedHost where
  tokens := TokenTable.ofList [(Word.one, { balances })]

/-- Writes to that token, two of them to one balance, and to another token in between. -/
def overwrites : List TokenWrite :=
  [⟨Word.one, .balance Word.one, Word.max⟩, ⟨Word.max, .balance Word.zero, Word.one⟩,
   ⟨Word.one, .supply, Word.max⟩, ⟨Word.one, .balance Word.one, Word.one⟩]

/-- Two accounts with two balances each. -/
def doubled : List Balance :=
  [⟨Word.zero, Word.max⟩, ⟨Word.one, Word.max⟩, ⟨Word.zero, Word.one⟩, ⟨Word.one, Word.zero⟩]

/-- Of two balances of an account the first one is written and read. -/
theorem last_write_counts_doubled :
    ((holding doubled).writeAll overwrites).host.balanceOf Word.one Word.one = .ok Word.one ∧
    ((holding doubled).writeAll overwrites).host.balanceOf Word.one Word.zero = .ok Word.max ∧
    ((holding doubled).writeAll overwrites).host.totalSupply Word.one = .ok Word.max ∧
    ((holding doubled).writeAll overwrites).host.balanceOf Word.max Word.zero = .ok Word.one ∧
    ((holding doubled).writeAll overwrites).host.balanceOf Word.max Word.one = .ok Word.zero ∧
    ((holding doubled).writeAll overwrites).host.totalSupply Word.max = .ok Word.zero ∧
    ((holding doubled).writeAll overwrites).host.totalSupply Word.zero =
      .error (.unknownToken Word.zero) ∧
    (∀ entry ∈ (holding (doubled.take 2)).tokens.entries, entry.2.accounts.Nodup) ∧
    ∀ entry ∈ ((holding (doubled.take 2)).writeAll overwrites).tokens.entries,
      entry.2.accounts.Nodup := by
  obtain ⟨hbalance, hsupply, -, hunknown, -⟩ := last_write_counts (holding doubled) overwrites
  obtain ⟨-, -, -, -, -, -, hkept⟩ := last_write_counts (holding (doubled.take 2)) overwrites
  have hdistinct : ∀ entry ∈ (holding (doubled.take 2)).tokens.entries,
      entry.2.accounts.Nodup := by decide
  exact ⟨hbalance _ _, hbalance _ _, hsupply _, hbalance _ _, hbalance _ _, hsupply _,
    (hunknown _).2 (by decide), hdistinct, hkept hdistinct⟩

end FixedHost

end WordMachine
