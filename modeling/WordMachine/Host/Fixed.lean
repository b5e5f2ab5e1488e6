import WordMachine.Host.Basic

/-!
# Fixed hosts

A host whose answers are written down. Its tokens are kept in a table ordered by address, each
address once; a token's balances are kept in the order in which they were given, and the first
balance of an account is the one that counts. In a document, tokens are listed in any order, and an
address may be listed more than once.
-/

namespace WordMachine

/-- What an account holds of a token. -/
structure Balance where
  account : Word
  amount : Word
deriving DecidableEq

/-- The state of a token. -/
structure Token where
  totalSupply : Word := Word.zero
  balances : List Balance := []
deriving DecidableEq

namespace Token

/-- The amount of an account's first balance; zero if it has none. -/
def balanceOf (t : Token) (account : Word) : Word :=
  match t.balances.find? (·.account = account) with
  | some b => b.amount
  | none => Word.zero

/-- Sets an account's first balance, or adds one at the end. -/
def setBalance (account amount : Word) : List Balance → List Balance
  | [] => [⟨account, amount⟩]
  | b :: rest =>
    if b.account = account then ⟨account, amount⟩ :: rest
    else b :: setBalance account amount rest

end Token

/-! ## The table of tokens -/

/-- Puts a token into an ordered list, in place of one with the same address. -/
def insertToken (address : Word) (token : Token) : List (Word × Token) → List (Word × Token)
  | [] => [(address, token)]
  | entry :: rest =>
    if address < entry.1 then (address, token) :: entry :: rest
    else if entry.1 < address then entry :: insertToken address token rest
    else (address, token) :: rest

theorem mem_insertToken {address : Word} {token : Token} {entry : Word × Token} :
    ∀ {entries : List (Word × Token)}, entry ∈ insertToken address token entries →
      entry = (address, token) ∨ entry ∈ entries
  | [], h => Or.inl (List.mem_singleton.1 h)
  | first :: rest, h => by
    unfold insertToken at h
    split at h
    · exact (List.mem_cons.1 h).imp id id
    · split at h
      · rcases List.mem_cons.1 h with rfl | h
        · exact Or.inr List.mem_cons_self
        · exact (mem_insertToken h).imp id (List.mem_cons_of_mem _)
      · exact (List.mem_cons.1 h).imp id (List.mem_cons_of_mem _)

theorem pairwise_insertToken {address : Word} {token : Token} :
    ∀ {entries : List (Word × Token)}, entries.Pairwise (fun a b => a.1 < b.1) →
      (insertToken address token entries).Pairwise (fun a b => a.1 < b.1)
  | [], _ => List.pairwise_singleton _ _
  | first :: rest, h => by
    obtain ⟨hfirst, hrest⟩ := List.pairwise_cons.1 h
    unfold insertToken
    split
    · rename_i hlt
      refine List.pairwise_cons.2 ⟨fun b hb => ?_, h⟩
      rcases List.mem_cons.1 hb with rfl | hb
      · exact hlt
      · exact Nat.lt_trans hlt (hfirst b hb)
    · rename_i hge
      split
      · rename_i hgt
        refine List.pairwise_cons.2 ⟨fun b hb => ?_, pairwise_insertToken hrest⟩
        rcases mem_insertToken hb with rfl | hb
        · exact hgt
        · exact hfirst b hb
      · rename_i hle
        have heq : address = first.1 := Word.ext (Nat.le_antisymm (Nat.not_lt.1 hle) (Nat.not_lt.1 hge))
        exact List.pairwise_cons.2 ⟨fun b hb => heq ▸ hfirst b hb, hrest⟩

/-- Tokens by address, in the order of their addresses. -/
structure TokenTable where
  entries : List (Word × Token) := []
  ordered : entries.Pairwise (fun a b => a.1 < b.1) := by exact .nil
deriving DecidableEq

namespace TokenTable

/-- The token at an address. -/
def get? (table : TokenTable) (address : Word) : Option Token :=
  (table.entries.find? (·.1 = address)).map (·.2)

/-- Puts a token at an address. -/
def insert (table : TokenTable) (address : Word) (token : Token) : TokenTable :=
  ⟨insertToken address token table.entries, pairwise_insertToken table.ordered⟩

/-- The table of the listed tokens; the last one listed for an address counts. -/
def ofList (tokens : List (Word × Token)) : TokenTable :=
  tokens.foldl (fun table entry => table.insert entry.1 entry.2) {}

/-- Changes the token at an address, a token without supply and balances if there is none. -/
def modify (table : TokenTable) (address : Word) (f : Token → Token) : TokenTable :=
  table.insert address (f ((table.get? address).getD {}))

end TokenTable

/-! ## The host -/

/-- A host whose answers are written down. -/
structure FixedHost where
  blockNumber : Option Word := none
  timestamp : Option Word := none
  caller : Option Word := none
  thisAddress : Option Word := none
  /-- The context grid, column by column; columns may differ in length. -/
  context : List (List Word) := []
  tokens : TokenTable := {}
deriving DecidableEq

namespace FixedHost

/-- The written scalar value. -/
def scalar? (h : FixedHost) : HostScalar → Option Word
  | .blockNumber => h.blockNumber
  | .timestamp => h.timestamp
  | .caller => h.caller
  | .thisAddress => h.thisAddress

/-- The written context cell. -/
def context? (h : FixedHost) (cell : ContextCell) : Option Word :=
  h.context[cell.column.val]?.bind fun column => column[cell.row.val]?

/-- Reads of the written state. -/
def host (h : FixedHost) : Host where
  scalar s :=
    match h.scalar? s with
    | some w => .ok w
    | none => .error (.unsupported (.scalar s))
  context c :=
    match h.context? c with
    | some w => .ok w
    | none => .error (.missingContext c)
  balanceOf token account :=
    match h.tokens.get? token with
    | some t => .ok (t.balanceOf account)
    | none => .error (.unknownToken token)
  totalSupply token :=
    match h.tokens.get? token with
    | some t => .ok t.totalSupply
    | none => .error (.unknownToken token)

/-- Sets the supply of a token. -/
def withToken (h : FixedHost) (address supply : Word) : FixedHost :=
  { h with tokens := h.tokens.modify address fun t => { t with totalSupply := supply } }

/-- Sets the balance of an account in a token. -/
def withBalance (h : FixedHost) (token account amount : Word) : FixedHost :=
  { h with
    tokens := h.tokens.modify token fun t =>
      { t with balances := Token.setBalance account amount t.balances } }

end FixedHost

/-! ## Listings -/

/-- A host as a document lists it. -/
structure HostListing where
  blockNumber : Option Word := none
  timestamp : Option Word := none
  caller : Option Word := none
  thisAddress : Option Word := none
  context : List (List Word) := []
  tokens : List (Word × Token) := []

/-- The host that is listed. -/
def HostListing.fixed (l : HostListing) : FixedHost where
  blockNumber := l.blockNumber
  timestamp := l.timestamp
  caller := l.caller
  thisAddress := l.thisAddress
  context := l.context
  tokens := TokenTable.ofList l.tokens

/-- The listing of a host, with its tokens in the order of their addresses. -/
def FixedHost.listing (h : FixedHost) : HostListing where
  blockNumber := h.blockNumber
  timestamp := h.timestamp
  caller := h.caller
  thisAddress := h.thisAddress
  context := h.context
  tokens := h.tokens.entries

end WordMachine
