import WordMachine.Config
import WordMachine.Host.Fixed
import WordMachine.Json.Decode
import WordMachine.Record

/-!
# JSON documents

How a configuration, a fixed host and a debug record are written in JSON.

The members of a token other than its address are held back until the token's object has ended and
its address is known to be there. A record is held back, all but its kind.
-/

namespace WordMachine.Json

/-! ## 1. Configurations -/

/-- The fields of a configuration found so far. -/
structure ConfigDraft where
  constants : Option (List Word) := none
  sources : Option (List String) := none

/-- The fields of a configuration. -/
def configFields : List (Field Tree ConfigDraft) :=
  [{ name := "constants", isSet := (·.constants.isSome),
     read := fun d t => do return { d with constants := some (← t.words) } },
   { name := "sources", isSet := (·.sources.isSome),
     read := fun d t => do
       return { d with sources := some (← t.list "a sequence" (Tree.text "a string")) } }]

/-- Reads a configuration; a field that is not there is empty. -/
def configOf (t : Tree) : Reading Config := do
  let d ← t.fill "struct ExpressionConfig" configFields {}
  return ⟨d.constants.getD [], d.sources.getD []⟩

/-! ## 2. Hosts -/

/-- The fields of a balance found so far. -/
structure BalanceDraft where
  account : Option Word := none
  amount : Option Word := none

/-- The fields of a balance. -/
def balanceFields : List (Field Content BalanceDraft) :=
  [{ name := "account", isSet := (·.account.isSome),
     read := fun d c => do return { d with account := some (← c.word) } },
   { name := "amount", isSet := (·.amount.isSome),
     read := fun d c => do return { d with amount := some (← c.word) } }]

/-- Reads a balance. -/
def balanceOf (c : Content) : Reading Balance := do
  let d ← c.fill "struct Balance" balanceFields {}
  let account ← required "account" d.account
  let amount ← required "amount" d.amount
  return ⟨account, amount⟩

/-- The state of a token found so far. -/
structure TokenDraft where
  totalSupply : Option Word := none
  balances : Option (List Balance) := none

/-- The fields of a token's state. -/
def tokenFields : List (Field Content TokenDraft) :=
  [{ name := "total_supply", isSet := (·.totalSupply.isSome),
     read := fun d c => do return { d with totalSupply := some (← c.word) } },
   { name := "balances", isSet := (·.balances.isSome),
     read := fun d c => do
       return { d with balances := some (← c.list "a sequence" balanceOf) } }]

/-- The brackets around the members of a token: the host, its list of tokens, and the token. -/
def tokenDepth : Nat := 3

/-- Reads the members of a token; the address is read as it is met, all others are held back,
newest first. -/
def tokenMembers (address : Option Word) (held : List (String × Content)) : Members →
    Reading (Option Word × List (String × Content))
  | .closed => .ok (address, held.reverse)
  | .broken b => .error (.text b.read)
  | .cons none _ _ => .error (.text .malformed)
  | .cons (some key) value rest =>
    if key = "address" then
      if address.isSome then .refuse (.duplicateField "address")
      else do
        let w ← value.word
        tokenMembers (some w) held rest
    else do
      let c ← Reading.ofText (value.content tokenDepth)
      tokenMembers address ((key, c) :: held) rest

/-- Reads a token and its address. -/
def tokenOf (t : Tree) : Reading (Word × Token) :=
  match t with
  | .object members => do
    let (address, held) ← tokenMembers none [] members
    let address ← required "address" address
    let d ← fillContents tokenFields {} held
    return (address, ⟨d.totalSupply.getD Word.zero, d.balances.getD []⟩)
  | t => t.refuse "struct TokenEntry"

/-- The fields of a host found so far. -/
structure HostDraft where
  blockNumber : Option (Option Word) := none
  timestamp : Option (Option Word) := none
  caller : Option (Option Word) := none
  thisAddress : Option (Option Word) := none
  context : Option (List (List Word)) := none
  tokens : Option (List (Word × Token)) := none

/-- The fields of a host. -/
def hostFields : List (Field Tree HostDraft) :=
  [{ name := "block_number", isSet := (·.blockNumber.isSome),
     read := fun d t => do return { d with blockNumber := some (← t.word?) } },
   { name := "timestamp", isSet := (·.timestamp.isSome),
     read := fun d t => do return { d with timestamp := some (← t.word?) } },
   { name := "caller", isSet := (·.caller.isSome),
     read := fun d t => do return { d with caller := some (← t.word?) } },
   { name := "this_address", isSet := (·.thisAddress.isSome),
     read := fun d t => do return { d with thisAddress := some (← t.word?) } },
   { name := "context", isSet := (·.context.isSome),
     read := fun d t => do
       return { d with context := some (← t.list "a sequence" Tree.words) } },
   { name := "tokens", isSet := (·.tokens.isSome),
     read := fun d t => do return { d with tokens := some (← t.list "a sequence" tokenOf) } }]

/-- Reads what is listed of a host; a field that is not there is unset or empty. -/
def listingOf (t : Tree) : Reading HostListing := do
  let d ← t.fill "struct StaticHostFile" hostFields {}
  return {
    blockNumber := d.blockNumber.join
    timestamp := d.timestamp.join
    caller := d.caller.join
    thisAddress := d.thisAddress.join
    context := d.context.getD []
    tokens := d.tokens.getD [] }

/-- Reads a host. -/
def hostOf (t : Tree) : Reading FixedHost := do
  let listing ← listingOf t
  return listing.fixed

/-! ## 3. Records -/

/-- The kinds of records. -/
inductive RecordKind where
  | stack
  | state
deriving DecidableEq

/-- Reads the kind of a record. -/
def recordKind (t : Tree) : Reading RecordKind := do
  let name ← t.text "variant identifier"
  if name = "stack" then return .stack
  else if name = "state" then return .state
  else .refuse (.unknownVariant name ["stack", "state"])

/-- The fields of a record found so far. -/
structure RecordDraft where
  source : Option Nat := none
  constants : Option (List Word) := none
  stack : Option (List Word) := none

/-- The stack field of a record. -/
def stackField : Field Content RecordDraft :=
  { name := "stack", isSet := (·.stack.isSome),
    read := fun d c => do return { d with stack := some (← c.words) } }

/-- The fields of a record of each kind. -/
def recordFields : RecordKind → List (Field Content RecordDraft)
  | .stack => [stackField]
  | .state =>
    [{ name := "source_index", isSet := (·.source.isSome),
       read := fun d c => do return { d with source := some (← c.index) } },
     { name := "constants", isSet := (·.constants.isSome),
       read := fun d c => do return { d with constants := some (← c.words) } },
     stackField]

/-- What a record of a kind is called. -/
def RecordKind.title : RecordKind → String
  | .stack => "struct variant DebugRecord::Stack"
  | .state => "struct variant DebugRecord::State"

/-- Reads a record of a known kind from what was held back. -/
def recordOfKind (kind : RecordKind) (c : Content) : Reading Record := do
  let d ← c.fill kind.title (recordFields kind) {}
  match kind with
  | .stack =>
    let words ← required "stack" d.stack
    return .stack words
  | .state =>
    let source ← required "source_index" d.source
    let constants ← required "constants" d.constants
    let words ← required "stack" d.stack
    return .state source constants words

/-- Reads the members of a record; the kind is read as it is met, all others are held back, newest
first. -/
def recordMembers (kind : Option RecordKind) (held : List (String × Content)) : Members →
    Reading (Option RecordKind × List (String × Content))
  | .closed => .ok (kind, held.reverse)
  | .broken b => .error (.text b.read)
  | .cons none _ _ => .error (.text .malformed)
  | .cons (some key) value rest =>
    if key = "kind" then
      if kind.isSome then .refuse (.duplicateField "kind")
      else do
        let k ← recordKind value
        recordMembers (some k) held rest
    else do
      let c ← Reading.ofText (value.content 1)
      recordMembers kind ((key, c) :: held) rest

/-- Reads a record. -/
def recordOf (t : Tree) : Reading Record :=
  match t with
  | .object members => do
    let (kind, held) ← recordMembers none [] members
    let kind ← required "kind" kind
    recordOfKind kind (.object held)
  | .array .closed => .refuse (.missingField "kind")
  | .array (.broken b) => .error (.text b.read)
  | .array (.cons first rest) => do
    let kind ← recordKind first
    let held ← Reading.ofText (rest.contents 1)
    recordOfKind kind (.array held)
  | t => t.refuse "internally tagged enum DebugRecord"

end WordMachine.Json
