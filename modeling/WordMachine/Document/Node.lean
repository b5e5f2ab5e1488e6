import WordMachine.Config
import WordMachine.Decimal.Scientific
import WordMachine.Host.Fixed
import WordMachine.Record
import WordMachine.Word.Literal

/-!
# Documents as nodes

What a document in TOML or YAML holds, whichever of the two it is written in, and how a
configuration, a fixed host and a debug record are read from it. A document that does not fit is
refused without a reason.

A plain scalar is a text without quotes whose meaning depends on where it stands: where a string is
asked for it is its own text, where a word is asked for it may be a number. A node that is held
back has its plain scalars settled before it is known what they are read as; a limit on how deeply
lists and tables are nested counts there, and only there.
-/

namespace WordMachine.Document

/-- A node of a document. -/
inductive Node where
  /-- A quoted text. -/
  | text (s : String)
  /-- A text without quotes. -/
  | plain (s : String)
  | integer (n : Int)
  /-- A truth value or a fraction; no field takes one. -/
  | other
  | list (items : List Node)
  | table (members : List (Node × Node))
deriving Inhabited

/-! ## 1. Plain scalars -/

/-- The number that digits to a base write; `none` without digits. -/
def digits? (base : Nat) (text : List Char) : Option Nat :=
  if text.isEmpty then none
  else
    text.foldlM (fun value c => do
      let d ← Text.hexValue? c.toNat
      if d < base then some (value * base + d) else none) 0

/-- Whether digits start with a zero that has no place there. -/
def hasLeadingZero : List Char → Bool
  | '0' :: _ :: _ => true
  | _ => false

/-- The magnitude that a plain scalar without sign writes: decimal digits, or digits after one of
the base marks `0x`, `0o` and `0b`, which write at most `most`. -/
def magnitude? (most : Nat) (text : List Char) : Option Nat :=
  let marked (base : Nat) (digits : List Char) : Option Nat := do
    let n ← digits? base digits
    if n ≤ most then some n else none
  match text with
  | '0' :: 'x' :: digits => marked 16 digits
  | '0' :: 'o' :: digits => marked 8 digits
  | '0' :: 'b' :: digits => marked 2 digits
  | digits => if hasLeadingZero digits then none else digits? 10 digits

/-- The number that a plain scalar writes. One with a base mark has at most 128 bits. -/
def plainInteger? (s : String) : Option Int :=
  match s.toList with
  | '+' :: rest => (magnitude? (Nat.pow 2 128 - 1) rest).map Int.ofNat
  | '-' :: rest => (magnitude? (Nat.pow 2 127) rest).map fun n => -Int.ofNat n
  | rest => (magnitude? (Nat.pow 2 128 - 1) rest).map Int.ofNat

/-- Whether a plain scalar says that there is no value. -/
def isNullText (s : String) : Bool := s ∈ ["", "~", "null", "Null", "NULL"]

/-- Whether a plain scalar is a truth value. -/
def isTruthText (s : String) : Bool := s ∈ ["true", "True", "TRUE", "false", "False", "FALSE"]

/-- Whether a plain scalar names a number that is not finite. -/
def isLimitText (s : String) : Bool :=
  s ∈ [".inf", ".Inf", ".INF", "+.inf", "+.Inf", "+.INF", "-.inf", "-.Inf", "-.INF", ".nan", ".NaN",
    ".NAN"]

/-- Whether digits start with a zero and are nothing but digits: such a scalar is a text. -/
def isPaddedText (text : List Char) : Bool := hasLeadingZero text && text.all Text.isDigit

/-- Whether a plain scalar that is no whole number is a fraction. -/
def isFractionText (s : String) : Bool :=
  let body :=
    match s.toList with
    | '+' :: rest => rest
    | '-' :: rest => rest
    | rest => rest
  isLimitText s || (!isPaddedText body && (Scientific.ofText? body).any Scientific.isFinite)

/-- What a plain scalar is where nothing is asked of it. -/
inductive Settled where
  /-- No value, a truth value or a fraction. -/
  | other
  | integer (n : Int)
  | text
deriving DecidableEq

/-- Settles a plain scalar. A whole number of more than 128 bits is a fraction. -/
def settle (s : String) : Settled :=
  if isNullText s || isTruthText s then .other
  else
    match plainInteger? s with
    | some n => .integer n
    | none => if isFractionText s then .other else .text

namespace Node

/-- Whether a whole number has at most 64 bits. -/
def isShort (n : Int) : Bool := -Int.ofNat (Nat.pow 2 63) ≤ n && n < Int.ofNat (Nat.pow 2 64)

/-- Whether a whole number has at most 128 bits. -/
def isLong (n : Int) : Bool := -Int.ofNat (Nat.pow 2 127) ≤ n && n < Int.ofNat (Nat.pow 2 128)

mutual

/-- Whether the node can be held back: its whole numbers have at most 64 bits. -/
def holds : Node → Bool
  | text _ => true
  | plain s =>
    match plainInteger? s with
    | some n => isShort n || !isLong n
    | none => true
  | integer n => isShort n
  | other => true
  | list items => holdsItems items
  | table members => holdsMembers members

/-- Whether every item can be held back. -/
def holdsItems : List Node → Bool
  | [] => true
  | item :: rest => item.holds && holdsItems rest

/-- Whether every member can be held back. -/
def holdsMembers : List (Node × Node) → Bool
  | [] => true
  | (key, value) :: rest => key.holds && value.holds && holdsMembers rest

end

mutual

/-- How many lists and tables are open at the innermost place of a node. -/
def depth : Node → Nat
  | list items => depthItems items + 1
  | table members => depthMembers members + 1
  | _ => 0

/-- The depth of the deepest item. -/
def depthItems : List Node → Nat
  | [] => 0
  | item :: rest => max item.depth (depthItems rest)

/-- The depth of the deepest member. -/
def depthMembers : List (Node × Node) → Nat
  | [] => 0
  | (key, value) :: rest => max (max key.depth value.depth) (depthMembers rest)

end

/-! ## 2. Values -/

/-- The text of a node that is a text or a plain scalar. -/
def text? : Node → Option String
  | text s => some s
  | plain s => some s
  | _ => none

/-- An index: a whole number of 64 bits. -/
def indexOf? (n : Int) : Option Nat :=
  if 0 ≤ n ∧ n < Int.ofNat (Nat.pow 2 64) then some n.toNat else none

/-- The word that a literal writes. -/
def literal? (s : String) : Option Word :=
  match Word.parse s with
  | .ok w => some w
  | .error _ => none

/-- The word of a node: a whole number of 64 bits, or a text with a word literal. A truth value, a
fraction and the mark for no value are no word literals, so a plain scalar that is no whole number
is read as text. -/
def word? : Node → Option Word
  | text s => literal? s
  | plain s =>
    match plainInteger? s with
    | some n => (indexOf? n).map Word.clamp
    | none => literal? s
  | integer n => (indexOf? n).map Word.clamp
  | _ => none

/-- The index of a node. -/
def index? : Node → Option Nat
  | plain s => do indexOf? (← plainInteger? s)
  | integer n => indexOf? n
  | _ => none

/-- Whether nothing is written where the node stands. -/
def isNothing : Node → Bool
  | plain s => s.isEmpty
  | _ => false

/-- Whether the node says that there is no value, by a mark or by nothing. -/
def isNull : Node → Bool
  | plain s => isNullText s
  | _ => false

/-- The items of a list that was held back. -/
def heldItems? : Node → Option (List Node)
  | list items => some items
  | _ => none

/-- The items of a list; where nothing is written, a list without items stands. A mark for no value
is no list. -/
def items? (n : Node) : Option (List Node) :=
  if n.isNothing then some [] else n.heldItems?

/-- The words of a list that was held back. -/
def heldWords? (n : Node) : Option (List Word) := do (← n.heldItems?).mapM word?

/-- The words of a list. -/
def words? (n : Node) : Option (List Word) := do (← n.items?).mapM word?

/-! ## 3. Records -/

/-- Fields and their values, as they are written. -/
abbrev Fields := List (String × Node)

/-- The fields of a record: a table with texts for keys, or nothing. -/
def fields? (n : Node) : Option Fields :=
  match n with
  | table members => members.mapM fun m => m.1.text?.map (·, m.2)
  | n => if n.isNothing then some [] else none

/-- The field that a key stands for in a record that was held back: a text is its name, and a whole
number written without a minus sign its place among `names`, if there is one. -/
def fieldName? (names : List String) : Node → Option String
  | text s => some s
  | plain s =>
    match settle s with
    | .other => none
    | .integer n => if s.toList.head? = some '-' then none else (indexOf? n).map fun i => names.getD i s
    | .text => some s
  | _ => none

/-- The fields of a record that was held back: a table, or a list of the values of all fields in
their order. -/
def heldFields? (names : List String) : Node → Option Fields
  | table members => members.mapM fun m => (fieldName? names m.1).map (·, m.2)
  | list items => if items.length = names.length then some (names.zip items) else none
  | _ => none

end Node

namespace Node.Fields

/-- The value of a field: `none` if the field stands there twice. -/
def find? (fields : Fields) (name : String) : Option (Option Node) :=
  match fields.filter (·.1 = name) with
  | [] => some none
  | [field] => some (some field.2)
  | _ => none

/-- Reads a field, if it is there. -/
def read? {α : Type} (fields : Fields) (name : String) (read : Node → Option α) :
    Option (Option α) := do
  match ← fields.find? name with
  | none => return none
  | some value => return some (← read value)

/-- Reads a field that has to be there. -/
def require? {α : Type} (fields : Fields) (name : String) (read : Node → Option α) : Option α := do
  (← fields.read? name read)

end Node.Fields

open Node

/-! ## 4. Configurations -/

/-- Reads a configuration; a field that is not there is empty. -/
def configOf (n : Node) : Option Config := do
  let fields ← n.fields?
  let constants ← fields.read? "constants" words?
  let sources ← fields.read? "sources" fun s => do (← s.items?).mapM text?
  return ⟨constants.getD [], sources.getD []⟩

/-! ## 5. Hosts -/

/-- Whether so many lists and tables may be open at one place of what is held back. -/
def allows (nesting : Option Nat) (depth : Nat) : Bool := nesting.all (depth ≤ ·)

/-- Reads a balance that was held back. -/
def balanceOf (n : Node) : Option Balance := do
  let fields ← n.heldFields? ["account", "amount"]
  let account ← fields.require? "account" word?
  let amount ← fields.require? "amount" word?
  return ⟨account, amount⟩

/-- Reads a token and its address. All but the address is held back. -/
def tokenOf (nesting : Option Nat) (n : Node) : Option (Word × Token) := do
  let fields ← n.fields?
  let held := (fields.filter (·.1 ≠ "address")).map Prod.snd
  guard (holdsItems held)
  guard (allows nesting (depthItems held + 3))
  let address ← fields.require? "address" word?
  let totalSupply ← fields.read? "total_supply" word?
  let balances ← fields.read? "balances" fun b => do (← b.heldItems?).mapM balanceOf
  return (address, ⟨totalSupply.getD Word.zero, balances.getD []⟩)

/-- Reads a word or the mark for no value. -/
def optionalWord (n : Node) : Option (Option Word) :=
  if n.isNull then some none else n.word?.map some

/-- Reads what is listed of a host; a field that is not there is unset or empty. -/
def listingOf (nesting : Option Nat) (n : Node) : Option HostListing := do
  let fields ← n.fields?
  let blockNumber ← fields.read? "block_number" optionalWord
  let timestamp ← fields.read? "timestamp" optionalWord
  let caller ← fields.read? "caller" optionalWord
  let thisAddress ← fields.read? "this_address" optionalWord
  let context ← fields.read? "context" fun c => do (← c.items?).mapM words?
  let tokens ← fields.read? "tokens" fun t => do (← t.items?).mapM (tokenOf nesting)
  return {
    blockNumber := blockNumber.join
    timestamp := timestamp.join
    caller := caller.join
    thisAddress := thisAddress.join
    context := context.getD []
    tokens := tokens.getD [] }

/-- Reads a host. -/
def hostOf (nesting : Option Nat) (n : Node) : Option FixedHost := do
  let listing ← listingOf nesting n
  return listing.fixed

/-! ## 6. Records -/

/-- Reads a record of the kind with the given name. -/
def recordOfKind (kind : String) (n : Node) : Option Record := do
  match kind with
  | "stack" =>
    let fields ← n.heldFields? ["stack"]
    return .stack (← fields.require? "stack" heldWords?)
  | "state" =>
    let fields ← n.heldFields? ["source_index", "constants", "stack"]
    let source ← fields.require? "source_index" index?
    let constants ← fields.require? "constants" heldWords?
    let words ← fields.require? "stack" heldWords?
    return .state source constants words
  | _ => none

/-- Whether a member gives the kind of a record. -/
def isKind (m : Node × Node) : Bool := m.1.text? = some "kind"

/-- Reads a debug record. All but the kind is held back. -/
def recordOf (nesting : Option Nat) (n : Node) : Option Record := do
  match n with
  | table members =>
    match members.filter isKind with
    | [kind] =>
      let held := members.filter fun m => !isKind m
      guard (holdsMembers held)
      guard (allows nesting (depthMembers held + 1))
      recordOfKind (← kind.2.text?) (table held)
    | _ => none
  | list (kind :: items) =>
    guard (holdsItems items)
    guard (allows nesting (depthItems items + 1))
    recordOfKind (← kind.text?) (list items)
  | _ => none

end WordMachine.Document
