import WordMachine.Config
import WordMachine.Host.Fixed
import WordMachine.Json.Writer
import WordMachine.Record

/-!
# Writing documents

Configurations, fixed hosts and debug records as JSON. Words are written as decimal strings, so
that no reader of JSON loses a digit; the scalar values of a host are left out where they are not
set.
-/

namespace WordMachine

/-- A word as a decimal string. -/
def Word.json (w : Word) : Json.Value := .string w.decimal

/-- A list of words. -/
def wordsJson (words : List Word) : Json.Value := .array (words.map Word.json)

/-- A configuration. -/
def Config.json (c : Config) : Json.Value :=
  .object [("constants", wordsJson c.constants), ("sources", .array (c.sources.map .string))]

/-- A configuration as the text of a file. -/
def Config.fileText (c : Config) : String := c.json.text ++ "\n"

/-- A debug record. -/
def Record.json : Record → Json.Value
  | .stack words => .object [("kind", .string "stack"), ("stack", wordsJson words)]
  | .state source constants words =>
    .object
      [("kind", .string "state"), ("source_index", .number source),
       ("constants", wordsJson constants), ("stack", wordsJson words)]

/-- A debug record as a line. -/
def Record.line (r : Record) : String := r.json.line ++ "\n"

/-- A balance. -/
def Balance.json (b : Balance) : Json.Value :=
  .object [("account", b.account.json), ("amount", b.amount.json)]

/-- A token with its address. -/
def tokenJson (entry : Word × Token) : Json.Value :=
  .object
    [("address", entry.1.json), ("total_supply", entry.2.totalSupply.json),
     ("balances", .array (entry.2.balances.map Balance.json))]

/-- A scalar value of a host, if it is set. -/
def scalarJson (name : String) : Option Word → List (String × Json.Value)
  | some w => [(name, w.json)]
  | none => []

/-- A fixed host, as it is listed. -/
def HostListing.json (l : HostListing) : Json.Value :=
  .object
    (scalarJson "block_number" l.blockNumber ++ scalarJson "timestamp" l.timestamp
      ++ scalarJson "caller" l.caller ++ scalarJson "this_address" l.thisAddress
      ++ [("context", .array (l.context.map wordsJson)),
          ("tokens", .array (l.tokens.map tokenJson))])

/-- A fixed host. -/
def FixedHost.json (h : FixedHost) : Json.Value := h.listing.json

end WordMachine
