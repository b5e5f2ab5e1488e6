import WordMachine.Document.Node

/-!
# Tables in TOML

How the tables of a document come together from its lines. A table comes to be by a header of its
own, on the way to a header below it, or on the way to a dotted key. A header may give a table that
was made on the way to another header, once; dotted keys may add to tables of dotted keys only.
An array of tables takes a new table at its end with every header of its name, and a path through
it leads through its last table. A value that is written out is closed.
-/

namespace WordMachine.Toml

open Document (Node)

/-- How a table came to be. -/
inductive Origin where
  /-- By a header of its own. -/
  | header
  /-- On the way to a header below it. -/
  | implied
  /-- On the way to a dotted key. -/
  | dotted
deriving DecidableEq

/-- What stands under a key while a document is put together. -/
inductive Entry where
  | value (node : Node)
  | table (origin : Origin) (members : List (String × Entry))
  /-- An array of tables, last one first. -/
  | tables (items : List (List (String × Entry)))

/-- The members of a table. -/
abbrev Members := List (String × Entry)

mutual

/-- The node of an entry. -/
def Entry.node : Entry → Node
  | .value n => n
  | .table _ members => .table (memberNodes members)
  | .tables items => .list (tableNodes items).reverse

/-- The nodes of the members of a table. -/
def memberNodes : List (String × Entry) → List (Node × Node)
  | [] => []
  | (key, entry) :: rest => (.text key, entry.node) :: memberNodes rest

/-- The nodes of the tables of an array. -/
def tableNodes : List (List (String × Entry)) → List Node
  | [] => []
  | members :: rest => .table (memberNodes members) :: tableNodes rest

end

/-- Changes what stands under a key, or puts something there; `none` if the change is refused. -/
def alter (key : String) (change : Option Entry → Option Entry) : Members → Option Members
  | [] => do
    let entry ← change none
    return [(key, entry)]
  | (k, entry) :: rest =>
    if k = key then do
      let entry ← change (some entry)
      return (k, entry) :: rest
    else do
      let rest ← alter key change rest
      return (k, entry) :: rest

/-- Changes the table that a header's path leads through. -/
def through (change : Members → Option Members) : Option Entry → Option Entry
  | none => do return .table .implied (← change [])
  | some (.table origin members) => do return .table origin (← change members)
  | some (.tables (last :: before)) => do return .tables ((← change last) :: before)
  | some _ => none

/-- Changes the table at the end of a header's path. -/
def atPath (change : Members → Option Members) : List String → Members → Option Members
  | [], members => change members
  | key :: path, members => alter key (through (atPath change path)) members

/-- Gives a table the header it does not have yet. -/
def openTable : Option Entry → Option Entry
  | none => some (.table .header [])
  | some (.table .implied members) => some (.table .header members)
  | some _ => none

/-- Starts the next table of an array. -/
def openNext : Option Entry → Option Entry
  | none => some (.tables [[]])
  | some (.tables items) => some (.tables ([] :: items))
  | some _ => none

/-- Puts a value under a dotted key. -/
def assign (node : Node) : List String → Members → Option Members
  | [], _ => none
  | [key], members =>
    alter key
      (fun
        | none => some (.value node)
        | some _ => none)
      members
  | key :: path, members =>
    alter key
      (fun
        | none => do return .table .dotted (← assign node path [])
        | some (.table .dotted inner) => do return .table .dotted (← assign node path inner)
        | some _ => none)
      members

end WordMachine.Toml
