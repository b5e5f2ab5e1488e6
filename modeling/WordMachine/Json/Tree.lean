import WordMachine.Json.Number

/-!
# JSON trees

The structure of a JSON text, also of one that breaks off. Whoever takes a tree apart in reading
order meets the place where the text breaks off just where a reader of the text would, so a fault
in the data that stands before that place is found first.

A text can break off for one reason when the value there is read and for another when it is merely
skipped; a string that cannot be read, because it holds half of a surrogate pair, can be skipped.
-/

namespace WordMachine.Json

/-- Why a text is no JSON text. -/
inductive Cause where
  /-- A character stands where it must not. -/
  | malformed
  /-- The text ends inside a value. -/
  | incomplete
deriving DecidableEq, Repr

/-- Why a text breaks off, for one who reads the value and for one who skips it. -/
structure Break where
  read : Cause
  skip : Cause
deriving DecidableEq, Repr

/-- A break with one cause for all. -/
def Break.of (c : Cause) : Break := ⟨c, c⟩

mutual

/-- A value, or the place where the text breaks off. -/
inductive Tree where
  | null
  | bool (value : Bool)
  | number (text : NumberText)
  /-- A string; `none` if it cannot be read. -/
  | string (value : Option String)
  | array (items : Items)
  | object (members : Members)
  | broken (reason : Break)

/-- The rest of an array. -/
inductive Items where
  | closed
  | cons (item : Tree) (rest : Items)
  | broken (reason : Break)

/-- The rest of an object; a key is `none` if it cannot be read. -/
inductive Members where
  | closed
  | cons (key : Option String) (value : Tree) (rest : Members)
  | broken (reason : Break)

end

/-! ## Skipping -/

mutual

/-- Why a value cannot be skipped. -/
def Tree.skip : Tree → Except Cause Unit
  | .array items => items.skip
  | .object members => members.skip
  | .broken b => .error b.skip
  | _ => .ok ()

/-- Why the rest of an array cannot be skipped. -/
def Items.skip : Items → Except Cause Unit
  | .closed => .ok ()
  | .cons item rest =>
    match item.skip with
    | .ok () => rest.skip
    | .error c => .error c
  | .broken b => .error b.skip

/-- Why the rest of an object cannot be skipped. -/
def Members.skip : Members → Except Cause Unit
  | .closed => .ok ()
  | .cons _ value rest =>
    match value.skip with
    | .ok () => rest.skip
    | .error c => .error c
  | .broken b => .error b.skip

end

end WordMachine.Json
