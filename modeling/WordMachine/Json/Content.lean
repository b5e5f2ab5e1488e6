import WordMachine.Json.Tree

/-!
# Values held back

Some values are read before it is known what they are for. They are kept as they were written, all
strings and numbers already read. Brackets inside a value that is held back may nest up to a limit,
counted from the start of the document.
-/

namespace WordMachine.Json

/-- A value that has been read in full. -/
inductive Content where
  | null
  | bool (value : Bool)
  | number (value : Number)
  | string (value : String)
  | array (items : List Content)
  | object (members : List (String × Content))

/-- The nesting of brackets that is refused. -/
def depthLimit : Nat := 128

mutual

/-- Reads a value that stands inside `depth` brackets. -/
def Tree.content (depth : Nat) : Tree → Except Cause Content
  | .null => .ok .null
  | .bool b => .ok (.bool b)
  | .number t =>
    match t.value? with
    | some n => .ok (.number n)
    | none => .error .malformed
  | .string (some s) => .ok (.string s)
  | .string none => .error .malformed
  | .array items =>
    if depth + 1 < depthLimit then
      match items.contents (depth + 1) with
      | .ok cs => .ok (.array cs)
      | .error c => .error c
    else .error .malformed
  | .object members =>
    if depth + 1 < depthLimit then
      match members.contents (depth + 1) with
      | .ok cs => .ok (.object cs)
      | .error c => .error c
    else .error .malformed
  | .broken b => .error b.read

/-- Reads the rest of an array. -/
def Items.contents (depth : Nat) : Items → Except Cause (List Content)
  | .closed => .ok []
  | .cons item rest =>
    match item.content depth with
    | .error c => .error c
    | .ok c =>
      match rest.contents depth with
      | .ok cs => .ok (c :: cs)
      | .error e => .error e
  | .broken b => .error b.read

/-- Reads the rest of an object. -/
def Members.contents (depth : Nat) : Members → Except Cause (List (String × Content))
  | .closed => .ok []
  | .cons none _ _ => .error .malformed
  | .cons (some key) value rest =>
    match value.content depth with
    | .error c => .error c
    | .ok c =>
      match rest.contents depth with
      | .ok cs => .ok ((key, c) :: cs)
      | .error e => .error e
  | .broken b => .error b.read

end

end WordMachine.Json
