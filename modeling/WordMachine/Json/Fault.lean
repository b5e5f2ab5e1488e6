import WordMachine.Json.Content
import WordMachine.Text.Quoted
import WordMachine.Word.Literal

/-!
# Faults of JSON documents

A document fails because its text is no JSON text, or because a value does not fit its place. Only
the latter has a message, which names what was found and what was expected.
-/

namespace WordMachine.Json

/-- What stands at a place. -/
inductive Found where
  | null
  | bool (value : Bool)
  | number (value : Number)
  | string (value : String)
  | sequence
  | map
deriving DecidableEq

/-- The finding in words. -/
def Found.message : Found → String
  | .null => "null"
  | .bool true => "boolean `true`"
  | .bool false => "boolean `false`"
  | .number (.unsigned n) => "integer `" ++ toString n ++ "`"
  | .number (.signed n) => "integer `-" ++ toString n ++ "`"
  | .number (.fraction negative b) => "floating point `" ++ fractionText negative b ++ "`"
  | .string s => "string " ++ Text.quoted s
  | .sequence => "sequence"
  | .map => "map"

/-- Why a value does not fit its place. -/
inductive DataFault where
  | invalidType (found : Found) (expected : String)
  | invalidValue (found : Found) (expected : String)
  | invalidLength (length : Nat) (expected : String)
  | missingField (name : String)
  | duplicateField (name : String)
  | unknownVariant (name : String) (known : List String)
  | literal (fault : LiteralFault)
  /-- The word literal `-n`. -/
  | negativeWord (n : Nat)
deriving DecidableEq

/-- The fault in words. -/
def DataFault.message : DataFault → String
  | .invalidType found expected => "invalid type: " ++ found.message ++ ", expected " ++ expected
  | .invalidValue found expected => "invalid value: " ++ found.message ++ ", expected " ++ expected
  | .invalidLength n expected => "invalid length " ++ toString n ++ ", expected " ++ expected
  | .missingField name => "missing field `" ++ name ++ "`"
  | .duplicateField name => "duplicate field `" ++ name ++ "`"
  | .unknownVariant name known =>
    "unknown variant `" ++ name ++ "`, expected "
      ++ " or ".intercalate (known.map fun k => "`" ++ k ++ "`")
  | .literal f => f.message
  | .negativeWord n => "negative word literal -" ++ toString n

/-- Why a document cannot be read. -/
inductive Fault where
  | text (cause : Cause)
  | data (fault : DataFault)
deriving DecidableEq

/-- Reading a part of a document. -/
abbrev Reading := Except Fault

/-- Fails with a fault in the data. -/
def Reading.refuse {α : Type} (f : DataFault) : Reading α := .error (.data f)

/-- Fails for a fault in the text. -/
def Reading.ofText {α : Type} : Except Cause α → Reading α
  | .ok a => .ok a
  | .error c => .error (.text c)

/-- What stands at the place of a value; brackets are not looked into. -/
def Tree.found : Tree → Reading Found
  | .null => .ok .null
  | .bool b => .ok (.bool b)
  | .number t =>
    match t.value? with
    | some n => .ok (.number n)
    | none => .error (.text .malformed)
  | .string (some s) => .ok (.string s)
  | .string none => .error (.text .malformed)
  | .array _ => .ok .sequence
  | .object _ => .ok .map
  | .broken b => .error (.text b.read)

/-- What stands at the place of a value. -/
def Content.found : Content → Found
  | .null => .null
  | .bool b => .bool b
  | .number n => .number n
  | .string s => .string s
  | .array _ => .sequence
  | .object _ => .map

end WordMachine.Json
