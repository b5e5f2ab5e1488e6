import WordMachine.Text.Hex

/-!
# Writing JSON text

The values that are written are strings, natural numbers, arrays and objects. They are written on
one line without blanks, or over several lines, two spaces deeper inside each bracket.
-/

namespace WordMachine.Json

/-- A value to be written. -/
inductive Value where
  | string (value : String)
  | number (value : Nat)
  | array (items : List Value)
  | object (members : List (String × Value))

/-- A character inside a written string. -/
def writtenChar (c : Char) : List Char :=
  if c = '"' then ['\\', '"']
  else if c = '\\' then ['\\', '\\']
  else if c = '\x08' then ['\\', 'b']
  else if c = '\x0c' then ['\\', 'f']
  else if c = '\n' then ['\\', 'n']
  else if c = '\r' then ['\\', 'r']
  else if c = '\t' then ['\\', 't']
  else if c.toNat < 0x20 then
    ['\\', 'u', '0', '0', Text.hexDigit (c.toNat / 16), Text.hexDigit (c.toNat % 16)]
  else [c]

/-- A written string. -/
def writtenString (s : String) : List Char :=
  '"' :: (s.toList.flatMap writtenChar ++ ['"'])

/-- Puts commas between texts. -/
def commas : List (List Char) → List Char
  | [] => []
  | [text] => text
  | text :: rest => text ++ ',' :: commas rest

mutual

/-- A value on one line. -/
def Value.compact : Value → List Char
  | .string s => writtenString s
  | .number n => (toString n).toList
  | .array items => '[' :: (commas (compactItems items) ++ [']'])
  | .object members => '{' :: (commas (compactMembers members) ++ ['}'])

/-- The items of an array, each on one line. -/
def compactItems : List Value → List (List Char)
  | [] => []
  | v :: rest => v.compact :: compactItems rest

/-- The members of an object, each on one line. -/
def compactMembers : List (String × Value) → List (List Char)
  | [] => []
  | (key, v) :: rest => (writtenString key ++ ':' :: v.compact) :: compactMembers rest

end

/-- A new line at a depth. -/
def newLine (depth : Nat) : List Char := '\n' :: List.replicate (2 * depth) ' '

/-- Texts between brackets, each on a line of its own; without texts, just the brackets. -/
def bracketed (opening closing : Char) (depth : Nat) : List (List Char) → List Char
  | [] => [opening, closing]
  | texts =>
    opening :: (commas (texts.map (newLine (depth + 1) ++ ·)) ++ newLine depth ++ [closing])

mutual

/-- A value over several lines, inside `depth` brackets. -/
def Value.pretty (depth : Nat) : Value → List Char
  | .string s => writtenString s
  | .number n => (toString n).toList
  | .array items => bracketed '[' ']' depth (prettyItems (depth + 1) items)
  | .object members => bracketed '{' '}' depth (prettyMembers (depth + 1) members)

/-- The items of an array, each over several lines. -/
def prettyItems (depth : Nat) : List Value → List (List Char)
  | [] => []
  | v :: rest => v.pretty depth :: prettyItems depth rest

/-- The members of an object, each over several lines. -/
def prettyMembers (depth : Nat) : List (String × Value) → List (List Char)
  | [] => []
  | (key, v) :: rest =>
    (writtenString key ++ ':' :: ' ' :: v.pretty depth) :: prettyMembers depth rest

end

/-- A value on one line. -/
def Value.line (v : Value) : String := String.ofList v.compact

/-- A value over several lines. -/
def Value.text (v : Value) : String := String.ofList (v.pretty 0)

end WordMachine.Json
