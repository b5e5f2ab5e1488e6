import WordMachine.Toml.Number
import WordMachine.Toml.Table
import WordMachine.Toml.Text

/-!
# Reading TOML

A document is a sequence of lines, each of them blank, a header, or a key with its value. Lines end
at a line feed with or without a carriage return before it; a `#` starts a comment.
-/

namespace WordMachine.Toml

open Document (Node)

/-! ## 1. Lines -/

/-- The text after the comment at its start; `none` if the comment holds a character that no
comment may hold. -/
def skipComment? (text : List Char) : Option (List Char) :=
  match text with
  | '#' :: rest =>
    let rest := rest.dropWhile isContent
    if rest.isEmpty || (afterBreak? rest).isSome then some rest else none
  | text => some text

/-- The text after the end of this line; only blanks and a comment may stand before it. -/
def endLine? (text : List Char) : Option (List Char) := do
  match ← skipComment? (skipBlanks text) with
  | [] => return []
  | rest => afterBreak? rest

/-- The text after the blanks, comments and line breaks at its start. The length of the text bounds
the steps. -/
def skipFiller? : (bound : Nat) → List Char → Option (List Char)
  | 0, text => some text
  | bound + 1, text => do
    let rest ← skipComment? (skipBlanks text)
    match afterBreak? rest with
    | some rest => skipFiller? bound rest
    | none => return rest

/-- The text after all that carries no meaning at its start. -/
def skipLines? (text : List Char) : Option (List Char) := skipFiller? text.length text

/-! ## 2. Keys -/

/-- Whether a character may stand in a key without quotes. -/
def isBareKey (c : Char) : Bool := c.isAlphanum || c = '_' || c = '-'

/-- Reads one part of a key. -/
def readKeyPart (text : List Char) : Option (String × List Char) :=
  match text with
  | '"' :: _ => readShort text
  | '\'' :: _ => readShort text
  | text =>
    match text.takeWhile isBareKey with
    | [] => none
    | name => some (String.ofList name, text.drop name.length)

/-- Reads a key, whose parts are set apart by dots. -/
def readKeyParts : (bound : Nat) → List Char → Option (List String × List Char)
  | 0, _ => none
  | bound + 1, text => do
    let (part, rest) ← readKeyPart (skipBlanks text)
    match skipBlanks rest with
    | '.' :: rest =>
      let (parts, rest) ← readKeyParts bound rest
      return (part :: parts, rest)
    | rest => return ([part], rest)

/-- Reads a key. -/
def readKey (text : List Char) : Option (List String × List Char) := readKeyParts text.length text

/-! ## 3. Values -/

/-- How many arrays and tables between braces may be open at one place. -/
def maxNesting : Nat := 80

mutual

/-- Reads a value inside of which `room` arrays and tables may still be opened. Every call inside
passes on one less than its own bound, and never more than two calls are made before a character is
read. -/
def readValue (room : Nat) : (bound : Nat) → List Char → Option (Node × List Char)
  | 0, _ => none
  | bound + 1, text =>
    match text with
    | '[' :: rest => do
      guard (0 < room)
      let (items, rest) ← readItems (room - 1) bound rest
      return (.list items, rest)
    | '{' :: rest => do
      guard (0 < room)
      let (members, rest) ← readMembers (room - 1) bound [] rest
      return (.table (memberNodes members), rest)
    | '"' :: _ => (readString text).map fun r => (.text r.1, r.2)
    | '\'' :: _ => (readString text).map fun r => (.text r.1, r.2)
    | text => do
      let bare := text.takeWhile isBareValue
      let node ← bareValue? bare
      return (node, text.drop bare.length)

/-- Reads the rest of an array. -/
def readItems (room : Nat) : (bound : Nat) → List Char → Option (List Node × List Char)
  | 0, _ => none
  | bound + 1, text => do
    match ← skipLines? text with
    | ']' :: rest => return ([], rest)
    | rest =>
      let (item, rest) ← readValue room bound rest
      match ← skipLines? rest with
      | ',' :: rest =>
        let (items, rest) ← readItems room bound rest
        return (item :: items, rest)
      | ']' :: rest => return ([item], rest)
      | _ => none

/-- Reads the rest of a table between braces; `members` holds what was read of it. Line breaks and
comments may stand on either side of the keys, the values and the signs between them, but not
inside a key. -/
def readMembers (room : Nat) :
    (bound : Nat) → (members : Members) → List Char → Option (Members × List Char)
  | 0, _, _ => none
  | bound + 1, members, text => do
    match ← skipLines? text with
    | '}' :: rest => return (members, rest)
    | rest =>
      let (key, rest) ← readKey rest
      match ← skipLines? rest with
      | '=' :: rest =>
        let (node, rest) ← readValue room bound (← skipLines? rest)
        let members ← assign node key members
        match ← skipLines? rest with
        | ',' :: rest => readMembers room bound members rest
        | '}' :: rest => return (members, rest)
        | _ => none
      | _ => none

end

/-! ## 4. Documents -/

/-- A document read so far: its tables, and the path of the header that lines belong to. -/
structure Draft where
  root : Members := []
  path : List String := []

/-- Reads the end of a header, whose brackets close as they opened. -/
def endHeader? (brackets : List Char) (text : List Char) : Option (List Char) :=
  if brackets.isPrefixOf text then endLine? (text.drop brackets.length) else none

/-- Takes in a header: the last part of its path is opened in the table of the parts before. -/
def Draft.header (d : Draft) (path : List String) (change : Option Entry → Option Entry) :
    Option Draft :=
  match path.getLast? with
  | none => none
  | some last => do
    let root ← atPath (alter last change) path.dropLast d.root
    return ⟨root, path⟩

/-- Reads a line that is not blank. -/
def readLine (d : Draft) (text : List Char) : Option (Draft × List Char) :=
  match text with
  | '[' :: '[' :: rest => do
    let (path, rest) ← readKey rest
    let rest ← endHeader? [']', ']'] rest
    return (← d.header path openNext, rest)
  | '[' :: rest => do
    let (path, rest) ← readKey rest
    let rest ← endHeader? [']'] rest
    return (← d.header path openTable, rest)
  | text => do
    let (key, rest) ← readKey text
    match rest with
    | '=' :: rest =>
      let rest := skipBlanks rest
      let (node, rest) ← readValue maxNesting (2 * rest.length + 1) rest
      let rest ← endLine? rest
      let root ← atPath (assign node key) d.path d.root
      return ({ d with root }, rest)
    | _ => none

/-- Reads all lines. -/
def readLines : (bound : Nat) → Draft → List Char → Option Draft
  | 0, d, _ => some d
  | bound + 1, d, text => do
    match ← skipLines? text with
    | [] => return d
    | rest =>
      let (d, rest) ← readLine d rest
      readLines bound d rest

/-- The text without a byte order mark at its start. -/
def withoutMark : List Char → List Char
  | '\uFEFF' :: rest => rest
  | text => text

/-- The root of a document. -/
def document? (text : String) : Option Node := do
  let text := withoutMark text.toList
  let d ← readLines (text.length + 1) {} text
  return .table (memberNodes d.root)

end WordMachine.Toml
