import WordMachine.Json.Tree
import WordMachine.Text.Hex

/-!
# Reading JSON text

From characters to trees. Blanks are space, tab, line feed and carriage return. Nothing is ever
refused here: a text that is no JSON text gives a tree that breaks off.
-/

namespace WordMachine.Json

/-- Whether a character is a blank of JSON. -/
def isBlank (c : Char) : Bool := c == ' ' || c == '\t' || c == '\n' || c == '\r'

/-- The text without the blanks at its start. -/
def skipBlanks (text : List Char) : List Char := text.dropWhile isBlank

/-! ## 1. Strings -/

/-- The number that four base-16 digits write. -/
def quad? (a b c d : Char) : Option Nat := Text.hexNumber? 0 [a, b, c, d]

/-- Why fewer than four characters cannot be four base-16 digits: the text ends too early, unless
they take up four bytes. -/
def shortQuad (text : List Char) : Cause :=
  if text.foldl (fun n c => n + c.utf8Size) 0 < 4 then .incomplete else .malformed

/-- The character of an escape of one letter. -/
def escaped? : Char → Option Char
  | '"' => some '"'
  | '\\' => some '\\'
  | '/' => some '/'
  | 'b' => some '\x08'
  | 'f' => some '\x0c'
  | 'n' => some '\n'
  | 'r' => some '\r'
  | 't' => some '\t'
  | _ => none

/-- Skips a string after its opening quote. -/
def skipString : List Char → Except Cause (List Char)
  | [] => .error .incomplete
  | '\\' :: 'u' :: a :: b :: c :: d :: rest =>
    match quad? a b c d with
    | some _ => skipString rest
    | none => .error .malformed
  | '\\' :: 'u' :: rest => .error (shortQuad rest)
  | '\\' :: c :: rest =>
    match escaped? c with
    | some _ => skipString rest
    | none => .error .malformed
  | ['\\'] => .error .incomplete
  | c :: rest =>
    if c = '"' then .ok rest
    else if c.toNat < 0x20 then .error .malformed
    else skipString rest

/-- Reads a string after its opening quote. `read` holds the characters so far, last one first, and
`high` the first half of a surrogate pair whose second half has to come next. -/
def readString (read : List Char) (high : Option Nat) : List Char → Except Cause String
  | [] => .error .incomplete
  | '\\' :: 'u' :: a :: b :: c :: d :: rest =>
    match quad? a b c d, high with
    | none, _ => .error .malformed
    | some n, some h =>
      if 0xDC00 ≤ n ∧ n ≤ 0xDFFF then
        readString (Char.ofNat (0x10000 + (h - 0xD800) * 0x400 + (n - 0xDC00)) :: read) none rest
      else .error .malformed
    | some n, none =>
      if 0xDC00 ≤ n ∧ n ≤ 0xDFFF then .error .malformed
      else if 0xD800 ≤ n ∧ n ≤ 0xDBFF then readString read (some n) rest
      else readString (Char.ofNat n :: read) none rest
  | '\\' :: 'u' :: rest => .error (shortQuad rest)
  | '\\' :: c :: rest =>
    match escaped? c, high with
    | some e, none => readString (e :: read) none rest
    | _, _ => .error .malformed
  | ['\\'] => .error .incomplete
  | c :: rest =>
    if high.isSome then .error .malformed
    else if c = '"' then .ok (String.ofList read.reverse)
    else if c.toNat < 0x20 then .error .malformed
    else readString (c :: read) none rest

/-- Why the string that starts here breaks off. -/
def stringBreak (text : List Char) (skip : Cause) : Break :=
  match readString [] none text with
  | .ok _ => .of skip
  | .error read => ⟨read, skip⟩

/-- The value of the string that starts here, if it can be read. -/
def stringValue (text : List Char) : Option String :=
  match readString [] none text with
  | .ok s => some s
  | .error _ => none

/-! ## 2. Numbers and names -/

/-- Why a number breaks off where a digit has to stand: at the end of the text, one who reads it
waits for more, and one who skips it does not. -/
def digitBreak : List Char → Break
  | [] => ⟨.incomplete, .malformed⟩
  | _ => .of .malformed

/-- Splits off the digits at the start. -/
def spanDigits (text : List Char) : List Char × List Char :=
  (text.takeWhile Text.isDigit, text.dropWhile Text.isDigit)

/-- Reads the exponent of a number, if there is one. -/
def readExponent (t : NumberText) (text : List Char) : Except Break (NumberText × List Char) :=
  let digitsOf (negative : Bool) (text : List Char) : Except Break (NumberText × List Char) :=
    match spanDigits text with
    | ([], rest) => .error (digitBreak rest)
    | (digits, rest) => .ok ({ t with exponent := some (negative, digits) }, rest)
  match text with
  | c :: rest =>
    if c = 'e' ∨ c = 'E' then
      match rest with
      | '+' :: rest => digitsOf false rest
      | '-' :: rest => digitsOf true rest
      | rest => digitsOf false rest
    else .ok (t, text)
  | [] => .ok (t, text)

/-- Reads the fraction and the exponent of a number, if there are any. -/
def readFraction (t : NumberText) (text : List Char) : Except Break (NumberText × List Char) :=
  match text with
  | '.' :: rest =>
    match spanDigits rest with
    | ([], rest) => .error (digitBreak rest)
    | (digits, rest) => readExponent { t with fraction := digits } rest
  | text => readExponent t text

/-- Reads a number after its sign. A zero at the start stands alone. -/
def readNumber (negative : Bool) (text : List Char) : Except Break (NumberText × List Char) :=
  match spanDigits text with
  | ([], rest) => .error (digitBreak rest)
  | (digits, rest) =>
    match digits with
    | '0' :: _ :: _ => .error (.of .malformed)
    | digits => readFraction ⟨negative, digits, [], none⟩ rest

/-- Reads the rest of a name. -/
def readName : (name text : List Char) → Except Cause (List Char)
  | [], text => .ok text
  | _ :: _, [] => .error .incomplete
  | n :: name, c :: text => if c = n then readName name text else .error .malformed

/-! ## 3. Values -/

/-- A value and the text after it; `none` if the text breaks off inside the value. -/
abbrev Parsed (α : Type) := α × Option (List Char)

/-- A leaf and the text after it. -/
def leaf (value : Tree) : Except Cause (List Char) → Parsed Tree
  | .ok rest => (value, some rest)
  | .error c => (.broken (.of c), none)

/-- The number that starts here after its sign. -/
def numberTree (negative : Bool) (text : List Char) : Parsed Tree :=
  match readNumber negative text with
  | .ok (t, rest) => (.number t, some rest)
  | .error b => (.broken b, none)

/-- The string that starts here after its opening quote. -/
def stringTree (text : List Char) : Parsed Tree :=
  match skipString text with
  | .ok rest => (.string (stringValue text), some rest)
  | .error c => (.broken (stringBreak text c), none)

mutual

/-- Reads a value. Every call inside passes on one less than its own bound, and never more than
two calls are made before a character is read. -/
def readTree : (bound : Nat) → List Char → Parsed Tree
  | 0, _ => (.broken (.of .malformed), none)
  | bound + 1, text =>
    match skipBlanks text with
    | [] => (.broken (.of .incomplete), none)
    | '[' :: rest =>
      let (items, rest) := readItems bound true rest
      (.array items, rest)
    | '{' :: rest =>
      let (members, rest) := readMembers bound true rest
      (.object members, rest)
    | '"' :: rest => stringTree rest
    | 'n' :: rest => leaf .null (readName "ull".toList rest)
    | 't' :: rest => leaf (.bool true) (readName "rue".toList rest)
    | 'f' :: rest => leaf (.bool false) (readName "alse".toList rest)
    | '-' :: rest => numberTree true rest
    | c :: rest =>
      if Text.isDigit c then numberTree false (c :: rest)
      else (.broken (.of .malformed), none)

/-- Reads the rest of an array; `first` at its start. -/
def readItems : (bound : Nat) → (first : Bool) → List Char → Parsed Items
  | 0, _, _ => (.broken (.of .malformed), none)
  | bound + 1, first, text =>
    let item (text : List Char) : Parsed Items :=
      match readTree bound text with
      | (t, none) => (.cons t .closed, none)
      | (t, some rest) =>
        let (items, rest) := readItems bound false rest
        (.cons t items, rest)
    match skipBlanks text with
    | [] => (.broken (.of .incomplete), none)
    | ']' :: rest => (.closed, some rest)
    | c :: rest =>
      if first then item (c :: rest)
      else if c = ',' then item rest
      else (.broken (.of .malformed), none)

/-- Reads the rest of an object; `first` at its start. -/
def readMembers : (bound : Nat) → (first : Bool) → List Char → Parsed Members
  | 0, _, _ => (.broken (.of .malformed), none)
  | bound + 1, first, text =>
    let member (text : List Char) : Parsed Members :=
      match skipBlanks text with
      | [] => (.broken (.of .incomplete), none)
      | '"' :: rest =>
        match skipString rest with
        | .error c => (.broken (stringBreak rest c), none)
        | .ok after =>
          let key := stringValue rest
          match skipBlanks after with
          | [] => (.cons key (.broken (.of .incomplete)) .closed, none)
          | ':' :: rest =>
            match readTree bound rest with
            | (t, none) => (.cons key t .closed, none)
            | (t, some rest) =>
              let (members, rest) := readMembers bound false rest
              (.cons key t members, rest)
          | _ => (.cons key (.broken (.of .malformed)) .closed, none)
      | _ => (.broken (.of .malformed), none)
    match skipBlanks text with
    | [] => (.broken (.of .incomplete), none)
    | '}' :: rest => (.closed, some rest)
    | c :: rest =>
      if first then member (c :: rest)
      else if c = ',' then member rest
      else (.broken (.of .malformed), none)

end

/-- A text as a tree. -/
structure Document where
  root : Tree
  /-- Whether something other than blanks follows the root. -/
  trailing : Bool

/-- Reads a whole text. -/
def Document.ofText (text : String) : Document :=
  let chars := text.toList
  match readTree (2 * chars.length + 2) chars with
  | (root, some rest) => ⟨root, !(skipBlanks rest).isEmpty⟩
  | (root, none) => ⟨root, false⟩

end WordMachine.Json
