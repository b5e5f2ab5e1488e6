import WordMachine.Text.Hex

/-!
# Strings in TOML

Four kinds: with double or with single quotes, on one line or between three quotes on several.
Escapes are read between double quotes only. Text between three quotes loses a line break at its
very start, may end in one or two quotes of its own, and, between double quotes, a backslash at the
end of a line hides the break and the blanks after it.
-/

namespace WordMachine.Toml

/-- Whether a character may stand in a string or a comment: no control characters but the tab. -/
def isContent (c : Char) : Bool := c = '\t' || (0x20 ≤ c.toNat && c.toNat ≠ 0x7F)

/-- Whether a character is a blank within a line. -/
def isBlank (c : Char) : Bool := c = ' ' || c = '\t'

/-- The text after the blanks at its start. -/
def skipBlanks (text : List Char) : List Char := text.dropWhile isBlank

/-- The character of an escape of one letter. -/
def escaped? : Char → Option Char
  | 'b' => some '\x08'
  | 't' => some '\t'
  | 'n' => some '\n'
  | 'f' => some '\x0c'
  | 'r' => some '\r'
  | 'e' => some '\x1b'
  | '"' => some '"'
  | '\\' => some '\\'
  | _ => none

/-- The character with a number. -/
def character? (n : Nat) : Option Char := if n.isValidChar then some (Char.ofNat n) else none

/-- Reads the character whose number is written in the given count of base-16 digits. -/
def readCode (count : Nat) (text : List Char) : Option (Char × List Char) := do
  let digits := text.take count
  guard (digits.length = count)
  let c ← character? (← Text.hexNumber? 0 digits)
  return (c, text.drop count)

/-- Reads an escape after its backslash. -/
def readEscape : List Char → Option (Char × List Char)
  | 'x' :: rest => readCode 2 rest
  | 'u' :: rest => readCode 4 rest
  | 'U' :: rest => readCode 8 rest
  | c :: rest => (escaped? c).map (·, rest)
  | [] => none

/-- The string whose characters were read, last one first. -/
def finish (read : List Char) : String := String.ofList read.reverse

/-! ## 1. On one line -/

/-- Reads a string with escapes after its opening quote. Every step uses up a character, so the
length of the text bounds the steps. -/
def readBasic (read : List Char) : (bound : Nat) → List Char → Option (String × List Char)
  | 0, _ => none
  | _, [] => none
  | bound + 1, c :: rest =>
    if c = '"' then some (finish read, rest)
    else if c = '\\' then do
      let (e, rest) ← readEscape rest
      readBasic (e :: read) bound rest
    else if isContent c then readBasic (c :: read) bound rest
    else none

/-- Reads a string without escapes after its opening quote. -/
def readLiteral (read : List Char) : List Char → Option (String × List Char)
  | [] => none
  | c :: rest =>
    if c = '\'' then some (finish read, rest)
    else if isContent c then readLiteral (c :: read) rest
    else none

/-! ## 2. On several lines -/

/-- Reads the quotes at the end of a string between three quotes: all but the last three belong
to it, two at most. `none` if there are fewer than three. -/
def closing? (quote : Char) (text : List Char) : Option (List Char × List Char) :=
  let count := (text.takeWhile (· = quote)).length
  if count < 3 then none
  else
    let own := min (count - 3) 2
    some (List.replicate own quote, text.drop (own + 3))

/-- The text after the line break at its start, if it starts with one. -/
def afterBreak? : List Char → Option (List Char)
  | '\n' :: rest => some rest
  | '\r' :: '\n' :: rest => some rest
  | _ => none

/-- The text after the line break at its start. -/
def dropBreak (text : List Char) : List Char := (afterBreak? text).getD text

/-- The text after the blanks and line breaks at its start. -/
def skipSpace : List Char → List Char
  | '\n' :: rest => skipSpace rest
  | '\r' :: '\n' :: rest => skipSpace rest
  | c :: rest => if isBlank c then skipSpace rest else c :: rest
  | [] => []

/-- Whether a backslash before this text stands at the end of its line. -/
def endsLine (text : List Char) : Bool := (afterBreak? (skipBlanks text)).isSome

/-- Reads the rest of a string between three double quotes. -/
def readLongBasic (read : List Char) : (bound : Nat) → List Char → Option (String × List Char)
  | 0, _ => none
  | _, [] => none
  | bound + 1, c :: rest =>
    if c = '"' then
      match closing? '"' (c :: rest) with
      | some (own, rest) => some (finish (own ++ read), rest)
      | none => readLongBasic (c :: read) bound rest
    else if c = '\\' then
      if endsLine rest then readLongBasic read bound (skipSpace rest)
      else do
        let (e, rest) ← readEscape rest
        readLongBasic (e :: read) bound rest
    else if isContent c || c = '\n' || (afterBreak? (c :: rest)).isSome then
      readLongBasic (c :: read) bound rest
    else none

/-- Reads the rest of a string between three single quotes. -/
def readLongLiteral (read : List Char) : List Char → Option (String × List Char)
  | [] => none
  | c :: rest =>
    match closing? '\'' (c :: rest) with
    | some (own, rest) => some (finish (own ++ read), rest)
    | none =>
      if isContent c || (afterBreak? (c :: rest)).isSome then readLongLiteral (c :: read) rest
      else none

/-! ## 3. Any of them -/

/-- Reads a string on one line. -/
def readShort : List Char → Option (String × List Char)
  | '"' :: rest => readBasic [] rest.length rest
  | '\'' :: rest => readLiteral [] rest
  | _ => none

/-- Reads a string of any kind. -/
def readString : List Char → Option (String × List Char)
  | '"' :: '"' :: '"' :: rest =>
    let body := dropBreak rest
    readLongBasic [] body.length body
  | '\'' :: '\'' :: '\'' :: rest => readLongLiteral [] (dropBreak rest)
  | text => readShort text

end WordMachine.Toml
