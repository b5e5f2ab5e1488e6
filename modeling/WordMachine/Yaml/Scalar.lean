import WordMachine.Text.Hex
import WordMachine.Yaml.Cursor

/-!
# Scalars in YAML

Texts with and without quotes, and blocks of text. Between words, a text keeps its blanks; a line
break with the blanks around it becomes one space, and each line break after it is kept.
-/

namespace WordMachine.Yaml

/-! ## 1. Gaps -/

/-- What stands between two words of a text. -/
structure Gap where
  /-- Whether a line has ended. -/
  broken : Bool := false
  /-- The blanks before any line break, last one first. -/
  blanks : List Char := []
  /-- The first line break, unless it is hidden. -/
  first : Option Char := none
  /-- All further line breaks, last one first. -/
  more : List Char := []

namespace Gap

/-- Takes in a blank. -/
def blank (g : Gap) (c : Char) : Gap := if g.broken then g else { g with blanks := c :: g.blanks }

/-- Takes in a line break. -/
def lineBreak (g : Gap) (c : Char) : Gap :=
  if g.broken then { g with more := c :: g.more } else { broken := true, first := some c }

/-- The gap after a line break that is hidden. -/
def hidden : Gap := { broken := true }

/-- Whether nothing stands between. -/
def isNone (g : Gap) : Bool := !g.broken && g.blanks.isEmpty

/-- Puts the gap behind a text whose last character stands first. -/
def onto (g : Gap) (read : List Char) : List Char :=
  if g.broken then
    match g.first with
    | some '\n' => if g.more.isEmpty then ' ' :: read else g.more ++ read
    | some c => g.more ++ c :: read
    | none => g.more ++ read
  else g.blanks ++ read

end Gap

/-- A text, the place after it, and whether a new key or entry may start there. -/
structure Scalar where
  text : String
  after : Cursor
  fresh : Bool

/-- The scalar whose characters were read, last one first. -/
def scalarOf (read : List Char) (after : Cursor) (fresh : Bool) : Scalar :=
  ⟨String.ofList read.reverse, after, fresh⟩

/-! ## 2. Without quotes -/

/-- Whether a character is a bracket or a comma. -/
def isFlowMark (c : Char) : Bool := c ∈ [',', '[', ']', '{', '}']

/-- Whether a text without quotes ends before this character. -/
def endsPlain (flow : Bool) (c : Char) (rest : List Char) : Bool :=
  (c = ':' && startsBlank rest) || (flow && isFlowMark c)

/-- Whether a colon stands where none may: between brackets, right before a mark. -/
def isStrayColon (flow : Bool) (c : Char) (rest : List Char) : Bool :=
  flow && c = ':' &&
    match rest with
    | d :: _ => isFlowMark d || d = '?'
    | [] => false

/-- Reads on in a text without quotes. In a block, its lines are indented to the column `floor` at
least. -/
def readPlain (flow : Bool) (floor : Nat) (read : List Char) (gap : Gap) (p : Cursor) :
    List Char → Option Scalar
  | [] => some (scalarOf read { p with rest := [] } gap.broken)
  | c :: rest =>
    let here : Cursor := { p with rest := c :: rest }
    if isBlank c then
      if gap.broken && p.column < floor && c = '\t' then none
      else readPlain flow floor read (gap.blank c) (p.past c rest) rest
    else if isBreak c then readPlain flow floor read (gap.lineBreak c) (p.past c rest) rest
    else if !gap.isNone && (here.isEnd || c = '#' || (!flow && p.column < floor)) then
      some (scalarOf read here gap.broken)
    else if isStrayColon flow c rest then none
    else if endsPlain flow c rest then some (scalarOf read here gap.broken)
    else readPlain flow floor (c :: gap.onto read) {} (p.past c rest) rest

/-- Characters with a meaning of their own at the start of a scalar. -/
def isIndicator (c : Char) : Bool :=
  c ∈ ['-', '?', ':', ',', '[', ']', '{', '}', '#', '&', '*', '!', '|', '>', '\'', '"', '%', '@',
    '\x60']

/-- Whether a text without quotes can start here. -/
def startsPlain (flow : Bool) (p : Cursor) : Bool :=
  match p.rest with
  | [] => false
  | c :: rest =>
    if isBlank c || isBreak c then false
    else if c = '-' then !startsBlank rest
    else if c = '?' || c = ':' then !flow && !startsBlank rest
    else !isIndicator c

/-- Reads a text without quotes. -/
def plainScalar? (flow : Bool) (floor : Nat) (p : Cursor) : Option Scalar :=
  if startsPlain flow p then readPlain flow floor [] {} p p.rest else none

/-! ## 3. With quotes -/

/-- Reads on in a text between single quotes, in which two quotes stand for one. -/
def readSingle (read : List Char) (gap : Gap) (p : Cursor) : List Char → Option Scalar
  | [] => none
  | '\'' :: '\'' :: rest =>
    readSingle ('\'' :: gap.onto read) {} ((p.past '\'' ('\'' :: rest)).past '\'' rest) rest
  | c :: rest =>
    if ({ p with rest := c :: rest } : Cursor).isEnd then none
    else if c = '\'' then some (scalarOf (gap.onto read) (p.past c rest) false)
    else if isBlank c then readSingle read (gap.blank c) (p.past c rest) rest
    else if isBreak c then readSingle read (gap.lineBreak c) (p.past c rest) rest
    else readSingle (c :: gap.onto read) {} (p.past c rest) rest

/-- The character of an escape of one letter. -/
def escaped? : Char → Option Char
  | '0' => some '\x00'
  | 'a' => some '\x07'
  | 'b' => some '\x08'
  | 't' => some '\t'
  | '\t' => some '\t'
  | 'n' => some '\n'
  | 'v' => some '\x0b'
  | 'f' => some '\x0c'
  | 'r' => some '\r'
  | 'e' => some '\x1b'
  | ' ' => some ' '
  | '"' => some '"'
  | '/' => some '/'
  | '\\' => some '\\'
  | 'N' => some '\u0085'
  | '_' => some '\u00A0'
  | 'L' => some '\u2028'
  | 'P' => some '\u2029'
  | _ => none

/-- How many base-16 digits follow a letter that announces the number of a character. -/
def codeLength? : Char → Option Nat
  | 'x' => some 2
  | 'u' => some 4
  | 'U' => some 8
  | _ => none

/-- Reads an escape after its backslash. -/
def readEscape? (p : Cursor) : Option (Char × Cursor) := do
  let letter ← p.head?
  match codeLength? letter with
  | none => return (← escaped? letter, p.next)
  | some count =>
    let digits := p.next.rest.take count
    guard (digits.length = count)
    let n ← Text.hexNumber? 0 digits
    guard n.isValidChar
    return (Char.ofNat n, p.skip (count + 1))

/-- Reads on in a text between double quotes. Every step uses up a character, so the length of the
text bounds the steps. -/
def readDouble (read : List Char) (gap : Gap) : (bound : Nat) → Cursor → Option Scalar
  | 0, _ => none
  | bound + 1, p =>
    if p.isEnd then none
    else
      match p.head? with
      | none => none
      | some c =>
        if c = '"' then some (scalarOf (gap.onto read) p.next false)
        else if isBlank c then readDouble read (gap.blank c) bound p.next
        else if isBreak c then readDouble read (gap.lineBreak c) bound p.next
        else if c = '\\' then
          if p.next.head?.any isBreak then
            readDouble (gap.onto read) .hidden bound p.next.next
          else do
            let (e, after) ← readEscape? p.next
            readDouble (e :: gap.onto read) {} bound after
        else readDouble (c :: gap.onto read) {} bound p.next

/-- Reads a text with quotes. -/
def quotedScalar? (p : Cursor) : Option Scalar :=
  match p.rest with
  | '\'' :: rest => readSingle [] {} p.next rest
  | '"' :: rest => readDouble [] {} rest.length p.next
  | _ => none

/-! ## 4. Blocks of text -/

/-- What becomes of the line breaks at the end of a block. -/
inductive Chomping where
  /-- All are dropped. -/
  | strip
  /-- The first is kept. -/
  | clip
  /-- All are kept. -/
  | keep
deriving DecidableEq

/-- How a block of text is written. -/
structure BlockStyle where
  /-- Whether line breaks are kept as they are. -/
  literal : Bool
  chomping : Chomping := .clip
  /-- How much deeper than its surroundings the block is indented, if that is said. -/
  increment : Option Nat := none

/-- Reads one letter of a block's head; `none` if it is none or comes too late. -/
def BlockStyle.read? (s : BlockStyle) (c : Char) : Option BlockStyle :=
  if c = '+' && s.chomping = .clip then some { s with chomping := .keep }
  else if c = '-' && s.chomping = .clip then some { s with chomping := .strip }
  else if s.increment.isNone && '1' ≤ c && c ≤ '9' then
    some { s with increment := some (c.toNat - '0'.toNat) }
  else none

/-- Reads at most two letters of a block's head. -/
def readStyle (s : BlockStyle) (p : Cursor) : (count : Nat) → BlockStyle × Cursor
  | 0 => (s, p)
  | count + 1 =>
    match p.head?.bind s.read? with
    | some s => readStyle s p.next count
    | none => (s, p)

/-- Skips the rest of the line of a block's head: blanks and a comment. -/
def endHead (inComment : Bool) (p : Cursor) : List Char → Option Cursor
  | [] => some { p with rest := [] }
  | c :: rest =>
    if isBreak c then some (p.past c rest)
    else if inComment || isBlank c then endHead inComment (p.past c rest) rest
    else if c = '#' then endHead true (p.past c rest) rest
    else none

/-- Skips blank lines before a block whose indentation is to be found. Gives the deepest
indentation met and the line breaks, last one first. -/
def findIndent (deepest : Nat) (breaks : List Char) (p : Cursor) :
    List Char → Option (Nat × List Char × Cursor)
  | [] => some (max deepest p.column, breaks, { p with rest := [] })
  | c :: rest =>
    if c = ' ' then findIndent deepest breaks (p.past c rest) rest
    else if c = '\t' then none
    else if isBreak c then
      findIndent (max deepest p.column) (c :: breaks) (p.past c rest) rest
    else some (max deepest p.column, breaks, { p with rest := c :: rest })

/-- A block of text read so far. -/
structure BlockDraft where
  /-- The characters read, last one first. -/
  read : List Char := []
  /-- The line break after the last line that is not blank. -/
  ended : Option Char := none
  /-- The line breaks after that one, last one first. -/
  breaks : List Char := []
  /-- Whether the last line that is not blank starts with a blank. -/
  indented : Bool := false
  /-- Whether the place is inside a line. -/
  inLine : Bool := false

/-- Starts a line with a character; a single line break before it becomes a space where lines are
joined. -/
def BlockDraft.start (d : BlockDraft) (literal : Bool) (c : Char) : BlockDraft :=
  let joined := !literal && d.ended = some '\n' && !d.indented && !isBlank c
  let read :=
    if joined then if d.breaks.isEmpty then ' ' :: d.read else d.breaks ++ d.read
    else d.breaks ++ (d.ended.toList ++ d.read)
  { read := c :: read, indented := isBlank c, inLine := true }

/-- Reads on in a block whose lines are indented to a column. -/
def readBlock (literal : Bool) (indent : Nat) (d : BlockDraft) (p : Cursor) :
    List Char → Option (BlockDraft × Cursor)
  | [] => some (d, { p with rest := [] })
  | c :: rest =>
    let after := p.past c rest
    if d.inLine then
      if isBreak c then
        readBlock literal indent { d with ended := some c, inLine := false } after rest
      else readBlock literal indent { d with read := c :: d.read } after rest
    else if p.column < indent && c = ' ' then readBlock literal indent d after rest
    else if p.column < indent && c = '\t' then none
    else if isBreak c then
      readBlock literal indent { d with breaks := c :: d.breaks } after rest
    else if p.column = indent then readBlock literal indent (d.start literal c) after rest
    else some (d, { p with rest := c :: rest })

/-- The characters of a block, last one first. -/
def BlockDraft.finish (d : BlockDraft) : Chomping → List Char
  | .strip => d.read
  | .clip => d.ended.toList ++ d.read
  | .keep => d.breaks ++ (d.ended.toList ++ d.read)

/-- Reads a block of text after its first mark. Its lines are indented to the column `floor` at
least, and to the first column at least. -/
def blockScalar? (literal : Bool) (floor : Nat) (p : Cursor) : Option Scalar := do
  let (style, p) := readStyle { literal } p 2
  let p ← endHead false p p.rest
  let (indent, breaks, p) ←
    match style.increment with
    | some n => some (floor - 1 + n, [], p)
    | none =>
      (findIndent 0 [] p p.rest).map fun (deepest, breaks, p) =>
        (max deepest (max floor 1), breaks, p)
  let (d, p) ← readBlock literal indent { breaks } p p.rest
  return scalarOf (d.finish style.chomping) p true

end WordMachine.Yaml
