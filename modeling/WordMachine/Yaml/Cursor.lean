/-!
# Places in a YAML text

A cursor is a place in a text: what follows, the line and the column it stands in, and how many
characters came before. Columns matter because blocks are told apart by how far they are indented;
lines and offsets because a key and its colon stand on one line and not too far apart.
-/

namespace WordMachine.Yaml

/-- A place in a text. -/
structure Cursor where
  rest : List Char
  line : Nat := 0
  column : Nat := 0
  offset : Nat := 0

/-- Whether a character breaks lines. -/
def isBreak (c : Char) : Bool := c = '\n' || c = '\u2028' || c = '\u2029'

/-- Whether a character is a blank within a line. -/
def isBlank (c : Char) : Bool := c = ' ' || c = '\t'

/-- Whether a text is empty or starts with a blank or a line break. -/
def startsBlank : List Char → Bool
  | [] => true
  | c :: _ => isBlank c || isBreak c

namespace Cursor

/-- The place after a character. -/
def past (p : Cursor) (c : Char) (rest : List Char) : Cursor :=
  if isBreak c then ⟨rest, p.line + 1, 0, p.offset + 1⟩
  else ⟨rest, p.line, p.column + 1, p.offset + 1⟩

/-- The place after the next character; the same place at the end of the text. -/
def next (p : Cursor) : Cursor :=
  match p.rest with
  | [] => p
  | c :: rest => p.past c rest

/-- The place after the next `n` characters. -/
def skip (p : Cursor) : (n : Nat) → Cursor
  | 0 => p
  | n + 1 => p.next.skip n

/-- The next character. -/
def head? (p : Cursor) : Option Char := p.rest.head?

/-- Whether a line starts here that bears only the given three characters before a blank. -/
def isMark (mark : List Char) (p : Cursor) : Bool :=
  p.column = 0 && mark.isPrefixOf p.rest && startsBlank (p.rest.drop 3)

/-- Whether the mark that starts a document stands here. -/
def isStart (p : Cursor) : Bool := p.isMark ['-', '-', '-']

/-- Whether the mark that ends a document stands here. -/
def isStop (p : Cursor) : Bool := p.isMark ['.', '.', '.']

/-- Whether no more of this document follows. -/
def isEnd (p : Cursor) : Bool := p.rest.isEmpty || p.isStart || p.isStop

/-- Whether the character here is followed by a blank, a line break or nothing. -/
def standsAlone (p : Cursor) : Bool := startsBlank (p.rest.drop 1)

end Cursor

/-! ## What carries no meaning -/

/-- Skips blanks, comments and line breaks in a block. A new key or entry may start at the
beginning of a line, and wherever `fresh` says so at first; a tab is no blank there. Gives also
whether a new key or entry may start at the place reached. -/
def skipInBlock (fresh inComment : Bool) (p : Cursor) : List Char → Cursor × Bool
  | [] => ({ p with rest := [] }, fresh)
  | c :: rest =>
    if isBreak c then skipInBlock true false (p.past c rest) rest
    else if inComment || c = ' ' || (c = '\t' && !fresh) then
      skipInBlock fresh inComment (p.past c rest) rest
    else if c = '#' then skipInBlock fresh true (p.past c rest) rest
    else ({ p with rest := c :: rest }, fresh)

/-- Skips blanks, comments and line breaks between brackets. -/
def skipInFlow (inComment : Bool) (p : Cursor) : List Char → Cursor
  | [] => { p with rest := [] }
  | c :: rest =>
    if isBreak c then skipInFlow false (p.past c rest) rest
    else if inComment || isBlank c then skipInFlow inComment (p.past c rest) rest
    else if c = '#' then skipInFlow true (p.past c rest) rest
    else { p with rest := c :: rest }

namespace Cursor

/-- The next place in a block that carries meaning, and whether a new key or entry may start
there. -/
def inBlock (p : Cursor) (fresh : Bool) : Cursor × Bool := skipInBlock fresh false p p.rest

/-- The next place between brackets that carries meaning. -/
def inFlow (p : Cursor) : Cursor := skipInFlow false p p.rest

end Cursor

/-! ## Whole texts -/

/-- Whether a character may stand in a text. -/
def isAllowed (c : Char) : Bool :=
  let n := c.toNat
  c = '\t' || c = '\n' || c = '\r' || (0x20 ≤ n && n ≤ 0x7E) || n = 0x85 ||
    (0xA0 ≤ n && n ≤ 0xFFFD) || 0x10000 ≤ n

/-- The text with a line feed for each of its line breaks but the two separators. A carriage return
breaks a line, together with a line feed right after it, and so does the control character
`0x85`. -/
def withFeeds : List Char → List Char
  | [] => []
  | '\r' :: '\n' :: rest => '\n' :: withFeeds rest
  | c :: rest => (if c = '\r' || c.toNat = 0x85 then '\n' else c) :: withFeeds rest

/-- The place at the start of a text; `none` if some character may not stand in a text. A byte order
mark at the start is passed over, but takes its column. -/
def Cursor.ofText? (text : String) : Option Cursor :=
  if text.toList.all isAllowed then
    let start : Cursor := ⟨withFeeds text.toList, 0, 0, 0⟩
    if start.head? = some '\uFEFF' then some start.next else some start
  else none

end WordMachine.Yaml
