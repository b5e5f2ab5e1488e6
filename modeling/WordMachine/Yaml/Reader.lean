import WordMachine.Document.Node
import WordMachine.Yaml.Scalar

/-!
# Reading YAML

Blocks and flows. In a block, the members of a mapping and the entries of a sequence start at one
column, and what belongs to them stands further to the right; only a sequence that is the value of
a key and a block of text may start at that column itself. In a flow, brackets and commas tell what
belongs together. A key stands on one line with its colon. Tags, anchors and keys after a question
mark are not read, and a text holds one document.
-/

namespace WordMachine.Yaml

open Document (Node)

/-- The node that stands where nothing is written. -/
def nothing : Node := .plain ""

/-- How many characters may stand from the start of a key to its colon. -/
def maxKeyLength : Nat := 1024

/-- Whether a colon belongs to the key that starts at `start`. -/
def closesKey (start colon : Cursor) : Bool :=
  start.line = colon.line && colon.offset ≤ start.offset + maxKeyLength

/-! ## 1. Flows -/

/-- Whether a value is left out before this character. -/
def endsFlowValue (p : Cursor) : Bool := p.head?.any (· ∈ [',', ']', '}'])

mutual

/-- Reads a node between brackets. Every call inside passes on one less than its own bound, and
never more than two calls are made before a character is read. -/
def flowNode (floor : Nat) : (bound : Nat) → Cursor → Option (Node × Cursor)
  | 0, _ => none
  | bound + 1, p =>
    if p.isEnd then none
    else
      match p.rest with
      | '[' :: _ => do
        let (items, after) ← flowItems floor bound p.next.inFlow
        return (.list items, after)
      | '{' :: _ => do
        let (members, after) ← flowMembers floor bound p.next.inFlow
        return (.table members, after)
      | '"' :: _ => (quotedScalar? p).map fun s => (.text s.text, s.after)
      | '\'' :: _ => (quotedScalar? p).map fun s => (.text s.text, s.after)
      | _ => (plainScalar? true floor p).map fun s => (.plain s.text, s.after)

/-- Reads a value after its colon, which may be left out. -/
def flowValue (floor : Nat) : (bound : Nat) → Cursor → Option (Node × Cursor)
  | 0, _ => none
  | bound + 1, p => if endsFlowValue p then some (nothing, p) else flowNode floor bound p

/-- Reads the rest of a sequence; an item with a colon is a mapping of one member. -/
def flowItems (floor : Nat) : (bound : Nat) → Cursor → Option (List Node × Cursor)
  | 0, _ => none
  | bound + 1, p => do
    if p.head? = some ']' then return ([], p.next)
    let (node, after) ← flowNode floor bound p
    let q := after.inFlow
    let (item, q) ←
      if q.head? = some ':' then
        if closesKey p q then
          (flowValue floor bound q.next.inFlow).map fun (value, after) =>
            (.table [(node, value)], after.inFlow)
        else none
      else some (node, q)
    match q.head? with
    | some ',' =>
      let (items, after) ← flowItems floor bound q.next.inFlow
      return (item :: items, after)
    | some ']' => return ([item], q.next)
    | _ => none

/-- Reads the rest of a mapping; a key without a colon has no value. -/
def flowMembers (floor : Nat) : (bound : Nat) → Cursor → Option (List (Node × Node) × Cursor)
  | 0, _ => none
  | bound + 1, p => do
    if p.head? = some '}' then return ([], p.next)
    let (key, after) ← flowNode floor bound p
    let q := after.inFlow
    let (value, q) ←
      if q.head? = some ':' then
        if closesKey p q then
          (flowValue floor bound q.next.inFlow).map fun (value, after) => (value, after.inFlow)
        else none
      else some (nothing, q)
    match q.head? with
    | some ',' =>
      let (members, after) ← flowMembers floor bound q.next.inFlow
      return ((key, value) :: members, after)
    | some '}' => return ([(key, value)], q.next)
    | _ => none

end

/-! ## 2. Blocks -/

/-- A node, the place after it, and whether a new key or entry may start there. -/
structure Part where
  node : Node
  after : Cursor
  fresh : Bool

/-- Reads a scalar or a flow. -/
def content? (floor bound : Nat) (p : Cursor) : Option Part :=
  match p.rest with
  | '"' :: _ => (quotedScalar? p).map fun s => ⟨.text s.text, s.after, s.fresh⟩
  | '\'' :: _ => (quotedScalar? p).map fun s => ⟨.text s.text, s.after, s.fresh⟩
  | '|' :: _ => (blockScalar? true floor p.next).map fun s => ⟨.text s.text, s.after, s.fresh⟩
  | '>' :: _ => (blockScalar? false floor p.next).map fun s => ⟨.text s.text, s.after, s.fresh⟩
  | '[' :: _ => (flowNode floor bound p).map fun (node, after) => ⟨node, after, false⟩
  | '{' :: _ => (flowNode floor bound p).map fun (node, after) => ⟨node, after, false⟩
  | _ => (plainScalar? false floor p).map fun s => ⟨.plain s.text, s.after, s.fresh⟩

/-- Whether an entry of a sequence starts here. -/
def isDash (p : Cursor) : Bool := p.head? = some '-' && p.standsAlone

/-- Whether a block of text starts here. -/
def isTextMark (p : Cursor) : Bool := p.head? = some '|' || p.head? = some '>'

/-- Whether a colon stands here that ends a key. -/
def isColon (p : Cursor) : Bool := p.head? = some ':' && p.standsAlone

/-- Reads a key up to its colon, and gives the place after that. -/
def key? (floor bound : Nat) (p : Cursor) : Option (Node × Cursor) := do
  let part ← content? floor bound p
  let (colon, _) := part.after.inBlock part.fresh
  if isColon colon && closesKey p colon then return (part.node, colon.next) else none

mutual

/-- Reads a node of a block that starts at the column `floor` or further to the right; `fresh` says
whether a key or an entry may start here. Every call inside passes on one less than its own bound,
and never more than three calls are made before a character is read. -/
def blockNode (floor : Nat) (fresh : Bool) : (bound : Nat) → Cursor → Option Part
  | 0, _ => none
  | bound + 1, p =>
    if isDash p then
      if fresh then do
        let (items, after, fresh) ← sequence p.column false bound p
        return ⟨.list items, after, fresh⟩
      else none
    else do
      let part ← content? floor bound p
      let (q, _) := part.after.inBlock part.fresh
      if isColon q then
        if fresh && closesKey p q then
          let (members, after, fresh) ← mapping p.column part.node bound q.next
          return ⟨.table members, after, fresh⟩
        else none
      else return part

/-- Reads what belongs to a key or an entry at a column, which may be nothing. -/
def belonging (column : Nat) (ofKey : Bool) : (bound : Nat) → Cursor → Option Part
  | 0, _ => none
  | bound + 1, p =>
    let (q, fresh) := p.inBlock !ofKey
    if q.isEnd then some ⟨nothing, q, fresh⟩
    else if column < q.column then blockNode (column + 1) fresh bound q
    else if ofKey && q.column = column && isDash q then do
      let (items, after, fresh) ← sequence column true bound q
      return ⟨.list items, after, fresh⟩
    else if q.column = column && isTextMark q then content? (column + 1) bound q
    else some ⟨nothing, q, fresh⟩

/-- Reads the entries of a sequence at a column; `ofKey` if it starts at the column of its key. -/
def sequence (column : Nat) (ofKey : Bool) :
    (bound : Nat) → Cursor → Option (List Node × Cursor × Bool)
  | 0, _ => none
  | bound + 1, p => do
    let item ← belonging column false bound p.next
    let (q, fresh) := item.after.inBlock item.fresh
    if q.isEnd || q.column < column then return ([item.node], q, fresh)
    else if column < q.column then none
    else if isDash q then
      let (items, after, fresh) ← sequence column ofKey bound q
      return (item.node :: items, after, fresh)
    else if ofKey then return ([item.node], q, fresh)
    else none

/-- Reads the value of a key and all further members of a mapping at a column. -/
def mapping (column : Nat) (key : Node) :
    (bound : Nat) → Cursor → Option (List (Node × Node) × Cursor × Bool)
  | 0, _ => none
  | bound + 1, p => do
    let value ← belonging column true bound p
    let (q, fresh) := value.after.inBlock value.fresh
    if q.isEnd || q.column < column then return ([(key, value.node)], q, fresh)
    else if column < q.column || !fresh then none
    else
      let (next, after) ← key? (column + 1) bound q
      let (members, after, fresh) ← mapping column next bound after
      return ((key, value.node) :: members, after, fresh)

end

/-! ## 3. Documents -/

/-- How many lists and tables may be open at one place of what is held back. -/
def maxNesting : Nat := 128

/-- Whether nothing follows the document that ends here; its end may be marked more than once. -/
def isLast : (bound : Nat) → Cursor → Bool
  | 0, p => p.rest.isEmpty
  | bound + 1, p => p.rest.isEmpty || (p.isStop && isLast bound ((p.skip 3).inBlock false).1)

/-- Reads the root that starts here. It may be nothing, but the end of a document that was not
`started` by its mark may not be marked then. -/
def root? (started : Bool) (p : Cursor) (fresh : Bool) : Option Node := do
  if p.isEnd then
    guard (started || p.rest.isEmpty)
    guard (isLast p.rest.length p)
    return nothing
  else
    let part ← blockNode 0 fresh (3 * p.rest.length + 3) p
    let (q, _) := part.after.inBlock part.fresh
    guard (isLast q.rest.length q)
    return part.node

/-- The root of the document in a text. -/
def document? (text : String) : Option Node := do
  let start ← Cursor.ofText? text
  let (p, fresh) := start.inBlock true
  if p.isStart then
    let (p, fresh) := (p.skip 3).inBlock false
    root? true p fresh
  else root? false p fresh

end WordMachine.Yaml
