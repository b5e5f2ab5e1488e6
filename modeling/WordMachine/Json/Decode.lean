import WordMachine.Json.Fault
import WordMachine.Json.Reader

/-!
# From JSON to data

The general rules by which a value is read as a record, a list, a word or a string.

A record is an object or an array. In an object, the fields stand in any order; a key that names no
field is skipped with its value, and a second value for a field is refused as soon as its key is
met. In an array, the fields stand in their own order, and whatever follows the last one is
refused.
-/

namespace WordMachine.Json

/-- A field of a record that is being put together in a draft `σ`, read from values `α`. -/
structure Field (α σ : Type) where
  name : String
  isSet : σ → Bool
  read : σ → α → Reading σ

/-! ## 1. Records -/

variable {α σ : Type}

/-- Reads one member of an object into the field it names; `skip` deals with any other. -/
def readMember (fields : List (Field α σ)) (skip : α → Reading Unit) (draft : σ) (key : String)
    (value : α) : Reading σ :=
  match fields.find? (·.name = key) with
  | none => do
    skip value
    return draft
  | some field =>
    if field.isSet draft then .refuse (.duplicateField field.name) else field.read draft value

/-- Reads the rest of an object. -/
def Members.fill (fields : List (Field Tree σ)) (draft : σ) : Members → Reading σ
  | .closed => .ok draft
  | .broken b => .error (.text b.read)
  | .cons none _ _ => .error (.text .malformed)
  | .cons (some key) value rest => do
    let draft ← readMember fields (fun t => .ofText t.skip) draft key value
    rest.fill fields draft

/-- Reads the rest of an array into the fields that are left. -/
def Items.fill (draft : σ) : List (Field Tree σ) → Items → Reading σ
  | _, .broken b => .error (.text b.read)
  | _, .closed => .ok draft
  | [], .cons _ _ => .error (.text .malformed)
  | field :: fields, .cons item rest => do
    let draft ← field.read draft item
    rest.fill draft fields

/-- Refuses what stands here. -/
def Tree.refuse (expected : String) (t : Tree) : Reading α := do
  let found ← t.found
  .refuse (.invalidType found expected)

/-- Reads a record. -/
def Tree.fill (expected : String) (fields : List (Field Tree σ)) (draft : σ) (t : Tree) :
    Reading σ :=
  match t with
  | .object members => members.fill fields draft
  | .array items => items.fill draft fields
  | t => t.refuse expected

/-- Reads the members of an object that was held back. -/
def fillContents (fields : List (Field Content σ)) (draft : σ) :
    List (String × Content) → Reading σ
  | [] => .ok draft
  | (key, value) :: rest => do
    let draft ← readMember fields (fun _ => .ok ()) draft key value
    fillContents fields draft rest

/-- What a record of `n` fields is called where its array has the wrong length. -/
def elements (n : Nat) : String := toString n ++ (if n = 1 then " element" else " elements")

/-- Reads the items of an array that was held back as all fields of a record; `index` counts the
items read so far. -/
def fillItems (expected : String) (draft : σ) (index : Nat) :
    List (Field Content σ) → List Content → Reading σ
  | [], [] => .ok draft
  | [], rest =>
    .refuse (.invalidLength (index + rest.length) (elements index ++ " in sequence"))
  | left, [] =>
    .refuse (.invalidLength index (expected ++ " with " ++ elements (index + left.length)))
  | field :: fields, item :: rest => do
    let draft ← field.read draft item
    fillItems expected draft (index + 1) fields rest

/-- Reads a record that was held back. -/
def Content.fill (expected : String) (fields : List (Field Content σ)) (draft : σ) (c : Content) :
    Reading σ :=
  match c with
  | .object members => fillContents fields draft members
  | .array items => fillItems expected draft 0 fields items
  | c => .refuse (.invalidType c.found expected)

/-- The value of a field that has to be there. -/
def required (name : String) : Option α → Reading α
  | some a => .ok a
  | none => .refuse (.missingField name)

/-! ## 2. Lists -/

/-- Reads the rest of an array item by item. -/
def Items.each (read : Tree → Reading α) : Items → Reading (List α)
  | .closed => .ok []
  | .broken b => .error (.text b.read)
  | .cons item rest => do
    let a ← read item
    let more ← rest.each read
    return a :: more

/-- Reads a list. -/
def Tree.list (expected : String) (read : Tree → Reading α) (t : Tree) : Reading (List α) :=
  match t with
  | .array items => items.each read
  | t => t.refuse expected

/-- Reads items that were held back. -/
def eachContent (read : Content → Reading α) : List Content → Reading (List α)
  | [] => .ok []
  | c :: rest => do
    let a ← read c
    let more ← eachContent read rest
    return a :: more

/-- Reads a list that was held back. -/
def Content.list (expected : String) (read : Content → Reading α) (c : Content) :
    Reading (List α) :=
  match c with
  | .array items => eachContent read items
  | c => .refuse (.invalidType c.found expected)

/-! ## 3. Words and strings -/

/-- What stands where a word is missing. -/
def expectedWord : String := "an unsigned integer, decimal string or 0x-prefixed hex string"

/-- What stands where a list of words is missing. -/
def expectedWords : String := "a list of words"

/-- The word that stands here: an unsigned integer, or a string with a word literal. -/
def Found.word : Found → Reading Word
  | .number (.unsigned n) => .ok (Word.clamp n)
  | .number (.signed n) => .refuse (.negativeWord n)
  | .string s =>
    match Word.parse s with
    | .ok w => .ok w
    | .error f => .refuse (.literal f)
  | found => .refuse (.invalidType found expectedWord)

/-- Reads a word. -/
def Tree.word (t : Tree) : Reading Word := do
  let found ← t.found
  found.word

/-- Reads a word or `null`. -/
def Tree.word? : Tree → Reading (Option Word)
  | .null => .ok none
  | t => do
    let w ← t.word
    return some w

/-- Reads a list of words. -/
def Tree.words (t : Tree) : Reading (List Word) := t.list expectedWords Tree.word

/-- Reads a word that was held back. -/
def Content.word (c : Content) : Reading Word := c.found.word

/-- Reads a list of words that was held back. -/
def Content.words (c : Content) : Reading (List Word) := c.list expectedWords Content.word

/-- Reads a string. -/
def Tree.text (expected : String) (t : Tree) : Reading String := do
  match ← t.found with
  | .string s => return s
  | found => .refuse (.invalidType found expected)

/-- Reads an index that was held back. -/
def Content.index (c : Content) : Reading Nat :=
  match c.found with
  | .number (.unsigned n) => .ok n
  | .number (.signed n) => .refuse (.invalidValue (.number (.signed n)) "usize")
  | found => .refuse (.invalidType found "usize")

/-! ## 4. Whole documents -/

/-- Reads a whole document; nothing may follow its root. -/
def decode (read : Tree → Reading α) (text : String) : Reading α := do
  let document := Document.ofText text
  let a ← read document.root
  if document.trailing then .error (.text .malformed) else return a

end WordMachine.Json
