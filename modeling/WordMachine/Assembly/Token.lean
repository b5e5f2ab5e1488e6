import WordMachine.Assembly.Comment
import WordMachine.Text.Blank

/-!
# Tokens

A token is the text of one instruction: a name, and possibly fields between `<` and `>`. Blanks
separate tokens; inside the fields each blank counts as one space and ends nothing. A token also
ends at its `>`.
-/

namespace WordMachine.Assembly

/-- Why a text has no tokens; `current` is the token at hand. -/
inductive LexicalFault where
  | nested (current : String)
  | nameless
  | strayClose (current : String)
  | separator
  | unterminated (current : String)
deriving DecidableEq, Repr

/-- The fault in words. -/
def LexicalFault.message : LexicalFault → String
  | .nested t => "nested '<' in '" ++ t ++ "'"
  | .nameless => "operand fields without an opcode name"
  | .strayClose t => "unexpected '>' after '" ++ t ++ "'"
  | .separator => "';' separates sources; use assemble_expression"
  | .unterminated t => "unterminated operand fields in '" ++ t ++ "'"

/-- The tokens so far, newest first; the token at hand, last character first; and whether it is
inside its fields. -/
structure Lexer where
  finished : List (List Char) := []
  current : List Char := []
  inFields : Bool := false

namespace Lexer

/-- The token at hand as it was written. -/
def shown (s : Lexer) : String := String.ofList s.current.reverse

/-- Adds a character to the token at hand. -/
def push (s : Lexer) (c : Char) : Lexer := { s with current := c :: s.current }

/-- Ends the token at hand, if it has begun. -/
def close (s : Lexer) : Lexer :=
  if s.current.isEmpty then s
  else { finished := s.current.reverse :: s.finished, current := [], inFields := false }

/-- Reads one more character. -/
def read (s : Lexer) (c : Char) : Except LexicalFault Lexer :=
  if c = '<' then
    if s.inFields then .error (.nested s.shown)
    else if s.current.isEmpty then .error .nameless
    else .ok { s.push c with inFields := true }
  else if c = '>' then
    if s.inFields then .ok (s.push c).close else .error (.strayClose s.shown)
  else if Text.isBlank c then
    .ok (if s.inFields then s.push ' ' else s.close)
  else if c = ';' then .error .separator
  else .ok (s.push c)

/-- Reads a text to its end. -/
def readAll : Lexer → List Char → Except LexicalFault Lexer
  | s, [] => .ok s
  | s, c :: rest =>
    match s.read c with
    | .ok s => readAll s rest
    | .error e => .error e

end Lexer

/-- The tokens of a text that has no comments left. -/
def tokensOf (text : List Char) : Except LexicalFault (List (List Char)) :=
  match Lexer.readAll {} text with
  | .error e => .error e
  | .ok s => if s.inFields then .error (.unterminated s.shown) else .ok s.close.finished.reverse

/-- The tokens of a text. -/
def tokenize (text : List Char) : Except LexicalFault (List (List Char)) :=
  tokensOf (stripComments text)

end WordMachine.Assembly
