import WordMachine.Text.Line
import WordMachine.Text.Numeral

/-!
# Comments

A comment runs from `#` to the end of its line, unless a decimal digit follows the `#` at once:
then the `#` starts the number of an opcode.
-/

namespace WordMachine.Assembly

/-- Whether the text starts with a decimal digit. -/
def startsWithDigit : List Char → Bool
  | c :: _ => Text.isDigit c
  | [] => false

/-- Reads up to the comment; `kept` holds the characters before, last one first. -/
def cutCommentFrom (kept : List Char) : List Char → List Char
  | [] => kept.reverse
  | c :: rest =>
    if c = '#' ∧ startsWithDigit rest = false then kept.reverse
    else cutCommentFrom (c :: kept) rest

/-- A line without its comment. -/
def cutComment (line : List Char) : List Char := cutCommentFrom [] line

/-- A text without comments, each of its lines ended by a line feed. -/
def stripComments (text : List Char) : List Char :=
  (Text.lines text).flatMap fun line => cutComment line ++ ['\n']

end WordMachine.Assembly
