/-!
# Lines

A line ends at a line feed; a carriage return right before it belongs to the line's end. A text
that stops without a line feed has one more line, unless nothing is left, and a carriage return
at its very end stays.
-/

namespace WordMachine.Text

/-- What is known of the rest of a text when it is read from its end: its lines, and whether it
starts with a line feed. -/
structure LinesFrom where
  lines : List (List Char) := []
  atFeed : Bool := false

/-- Puts one character in front. -/
def LinesFrom.cons (c : Char) (rest : LinesFrom) : LinesFrom :=
  if c = '\n' then ⟨[] :: rest.lines, true⟩
  else if c = '\r' ∧ rest.atFeed then ⟨rest.lines, false⟩
  else
    match rest.lines with
    | [] => ⟨[[c]], false⟩
    | line :: more => ⟨(c :: line) :: more, false⟩

/-- The lines of a text, without their ends. -/
def lines (text : List Char) : List (List Char) :=
  (text.foldr LinesFrom.cons {}).lines

end WordMachine.Text
