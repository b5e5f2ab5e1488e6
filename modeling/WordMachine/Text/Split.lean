/-!
# Splitting at a separator
-/

namespace WordMachine.Text

/-- Puts one character in front of the pieces of the text after it. -/
def splitStep (separator c : Char) (pieces : List (List Char)) : List (List Char) :=
  if c = separator then [] :: pieces
  else
    match pieces with
    | [] => [[c]]
    | piece :: rest => (c :: piece) :: rest

/-- The pieces of a text between separators; there is always one more piece than separators. -/
def split (separator : Char) (text : List Char) : List (List Char) :=
  text.foldr (splitStep separator) [[]]

end WordMachine.Text
