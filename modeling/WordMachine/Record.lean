import WordMachine.Word.Basic

/-!
# Debug records

What the `debug` instruction lets out of the machine: the window of the running frame, or the
running source with the pool of constants and the whole stack. Words stand deepest first.
-/

namespace WordMachine

/-- A debug record. -/
inductive Record where
  | stack (stack : List Word)
  | state (source : Nat) (constants stack : List Word)
deriving DecidableEq

/-- The words of the stack in a record. -/
def Record.words : Record → List Word
  | .stack words => words
  | .state _ _ words => words

/-- The word on top of the recorded stack; zero if it is empty. -/
def Record.top (r : Record) : Word := r.words.getLast?.getD Word.zero

end WordMachine
