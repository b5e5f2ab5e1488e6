import WordMachine.Word.Basic

/-!
# The working stack

One stack serves all frames of an evaluation. Its view is `words`, the deepest word first; each
operation below has one lemma that says what it does to the view.
-/

namespace WordMachine.Machine

/-- The words on the stack. -/
structure Stack where
  cells : Array Word := #[]

namespace Stack

/-- The words, the deepest first. -/
def words (s : Stack) : List Word := s.cells.toList

/-- The number of words. -/
def height (s : Stack) : Nat := s.cells.size

/-- The stack that holds the given words, the deepest first. -/
def ofWords (words : List Word) : Stack := ⟨words.toArray⟩

/-- Puts a word on top. -/
def push (s : Stack) (w : Word) : Stack := ⟨s.cells.push w⟩

/-- The `n` topmost words, the deepest first. -/
def top (s : Stack) (n : Nat) : List Word :=
  (s.cells.extract (s.height - n) s.height).toList

/-- The stack without its `n` topmost words. -/
def drop (s : Stack) (n : Nat) : Stack := ⟨s.cells.shrink (s.height - n)⟩

/-- The word at a height counted from the bottom. -/
def get? (s : Stack) (i : Nat) : Option Word := s.cells[i]?

/-- The words from a height on, the deepest first. -/
def window (s : Stack) (base : Nat) : List Word :=
  (s.cells.extract base s.height).toList

theorem height_eq (s : Stack) : s.height = s.words.length := by
  simp [height, words]

@[simp] theorem words_ofWords (l : List Word) : (ofWords l).words = l := by
  simp [ofWords, words]

@[simp] theorem words_push (s : Stack) (w : Word) : (s.push w).words = s.words ++ [w] := by
  simp [push, words]

theorem top_eq (s : Stack) (n : Nat) : s.top n = s.words.drop (s.height - n) := by
  simp [top, words, height, List.take_of_length_le]

@[simp] theorem words_drop (s : Stack) (n : Nat) :
    (s.drop n).words = s.words.take (s.height - n) := by
  simp [drop, words]

theorem get?_eq (s : Stack) (i : Nat) : s.get? i = s.words[i]? := by
  simp [get?, words]

theorem window_eq (s : Stack) (base : Nat) : s.window base = s.words.drop base := by
  simp [window, words, height, List.take_of_length_le]

end Stack

end WordMachine.Machine
