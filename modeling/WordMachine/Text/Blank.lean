/-!
# Blank characters

A character is blank if it has the Unicode property `White_Space`: five control characters, the
space, and nineteen characters outside ASCII. Texts are trimmed and cut into fields at blanks.
-/

namespace WordMachine.Text

/-- The blank characters, as ranges of code points, both ends included. -/
def blankRanges : List (Nat × Nat) :=
  [(0x09, 0x0D), (0x20, 0x20), (0x85, 0x85), (0xA0, 0xA0), (0x1680, 0x1680), (0x2000, 0x200A),
   (0x2028, 0x2029), (0x202F, 0x202F), (0x205F, 0x205F), (0x3000, 0x3000)]

/-- Whether a character is blank. -/
def isBlank (c : Char) : Bool :=
  blankRanges.any fun r => r.1 ≤ c.toNat && c.toNat ≤ r.2

/-- The text without the blanks at both ends. -/
def trim (text : List Char) : List Char :=
  ((text.dropWhile isBlank).reverse.dropWhile isBlank).reverse

/-- The pieces collected so far, newest first, and the piece at hand, last character first. -/
structure Fields where
  finished : List (List Char) := []
  current : List Char := []

namespace Fields

/-- Ends the piece at hand, if it has begun. -/
def close (f : Fields) : Fields :=
  if f.current.isEmpty then f else ⟨f.current.reverse :: f.finished, []⟩

/-- Reads one more character. -/
def read (f : Fields) (c : Char) : Fields :=
  if isBlank c then f.close else { f with current := c :: f.current }

end Fields

/-- The longest runs of characters that are not blank, in order. -/
def fields (text : List Char) : List (List Char) :=
  (text.foldl Fields.read {}).close.finished.reverse

end WordMachine.Text
