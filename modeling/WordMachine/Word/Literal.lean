import WordMachine.Text.Blank
import WordMachine.Text.Hex
import WordMachine.Text.Numeral
import WordMachine.Word.Basic

/-!
# Word literals

A literal is decimal, or base 16 after `0x` or `0X`. Blanks around it and underscores anywhere are
ignored. A base-16 literal has one to sixty-four bytes after its mark; a second lower-case `0x`
right after the first mark is one more mark, and what follows it may be empty. A decimal literal is
read from the left up to its first fault.
-/

namespace WordMachine

/-- What is wrong with a word literal; `text` is the literal as given. -/
inductive LiteralFault where
  | empty
  | hexLength (text : String)
  | hexDigit (text : String)
  | decimalDigit (text : String)
  | tooLarge (text : String)
deriving DecidableEq, Repr

/-- The fault in words. -/
def LiteralFault.message : LiteralFault → String
  | .empty => "empty word literal"
  | .hexLength t => "hex word literal '" ++ t ++ "' must have 1..=64 digits"
  | .hexDigit t => "invalid hex word literal '" ++ t ++ "'"
  | .decimalDigit t => "invalid word literal '" ++ t ++ "': InvalidCharacter"
  | .tooLarge t => "invalid word literal '" ++ t ++ "': InvalidLength"

namespace Word

/-- The part of a literal that is read: trimmed, without underscores. -/
def literalBody (text : List Char) : List Char :=
  (Text.trim text).filter (· ≠ '_')

/-- The number of bytes of a text. -/
def byteLength (text : List Char) : Nat :=
  text.foldl (fun n c => n + c.utf8Size) 0

/-- Drops one lower-case base-16 mark. -/
def dropHexMark : List Char → List Char
  | '0' :: 'x' :: rest => rest
  | digits => digits

/-- Reads what follows the mark of a base-16 literal. -/
def parseHexDigits (text : String) (digits : List Char) : Except LiteralFault Word :=
  if digits.isEmpty || 64 < byteLength digits then .error (.hexLength text)
  else
    match Text.hexNumber? 0 (dropHexMark digits) with
    | none => .error (.hexDigit text)
    | some n =>
      match ofNat? n with
      | some w => .ok w
      | none => .error (.hexDigit text)

/-- Continues a decimal literal whose value so far is `value`. It is read from the left, and the
first character that spoils it decides the fault: one that is no digit, or a digit that takes the
value out of the words. -/
def readDecimal (text : String) : (value : Word) → List Char → Except LiteralFault Word
  | value, [] => .ok value
  | value, c :: rest =>
    match Text.digitValue? c with
    | none => .error (.decimalDigit text)
    | some d =>
      match ofNat? (value.toNat * 10 + d) with
      | none => .error (.tooLarge text)
      | some w => readDecimal text w rest

/-- The word that a literal writes. -/
def parse (text : String) : Except LiteralFault Word :=
  match literalBody text.toList with
  | [] => .error .empty
  | '0' :: 'x' :: digits => parseHexDigits text digits
  | '0' :: 'X' :: digits => parseHexDigits text digits
  | digits => readDecimal text zero digits

end Word

end WordMachine
