import WordMachine.Word.Arithmetic

/-!
# Word functions

The functions that an instruction can apply to the topmost words: each takes a list of inputs,
deepest first, and gives one word, or an arithmetic fault, or nothing at all when the number of
inputs does not suit it.
-/

namespace WordMachine

/-- A function from a list of words to one word. -/
inductive WordFunction where
  | add | sub | mul | div | mod | exp
  | min | max
  | saturatingAdd | saturatingSub | saturatingMul
  | isZero | equalTo | lessThan | greaterThan
  | every | any | eagerIf
deriving DecidableEq, Repr

namespace WordFunction

/-- How many inputs a function takes. -/
inductive Arity where
  /-- Exactly `n` inputs. -/
  | fixed (n : Nat)
  /-- Any number of inputs, but at least two. -/
  | variadic
deriving DecidableEq, Repr

/-- The number of inputs of each function. -/
def arity : WordFunction → Arity
  | .add | .sub | .mul | .div | .mod | .exp | .min | .max
  | .saturatingAdd | .saturatingSub | .saturatingMul | .every | .any => .variadic
  | .isZero => .fixed 1
  | .equalTo | .lessThan | .greaterThan => .fixed 2
  | .eagerIf => .fixed 3

/-- The value of a function at its inputs; `none` if it does not take that many. -/
def apply : WordFunction → List Word → Option (Except ArithmeticFault Word)
  | .add, x :: xs => some (Word.sum x xs)
  | .sub, x :: xs => some (Word.difference x xs)
  | .mul, x :: xs => some (Word.product x xs)
  | .div, x :: xs => some (Word.quotient x xs)
  | .mod, x :: xs => some (Word.remainder x xs)
  | .exp, x :: xs => some (Word.power x xs)
  | .min, x :: xs => some (.ok (Word.least x xs))
  | .max, x :: xs => some (.ok (Word.greatest x xs))
  | .saturatingAdd, x :: xs => some (.ok (Word.saturatingSum x xs))
  | .saturatingSub, x :: xs => some (.ok (Word.saturatingDifference x xs))
  | .saturatingMul, x :: xs => some (.ok (Word.saturatingProduct x xs))
  | .isZero, [x] => some (.ok (Word.ofBool (!x.truthy)))
  | .equalTo, [x, y] => some (.ok (Word.ofBool (x = y)))
  | .lessThan, [x, y] => some (.ok (Word.ofBool (x < y)))
  | .greaterThan, [x, y] => some (.ok (Word.ofBool (y < x)))
  | .every, x :: xs => some (.ok (Word.every x xs))
  | .any, x :: xs => some (.ok (Word.any x xs))
  | .eagerIf, [condition, yes, no] => some (.ok (if condition.truthy then yes else no))
  | _, _ => none

end WordFunction

end WordMachine
