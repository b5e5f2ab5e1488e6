import WordMachine.Document.Node
import WordMachine.Text.Split

/-!
# Values without quotes in TOML

Truth values, whole numbers and fractions. Between two digits of a number one underscore may stand.
Decimal digits do not start with a zero unless it is the only one; digits after a base mark have no
sign. Whole numbers have at most 128 bits, and fractions are not too large for a binary fraction.
Dates and times are not read.
-/

namespace WordMachine.Toml

open Document (Node)

/-- The digits of a number without its underscores; `none` if an underscore is not between two
characters. -/
def ungrouped? (text : List Char) : Option (List Char) :=
  let groups := Text.split '_' text
  if groups.any List.isEmpty then none else some groups.flatten

/-- The number that digits to a base write. -/
def grouped? (base : Nat) (text : List Char) : Option Nat := do
  Document.digits? base (← ungrouped? text)

/-- The number that decimal digits write; they start with no needless zero. -/
def decimal? (text : List Char) : Option Nat :=
  if Document.hasLeadingZero text then none else grouped? 10 text

/-- Splits off the sign. -/
def signed (text : List Char) : Bool × List Char :=
  match text with
  | '-' :: rest => (true, rest)
  | '+' :: rest => (false, rest)
  | rest => (false, rest)

/-- The whole number that a text writes. -/
def integer? (text : List Char) : Option Int :=
  match text with
  | '0' :: 'x' :: digits => (grouped? 16 digits).map Int.ofNat
  | '0' :: 'o' :: digits => (grouped? 8 digits).map Int.ofNat
  | '0' :: 'b' :: digits => (grouped? 2 digits).map Int.ofNat
  | text =>
    let (negative, digits) := signed text
    (decimal? digits).map fun n => if negative then -Int.ofNat n else Int.ofNat n

/-- Whether a text is an exponent without its letter. -/
def isExponent (text : List Char) : Bool := (grouped? 10 (signed text).2).isSome

/-- Whether a character starts an exponent. -/
def isExponentMark (c : Char) : Bool := c = 'e' || c = 'E'

/-- Whether a text is a fraction after its point, with its exponent. -/
def isFraction (text : List Char) : Bool :=
  let digits := text.takeWhile (!isExponentMark ·)
  (grouped? 10 digits).isSome &&
    match text.dropWhile (!isExponentMark ·) with
    | [] => true
    | _ :: exponent => isExponent exponent

/-- Whether a text is a number with a point or an exponent. -/
def isFloat (text : List Char) : Bool :=
  let body := (signed text).2
  let whole := body.takeWhile fun c => c ≠ '.' && !isExponentMark c
  if body = "inf".toList || body = "nan".toList then true
  else
    (decimal? whole).isSome &&
      match body.drop whole.length with
      | '.' :: rest => isFraction rest
      | _ :: exponent => isExponent exponent
      | [] => false

/-- Whether a fraction is named or not too large. -/
def isFiniteOrNamed (text : List Char) : Bool :=
  match Scientific.ofText? ((signed text).2.filter (· ≠ '_')) with
  | some s => s.isFinite
  | none => true

/-- The value that a text without quotes writes. -/
def bareValue? (text : List Char) : Option Node :=
  match integer? text with
  | some n => if Node.isLong n then some (.integer n) else none
  | none =>
    if (isFloat text && isFiniteOrNamed text) || text = "true".toList || text = "false".toList then some .other else none

/-- Whether a character may stand in a value without quotes. -/
def isBareValue (c : Char) : Bool := c.isAlphanum || c = '_' || c = '+' || c = '-' || c = '.'

end WordMachine.Toml
