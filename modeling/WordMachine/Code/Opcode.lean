import WordMachine.Word.Function

/-!
# Opcodes

The closed set of thirty-one operations. An opcode's number is its place in `Opcode.all`. Here are
its name, how it reads its operand, and the two groups that many of them fall into: reads of one
host value, and word functions.
-/

namespace WordMachine

/-- A host value that is read without an argument. -/
inductive HostScalar where
  | blockNumber
  | timestamp
  | caller
  | thisAddress
deriving DecidableEq, Repr

/-- The name of a host value. -/
def HostScalar.name : HostScalar → String
  | .blockNumber => "block-number"
  | .timestamp => "timestamp"
  | .caller => "caller"
  | .thisAddress => "this-address"

/-- The name of a word function. -/
def WordFunction.name : WordFunction → String
  | .add => "add"
  | .sub => "sub"
  | .mul => "mul"
  | .div => "div"
  | .mod => "mod"
  | .exp => "exp"
  | .min => "min"
  | .max => "max"
  | .saturatingAdd => "saturating-add"
  | .saturatingSub => "saturating-sub"
  | .saturatingMul => "saturating-mul"
  | .isZero => "is-zero"
  | .equalTo => "equal-to"
  | .lessThan => "less-than"
  | .greaterThan => "greater-than"
  | .every => "every"
  | .any => "any"
  | .eagerIf => "eager-if"

/-- An operation of the machine. -/
inductive Opcode where
  | readMemory
  | call
  | loopN
  | doWhile
  | debug
  | context
  /-- Pushes a host value. -/
  | scalar (value : HostScalar)
  | balanceOf
  | totalSupply
  /-- Replaces the topmost words by a function of them. -/
  | apply (function : WordFunction)
  | ensure
deriving DecidableEq, Repr

/-- How an opcode reads its operand. -/
inductive OperandKind where
  | none
  | memory
  | call
  | loopN
  | doWhile
  | context
  | debugMode
  /-- The operand is the number of inputs, at least `least`. -/
  | inputs (least : Nat)
deriving DecidableEq, Repr

namespace Opcode

/-- All opcodes, in the order of their numbers. -/
def all : List Opcode :=
  [.readMemory, .call, .loopN, .doWhile, .debug, .context,
   .scalar .blockNumber, .scalar .timestamp, .scalar .caller, .scalar .thisAddress,
   .balanceOf, .totalSupply,
   .apply .add, .apply .sub, .apply .mul, .apply .div, .apply .mod, .apply .exp,
   .apply .min, .apply .max,
   .apply .saturatingAdd, .apply .saturatingSub, .apply .saturatingMul,
   .apply .isZero, .apply .equalTo, .apply .lessThan, .apply .greaterThan,
   .apply .every, .apply .any, .apply .eagerIf, .ensure]

/-- The number of opcodes. -/
def count : Nat := 31

/-- The opcode with a number. -/
def ofNumber? (n : Nat) : Option Opcode := all[n]?

/-- The number of an opcode. -/
def number (op : Opcode) : Nat := all.idxOf op

/-- The name of an opcode. -/
def name : Opcode → String
  | .readMemory => "read-memory"
  | .call => "call"
  | .loopN => "loop-n"
  | .doWhile => "do-while"
  | .debug => "debug"
  | .context => "context"
  | .scalar s => s.name
  | .balanceOf => "erc20-balance-of"
  | .totalSupply => "erc20-total-supply"
  | .apply f => f.name
  | .ensure => "ensure"

/-- The opcode with a name. -/
def ofName? (name : String) : Option Opcode := all.find? (·.name == name)

/-- How an opcode reads its operand. -/
def operandKind : Opcode → OperandKind
  | .readMemory => .memory
  | .call => .call
  | .loopN => .loopN
  | .doWhile => .doWhile
  | .debug => .debugMode
  | .context => .context
  | .scalar _ | .balanceOf | .totalSupply => .none
  | .apply f =>
    match f.arity with
    | .variadic => .inputs 2
    | .fixed _ => .none
  | .ensure => .inputs 1

theorem mem_all (op : Opcode) : op ∈ all := by
  cases op with
  | scalar s => cases s <;> decide
  | apply f => cases f <;> decide
  | _ => decide

/-- Every opcode is found under its number. -/
theorem ofNumber?_number (op : Opcode) : ofNumber? op.number = some op := by
  unfold ofNumber? number
  have h := List.idxOf_lt_length_of_mem (mem_all op)
  rw [List.getElem?_eq_getElem h, List.getElem_idxOf h]

/-- Every opcode is found under its name. -/
theorem ofName?_name (op : Opcode) : ofName? op.name = some op := by
  cases op with
  | scalar s => cases s <;> decide
  | apply f => cases f <;> decide
  | _ => decide

end Opcode

end WordMachine
