import WordMachine.Code.Opcode
import WordMachine.Code.Operand

/-!
# Instructions and sources

An instruction is a pair of sixteen-bit numbers, whether or not the first is the number of an
opcode; a source is a list of instructions. An instruction with a known opcode has a static effect
on the stack, the words it takes and the words it gives.

The printed form of an instruction is the one that the assembler reads: the name of the opcode and
its operand as fields between `<` and `>`, or `#` and the two numbers when the opcode is unknown.
-/

namespace WordMachine

/-- One instruction, as stored. -/
structure Instruction where
  opcode : UInt16
  operand : UInt16
deriving DecidableEq, Repr

/-- A piece of code that can be run or called. -/
abbrev Source := List Instruction

/-- The words that an instruction takes from the stack and the words that it leaves there. -/
structure StackEffect where
  inputs : Nat
  outputs : Nat
deriving DecidableEq, Repr

namespace Opcode

/-- The stack effect of an opcode with an operand. -/
def effect (op : Opcode) (operand : UInt16) : StackEffect :=
  match op with
  | .readMemory | .context | .scalar _ => ⟨0, 1⟩
  | .call => let c := CallOperand.ofBits operand; ⟨c.inputs, c.outputs⟩
  | .loopN => let l := LoopOperand.ofBits operand; ⟨l.inputs, l.outputs⟩
  | .doWhile => let d := DoWhileOperand.ofBits operand; ⟨d.inputs + 1, d.inputs⟩
  | .debug => ⟨0, 0⟩
  | .balanceOf => ⟨2, 1⟩
  | .totalSupply => ⟨1, 1⟩
  | .apply f =>
    match f.arity with
    | .fixed n => ⟨n, 1⟩
    | .variadic => ⟨operand.toNat, 1⟩
  | .ensure => ⟨operand.toNat, 0⟩

/-- The operand fields of an opcode, as text; none for an opcode without an operand. -/
def operandFields (op : Opcode) (operand : UInt16) : List String :=
  match op.operandKind with
  | .none => []
  | .memory =>
    let m := MemoryOperand.ofBits operand
    [m.region.name, toString m.offset.val]
  | .call =>
    let c := CallOperand.ofBits operand
    [toString c.inputs.val, toString c.outputs.val, toString c.source.val]
  | .loopN =>
    let l := LoopOperand.ofBits operand
    [toString l.count.val, toString l.inputs.val, toString l.outputs.val, toString l.source.val]
  | .doWhile =>
    let d := DoWhileOperand.ofBits operand
    [toString d.inputs.val, toString d.source.val]
  | .context =>
    let c := ContextCell.ofBits operand
    [toString c.column.val, toString c.row.val]
  | .debugMode =>
    match DebugMode.ofBits? operand with
    | some m => [m.name]
    | none => [toString operand.toNat]
  | .inputs _ => [toString operand.toNat]

end Opcode

namespace Instruction

/-- The instruction of an opcode and an operand. -/
def make (op : Opcode) (operand : UInt16) : Instruction := ⟨UInt16.ofNat op.number, operand⟩

/-- The opcode, if the number is one. -/
def opcode? (i : Instruction) : Option Opcode := Opcode.ofNumber? i.opcode.toNat

/-- A name and its fields. -/
def spell (name : String) (fields : List String) : String :=
  match fields with
  | [] => name
  | fields => name ++ "<" ++ " ".intercalate fields ++ ">"

/-- The printed form. -/
def text (i : Instruction) : String :=
  match i.opcode? with
  | none => spell ("#" ++ toString i.opcode.toNat) [toString i.operand.toNat]
  | some op => spell op.name (op.operandFields i.operand)

end Instruction

/-- The printed form of a source, one instruction a line. -/
def Source.text (s : Source) : String := "\n".intercalate (s.map Instruction.text)

end WordMachine
