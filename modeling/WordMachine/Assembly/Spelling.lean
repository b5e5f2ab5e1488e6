import WordMachine.Assembly.Token
import WordMachine.Code.Instruction
import WordMachine.Text.Numeral

/-!
# Spellings

What one token means as an instruction. A name is the name of an opcode, or `#` and a number; the
fields are those of the opcode's operand. Every field is checked against its own range, so an
operand never loses a bit of what was written.
-/

namespace WordMachine.Assembly

/-- Why a token is no instruction. -/
inductive SpellingFault where
  | unclosed
  | rawOpcode (text : String) (fault : Text.NumeralFault)
  | rawFields
  | unknownOpcode (name : String)
  | fieldCount (op : Opcode) (expected actual : Nat)
  | field (what text : String) (fault : Text.NumeralFault)
  | offset (offset : Nat)
  | region (name : String)
  | callCounts
  | loopFields
  | debugMode (name : String)
  | tooFewInputs (op : Opcode) (least : Nat)
  | tooManyFields (op : Opcode)
deriving DecidableEq, Repr

/-- The fault in words, the outermost text first. -/
def SpellingFault.chain : SpellingFault → List String
  | .unclosed => ["missing closing '>'"]
  | .rawOpcode t f => ["invalid raw opcode '" ++ t ++ "'", f.message]
  | .rawFields => ["raw opcode takes a single operand"]
  | .unknownOpcode n => ["unknown opcode '" ++ n ++ "'"]
  | .fieldCount op expected actual =>
    [op.name ++ " takes " ++ toString expected ++ " operand field(s), got " ++ toString actual]
  | .field what t f => ["invalid " ++ what ++ " field '" ++ t ++ "'", f.message]
  | .offset o => ["offset " ++ toString o ++ " exceeds " ++ toString MemoryOperand.maxOffset]
  | .region n => ["unknown memory region '" ++ n ++ "' (expected stack or constant)"]
  | .callCounts => ["call inputs and outputs must be at most 15"]
  | .loopFields => ["loop-n fields must be at most 15"]
  | .debugMode n => ["unknown debug mode '" ++ n ++ "' (expected state or stack)"]
  | .tooFewInputs op least => [op.name ++ " needs at least " ++ toString least ++ " input(s)"]
  | .tooManyFields op => [op.name ++ " takes at most one operand field"]

/-- A field that holds a number below `limit`. -/
def numberField (limit : Nat) (what : String) (text : List Char) : Except SpellingFault Nat :=
  match Text.numeral limit text with
  | .ok n => .ok n
  | .error f => .error (.field what (String.ofList text) f)

/-- A field that holds a byte. -/
def byteField (what : String) (text : List Char) : Except SpellingFault (Fin 256) :=
  match numberField 256 what text with
  | .ok n => .ok (lowByte n)
  | .error f => .error f

/-- The region with a name. -/
def regionNamed? (name : List Char) : Option Region :=
  if name = "stack".toList then some .stack
  else if name = "constant".toList then some .constant
  else none

/-- The debug mode that a field names, by its name or its number. -/
def debugModeNamed? (name : List Char) : Option DebugMode :=
  if name = "state".toList ∨ name = ['0'] then some .state
  else if name = "stack".toList ∨ name = ['1'] then some .stack
  else none

/-- The operand that the fields of an opcode write. -/
def operandOf (op : Opcode) (fields : List (List Char)) : Except SpellingFault UInt16 :=
  match op.operandKind, fields with
  | .none, [] => .ok 0
  | .none, fields => .error (.fieldCount op 0 fields.length)
  | .memory, [region, offset] => do
    let o ← numberField 65536 "offset" offset
    if o ≤ MemoryOperand.maxOffset then
      match regionNamed? region with
      | some r => .ok (MemoryOperand.ofOffset r o).toBits
      | none => .error (.region (String.ofList region))
    else .error (.offset o)
  | .memory, fields => .error (.fieldCount op 2 fields.length)
  | .call, [inputs, outputs, source] => do
    let i ← byteField "inputs" inputs
    let o ← byteField "outputs" outputs
    let s ← byteField "source" source
    match CallOperand.make? i o s with
    | some c => .ok c.toBits
    | none => .error .callCounts
  | .call, fields => .error (.fieldCount op 3 fields.length)
  | .loopN, [count, inputs, outputs, source] => do
    let n ← byteField "n" count
    let i ← byteField "inputs" inputs
    let o ← byteField "outputs" outputs
    let s ← byteField "source" source
    match LoopOperand.make? n i o s with
    | some l => .ok l.toBits
    | none => .error .loopFields
  | .loopN, fields => .error (.fieldCount op 4 fields.length)
  | .doWhile, [inputs, source] => do
    let i ← byteField "inputs" inputs
    let s ← byteField "source" source
    .ok (DoWhileOperand.toBits ⟨i, s⟩)
  | .doWhile, fields => .error (.fieldCount op 2 fields.length)
  | .context, [column, row] => do
    let c ← byteField "column" column
    let r ← byteField "row" row
    .ok (ContextCell.toBits ⟨c, r⟩)
  | .context, fields => .error (.fieldCount op 2 fields.length)
  | .debugMode, [mode] =>
    match debugModeNamed? mode with
    | some m => .ok m.toBits
    | none => .error (.debugMode (String.ofList mode))
  | .debugMode, fields => .error (.fieldCount op 1 fields.length)
  | .inputs least, [] => .ok (UInt16.ofNat least)
  | .inputs least, [count] => do
    let n ← numberField 65536 "inputs" count
    if least ≤ n then .ok (UInt16.ofNat n) else .error (.tooFewInputs op least)
  | .inputs _, _ => .error (.tooManyFields op)

/-- The operand of an instruction whose opcode is given by its number. -/
def rawOperandOf : List (List Char) → Except SpellingFault UInt16
  | [] => .ok 0
  | [operand] => do
    let n ← numberField 65536 "operand" operand
    .ok (UInt16.ofNat n)
  | _ => .error .rawFields

/-- The instruction with a name and fields. -/
def instructionOf (name : List Char) (fields : List (List Char)) :
    Except SpellingFault Instruction :=
  match name with
  | '#' :: number =>
    match Text.numeral 65536 number with
    | .error f => .error (.rawOpcode (String.ofList number) f)
    | .ok n => do
      let operand ← rawOperandOf fields
      .ok ⟨UInt16.ofNat n, operand⟩
  | name =>
    match Opcode.ofName? (String.ofList name) with
    | none => .error (.unknownOpcode (String.ofList name))
    | some op => do
      let operand ← operandOf op fields
      .ok (Instruction.make op operand)

/-- The text without its last character, if that is `>`. -/
def dropClose (text : List Char) : Option (List Char) :=
  match text.reverse with
  | '>' :: rest => some rest.reverse
  | _ => none

/-- The instruction that a token spells. -/
def spelled (token : List Char) : Except SpellingFault Instruction :=
  match token.dropWhile (· ≠ '<') with
  | [] => instructionOf token []
  | _ :: inner =>
    match dropClose inner with
    | none => .error .unclosed
    | some inner => instructionOf (token.takeWhile (· ≠ '<')) (Text.fields inner)

end WordMachine.Assembly
