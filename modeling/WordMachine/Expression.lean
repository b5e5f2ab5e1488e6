import WordMachine.Code.Bytes
import WordMachine.Word.Basic

/-!
# Expressions

An expression is a pool of constants and a list of sources that may call each other. It is loaded
once: every instruction is resolved to its opcode and its operand is checked against the pool and
the list, so that running it has nothing left to look up that could be missing.

Loading reads the sources in order and each source from its first instruction on, and stops at the
first fault. When the sources come as bytes, all of them are decoded before any is checked.
-/

namespace WordMachine

/-- An instruction whose opcode is known. -/
structure Operation where
  opcode : Opcode
  operand : UInt16
deriving DecidableEq, Repr

namespace Operation

/-- The instruction of an operation. -/
def instruction (op : Operation) : Instruction := Instruction.make op.opcode op.operand

/-- The stack effect of an operation. -/
def effect (op : Operation) : StackEffect := op.opcode.effect op.operand

/-- The mode of a `debug`; every other operation has none. It is not kept beside the operand but
read from it whenever it is needed; loading makes sure that each `debug` has one. -/
def debugMode? (op : Operation) : Option DebugMode :=
  if op.opcode = .debug then DebugMode.ofBits? op.operand else none

end Operation

/-- A pool of constants and the resolved code of each source. -/
structure Expression where
  constants : List Word
  code : List (List Operation)
deriving DecidableEq

namespace Expression

/-- The sources of an expression. -/
def sources (e : Expression) : List Source := e.code.map fun ops => ops.map Operation.instruction

/-- The number of instructions of all sources. -/
def size (e : Expression) : Nat := (e.code.map List.length).foldl (· + ·) 0

end Expression

/-! ## Faults -/

/-- Why an operand does not suit its opcode. -/
inductive OperandFault where
  | unbalancedLoop
  | debugMode
  | ensureInputs
  | fewInputs
deriving DecidableEq, Repr

/-- The fault in words. -/
def OperandFault.message : OperandFault → String
  | .unbalancedLoop => "loop-n must produce as many outputs as it takes inputs"
  | .debugMode => "debug mode must be 0 (state) or 1 (stack)"
  | .ensureInputs => "ensure needs at least one input"
  | .fewInputs => "opcode needs at least two inputs"

/-- Why an instruction cannot be loaded, wherever it stands. -/
inductive InstructionFault where
  | unknownOpcode (opcode : UInt16)
  | constantOutOfRange (offset constants : Nat)
  | sourceOutOfRange (target sources : Nat)
  | invalidOperand (op : Opcode) (operand : UInt16) (fault : OperandFault)
deriving DecidableEq, Repr

/-- Why an expression cannot be loaded. -/
inductive LoadFault where
  /-- The bytes of a source are no whole number of instructions. -/
  | malformedSource (source length : Nat)
  /-- An instruction at a place is at fault. -/
  | instruction (source position : Nat) (fault : InstructionFault)
deriving DecidableEq, Repr

/-- The four base-16 digits of a sixteen-bit number, after `0x`. -/
def hexOperand (n : UInt16) : String :=
  let digits := Nat.toDigits 16 n.toNat
  "0x" ++ String.ofList (List.replicate (4 - digits.length) '0' ++ digits)

/-- The fault in words. -/
def InstructionFault.message : InstructionFault → String
  | .unknownOpcode n =>
    "unknown opcode " ++ toString n.toNat ++ " (table size " ++ toString Opcode.count ++ ")"
  | .constantOutOfRange offset n =>
    "constant " ++ toString offset ++ " out of range (pool has " ++ toString n ++ ")"
  | .sourceOutOfRange target n =>
    "source " ++ toString target ++ " out of range (expression has " ++ toString n ++ ")"
  | .invalidOperand op operand f =>
    "invalid operand " ++ hexOperand operand ++ " for " ++ op.name ++ ": " ++ f.message

/-- The fault in words. -/
def LoadFault.message : LoadFault → String
  | .malformedSource s length =>
    "source " ++ toString s ++ ": byte length " ++ toString length ++ " is not a multiple of "
      ++ toString Source.width
  | .instruction s p f =>
    "source " ++ toString s ++ " instruction " ++ toString p ++ ": " ++ f.message

/-! ## Loading -/

namespace Expression

/-- The fault of a call to a source that is not there. -/
def checkTarget (sources target : Nat) : Except InstructionFault Unit :=
  if target < sources then .ok () else .error (.sourceOutOfRange target sources)

/-- Checks the operand of an opcode against the numbers of constants and sources. -/
def checkOperand (constants sources : Nat) (op : Opcode) (operand : UInt16) :
    Except InstructionFault Unit :=
  match op.operandKind with
  | .none | .context => .ok ()
  | .memory =>
    let m := MemoryOperand.ofBits operand
    if m.region = .constant ∧ constants ≤ m.offset.val then
      .error (.constantOutOfRange m.offset.val constants)
    else .ok ()
  | .call => checkTarget sources (CallOperand.ofBits operand).source.val
  | .loopN =>
    let l := LoopOperand.ofBits operand
    if l.inputs = l.outputs then checkTarget sources l.source.val
    else .error (.invalidOperand op operand .unbalancedLoop)
  | .doWhile => checkTarget sources (DoWhileOperand.ofBits operand).source.val
  | .debugMode =>
    match DebugMode.ofBits? operand with
    | some _ => .ok ()
    | none => .error (.invalidOperand op operand .debugMode)
  | .inputs least =>
    if least ≤ operand.toNat then .ok ()
    else .error (.invalidOperand op operand (if op = .ensure then .ensureInputs else .fewInputs))

/-- Resolves an instruction, or names its fault. -/
def resolve (constants sources : Nat) (i : Instruction) : Except InstructionFault Operation :=
  match i.opcode? with
  | none => .error (.unknownOpcode i.opcode)
  | some op =>
    match checkOperand constants sources op i.operand with
    | .ok () => .ok ⟨op, i.operand⟩
    | .error f => .error f

/-- Resolves the rest of a source from a position on; `read` holds the operations before it,
newest first. -/
def resolveSource (constants sources source : Nat) (read : List Operation) :
    (position : Nat) → Source → Except LoadFault (List Operation)
  | _, [] => .ok read.reverse
  | p, i :: rest =>
    match resolve constants sources i with
    | .ok op => resolveSource constants sources source (op :: read) (p + 1) rest
    | .error f => .error (.instruction source p f)

/-- Resolves the sources from an index on; `read` holds the ones before it, newest first. -/
def resolveAll (constants sources : Nat) (read : List (List Operation)) :
    (index : Nat) → List Source → Except LoadFault (List (List Operation))
  | _, [] => .ok read.reverse
  | k, s :: rest =>
    match resolveSource constants sources k [] 0 s with
    | .ok ops => resolveAll constants sources (ops :: read) (k + 1) rest
    | .error f => .error f

/-- Loads decoded sources. -/
def load (constants : List Word) (sources : List Source) : Except LoadFault Expression :=
  match resolveAll constants.length sources.length [] 0 sources with
  | .ok code => .ok ⟨constants, code⟩
  | .error f => .error f

/-- Decodes one source out of several. -/
def decodeSource (index : Nat) (bytes : List UInt8) : Except LoadFault Source :=
  match Source.decode? bytes with
  | some s => .ok s
  | none => .error (.malformedSource index bytes.length)

/-- Decodes the sources from an index on; `read` holds the ones before it, newest first. -/
def decodeAll (read : List Source) : (index : Nat) → List (List UInt8) →
    Except LoadFault (List Source)
  | _, [] => .ok read.reverse
  | k, bytes :: rest =>
    match decodeSource k bytes with
    | .ok s => decodeAll (s :: read) (k + 1) rest
    | .error f => .error f

/-- Loads stored sources. -/
def loadBytes (constants : List Word) (sources : List (List UInt8)) :
    Except LoadFault Expression :=
  match decodeAll [] 0 sources with
  | .ok decoded => load constants decoded
  | .error f => .error f

end Expression

end WordMachine
