import WordMachine.Code.Instruction

/-!
# Stored code

A stored instruction is four bytes: the opcode's number and the operand, high byte first. A byte
string is the code of a source exactly when its length is a multiple of four.
-/

namespace WordMachine

/-- The high and the low byte. -/
def bytesOf (n : UInt16) : List UInt8 :=
  [UInt8.ofNat (n.toNat / 256), UInt8.ofNat n.toNat]

/-- The number with the given high and low byte. -/
def ofBytes (high low : UInt8) : UInt16 := UInt16.ofNat (256 * high.toNat + low.toNat)

/-- The four bytes of an instruction. -/
def Instruction.bytes (i : Instruction) : List UInt8 := bytesOf i.opcode ++ bytesOf i.operand

namespace Source

/-- The number of bytes of an instruction. -/
def width : Nat := 4

/-- The bytes of a source. -/
def encode (s : Source) : List UInt8 := s.flatMap Instruction.bytes

/-- Reads four bytes at a time; `read` holds the instructions so far, newest first. -/
def decodeFrom (read : Source) : List UInt8 → Option Source
  | [] => some read.reverse
  | a :: b :: c :: d :: rest => decodeFrom (⟨ofBytes a b, ofBytes c d⟩ :: read) rest
  | _ => none

/-- The source of some bytes; `none` if their number is no multiple of four. -/
def decode? (bytes : List UInt8) : Option Source := decodeFrom [] bytes

end Source

end WordMachine
