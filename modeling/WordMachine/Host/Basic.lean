import WordMachine.Code.Instruction

/-!
# Hosts

What lies outside the machine is reached through a host: four scalar values, a grid of context
cells, and the balances and supplies of tokens. A host is only read, and every read may fail.
-/

namespace WordMachine

/-- Why a host gives no word. -/
inductive HostFault where
  /-- The host does not offer what the opcode reads. -/
  | unsupported (op : Opcode)
  | missingContext (cell : ContextCell)
  | unknownToken (token : Word)
  | failed (reason : String)
deriving DecidableEq

/-- The fault in words. -/
def HostFault.message : HostFault → String
  | .unsupported op => "host does not provide " ++ op.name
  | .missingContext c =>
    "no context value at column " ++ toString c.column.val ++ " row " ++ toString c.row.val
  | .unknownToken t => "unknown token " ++ t.hex
  | .failed reason => "host call failed: " ++ reason

/-- The reads that the machine can ask for. -/
structure Host where
  scalar : HostScalar → Except HostFault Word
  context : ContextCell → Except HostFault Word
  /-- The balance of an account in a token. -/
  balanceOf : (token account : Word) → Except HostFault Word
  totalSupply : (token : Word) → Except HostFault Word

/-- The host that offers nothing. -/
def Host.null : Host where
  scalar s := .error (.unsupported (.scalar s))
  context c := .error (.missingContext c)
  balanceOf _ _ := .error (.unsupported .balanceOf)
  totalSupply _ := .error (.unsupported .totalSupply)

end WordMachine
