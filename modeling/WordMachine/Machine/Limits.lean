/-!
# Limits of one evaluation

Four numbers bound what an evaluation may use; each has its own fault.
-/

namespace WordMachine.Machine

/-- The deepest nesting of called sources; the entry has depth zero. -/
def maxDepth : Nat := 32

/-- How often bodies of `do-while` may run, all loops together. -/
def maxIterations : Nat := 1024

/-- The most words on the stack, all frames together. -/
def maxHeight : Nat := 1024

/-- How many instructions may run, all frames together. -/
def maxSteps : Nat := 65536

end WordMachine.Machine
