import WordMachine.Host.Basic
import WordMachine.Machine.Limits

/-!
# How an evaluation can end early

A fault is an answer that the machine gives on purpose. Getting stuck is none: it would mean that
the machine had to read a constant, a source or a word that is not there, which loading an
expression and the checks before each instruction rule out.
-/

namespace WordMachine.Machine

/-- Why an evaluation has no result. -/
inductive Fault where
  | unknownSource (index sources : Nat)
  | stackUnderflow (source position needed available : Nat)
  | stackMismatch (source expected actual : Nat)
  | stackOverflow (source position : Nat)
  | arithmetic (function : WordFunction) (fault : ArithmeticFault)
  | callDepthExceeded
  | iterationCapExceeded
  | stepBudgetExceeded
  | ensureFailed (source position input : Nat)
  | host (fault : HostFault)
deriving DecidableEq

/-- The fault in words. -/
def Fault.message : Fault → String
  | .unknownSource index n =>
    "entry source " ++ toString index ++ " out of range (expression has " ++ toString n ++ ")"
  | .stackUnderflow s p needed available =>
    "stack underflow in source " ++ toString s ++ " at instruction " ++ toString p ++ ": needed "
      ++ toString needed ++ ", window holds " ++ toString available
  | .stackMismatch s expected actual =>
    "source " ++ toString s ++ " left " ++ toString actual ++ " words, expected "
      ++ toString expected
  | .stackOverflow s p =>
    "stack overflow in source " ++ toString s ++ " at instruction " ++ toString p
      ++ ": more than " ++ toString maxHeight ++ " words"
  | .arithmetic f fault => "arithmetic " ++ fault.message ++ " in " ++ f.name
  | .callDepthExceeded => "call depth exceeded the limit of " ++ toString maxDepth
  | .iterationCapExceeded =>
    "do-while iterations exceeded the limit of " ++ toString maxIterations
  | .stepBudgetExceeded =>
    "evaluation exceeded the budget of " ++ toString maxSteps ++ " instructions"
  | .ensureFailed s p input =>
    "ensure failed in source " ++ toString s ++ " at instruction " ++ toString p ++ " (input "
      ++ toString input ++ ")"
  | .host f => f.message

/-- Why a run stopped before its end. -/
inductive Halt where
  | fault (fault : Fault)
  /-- Something that has to be there was not. -/
  | stuck
deriving DecidableEq

/-- The reason in words. -/
def Halt.message : Halt → String
  | .fault f => f.message
  | .stuck => "machine stuck"

end WordMachine.Machine
