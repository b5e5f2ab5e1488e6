import WordMachine.Expression
import WordMachine.Machine.Fault
import WordMachine.Record

/-!
# Traces

What can be observed of a run beside its result are events, in order, whether it ended well or not.
The machine tells them one by one and does not care who listens. A trace keeps all of them; whatever
else listens makes of them what it likes.
-/

namespace WordMachine.Machine

/-- One invocation of a source. Its window is the part of the stack from `base` on. -/
structure Frame where
  source : Nat
  base : Nat
  depth : Nat
deriving DecidableEq, Repr

/-- Something that happened in a run. -/
inductive Event where
  /-- A frame was entered. -/
  | enter (frame : Frame)
  /-- An instruction passed its checks; the window held that many words before it. -/
  | step (frame : Frame) (position : Nat) (op : Operation) (window : Nat)
  /-- A debug record was let out. -/
  | record (record : Record)
  /-- The evaluation of an entry ended with some words. -/
  | finished (entry outputs : Nat)
  /-- The evaluation of an entry stopped early. -/
  | aborted (entry : Nat) (halt : Halt)
deriving DecidableEq

/-- **Who listens to a run**: what becomes of it with each event. -/
class Listener (τ : Type) where
  hear : τ → Event → τ

/-- A trace keeps every event. -/
instance : Listener (Array Event) := ⟨Array.push⟩

/-- The records of a trace, in order. -/
def records (trace : List Event) : List Record :=
  trace.filterMap fun
    | .record r => some r
    | _ => none

theorem records_append (trace trace' : List Event) :
    records (trace ++ trace') = records trace ++ records trace' :=
  List.filterMap_append

end WordMachine.Machine
