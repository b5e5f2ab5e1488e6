import WordMachine.Document.Written
import WordMachine.Machine.Trace

/-!
# Log events

What the trace of an evaluation looks like in a log. Where debug records go is the business of a
sink; the machine that keeps a trace does not know about it. Seen from a trace, a sink can only change
how records show up in the log.
-/

namespace WordMachine.Log

/-- How much an event matters, the most important first. -/
inductive Level where
  | error
  | warn
  | info
  | debug
  | trace
deriving DecidableEq, Repr

namespace Level

/-- The name of a level. -/
def name : Level → String
  | .error => "ERROR"
  | .warn => "WARN"
  | .info => "INFO"
  | .debug => "DEBUG"
  | .trace => "TRACE"

/-- How much has to be shown before events of a level are. -/
def verbosity : Level → Nat
  | .error => 1
  | .warn => 2
  | .info => 3
  | .debug => 4
  | .trace => 5

end Level

/-- The value of a field. -/
inductive FieldValue where
  | plain (text : String)
  /-- A value that lines show in quotes. -/
  | quoted (text : String)
deriving DecidableEq

/-- The text of a value, without quotes. -/
def FieldValue.text : FieldValue → String
  | .plain t => t
  | .quoted t => t

/-- A value as lines show it. -/
def FieldValue.shown : FieldValue → String
  | .plain t => t
  | .quoted t => "\"" ++ t ++ "\""

/-- An event of the log. -/
structure Event where
  level : Level
  target : String
  message : String
  fields : List (String × FieldValue)
deriving DecidableEq

/-- An event as a line. -/
def Event.line (e : Event) : String :=
  e.level.name ++ " " ++ e.target ++ ": " ++ e.message
    ++ String.join (e.fields.map fun f => " " ++ f.1 ++ "=" ++ f.2.shown)

/-! ## Targets -/

/-- Where events of loading belong. -/
def loadTarget : String := "wordvm::vm::load"

/-- Where events of evaluating belong. -/
def evalTarget : String := "wordvm::vm::eval"

/-- Where events of debug records belong. -/
def debugTarget : String := "wordvm::vm::debug"

/-! ## From traces to events -/

/-- A number as a value. -/
def ofNat (n : Nat) : FieldValue := .plain (toString n)

/-- A list of words as a value. -/
def ofWords (words : List Word) : FieldValue :=
  .plain ("[" ++ ", ".intercalate (words.map Word.decimal) ++ "]")

/-- An expression has been loaded. -/
def loaded (e : Expression) : Event :=
  ⟨.debug, loadTarget, "expression loaded",
    [("sources", ofNat e.code.length), ("constants", ofNat e.constants.length),
     ("instructions", ofNat e.size)]⟩

/-- An instruction has passed its checks. -/
def stepped (frame : Machine.Frame) (position : Nat) (op : Operation) (window : Nat) : Event :=
  ⟨.trace, evalTarget, "step",
    [("source", ofNat frame.source), ("position", ofNat position), ("depth", ofNat frame.depth),
     ("op", .quoted op.opcode.name), ("operand", ofNat op.operand.toNat),
     ("window", ofNat window)]⟩

/-- An evaluation has ended with some words. -/
def finished (entry outputs : Nat) : Event :=
  ⟨.debug, evalTarget, "evaluation finished",
    [("source_index", ofNat entry), ("outputs", ofNat outputs)]⟩

/-- An evaluation has stopped early. -/
def aborted (entry : Nat) (halt : Machine.Halt) : Event :=
  ⟨.debug, evalTarget, "evaluation aborted",
    [("source_index", ofNat entry), ("error", .plain halt.message)]⟩

/-- A debug record that no sink has taken. -/
def recorded : Record → Event
  | .stack words => ⟨.info, debugTarget, "debug stack", [("stack", ofWords words)]⟩
  | .state source constants words =>
    ⟨.info, debugTarget, "debug state",
      [("source_index", ofNat source), ("constants", ofWords constants),
       ("stack", ofWords words)]⟩

/-- A debug record that a sink could not take. -/
def dropped (reason : String) : Event :=
  ⟨.warn, debugTarget, "debug sink failed; record dropped", [("error", .plain reason)]⟩

/-- What becomes of debug records. -/
inductive Sink where
  /-- They are logged. -/
  | log
  /-- They are taken. -/
  | taken
deriving DecidableEq

/-- The log events of something that happened. -/
def eventsOf (sink : Sink) : Machine.Event → List Event
  | .enter _ => []
  | .step frame position op window => [stepped frame position op window]
  | .record r =>
    match sink with
    | .log => [recorded r]
    | .taken => []
  | .finished entry outputs => [finished entry outputs]
  | .aborted entry halt => [aborted entry halt]

/-- The log of a trace. -/
def ofTrace (sink : Sink) (trace : List Machine.Event) : List Event :=
  trace.flatMap (eventsOf sink)

/-- The lines of the records of a trace. -/
def recordLines (trace : List Machine.Event) : String :=
  String.join ((Machine.records trace).map Record.line)

end WordMachine.Log
