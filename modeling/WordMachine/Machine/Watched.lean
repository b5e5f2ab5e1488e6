import WordMachine.Log.Event
import WordMachine.Machine.Run

/-!
# Running before a sink

An evaluation can be given a sink. Every debug record is handed to it at once, in the middle of the
run; what the sink does with it, and whether it fails, is its own affair. A failure is logged and
the record is gone. Without a sink, records go to the log. The log also shows every instruction and
how the evaluation ended.

No trace is kept: sink and log are the listener of the run.
-/

namespace WordMachine.Machine.Watched

/-! ## 1. Sinks -/

/-- What an evaluation tells about itself: to the sink, which has a state of its own, and to the
log. -/
structure Told (σ : Type) where
  sink : σ
  log : Array Log.Event := #[]

/-- Adds an event to the log. -/
def Told.post {σ : Type} (told : Told σ) (event : Log.Event) : Told σ :=
  { told with log := told.log.push event }

/-- A sink: what it does with a record. It may fail, and what it did before stays. -/
abbrev Sink (σ : Type) := Record → EStateM String (Told σ) Unit

namespace Sink

/-- Keeps every record. -/
def recording : Sink (Array Record) := fun r =>
  modify fun told => { told with sink := told.sink.push r }

/-- Writes every record as a line: the JSON text, then the line feed. -/
def lines : Sink String := fun r => do
  modify fun told => { told with sink := told.sink ++ r.json.line }
  modify fun told => { told with sink := told.sink ++ "\n" }

/-- Logs every record. -/
def logging {σ : Type} : Sink σ := fun r => modify (·.post (Log.recorded r))

/-- Takes no record, for a reason. -/
def refusing {σ : Type} (reason : String) : Sink σ := fun _ => throw reason

/-- Hands a record over; a failure is logged. -/
def deliver {σ : Type} (sink : Sink σ) (r : Record) (told : Told σ) : Told σ :=
  match sink r told with
  | .ok () told' => told'
  | .error reason told' => told'.post (Log.dropped reason)

end Sink

/-! ## 2. Listening -/

variable {σ : Type}

/-- What a sink and the log are told of an event. -/
def observe (sink : Sink σ) (told : Told σ) : Machine.Event → Told σ
  | .enter _ => told
  | .step frame position op window => told.post (Log.stepped frame position op window)
  | .record r => sink.deliver r told
  | .finished entry outputs => told.post (Log.finished entry outputs)
  | .aborted entry halt => told.post (Log.aborted entry halt)

/-- The listener that hands records to the sink and writes the log. -/
structure Before (sink : Sink σ) where
  told : Told σ

instance (sink : Sink σ) : Listener (Before sink) :=
  ⟨fun before event => ⟨observe sink before.told event⟩⟩

/-! ## 3. Evaluation -/

/-- What an evaluation gives and has told. -/
abbrev Outcome (σ : Type) := Ending (Told σ)

/-- Evaluates a source before a sink, which may be left out; `own` is the sink's state before. -/
def eval (sink : Option (Sink σ)) (own : σ) (e : Expression) (host : Host) (entry : Nat)
    (inputs : List Word) : Outcome σ :=
  let before : Before (sink.getD .logging) := ⟨{ sink := own }⟩
  let ending := evaluate before e host entry inputs
  ⟨ending.result, ending.told.told⟩

end WordMachine.Machine.Watched
