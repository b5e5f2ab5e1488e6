import WordMachine.Command.Arguments
import WordMachine.Command.Failure
import WordMachine.Document.Written
import WordMachine.Log.Filter
import WordMachine.Machine.Run

/-!
# Running commands

A command reads its files from a disk, and what it has to say is a report: the text it puts out,
the notices that come with it, and its failure if it fails. An expression is loaded completely
before any other file is touched.
-/

namespace WordMachine.Command

/-- Something a command says besides its output. -/
inductive Notice where
  | event (event : Log.Event)
  | record (record : Record)
  | wrote (count : Nat) (path : String)
deriving DecidableEq

/-- A notice as a line. -/
def Notice.line : Notice → String
  | .event e => e.line
  | .record r => r.json.line
  | .wrote count path => "Wrote " ++ toString count ++ " source(s) to " ++ path

/-- What a command has to say. -/
structure Report where
  output : String := ""
  notices : List Notice := []
  failure : Option Failure := none

/-! ## 1. Logging -/

/-- What is said from outside about logging. -/
structure Environment where
  /-- A switch for tracing, which may hold a filter. -/
  trace : Option String := none
  /-- A filter. -/
  filter : Option String := none

namespace Environment

/-- The filter of a log that is turned on from outside. -/
def filter? (env : Environment) : Option Log.Filter := do
  let raw ← env.trace
  if Log.switchedOn raw then
    some (Log.filterOr Log.traceFilter ((Log.switchFilter? raw).or env.filter))
  else none

/-- The filter of the log while a source is evaluated: debug records that go to the log turn it on,
too. -/
def evalFilter? (env : Environment) (debug : Option DebugOutput) : Option Log.Filter :=
  env.filter?.or
    (if debug = some .log then some (Log.filterOr Log.debugFilter env.filter) else none)

end Environment

/-- The notices of log events that a filter shows; without a filter there is no log. -/
def logged (filter : Option Log.Filter) (events : List Log.Event) : List Notice :=
  match filter with
  | none => []
  | some filter => (events.filter filter.shows).map .event

/-- The notices of what happens in an evaluation. Records go to the log unless they are written out
on their own. -/
def traced (filter : Option Log.Filter) (debug : Option DebugOutput) (trace : List Machine.Event) :
    List Notice :=
  if debug = some .json then
    trace.flatMap fun
      | .record r => [.record r]
      | event => logged filter (Log.eventsOf .taken event)
  else trace.flatMap fun event => logged filter (Log.eventsOf .log event)

/-! ## 2. Outputs -/

/-- The output of checking. -/
def summary (e : Expression) : String :=
  "ok: " ++ toString e.code.length ++ " source(s), " ++ toString e.constants.length ++
    " constant(s), " ++ toString e.size ++ " instruction(s)\n"

/-- The listing of the sources from an index on. -/
def listingFrom : (index : Nat) → List Source → String
  | _, [] => ""
  | k, s :: rest =>
    (if k = 0 then "" else ";\n") ++ "# source " ++ toString k ++ "\n" ++
      (if s.isEmpty then "" else s.text ++ "\n") ++ listingFrom (k + 1) rest

/-- The sources of an expression as assembly text. -/
def listing (e : Expression) : String := listingFrom 0 e.sources

/-- One word a line. -/
def wordLines (words : List Word) : String := String.join (words.map fun w => w.decimal ++ "\n")

/-! ## 3. Commands -/

variable {m : Type → Type} [Monad m]

/-- Reads a document of a kind from a file. -/
def readDocument {α : Type} (disk : Disk m) (kind : Document.Kind α) (path : String) :
    m (Except Failure α) := do
  match Document.Format.ofPath path with
  | .error f => return .error (.format f)
  | .ok format =>
    match ← disk.read path with
    | .error f => return .error (.unreadable path f)
    | .ok text =>
      match Document.read kind format text with
      | .error f => return .error (.refused path f)
      | .ok a => return .ok a

/-- Loads the expression in a file. -/
def readExpression (disk : Disk m) (path : String) : m (Except Failure Expression) := do
  match ← readDocument disk Document.config path with
  | .error f => return .error f
  | .ok config =>
    match config.build with
    | .error f => return .error (.unloadable path f)
    | .ok e => return .ok e

/-- Goes on with the expression in a file. -/
def withExpression (disk : Disk m) (env : Environment) (path : String)
    (next : Expression → m Report) : m Report := do
  match ← readExpression disk path with
  | .error f => return { failure := some f }
  | .ok e =>
    let report ← next e
    return { report with notices := logged env.filter? [Log.loaded e] ++ report.notices }

/-- Writes a configuration to a file. -/
def store (disk : Disk m) (e : Expression) (path : String) : m Report := do
  match ← disk.makeParent path with
  | .error f => return { failure := some (.parentless path f) }
  | .ok () =>
    match ← disk.write path (Config.ofExpression e).fileText with
    | .error f => return { failure := some (.unwritable path f) }
    | .ok () => return { notices := [.wrote e.code.length path] }

/-- Evaluates a source with a host. -/
def evaluate (env : Environment) (options : EvalOptions) (e : Expression) (host : Host) : Report :=
  let outcome := Machine.eval e host options.entry options.inputs
  let notices := traced (env.evalFilter? options.debug) options.debug outcome.trace
  match outcome.result with
  | .ok words => { output := wordLines words, notices }
  | .error halt => { notices, failure := some (.halted options.entry halt) }

/-- Runs a command. -/
def run (disk : Disk m) (env : Environment) : Command → m Report
  | .check file => withExpression disk env file fun e => return { output := summary e }
  | .disasm file => withExpression disk env file fun e => return { output := listing e }
  | .asm file none =>
    withExpression disk env file fun e => return { output := (Config.ofExpression e).fileText }
  | .asm file (some path) => withExpression disk env file fun e => store disk e path
  | .eval file options =>
    withExpression disk env file fun e => do
      match options.host with
      | none => return evaluate env options e Host.null
      | some path =>
        match ← readDocument disk Document.host path with
        | .error f => return { failure := some f }
        | .ok fixed => return evaluate env options e fixed.host

/-- The code that a command ends with. -/
def Report.code (r : Report) : Nat := if r.failure.isSome then 1 else 0

/-- The code for arguments that stand for no command. -/
def usageCode : Nat := 2

/-- The lines besides the output: the notices, then the report of the failure. -/
def Report.lines (r : Report) : List String :=
  r.notices.map Notice.line ++ (r.failure.map Failure.report).getD []

end WordMachine.Command
