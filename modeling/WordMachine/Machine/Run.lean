import WordMachine.Machine.Stack
import WordMachine.Machine.Trace

/-!
# Running

The machine runs the code of a source in a frame. All frames share one stack; a frame sees only
its window. Before an instruction runs, the step budget, the words it needs and the room for the
words it gives are checked, in this order.

There is one machine for all listeners. `Run` and `eval` are the machine that keeps a trace.

The recursion needs no bound of its own: nested frames are counted down from the depth limit, a
`loop-n` from its count, a `do-while` from the iterations that are left, and code from its length.
-/

namespace WordMachine.Machine

/-! ## 1. State -/

/-- What a run changes. -/
structure State (τ : Type := Array Event) where
  stack : Stack := {}
  /-- Instructions that have run. -/
  steps : Nat := 0
  /-- Bodies of `do-while` that have run. -/
  iterations : Nat := 0
  /-- What the listener has made of the run so far. -/
  trace : τ

/-- A run that may halt; what it did before stays. -/
abbrev RunOf (τ : Type) := EStateM Halt (State τ)

/-- A run that keeps a trace. -/
abbrev Run := RunOf (Array Event)

variable {τ : Type}

namespace Run

/-- Halts with a fault. -/
def fail {α : Type} (f : Fault) : RunOf τ α := throw (.fault f)

/-- Halts for want of something that has to be there. -/
def stuck {α : Type} : RunOf τ α := throw .stuck

/-- Tells an event. -/
def emit [Listener τ] (event : Event) : RunOf τ Unit :=
  modify fun s => { s with trace := Listener.hear s.trace event }

/-- Puts a word on the stack. -/
def push (w : Word) : RunOf τ Unit := modify fun s => { s with stack := s.stack.push w }

/-- Puts the word that a host read gives on the stack. -/
def pushRead : Except HostFault Word → RunOf τ Unit
  | .ok w => push w
  | .error f => fail (.host f)

/-- Takes the `n` topmost words off the stack; the deepest of them comes first. -/
def pop (n : Nat) : RunOf τ (List Word) := do
  let s ← get
  if n ≤ s.stack.height then
    let words := s.stack.top n
    set { s with stack := s.stack.drop n }
    return words
  else stuck

/-- Counts one more instruction, within the budget. -/
def countStep : RunOf τ Unit := do
  let s ← get
  if s.steps < maxSteps then set { s with steps := s.steps + 1 }
  else fail .stepBudgetExceeded

/-- Counts one more body of a `do-while`, within the cap. -/
def countIteration : RunOf τ Unit := do
  let s ← get
  if s.iterations < maxIterations then set { s with iterations := s.iterations + 1 }
  else fail .iterationCapExceeded

/-- The number of words in the window of a frame. -/
def windowLength (frame : Frame) : RunOf τ Nat := do
  let s ← get
  if frame.base ≤ s.stack.height then return s.stack.height - frame.base else stuck

/-- Repeats a run. -/
def times : Nat → RunOf τ Unit → RunOf τ Unit
  | 0, _ => pure ()
  | n + 1, body => do
    body
    times n body

end Run

open Run

/-! ## 2. Control flow -/

/-- Runs a source in a frame of its own over the `inputs` topmost words and requires that it leaves
`outputs` words in their place. -/
def invoke (nested : Frame → RunOf τ Unit) (caller : Frame) (source inputs outputs : Nat) :
    RunOf τ Unit := do
  let s ← get
  if inputs ≤ s.stack.height then
    let callee : Frame := ⟨source, s.stack.height - inputs, caller.depth + 1⟩
    nested callee
    let left ← windowLength callee
    if left = outputs then return else fail (.stackMismatch source outputs left)
  else stuck

/-- Takes a condition off the stack. -/
def popCondition : RunOf τ Bool := do
  match ← pop 1 with
  | [w] => return w.truthy
  | _ => stuck

/-- Runs a body as long as the condition on top is true; `left` bounds the iterations that the cap
still allows. -/
def whileTrue (body : RunOf τ Unit) : (left : Nat) → RunOf τ Unit
  | 0 => do
    if ← popCondition then fail .iterationCapExceeded else return
  | left + 1 => do
    if ← popCondition then
      countIteration
      body
      whileTrue body left
    else return

/-- The `do-while` of a body. -/
def doWhile (body : RunOf τ Unit) : RunOf τ Unit := do
  let s ← get
  whileTrue body (maxIterations - s.iterations)

/-! ## 3. One instruction -/

/-- Reads a word of the pool or of the window and puts it on the stack. -/
def readMemory (e : Expression) (frame : Frame) (position : Nat) (place : MemoryOperand) :
    RunOf τ Unit := do
  match place.region with
  | .constant =>
    match e.constants[place.offset.val]? with
    | some w => push w
    | none => stuck
  | .stack =>
    let available ← windowLength frame
    let s ← get
    if place.offset.val < available then
      match s.stack.get? (frame.base + place.offset.val) with
      | some w => push w
      | none => stuck
    else fail (.stackUnderflow frame.source position (place.offset.val + 1) available)

/-- Replaces the `inputs` topmost words by a function of them. -/
def applyFunction (f : WordFunction) (inputs : Nat) : RunOf τ Unit := do
  let words ← pop inputs
  match f.apply words with
  | some (.ok w) => push w
  | some (.error fault) => fail (.arithmetic f fault)
  | none => stuck

/-- Takes the `inputs` topmost words, all of which have to be true. -/
def ensureAll (frame : Frame) (position inputs : Nat) : RunOf τ Unit := do
  let words ← pop inputs
  match words.findIdx? (!·.truthy) with
  | none => return
  | some i => fail (.ensureFailed frame.source position i)

/-- Lets a debug record out. -/
def debug [Listener τ] (e : Expression) (frame : Frame) : DebugMode → RunOf τ Unit
  | .stack => do
    let s ← get
    if frame.base ≤ s.stack.height then emit (.record (.stack (s.stack.window frame.base)))
    else stuck
  | .state => do
    let s ← get
    emit (.record (.state frame.source e.constants s.stack.words))

/-- What an operation does once its checks have passed. -/
def execute [Listener τ] (e : Expression) (host : Host) (nested : Frame → RunOf τ Unit)
    (frame : Frame) (position : Nat) (op : Operation) : RunOf τ Unit :=
  match op.opcode with
  | .readMemory => readMemory e frame position (MemoryOperand.ofBits op.operand)
  | .call =>
    let c := CallOperand.ofBits op.operand
    invoke nested frame c.source c.inputs c.outputs
  | .loopN =>
    let l := LoopOperand.ofBits op.operand
    times l.count (invoke nested frame l.source l.inputs l.outputs)
  | .doWhile =>
    let d := DoWhileOperand.ofBits op.operand
    doWhile (invoke nested frame d.source d.inputs (d.inputs + 1))
  | .debug =>
    match op.debugMode? with
    | some mode => debug e frame mode
    | none => stuck
  | .context => pushRead (host.context (ContextCell.ofBits op.operand))
  | .scalar s => pushRead (host.scalar s)
  | .balanceOf => do
    match ← pop 2 with
    | [token, account] => pushRead (host.balanceOf token account)
    | _ => stuck
  | .totalSupply => do
    match ← pop 1 with
    | [token] => pushRead (host.totalSupply token)
    | _ => stuck
  | .apply f => applyFunction f op.effect.inputs
  | .ensure => ensureAll frame position op.effect.inputs

/-- Checks an operation and runs it. -/
def step [Listener τ] (e : Expression) (host : Host) (nested : Frame → RunOf τ Unit) (frame : Frame)
    (position : Nat) (op : Operation) : RunOf τ Unit := do
  countStep
  let available ← windowLength frame
  let effect := op.effect
  if available < effect.inputs then
    fail (.stackUnderflow frame.source position effect.inputs available)
  else
    let s ← get
    if effect.inputs < effect.outputs ∧
        maxHeight < s.stack.height - effect.inputs + effect.outputs then
      fail (.stackOverflow frame.source position)
    else
      emit (.step frame position op available)
      execute e host nested frame position op

/-! ## 4. Frames -/

/-- Runs code from a position on. -/
def runCode (step : Nat → Operation → RunOf τ Unit) :
    (position : Nat) → List Operation → RunOf τ Unit
  | _, [] => pure ()
  | p, op :: rest => do
    step p op
    runCode step (p + 1) rest

/-- Runs a frame whose nested frames run as given. -/
def runFrameWith [Listener τ] (e : Expression) (host : Host) (nested : Frame → RunOf τ Unit)
    (frame : Frame) : RunOf τ Unit := do
  emit (.enter frame)
  match e.code[frame.source]? with
  | some code => runCode (step e host nested frame) 0 code
  | none => stuck

/-- Runs a frame below which `levels` more may nest. -/
def runFrame [Listener τ] (e : Expression) (host : Host) : (levels : Nat) → Frame → RunOf τ Unit
  | 0 => runFrameWith e host fun _ => fail .callDepthExceeded
  | levels + 1 => runFrameWith e host (runFrame e host levels)

/-! ## 5. Evaluation -/

/-- What an evaluation gives, and what the listener has made of it. -/
structure Ending (τ : Type) where
  result : Except Halt (List Word)
  told : τ

/-- How a run ended. -/
def Ending.ofRun [Listener τ] (entry : Nat) : EStateM.Result Halt (State τ) Unit → Ending τ
  | .ok () s => ⟨.ok s.stack.words, Listener.hear s.trace (.finished entry s.stack.height)⟩
  | .error halt s => ⟨.error halt, Listener.hear s.trace (.aborted entry halt)⟩

/-- Evaluates a source whose window starts with the inputs, the deepest first. -/
def evaluate [Listener τ] (before : τ) (e : Expression) (host : Host) (entry : Nat)
    (inputs : List Word) : Ending τ :=
  if e.code.length ≤ entry then ⟨.error (.fault (.unknownSource entry e.code.length)), before⟩
  else if maxHeight < inputs.length then ⟨.error (.fault (.stackOverflow entry 0)), before⟩
  else
    .ofRun entry
      ((runFrame e host maxDepth ⟨entry, 0, 0⟩).run
        { stack := Stack.ofWords inputs, trace := before })

/-- What an evaluation gives and leaves. -/
structure Outcome where
  result : Except Halt (List Word)
  trace : List Event

/-- The outcome of an evaluation that keeps a trace. -/
def Ending.outcome (ending : Ending (Array Event)) : Outcome := ⟨ending.result, ending.told.toList⟩

/-- The outcome of a run. -/
def Outcome.ofRun (entry : Nat) (r : EStateM.Result Halt State Unit) : Outcome :=
  (Ending.ofRun entry r).outcome

/-- Evaluates a source and keeps a trace. -/
def eval (e : Expression) (host : Host) (entry : Nat) (inputs : List Word) : Outcome :=
  (evaluate #[] e host entry inputs).outcome

end WordMachine.Machine
