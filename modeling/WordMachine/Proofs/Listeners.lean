import WordMachine.Machine.Watched

/-!
# Listeners hear the trace and nothing else

The machine tells its events to whoever listens and never asks anything back. So whoever listens,
the run is the one that keeps a trace, and in the end the listener has heard that trace, event by
event. This is how a fact about evaluations with a trace becomes one about evaluations before any
sink.

* `view` is the state with a listener that has heard the trace of a state;
* `Hears`: a run with a listener is the run with a trace, seen through `view`; from single words on
  the stack to control flow, instructions (`step_hears`), frames (`runFrame_hears`) and evaluations
  (`evaluate_eq`);
* `Watched.eval_eq` is the case of a sink and the log.
-/

namespace WordMachine.Machine

open Run (countIteration countStep emit fail pop push pushRead stuck times windowLength)

variable {τ : Type}

/-! ## 1. Runs with a listener, seen from the trace -/

/-- An end, with its state seen in another way. -/
def mapState {ε α σ σ' : Type} (f : σ → σ') : EStateM.Result ε σ α → EStateM.Result ε σ' α
  | .ok a s => .ok a (f s)
  | .error halt s => .error halt (f s)

/-- The state with a listener that has heard the trace; `before` is the listener at first. -/
def view [Listener τ] (before : τ) (s : State) : State τ :=
  ⟨s.stack, s.steps, s.iterations, s.trace.toList.foldl Listener.hear before⟩

/-- **The run with a listener is the run with a trace**, seen through `view`. -/
def Hears [Listener τ] {α : Type} (before : τ) (run : RunOf τ α) (run' : Run α) : Prop :=
  ∀ s, run (view before s) = mapState (view before) (run' s)

section Hears

variable [Listener τ] {before : τ} {α β : Type}

theorem hears_pure (a : α) : Hears before (pure a) (pure a) := fun _ => rfl

theorem hears_fail (fault : Fault) : Hears before (fail fault : RunOf τ α) (fail fault) :=
  fun _ => rfl

theorem hears_stuck : Hears before (stuck : RunOf τ α) stuck := fun _ => rfl

theorem Hears.bind {run : RunOf τ α} {run' : Run α} {next : α → RunOf τ β} {next' : α → Run β}
    (h : Hears before run run') (hnext : ∀ a, Hears before (next a) (next' a)) :
    Hears before (run >>= next) (run' >>= next') := by
  intro s
  show EStateM.bind run next _ = mapState _ (EStateM.bind run' next' s)
  unfold EStateM.bind
  rw [h s]
  cases run' s with
  | ok a s' => exact hnext a s'
  | error halt s' => rfl

/-- Runs that look at the state first. -/
theorem Hears.get {next : State τ → RunOf τ α} {next' : State → Run α}
    (h : ∀ s, Hears before (next (view before s)) (next' s)) :
    Hears before (MonadState.get >>= next) (MonadState.get >>= next') :=
  fun s => h s s

theorem Hears.ite {c : Prop} [Decidable c] {run other : RunOf τ α} {run' other' : Run α}
    (h : Hears before run run') (hother : Hears before other other') :
    Hears before (if c then run else other) (if c then run' else other') := by
  split
  · exact h
  · exact hother

theorem foldl_hear_push (before : τ) (trace : Array Event) (event : Event) :
    (trace.push event).toList.foldl Listener.hear before =
      Listener.hear (trace.toList.foldl Listener.hear before) event := by
  rw [Array.toList_push, List.foldl_append, List.foldl_cons, List.foldl_nil]

/-- **An event that goes to the trace is heard.** -/
theorem emit_hears (event : Event) : Hears before (emit event) (emit event) := by
  intro s
  exact congrArg
    (fun trace => EStateM.Result.ok () (⟨s.stack, s.steps, s.iterations, trace⟩ : State τ))
    (foldl_hear_push before s.trace event).symm

end Hears

/-! ## 2. Words on the stack -/

section Words

variable [Listener τ] {before : τ}

theorem push_hears (w : Word) : Hears before (push w) (push w) := fun _ => rfl

theorem pushRead_hears (read : Except HostFault Word) :
    Hears before (pushRead read) (pushRead read) := by
  cases read with
  | ok w => exact push_hears w
  | error fault => exact hears_fail _

theorem pop_hears (n : Nat) : Hears before (pop n) (pop n) :=
  .get fun _ => .ite (fun _ => rfl) hears_stuck

theorem countStep_hears : Hears before countStep countStep :=
  .get fun _ => .ite (fun _ => rfl) (hears_fail _)

theorem countIteration_hears : Hears before countIteration countIteration :=
  .get fun _ => .ite (fun _ => rfl) (hears_fail _)

theorem windowLength_hears (frame : Frame) :
    Hears before (windowLength frame) (windowLength frame) :=
  .get fun _ => .ite (hears_pure _) hears_stuck

theorem popCondition_hears : Hears before popCondition popCondition := by
  refine (pop_hears 1).bind fun words => ?_
  split
  · exact hears_pure _
  · exact hears_stuck

theorem readMemory_hears (e : Expression) (frame : Frame) (p : Nat) (place : MemoryOperand) :
    Hears before (readMemory e frame p place) (readMemory e frame p place) := by
  unfold readMemory
  cases place.region with
  | constant =>
      cases e.constants[place.offset.val]? with
      | some w => exact push_hears w
      | none => exact hears_stuck
  | stack =>
      refine (windowLength_hears frame).bind fun available => .get fun s => .ite ?_ (hears_fail _)
      have hstack : (view before s).stack = s.stack := rfl
      rw [hstack]
      cases s.stack.get? (frame.base + place.offset.val) with
      | some w => exact push_hears w
      | none => exact hears_stuck

theorem applyFunction_hears (f : WordFunction) (inputs : Nat) :
    Hears before (applyFunction f inputs) (applyFunction f inputs) := by
  refine (pop_hears inputs).bind fun words => ?_
  cases f.apply words with
  | none => exact hears_stuck
  | some answer =>
      cases answer with
      | ok w => exact push_hears w
      | error fault => exact hears_fail _

theorem ensureAll_hears (frame : Frame) (p inputs : Nat) :
    Hears before (ensureAll frame p inputs) (ensureAll frame p inputs) := by
  refine (pop_hears inputs).bind fun words => ?_
  cases words.findIdx? (!·.truthy) with
  | none => exact hears_pure _
  | some i => exact hears_fail _

end Words

/-! ## 3. Control flow -/

section Control

variable [Listener τ] {before : τ}

theorem times_hears {body : RunOf τ Unit} {body' : Run Unit} (h : Hears before body body') :
    ∀ n, Hears before (times n body) (times n body')
  | 0 => hears_pure ()
  | n + 1 => h.bind fun _ => times_hears h n

theorem invoke_hears {nested : Frame → RunOf τ Unit} {nested' : Frame → Run Unit}
    (h : ∀ frame, Hears before (nested frame) (nested' frame)) (caller : Frame)
    (source inputs outputs : Nat) :
    Hears before (invoke nested caller source inputs outputs)
      (invoke nested' caller source inputs outputs) := by
  refine .get fun s => .ite ?_ hears_stuck
  refine (h _).bind fun _ => (windowLength_hears _).bind fun left => ?_
  exact .ite (hears_pure ()) (hears_fail _)

theorem whileTrue_hears {body : RunOf τ Unit} {body' : Run Unit} (h : Hears before body body') :
    ∀ left, Hears before (whileTrue body left) (whileTrue body' left)
  | 0 => popCondition_hears.bind fun condition => by
      cases condition with
      | true => exact hears_fail _
      | false => exact hears_pure ()
  | left + 1 => popCondition_hears.bind fun condition => by
      cases condition with
      | true =>
          refine countIteration_hears.bind fun _ => h.bind fun _ => ?_
          exact whileTrue_hears h left
      | false => exact hears_pure ()

theorem doWhile_hears {body : RunOf τ Unit} {body' : Run Unit} (h : Hears before body body') :
    Hears before (doWhile body) (doWhile body') :=
  .get fun _ => whileTrue_hears h _

end Control

/-! ## 4. Instructions and frames -/

section Frames

variable [Listener τ] {before : τ} {e : Expression} {host : Host} {nested : Frame → RunOf τ Unit}
  {nested' : Frame → Run Unit}

theorem debug_hears (frame : Frame) (mode : DebugMode) :
    Hears before (debug e frame mode) (debug e frame mode) := by
  cases mode with
  | stack => exact .get fun _ => .ite (emit_hears _) hears_stuck
  | state => exact .get fun _ => emit_hears _

/-- **One operation** leaves the same on the stack, whoever listens. -/
theorem execute_hears (h : ∀ frame, Hears before (nested frame) (nested' frame)) (frame : Frame)
    (p : Nat) (op : Operation) :
    Hears before (execute e host nested frame p op) (execute e host nested' frame p op) := by
  obtain ⟨opcode, operand⟩ := op
  cases opcode with
  | call => exact invoke_hears h frame _ _ _
  | loopN => exact times_hears (invoke_hears h frame _ _ _) _
  | doWhile => exact doWhile_hears (invoke_hears h frame _ _ _)
  | debug =>
      unfold execute
      dsimp only
      cases Operation.debugMode? ⟨.debug, operand⟩ with
      | some mode => exact debug_hears frame mode
      | none => exact hears_stuck
  | readMemory => exact readMemory_hears e frame p _
  | context => exact pushRead_hears _
  | scalar s => exact pushRead_hears _
  | balanceOf =>
      refine (pop_hears 2).bind fun words => ?_
      split
      · exact pushRead_hears _
      · exact hears_stuck
  | totalSupply =>
      refine (pop_hears 1).bind fun words => ?_
      split
      · exact pushRead_hears _
      · exact hears_stuck
  | apply f => exact applyFunction_hears f _
  | ensure => exact ensureAll_hears frame p _

theorem step_hears (h : ∀ frame, Hears before (nested frame) (nested' frame)) (frame : Frame)
    (p : Nat) (op : Operation) :
    Hears before (step e host nested frame p op) (step e host nested' frame p op) := by
  refine countStep_hears.bind fun _ => (windowLength_hears frame).bind fun available => ?_
  refine .ite (hears_fail _) (.get fun s => .ite (hears_fail _) ?_)
  exact (emit_hears _).bind fun _ => execute_hears h frame p op

theorem runCode_hears {step : Nat → Operation → RunOf τ Unit} {step' : Nat → Operation → Run Unit}
    (h : ∀ p op, Hears before (step p op) (step' p op)) :
    ∀ p code, Hears before (runCode step p code) (runCode step' p code)
  | _, [] => hears_pure ()
  | p, op :: rest => (h p op).bind fun _ => runCode_hears h (p + 1) rest

theorem runFrameWith_hears (h : ∀ frame, Hears before (nested frame) (nested' frame))
    (frame : Frame) :
    Hears before (runFrameWith e host nested frame) (runFrameWith e host nested' frame) := by
  refine (emit_hears _).bind fun _ => ?_
  cases e.code[frame.source]? with
  | some code => exact runCode_hears (step_hears h frame) 0 code
  | none => exact hears_stuck

/-- **Frames**, by induction on the levels below them. -/
theorem runFrame_hears :
    ∀ (levels : Nat) (frame : Frame),
      Hears before (runFrame e host levels frame) (runFrame e host levels frame)
  | 0, frame => runFrameWith_hears (fun _ => hears_fail _) frame
  | levels + 1, frame => runFrameWith_hears (runFrame_hears levels) frame

end Frames

/-! ## 5. Evaluations -/

theorem ofRun_mapState [Listener τ] (before : τ) (entry : Nat)
    (r : EStateM.Result Halt State Unit) :
    Ending.ofRun entry (mapState (view before) r) =
      ⟨(Outcome.ofRun entry r).result,
        (Outcome.ofRun entry r).trace.foldl Listener.hear before⟩ := by
  cases r with
  | ok a s => exact congrArg (Ending.mk _) (foldl_hear_push before s.trace _).symm
  | error halt s => exact congrArg (Ending.mk _) (foldl_hear_push before s.trace _).symm

/-- **Whoever listens to an evaluation**, it gives the result of the evaluation with a trace, and
the listener has heard that trace. -/
theorem evaluate_eq [Listener τ] (before : τ) (e : Expression) (host : Host) (entry : Nat)
    (inputs : List Word) :
    evaluate before e host entry inputs =
      ⟨(eval e host entry inputs).result,
        (eval e host entry inputs).trace.foldl Listener.hear before⟩ := by
  unfold eval evaluate
  split
  · rfl
  split
  · rfl
  have hrun : Hears before (runFrame e host maxDepth ⟨entry, 0, 0⟩)
      (runFrame e host maxDepth ⟨entry, 0, 0⟩) := runFrame_hears maxDepth ⟨entry, 0, 0⟩
  exact (congrArg (Ending.ofRun entry)
    (hrun { stack := Stack.ofWords inputs, trace := #[] })).trans (ofRun_mapState before entry _)

namespace Watched

variable {σ : Type}

theorem told_foldl_hear {sink : Sink σ} (before : Before sink) (trace : List Event) :
    (trace.foldl Listener.hear before).told = trace.foldl (observe sink) before.told :=
  (List.foldl_hom Before.told fun _ _ => rfl).symm

/-- **An evaluation before a sink** gives the result of the evaluation with a trace, and tells its
trace, event by event. -/
theorem eval_eq (sink : Option (Sink σ)) (own : σ) (e : Expression) (host : Host) (entry : Nat)
    (inputs : List Word) :
    eval sink own e host entry inputs =
      ⟨(Machine.eval e host entry inputs).result,
        (Machine.eval e host entry inputs).trace.foldl (observe (sink.getD .logging))
          { sink := own }⟩ := by
  unfold eval
  dsimp only
  rw [evaluate_eq, told_foldl_hear]

/-- A sink has no say in the result. -/
theorem result_eval (sink : Option (Sink σ)) (own : σ) (e : Expression) (host : Host) (entry : Nat)
    (inputs : List Word) :
    (eval sink own e host entry inputs).result = (Machine.eval e host entry inputs).result := by
  rw [eval_eq]

end Watched

end WordMachine.Machine
