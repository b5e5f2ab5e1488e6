import WordMachine.Proofs.Isolation

/-!
# Runs side by side

Two isolated runs through the same instructions need not start alike: one may have spent more of
the budget, have less room on the stack, or stand at other positions of other code. `Slack` says in
what the first may differ from the second and which faults of the first are then put down to that.
Every other end of the first run is the end of the second.

* `Sim` compares what two runs give, `Respects` two functions from frame to answer;
* `execute_respects` and `step_respects` carry the comparison through an instruction, given that
  it holds of the callees;
* `eval_of_sim` says what it means for evaluations that their entry frames compare.

What is left to each use is its code: how the positions of the two runs belong together.
-/

namespace WordMachine.Machine

theorem records_map_under (below : List Word) (trace : List Event) :
    records (trace.map (·.under below)) = (records trace).map (·.under below) := by
  induction trace with
  | nil => rfl
  | cons event trace ih =>
      cases event with
      | record r => exact congrArg (r.under below :: ·) ih
      | _ => exact ih

/-! ## 1. Faults at other positions -/

/-- The fault with its position, if it has one, moved; `place` takes a source and a position. -/
def Fault.relocate (place : Nat → Nat → Nat) : Fault → Fault
  | .stackUnderflow source position needed available =>
    .stackUnderflow source (place source position) needed available
  | .stackOverflow source position => .stackOverflow source (place source position)
  | .ensureFailed source position input => .ensureFailed source (place source position) input
  | f => f

/-- The source and the position that a fault names, if it names them. -/
def Fault.place? : Fault → Option (Nat × Nat)
  | .stackUnderflow source position _ _ | .stackOverflow source position
  | .ensureFailed source position _ => some (source, position)
  | _ => none

theorem Fault.place?_relocate (place : Nat → Nat → Nat) (f : Fault) :
    (f.relocate place).place? = f.place?.map fun at_ => (at_.1, place at_.1 at_.2) := by
  cases f <;> rfl

theorem Fault.relocate_relocate (place place' : Nat → Nat → Nat) (f : Fault) :
    (f.relocate place).relocate place' =
      f.relocate fun source position => place' source (place source position) := by
  cases f <;> rfl

/-- A fault that is moved and stays the same has a position that stays the same, or none. -/
theorem Fault.relocate_eq_self_iff {place : Nat → Nat → Nat} {f : Fault} :
    f.relocate place = f ↔ ∀ k q, f.place? = some (k, q) → place k q = q := by
  cases f <;> simp [relocate, place?]

/-- Getting stuck has no position. -/
def Halt.relocate (place : Nat → Nat → Nat) : Halt → Halt
  | .fault f => .fault (f.relocate place)
  | .stuck => .stuck

theorem Halt.relocate_self (halt : Halt) : halt.relocate (fun _ position => position) = halt := by
  cases halt with
  | fault f => cases f <;> rfl
  | stuck => rfl

namespace Isolated

/-! ## 2. What two runs give -/

/-- **In what a first run may differ from a second.** -/
structure Slack where
  /-- The counters of the first and of the second. -/
  counters : Counters → Counters → Prop
  /-- The faults that end the first run only. -/
  excused : Fault → Prop
  /-- Where a position of the first is in the second. -/
  place : Nat → Nat → Nat
  /-- Whether both let out the same records. -/
  observes : Prop

variable {S : Slack}

/-- What the first run gives and what the second: unless the first ends with an excused fault, they
end alike. -/
inductive Sim (S : Slack) : Answer → Answer → Prop where
  | excused {events : List Event} {f : Fault} {a : Answer} (h : S.excused f) :
      Sim S ⟨events, .error (.fault f)⟩ a
  | halted {events events' : List Event} {halt : Halt}
      (hrecords : S.observes → records events' = records events) :
      Sim S ⟨events, .error halt⟩ ⟨events', .error (halt.relocate S.place)⟩
  | finished {events events' : List Event} {window : List Word} {c c' : Counters}
      (hcounters : S.counters c c') (hrecords : S.observes → records events' = records events) :
      Sim S ⟨events, .ok ⟨window, c⟩⟩ ⟨events', .ok ⟨window, c'⟩⟩

/-- From the same words and counters that may differ, the runs give what they have to. -/
def Respects (S : Slack) (first second : Local → Answer) : Prop :=
  ∀ window c c', S.counters c c' → Sim S (first ⟨window, c⟩) (second ⟨window, c'⟩)

namespace Sim

variable {a a' : Answer}

theorem done {c c' : Counters} (h : S.counters c c') (window : List Word) :
    Sim S (.done ⟨window, c⟩) (.done ⟨window, c'⟩) :=
  .finished h fun _ => rfl

theorem halt (h : Halt) : Sim S (.halt h) (.halt (h.relocate S.place)) :=
  .halted fun _ => rfl

/-- The events may be reshaped on both sides, if that keeps equal records equal. -/
theorem reshape {g g' : List Event → List Event} (h : Sim S a a')
    (hg : S.observes → ∀ events events', records events' = records events →
      records (g' events') = records (g events)) :
    Sim S ⟨g a.events, a.result⟩ ⟨g' a'.events, a'.result⟩ := by
  cases h with
  | excused h => exact .excused h
  | halted hrecords => exact .halted fun ho => hg ho _ _ (hrecords ho)
  | finished hcounters hrecords => exact .finished hcounters fun ho => hg ho _ _ (hrecords ho)

theorem under (h : Sim S a a') (below : List Word) : Sim S (a.under below) (a'.under below) := by
  refine h.reshape fun _ events events' hrecords => ?_
  rw [records_map_under, records_map_under, hrecords]

/-- Both runs let an event out first; if it is a record, both let out the same. -/
theorem after {event event' : Event} (h : Sim S a a')
    (hevent : S.observes → records [event'] = records [event]) :
    Sim S (a.after event) (a'.after event') := by
  refine h.reshape fun ho events events' hrecords => ?_
  show records ([event'] ++ events') = records ([event] ++ events)
  rw [records_append, records_append, hevent ho, hrecords]

/-- One run lets an event out that is no record. -/
theorem after_left {event : Event} (h : Sim S a a') (hevent : records [event] = []) :
    Sim S (a.after event) a' := by
  refine @reshape S a a' (event :: ·) id h fun _ events events' hrecords => ?_
  show records events' = records ([event] ++ events)
  rw [records_append, hevent, hrecords, List.nil_append]

theorem after_right {event : Event} (h : Sim S a a') (hevent : records [event] = []) :
    Sim S a (a'.after event) := by
  refine @reshape S a a' id (event :: ·) h fun _ events events' hrecords => ?_
  show records ([event] ++ events') = records events
  rw [records_append, hevent, hrecords, List.nil_append]

/-- Both runs go on, and what the first has left may be used. -/
theorem andThen_of_ok {next next' : Local → Answer} (h : Sim S a a')
    (hnext : ∀ window c c', a.result = .ok ⟨window, c⟩ → S.counters c c' →
      Sim S (next ⟨window, c⟩) (next' ⟨window, c'⟩)) :
    Sim S (a.andThen next) (a'.andThen next') := by
  cases h with
  | excused h => exact .excused h
  | halted hrecords => exact .halted hrecords
  | @finished events events' window c c' hcounters hrecords =>
      -- Both go on from the same words, so what they let out next compares as well.
      refine (hnext window c c' rfl hcounters).reshape fun ho late late' hlate => ?_
      rw [records_append, records_append, hrecords ho, hlate]

theorem andThen {next next' : Local → Answer} (h : Sim S a a') (hnext : Respects S next next') :
    Sim S (a.andThen next) (a'.andThen next') :=
  h.andThen_of_ok fun window c c' _ hcounters => hnext window c c' hcounters

/-- **A first run that no excused fault ends** has the result of the second, up to positions. -/
theorem unexcused (h : Sim S a a') (hend : ∀ f, a.result = .error (.fault f) → ¬ S.excused f) :
    a'.result.map (·.window) = (a.result.map (·.window)).mapError (·.relocate S.place) ∧
      (S.observes → records a'.events = records a.events) := by
  cases h with
  | excused hexcused => exact absurd hexcused (hend _ rfl)
  | halted hrecords => exact ⟨rfl, hrecords⟩
  | finished _ hrecords => exact ⟨rfl, hrecords⟩

end Sim

/-! ## 3. Control flow -/

/-- What the counters have to be good for: where the first run may go on, so may the second. -/
structure Slack.Lawful (S : Slack) : Prop where
  step : Respects S Local.countStep Local.countStep
  iteration : Respects S Local.countIteration Local.countIteration

/-- Two runs that always have the same counters. -/
theorem Slack.lawful_of_eq (h : ∀ c c', S.counters c c' ↔ c' = c) : S.Lawful where
  step := by
    intro window c c' hcounters
    obtain rfl := (h c c').1 hcounters
    unfold Local.countStep
    split
    · exact .done ((h _ _).2 rfl) window
    · exact .halt (.fault .stepBudgetExceeded)
  iteration := by
    intro window c c' hcounters
    obtain rfl := (h c c').1 hcounters
    unfold Local.countIteration
    split
    · exact .done ((h _ _).2 rfl) window
    · exact .halt (.fault .iterationCapExceeded)

/-- **The first run counts more steps than the second**, and the budget may end it for that. -/
theorem Slack.lawful_of_steps_le
    (h : ∀ c c', S.counters c c' ↔ c'.steps ≤ c.steps ∧ c'.iterations = c.iterations)
    (hexcused : S.excused .stepBudgetExceeded) : S.Lawful where
  step := by
    intro window c c' hcounters
    obtain ⟨hsteps, hiterations⟩ := (h c c').1 hcounters
    unfold Local.countStep
    by_cases hspent : c.steps < maxSteps
    · rw [if_pos hspent, if_pos (Nat.lt_of_le_of_lt hsteps hspent)]
      have hstep : S.counters c.step c'.step :=
        (h _ _).2 ⟨Nat.succ_le_succ hsteps, hiterations⟩
      exact .done hstep window
    · rw [if_neg hspent]
      exact .excused hexcused
  iteration := by
    intro window c c' hcounters
    obtain ⟨hsteps, hiterations⟩ := (h c c').1 hcounters
    unfold Local.countIteration
    show Sim _ (if c.iterations < maxIterations then _ else _)
      (if c'.iterations < maxIterations then _ else _)
    rw [hiterations]
    by_cases hspent : c.iterations < maxIterations
    · rw [if_pos hspent, if_pos hspent]
      have hiterate : S.counters c.iterate c'.iterate :=
        (h _ _).2 ⟨hsteps, congrArg (· + 1) hiterations⟩
      exact .done hiterate window
    · rw [if_neg hspent, if_neg hspent]
      exact .halt (.fault .iterationCapExceeded)

/-- Frames of one source. The first may have more words below it, and then the height limit may
end it only. -/
structure Slack.Frames (S : Slack) (frame frame' : Frame) : Prop where
  source : frame'.source = frame.source
  base_le : frame'.base ≤ frame.base
  overflow : frame'.base = frame.base ∨
    ∀ source position, S.excused (.stackOverflow source position)

/-- Callees that give what they have to in a source. -/
def RespectsCallee (S : Slack) (callee callee' : Callee) (source : Nat) : Prop :=
  ∀ frame frame', frame.source = source → S.Frames frame frame' →
    Respects S (callee frame) (callee' frame')

/-- A callee's frame starts on both sides as far above its caller's. -/
theorem Slack.Frames.nested {frame frame' : Frame} (h : S.Frames frame frame')
    (source rest : Nat) :
    S.Frames ⟨source, frame.base + rest, frame.depth + 1⟩
      ⟨source, frame'.base + rest, frame'.depth + 1⟩ where
  source := rfl
  base_le := Nat.add_le_add_right h.base_le rest
  overflow := h.overflow.imp_left fun heq => congrArg (· + rest) heq

/-- Taking words off does not look at the counters. -/
theorem popThen_respects {next next' : List Word → Local → Answer}
    (hnext : ∀ words, Respects S (next words) (next' words)) (n : Nat) :
    Respects S (·.popThen n next) (·.popThen n next') := by
  intro window c c' h
  dsimp only [Local.popThen]
  by_cases hn : n ≤ window.length
  · rw [if_pos hn, if_pos hn]
    exact hnext _ _ c c' h
  · rw [if_neg hn, if_neg hn]
    exact .halt .stuck

theorem popCondition_respects {next next' : Bool → Local → Answer}
    (hnext : ∀ condition, Respects S (next condition) (next' condition)) :
    Respects S (·.popCondition next) (·.popCondition next') := by
  refine popThen_respects (fun words window c c' h => ?_) 1
  rcases words with _ | ⟨w, _ | ⟨_, _⟩⟩
  · exact .halt .stuck
  · exact hnext w.truthy window c c' h
  · exact .halt .stuck

theorem invoke_respects {callee callee' : Callee} {source : Nat}
    (hcallee : RespectsCallee S callee callee' source) {frame frame' : Frame}
    (hframes : S.Frames frame frame') (inputs outputs : Nat) :
    Respects S (invoke callee frame source inputs outputs)
      (invoke callee' frame' source inputs outputs) := by
  refine popThen_respects (fun arguments rest c c' h => ?_) inputs
  refine ((hcallee _ _ rfl (hframes.nested source rest.length) arguments c c' h).under
    rest).andThen fun left d d' hd => ?_
  show Sim S (if left.length = outputs then _ else _) (if left.length = outputs then _ else _)
  split
  · exact .done hd _
  · exact .halt (.fault (.stackMismatch source outputs left.length))

theorem times_respects {body body' : Local → Answer} (hbody : Respects S body body') :
    ∀ n, Respects S (times n body) (times n body')
  | 0 => fun window _ _ h => .done h window
  | n + 1 => fun window c c' h => (hbody window c c' h).andThen (times_respects hbody n)

theorem whileTrue_respects (hS : S.Lawful) {body body' : Local → Answer}
    (hbody : Respects S body body') :
    ∀ bound, Respects S (whileTrue body bound) (whileTrue body' bound)
  | 0 => fun _ _ _ _ => .halt (.fault .iterationCapExceeded)
  | bound + 1 => by
      refine popCondition_respects fun condition rest c c' h => ?_
      cases condition with
      | false => exact .done h rest
      | true =>
          refine (hS.iteration rest c c' h).andThen fun window c c' h => ?_
          exact (hbody window c c' h).andThen (whileTrue_respects hS hbody bound)

/-! ## 4. One instruction -/

section Instruction

variable {constants : List Word} {host : Host} {callee callee' : Callee} {frame frame' : Frame}
  {position position' : Nat}

theorem pushRead_respects (read : Except HostFault Word) :
    Respects S (·.pushRead read) (·.pushRead read) := by
  intro window c c' h
  cases read with
  | ok w => exact .done h (window ++ [w])
  | error f => exact .halt (.fault (.host f))

theorem readMemory_respects (hsource : frame'.source = frame.source)
    (hplace : S.place frame.source position = position') (place : MemoryOperand) :
    Respects S (readMemory constants frame position place)
      (readMemory constants frame' position' place) := by
  intro window c c' h
  unfold readMemory
  cases place.region with
  | constant =>
      cases constants[place.offset.val]? with
      | some w => exact .done h (window ++ [w])
      | none => exact .halt .stuck
  | stack =>
      dsimp only
      cases window[place.offset.val]? with
      | some w => exact .done h (window ++ [w])
      | none =>
          rw [hsource, ← hplace]
          exact .halt (.fault (.stackUnderflow frame.source position _ window.length))

theorem applyFunction_respects (f : WordFunction) (inputs : Nat) :
    Respects S (applyFunction f inputs) (applyFunction f inputs) := by
  refine popThen_respects (fun words rest c c' h => ?_) inputs
  rcases f.apply words with _ | fault | w
  · exact .halt .stuck
  · exact .halt (.fault (.arithmetic f fault))
  · exact .done h (rest ++ [w])

theorem ensureAll_respects (hsource : frame'.source = frame.source)
    (hplace : S.place frame.source position = position') (inputs : Nat) :
    Respects S (ensureAll frame position inputs) (ensureAll frame' position' inputs) := by
  refine popThen_respects (fun words rest c c' h => ?_) inputs
  cases words.findIdx? (!·.truthy) with
  | none => exact .done h rest
  | some i =>
      rw [hsource, ← hplace]
      exact .halt (.fault (.ensureFailed frame.source position i))

/-- A record shows the frame's own words, which are the same on both sides. -/
theorem debug_respects (hsource : frame'.source = frame.source) (mode : DebugMode) :
    Respects S (debug constants frame · mode) (debug constants frame' · mode) := by
  intro window c c' h
  cases mode with
  | stack => exact (Sim.done h window).after fun _ => rfl
  | state =>
      show Sim S _ ((Answer.done ⟨window, c'⟩).after (.record (.state frame'.source _ _)))
      rw [hsource]
      exact (Sim.done h window).after fun _ => rfl

/-- **What an operation does, it does on both sides**, if its callees do. -/
theorem execute_respects (hS : S.Lawful) (hframes : S.Frames frame frame')
    (hplace : S.place frame.source position = position') {op : Operation}
    (hcallee : ∀ i, op.invocation? = some i → RespectsCallee S callee callee' i.source) :
    Respects S (execute constants host callee frame position op)
      (execute constants host callee' frame' position' op) := by
  obtain ⟨opcode, operand⟩ := op
  cases opcode with
  | readMemory => exact readMemory_respects hframes.source hplace _
  | call => exact invoke_respects (hcallee _ rfl) hframes _ _
  | loopN => exact times_respects (invoke_respects (hcallee _ rfl) hframes _ _) _
  | doWhile =>
      intro window c c' h
      show Sim S (doWhile (invoke callee frame (DoWhileOperand.ofBits operand).source
          (DoWhileOperand.ofBits operand).inputs ((DoWhileOperand.ofBits operand).inputs + 1)) _)
        (doWhile (invoke callee' frame' (DoWhileOperand.ofBits operand).source
          (DoWhileOperand.ofBits operand).inputs ((DoWhileOperand.ofBits operand).inputs + 1)) _)
      exact whileTrue_respects hS (invoke_respects (hcallee _ rfl) hframes _ _) _ window c c' h
  | debug =>
      intro window c c' h
      unfold execute
      dsimp only
      cases Operation.debugMode? ⟨.debug, operand⟩ with
      | some mode => exact debug_respects hframes.source mode window c c' h
      | none => exact .halt .stuck
  | context => exact pushRead_respects _
  | scalar s => exact pushRead_respects _
  | balanceOf =>
      intro window c c' h
      unfold execute
      dsimp only
      refine popThen_respects (fun words rest c c' h => ?_) 2 window c c' h
      rcases words with _ | ⟨token, _ | ⟨account, _ | ⟨_, _⟩⟩⟩
      · exact .halt .stuck
      · exact .halt .stuck
      · exact pushRead_respects _ rest c c' h
      · exact .halt .stuck
  | totalSupply =>
      intro window c c' h
      unfold execute
      dsimp only
      refine popThen_respects (fun words rest c c' h => ?_) 1 window c c' h
      rcases words with _ | ⟨token, _ | ⟨_, _⟩⟩
      · exact .halt .stuck
      · exact pushRead_respects _ rest c c' h
      · exact .halt .stuck
  | apply f => exact applyFunction_respects f _
  | ensure => exact ensureAll_respects hframes.source hplace _

/-- **A step on both sides**: the second has at least the room of the first. -/
theorem step_respects (hS : S.Lawful) (hframes : S.Frames frame frame')
    (hplace : S.place frame.source position = position') {op : Operation}
    (hcallee : ∀ i, op.invocation? = some i → RespectsCallee S callee callee' i.source) :
    Respects S (step constants host callee frame position op)
      (step constants host callee' frame' position' op) := by
  intro window c c' h
  refine (hS.step window c c' h).andThen fun window c c' h => ?_
  -- The height check is the only one that looks below the frame.
  have hroom := hframes.base_le
  unfold perform
  rw [hframes.source, ← hplace]
  by_cases hfew : window.length < op.effect.inputs
  · rw [if_pos hfew, if_pos hfew]
    exact .halt (.fault (.stackUnderflow frame.source position op.effect.inputs window.length))
  · rw [if_neg hfew, if_neg hfew]
    by_cases hhigh : op.effect.inputs < op.effect.outputs ∧
        maxHeight < frame.base + window.length - op.effect.inputs + op.effect.outputs
    · rw [if_pos hhigh]
      rcases hframes.overflow with hbase | hexcused
      · rw [hbase, if_pos hhigh]
        exact .halt (.fault (.stackOverflow frame.source position))
      · exact .excused (hexcused frame.source position)
    · have hlow : ¬ (op.effect.inputs < op.effect.outputs ∧
          maxHeight < frame'.base + window.length - op.effect.inputs + op.effect.outputs) := by
        omega
      rw [if_neg hhigh, if_neg hlow]
      refine Sim.after ?_ fun _ => rfl
      exact execute_respects hS hframes rfl hcallee window c c' h

end Instruction

/-! ## 5. The same code on both sides -/

/-- The same code, at positions that may differ. -/
theorem runCode_respects_at {step step' : Nat → Operation → Local → Answer} {code : List Operation}
    {p p' : Nat} (hstep : ∀ i op, code[i]? = some op →
      Respects S (step (p + i) op) (step' (p' + i) op)) :
    Respects S (runCode step p code) (runCode step' p' code) := by
  induction code generalizing p p' with
  | nil => exact fun window _ _ h => .done h window
  | cons op rest ih =>
      intro window c c' h
      refine Sim.andThen (hstep 0 op rfl window c c' h) (ih fun i op' hop' => ?_)
      have hlater := hstep (i + 1) op' hop'
      rwa [Nat.add_comm i, ← Nat.add_assoc, ← Nat.add_assoc] at hlater

theorem runCode_respects {step step' : Nat → Operation → Local → Answer} {code : List Operation}
    (hstep : ∀ op ∈ code, ∀ p, Respects S (step p op) (step' p op)) (p : Nat) :
    Respects S (runCode step p code) (runCode step' p code) :=
  runCode_respects_at fun _ op hop => hstep op (List.mem_of_getElem? hop) _

/-- Frames of one expression, if positions stay where they are. -/
theorem runFrameWith_respects (hS : S.Lawful) (hplace : ∀ source position,
    S.place source position = position) (e : Expression) (host : Host) {callee callee' : Callee}
    (hcallee : ∀ source, RespectsCallee S callee callee' source) (source : Nat) :
    RespectsCallee S (runFrameWith e host callee) (runFrameWith e host callee') source := by
  intro frame frame' _ hframes window c c' h
  refine Sim.after ?_ fun _ => rfl
  rw [hframes.source]
  cases e.code[frame.source]? with
  | none => exact .halt .stuck
  | some code =>
      refine runCode_respects (fun op _ p => ?_) 0 window c c' h
      exact step_respects hS hframes (hplace _ _) fun i _ => hcallee i.source

theorem Answer.records_outcome (entry : Nat) (a : Answer) :
    records (a.outcome entry).trace = records a.events := by
  obtain ⟨events, result⟩ := a
  cases result <;> exact (records_append _ _).trans (List.append_nil _)

end Isolated

/-! ## 6. Evaluations side by side -/

/-- **Evaluations whose entry frames compare**: unless an excused fault ends the first, the second
has its result, up to positions, and lets out the same records. -/
theorem eval_of_sim {S : Isolated.Slack} {e e' : Expression} (he : e.WellFormed)
    (he' : e'.WellFormed) (hlength : e'.code.length = e.code.length) (host : Host) {entry : Nat}
    (hplace : S.place entry 0 = 0) {inputs : List Word}
    (hsim : entry < e.code.length →
      Isolated.Sim S (Isolated.runFrame e host maxDepth ⟨entry, 0, 0⟩ ⟨inputs, {}⟩)
        (Isolated.runFrame e' host maxDepth ⟨entry, 0, 0⟩ ⟨inputs, {}⟩))
    (hend : ∀ f, (eval e host entry inputs).result = .error (.fault f) → ¬ S.excused f) :
    (eval e' host entry inputs).result =
        (eval e host entry inputs).result.mapError (·.relocate S.place) ∧
      (S.observes →
        records (eval e' host entry inputs).trace = records (eval e host entry inputs).trace) := by
  rcases eval_cases he host entry inputs with
    ⟨hnone, heval⟩ | ⟨hentry, hmany, heval⟩ | ⟨hentry, hinputs, heval⟩
  · have hnone' : e'.code.length ≤ entry := by omega
    rw [heval, eval_of_unknown host hnone', hlength]
    exact ⟨rfl, fun _ => rfl⟩
  · have hentry' : ¬ e'.code.length ≤ entry := by omega
    have hrelocate : Halt.relocate S.place (.fault (.stackOverflow entry 0)) =
        .fault (.stackOverflow entry 0) :=
      congrArg (fun position => Halt.fault (.stackOverflow entry position)) hplace
    rw [heval, eval_of_many host hentry' hmany]
    exact ⟨congrArg Except.error hrelocate.symm, fun _ => rfl⟩
  · have hentry' : entry < e'.code.length := by omega
    rw [heval] at hend ⊢
    rw [eval_eq_outcome he' host hentry' hinputs]
    simp only [Isolated.Answer.result_outcome, Isolated.Answer.records_outcome] at hend ⊢
    refine (hsim hentry).unexcused fun f hf => hend f ?_
    rw [hf]
    rfl

end WordMachine.Machine
