import WordMachine.Machine.Run
import WordMachine.Proofs.Loading

/-!
# Evaluations move by move

An evaluation is one recursive run, so nothing can be said about what lies between its beginning and
its end. Here it is cut into moves: a configuration holds the tasks that are left, the next one
first, and the state; a move takes the first task off and puts the tasks that it leaves behind in
its place.

* `Config.next` is the move that a configuration makes, with a label for what happened in it;
* `Path` is a sequence of moves, and every configuration on a path from `Config.start` is a point of
  the evaluation;
* `start_reaches_eval` and `Path.reaches_last` say that these are the points of `eval` and of nothing
  else: there is one way to go, and it ends with the outcome of `eval`.

A move is at most one instruction. An instruction that invokes nothing takes its inputs off the
stack before it puts its outputs there, so in between the stack is no higher than at its ends.
-/

namespace WordMachine.Machine

open Run

/-! ## 1. Tasks -/

/-- Something that is left to do. -/
inductive Task where
  /-- Enter a frame. -/
  | enter (frame : Frame)
  /-- Run the code of a frame from a position on. -/
  | code (frame : Frame) (position : Nat) (rest : List Operation)
  /-- Invoke a source as many times as are left. -/
  | rounds (caller : Frame) (i : Invocation) (left : Nat)
  /-- Invoke a source as long as the condition on top is true. -/
  | test (caller : Frame) (i : Invocation)
  /-- Require that a callee has left so many words. -/
  | settle (callee : Frame) (outputs : Nat)

/-- What happens in a move. -/
inductive Move where
  /-- A frame is entered. -/
  | enter (frame : Frame)
  /-- An instruction has passed its checks and is run. -/
  | dispatch
  /-- The condition of a `do-while` is true, and its body is invoked. -/
  | iterate
  /-- Nothing of the above. -/
  | other
deriving DecidableEq

/-- The move enters a frame. -/
def Move.isEnter : Move → Bool
  | .enter _ => true
  | _ => false

/-- What is left to do, the next task first, or why nothing is done any more; and the state. -/
structure Config where
  tasks : Except Halt (List Task)
  state : State

/-- The configuration after a part of a task that gives further tasks; `rest` comes after them. -/
def Config.resume (rest : List Task) : EStateM.Result Halt State (List Task) → Config
  | .ok tasks s => ⟨.ok (tasks ++ rest), s⟩
  | .error halt s => ⟨.error halt, s⟩

/-! ## 2. Parts of tasks -/

/-- Enters a frame. -/
def openFrame (e : Expression) (frame : Frame) : Run (List Task) := do
  emit (.enter frame)
  match e.code[frame.source]? with
  | some code => return [.code frame 0 code]
  | none => stuck

/-- Counts an operation and checks that it has its inputs and room for its outputs. -/
def approve (frame : Frame) (position : Nat) (op : Operation) : Run Unit := do
  countStep
  let available ← windowLength frame
  if available < op.effect.inputs then
    fail (.stackUnderflow frame.source position op.effect.inputs available)
  else
    let s ← get
    if op.effect.inputs < op.effect.outputs ∧
        maxHeight < s.stack.height - op.effect.inputs + op.effect.outputs then
      fail (.stackOverflow frame.source position)
    else emit (.step frame position op available)

/-- The task of an operation that invokes a source. -/
def taskOf? (frame : Frame) (op : Operation) : Option Task :=
  match op.opcode with
  | .call => op.invocation?.map fun i => .rounds frame i 1
  | .loopN => op.invocation?.map fun i => .rounds frame i (LoopOperand.ofBits op.operand).count
  | .doWhile => op.invocation?.map fun i => .test frame i
  | _ => none

/-- Runs an operation that invokes nothing, and leaves the task of any other. -/
def operate (e : Expression) (host : Host) (frame : Frame) (position : Nat) (op : Operation) :
    Run (List Task) :=
  match taskOf? frame op with
  | some task => return [task]
  | none => do
    execute e host (fun _ => stuck) frame position op
    return []

/-- Begins an invocation, unless the caller is as deep as frames may be. -/
def invite (caller : Frame) (i : Invocation) : Run (List Task) := do
  let s ← get
  if i.inputs ≤ s.stack.height then
    if caller.depth < maxDepth then
      let callee : Frame := ⟨i.source, s.stack.height - i.inputs, caller.depth + 1⟩
      return [.enter callee, .settle callee i.outputs]
    else fail .callDepthExceeded
  else stuck

/-- Takes a condition off the stack and, if it is true, counts the body that it stands for. -/
def testCondition : Run Bool := do
  if ← popCondition then
    countIteration
    return true
  else return false

/-- Ends an invocation. -/
def closeFrame (callee : Frame) (outputs : Nat) : Run (List Task) := do
  let left ← windowLength callee
  if left = outputs then return [] else fail (.stackMismatch callee.source outputs left)

/-! ## 3. Moves -/

/-- The move that a task makes; `rest` is what is left to do after it. -/
def Task.move (e : Expression) (host : Host) (rest : List Task) (s : State) : Task → Move × Config
  | .enter frame => (.enter frame, .resume rest (openFrame e frame s))
  | .code _ _ [] => (.other, ⟨.ok rest, s⟩)
  | .code frame p (op :: ops) =>
    match approve frame p op s with
    | .ok () s => (.dispatch, .resume (.code frame (p + 1) ops :: rest) (operate e host frame p op s))
    | .error halt s => (.other, ⟨.error halt, s⟩)
  | .rounds _ _ 0 => (.other, ⟨.ok rest, s⟩)
  | .rounds caller i (n + 1) => (.other, .resume (.rounds caller i n :: rest) (invite caller i s))
  | .test caller i =>
    match testCondition s with
    | .ok true s => (.iterate, .resume (.test caller i :: rest) (invite caller i s))
    | .ok false s => (.other, ⟨.ok rest, s⟩)
    | .error halt s => (.other, ⟨.error halt, s⟩)
  | .settle callee outputs => (.other, .resume rest (closeFrame callee outputs s))

namespace Config

/-- The next move and the configuration it leads to; none where nothing is left to do. -/
def next (e : Expression) (host : Host) : Config → Option (Move × Config)
  | ⟨.ok (task :: rest), s⟩ => some (task.move e host rest s)
  | _ => none

/-- Where an evaluation begins. -/
def start (entry : Nat) (inputs : List Word) : Config :=
  ⟨.ok [.enter ⟨entry, 0, 0⟩], { stack := Stack.ofWords inputs, trace := #[] }⟩

/-- What an evaluation gives and leaves where nothing is left to do. -/
def outcome? (entry : Nat) : Config → Option Outcome
  | ⟨.ok [], s⟩ => some (.ofRun entry (.ok () s))
  | ⟨.ok (_ :: _), _⟩ => none
  | ⟨.error halt, s⟩ => some (.ofRun entry (.error halt s))

end Config

/-- **The moves that lead from one configuration to another.** -/
inductive Path (e : Expression) (host : Host) : Config → List Move → Config → Prop where
  | stay (c : Config) : Path e host c [] c
  | move {c c' c'' : Config} {m : Move} {moves : List Move} (first : c.next e host = some (m, c'))
      (others : Path e host c' moves c'') : Path e host c (m :: moves) c''

/-- Some moves lead from one configuration to another. -/
def Reaches (e : Expression) (host : Host) (c c' : Config) : Prop := ∃ moves, Path e host c moves c'

section Reaches

variable {e : Expression} {host : Host} {a b c : Config}

theorem Path.append {moves others : List Move} (h : Path e host a moves b)
    (h' : Path e host b others c) : Path e host a (moves ++ others) c := by
  induction h with
  | stay => exact h'
  | move first _ ih => exact .move first (ih h')

theorem Reaches.refl (c : Config) : Reaches e host c c := ⟨[], .stay c⟩

theorem Reaches.trans (h : Reaches e host a b) (h' : Reaches e host b c) : Reaches e host a c := by
  obtain ⟨moves, h⟩ := h
  obtain ⟨others, h'⟩ := h'
  exact ⟨moves ++ others, h.append h'⟩

/-- **There is only one way to go**: whatever lies on a path leads to where the path can go no
further. -/
theorem Path.reaches_last {moves : List Move} (h : Path e host a moves b) (hlast : Reaches e host a c)
    (hc : c.next e host = none) : Reaches e host b c := by
  induction h with
  | stay => exact hlast
  | move first _ ih =>
      obtain ⟨others, hlast⟩ := hlast
      cases hlast with
      | stay =>
          rw [first] at hc
          cases hc
      | move first' others' =>
          rw [first] at first'
          cases first'
          exact ih ⟨_, others'⟩

/-- The first task makes its move, and the rest of the way is known. -/
theorem Reaches.head {task : Task} {rest : List Task} {s : State}
    (h : Reaches e host (task.move e host rest s).2 c) :
    Reaches e host ⟨.ok (task :: rest), s⟩ c := by
  obtain ⟨moves, h⟩ := h
  exact ⟨_ :: moves, .move rfl h⟩

end Reaches

/-! ## 4. What the parts change -/

theorem Run.bind_of_ok {α β : Type} {x : Run α} {f : α → Run β} {s s' : State} {a : α}
    (h : x s = .ok a s') : (x >>= f) s = f a s' := by
  show EStateM.bind x f s = _
  unfold EStateM.bind
  rw [h]

theorem Run.bind_of_error {α β : Type} {x : Run α} {f : α → Run β} {s s' : State} {halt : Halt}
    (h : x s = .error halt s') : (x >>= f) s = .error halt s' := by
  show EStateM.bind x f s = _
  unfold EStateM.bind
  rw [h]

theorem windowLength_cases (frame : Frame) (s : State) :
    windowLength frame s = .ok (s.stack.height - frame.base) s ∨
      windowLength frame s = .error .stuck s := by
  show (if frame.base ≤ s.stack.height then _ else _ : Run Nat) s = .ok _ s ∨
    (if frame.base ≤ s.stack.height then _ else _ : Run Nat) s = .error .stuck s
  split
  · exact .inl rfl
  · exact .inr rfl

theorem pop_cases (n : Nat) (s : State) :
    pop n s = .ok (s.stack.top n) { s with stack := s.stack.drop n } ∨
      pop n s = .error .stuck s := by
  show (if n ≤ s.stack.height then _ else _ : Run (List Word)) s = .ok _ _ ∨
    (if n ≤ s.stack.height then _ else _ : Run (List Word)) s = .error .stuck s
  split
  · exact .inl rfl
  · exact .inr rfl

/-- Whether it ends well or not, the run leaves a state with a property. -/
def Ends {α : Type} (P : State → Prop) : EStateM.Result Halt State α → Prop
  | .ok _ s => P s
  | .error _ s => P s

/-- **What an operation that invokes nothing changes**: the stack, within a limit, and the trace by
at most one record, which shows no more words than there were. -/
structure Adjusts (limit : Nat) (s s' : State) : Prop where
  height : s'.stack.height ≤ limit
  steps : s'.steps = s.steps
  iterations : s'.iterations = s.iterations
  trace : s'.trace = s.trace ∨
    ∃ r : Record, r.words.length ≤ s.stack.height ∧ s'.trace = s.trace.push (.record r)

theorem Stack.height_push (s : Stack) (w : Word) : (s.push w).height = s.height + 1 := by
  rw [Stack.height_eq, Stack.height_eq, Stack.words_push, List.length_append]
  rfl

theorem Stack.height_drop (s : Stack) (n : Nat) : (s.drop n).height = s.height - n := by
  rw [Stack.height_eq, Stack.words_drop, List.length_take, ← Stack.height_eq]
  exact Nat.min_eq_left (Nat.sub_le _ _)

section Adjusts

variable {limit : Nat} {s : State}

theorem Adjusts.of_stack {stack : Stack} (h : stack.height ≤ limit) :
    Adjusts limit s { s with stack := stack } :=
  ⟨h, rfl, rfl, .inl rfl⟩

theorem Adjusts.refl (h : s.stack.height ≤ limit) : Adjusts limit s s := .of_stack h

/-- Words put on `stack`, which is what has become of the stack so far. -/
theorem push_ends {stack : Stack} (h : stack.height + 1 ≤ limit) (w : Word) :
    Ends (Adjusts limit s) (push w { s with stack := stack }) := by
  have hheight : (stack.push w).height ≤ limit := by
    rw [Stack.height_push]
    exact h
  exact Adjusts.of_stack hheight

theorem pushRead_ends {stack : Stack} (h : stack.height + 1 ≤ limit)
    (read : Except HostFault Word) :
    Ends (Adjusts limit s) (pushRead read { s with stack := stack }) := by
  cases read with
  | ok w => exact push_ends h w
  | error f => exact .of_stack (Nat.le_of_succ_le h)

/-- The words that are taken off do not matter for what is changed, only their number does. -/
theorem pop_ends (h : s.stack.height ≤ limit) {n : Nat} {f : List Word → Run Unit}
    (hf : ∀ words, Ends (Adjusts limit s) (f words { s with stack := s.stack.drop n })) :
    Ends (Adjusts limit s) ((pop n >>= f) s) := by
  rcases pop_cases n s with hpop | hpop
  · rw [Run.bind_of_ok hpop]
    exact hf _
  · rw [Run.bind_of_error hpop]
    exact .refl h

theorem readMemory_ends {e : Expression} (h : s.stack.height + 1 ≤ limit) (frame : Frame)
    (position : Nat) (place : MemoryOperand) :
    Ends (Adjusts limit s) (readMemory e frame position place s) := by
  have hle : s.stack.height ≤ limit := Nat.le_of_succ_le h
  unfold readMemory
  cases place.region with
  | constant =>
      dsimp only
      cases e.constants[place.offset.val]? with
      | some w => exact push_ends h w
      | none => exact .refl hle
  | stack =>
      dsimp only
      rcases windowLength_cases frame s with hlength | hlength
      · rw [Run.bind_of_ok hlength]
        show Ends _ ((if place.offset.val < s.stack.height - frame.base then _ else _ : Run Unit) s)
        split
        · cases s.stack.get? (frame.base + place.offset.val) with
          | some w => exact push_ends h w
          | none => exact .refl hle
        · exact .refl hle
      · rw [Run.bind_of_error hlength]
        exact .refl hle

theorem debug_ends {e : Expression} (h : s.stack.height ≤ limit) (frame : Frame)
    (mode : DebugMode) : Ends (Adjusts limit s) (debug e frame mode s) := by
  cases mode with
  | stack =>
      show Ends _ ((if frame.base ≤ s.stack.height then _ else _ : Run Unit) s)
      split
      · refine ⟨h, rfl, rfl, .inr ⟨.stack (s.stack.window frame.base), ?_, rfl⟩⟩
        show (s.stack.window frame.base).length ≤ s.stack.height
        rw [Stack.window_eq, List.length_drop, Stack.height_eq]
        exact Nat.sub_le _ _
      · exact .refl h
  | state =>
      refine ⟨h, rfl, rfl, .inr ⟨.state frame.source e.constants s.stack.words, ?_, rfl⟩⟩
      exact Nat.le_of_eq (Stack.height_eq _).symm

/-- **An operation that invokes nothing keeps the stack within a limit that its effect keeps to.** -/
theorem execute_ends {e : Expression} {host : Host} {nested : Frame → Run Unit} {frame : Frame}
    {position : Nat} {op : Operation} (htask : taskOf? frame op = none)
    (h : s.stack.height ≤ limit)
    (hroom : s.stack.height - op.effect.inputs + op.effect.outputs ≤ limit) :
    Ends (Adjusts limit s) (execute e host nested frame position op s) := by
  obtain ⟨opcode, operand⟩ := op
  cases opcode with
  | readMemory => exact readMemory_ends hroom frame position _
  | call => cases htask
  | loopN => cases htask
  | doWhile => cases htask
  | debug =>
      unfold execute
      dsimp only
      cases Operation.debugMode? ⟨.debug, operand⟩ with
      | some mode => exact debug_ends h frame mode
      | none => exact .refl h
  | context => exact pushRead_ends hroom _
  | scalar value => exact pushRead_ends hroom _
  | balanceOf =>
      refine pop_ends (n := 2) h fun words => ?_
      have hstack : (s.stack.drop 2).height + 1 ≤ limit := by
        rw [Stack.height_drop]
        exact hroom
      split
      · exact pushRead_ends hstack _
      · exact .of_stack (Nat.le_of_succ_le hstack)
  | totalSupply =>
      refine pop_ends (n := 1) h fun words => ?_
      have hstack : (s.stack.drop 1).height + 1 ≤ limit := by
        rw [Stack.height_drop]
        exact hroom
      split
      · exact pushRead_ends hstack _
      · exact .of_stack (Nat.le_of_succ_le hstack)
  | apply f =>
      refine pop_ends h fun words => ?_
      have hstack : (s.stack.drop (Operation.effect ⟨.apply f, operand⟩).inputs).height + 1 ≤
          limit := by
        rw [Operation.effect_apply_outputs] at hroom
        rw [Stack.height_drop]
        exact hroom
      rcases f.apply words with _ | fault | w
      · exact .of_stack (Nat.le_of_succ_le hstack)
      · exact .of_stack (Nat.le_of_succ_le hstack)
      · exact push_ends hstack w
  | ensure =>
      refine pop_ends h fun words => ?_
      have hstack : (s.stack.drop operand.toNat).height ≤ limit := by
        rw [Stack.height_drop]
        exact hroom
      cases words.findIdx? (!·.truthy) with
      | none => exact .of_stack hstack
      | some i => exact .of_stack hstack

end Adjusts

/-! ## 5. What a move changes -/

/-- How the checks of an operation end. -/
inductive Approved (frame : Frame) (position : Nat) (op : Operation) (s : State) :
    EStateM.Result Halt State Unit → Prop where
  | passed (window : Nat) (steps : s.steps < maxSteps)
      (inputs : op.effect.inputs ≤ s.stack.height)
      (room : op.effect.inputs < op.effect.outputs →
        s.stack.height - op.effect.inputs + op.effect.outputs ≤ maxHeight) :
      Approved frame position op s (.ok ()
        { s with steps := s.steps + 1, trace := s.trace.push (.step frame position op window) })
  | exhausted (halt : Halt) : Approved frame position op s (.error halt s)
  | refused (halt : Halt) (steps : s.steps < maxSteps) :
      Approved frame position op s (.error halt { s with steps := s.steps + 1 })

theorem approve_cases (frame : Frame) (position : Nat) (op : Operation) (s : State) :
    Approved frame position op s (approve frame position op s) := by
  unfold approve
  by_cases hsteps : s.steps < maxSteps
  · have hcount : countStep s = .ok () { s with steps := s.steps + 1 } := by
      show (if s.steps < maxSteps then _ else _ : Run Unit) s = _
      rw [if_pos hsteps]
      rfl
    rw [Run.bind_of_ok hcount]
    rcases windowLength_cases frame { s with steps := s.steps + 1 } with hlength | hlength
    · rw [Run.bind_of_ok hlength]
      split
      · exact .refused _ hsteps
      · show Approved frame position op s ((if op.effect.inputs < op.effect.outputs ∧
          maxHeight < s.stack.height - op.effect.inputs + op.effect.outputs then _ else _ :
            Run Unit) _)
        split
        · exact .refused _ hsteps
        · rename_i henough hroom
          refine .passed _ hsteps ?_ fun hgrows => Nat.not_lt.1 fun hlt => hroom ⟨hgrows, hlt⟩
          exact Nat.le_trans (Nat.not_lt.1 henough) (Nat.sub_le _ _)
    · rw [Run.bind_of_error hlength]
      exact .refused _ hsteps
  · have hcount : countStep s = .error (.fault .stepBudgetExceeded) s := by
      show (if s.steps < maxSteps then _ else _ : Run Unit) s = _
      rw [if_neg hsteps]
      rfl
    rw [Run.bind_of_error hcount]
    exact .exhausted _

/-- How the test of a `do-while` ends. -/
inductive Tested (s : State) : EStateM.Result Halt State Bool → Prop where
  | holds (iterations : s.iterations < maxIterations) :
      Tested s (.ok true
        { s with stack := s.stack.drop 1, iterations := s.iterations + 1 })
  | fails : Tested s (.ok false { s with stack := s.stack.drop 1 })
  | missing : Tested s (.error .stuck s)
  | refused (halt : Halt) : Tested s (.error halt { s with stack := s.stack.drop 1 })

theorem testCondition_cases (s : State) : Tested s (testCondition s) := by
  unfold testCondition popCondition
  rw [bind_assoc]
  rcases pop_cases 1 s with hpop | hpop
  · rw [Run.bind_of_ok hpop]
    rcases s.stack.top 1 with _ | ⟨w, _ | ⟨w', words⟩⟩
    · exact .refused _
    · cases hw : w.truthy with
      | false =>
          show Tested s ((if w.truthy = true then _ else _ : Run Bool) _)
          rw [if_neg (by rw [hw]; exact Bool.false_ne_true)]
          exact .fails
      | true =>
          show Tested s ((if w.truthy = true then _ else _ : Run Bool) _)
          rw [if_pos hw]
          by_cases hcap : s.iterations < maxIterations
          · have hcount : countIteration { s with stack := s.stack.drop 1 } = .ok ()
                { s with stack := s.stack.drop 1, iterations := s.iterations + 1 } := by
              show (if s.iterations < maxIterations then _ else _ : Run Unit) _ = _
              rw [if_pos hcap]
              rfl
            rw [Run.bind_of_ok hcount]
            exact .holds hcap
          · have hcount : countIteration { s with stack := s.stack.drop 1 } =
                .error (.fault .iterationCapExceeded) { s with stack := s.stack.drop 1 } := by
              show (if s.iterations < maxIterations then _ else _ : Run Unit) _ = _
              rw [if_neg hcap]
              rfl
            rw [Run.bind_of_error hcount]
            exact .refused _
    · exact .refused _
  · rw [Run.bind_of_error hpop]
    exact .missing

/-- An invocation begins only above the deepest frames, and one level deeper; the state stays. -/
theorem invite_cases (caller : Frame) (i : Invocation) (s : State) :
    (∃ callee : Frame, caller.depth < maxDepth ∧ callee.depth = caller.depth + 1 ∧
      invite caller i s = .ok [.enter callee, .settle callee i.outputs] s) ∨
    ∃ halt, invite caller i s = .error halt s := by
  show (∃ callee : Frame, _ ∧ _ ∧
      (if i.inputs ≤ s.stack.height then _ else _ : Run (List Task)) s = _) ∨
    ∃ halt, (if i.inputs ≤ s.stack.height then _ else _ : Run (List Task)) s = .error halt s
  split
  · by_cases hdepth : caller.depth < maxDepth
    · rw [if_pos hdepth]
      exact .inl ⟨_, hdepth, rfl, rfl⟩
    · rw [if_neg hdepth]
      exact .inr ⟨_, rfl⟩
  · exact .inr ⟨_, rfl⟩

theorem closeFrame_cases (callee : Frame) (outputs : Nat) (s : State) :
    closeFrame callee outputs s = .ok [] s ∨ ∃ halt, closeFrame callee outputs s = .error halt s := by
  unfold closeFrame
  rcases windowLength_cases callee s with hlength | hlength
  · rw [Run.bind_of_ok hlength]
    split
    · exact .inl rfl
    · exact .inr ⟨_, rfl⟩
  · rw [Run.bind_of_error hlength]
    exact .inr ⟨_, rfl⟩

theorem openFrame_cases (e : Expression) (frame : Frame) (s : State) :
    (∃ code, openFrame e frame s =
      .ok [.code frame 0 code] { s with trace := s.trace.push (.enter frame) }) ∨
    ∃ halt, openFrame e frame s = .error halt { s with trace := s.trace.push (.enter frame) } := by
  have hemit : emit (.enter frame) s =
      .ok () { s with trace := s.trace.push (.enter frame) } := rfl
  unfold openFrame
  rw [Run.bind_of_ok hemit]
  cases e.code[frame.source]? with
  | some code => exact .inl ⟨code, rfl⟩
  | none => exact .inr ⟨_, rfl⟩

/-- **What a move changes of the state.** The stack and the counters do not pass their limits; a
move that dispatches or iterates is counted; and only a move that dispatches lets a record out, at
most one. -/
structure Progress (m : Move) (s s' : State) : Prop where
  height : s'.stack.height ≤ max s.stack.height maxHeight
  steps : s.steps + [m].count .dispatch ≤ s'.steps
  steps_le : s'.steps ≤ max s.steps maxSteps
  iterations : s.iterations + [m].count .iterate ≤ s'.iterations
  iterations_le : s'.iterations ≤ max s.iterations maxIterations
  recorded : ∃ new : List Record, records s'.trace.toList = records s.trace.toList ++ new ∧
    new.length ≤ [m].count .dispatch ∧ ∀ r ∈ new, r.words.length ≤ s.stack.height

theorem records_push (trace : Array Event) (event : Event) :
    records (trace.push event).toList = records trace.toList ++ records [event] := by
  rw [Array.toList_push, records_append]

section Progress

variable {s s' : State}

/-- A move that lets no record out. -/
theorem Progress.quiet {m : Move} (height : s'.stack.height ≤ s.stack.height)
    (steps : s.steps + [m].count .dispatch ≤ s'.steps) (steps_le : s'.steps ≤ max s.steps maxSteps)
    (iterations : s.iterations + [m].count .iterate ≤ s'.iterations)
    (iterations_le : s'.iterations ≤ max s.iterations maxIterations)
    (trace : records s'.trace.toList = records s.trace.toList) : Progress m s s' :=
  ⟨Nat.le_trans height (Nat.le_max_left _ _), steps, steps_le, iterations, iterations_le,
    [], by rw [trace, List.append_nil], Nat.zero_le _, fun _ h => absurd h List.not_mem_nil⟩

theorem Progress.of_stack {stack : Stack} (h : stack.height ≤ s.stack.height) :
    Progress .other s { s with stack := stack } :=
  .quiet h (Nat.le_refl _) (Nat.le_max_left _ _) (Nat.le_refl _) (Nat.le_max_left _ _) rfl

theorem Progress.refl (s : State) : Progress .other s s := .of_stack (Nat.le_refl _)

theorem height_drop_le (s : State) (n : Nat) : (s.stack.drop n).height ≤ s.stack.height := by
  rw [Stack.height_drop]
  exact Nat.sub_le _ _

theorem Progress.enter (s : State) (frame : Frame) :
    Progress (.enter frame) s { s with trace := s.trace.push (.enter frame) } := by
  refine .quiet (Nat.le_refl _) (Nat.le_refl _) (Nat.le_max_left _ _) (Nat.le_refl _)
    (Nat.le_max_left _ _) ?_
  show records (s.trace.push (.enter frame)).toList = records s.trace.toList
  rw [records_push]
  exact List.append_nil _

/-- A dispatched operation that invokes nothing has room for what it puts on the stack, because its
checks have passed. -/
theorem operate_ends {e : Expression} {host : Host} {frame : Frame} {position : Nat}
    {op : Operation} (hinputs : op.effect.inputs ≤ s.stack.height)
    (hroom : op.effect.inputs < op.effect.outputs →
      s.stack.height - op.effect.inputs + op.effect.outputs ≤ maxHeight) :
    Ends (Adjusts (max s.stack.height maxHeight) s) (operate e host frame position op s) := by
  have h : s.stack.height ≤ max s.stack.height maxHeight := Nat.le_max_left _ _
  unfold operate
  cases htask : taskOf? frame op with
  | some task => exact .refl h
  | none =>
      have heffect : s.stack.height - op.effect.inputs + op.effect.outputs ≤
          max s.stack.height maxHeight := by
        by_cases hgrows : op.effect.inputs < op.effect.outputs
        · exact Nat.le_trans (hroom hgrows) (Nat.le_max_right _ _)
        · omega
      have hends : Ends (Adjusts (max s.stack.height maxHeight) s)
          (execute e host (fun _ => stuck) frame position op s) := execute_ends htask h heffect
      dsimp only
      cases hx : execute e host (fun _ => stuck) frame position op s with
      | ok a s' =>
          rw [hx] at hends
          rw [Run.bind_of_ok hx]
          exact hends
      | error halt s' =>
          rw [hx] at hends
          rw [Run.bind_of_error hx]
          exact hends

theorem Config.state_resume {P : State → Prop} {rest : List Task}
    {r : EStateM.Result Halt State (List Task)} (h : Ends P r) : P (Config.resume rest r).state := by
  cases r <;> exact h

/-- The beginning of an invocation leaves the state as it is. -/
theorem state_resume_invite (caller : Frame) (i : Invocation) (rest : List Task) (s : State) :
    (Config.resume rest (invite caller i s)).state = s := by
  rcases invite_cases caller i s with ⟨callee, -, -, h⟩ | ⟨halt, h⟩ <;> rw [h] <;> rfl

/-- Counting and checking an operation, and then running it. -/
theorem Progress.dispatch (frame : Frame) (position : Nat) (op : Operation) (window : Nat)
    (hsteps : s.steps < maxSteps)
    (h : Adjusts (max s.stack.height maxHeight)
      { s with steps := s.steps + 1, trace := s.trace.push (.step frame position op window) } s') :
    Progress .dispatch s s' := by
  have hstep : records (s.trace.push (.step frame position op window)).toList =
      records s.trace.toList := by
    rw [records_push]
    exact List.append_nil _
  have hcounted : s'.steps = s.steps + 1 := h.steps
  have hkept : s'.iterations = s.iterations := h.iterations
  refine ⟨h.height, Nat.le_of_eq hcounted.symm, ?_, Nat.le_of_eq hkept.symm, ?_, ?_⟩
  · omega
  · omega
  · rcases h.trace with htrace | ⟨r, hr, htrace⟩
    · refine ⟨[], ?_, Nat.zero_le _, fun _ h => absurd h List.not_mem_nil⟩
      rw [htrace, hstep, List.append_nil]
    · refine ⟨[r], ?_, Nat.le_refl _, fun r' hr' => ?_⟩
      · rw [htrace, records_push, hstep]
        rfl
      · rw [List.mem_singleton.1 hr']
        exact hr

/-- **Every move is progress.** -/
theorem Task.move_progress (e : Expression) (host : Host) (rest : List Task) (s : State)
    (task : Task) : Progress (task.move e host rest s).1 s (task.move e host rest s).2.state := by
  cases task with
  | enter frame =>
      refine Config.state_resume (P := Progress (.enter frame) s) ?_
      rcases openFrame_cases e frame s with ⟨code, h⟩ | ⟨halt, h⟩ <;> rw [h] <;> exact .enter s frame
  | code frame p ops =>
      cases ops with
      | nil => exact .refl s
      | cons op ops =>
          have happrove := approve_cases frame p op s
          dsimp only [Task.move]
          generalize approve frame p op s = r at happrove ⊢
          cases happrove with
          | passed window hsteps hinputs hroom =>
              refine Progress.dispatch frame p op window hsteps ?_
              exact Config.state_resume (operate_ends hinputs hroom)
          | exhausted halt => exact .refl s
          | refused halt hsteps =>
              refine .quiet (Nat.le_refl _) (Nat.le_succ _) ?_ (Nat.le_refl _)
                (Nat.le_max_left _ _) rfl
              exact Nat.le_trans hsteps (Nat.le_max_right _ _)
  | rounds caller i left =>
      cases left with
      | zero => exact .refl s
      | succ n =>
          show Progress .other s (Config.resume _ (invite caller i s)).state
          rw [state_resume_invite]
          exact .refl s
  | test caller i =>
      have htest := testCondition_cases s
      dsimp only [Task.move]
      generalize testCondition s = r at htest ⊢
      cases htest with
      | holds hcap =>
          dsimp only
          rw [state_resume_invite]
          refine .quiet (height_drop_le s 1) (Nat.le_refl _) (Nat.le_max_left _ _) (Nat.le_refl _)
            ?_ rfl
          exact Nat.le_trans hcap (Nat.le_max_right _ _)
      | fails => exact .of_stack (height_drop_le s 1)
      | missing => exact .refl s
      | refused halt => exact .of_stack (height_drop_le s 1)
  | settle callee outputs =>
      refine Config.state_resume (P := Progress .other s) ?_
      rcases closeFrame_cases callee outputs s with h | ⟨halt, h⟩ <;> rw [h] <;> exact .refl s

end Progress

theorem Config.next_progress {e : Expression} {host : Host} {c c' : Config} {m : Move}
    (h : c.next e host = some (m, c')) : Progress m c.state c'.state := by
  obtain ⟨tasks, s⟩ := c
  rcases tasks with halt | _ | ⟨task, rest⟩
  · cases h
  · cases h
  · have hmove : task.move e host rest s = (m, c') := Option.some.inj h
    have hprogress := task.move_progress e host rest s
    rw [hmove] at hprogress
    exact hprogress

theorem Reaches.iterations_le {e : Expression} {host : Host} {c c' : Config}
    (h : Reaches e host c c') : c.state.iterations ≤ c'.state.iterations := by
  obtain ⟨moves, h⟩ := h
  induction h with
  | stay => exact Nat.le_refl _
  | move first _ ih =>
      exact Nat.le_trans (Nat.le_of_add_right_le (Config.next_progress first).iterations) ih

/-! ## 6. The run, played move by move -/

/-- The configuration after a run; `rest` is what is left to do after it. -/
def Config.after (rest : List Task) : EStateM.Result Halt State Unit → Config
  | .ok () s => ⟨.ok rest, s⟩
  | .error halt s => ⟨.error halt, s⟩

/-- **The tasks do what the run does**, whatever is left to do after them. -/
def Plays (e : Expression) (host : Host) (tasks : List Task) (x : Run Unit) : Prop :=
  ∀ rest s, Reaches e host ⟨.ok (tasks ++ rest), s⟩ (.after rest (x s))

section Plays

variable {e : Expression} {host : Host}

/-- What is reached by a run, and what is reached from there by the run after it. -/
theorem Reaches.bind {c : Config} {x y : Run Unit} {mid rest : List Task} {s : State}
    (hx : Reaches e host c (.after mid (x s)))
    (hy : ∀ s', x s = .ok () s' → Reaches e host ⟨.ok mid, s'⟩ (.after rest (y s'))) :
    Reaches e host c (.after rest ((x >>= fun _ => y) s)) := by
  cases h : x s with
  | ok a s' =>
      rw [h] at hx
      rw [Run.bind_of_ok h]
      exact hx.trans (hy s' h)
  | error halt s' =>
      rw [h] at hx
      rw [Run.bind_of_error h]
      exact hx

theorem Plays.bind {tasks more : List Task} {x y : Run Unit} (hx : Plays e host tasks x)
    (hy : Plays e host more y) : Plays e host (tasks ++ more) (x >>= fun _ => y) := by
  intro rest s
  rw [List.append_assoc]
  exact (hx (more ++ rest) s).bind fun s' _ => hy rest s'

/-! ### Invocations -/

/-- Frames of a depth are played by the task that enters them; beyond the deepest there is none. -/
structure PlaysNested (e : Expression) (host : Host) (nested : Frame → Run Unit) (depth : Nat) :
    Prop where
  plays : depth < maxDepth → ∀ frame : Frame, frame.depth = depth + 1 →
    Plays e host [.enter frame] (nested frame)
  exceeds : ¬ depth < maxDepth → ∀ frame : Frame, nested frame = fail .callDepthExceeded

theorem closeFrame_plays (callee : Frame) (outputs : Nat) :
    Plays e host [.settle callee outputs] (do
      let left ← windowLength callee
      if left = outputs then return
      else fail (.stackMismatch callee.source outputs left)) := by
  intro rest s
  refine Reaches.head ?_
  show Reaches e host (.resume rest (closeFrame callee outputs s)) _
  unfold closeFrame
  cases h : windowLength callee s with
  | ok left s' =>
      rw [Run.bind_of_ok h, Run.bind_of_ok h]
      split
      · exact .refl _
      · exact .refl _
  | error halt s' =>
      rw [Run.bind_of_error h, Run.bind_of_error h]
      exact .refl _

/-- **An invitation is followed by the invocation.** -/
theorem invite_reaches {nested : Frame → Run Unit} {caller : Frame}
    (hnested : PlaysNested e host nested caller.depth) (i : Invocation) (rest : List Task)
    (s : State) :
    Reaches e host (.resume rest (invite caller i s))
      (.after rest (invoke nested caller i.source i.inputs i.outputs s)) := by
  show Reaches e host (.resume rest ((if i.inputs ≤ s.stack.height then _ else _ : Run _) s))
    (.after rest ((if i.inputs ≤ s.stack.height then _ else _ : Run Unit) s))
  split
  · by_cases hdepth : caller.depth < maxDepth
    · rw [if_pos hdepth]
      exact ((hnested.plays hdepth _ rfl).bind (closeFrame_plays _ _)) rest s
    · rw [if_neg hdepth, hnested.exceeds hdepth]
      exact .refl _
  · exact .refl _

theorem rounds_plays {nested : Frame → Run Unit} {caller : Frame}
    (hnested : PlaysNested e host nested caller.depth) (i : Invocation) :
    ∀ n, Plays e host [.rounds caller i n]
      (times n (invoke nested caller i.source i.inputs i.outputs))
  | 0 => fun _ _ => .head (.refl _)
  | n + 1 => fun rest s =>
      .head ((invite_reaches hnested i (.rounds caller i n :: rest) s).bind fun s' _ =>
        rounds_plays hnested i n rest s')

/-! ### The `do-while` -/

theorem whileTrue_succ (body : Run Unit) (left : Nat) :
    whileTrue body (left + 1) = (do
      let holds ← testCondition
      if holds then do
        body
        whileTrue body left
      else return) := by
  rw [whileTrue, testCondition, bind_assoc]
  refine congrArg _ (funext fun condition => ?_)
  cases condition with
  | false => rfl
  | true => simp only [if_true, bind_assoc, pure_bind]

/-- At the cap the test of a true condition fails as the loop does. -/
theorem whileTrue_zero {s : State} (hcap : maxIterations ≤ s.iterations) (body next : Run Unit) :
    whileTrue body 0 s = (do
      let holds ← testCondition
      if holds then next else return : Run Unit) s := by
  rw [whileTrue, testCondition, popCondition, bind_assoc, bind_assoc, bind_assoc]
  rcases pop_cases 1 s with hpop | hpop
  · rw [Run.bind_of_ok hpop, Run.bind_of_ok hpop]
    rcases s.stack.top 1 with _ | ⟨w, _ | ⟨w', words⟩⟩
    · rfl
    · have hcount : countIteration { s with stack := s.stack.drop 1 } =
          .error (.fault .iterationCapExceeded) { s with stack := s.stack.drop 1 } := by
        show (if s.iterations < maxIterations then _ else _ : Run Unit) _ = _
        rw [if_neg (Nat.not_lt.2 hcap)]
        rfl
      dsimp only
      rw [pure_bind, pure_bind]
      cases w.truthy with
      | false => rfl
      | true =>
          simp only [if_true, bind_assoc]
          rw [Run.bind_of_error hcount]
          rfl
    · rfl
  · rw [Run.bind_of_error hpop, Run.bind_of_error hpop]

/-- **The loop of a `do-while`.** The run counts down from the iterations that the cap still allows,
the moves ask the counter; the two agree because no move turns the counter back. -/
theorem test_reaches {nested : Frame → Run Unit} {caller : Frame}
    (hnested : PlaysNested e host nested caller.depth) (i : Invocation) (rest : List Task) :
    ∀ (left : Nat) (s : State), maxIterations ≤ s.iterations + left →
      Reaches e host ⟨.ok (.test caller i :: rest), s⟩
        (.after rest (whileTrue (invoke nested caller i.source i.inputs i.outputs) left s)) := by
  intro left
  induction left with
  | zero =>
      intro s hleft
      -- the counter is at the cap: a condition that holds is an error, and there is no body to run
      rw [whileTrue_zero hleft _ (pure ())]
      refine .head ?_
      have htest := testCondition_cases s
      dsimp only [Task.move]
      cases hr : testCondition s with
      | error halt s' =>
          rw [Run.bind_of_error hr]
          exact .refl _
      | ok holds s' =>
          rw [Run.bind_of_ok hr]
          rw [hr] at htest
          cases htest with
          | fails => exact .refl _
          | holds hcap => exact absurd hcap (Nat.not_lt.2 hleft)
  | succ left ih =>
      intro s hleft
      rw [whileTrue_succ]
      refine .head ?_
      have htest := testCondition_cases s
      dsimp only [Task.move]
      cases hr : testCondition s with
      | error halt s' =>
          rw [Run.bind_of_error hr]
          exact .refl _
      | ok holds s' =>
          rw [Run.bind_of_ok hr]
          rw [hr] at htest
          cases htest with
          | fails => exact .refl _
          | holds hcap =>
              have hbody := invite_reaches hnested i (.test caller i :: rest)
                { s with stack := s.stack.drop 1, iterations := s.iterations + 1 }
              refine hbody.bind fun s' hs' => ih s' ?_
              -- loops inside the body iterate, too, so what is left now may be less than `left`
              rw [hs'] at hbody
              have hgrown := hbody.iterations_le
              rw [state_resume_invite] at hgrown
              have hcounted : s.iterations + 1 ≤ s'.iterations := hgrown
              omega

/-! ### Operations and code -/

/-- A step is its checks and then the operation. -/
theorem step_eq_approve (nested : Frame → Run Unit) (frame : Frame) (position : Nat)
    (op : Operation) :
    step e host nested frame position op =
      (do
        approve frame position op
        execute e host nested frame position op) := by
  unfold step approve
  rw [bind_assoc]
  refine congrArg _ (funext fun _ => ?_)
  rw [bind_assoc]
  refine congrArg _ (funext fun available => ?_)
  dsimp only
  split
  · rfl
  · rw [bind_assoc]
    refine congrArg _ (funext fun s => ?_)
    split <;> rfl

theorem operate_reaches {nested : Frame → Run Unit} {frame : Frame}
    (hnested : PlaysNested e host nested frame.depth) (position : Nat) (op : Operation)
    (rest : List Task) (s : State) :
    Reaches e host (.resume rest (operate e host frame position op s))
      (.after rest (execute e host nested frame position op s)) := by
  -- an operation that invokes nothing is done in one move
  have hquiet : ∀ x : Run Unit,
      Config.resume rest ((do x; return [] : Run (List Task)) s) = .after rest (x s) := by
    intro x
    cases hx : x s with
    | ok a s' =>
        rw [Run.bind_of_ok hx]
        rfl
    | error halt s' =>
        rw [Run.bind_of_error hx]
        rfl
  obtain ⟨opcode, operand⟩ := op
  cases opcode with
  | call =>
      have hcall := rounds_plays hnested (⟨(CallOperand.ofBits operand).source,
        (CallOperand.ofBits operand).inputs, (CallOperand.ofBits operand).outputs⟩) 1 rest s
      rw [times, times, bind_pure_unit] at hcall
      exact hcall
  | loopN =>
      exact rounds_plays hnested (⟨(LoopOperand.ofBits operand).source,
        (LoopOperand.ofBits operand).inputs, (LoopOperand.ofBits operand).outputs⟩) _ rest s
  | doWhile =>
      exact test_reaches hnested (⟨(DoWhileOperand.ofBits operand).source,
        (DoWhileOperand.ofBits operand).inputs, (DoWhileOperand.ofBits operand).inputs + 1⟩) rest
        (maxIterations - s.iterations) s (by omega)
  | _ => exact (hquiet _).symm ▸ Reaches.refl _

theorem code_plays {nested : Frame → Run Unit} {frame : Frame}
    (hnested : PlaysNested e host nested frame.depth) :
    ∀ (ops : List Operation) (p : Nat),
      Plays e host [.code frame p ops] (runCode (step e host nested frame) p ops)
  | [], _ => fun _ _ => .head (.refl _)
  | op :: ops, p => by
      intro rest s
      rw [runCode, step_eq_approve, bind_assoc]
      refine .head ?_
      dsimp only [Task.move]
      cases hr : approve frame p op s with
      | error halt s' =>
          rw [Run.bind_of_error hr]
          exact .refl _
      | ok a s' =>
          rw [Run.bind_of_ok hr]
          exact (operate_reaches hnested p op (.code frame (p + 1) ops :: rest) s').bind
            fun s'' _ => code_plays hnested ops (p + 1) rest s''

/-! ### Frames -/

theorem runFrameWith_plays {nested : Frame → Run Unit} {frame : Frame}
    (hnested : PlaysNested e host nested frame.depth) :
    Plays e host [.enter frame] (runFrameWith e host nested frame) := by
  intro rest s
  have hemit : emit (.enter frame) s =
      .ok () { s with trace := s.trace.push (.enter frame) } := rfl
  refine .head ?_
  dsimp only [Task.move]
  unfold openFrame runFrameWith
  rw [Run.bind_of_ok hemit, Run.bind_of_ok hemit]
  cases e.code[frame.source]? with
  | some code => exact code_plays hnested code 0 rest _
  | none => exact .refl _

theorem runFrame_plays : ∀ (levels : Nat) (frame : Frame), frame.depth + levels = maxDepth →
    Plays e host [.enter frame] (runFrame e host levels frame)
  | 0, frame, hdepth => by
      refine runFrameWith_plays ⟨fun hlt => ?_, fun _ _ => rfl⟩
      omega
  | levels + 1, frame, hdepth => by
      refine runFrameWith_plays ⟨fun _ callee hcallee => ?_, fun hlt => ?_⟩
      · exact runFrame_plays levels callee (by omega)
      · omega

end Plays

theorem Config.next_of_outcome? {e : Expression} {host : Host} {entry : Nat} {c : Config}
    {o : Outcome} (h : c.outcome? entry = some o) : c.next e host = none := by
  obtain ⟨tasks, s⟩ := c
  rcases tasks with halt | _ | ⟨task, rest⟩
  · rfl
  · rfl
  · cases h

/-- **The moves from the start of an evaluation lead to its outcome.** -/
theorem start_reaches_eval (e : Expression) (host : Host) {entry : Nat}
    (hentry : entry < e.code.length) {inputs : List Word} (hinputs : inputs.length ≤ maxHeight) :
    ∃ c, Reaches e host (.start entry inputs) c ∧
      c.outcome? entry = some (eval e host entry inputs) := by
  have hplays : Plays e host [.enter ⟨entry, 0, 0⟩] (runFrame e host maxDepth ⟨entry, 0, 0⟩) :=
    runFrame_plays maxDepth ⟨entry, 0, 0⟩ (Nat.zero_add _)
  refine ⟨_, hplays [] { stack := Stack.ofWords inputs, trace := #[] }, ?_⟩
  unfold eval evaluate
  rw [if_neg (Nat.not_le.2 hentry), if_neg (Nat.not_lt.2 hinputs)]
  show Config.outcome? entry (.after [] (runFrame e host maxDepth ⟨entry, 0, 0⟩ _)) =
    some (Outcome.ofRun entry (runFrame e host maxDepth ⟨entry, 0, 0⟩ _))
  generalize runFrame e host maxDepth ⟨entry, 0, 0⟩
    ({ stack := Stack.ofWords inputs, trace := #[] } : State) = r
  cases r <;> rfl

end WordMachine.Machine
