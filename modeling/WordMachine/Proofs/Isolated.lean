import WordMachine.Machine.Run
import WordMachine.Proofs.Loading

/-!
# Frames with a stack of their own

A second machine in which no two frames share a word. A frame owns a list of words, its window;
an invocation hands the topmost words of that list to the callee, runs the callee on them alone,
and puts what the callee leaves in their place. Of the words of its callers a frame knows the
number, `Frame.base`, and needs it for the height limit only.

* `Local` is what a frame owns: its window and the two counters that it is handed and hands back;
* `Answer` is what a run gives: the events it lets out, and its end;
* `execute`, `step`, `runCode` and `runFrame` are the machine.

A `debug<state>` record of this machine shows the words of the frame that lets it out; every
caller adds its own words below (`Answer.under`).

That this machine and the one on the shared stack do the same is the subject of
`WordMachine.Proofs.Isolation`. Here it is shown that in a well-formed expression it never gets
stuck, that every operation keeps to its stack effect, and that the counters only grow
(`execute_meets`, `runFrame_meets`).
-/

namespace WordMachine

/-- The record as seen from below: a record of the whole stack shows the words below too. -/
def Record.under (below : List Word) : Record → Record
  | .stack words => .stack words
  | .state source constants words => .state source constants (below ++ words)

namespace Machine

/-- The event as seen from below. -/
def Event.under (below : List Word) : Event → Event
  | .record r => .record (r.under below)
  | event => event

theorem Event.under_under (below rest : List Word) (event : Event) :
    (event.under rest).under below = event.under (below ++ rest) := by
  cases event with
  | record r =>
      cases r with
      | stack words => rfl
      | state source constants words =>
          show Event.record (.state source constants (below ++ (rest ++ words))) =
            .record (.state source constants (below ++ rest ++ words))
          rw [List.append_assoc]
  | _ => rfl

namespace Isolated

/-! ## 1. What a frame owns -/

/-- The counters that all frames of an evaluation share. -/
structure Counters where
  steps : Nat := 0
  iterations : Nat := 0
deriving DecidableEq

/-- Neither counter is larger. -/
instance : LE Counters := ⟨fun c c' => c.steps ≤ c'.steps ∧ c.iterations ≤ c'.iterations⟩

theorem Counters.le_refl (c : Counters) : c ≤ c := ⟨Nat.le_refl _, Nat.le_refl _⟩

theorem Counters.le_trans {a b c : Counters} (h : a ≤ b) (h' : b ≤ c) : a ≤ c :=
  ⟨Nat.le_trans h.1 h'.1, Nat.le_trans h.2 h'.2⟩

/-- One more instruction. -/
def Counters.step (c : Counters) : Counters := { c with steps := c.steps + 1 }

/-- One more body of a `do-while`. -/
def Counters.iterate (c : Counters) : Counters := { c with iterations := c.iterations + 1 }

theorem Counters.le_step (c : Counters) : c ≤ c.step := ⟨Nat.le_succ _, Nat.le_refl _⟩

theorem Counters.le_iterate (c : Counters) : c ≤ c.iterate := ⟨Nat.le_refl _, Nat.le_succ _⟩

/-- The words of a frame, the deepest first, and the counters. -/
structure Local where
  window : List Word
  counters : Counters
deriving DecidableEq

/-- What a run gives: the events it lets out, and the frame it leaves or the reason it stopped. -/
structure Answer where
  events : List Event
  result : Except Halt Local

namespace Answer

/-- A run that is over. -/
def done (l : Local) : Answer := ⟨[], .ok l⟩

/-- A run that stops. -/
def halt (h : Halt) : Answer := ⟨[], .error h⟩

/-- Stops with a fault. -/
def fail (f : Fault) : Answer := halt (.fault f)

/-- Goes on where a run has ended. -/
def andThen (a : Answer) (next : Local → Answer) : Answer :=
  match a.result with
  | .ok l => ⟨a.events ++ (next l).events, (next l).result⟩
  | .error _ => a

/-- Lets an event out first. -/
def after (event : Event) (a : Answer) : Answer := ⟨event :: a.events, a.result⟩

/-- The run as seen from below. -/
def under (below : List Word) (a : Answer) : Answer := ⟨a.events.map (·.under below), a.result⟩

end Answer

namespace Local

/-- Puts a word on top. -/
def push (l : Local) (w : Word) : Local := { l with window := l.window ++ [w] }

/-- Takes off the `n` topmost words and goes on with them, the deepest first, and with what is
left. -/
def popThen (l : Local) (n : Nat) (next : List Word → Local → Answer) : Answer :=
  if n ≤ l.window.length then
    next (l.window.drop (l.window.length - n))
      { l with window := l.window.take (l.window.length - n) }
  else .halt .stuck

/-- Takes off a condition and goes on with it. -/
def popCondition (l : Local) (next : Bool → Local → Answer) : Answer :=
  l.popThen 1 fun words rest =>
    match words with
    | [w] => next w.truthy rest
    | _ => .halt .stuck

/-- Puts the word of a host read on top. -/
def pushRead (l : Local) : Except HostFault Word → Answer
  | .ok w => .done (l.push w)
  | .error f => .fail (.host f)

/-- Counts one more instruction, within the budget. -/
def countStep (l : Local) : Answer :=
  if l.counters.steps < maxSteps then
    .done ⟨l.window, l.counters.step⟩
  else .fail .stepBudgetExceeded

/-- Counts one more body of a `do-while`, within the cap. -/
def countIteration (l : Local) : Answer :=
  if l.counters.iterations < maxIterations then
    .done ⟨l.window, l.counters.iterate⟩
  else .fail .iterationCapExceeded

end Local

/-! ## 2. Control flow -/

/-- How a callee runs on what it is handed. -/
abbrev Callee := Frame → Local → Answer

/-- Runs a source on the `inputs` topmost words alone and requires that it leaves `outputs` words,
which are put in their place. -/
def invoke (callee : Callee) (caller : Frame) (source inputs outputs : Nat) (l : Local) : Answer :=
  l.popThen inputs fun arguments rest =>
    ((callee ⟨source, caller.base + rest.window.length, caller.depth + 1⟩
        ⟨arguments, rest.counters⟩).under rest.window).andThen fun left =>
      if left.window.length = outputs then .done ⟨rest.window ++ left.window, left.counters⟩
      else .fail (.stackMismatch source outputs left.window.length)

/-- Repeats a body. -/
def times : Nat → (Local → Answer) → Local → Answer
  | 0, _, l => .done l
  | n + 1, body, l => (body l).andThen (times n body)

/-- Runs a body as long as the condition on top is true. The bound is only there for the recursion:
no loop gets through more bodies than the cap allows. -/
def whileTrue (body : Local → Answer) : (bound : Nat) → Local → Answer
  | 0, _ => .fail .iterationCapExceeded
  | bound + 1, l =>
    l.popCondition fun condition rest =>
      if condition then
        rest.countIteration.andThen fun l => (body l).andThen (whileTrue body bound)
      else .done rest

/-- The `do-while` of a body. -/
def doWhile (body : Local → Answer) : Local → Answer := whileTrue body (maxIterations + 1)

/-! ## 3. One instruction -/

/-- Reads a word of the pool or of the frame's own words and puts it on top. -/
def readMemory (constants : List Word) (frame : Frame) (position : Nat) (place : MemoryOperand)
    (l : Local) : Answer :=
  match place.region with
  | .constant =>
    match constants[place.offset.val]? with
    | some w => .done (l.push w)
    | none => .halt .stuck
  | .stack =>
    match l.window[place.offset.val]? with
    | some w => .done (l.push w)
    | none =>
      .fail (.stackUnderflow frame.source position (place.offset.val + 1) l.window.length)

/-- Replaces the `inputs` topmost words by a function of them. -/
def applyFunction (f : WordFunction) (inputs : Nat) (l : Local) : Answer :=
  l.popThen inputs fun words rest =>
    match f.apply words with
    | some (.ok w) => .done (rest.push w)
    | some (.error fault) => .fail (.arithmetic f fault)
    | none => .halt .stuck

/-- Takes off the `inputs` topmost words, all of which have to be true. -/
def ensureAll (frame : Frame) (position inputs : Nat) (l : Local) : Answer :=
  l.popThen inputs fun words rest =>
    match words.findIdx? (!·.truthy) with
    | none => .done rest
    | some i => .fail (.ensureFailed frame.source position i)

/-- Lets a debug record of the frame's own words out. -/
def debug (constants : List Word) (frame : Frame) (l : Local) : DebugMode → Answer
  | .stack => .after (.record (.stack l.window)) (.done l)
  | .state => .after (.record (.state frame.source constants l.window)) (.done l)

/-- What an operation does once its checks have passed. -/
def execute (constants : List Word) (host : Host) (callee : Callee) (frame : Frame)
    (position : Nat) (op : Operation) (l : Local) : Answer :=
  match op.opcode with
  | .readMemory => readMemory constants frame position (MemoryOperand.ofBits op.operand) l
  | .call =>
    let c := CallOperand.ofBits op.operand
    invoke callee frame c.source c.inputs c.outputs l
  | .loopN =>
    let o := LoopOperand.ofBits op.operand
    times o.count (invoke callee frame o.source o.inputs o.outputs) l
  | .doWhile =>
    let d := DoWhileOperand.ofBits op.operand
    doWhile (invoke callee frame d.source d.inputs (d.inputs + 1)) l
  | .debug =>
    match op.debugMode? with
    | some mode => debug constants frame l mode
    | none => .halt .stuck
  | .context => l.pushRead (host.context (ContextCell.ofBits op.operand))
  | .scalar s => l.pushRead (host.scalar s)
  | .balanceOf =>
    l.popThen 2 fun words rest =>
      match words with
      | [token, account] => rest.pushRead (host.balanceOf token account)
      | _ => .halt .stuck
  | .totalSupply =>
    l.popThen 1 fun words rest =>
      match words with
      | [token] => rest.pushRead (host.totalSupply token)
      | _ => .halt .stuck
  | .apply f => applyFunction f op.effect.inputs l
  | .ensure => ensureAll frame position op.effect.inputs l

/-- What an operation does once its step is counted: the checks of its effect come first. -/
def perform (constants : List Word) (host : Host) (callee : Callee) (frame : Frame)
    (position : Nat) (op : Operation) (l : Local) : Answer :=
  if l.window.length < op.effect.inputs then
    .fail (.stackUnderflow frame.source position op.effect.inputs l.window.length)
  else if op.effect.inputs < op.effect.outputs ∧
      maxHeight < frame.base + l.window.length - op.effect.inputs + op.effect.outputs then
    .fail (.stackOverflow frame.source position)
  else
    .after (.step frame position op l.window.length)
      (execute constants host callee frame position op l)

/-- Counts an operation, checks it and runs it. -/
def step (constants : List Word) (host : Host) (callee : Callee) (frame : Frame)
    (position : Nat) (op : Operation) (l : Local) : Answer :=
  l.countStep.andThen (perform constants host callee frame position op)

/-! ## 4. Frames -/

/-- Runs code from a position on. -/
def runCode (step : Nat → Operation → Local → Answer) :
    (position : Nat) → List Operation → Local → Answer
  | _, [], l => .done l
  | p, op :: rest, l => (step p op l).andThen (runCode step (p + 1) rest)

/-- Runs a frame whose callees run as given. -/
def runFrameWith (e : Expression) (host : Host) (callee : Callee) : Callee := fun frame l =>
  .after (.enter frame) <|
    match e.code[frame.source]? with
    | some code => runCode (step e.constants host callee frame) 0 code l
    | none => .halt .stuck

/-- Runs a frame below which `levels` more may nest. -/
def runFrame (e : Expression) (host : Host) : (levels : Nat) → Callee
  | 0 => runFrameWith e host fun _ _ => .fail .callDepthExceeded
  | levels + 1 => runFrameWith e host (runFrame e host levels)

/-! ## 5. Words on top -/

/-- **Where there are `n` words, the `n` topmost can be taken off.** -/
theorem Local.popThen_of_le {l : Local} {n : Nat} (h : n ≤ l.window.length) :
    ∃ words rest, words.length = n ∧ l.window = rest ++ words ∧
      ∀ next, l.popThen n next = next words ⟨rest, l.counters⟩ := by
  refine ⟨l.window.drop (l.window.length - n), l.window.take (l.window.length - n), ?_, ?_, ?_⟩
  · rw [List.length_drop]
    omega
  · rw [List.take_append_drop]
  · intro next
    unfold Local.popThen
    rw [if_pos h]

theorem Local.popThen_append {rest words : List Word} {c : Counters} {n : Nat}
    (h : words.length = n) (next : List Word → Local → Answer) :
    (⟨rest ++ words, c⟩ : Local).popThen n next = next words ⟨rest, c⟩ := by
  subst h
  have hle : words.length ≤ (rest ++ words).length := by
    rw [List.length_append]
    exact Nat.le_add_left _ _
  have hrest : (rest ++ words).length - words.length = rest.length := by
    rw [List.length_append, Nat.add_sub_cancel]
  unfold Local.popThen
  dsimp only
  rw [if_pos hle, hrest, List.drop_left, List.take_left]

theorem Local.popCondition_append {rest : List Word} {w : Word} {c : Counters}
    (next : Bool → Local → Answer) :
    (⟨rest ++ [w], c⟩ : Local).popCondition next = next w.truthy ⟨rest, c⟩ :=
  popThen_append rfl _

theorem Local.length_push (l : Local) (w : Word) :
    (l.push w).window.length = l.window.length + 1 := by
  simp [Local.push]

/-! ## 6. Runs that do not get stuck -/

/-- **What a run has to meet**: it does not get stuck, and what it leaves satisfies `P`. -/
def Answer.Meets (P : Local → Prop) (a : Answer) : Prop :=
  match a.result with
  | .ok l => P l
  | .error h => h ≠ .stuck

section Meets

variable {P Q : Local → Prop} {a : Answer}

theorem meets_done {l : Local} (h : P l) : (Answer.done l).Meets P := h

theorem meets_fail (f : Fault) : (Answer.fail f).Meets P := by
  intro h
  cases h

theorem Answer.Meets.after (event : Event) (h : a.Meets P) : (a.after event).Meets P := h

theorem Answer.Meets.under (below : List Word) (h : a.Meets P) : (a.under below).Meets P := h

theorem Answer.Meets.andThen {next : Local → Answer} (h : a.Meets P)
    (hnext : ∀ l, P l → (next l).Meets Q) : (a.andThen next).Meets Q := by
  obtain ⟨events, result⟩ := a
  cases result with
  | ok l => exact hnext l h
  | error halt => exact h

theorem Answer.Meets.of_ok (h : a.Meets P) {l : Local} (hl : a.result = .ok l) : P l := by
  unfold Answer.Meets at h
  rw [hl] at h
  exact h

theorem Answer.Meets.ne_stuck (h : a.Meets P) : a.result ≠ .error .stuck := by
  intro hstuck
  unfold Answer.Meets at h
  rw [hstuck] at h
  exact h rfl

theorem Answer.Meets.mono (h : a.Meets P) (hPQ : ∀ l, P l → Q l) : a.Meets Q := by
  obtain ⟨events, result⟩ := a
  cases result with
  | ok l => exact hPQ l h
  | error halt => exact h

theorem popThen_meets {l : Local} {n : Nat} {next : List Word → Local → Answer}
    (h : n ≤ l.window.length) (hnext : ∀ words rest, words.length = n → l.window = rest ++ words →
      (next words ⟨rest, l.counters⟩).Meets P) : (l.popThen n next).Meets P := by
  obtain ⟨words, rest, hlength, hwindow, hpop⟩ := Local.popThen_of_le h
  rw [hpop]
  exact hnext words rest hlength hwindow

theorem popCondition_meets {l : Local} {next : Bool → Local → Answer} (h : 1 ≤ l.window.length)
    (hnext : ∀ condition rest, rest.length + 1 = l.window.length →
      (next condition ⟨rest, l.counters⟩).Meets P) : (l.popCondition next).Meets P := by
  refine popThen_meets h fun words rest hlength hwindow => ?_
  obtain ⟨w, rfl⟩ := List.length_eq_one_iff.1 hlength
  refine hnext w.truthy rest ?_
  rw [hwindow, List.length_append, List.length_singleton]

end Meets

/-- `n` words are left, and from `c` the counters have only grown. -/
structure Leaves (c : Counters) (n : Nat) (l : Local) : Prop where
  length : l.window.length = n
  counters : c ≤ l.counters

theorem pushRead_meets {l : Local} {n : Nat} (h : l.window.length + 1 = n)
    (read : Except HostFault Word) : (l.pushRead read).Meets (Leaves l.counters n) := by
  cases read with
  | ok w => exact ⟨(l.length_push w).trans h, Counters.le_refl _⟩
  | error f => exact meets_fail _

theorem countStep_meets (l : Local) :
    l.countStep.Meets fun l' => l' = ⟨l.window, l.counters.step⟩ := by
  unfold Local.countStep
  split
  · exact meets_done rfl
  · exact meets_fail _

theorem countIteration_meets (l : Local) :
    l.countIteration.Meets fun l' => l' = ⟨l.window, l.counters.iterate⟩ := by
  unfold Local.countIteration
  split
  · exact meets_done rfl
  · exact meets_fail _

/-! ## 7. Control flow keeps to the declared numbers of words -/

/-- A callee that does not get stuck in the given source, and does not turn the counters back. -/
def Callee.Sound (callee : Callee) (source : Nat) : Prop :=
  ∀ base depth l, (callee ⟨source, base, depth⟩ l).Meets fun l' => l.counters ≤ l'.counters

theorem invoke_meets {callee : Callee} {source : Nat} (hcallee : callee.Sound source)
    (caller : Frame) {inputs outputs n : Nat} {l : Local} (h : inputs ≤ l.window.length)
    (hn : l.window.length - inputs + outputs = n) :
    (invoke callee caller source inputs outputs l).Meets (Leaves l.counters n) := by
  refine popThen_meets h fun arguments rest hlength hwindow => ?_
  refine ((hcallee _ _ _).under rest).andThen fun left hleft => ?_
  split
  · rename_i hout
    refine meets_done ⟨?_, hleft⟩
    rw [hwindow, List.length_append] at hn
    show (rest ++ left.window).length = n
    rw [List.length_append, hout]
    omega
  · exact meets_fail _

theorem times_meets {body : Local → Answer} {n : Nat}
    (hbody : ∀ l, l.window.length = n → (body l).Meets (Leaves l.counters n)) :
    ∀ (k : Nat) (l : Local), l.window.length = n → (times k body l).Meets (Leaves l.counters n)
  | 0, _, h => meets_done ⟨h, Counters.le_refl _⟩
  | k + 1, l, h => (hbody l h).andThen fun l' h' =>
      (times_meets hbody k l' h'.length).mono fun _ h'' =>
        ⟨h''.length, Counters.le_trans h'.counters h''.counters⟩

theorem whileTrue_meets {body : Local → Answer} {n : Nat}
    (hbody : ∀ l, l.window.length = n → (body l).Meets (Leaves l.counters (n + 1))) :
    ∀ (bound : Nat) (l : Local), l.window.length = n + 1 →
      (whileTrue body bound l).Meets (Leaves l.counters n)
  | 0, _, _ => meets_fail _
  | bound + 1, l, h => by
      have hone : 1 ≤ l.window.length := by omega
      refine popCondition_meets hone fun condition rest hlength => ?_
      have hrest : rest.length = n := by omega
      split
      · refine (countIteration_meets _).andThen fun l₁ h₁ => ?_
        subst h₁
        refine (hbody _ hrest).andThen fun l₂ h₂ => ?_
        exact (whileTrue_meets hbody bound l₂ h₂.length).mono fun l₃ h₃ =>
          ⟨h₃.length, Counters.le_trans (Counters.le_iterate _)
            (Counters.le_trans h₂.counters h₃.counters)⟩
      · exact meets_done ⟨hrest, Counters.le_refl _⟩

/-- The rounds of a `loop-n` leave as many words as they find. -/
theorem loop_meets {callee : Callee} {source : Nat} (hcallee : callee.Sound source)
    (caller : Frame) (count : Nat) {inputs : Nat} {l : Local} (h : inputs ≤ l.window.length) :
    (times count (invoke callee caller source inputs inputs) l).Meets
      (Leaves l.counters l.window.length) := by
  refine times_meets (fun l' h' => ?_) count l rfl
  have hinputs : inputs ≤ l'.window.length := by
    rw [h']
    exact h
  exact invoke_meets hcallee caller hinputs ((Nat.sub_add_cancel hinputs).trans h')

/-- A `do-while` takes its condition away and leaves the words below it as many as they were. -/
theorem doWhile_meets {callee : Callee} {source : Nat} (hcallee : callee.Sound source)
    (caller : Frame) {inputs n : Nat} {l : Local} (h : inputs ≤ n) (hn : l.window.length = n + 1) :
    (doWhile (invoke callee caller source inputs (inputs + 1)) l).Meets (Leaves l.counters n) := by
  refine whileTrue_meets (fun l' h' => ?_) _ l hn
  have hinputs : inputs ≤ l'.window.length := by
    rw [h']
    exact h
  exact invoke_meets hcallee caller hinputs (by omega)

/-! ## 8. Operations keep to their effect -/

theorem applyFunction_meets {f : WordFunction} {inputs n : Nat} {l : Local}
    (h : inputs ≤ l.window.length) (hn : l.window.length - inputs + 1 = n)
    (hvalue : ∀ words : List Word, words.length = inputs → f.apply words ≠ none) :
    (applyFunction f inputs l).Meets (Leaves l.counters n) := by
  refine popThen_meets h fun words rest hlength hwindow => ?_
  have hrest : rest.length + 1 = n := by
    rw [hwindow, List.length_append] at hn
    omega
  split
  · rename_i w _
    exact ⟨(Local.length_push ⟨rest, l.counters⟩ w).trans hrest, Counters.le_refl _⟩
  · exact meets_fail _
  · rename_i hnone
    exact absurd hnone (hvalue words hlength)

theorem ensureAll_meets (frame : Frame) (position : Nat) {inputs n : Nat} {l : Local}
    (h : inputs ≤ l.window.length) (hn : l.window.length - inputs = n) :
    (ensureAll frame position inputs l).Meets (Leaves l.counters n) := by
  refine popThen_meets h fun words rest hlength hwindow => ?_
  split
  · refine meets_done ⟨?_, Counters.le_refl _⟩
    rw [hwindow, List.length_append] at hn
    show rest.length = n
    omega
  · exact meets_fail _

theorem readMemory_meets {constants : List Word} (frame : Frame) (position : Nat)
    {place : MemoryOperand} (h : place.region = .constant → place.offset.val < constants.length)
    (l : Local) :
    (readMemory constants frame position place l).Meets
      (Leaves l.counters (l.window.length + 1)) := by
  unfold readMemory
  split
  · rename_i hregion
    rw [List.getElem?_eq_getElem (h hregion)]
    exact ⟨l.length_push _, Counters.le_refl _⟩
  · split
    · exact ⟨l.length_push _, Counters.le_refl _⟩
    · exact meets_fail _

/-- **A well-formed operation that finds its inputs keeps to its stack effect.** -/
theorem execute_meets {constants : List Word} (host : Host) {callee : Callee} (frame : Frame)
    (position : Nat) {sources : Nat} {op : Operation} (hop : op.WellFormed constants.length sources)
    (hcallee : ∀ i, op.invocation? = some i → callee.Sound i.source) {l : Local}
    (h : op.effect.inputs ≤ l.window.length) :
    (execute constants host callee frame position op l).Meets
      (Leaves l.counters (l.window.length - op.effect.inputs + op.effect.outputs)) := by
  obtain ⟨opcode, operand⟩ := op
  cases opcode with
  | readMemory => exact readMemory_meets frame position hop l
  | call => exact invoke_meets (hcallee _ rfl) frame h rfl
  | loopN =>
      have hbalanced : (LoopOperand.ofBits operand).inputs = (LoopOperand.ofBits operand).outputs :=
        hop.1
      have hlength : l.window.length - (LoopOperand.ofBits operand).inputs.val +
          (LoopOperand.ofBits operand).outputs.val = l.window.length := by
        rw [← hbalanced]
        exact Nat.sub_add_cancel h
      show Answer.Meets (Leaves l.counters (l.window.length -
          (LoopOperand.ofBits operand).inputs.val + (LoopOperand.ofBits operand).outputs.val))
        (times (LoopOperand.ofBits operand).count (invoke callee frame
          (LoopOperand.ofBits operand).source (LoopOperand.ofBits operand).inputs
          (LoopOperand.ofBits operand).outputs) l)
      rw [hlength, ← hbalanced]
      exact loop_meets (hcallee _ rfl) frame _ h
  | doWhile =>
      have hinputs : (DoWhileOperand.ofBits operand).inputs.val + 1 ≤ l.window.length := h
      refine doWhile_meets (hcallee _ rfl) frame ?_ ?_
      · exact Nat.le_add_left _ _
      · show l.window.length = l.window.length - ((DoWhileOperand.ofBits operand).inputs.val + 1) +
          (DoWhileOperand.ofBits operand).inputs.val + 1
        omega
  | debug =>
      obtain ⟨mode, hmode⟩ := hop.exists_debugMode
      unfold execute
      rw [hmode]
      cases mode <;> exact ⟨rfl, Counters.le_refl _⟩
  | context => exact pushRead_meets rfl _
  | scalar s => exact pushRead_meets rfl _
  | balanceOf =>
      refine popThen_meets h fun words rest hlength hwindow => ?_
      obtain ⟨token, account, rfl⟩ := List.length_eq_two.1 hlength
      refine pushRead_meets ?_ _
      show rest.length + 1 = l.window.length - 2 + 1
      simp [hwindow]
  | totalSupply =>
      refine popThen_meets h fun words rest hlength hwindow => ?_
      obtain ⟨token, rfl⟩ := List.length_eq_one_iff.1 hlength
      refine pushRead_meets ?_ _
      show rest.length + 1 = l.window.length - 1 + 1
      simp [hwindow]
  | apply f =>
      refine applyFunction_meets h ?_ fun words hlength => hop.apply_ne_none hlength
      rw [Operation.effect_apply_outputs]
  | ensure => exact ensureAll_meets frame position h rfl

/-- A step that ends well found its inputs and kept to its effect. -/
theorem step_meets {constants : List Word} (host : Host) {callee : Callee} (frame : Frame)
    (position : Nat) {sources : Nat} {op : Operation} (hop : op.WellFormed constants.length sources)
    (hcallee : ∀ i, op.invocation? = some i → callee.Sound i.source) (l : Local) :
    (step constants host callee frame position op l).Meets fun l' =>
      op.effect.inputs ≤ l.window.length ∧
        Leaves l.counters (l.window.length - op.effect.inputs + op.effect.outputs) l' := by
  refine (countStep_meets l).andThen fun l' hl' => ?_
  subst hl'
  unfold perform
  split
  · exact meets_fail _
  · rename_i henough
    have hinputs : op.effect.inputs ≤ l.window.length := Nat.not_lt.1 henough
    split
    · exact meets_fail _
    · refine Answer.Meets.after _ ?_
      have hexecute := execute_meets (l := ⟨l.window, l.counters.step⟩) host frame position hop
        hcallee hinputs
      exact hexecute.mono fun _ h =>
        ⟨hinputs, h.length, Counters.le_trans (Counters.le_step _) h.counters⟩

/-! ## 9. Frames -/

theorem runCode_meets {step : Nat → Operation → Local → Answer} {code : List Operation}
    (hstep : ∀ op ∈ code, ∀ p l, (step p op l).Meets fun l' => l.counters ≤ l'.counters) :
    ∀ (p : Nat) (l : Local), (runCode step p code l).Meets fun l' => l.counters ≤ l'.counters := by
  induction code with
  | nil => exact fun _ l => meets_done (Counters.le_refl l.counters)
  | cons op rest ih =>
      intro p l
      refine (hstep op List.mem_cons_self p l).andThen fun l' h' => ?_
      exact (ih (fun op' h => hstep op' (List.mem_cons_of_mem _ h)) (p + 1) l').mono
        fun _ h => Counters.le_trans h' h

theorem runFrameWith_meets {e : Expression} (he : e.WellFormed) (host : Host) {callee : Callee}
    (hcallee : ∀ k, k < e.code.length → callee.Sound k) {k : Nat} (hk : k < e.code.length) :
    (runFrameWith e host callee).Sound k := by
  intro base depth l
  refine Answer.Meets.after _ ?_
  rw [List.getElem?_eq_getElem hk]
  refine runCode_meets (fun op hop p l' => ?_) 0 l
  have hw := he _ (List.getElem_mem hk) op hop
  exact (step_meets host _ p hw (fun i hi => hcallee _ (hw.source_lt hi)) l').mono
    fun _ h => h.2.counters

/-- **In a well-formed expression no run gets stuck**, and the counters only grow. -/
theorem runFrame_meets {e : Expression} (he : e.WellFormed) (host : Host) :
    ∀ (levels : Nat) {k : Nat}, k < e.code.length → (runFrame e host levels).Sound k
  | 0, _, hk => runFrameWith_meets he host (fun _ _ _ _ _ => meets_fail _) hk
  | levels + 1, _, hk =>
      runFrameWith_meets he host (fun _ hk' => runFrame_meets he host levels hk') hk

end Isolated

end Machine

end WordMachine
