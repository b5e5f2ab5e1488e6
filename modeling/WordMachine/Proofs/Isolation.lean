import WordMachine.Proofs.Isolated

/-!
# Frames on the shared stack are isolated

The machine keeps the words of all frames on one stack; only the base of a frame keeps it from the
words of its callers. Here it is shown that this is enough: a frame on the shared stack does step by
step what a frame with a stack of its own does (`WordMachine.Proofs.Isolated`).

* `Shows below s l`: above the words `below` the state `s` holds what the isolated frame `l` owns;
* `Agrees below before r a`: the run with result `r` ended as the isolated run `a` did, and let out
  the same events;
* `Follows below need x f`: wherever a frame owns at least `need` words, `x` agrees with `f`.

The proof goes through the machine from the inside out: words taken off and put on, control flow,
operations, code, frames (`runFrame_follows`). `eval_eq_outcome` says the same of a whole
evaluation; the theorems about evaluations start from it.
-/

namespace WordMachine.Machine

open Isolated (Counters Local Answer Callee)

/-! ## 1. States and isolated frames -/

/-- **Above the words `below`, the state holds what the isolated frame owns.** -/
structure Shows (below : List Word) (s : State) (l : Local) : Prop where
  words : s.stack.words = below ++ l.window
  steps : s.steps = l.counters.steps
  iterations : s.iterations = l.counters.iterations

/-- **The run ended as the isolated run did**, and its trace grew by the events of that run. -/
inductive Agrees (below : List Word) (before : List Event) :
    EStateM.Result Halt State Unit → Answer → Prop where
  | ok {s : State} {l : Local} {events : List Event} (shows : Shows below s l)
      (trace : s.trace.toList = before ++ events.map (·.under below)) :
      Agrees below before (.ok () s) ⟨events, .ok l⟩
  | error {halt : Halt} {s : State} {events : List Event}
      (trace : s.trace.toList = before ++ events.map (·.under below)) :
      Agrees below before (.error halt s) ⟨events, .error halt⟩

/-- Wherever an isolated frame owns at least `need` words, the run agrees with the isolated one. -/
def Follows (below : List Word) (need : Nat) (x : Run Unit) (f : Local → Answer) : Prop :=
  ∀ s l, Shows below s l → need ≤ l.window.length → Agrees below s.trace.toList (x s) (f l)

section Shows

variable {below : List Word} {s : State} {l : Local}

theorem Shows.height (h : Shows below s l) :
    s.stack.height = below.length + l.window.length := by
  rw [Stack.height_eq, h.words, List.length_append]

theorem Shows.emit (h : Shows below s l) (trace : Array Event) :
    Shows below { s with trace := trace } l :=
  ⟨h.words, h.steps, h.iterations⟩

theorem Shows.push (h : Shows below s l) (w : Word) :
    Shows below { s with stack := s.stack.push w } (l.push w) := by
  refine ⟨?_, h.steps, h.iterations⟩
  show (s.stack.push w).words = below ++ (l.window ++ [w])
  rw [Stack.words_push, h.words, List.append_assoc]

/-- What a frame hands to a callee lies above its other words. -/
theorem Shows.callee {rest arguments : List Word} {c : Counters}
    (h : Shows below s ⟨rest ++ arguments, c⟩) : Shows (below ++ rest) s ⟨arguments, c⟩ :=
  ⟨by rw [h.words, List.append_assoc], h.steps, h.iterations⟩

/-- What a callee leaves stands in the place of what it was handed. -/
theorem Shows.caller {rest left : List Word} {c : Counters}
    (h : Shows (below ++ rest) s ⟨left, c⟩) : Shows below s ⟨rest ++ left, c⟩ :=
  ⟨by rw [h.words, List.append_assoc], h.steps, h.iterations⟩

end Shows

section Agrees

variable {below : List Word} {before : List Event} {s : State} {l : Local}

theorem Agrees.done (h : Shows below s l) : Agrees below s.trace.toList (.ok () s) (.done l) :=
  .ok h (List.append_nil _).symm

theorem Agrees.push (h : Shows below s l) (w : Word) :
    Agrees below s.trace.toList (.ok () { s with stack := s.stack.push w }) (.done (l.push w)) :=
  .ok (h.push w) (List.append_nil _).symm

theorem Agrees.halt (h : Halt) : Agrees below s.trace.toList (.error h s) (.halt h) :=
  .error (List.append_nil _).symm

/-- Events that were let out before. -/
theorem Agrees.prepend {events : List Event} {r : EStateM.Result Halt State Unit} {a : Answer}
    (h : Agrees below (before ++ events.map (·.under below)) r a) :
    Agrees below before r ⟨events ++ a.events, a.result⟩ := by
  cases h with
  | ok shows trace =>
      refine .ok shows ?_
      rw [trace, List.map_append, List.append_assoc]
  | error trace =>
      refine .error ?_
      rw [trace, List.map_append, List.append_assoc]

theorem Agrees.after {event : Event} {r : EStateM.Result Halt State Unit} {a : Answer}
    (h : Agrees below (before ++ [event.under below]) r a) :
    Agrees below before r (a.after event) := by
  show Agrees below before r ⟨[event] ++ a.events, a.result⟩
  exact h.prepend

/-- **One run after another.** -/
theorem Agrees.bind {x : Run Unit} {next : Unit → Run Unit} {a : Answer} {f : Local → Answer}
    (h : Agrees below before (x s) a)
    (hnext : ∀ s' l, Shows below s' l → a.result = .ok l →
      Agrees below s'.trace.toList (next () s') (f l)) :
    Agrees below before ((x >>= next) s) (a.andThen f) := by
  show Agrees below before (EStateM.bind x next s) (a.andThen f)
  unfold EStateM.bind
  generalize x s = r at h ⊢
  cases h with
  | @ok s' l events shows trace =>
      have hf := hnext s' l shows rfl
      rw [trace] at hf
      exact hf.prepend
  | error trace => exact .error trace

/-- **What a callee does, and what its caller does next.** The events of the callee reach the
caller's trace with the caller's own words below. -/
theorem Agrees.bind_callee {rest : List Word} {x : Run Unit} {next : Unit → Run Unit} {a : Answer}
    {f : Local → Answer} (h : Agrees (below ++ rest) before (x s) a)
    (hnext : ∀ s' l, Shows (below ++ rest) s' l → Agrees below s'.trace.toList (next () s') (f l)) :
    Agrees below before ((x >>= next) s) ((a.under rest).andThen f) := by
  have hevents : ∀ events : List Event, (events.map (·.under rest)).map (·.under below) =
      events.map (·.under (below ++ rest)) := by
    intro events
    rw [List.map_map]
    exact List.map_congr_left fun event _ => event.under_under below rest
  show Agrees below before (EStateM.bind x next s) ((a.under rest).andThen f)
  unfold EStateM.bind
  generalize x s = r at h ⊢
  cases h with
  | @ok s' l events shows trace =>
      have hf := hnext s' l shows
      rw [trace, ← hevents] at hf
      exact hf.prepend
  | error trace =>
      rw [← hevents] at trace
      exact .error trace

end Agrees

/-! ## 2. Words taken off and put on -/

section Words

variable {below : List Word} {s : State} {l : Local}

/-- Taking words off the shared stack takes them off the frame's own. -/
theorem pop_shows {window words : List Word} {c : Counters}
    (h : Shows below s ⟨window ++ words, c⟩) :
    ∃ s', Run.pop words.length s = .ok words s' ∧ Shows below s' ⟨window, c⟩ ∧
      s'.trace = s.trace := by
  have hwords : s.stack.words = (below ++ window) ++ words := by
    rw [h.words, List.append_assoc]
  have hheight : s.stack.height - words.length = (below ++ window).length := by
    rw [Stack.height_eq, hwords, List.length_append, Nat.add_sub_cancel]
  have hle : words.length ≤ s.stack.height := by
    rw [Stack.height_eq, hwords, List.length_append]
    exact Nat.le_add_left _ _
  refine ⟨{ s with stack := s.stack.drop words.length }, ?_, ⟨?_, h.steps, h.iterations⟩, rfl⟩
  · show (if words.length ≤ s.stack.height then _ else _ : Run (List Word)) s = _
    rw [if_pos hle]
    show EStateM.Result.ok (s.stack.top words.length) _ = _
    rw [Stack.top_eq, hheight, hwords, List.drop_left]
  · show (s.stack.drop words.length).words = below ++ window
    rw [Stack.words_drop, hheight, hwords, List.take_left]

/-- **What follows once words are taken off.** -/
theorem pop_agrees (h : Shows below s l) {n : Nat} (hn : n ≤ l.window.length)
    {x : List Word → Run Unit} {next : List Word → Local → Answer}
    (hnext : ∀ words window s', words.length = n → l.window = window ++ words →
      Shows below s' ⟨window, l.counters⟩ →
        Agrees below s'.trace.toList (x words s') (next words ⟨window, l.counters⟩)) :
    Agrees below s.trace.toList ((Run.pop n >>= x) s) (l.popThen n next) := by
  obtain ⟨words, window, rfl, hwindow, hpop⟩ := Local.popThen_of_le hn
  have hs : Shows below s ⟨window ++ words, l.counters⟩ := by
    rw [← hwindow]
    exact h
  obtain ⟨s', hs', h', htrace⟩ := pop_shows hs
  show Agrees below s.trace.toList (EStateM.bind (Run.pop words.length) x s) _
  unfold EStateM.bind
  rw [hs', hpop, ← htrace]
  exact hnext words window s' rfl hwindow h'

theorem popCondition_agrees (h : Shows below s l) (hn : 1 ≤ l.window.length)
    {x : Bool → Run Unit} {next : Bool → Local → Answer}
    (hnext : ∀ condition window s', window.length + 1 = l.window.length →
      Shows below s' ⟨window, l.counters⟩ →
        Agrees below s'.trace.toList (x condition s') (next condition ⟨window, l.counters⟩)) :
    Agrees below s.trace.toList ((popCondition >>= x) s) (l.popCondition next) := by
  unfold popCondition
  rw [bind_assoc]
  refine pop_agrees h hn fun words window s' hlength hwindow h' => ?_
  obtain ⟨w, rfl⟩ := List.length_eq_one_iff.1 hlength
  refine hnext w.truthy window s' ?_ h'
  rw [hwindow, List.length_append, List.length_singleton]

/-- The window of a frame on the shared stack is the frame's own list. -/
theorem windowLength_shows (h : Shows below s l) {frame : Frame}
    (hbase : frame.base = below.length) :
    Run.windowLength frame s = .ok l.window.length s := by
  have hle : frame.base ≤ s.stack.height := by
    rw [h.height, hbase]
    exact Nat.le_add_right _ _
  show (if frame.base ≤ s.stack.height then _ else _ : Run Nat) s = _
  rw [if_pos hle]
  show EStateM.Result.ok (s.stack.height - frame.base) s = _
  rw [h.height, hbase, Nat.add_sub_cancel_left]

theorem pushRead_agrees (h : Shows below s l) (read : Except HostFault Word) :
    Agrees below s.trace.toList (Run.pushRead read s) (l.pushRead read) := by
  cases read with
  | ok w => exact .push h w
  | error f => exact .halt _

theorem countIteration_agrees (h : Shows below s l) :
    Agrees below s.trace.toList (Run.countIteration s) l.countIteration := by
  show Agrees below s.trace.toList ((if s.iterations < maxIterations then _ else _ : Run Unit) s) _
  unfold Local.countIteration
  rw [h.iterations]
  split
  · exact .ok ⟨h.words, h.steps, rfl⟩ (List.append_nil _).symm
  · exact .halt _

theorem countStep_agrees (h : Shows below s l) :
    Agrees below s.trace.toList (Run.countStep s) l.countStep := by
  show Agrees below s.trace.toList ((if s.steps < maxSteps then _ else _ : Run Unit) s) _
  unfold Local.countStep
  rw [h.steps]
  split
  · exact .ok ⟨h.words, rfl, h.iterations⟩ (List.append_nil _).symm
  · exact .halt _

end Words

/-! ## 3. Control flow -/

/-- Nested frames of a source, above whatever words, agree with an isolated callee. -/
def FollowsCallee (nested : Frame → Run Unit) (callee : Callee) (source : Nat) : Prop :=
  ∀ below depth, Follows below 0 (nested ⟨source, below.length, depth⟩)
    (callee ⟨source, below.length, depth⟩)

section Control

variable {below : List Word}

/-- **An invocation stays within the caller's own words**: it splits them where the isolated caller
splits them, and the callee's base is the height of the split. -/
theorem invoke_follows {nested : Frame → Run Unit} {callee : Callee} {source : Nat}
    (hnested : FollowsCallee nested callee source) {caller : Frame}
    (hbase : caller.base = below.length) (inputs outputs : Nat) :
    Follows below inputs (invoke nested caller source inputs outputs)
      (Isolated.invoke callee caller source inputs outputs) := by
  intro s l h hinputs
  obtain ⟨arguments, rest, hlength, hwindow, hpop⟩ := Local.popThen_of_le hinputs
  have hs : Shows (below ++ rest) s ⟨arguments, l.counters⟩ := by
    refine Shows.callee ?_
    rw [← hwindow]
    exact h
  have hle : inputs ≤ s.stack.height := by
    rw [h.height]
    omega
  have hsplit : s.stack.height - inputs = (below ++ rest).length := by
    rw [hs.height, hlength, Nat.add_sub_cancel]
  have hcallee : caller.base + rest.length = (below ++ rest).length := by
    rw [hbase, List.length_append]
  have hbody := hnested (below ++ rest) (caller.depth + 1) s _ hs (Nat.zero_le _)
  show Agrees below s.trace.toList ((if inputs ≤ s.stack.height then _ else _ : Run Unit) s) _
  rw [if_pos hle, hsplit]
  unfold Isolated.invoke
  rw [hpop]
  show Agrees below s.trace.toList _
    (Answer.andThen (Answer.under rest (callee ⟨source, caller.base + rest.length, _⟩ _)) _)
  rw [hcallee]
  refine hbody.bind_callee fun s' l' h' => ?_
  show Agrees below s'.trace.toList (EStateM.bind (Run.windowLength _) _ s') _
  unfold EStateM.bind
  rw [windowLength_shows h' rfl]
  show Agrees below s'.trace.toList ((if l'.window.length = outputs then _ else _ : Run Unit) s') _
  split
  · exact .done h'.caller
  · exact .halt _

theorem times_follows {body : Run Unit} {f : Local → Answer} {n : Nat}
    (hbody : Follows below n body f)
    (hf : ∀ l, n ≤ l.window.length → (f l).Meets fun l' => n ≤ l'.window.length) :
    ∀ k, Follows below n (Run.times k body) (Isolated.times k f)
  | 0 => fun _ _ h _ => .done h
  | k + 1 => fun s l h hn => (hbody s l h hn).bind fun s' l' h' hl' =>
      times_follows hbody hf k s' l' h' ((hf l hn).of_ok hl')

/-- **The loop of a `do-while`.** The machine counts down from the iterations that the cap still
allows, the isolated one from a bound that is never reached; both end at the cap because a body
does not turn the counter back. -/
theorem whileTrue_follows {body : Run Unit} {f : Local → Answer} {n : Nat}
    (hbody : Follows below n body f)
    (hf : ∀ l, n ≤ l.window.length → (f l).Meets fun l' =>
      n + 1 ≤ l'.window.length ∧ l.counters ≤ l'.counters) :
    ∀ (left bound : Nat) (s : State) (l : Local), Shows below s l → n + 1 ≤ l.window.length →
      maxIterations - l.counters.iterations ≤ left → left < bound →
      Agrees below s.trace.toList (whileTrue body left s) (Isolated.whileTrue f bound l) := by
  intro left
  induction left with
  | zero =>
      intro bound s l h hn hleft hbound
      obtain ⟨bound, rfl⟩ := Nat.exists_eq_succ_of_ne_zero (Nat.ne_of_gt hbound)
      have hone : 1 ≤ l.window.length := by omega
      have hcap : ¬ l.counters.iterations < maxIterations := by omega
      refine popCondition_agrees h hone fun condition window s' _ h' => ?_
      cases condition with
      | false => exact .done h'
      | true =>
          unfold Local.countIteration
          rw [if_neg hcap]
          exact .halt _
  | succ left ih =>
      intro bound s l h hn hleft hbound
      obtain ⟨bound, rfl⟩ := Nat.exists_eq_succ_of_ne_zero (Nat.ne_of_gt (Nat.zero_lt_of_lt hbound))
      have hone : 1 ≤ l.window.length := by omega
      refine popCondition_agrees h hone fun condition window s' hlength h' => ?_
      cases condition with
      | false => exact .done h'
      | true =>
          have hwindow : n ≤ window.length := by omega
          refine (countIteration_agrees h').bind fun s₁ l₁ h₁ hl₁ => ?_
          obtain rfl := (Isolated.countIteration_meets _).of_ok hl₁
          refine (hbody s₁ _ h₁ hwindow).bind fun s₂ l₂ h₂ hl₂ => ?_
          obtain ⟨hlength₂, hcounters₂⟩ := (hf _ hwindow).of_ok hl₂
          have hgrown : l.counters.iterations + 1 ≤ l₂.counters.iterations := hcounters₂.2
          exact ih bound s₂ l₂ h₂ hlength₂ (by omega) (Nat.lt_of_succ_lt_succ hbound)

theorem loop_follows {nested : Frame → Run Unit} {callee : Callee} {source : Nat}
    (hnested : FollowsCallee nested callee source) (hcallee : callee.Sound source) {caller : Frame}
    (hbase : caller.base = below.length) (count inputs : Nat) :
    Follows below inputs (Run.times count (invoke nested caller source inputs inputs))
      (Isolated.times count (Isolated.invoke callee caller source inputs inputs)) := by
  refine times_follows (invoke_follows hnested hbase inputs inputs) (fun l h => ?_) count
  refine (Isolated.invoke_meets hcallee caller h rfl).mono fun l' h' => ?_
  rw [h'.length]
  exact Nat.le_add_left _ _

theorem doWhile_follows {nested : Frame → Run Unit} {callee : Callee} {source : Nat}
    (hnested : FollowsCallee nested callee source) (hcallee : callee.Sound source) {caller : Frame}
    (hbase : caller.base = below.length) (inputs : Nat) :
    Follows below (inputs + 1) (doWhile (invoke nested caller source inputs (inputs + 1)))
      (Isolated.doWhile (Isolated.invoke callee caller source inputs (inputs + 1))) := by
  intro s l h hn
  refine whileTrue_follows (invoke_follows hnested hbase inputs (inputs + 1)) (fun l' hl' => ?_)
    (maxIterations - s.iterations) (maxIterations + 1) s l h hn ?_ ?_
  · refine (Isolated.invoke_meets hcallee caller hl' rfl).mono fun l'' h'' => ?_
    rw [h''.length]
    exact ⟨Nat.le_add_left _ _, h''.counters⟩
  · exact Nat.le_of_eq (by rw [h.iterations])
  · exact Nat.lt_succ_of_le (Nat.sub_le _ _)

end Control

/-! ## 4. Operations -/

section Operations

variable {below : List Word} {e : Expression}

theorem readMemory_follows {frame : Frame} (hbase : frame.base = below.length) (position : Nat)
    (place : MemoryOperand) :
    Follows below 0 (readMemory e frame position place)
      (Isolated.readMemory e.constants frame position place) := by
  intro s l h _
  unfold readMemory Isolated.readMemory
  cases place.region with
  | constant =>
      dsimp only
      cases e.constants[place.offset.val]? with
      | some w => exact .push h w
      | none => exact .halt _
  | stack =>
      show Agrees below s.trace.toList (EStateM.bind (Run.windowLength frame) _ s) _
      unfold EStateM.bind
      rw [windowLength_shows h hbase]
      show Agrees below s.trace.toList
        ((if place.offset.val < l.window.length then _ else _ : Run Unit) s) _
      have hget : s.stack.get? (frame.base + place.offset.val) = l.window[place.offset.val]? := by
        rw [Stack.get?_eq, h.words, hbase, List.getElem?_append_right (Nat.le_add_right _ _),
          Nat.add_sub_cancel_left]
      rw [hget]
      split
      · rename_i hlt
        rw [List.getElem?_eq_getElem hlt]
        exact .push h _
      · rename_i hge
        rw [List.getElem?_eq_none (Nat.not_lt.1 hge)]
        exact .halt _

theorem applyFunction_follows (f : WordFunction) (inputs : Nat) :
    Follows below inputs (applyFunction f inputs) (Isolated.applyFunction f inputs) := by
  intro s l h hn
  refine pop_agrees h hn fun words window s' _ _ h' => ?_
  rcases f.apply words with _ | fault | w
  · exact .halt _
  · exact .halt _
  · exact .push h' w

theorem ensureAll_follows (frame : Frame) (position inputs : Nat) :
    Follows below inputs (ensureAll frame position inputs)
      (Isolated.ensureAll frame position inputs) := by
  intro s l h hn
  refine pop_agrees h hn fun words window s' _ _ h' => ?_
  cases words.findIdx? (!·.truthy) with
  | none => exact .done h'
  | some i => exact .halt _

theorem debug_follows {frame : Frame} (hbase : frame.base = below.length) (mode : DebugMode) :
    Follows below 0 (debug e frame mode) (Isolated.debug e.constants frame · mode) := by
  intro s l h _
  cases mode with
  | stack =>
      have hle : frame.base ≤ s.stack.height := by
        rw [h.height, hbase]
        exact Nat.le_add_right _ _
      have hwindow : s.stack.window frame.base = l.window := by
        rw [Stack.window_eq, h.words, hbase, List.drop_left]
      show Agrees below s.trace.toList ((if frame.base ≤ s.stack.height then _ else _ : Run Unit) s)
        _
      rw [if_pos hle, hwindow]
      exact .ok (h.emit _) Array.toList_push
  | state =>
      refine .ok (h.emit _) ?_
      show (s.trace.push (.record (.state frame.source e.constants s.stack.words))).toList =
        s.trace.toList ++ [.record (.state frame.source e.constants (below ++ l.window))]
      rw [Array.toList_push, h.words]

/-- **An operation that finds its inputs in the frame does what the isolated one does.** -/
theorem execute_follows (host : Host) {nested : Frame → Run Unit} {callee : Callee} {frame : Frame}
    (hbase : frame.base = below.length) (position : Nat) {op : Operation}
    (hop : op.WellFormed e.constants.length e.code.length)
    (hnested : ∀ i, op.invocation? = some i → FollowsCallee nested callee i.source)
    (hcallee : ∀ i, op.invocation? = some i → callee.Sound i.source) :
    Follows below op.effect.inputs (execute e host nested frame position op)
      (Isolated.execute e.constants host callee frame position op) := by
  obtain ⟨opcode, operand⟩ := op
  cases opcode with
  | readMemory => exact readMemory_follows hbase position _
  | call => exact invoke_follows (hnested _ rfl) hbase _ _
  | loopN =>
      have hbalanced : (LoopOperand.ofBits operand).inputs = (LoopOperand.ofBits operand).outputs :=
        hop.1
      show Follows below (LoopOperand.ofBits operand).inputs.val
        (Run.times (LoopOperand.ofBits operand).count (invoke nested frame
          (LoopOperand.ofBits operand).source (LoopOperand.ofBits operand).inputs
          (LoopOperand.ofBits operand).outputs))
        (Isolated.times (LoopOperand.ofBits operand).count (Isolated.invoke callee frame
          (LoopOperand.ofBits operand).source (LoopOperand.ofBits operand).inputs
          (LoopOperand.ofBits operand).outputs))
      rw [← hbalanced]
      exact loop_follows (hnested _ rfl) (hcallee _ rfl) hbase _ _
  | doWhile =>
      intro s l h hn
      show Agrees below s.trace.toList _ (Isolated.doWhile (Isolated.invoke callee frame
        (DoWhileOperand.ofBits operand).source (DoWhileOperand.ofBits operand).inputs
        ((DoWhileOperand.ofBits operand).inputs + 1)) l)
      exact doWhile_follows (hnested _ rfl) (hcallee _ rfl) hbase _ s l h hn
  | debug =>
      intro s l h hn
      unfold execute Isolated.execute
      dsimp only
      cases Operation.debugMode? ⟨.debug, operand⟩ with
      | some mode => exact debug_follows hbase mode s l h hn
      | none => exact .halt _
  | context => exact fun s l h _ => pushRead_agrees h _
  | scalar value => exact fun s l h _ => pushRead_agrees h _
  | balanceOf =>
      intro s l h hn
      unfold execute Isolated.execute
      dsimp only
      refine pop_agrees (n := 2) h hn fun words window s' hlength _ h' => ?_
      obtain ⟨token, account, rfl⟩ := List.length_eq_two.1 hlength
      exact pushRead_agrees h' _
  | totalSupply =>
      intro s l h hn
      unfold execute Isolated.execute
      dsimp only
      refine pop_agrees (n := 1) h hn fun words window s' hlength _ h' => ?_
      obtain ⟨token, rfl⟩ := List.length_eq_one_iff.1 hlength
      exact pushRead_agrees h' _
  | apply f => exact applyFunction_follows f _
  | ensure => exact ensureAll_follows frame position _

/-- **A step of a frame is a step of the isolated frame**: the budget, the words that the frame
has and the room that is left are checked alike. -/
theorem step_follows (host : Host) {nested : Frame → Run Unit} {callee : Callee} {frame : Frame}
    (hbase : frame.base = below.length) (position : Nat) {op : Operation}
    (hop : op.WellFormed e.constants.length e.code.length)
    (hnested : ∀ i, op.invocation? = some i → FollowsCallee nested callee i.source)
    (hcallee : ∀ i, op.invocation? = some i → callee.Sound i.source) :
    Follows below 0 (step e host nested frame position op)
      (Isolated.step e.constants host callee frame position op) := by
  intro s l h _
  refine (countStep_agrees h).bind fun s' l' h' _ => ?_
  have hheight : s'.stack.height = frame.base + l'.window.length := by
    rw [h'.height, hbase]
  show Agrees below s'.trace.toList (EStateM.bind (Run.windowLength frame) _ s') _
  unfold EStateM.bind Isolated.perform
  rw [windowLength_shows h' hbase]
  show Agrees below s'.trace.toList
    ((if l'.window.length < op.effect.inputs then _ else _ : Run Unit) s') _
  split
  · exact .halt _
  · rename_i henough
    show Agrees below s'.trace.toList ((if op.effect.inputs < op.effect.outputs ∧
      maxHeight < s'.stack.height - op.effect.inputs + op.effect.outputs then _ else _ :
        Run Unit) s') _
    rw [hheight]
    split
    · exact .halt _
    · refine Agrees.after ?_
      have hexecute := execute_follows host hbase position hop hnested hcallee
        { s' with trace := s'.trace.push (.step frame position op l'.window.length) } l'
        (h'.emit _) (Nat.not_lt.1 henough)
      rw [Array.toList_push] at hexecute
      exact hexecute

end Operations

/-! ## 5. Frames -/

theorem runCode_follows {below : List Word} {stepShared : Nat → Operation → Run Unit}
    {stepIsolated : Nat → Operation → Local → Answer} {code : List Operation}
    (hstep : ∀ op ∈ code, ∀ p, Follows below 0 (stepShared p op) (stepIsolated p op)) :
    ∀ p, Follows below 0 (runCode stepShared p code) (Isolated.runCode stepIsolated p code) := by
  induction code with
  | nil => exact fun _ _ _ h _ => .done h
  | cons op rest ih =>
      intro p s l h _
      refine (hstep op List.mem_cons_self p s l h (Nat.zero_le _)).bind fun s' l' h' _ => ?_
      exact ih (fun op' hop' => hstep op' (List.mem_cons_of_mem _ hop')) (p + 1) s' l' h'
        (Nat.zero_le _)

/-- A frame that enters and runs its code follows the isolated frame if its steps do. -/
theorem frame_follows {e : Expression} {host : Host} {callee : Callee} {k : Nat}
    (hk : k < e.code.length) {stepShared : Frame → Nat → Operation → Run Unit}
    (hstep : ∀ (below : List Word) (depth : Nat), ∀ op ∈ e.code[k], ∀ p,
      Follows below 0 (stepShared ⟨k, below.length, depth⟩ p op)
        (Isolated.step e.constants host callee ⟨k, below.length, depth⟩ p op)) :
    FollowsCallee (fun frame => do
        Run.emit (.enter frame)
        match e.code[frame.source]? with
        | some code => runCode (stepShared frame) 0 code
        | none => Run.stuck)
      (Isolated.runFrameWith e host callee) k := by
  intro below depth s l h _
  refine Agrees.after ?_
  have hcode : e.code[k]? = some e.code[k] := List.getElem?_eq_getElem hk
  show Agrees below _ ((match e.code[k]? with | some code => _ | none => _ : Run Unit)
    { s with trace := s.trace.push (.enter ⟨k, below.length, depth⟩) })
    (match e.code[k]? with | some code => _ | none => _)
  rw [hcode, ← Array.toList_push]
  exact runCode_follows (hstep below depth) 0 _ l (h.emit _) (Nat.zero_le _)

theorem runFrameWith_follows {e : Expression} (he : e.WellFormed) (host : Host)
    {nested : Frame → Run Unit} {callee : Callee}
    (hnested : ∀ k, k < e.code.length → FollowsCallee nested callee k)
    (hcallee : ∀ k, k < e.code.length → callee.Sound k) {k : Nat} (hk : k < e.code.length) :
    FollowsCallee (runFrameWith e host nested) (Isolated.runFrameWith e host callee) k := by
  refine frame_follows hk fun below depth op hop p => ?_
  have hw := he _ (List.getElem_mem hk) op hop
  exact step_follows host rfl p hw (fun i hi => hnested _ (hw.source_lt hi))
    fun i hi => hcallee _ (hw.source_lt hi)

/-- **Frames on the shared stack are isolated**, in any well-formed expression. -/
theorem runFrame_follows {e : Expression} (he : e.WellFormed) (host : Host) :
    ∀ (levels : Nat) {k : Nat}, k < e.code.length →
      FollowsCallee (runFrame e host levels) (Isolated.runFrame e host levels) k
  | 0, _, hk =>
      runFrameWith_follows he host (fun _ _ _ _ _ _ _ _ => .halt _)
        (fun _ _ _ _ _ => Isolated.meets_fail _) hk
  | levels + 1, _, hk =>
      runFrameWith_follows he host (fun _ hk' => runFrame_follows he host levels hk')
        (fun _ hk' => Isolated.runFrame_meets he host levels hk') hk

/-! ## 6. What a frame sees and changes -/

/-- The state with an isolated frame's words above others, and its counters. -/
def State.over (below : List Word) (l : Local) (trace : Array Event) : State :=
  ⟨.ofWords (below ++ l.window), l.counters.steps, l.counters.iterations, trace⟩

theorem State.over_shows (below : List Word) (l : Local) (trace : Array Event) :
    Shows below (.over below l trace) l :=
  ⟨Stack.words_ofWords _, rfl, rfl⟩

theorem Shows.eq_over {below : List Word} {s : State} {l : Local} (h : Shows below s l) :
    s = .over below l s.trace := by
  obtain ⟨⟨cells⟩, steps, iterations, trace⟩ := s
  obtain ⟨hwords, rfl, rfl⟩ := h
  have hcells : cells = (below ++ l.window).toArray := Array.toList_inj.1 hwords
  subst hcells
  rfl

/-- A frame's own list can be read off the state. -/
theorem Shows.unique {below : List Word} {s : State} {l l' : Local} (h : Shows below s l)
    (h' : Shows below s l') : l = l' := by
  obtain ⟨window, steps, iterations⟩ := l
  obtain ⟨window', steps', iterations'⟩ := l'
  have hwindow : window = window' := List.append_cancel_left (h.words.symm.trans h'.words)
  have hsteps : steps = steps' := h.steps.symm.trans h'.steps
  have hiterations : iterations = iterations' := h.iterations.symm.trans h'.iterations
  rw [hwindow, hsteps, hiterations]

section Ends

variable {below : List Word} {before : List Event} {r : EStateM.Result Halt State Unit} {a : Answer}

theorem Agrees.ok_iff (h : Agrees below before r a) (l : Local) :
    a.result = .ok l ↔ ∃ trace, r = .ok () (.over below l trace) := by
  cases h with
  | @ok s l' events shows htrace =>
      constructor
      · intro hl
        cases hl
        exact ⟨s.trace, congrArg _ shows.eq_over⟩
      · rintro ⟨trace, hs⟩
        cases hs
        exact congrArg _ (shows.unique (State.over_shows below l trace))
  | error htrace =>
      constructor
      · intro hl
        cases hl
      · rintro ⟨trace, hs⟩
        cases hs

theorem Agrees.error_iff (h : Agrees below before r a) (halt : Halt) :
    a.result = .error halt ↔ ∃ s, r = .error halt s := by
  cases h with
  | ok shows htrace =>
      constructor
      · intro hhalt
        cases hhalt
      · rintro ⟨s, hs⟩
        cases hs
  | @error halt' s events htrace =>
      constructor
      · intro hhalt
        cases hhalt
        exact ⟨s, rfl⟩
      · rintro ⟨s', hs⟩
        cases hs
        rfl

theorem Agrees.exists_of_ok {s : State} (h : Agrees below before (.ok () s) a) :
    ∃ l, a.result = .ok l ∧ Shows below s l := by
  cases h with
  | @ok s l events shows htrace => exact ⟨l, rfl, shows⟩

/-- However the run ended, its trace grew by what the isolated run let out. -/
theorem Agrees.trace_eq (h : Agrees below before r a) {s : State}
    (hs : r = .ok () s ∨ ∃ halt, r = .error halt s) :
    s.trace.toList = before ++ a.events.map (·.under below) := by
  cases h with
  | ok shows htrace =>
      rcases hs with hs | ⟨halt, hs⟩
      · cases hs
        exact htrace
      · cases hs
  | error htrace =>
      rcases hs with hs | ⟨halt, hs⟩
      · cases hs
      · cases hs
        exact htrace

end Ends

/-- **A frame sees and changes its own words only.** In a loaded expression, whatever lies below a
frame and whatever its depth and the counters: the frame on the shared stack ends well exactly when
the isolated frame does, and then the words below are what they were, the words above are those of
the isolated frame, and so are the counters. It fails with a fault exactly when the isolated frame
fails with that fault, and nothing else can happen. The words below reach the outside only in the
records that show the whole stack. -/
theorem runFrame_isolated {constants : List Word} {sources : List Source} {e : Expression}
    (hload : Expression.load constants sources = .ok e) (host : Host) {k : Nat}
    (hk : k < e.code.length) (below : List Word) (l : Local) (depth : Nat) (trace : Array Event) :
    let frame : Frame := ⟨k, below.length, depth⟩
    let shared := (runFrame e host (maxDepth - depth) frame).run (.over below l trace)
    let isolated := Isolated.runFrame e host (maxDepth - depth) frame l
    (∀ l', isolated.result = .ok l' ↔ ∃ trace', shared = .ok () (.over below l' trace')) ∧
    (∀ f, isolated.result = .error (.fault f) ↔ ∃ s, shared = .error (.fault f) s) ∧
    isolated.result ≠ .error .stuck ∧
    (∀ s, (shared = .ok () s ∨ ∃ h, shared = .error h s) →
      s.trace.toList = trace.toList ++ isolated.events.map (·.under below)) := by
  intro frame shared isolated
  have he := (Expression.load_eq_ok_iff.1 hload).2.2
  have hagrees : Agrees below trace.toList shared isolated :=
    runFrame_follows he host (maxDepth - depth) hk below depth _ l (State.over_shows below l trace)
      (Nat.zero_le _)
  have hsound : isolated.Meets fun l' => l.counters ≤ l'.counters :=
    Isolated.runFrame_meets he host (maxDepth - depth) hk below.length depth l
  exact ⟨hagrees.ok_iff, fun f => hagrees.error_iff (.fault f), hsound.ne_stuck,
    fun s => hagrees.trace_eq⟩

/-- Doubles the topmost word three times, once by a `call` and twice in a `loop-n`. -/
def eightfold : Expression where
  constants := []
  code :=
    [[⟨.call, 0x0111⟩, ⟨.loopN, 0x2111⟩],
     [⟨.readMemory, 0⟩, ⟨.apply .add, 2⟩]]

/-- Above two words and at depth thirty: eight times one, and the two words are still there. -/
theorem runFrame_isolated_eightfold :
    Expression.load [] eightfold.sources = .ok eightfold ∧ 0 < eightfold.code.length ∧
      ∃ trace, (runFrame eightfold .null (maxDepth - 30) ⟨0, 2, 30⟩).run
          (.over [Word.max, Word.zero] ⟨[Word.one], ⟨7, 3⟩⟩ #[]) =
        .ok () (.over [Word.max, Word.zero] ⟨[⟨8, by decide⟩], ⟨15, 3⟩⟩ trace) := by
  have hload : Expression.load [] eightfold.sources = .ok eightfold := rfl
  have hisolated := runFrame_isolated hload .null (k := 0) (by decide) [Word.max, Word.zero]
    ⟨[Word.one], ⟨7, 3⟩⟩ 30 #[]
  exact ⟨hload, by decide, (hisolated.1 _).1 rfl⟩

/-! ## 7. Evaluation -/

theorem Event.under_nil (event : Event) : event.under [] = event := by
  cases event with
  | record r => cases r <;> rfl
  | _ => rfl

/-- What an evaluation gives and leaves when its entry frame is isolated. -/
def Isolated.Answer.outcome (entry : Nat) (a : Answer) : Outcome :=
  match a.result with
  | .ok l => ⟨.ok l.window, a.events ++ [.finished entry l.window.length]⟩
  | .error halt => ⟨.error halt, a.events ++ [.aborted entry halt]⟩

theorem Isolated.Answer.result_outcome (entry : Nat) (a : Answer) :
    (a.outcome entry).result = a.result.map (·.window) := by
  obtain ⟨events, result⟩ := a
  cases result <;> rfl

theorem Isolated.Answer.of_outcome_ok {entry : Nat} {a : Answer} {words : List Word}
    (h : (a.outcome entry).result = .ok words) : ∃ l, a.result = .ok l ∧ l.window = words := by
  obtain ⟨events, result⟩ := a
  cases result with
  | ok l =>
      cases h
      exact ⟨l, rfl, rfl⟩
  | error halt => cases h

theorem Isolated.Answer.of_outcome_error {entry : Nat} {a : Answer} {halt : Halt}
    (h : (a.outcome entry).result = .error halt) : a.result = .error halt := by
  obtain ⟨events, result⟩ := a
  cases result with
  | ok l => cases h
  | error halt' =>
      cases h
      rfl

theorem Agrees.outcome {r : EStateM.Result Halt State Unit} {a : Answer} (h : Agrees [] [] r a)
    (entry : Nat) : Outcome.ofRun entry r = a.outcome entry := by
  have hevents : ∀ events : List Event, events.map (·.under []) = events := by
    intro events
    rw [List.map_congr_left fun event _ => event.under_nil, List.map_id']
  cases h with
  | @ok s l events shows trace =>
      rw [hevents] at trace
      have hwords : s.stack.words = l.window := shows.words
      have hheight : s.stack.height = l.window.length := by rw [Stack.height_eq, hwords]
      show Outcome.mk (.ok s.stack.words) (s.trace.push (.finished entry s.stack.height)).toList =
        ⟨.ok l.window, events ++ [.finished entry l.window.length]⟩
      rw [Array.toList_push, trace, hwords, hheight]
      rfl
  | @error halt s events trace =>
      rw [hevents] at trace
      show Outcome.mk (.error halt) (s.trace.push (.aborted entry halt)).toList =
        ⟨.error halt, events ++ [.aborted entry halt]⟩
      rw [Array.toList_push, trace]
      rfl

/-- An entry that is no source. -/
theorem eval_of_unknown {e : Expression} (host : Host) {entry : Nat} (h : e.code.length ≤ entry)
    {inputs : List Word} :
    eval e host entry inputs = ⟨.error (.fault (.unknownSource entry e.code.length)), []⟩ := by
  unfold eval evaluate
  rw [if_pos h]
  rfl

/-- More inputs than fit on the stack. -/
theorem eval_of_many {e : Expression} (host : Host) {entry : Nat} (h : ¬ e.code.length ≤ entry)
    {inputs : List Word} (hinputs : maxHeight < inputs.length) :
    eval e host entry inputs = ⟨.error (.fault (.stackOverflow entry 0)), []⟩ := by
  unfold eval evaluate
  rw [if_neg h, if_pos hinputs]
  rfl

/-- **An evaluation is a run of an isolated frame** over the inputs, with nothing below. -/
theorem eval_eq_outcome {e : Expression} (he : e.WellFormed) (host : Host) {entry : Nat}
    (hentry : entry < e.code.length) {inputs : List Word} (hinputs : inputs.length ≤ maxHeight) :
    eval e host entry inputs =
      (Isolated.runFrame e host maxDepth ⟨entry, 0, 0⟩ ⟨inputs, {}⟩).outcome entry := by
  unfold eval evaluate
  rw [if_neg (Nat.not_le.2 hentry), if_neg (Nat.not_lt.2 hinputs)]
  refine Agrees.outcome ?_ entry
  exact runFrame_follows he host maxDepth hentry [] 0 (.over [] ⟨inputs, {}⟩ #[]) ⟨inputs, {}⟩
    (State.over_shows _ _ _) (Nat.zero_le _)

/-- **How an evaluation goes**: its entry is no source, it has too many inputs, or it runs. -/
theorem eval_cases {e : Expression} (he : e.WellFormed) (host : Host) (entry : Nat)
    (inputs : List Word) :
    (e.code.length ≤ entry ∧ eval e host entry inputs =
      ⟨.error (.fault (.unknownSource entry e.code.length)), []⟩) ∨
    (entry < e.code.length ∧ maxHeight < inputs.length ∧ eval e host entry inputs =
      ⟨.error (.fault (.stackOverflow entry 0)), []⟩) ∨
    (entry < e.code.length ∧ inputs.length ≤ maxHeight ∧ eval e host entry inputs =
      (Isolated.runFrame e host maxDepth ⟨entry, 0, 0⟩ ⟨inputs, {}⟩).outcome entry) := by
  by_cases hentry : entry < e.code.length
  · by_cases hinputs : inputs.length ≤ maxHeight
    · exact .inr (.inr ⟨hentry, hinputs, eval_eq_outcome he host hentry hinputs⟩)
    · have hmany : maxHeight < inputs.length := Nat.not_le.1 hinputs
      exact .inr (.inl ⟨hentry, hmany, eval_of_many host (Nat.not_le.2 hentry) hmany⟩)
  · have hnone : e.code.length ≤ entry := Nat.not_lt.1 hentry
    exact .inl ⟨hnone, eval_of_unknown host hnone⟩

end WordMachine.Machine
