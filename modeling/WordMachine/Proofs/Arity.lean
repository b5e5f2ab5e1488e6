import WordMachine.Proofs.Isolation

/-!
# The number of words is known before a run

No operation checks after it has run that it kept to its stack effect. It does: a `do-while` may run
its body never or a thousand times, a callee may take any path through its own callees, and still
the number of words in a window depends only on how many there were at first and on the position.

* `netEffect` adds up the effects of code;
* `runUpTo` is a run of a frame up to a position, and `runFrame_eq_runUpTo` says that the whole run
  is this and then the rest;
* `runCode_meets_net` counts the words of an isolated frame along its code;
* `Answer.Regular` says what a run lets out: the steps of a callee are those of deeper frames, and a
  mismatch is foretold (`Foretold`) by the operation that finds it;
* `runFrame_arity` puts this together for frames on the shared stack.
-/

namespace WordMachine

/-- **By how many words code makes a window longer**, according to the effects of its operations. It
is negative where the window gets shorter. -/
def netEffect : List Operation → Int
  | [] => 0
  | op :: rest => (op.effect.outputs - op.effect.inputs : Int) + netEffect rest

/-- The operation invokes source `k` and requires `expected` words of it, and `actual` is another
number, which the inputs of the invocation and the code of the source give. -/
def Foretold (e : Expression) (op : Operation) (k expected actual : Nat) : Prop :=
  ∃ inputs code, op.invocation? = some ⟨k, inputs, expected⟩ ∧ e.code[k]? = some code ∧
    (actual : Int) = inputs + netEffect code ∧ actual ≠ expected

namespace Machine

/-- The operation is run in one of the events. -/
def Ran (op : Operation) (events : List Event) : Prop :=
  ∃ frame position window, .step frame position op window ∈ events

theorem Ran.append_right {op : Operation} {events : List Event} (h : Ran op events)
    (before : List Event) : Ran op (before ++ events) := by
  obtain ⟨frame, position, window, hmem⟩ := h
  exact ⟨frame, position, window, List.mem_append_right _ hmem⟩

/-- The words below do not show in a step. -/
theorem step_mem_under {below : List Word} {events : List Event} {frame : Frame} {p n : Nat}
    {op : Operation} :
    .step frame p op n ∈ events.map (·.under below) ↔ .step frame p op n ∈ events := by
  constructor
  · intro h
    obtain ⟨event, hmem, hevent⟩ := List.mem_map.1 h
    cases event with
    | step frame' p' op' n' =>
        cases hevent
        exact hmem
    | _ => cases hevent
  · exact fun h => List.mem_map.2 ⟨_, h, rfl⟩

theorem ran_under {below : List Word} {events : List Event} {op : Operation} :
    Ran op (events.map (·.under below)) ↔ Ran op events := by
  unfold Ran
  simp only [step_mem_under]

namespace Isolated

/-! ## 1. Words along code -/

section Words

variable {e : Expression} {callee : Callee} {code : List Operation}

/-- A step that ends well changes the length of the window by the effect. -/
theorem step_meets_net (host : Host) (frame : Frame)
    (hcallee : ∀ k, k < e.code.length → callee.Sound k) {op : Operation}
    (hop : op.WellFormed e.constants.length e.code.length) (p : Nat) (l : Local) :
    (step e.constants host callee frame p op l).Meets fun l' =>
      (l'.window.length : Int) = l.window.length + (op.effect.outputs - op.effect.inputs) := by
  refine (step_meets host frame p hop (fun i hi => hcallee _ (hop.source_lt hi)) l).mono ?_
  intro l' h
  obtain ⟨hinputs, hleaves⟩ := h
  have hlength := hleaves.length
  omega

/-- **Code changes the length of the window by its net effect.** -/
theorem runCode_meets_net (host : Host) (frame : Frame)
    (hcallee : ∀ k, k < e.code.length → callee.Sound k)
    (hcode : ∀ op ∈ code, op.WellFormed e.constants.length e.code.length) :
    ∀ (p : Nat) (l : Local), (runCode (step e.constants host callee frame) p code l).Meets
      fun l' => (l'.window.length : Int) = l.window.length + netEffect code := by
  induction code with
  | nil => exact fun _ l => meets_done (Int.add_zero _).symm
  | cons op rest ih =>
      intro p l
      have hop := hcode op List.mem_cons_self
      refine (step_meets_net host frame hcallee hop p l).andThen fun l₁ h₁ => ?_
      refine (ih (fun op' h => hcode op' (List.mem_cons_of_mem _ h)) (p + 1) l₁).mono ?_
      intro l₂ h₂
      show (l₂.window.length : Int) =
        l.window.length + ((op.effect.outputs - op.effect.inputs) + netEffect rest)
      omega

end Words

/-! ## 2. What a run lets out -/

/-- **What the events of a run and its end tell**: the steps are of frames at least so deep, and a
mismatch was foretold by the operation that is being run, if one is, or by one that was run. -/
structure Answer.Regular (e : Expression) (depth : Nat) (now : Option Operation) (a : Answer) :
    Prop where
  deep : ∀ {frame p op n}, .step frame p op n ∈ a.events → depth ≤ frame.depth
  mismatch : ∀ {k expected actual}, a.result = .error (.fault (.stackMismatch k expected actual)) →
    ∃ op, (now = some op ∨ Ran op a.events) ∧ Foretold e op k expected actual

section Regular

variable {e : Expression} {depth : Nat} {now : Option Operation} {a : Answer}

theorem regular_done (l : Local) : (Answer.done l).Regular e depth now := by
  refine ⟨fun h => absurd h List.not_mem_nil, fun h => ?_⟩
  cases h

theorem regular_stuck : (Answer.halt .stuck).Regular e depth now := by
  refine ⟨fun h => absurd h List.not_mem_nil, fun h => ?_⟩
  cases h

theorem regular_fail {f : Fault} (h : ∀ k expected actual, f ≠ .stackMismatch k expected actual) :
    (Answer.fail f).Regular e depth now := by
  refine ⟨fun h => absurd h List.not_mem_nil, fun hf => ?_⟩
  cases hf
  exact absurd rfl (h _ _ _)

theorem Answer.Regular.under (h : a.Regular e depth now) (below : List Word) :
    (a.under below).Regular e depth now := by
  refine ⟨fun hmem => h.deep (step_mem_under.1 hmem), fun hresult => ?_⟩
  obtain ⟨op, hop, hforetold⟩ := h.mismatch hresult
  exact ⟨op, hop.imp_right ran_under.2, hforetold⟩

/-- What is foretold by an operation that was run need not be by the one that is being run. -/
theorem Answer.Regular.of_none (h : a.Regular e depth none) : a.Regular e depth now := by
  refine ⟨h.deep, fun hresult => ?_⟩
  obtain ⟨op, hop, hforetold⟩ := h.mismatch hresult
  rcases hop with hnone | hran
  · cases hnone
  · exact ⟨op, .inr hran, hforetold⟩

/-- An event of a run that goes on is one of its first part, or that part has ended well. -/
theorem Answer.mem_events_andThen {next : Local → Answer} {event : Event}
    (h : event ∈ (a.andThen next).events) :
    event ∈ a.events ∨ ∃ l, a.result = .ok l ∧ event ∈ (next l).events := by
  obtain ⟨events, result⟩ := a
  cases result with
  | error halt => exact .inl h
  | ok l =>
      rcases List.mem_append.1 h with h | h
      · exact .inl h
      · exact .inr ⟨l, rfl, h⟩

theorem Answer.Regular.andThen {next : Local → Answer} (h : a.Regular e depth now)
    (hnext : ∀ l, a.result = .ok l → (next l).Regular e depth now) :
    (a.andThen next).Regular e depth now := by
  refine ⟨fun hmem => ?_, fun hresult => ?_⟩
  · rcases Answer.mem_events_andThen hmem with hmem | ⟨l, hl, hmem⟩
    · exact h.deep hmem
    · exact (hnext l hl).deep hmem
  · obtain ⟨events, result⟩ := a
    cases result with
    | error halt => exact h.mismatch hresult
    | ok l =>
        obtain ⟨op, hop, hforetold⟩ := (hnext l rfl).mismatch hresult
        exact ⟨op, hop.imp_right (·.append_right events), hforetold⟩

/-- An event that is no step tells nothing. -/
theorem Answer.Regular.after {event : Event} (h : a.Regular e depth now)
    (hevent : ∀ frame p op n, event ≠ .step frame p op n) :
    (a.after event).Regular e depth now := by
  refine ⟨fun hmem => ?_, fun hresult => ?_⟩
  · rcases List.mem_cons.1 hmem with hmem | hmem
    · exact absurd hmem.symm (hevent _ _ _ _)
    · exact h.deep hmem
  · obtain ⟨op, hop, hforetold⟩ := h.mismatch hresult
    exact ⟨op, hop.imp_right (·.append_right [event]), hforetold⟩

/-- Once its step is let out, an operation is one that was run. -/
theorem Answer.Regular.after_step {frame : Frame} {op : Operation}
    (h : a.Regular e (frame.depth + 1) (some op)) (p n : Nat) :
    (a.after (.step frame p op n)).Regular e frame.depth none := by
  refine ⟨fun hmem => ?_, fun hresult => ?_⟩
  · rcases List.mem_cons.1 hmem with hmem | hmem
    · cases hmem
      exact Nat.le_refl _
    · exact Nat.le_of_succ_le (h.deep hmem)
  · obtain ⟨op', hop, hforetold⟩ := h.mismatch hresult
    refine ⟨op', .inr ?_, hforetold⟩
    rcases hop with hnow | hran
    · cases hnow
      exact ⟨frame, p, n, List.mem_cons_self⟩
    · exact hran.append_right [_]

theorem popThen_regular (l : Local) (n : Nat) {next : List Word → Local → Answer}
    (hnext : ∀ words rest, words.length = n → (next words rest).Regular e depth now) :
    (l.popThen n next).Regular e depth now := by
  by_cases h : n ≤ l.window.length
  · obtain ⟨words, rest, hlength, -, hpop⟩ := Local.popThen_of_le h
    rw [hpop]
    exact hnext words _ hlength
  · unfold Local.popThen
    rw [if_neg h]
    exact regular_stuck

theorem countIteration_regular (l : Local) : l.countIteration.Regular e depth now := by
  unfold Local.countIteration
  split
  · exact regular_done _
  · exact regular_fail (by simp)

theorem pushRead_regular (l : Local) (read : Except HostFault Word) :
    (l.pushRead read).Regular e depth now := by
  cases read with
  | ok w => exact regular_done _
  | error f => exact regular_fail (by simp)

theorem readMemory_regular {constants : List Word} (frame : Frame) (p : Nat) (place : MemoryOperand)
    (l : Local) : (readMemory constants frame p place l).Regular e depth now := by
  unfold readMemory
  split
  · split
    · exact regular_done _
    · exact regular_stuck
  · split
    · exact regular_done _
    · exact regular_fail (by simp)

theorem applyFunction_regular (f : WordFunction) (inputs : Nat) (l : Local) :
    (applyFunction f inputs l).Regular e depth now := by
  refine popThen_regular l inputs fun words rest _ => ?_
  split
  · exact regular_done _
  · exact regular_fail (by simp)
  · exact regular_stuck

theorem ensureAll_regular (frame : Frame) (p inputs : Nat) (l : Local) :
    (ensureAll frame p inputs l).Regular e depth now := by
  refine popThen_regular l inputs fun words rest _ => ?_
  split
  · exact regular_done _
  · exact regular_fail (by simp)

/-! ## 3. Control flow -/

/-- **A callee that is known before it runs**: what it lets out is regular, and where it ends well
it has changed the length of its window by the net effect of the source. -/
structure Callee.Static (e : Expression) (callee : Callee) (k : Nat) : Prop where
  regular : ∀ base depth l, (callee ⟨k, base, depth⟩ l).Regular e depth none
  length : ∀ base depth l, (callee ⟨k, base, depth⟩ l).Meets fun l' =>
    ∃ code, e.code[k]? = some code ∧ (l'.window.length : Int) = l.window.length + netEffect code

/-- **A mismatch is foretold by the operation whose invocation it ends.** -/
theorem invoke_regular {callee : Callee} {op : Operation} {i : Invocation}
    (hi : op.invocation? = some i) (hcallee : callee.Static e i.source) (caller : Frame)
    (l : Local) :
    (invoke callee caller i.source i.inputs i.outputs l).Regular e (caller.depth + 1)
      (some op) := by
  refine popThen_regular l i.inputs fun arguments rest hlength => ?_
  have hregular := hcallee.regular (caller.base + rest.window.length) (caller.depth + 1)
    ⟨arguments, rest.counters⟩
  refine (hregular.of_none.under rest.window).andThen fun left hleft => ?_
  split
  · exact regular_done _
  · rename_i hne
    refine ⟨fun h => absurd h List.not_mem_nil, fun hf => ⟨op, .inl rfl, ?_⟩⟩
    cases hf
    obtain ⟨code, hcode, hnet⟩ := (hcallee.length _ _ _).of_ok hleft
    have hactual : (left.window.length : Int) = i.inputs + netEffect code := by
      rw [hnet, hlength]
    exact ⟨i.inputs, code, hi, hcode, hactual, hne⟩

theorem times_regular {body : Local → Answer} (hbody : ∀ l, (body l).Regular e depth now) :
    ∀ (n : Nat) (l : Local), (times n body l).Regular e depth now
  | 0, l => regular_done l
  | n + 1, l => (hbody l).andThen fun l' _ => times_regular hbody n l'

theorem whileTrue_regular {body : Local → Answer} (hbody : ∀ l, (body l).Regular e depth now) :
    ∀ (bound : Nat) (l : Local), (whileTrue body bound l).Regular e depth now
  | 0, _ => regular_fail (by simp)
  | bound + 1, l => by
      unfold whileTrue Local.popCondition
      refine popThen_regular l 1 fun words rest _ => ?_
      split
      · dsimp only
        split
        · refine (countIteration_regular rest).andThen fun l₁ _ => ?_
          exact (hbody l₁).andThen fun l₂ _ => whileTrue_regular hbody bound l₂
        · exact regular_done _
      · exact regular_stuck

end Regular

/-! ## 4. Operations and frames -/

section Operations

variable {e : Expression} {callee : Callee}

/-- An operation lets out no steps but those of its callees, and its own invocations are the only
ones that it has to answer for. -/
theorem execute_regular (host : Host) (frame : Frame)
    (hcallee : ∀ k, k < e.code.length → callee.Static e k) {op : Operation}
    (hop : op.WellFormed e.constants.length e.code.length) (p : Nat) (l : Local) :
    (execute e.constants host callee frame p op l).Regular e (frame.depth + 1) (some op) := by
  have hinvoke : ∀ i, op.invocation? = some i → ∀ l,
      (invoke callee frame i.source i.inputs i.outputs l).Regular e (frame.depth + 1) (some op) :=
    fun i hi l => invoke_regular hi (hcallee _ (hop.source_lt hi)) frame l
  obtain ⟨opcode, operand⟩ := op
  cases opcode with
  | readMemory => exact readMemory_regular frame p _ l
  | call => exact hinvoke _ rfl l
  | loopN => exact times_regular (hinvoke _ rfl) _ l
  | doWhile => exact whileTrue_regular (hinvoke _ rfl) _ l
  | debug =>
      obtain ⟨mode, hmode⟩ := hop.exists_debugMode
      unfold execute
      rw [hmode]
      cases mode <;> exact (regular_done l).after (by simp)
  | context => exact pushRead_regular l _
  | scalar s => exact pushRead_regular l _
  | balanceOf | totalSupply =>
      unfold execute
      refine popThen_regular l _ fun words rest _ => ?_
      split
      · exact pushRead_regular _ _
      · exact regular_stuck
  | apply f => exact applyFunction_regular f _ l
  | ensure => exact ensureAll_regular frame p _ l

/-- The ways a step can go: a fault of its checks, or its event and what the operation does. -/
theorem step_cases (host : Host) (callee : Callee) (frame : Frame) (p : Nat) (op : Operation)
    (l : Local) :
    (∃ f, (∀ k expected actual, f ≠ .stackMismatch k expected actual) ∧
      step e.constants host callee frame p op l = .fail f) ∨
    step e.constants host callee frame p op l =
      .after (.step frame p op l.window.length)
        (execute e.constants host callee frame p op ⟨l.window, l.counters.step⟩) := by
  unfold step Local.countStep
  split
  · show (∃ f, _ ∧ perform e.constants host callee frame p op ⟨l.window, l.counters.step⟩ =
      .fail f) ∨ perform e.constants host callee frame p op ⟨l.window, l.counters.step⟩ = _
    unfold perform
    split
    · exact .inl ⟨_, by simp, rfl⟩
    · split
      · exact .inl ⟨_, by simp, rfl⟩
      · exact .inr rfl
  · exact .inl ⟨_, by simp, rfl⟩

theorem step_regular (host : Host) (frame : Frame)
    (hcallee : ∀ k, k < e.code.length → callee.Static e k) {op : Operation}
    (hop : op.WellFormed e.constants.length e.code.length) (p : Nat) (l : Local) :
    (step e.constants host callee frame p op l).Regular e frame.depth none := by
  rcases step_cases host callee frame p op l with ⟨f, hf, hstep⟩ | hstep
  · rw [hstep]
    exact regular_fail hf
  · rw [hstep]
    exact (execute_regular host frame hcallee hop p _).after_step p _

theorem runCode_regular {depth : Nat} {step : Nat → Operation → Local → Answer}
    {code : List Operation} (hstep : ∀ op ∈ code, ∀ p l, (step p op l).Regular e depth none) :
    ∀ (p : Nat) (l : Local), (runCode step p code l).Regular e depth none := by
  induction code with
  | nil => exact fun _ l => regular_done l
  | cons op rest ih =>
      intro p l
      refine (hstep op List.mem_cons_self p l).andThen fun l' _ => ?_
      exact ih (fun op' h => hstep op' (List.mem_cons_of_mem _ h)) (p + 1) l'

/-- Only one event of a step is of its own frame: the steps of its callees are of deeper ones. -/
theorem eq_of_mem_step (host : Host) (frame : Frame)
    (hcallee : ∀ k, k < e.code.length → callee.Static e k) {op : Operation}
    (hop : op.WellFormed e.constants.length e.code.length) {p q n : Nat} {l : Local}
    {op' : Operation}
    (h : .step frame q op' n ∈ (step e.constants host callee frame p op l).events) :
    q = p ∧ op' = op ∧ n = l.window.length := by
  rcases step_cases host callee frame p op l with ⟨f, -, hstep⟩ | hstep
  · rw [hstep] at h
    exact absurd h List.not_mem_nil
  · rw [hstep] at h
    rcases List.mem_cons.1 h with h | h
    · cases h
      exact ⟨rfl, rfl, rfl⟩
    · have hdeep := (execute_regular host frame hcallee hop p _).deep h
      omega

/-- **The steps of a frame show the windows that are foretold.** -/
theorem runCode_steps (host : Host) (frame : Frame)
    (hcallee : ∀ k, k < e.code.length → callee.Static e k)
    (hsound : ∀ k, k < e.code.length → callee.Sound k) {code : List Operation}
    (hcode : ∀ op ∈ code, op.WellFormed e.constants.length e.code.length) :
    ∀ (p : Nat) (l : Local) {q n : Nat} {op : Operation},
      .step frame q op n ∈ (runCode (step e.constants host callee frame) p code l).events →
      ∃ i, q = p + i ∧ code[i]? = some op ∧
        (n : Int) = l.window.length + netEffect (code.take i) := by
  induction code with
  | nil => exact fun _ _ _ _ _ h => absurd h List.not_mem_nil
  | cons op rest ih =>
      intro p l q n op' h
      have hop := hcode op List.mem_cons_self
      rcases Answer.mem_events_andThen h with h | ⟨l', hl', h⟩
      · obtain ⟨rfl, rfl, rfl⟩ := eq_of_mem_step host frame hcallee hop h
        exact ⟨0, rfl, rfl, (Int.add_zero _).symm⟩
      · have hrest := fun op' h => hcode op' (List.mem_cons_of_mem _ h)
        obtain ⟨i, hq, hget, hn⟩ := ih hrest (p + 1) l' h
        have hlength := (step_meets_net host frame hsound hop p l).of_ok hl'
        refine ⟨i + 1, by omega, hget, ?_⟩
        show (n : Int) = l.window.length +
          ((op.effect.outputs - op.effect.inputs) + netEffect (rest.take i))
        omega

theorem runFrameWith_static (he : e.WellFormed) (host : Host)
    (hcallee : ∀ k, k < e.code.length → callee.Static e k)
    (hsound : ∀ k, k < e.code.length → callee.Sound k) {k : Nat} (hk : k < e.code.length) :
    (runFrameWith e host callee).Static e k := by
  have hcode : e.code[k]? = some e.code[k] := List.getElem?_eq_getElem hk
  have hw := he _ (List.getElem_mem hk)
  refine ⟨fun base depth l => ?_, fun base depth l => ?_⟩
  · refine Answer.Regular.after ?_ (by simp)
    rw [hcode]
    exact runCode_regular (fun op hop => step_regular host ⟨k, base, depth⟩ hcallee (hw op hop)) 0 l
  · refine Answer.Meets.after _ ?_
    rw [hcode]
    exact (runCode_meets_net host _ hsound hw 0 l).mono fun _ h => ⟨_, rfl, h⟩

/-- How the frames below a frame run when `levels` more may nest. -/
def callees (e : Expression) (host : Host) : (levels : Nat) → Callee
  | 0 => fun _ _ => .fail .callDepthExceeded
  | levels + 1 => runFrame e host levels

theorem runFrame_eq (e : Expression) (host : Host) (levels : Nat) :
    runFrame e host levels = runFrameWith e host (callees e host levels) := by
  cases levels <;> rfl

theorem callees_sound (he : e.WellFormed) (host : Host) (levels : Nat) {k : Nat}
    (hk : k < e.code.length) :
    (callees e host levels).Sound k := by
  cases levels with
  | zero => exact fun _ _ _ => meets_fail _
  | succ levels => exact runFrame_meets he host levels hk

/-- **Every callee of a well-formed expression is known before it runs.** -/
theorem callees_static (he : e.WellFormed) (host : Host) :
    ∀ (levels : Nat) {k : Nat}, k < e.code.length → (callees e host levels).Static e k
  | 0, _, _ => ⟨fun _ _ _ => regular_fail (by simp), fun _ _ _ => meets_fail _⟩
  | levels + 1, _, hk => by
      show (runFrame e host levels).Static e _
      rw [runFrame_eq]
      exact runFrameWith_static he host (fun _ hk' => callees_static he host levels hk')
        (fun _ hk' => callees_sound he host levels hk') hk

/-- The steps of a frame, wherever it runs. -/
theorem runFrame_steps (he : e.WellFormed) (host : Host) (levels : Nat) {k : Nat}
    (hk : k < e.code.length) {base depth : Nat} {l : Local} {q n : Nat} {op : Operation}
    (h : .step ⟨k, base, depth⟩ q op n ∈ (runFrame e host levels ⟨k, base, depth⟩ l).events) :
    e.code[k][q]? = some op ∧ (n : Int) = l.window.length + netEffect (e.code[k].take q) := by
  have hcode : e.code[k]? = some e.code[k] := List.getElem?_eq_getElem hk
  rw [runFrame_eq] at h
  unfold runFrameWith Answer.after at h
  simp only [hcode, List.mem_cons, reduceCtorEq, false_or] at h
  obtain ⟨i, hq, hop, hn⟩ := runCode_steps host _ (fun _ hk' => callees_static he host levels hk')
    (fun _ hk' => callees_sound he host levels hk') (he _ (List.getElem_mem hk)) 0 l h
  rw [Nat.zero_add] at hq
  subst hq
  exact ⟨hop, hn⟩

end Operations

end Isolated

/-! ## 5. Runs up to a position -/

open Isolated (Local Answer)

/-- How the frames below a frame run when `levels` more may nest. -/
def nestedFrames (e : Expression) (host : Host) : (levels : Nat) → Frame → Run Unit
  | 0 => fun _ => Run.fail .callDepthExceeded
  | levels + 1 => runFrame e host levels

/-- Enters a frame and runs the operations before a position. -/
def runUpTo (e : Expression) (host : Host) (levels : Nat) (frame : Frame) (position : Nat) :
    Run Unit := do
  Run.emit (.enter frame)
  match e.code[frame.source]? with
  | some code => runCode (step e host (nestedFrames e host levels) frame) 0 (code.take position)
  | none => Run.stuck

theorem runFrame_eq_runFrameWith (e : Expression) (host : Host) (levels : Nat) :
    runFrame e host levels = runFrameWith e host (nestedFrames e host levels) := by
  cases levels <;> rfl

theorem runCode_append (step : Nat → Operation → Run Unit) (rest : List Operation) :
    ∀ (p : Nat) (code : List Operation), runCode step p (code ++ rest) = (do
      runCode step p code
      runCode step (p + code.length) rest)
  | p, [] => by simp [runCode]
  | p, op :: code => by
      simp only [List.cons_append, runCode, bind_assoc, List.length_cons]
      rw [runCode_append step rest (p + 1) code, Nat.add_right_comm, Nat.add_assoc]

/-- **A run is what it does up to a position, and then the rest.** -/
theorem runFrame_eq_runUpTo (e : Expression) (host : Host) (levels : Nat) {frame : Frame}
    {code : List Operation} (hcode : e.code[frame.source]? = some code) {p : Nat}
    (hp : p ≤ code.length) :
    runFrame e host levels frame = (do
      runUpTo e host levels frame p
      runCode (step e host (nestedFrames e host levels) frame) p (code.drop p)) := by
  have hsplit := runCode_append (step e host (nestedFrames e host levels) frame) (code.drop p) 0
    (code.take p)
  rw [List.take_append_drop, List.length_take, Nat.min_eq_left hp, Nat.zero_add] at hsplit
  rw [runFrame_eq_runFrameWith]
  unfold runFrameWith runUpTo
  rw [hcode, bind_assoc]
  simp only [hsplit]

theorem nestedFrames_follows {e : Expression} (he : e.WellFormed) (host : Host) (levels : Nat)
    {k : Nat} (hk : k < e.code.length) :
    FollowsCallee (nestedFrames e host levels) (Isolated.callees e host levels) k := by
  cases levels with
  | zero => exact fun _ _ _ _ _ _ => .halt _
  | succ levels => exact runFrame_follows he host levels hk

/-- The steps of a frame of a well-formed expression are those of the isolated frame. -/
theorem frameStep_follows {e : Expression} (he : e.WellFormed) (host : Host) (levels : Nat)
    {ops : List Operation} (hops : ops ∈ e.code) {op : Operation} (hop : op ∈ ops) {frame : Frame}
    {below : List Word} (hbase : frame.base = below.length) (position : Nat) :
    Follows below 0 (step e host (nestedFrames e host levels) frame position op)
      (Isolated.step e.constants host (Isolated.callees e host levels) frame position op) := by
  have hw := he ops hops op hop
  exact step_follows host hbase position hw
    (fun i hi => nestedFrames_follows he host levels (hw.source_lt hi))
    fun i hi => Isolated.callees_sound he host levels (hw.source_lt hi)

theorem runUpTo_follows {e : Expression} (he : e.WellFormed) (host : Host) (levels : Nat) {k : Nat}
    (hk : k < e.code.length) (below : List Word) (depth p : Nat) :
    let frame : Frame := ⟨k, below.length, depth⟩
    Follows below 0 (runUpTo e host levels frame p) fun l =>
      .after (.enter frame) (Isolated.runCode
        (Isolated.step e.constants host (Isolated.callees e host levels) frame) 0
        (e.code[k].take p) l) := by
  intro frame s l h _
  refine Agrees.after ?_
  have hcode : e.code[k]? = some e.code[k] := List.getElem?_eq_getElem hk
  show Agrees below _ ((match e.code[k]? with | some code => _ | none => _ : Run Unit)
    { s with trace := s.trace.push (.enter frame) }) _
  rw [hcode, ← Array.toList_push]
  refine runCode_follows (fun op hop p' => ?_) 0 _ l (h.emit _) (Nat.zero_le _)
  exact frameStep_follows he host levels (List.getElem_mem hk) (List.mem_of_mem_take hop) rfl p'

/-! ## 6. Frames on the shared stack -/

/-- An invocation whose callee has ended well is settled by the number of words it left. -/
theorem invoke_of_ok {nested : Frame → Run Unit} {caller : Frame} {source inputs : Nat}
    {s s' : State} {below window : List Word} (hinputs : below.length + inputs = s.stack.height)
    (hnested : nested ⟨source, below.length, caller.depth + 1⟩ s = .ok () s')
    (hwords : s'.stack.words = below ++ window) (outputs : Nat) :
    invoke nested caller source inputs outputs s =
      if window.length = outputs then .ok () s'
      else .error (.fault (.stackMismatch source outputs window.length)) s' := by
  have hle : inputs ≤ s.stack.height := by omega
  have hbase : s.stack.height - inputs = below.length := by omega
  have hshows : Shows below s' ⟨window, ⟨s'.steps, s'.iterations⟩⟩ := ⟨hwords, rfl, rfl⟩
  show (if inputs ≤ s.stack.height then _ else _ : Run Unit) s = _
  rw [if_pos hle, hbase]
  show EStateM.bind (nested ⟨source, below.length, caller.depth + 1⟩) _ s = _
  unfold EStateM.bind
  rw [hnested]
  show EStateM.bind (Run.windowLength _) _ s' = _
  unfold EStateM.bind
  rw [windowLength_shows hshows rfl]
  show (if window.length = outputs then _ else _ : Run Unit) s' = _
  split <;> rfl

/-- **The number of words is static.** A frame of source `k` starts with the words `window`, and
only their number matters: what they are, what lies below them, the depth, the counters and the host
are arbitrary.

* Where the frame has come to a position, its window has changed by the net effect of the operations
  before it, and the words below are what they were.
* The steps of the frame in the trace show these lengths.
* Where the frame ends well, its window has changed by the net effect of the source; a caller that
  required another number of words gets the fault that names the two numbers, and no other caller
  gets one.
* Whichever mismatch ends the run, here or in a callee: an operation that was run foretold it. -/
theorem runFrame_arity {e : Expression} (h : Loaded e) (host : Host) (levels : Nat) {k : Nat}
    (hk : k < e.code.length) (below window : List Word) (depth : Nat) {s : State}
    (hs : s.stack.words = below ++ window) :
    let frame : Frame := ⟨k, below.length, depth⟩
    let code := e.code[k]
    let run := runFrame e host levels frame
    (∀ p ≤ code.length,
      run = (do
        runUpTo e host levels frame p
        runCode (step e host (nestedFrames e host levels) frame) p (code.drop p)) ∧
      ∀ s', (runUpTo e host levels frame p).run s = .ok () s' → ∃ window',
        s'.stack.words = below ++ window' ∧
        (window'.length : Int) = window.length + netEffect (code.take p)) ∧
    (∀ s', (run.run s = .ok () s' ∨ ∃ halt, run.run s = .error halt s') → ∃ events,
      s'.trace.toList = s.trace.toList ++ events ∧
      ∀ (p : Nat) (op : Operation) (n : Nat), .step frame p op n ∈ events →
        code[p]? = some op ∧ (n : Int) = window.length + netEffect (code.take p)) ∧
    (∀ s', run.run s = .ok () s' → ∃ window', s'.stack.words = below ++ window' ∧
      (window'.length : Int) = window.length + netEffect code ∧
      ∀ (caller : Frame) (outputs : Nat), caller.depth + 1 = depth →
        (invoke (runFrame e host levels) caller k window.length outputs).run s =
          if window'.length = outputs then .ok () s'
          else .error (.fault (.stackMismatch k outputs window'.length)) s') ∧
    (∀ j expected actual s', run.run s = .error (.fault (.stackMismatch j expected actual)) s' →
      ∃ op events, s'.trace.toList = s.trace.toList ++ events ∧ Ran op events ∧
        Foretold e op j expected actual) := by
  intro frame code run
  have he := h.wellFormed
  have hcode : e.code[k]? = some code := List.getElem?_eq_getElem hk
  have hshows : Shows below s ⟨window, ⟨s.steps, s.iterations⟩⟩ := ⟨hs, rfl, rfl⟩
  have hagrees : Agrees below s.trace.toList (run.run s) _ :=
    runFrame_follows he host levels hk below depth s _ hshows (Nat.zero_le _)
  have hstatic := Isolated.callees_static he host (levels + 1) hk
  refine ⟨fun p hp => ⟨runFrame_eq_runUpTo e host levels hcode hp, fun s' hs' => ?_⟩,
    fun s' hs' => ⟨_, hagrees.trace_eq hs', fun p op n hmem => ?_⟩, fun s' hs' => ?_,
    fun j expected actual s' hs' => ?_⟩
  · have hprefix := runUpTo_follows he host levels hk below depth p s _ hshows (Nat.zero_le _)
    have hend : runUpTo e host levels frame p s = .ok () s' := hs'
    rw [hend] at hprefix
    obtain ⟨l', hl', hshows'⟩ := hprefix.exists_of_ok
    have hwell : ∀ op ∈ code.take p, op.WellFormed e.constants.length e.code.length :=
      fun op hop => he _ (List.getElem_mem hk) op (List.mem_of_mem_take hop)
    have hnet := Isolated.runCode_meets_net host frame
      (fun _ hk' => Isolated.callees_sound he host levels hk') hwell 0
      ⟨window, ⟨s.steps, s.iterations⟩⟩
    exact ⟨l'.window, hshows'.words, hnet.of_ok hl'⟩
  · exact Isolated.runFrame_steps he host levels hk (step_mem_under.1 hmem)
  · rw [hs'] at hagrees
    obtain ⟨l', hl', hshows'⟩ := hagrees.exists_of_ok
    obtain ⟨code', hcode', hnet⟩ := (hstatic.length _ _ _).of_ok hl'
    cases hcode.symm.trans hcode'
    refine ⟨l'.window, hshows'.words, hnet, fun caller outputs hdepth => ?_⟩
    subst hdepth
    exact invoke_of_ok hshows.height.symm hs' hshows'.words outputs
  · have hfault := (hagrees.error_iff _).2 ⟨s', hs'⟩
    obtain ⟨op, hop, hforetold⟩ := (hstatic.regular _ _ _).mismatch hfault
    rcases hop with hnone | hran
    · cases hnone
    · exact ⟨op, _, hagrees.trace_eq (.inr ⟨_, hs'⟩), ran_under.2 hran, hforetold⟩

/-- Runs the body of a `do-while` once or never, as a word tells, and then calls a source that
leaves one word more than the call allows. -/
def oneTooMany : Expression where
  constants := []
  code :=
    [[⟨.readMemory, 0⟩, ⟨.doWhile, 0x0101⟩, ⟨.call, 0x0211⟩],
     [⟨.readMemory, 0⟩, ⟨.apply .isZero, 0⟩],
     [⟨.readMemory, 0⟩]]

/-- Whichever word it is: the call finds one word above the one below, and its source leaves two. -/
theorem runFrame_arity_oneTooMany :
    Loaded oneTooMany ∧ 0 < oneTooMany.code.length ∧ ∀ w ∈ [Word.zero, Word.one],
      let start : State := .over [Word.max] ⟨[w], ⟨7, 3⟩⟩ #[]
      (∃ s, (runUpTo oneTooMany .null 1 ⟨0, 1, 30⟩ 2).run start = .ok () s ∧
        s.stack.height = 2) ∧
      ∃ s op, (runFrame oneTooMany .null 1 ⟨0, 1, 30⟩).run start =
          .error (.fault (.stackMismatch 2 1 2)) s ∧
        Ran op s.trace.toList ∧ Foretold oneTooMany op 2 1 2 := by
  have h : Loaded oneTooMany := @Loaded.ofSources _ [] oneTooMany.sources rfl
  have hk : 0 < oneTooMany.code.length := by decide
  refine ⟨h, hk, ?_⟩
  intro w hw start
  have hstart : Shows [Word.max] start ⟨[w], ⟨7, 3⟩⟩ := State.over_shows _ _ _
  have harity := runFrame_arity h .null 1 hk [Word.max] [w] 30 hstart.words
  have hupTo := runUpTo_follows h.wellFormed .null 1 hk [Word.max] 30 2 start _ hstart
    (Nat.zero_le _)
  have hrun := runFrame_follows h.wellFormed .null 1 hk [Word.max] 30 start _ hstart
    (Nat.zero_le _)
  refine ⟨?_, ?_⟩
  · have hreached : ∃ l, (Isolated.runCode (Isolated.step [] .null
        (Isolated.callees oneTooMany .null 1) ⟨0, 1, 30⟩) 0 (oneTooMany.code[0].take 2)
        ⟨[w], ⟨7, 3⟩⟩).result = .ok l := by
      rcases List.mem_pair.1 hw with rfl | rfl
      · exact ⟨_, rfl⟩
      · exact ⟨_, rfl⟩
    obtain ⟨l, hl⟩ := hreached
    obtain ⟨trace, hs⟩ := (hupTo.ok_iff l).1 hl
    obtain ⟨window, hwords, hlength⟩ := (harity.1 2 (Nat.le_succ 2)).2 _ hs
    have hnet : netEffect (oneTooMany.code[0].take 2) = 0 := rfl
    refine ⟨_, hs, ?_⟩
    rw [hnet, Int.add_zero, Int.natCast_inj] at hlength
    rw [Stack.height_eq, hwords, List.length_append, hlength]
    rfl
  · have hmismatch : ∃ s, runFrame oneTooMany .null 1 ⟨0, 1, 30⟩ start =
        .error (.fault (.stackMismatch 2 1 2)) s := by
      refine (hrun.error_iff _).1 ?_
      rcases List.mem_pair.1 hw with rfl | rfl
      · rfl
      · rfl
    obtain ⟨s, hs⟩ := hmismatch
    obtain ⟨op, events, htrace, hran, hforetold⟩ := harity.2.2.2 2 1 2 s hs
    refine ⟨s, op, hs, ?_, hforetold⟩
    rw [htrace]
    exact hran.append_right _

end Machine

end WordMachine
