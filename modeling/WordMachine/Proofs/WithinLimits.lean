import WordMachine.Proofs.Moves

/-!
# Evaluations keep within the limits

The machine checks its four limits at different places: the step budget before each instruction, the
height of the stack before the instructions that make it grow, the depth where an invocation begins
and the iterations where a `do-while` goes round. Here it is shown that this is enough at every point
of every evaluation (`eval_keeps_limits`), and that the frames that are entered are bounded by the
instructions and iterations: a `call` or a `loop-n` enters at most fifteen and an iteration one, even
where the bodies are empty and cost no steps.

* `Within` is the invariant; `Within.next` says that a move keeps it, `Path.within` that a path does;
* the frames are counted against what the pending tasks will still enter (`entriesOf`).
-/

namespace WordMachine.Machine

open Run

/-! ## 1. What pending tasks will enter -/

/-- The frame in which a task is done. -/
def Task.frame : Task → Frame
  | .enter frame | .code frame _ _ | .rounds frame _ _ | .test frame _ | .settle frame _ => frame

/-- How many frames a task enters before it makes way for other tasks or is done. An instruction or
an iteration pays for its own. -/
def Task.entries : Task → Nat
  | .enter _ => 1
  | .rounds _ _ left => left
  | .code _ _ _ | .test _ _ | .settle _ _ => 0

/-- How many frames some tasks enter. -/
def entriesOf : List Task → Nat
  | [] => 0
  | task :: rest => task.entries + entriesOf rest

/-- What is left to do. -/
def Config.pending (c : Config) : List Task :=
  match c.tasks with
  | .ok tasks => tasks
  | .error _ => []

/-- No more than `n` entries are pending, and no frame is too deep. -/
structure Pending (n : Nat) (tasks : List Task) : Prop where
  entries : entriesOf tasks ≤ n
  depth : ∀ task ∈ tasks, task.frame.depth ≤ maxDepth

section Pending

variable {m n : Nat} {tasks rest : List Task}

theorem entriesOf_append (tasks rest : List Task) :
    entriesOf (tasks ++ rest) = entriesOf tasks + entriesOf rest := by
  induction tasks with
  | nil => exact (Nat.zero_add _).symm
  | cons task tasks ih =>
      show task.entries + entriesOf (tasks ++ rest) = task.entries + entriesOf tasks + entriesOf rest
      rw [ih, Nat.add_assoc]

theorem Pending.nil : Pending 0 [] := ⟨Nat.le_refl _, fun _ h => absurd h List.not_mem_nil⟩

theorem Pending.mono (h : Pending m tasks) (hmn : m ≤ n) : Pending n tasks :=
  ⟨Nat.le_trans h.entries hmn, h.depth⟩

theorem Pending.cons (h : Pending n rest) (task : Task) (hdepth : task.frame.depth ≤ maxDepth) :
    Pending (task.entries + n) (task :: rest) := by
  refine ⟨Nat.add_le_add_left h.entries _, fun t ht => ?_⟩
  rcases List.mem_cons.1 ht with rfl | ht
  · exact hdepth
  · exact h.depth t ht

theorem Pending.tail {task : Task} (h : Pending n (task :: rest)) :
    task.frame.depth ≤ maxDepth ∧ ∃ k, task.entries + k ≤ n ∧ Pending k rest :=
  ⟨h.depth task List.mem_cons_self, entriesOf rest, h.entries, Nat.le_refl _,
    fun t ht => h.depth t (List.mem_cons_of_mem _ ht)⟩

theorem Pending.append (h : Pending m tasks) (h' : Pending n rest) :
    Pending (m + n) (tasks ++ rest) := by
  refine ⟨?_, fun t ht => ?_⟩
  · rw [entriesOf_append]
    exact Nat.add_le_add h.entries h'.entries
  · rcases List.mem_append.1 ht with ht | ht
    · exact h.depth t ht
    · exact h'.depth t ht

/-- What a part of a task leaves behind comes before the rest; after a halt nothing is pending. -/
theorem Pending.resume {r : EStateM.Result Halt State (List Task)}
    (hr : ∀ tasks s, r = .ok tasks s → Pending m tasks) (h : Pending n rest) :
    Pending (m + n) (Config.resume rest r).pending := by
  cases r with
  | ok tasks s => exact (hr tasks s rfl).append h
  | error halt s => exact Pending.nil.mono (Nat.zero_le _)

end Pending

/-! ## 2. What the parts leave behind -/

/-- A `call` enters one frame and a `loop-n` at most fifteen: its count has four bits. -/
theorem taskOf?_entries {frame : Frame} {op : Operation} {task : Task}
    (h : taskOf? frame op = some task) : task.frame = frame ∧ task.entries ≤ 15 := by
  obtain ⟨opcode, operand⟩ := op
  cases opcode with
  | call =>
      cases h
      exact ⟨rfl, Nat.le_add_left 1 14⟩
  | loopN =>
      cases h
      exact ⟨rfl, Nat.le_of_lt_succ (LoopOperand.ofBits operand).count.isLt⟩
  | doWhile =>
      cases h
      exact ⟨rfl, Nat.zero_le _⟩
  | _ => cases h

theorem operate_pending {e : Expression} {host : Host} {frame : Frame} {position : Nat}
    {op : Operation} {s s' : State} (hdepth : frame.depth ≤ maxDepth) {tasks : List Task}
    (h : operate e host frame position op s = .ok tasks s') : Pending 15 tasks := by
  unfold operate at h
  cases htask : taskOf? frame op with
  | some task =>
      rw [htask] at h
      cases h
      obtain ⟨hframe, hentries⟩ := taskOf?_entries htask
      exact (Pending.nil.cons task (hframe.symm ▸ hdepth)).mono hentries
  | none =>
      rw [htask] at h
      dsimp only at h
      cases hx : execute e host (fun _ => stuck) frame position op s with
      | ok a s'' =>
          rw [Run.bind_of_ok hx] at h
          cases h
          exact Pending.nil.mono (Nat.zero_le _)
      | error halt s'' =>
          rw [Run.bind_of_error hx] at h
          cases h

theorem invite_pending {caller : Frame} {i : Invocation} {s s' : State} {tasks : List Task}
    (h : invite caller i s = .ok tasks s') : Pending 1 tasks := by
  rcases invite_cases caller i s with ⟨callee, hdepth, hcallee, heq⟩ | ⟨halt, heq⟩
  · rw [heq] at h
    cases h
    have hle : callee.depth ≤ maxDepth := by omega
    exact (Pending.nil.cons (.settle callee i.outputs) hle).cons (.enter callee) hle
  · rw [heq] at h
    cases h

theorem openFrame_pending {e : Expression} {frame : Frame} {s s' : State}
    (hdepth : frame.depth ≤ maxDepth) {tasks : List Task}
    (h : openFrame e frame s = .ok tasks s') : Pending 0 tasks := by
  rcases openFrame_cases e frame s with ⟨code, heq⟩ | ⟨halt, heq⟩
  · rw [heq] at h
    cases h
    exact Pending.nil.cons (.code frame 0 code) hdepth
  · rw [heq] at h
    cases h

theorem closeFrame_pending {callee : Frame} {outputs : Nat} {s s' : State} {tasks : List Task}
    (h : closeFrame callee outputs s = .ok tasks s') : Pending 0 tasks := by
  rcases closeFrame_cases callee outputs s with heq | ⟨halt, heq⟩
  · rw [heq] at h
    cases h
    exact .nil
  · rw [heq] at h
    cases h

/-- **A move enters what was pending**; a dispatched instruction adds at most fifteen entries, an
iteration one. -/
theorem Task.move_pending (e : Expression) (host : Host) {rest : List Task} (s : State) {task : Task}
    {n : Nat} (h : Pending n (task :: rest)) :
    ∃ k, Pending k (task.move e host rest s).2.pending ∧
      [(task.move e host rest s).1].countP Move.isEnter + k ≤
        n + 15 * [(task.move e host rest s).1].count .dispatch +
          [(task.move e host rest s).1].count .iterate := by
  obtain ⟨hdepth, k, hk, hrest⟩ := h.tail
  cases task with
  | enter frame =>
      refine ⟨0 + k, hrest.resume fun tasks s' => openFrame_pending hdepth, ?_⟩
      show 1 + (0 + k) ≤ n
      have hone : 1 + k ≤ n := hk
      omega
  | code frame p ops =>
      have hzero : k ≤ n := Nat.le_trans (Nat.le_add_left _ _) hk
      cases ops with
      | nil => exact ⟨k, hrest, Nat.le_trans (Nat.le_of_eq (Nat.zero_add _)) hzero⟩
      | cons op ops =>
          dsimp only [Task.move]
          cases approve frame p op s with
          | ok a s' =>
              -- the instruction pays fifteen entries, as many as a `loop-n` can ask for
              refine ⟨15 + (0 + k), (hrest.cons (.code frame (p + 1) ops) hdepth).resume
                fun tasks s'' => operate_pending hdepth, ?_⟩
              show 0 + (15 + (0 + k)) ≤ n + 15
              omega
          | error halt s' =>
              exact ⟨0, .nil, Nat.zero_le _⟩
  | rounds caller i left =>
      cases left with
      | zero => exact ⟨k, hrest, Nat.le_trans (Nat.le_of_eq (Nat.zero_add _))
          (Nat.le_trans (Nat.le_add_left _ _) hk)⟩
      | succ left =>
          refine ⟨1 + (left + k), (hrest.cons (.rounds caller i left) hdepth).resume
            fun tasks s' => invite_pending, ?_⟩
          show 0 + (1 + (left + k)) ≤ n
          have hleft : left + 1 + k ≤ n := hk
          omega
  | test caller i =>
      have hzero : k ≤ n := Nat.le_trans (Nat.le_add_left _ _) hk
      dsimp only [Task.move]
      rcases testCondition s with ⟨_ | _, s'⟩ | ⟨halt, s'⟩
      · exact ⟨k, hrest, Nat.le_trans (Nat.le_of_eq (Nat.zero_add _)) hzero⟩
      · refine ⟨1 + (0 + k), (hrest.cons (.test caller i) hdepth).resume
          fun tasks s'' => invite_pending, ?_⟩
        show 0 + (1 + (0 + k)) ≤ n + 1
        omega
      · exact ⟨0, .nil, Nat.zero_le _⟩
  | settle callee outputs =>
      refine ⟨0 + k, hrest.resume fun tasks s' => closeFrame_pending, ?_⟩
      show 0 + (0 + k) ≤ n
      have hle : 0 + k ≤ n := hk
      omega

/-! ## 3. The invariant -/

/-- **What holds after some moves from the start of an evaluation.** -/
structure Within (moves : List Move) (c : Config) : Prop where
  height : c.state.stack.height ≤ maxHeight
  steps : c.state.steps ≤ maxSteps
  dispatched : moves.count .dispatch ≤ c.state.steps
  iterations : c.state.iterations ≤ maxIterations
  iterated : moves.count .iterate ≤ c.state.iterations
  /-- The frames that were entered and those that pending tasks enter. -/
  pending : ∃ k, Pending k c.pending ∧ moves.countP Move.isEnter + k ≤
    1 + 15 * moves.count .dispatch + moves.count .iterate
  depth : ∀ frame, .enter frame ∈ moves → frame.depth ≤ maxDepth
  recorded : (records c.state.trace.toList).length ≤ moves.count .dispatch
  record_le : ∀ r ∈ records c.state.trace.toList, r.words.length ≤ maxHeight

theorem Within.start (entry : Nat) {inputs : List Word} (h : inputs.length ≤ maxHeight) :
    Within [] (.start entry inputs) where
  height := by
    show (Stack.ofWords inputs).height ≤ maxHeight
    rw [Stack.height_eq, Stack.words_ofWords]
    exact h
  steps := Nat.zero_le _
  dispatched := Nat.le_refl _
  iterations := Nat.zero_le _
  iterated := Nat.le_refl _
  pending := ⟨1, Pending.nil.cons (.enter ⟨entry, 0, 0⟩) (Nat.zero_le _), Nat.le_refl _⟩
  depth := fun _ h => absurd h List.not_mem_nil
  recorded := Nat.le_refl _
  record_le := fun _ h => absurd h List.not_mem_nil

/-- A frame that is entered was pending. -/
theorem Task.depth_of_move_enter {e : Expression} {host : Host} {rest : List Task} {s : State}
    {task : Task} (hdepth : task.frame.depth ≤ maxDepth) {frame : Frame}
    (h : (task.move e host rest s).1 = .enter frame) : frame.depth ≤ maxDepth := by
  cases task with
  | enter frame' =>
      cases h
      exact hdepth
  | code frame' p ops =>
      cases ops with
      | nil => cases h
      | cons op ops =>
          dsimp only [Task.move] at h
          cases hr : approve frame' p op s with
          | ok a s' =>
              rw [hr] at h
              cases h
          | error halt s' =>
              rw [hr] at h
              cases h
  | rounds caller i left => cases left <;> cases h
  | test caller i =>
      dsimp only [Task.move] at h
      rcases hr : testCondition s with ⟨_ | _, s'⟩ | ⟨halt, s'⟩
      all_goals
        rw [hr] at h
        cases h
  | settle callee outputs => cases h

/-- **A move keeps within the limits.** -/
theorem Within.next {e : Expression} {host : Host} {moves : List Move} {c c' : Config} {m : Move}
    (h : Within moves c) (hnext : c.next e host = some (m, c')) : Within (moves ++ [m]) c' := by
  have hprogress := Config.next_progress hnext
  obtain ⟨new, hrecords, hnew, hwords⟩ := hprogress.recorded
  obtain ⟨k, hpending, hentered⟩ := h.pending
  obtain ⟨tasks, s⟩ := c
  rcases tasks with halt | _ | ⟨task, rest⟩
  · cases hnext
  · cases hnext
  have hmove : task.move e host rest s = (m, c') := Option.some.inj hnext
  constructor
  case height => exact Nat.le_trans hprogress.height (Nat.max_le.2 ⟨h.height, Nat.le_refl _⟩)
  case steps => exact Nat.le_trans hprogress.steps_le (Nat.max_le.2 ⟨h.steps, Nat.le_refl _⟩)
  case dispatched =>
    rw [List.count_append]
    exact Nat.le_trans (Nat.add_le_add_right h.dispatched _) hprogress.steps
  case iterations =>
    exact Nat.le_trans hprogress.iterations_le (Nat.max_le.2 ⟨h.iterations, Nat.le_refl _⟩)
  case iterated =>
    rw [List.count_append]
    exact Nat.le_trans (Nat.add_le_add_right h.iterated _) hprogress.iterations
  case pending =>
    obtain ⟨k', hpending', hentered'⟩ := task.move_pending e host s hpending
    rw [hmove] at hpending' hentered'
    dsimp only at hentered'
    refine ⟨k', hpending', ?_⟩
    rw [List.countP_append, List.count_append, List.count_append]
    omega
  case depth =>
    intro frame hframe
    rcases List.mem_append.1 hframe with hframe | hframe
    · exact h.depth frame hframe
    · have hentry : (task.move e host rest s).1 = .enter frame := by
        rw [hmove]
        exact (List.mem_singleton.1 hframe).symm
      exact Task.depth_of_move_enter (hpending.depth task List.mem_cons_self) hentry
  case recorded =>
    rw [hrecords, List.length_append, List.count_append]
    exact Nat.add_le_add h.recorded hnew
  case record_le =>
    intro r hr
    rw [hrecords] at hr
    rcases List.mem_append.1 hr with hr | hr
    · exact h.record_le r hr
    · exact Nat.le_trans (hwords r hr) h.height

theorem Path.within {e : Expression} {host : Host} {c c' : Config} {moves : List Move}
    (h : Path e host c moves c') : ∀ {before : List Move}, Within before c →
      Within (before ++ moves) c' := by
  induction h with
  | stay =>
      intro before hc
      rw [List.append_nil]
      exact hc
  | @move _ _ _ m moves first _ ih =>
      intro before hc
      have hrest := ih (hc.next first)
      rw [List.append_assoc] at hrest
      exact hrest

/-! ## 4. Evaluations -/

/-- **What the limits are to bound at a point of an evaluation**: the words on the stack, and what
has happened in the moves so far. -/
structure KeepsLimits (moves : List Move) (c : Config) : Prop where
  height : c.state.stack.height ≤ 1024
  dispatched : moves.count .dispatch ≤ 65536
  bodies : moves.count .iterate ≤ 1024
  depth : ∀ frame, .enter frame ∈ moves → frame.depth ≤ 32
  entered : moves.countP Move.isEnter ≤ 1 + 15 * 65536 + 1024

theorem Within.keepsLimits {moves : List Move} {c : Config} (h : Within moves c) :
    KeepsLimits moves c := by
  have hdispatched : moves.count .dispatch ≤ 65536 := Nat.le_trans h.dispatched h.steps
  have hbodies : moves.count .iterate ≤ 1024 := Nat.le_trans h.iterated h.iterations
  refine ⟨h.height, hdispatched, hbodies, h.depth, ?_⟩
  obtain ⟨k, -, hentered⟩ := h.pending
  omega

/-- The outcome at the end shows the stack and the records of the last state. -/
theorem Config.outcome?_eq_some {entry : Nat} {c : Config} {o : Outcome}
    (h : c.outcome? entry = some o) :
    (∀ words, o.result = .ok words → words.length = c.state.stack.height) ∧
      records o.trace = records c.state.trace.toList := by
  obtain ⟨tasks, s⟩ := c
  rcases tasks with halt | _ | ⟨task, rest⟩
  · cases h
    refine ⟨fun words hwords => (by cases hwords), ?_⟩
    exact (records_push _ _).trans (List.append_nil _)
  · cases h
    refine ⟨fun words hwords => ?_, (records_push _ _).trans (List.append_nil _)⟩
    cases hwords
    exact (Stack.height_eq _).symm
  · cases h

/-- **Every evaluation that gets past its entry checks keeps within the limits**, at every point and
however it ends; whether the expression was loaded does not matter. Every point leads on to the
outcome, whose stack, if it has one, and whose records are bounded, too. -/
theorem eval_keeps_limits (e : Expression) (host : Host) {entry : Nat}
    (hentry : entry < e.code.length) {inputs : List Word} (hinputs : inputs.length ≤ 1024) :
    (∀ moves c, Path e host (.start entry inputs) moves c → KeepsLimits moves c ∧
      ∃ c', Reaches e host c c' ∧ c'.outcome? entry = some (eval e host entry inputs)) ∧
    (∀ words, (eval e host entry inputs).result = .ok words → words.length ≤ 1024) ∧
    (∀ r ∈ records (eval e host entry inputs).trace, r.words.length ≤ 1024) ∧
    (records (eval e host entry inputs).trace).length ≤ 65536 := by
  obtain ⟨last, hlast, houtcome⟩ := start_reaches_eval e host hentry hinputs
  have hwithin : ∀ moves c, Path e host (.start entry inputs) moves c → Within moves c :=
    fun moves c h => h.within (Within.start entry hinputs)
  obtain ⟨moves, hmoves⟩ := hlast
  have hend := hwithin moves last hmoves
  obtain ⟨hwords, hrecords⟩ := Config.outcome?_eq_some houtcome
  rw [hrecords]
  refine ⟨fun moves' c hpath => ⟨(hwithin moves' c hpath).keepsLimits, last, ?_, houtcome⟩,
    fun words h => ?_, hend.record_le, ?_⟩
  · exact hpath.reaches_last ⟨moves, hmoves⟩ (Config.next_of_outcome? houtcome)
  · rw [hwords words h]
    exact hend.height
  · exact Nat.le_trans hend.recorded (Nat.le_trans hend.dispatched hend.steps)

/-- A `do-while` whose body leaves a true condition. -/
def endless : Expression where
  constants := [Word.one]
  code :=
    [[⟨.readMemory, 1⟩, ⟨.doWhile, 0x0100⟩],
     [⟨.readMemory, 1⟩]]

/-- Its bodies are cut off, whichever way they are counted. -/
theorem eval_keeps_limits_endless :
    0 < endless.code.length ∧ ([] : List Word).length ≤ 1024 ∧
      ∀ moves c, Path endless .null (.start 0 []) moves c →
        moves.count .iterate ≤ 1024 ∧ c.state.stack.height ≤ 1024 := by
  have hentry : 0 < endless.code.length := by decide
  refine ⟨hentry, Nat.zero_le _, fun moves c hpath => ?_⟩
  have hpoint := (eval_keeps_limits endless .null hentry (Nat.zero_le _)).1 moves c hpath
  exact ⟨hpoint.1.bodies, hpoint.1.height⟩

end WordMachine.Machine
