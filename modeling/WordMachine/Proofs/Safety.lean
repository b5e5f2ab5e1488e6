import WordMachine.Proofs.Isolation
import WordMachine.Proofs.Listeners

/-!
# Loaded expressions do not get stuck

What loading buys. The machine stops with `Halt.stuck` wherever it would have to use a constant, a
source, a word, an input of a function or a debug mode that is not there, or to count down below
zero. `loaded_eval_safe` says that no evaluation of a loaded expression comes to that: it ends with
a stack or with a fault.

The theorem is about a stricter machine as well, which after each instruction asserts that the
stack has changed its height by the effect of the instruction and gets stuck if it has not
(`evalAsserting`). The two machines have the same outcomes, so the assertion never fails. And it is
about the machine before a sink, which ends as the machine with a trace does.
-/

namespace WordMachine.Machine

open Isolated (Local Answer Callee)

/-! ## 1. The asserting machine -/

/-- Runs an instruction and asserts that it took the inputs of its effect from the stack and left
the outputs there. -/
def asserting (effect : StackEffect) (x : Run Unit) : Run Unit := do
  let before ← get
  x
  let after ← get
  if effect.inputs ≤ before.stack.height ∧
      after.stack.height = before.stack.height - effect.inputs + effect.outputs then return
  else Run.stuck

/-- Runs a frame, asserting each effect; nested frames run as given. -/
def runFrameAssertingWith (e : Expression) (host : Host) (nested : Frame → Run Unit)
    (frame : Frame) : Run Unit := do
  Run.emit (.enter frame)
  match e.code[frame.source]? with
  | some code => runCode (fun p op => asserting op.effect (step e host nested frame p op)) 0 code
  | none => Run.stuck

/-- Runs a frame below which `levels` more may nest, asserting each effect. -/
def runFrameAsserting (e : Expression) (host : Host) : (levels : Nat) → Frame → Run Unit
  | 0 => runFrameAssertingWith e host fun _ => Run.fail .callDepthExceeded
  | levels + 1 => runFrameAssertingWith e host (runFrameAsserting e host levels)

/-- Evaluates a source, asserting each effect. -/
def evalAsserting (e : Expression) (host : Host) (entry : Nat) (inputs : List Word) : Outcome :=
  if e.code.length ≤ entry then ⟨.error (.fault (.unknownSource entry e.code.length)), []⟩
  else if maxHeight < inputs.length then ⟨.error (.fault (.stackOverflow entry 0)), []⟩
  else
    .ofRun entry
      ((runFrameAsserting e host maxDepth ⟨entry, 0, 0⟩).run
        { stack := Stack.ofWords inputs, trace := #[] })

/-! ## 2. Its frames are isolated too -/

/-- **An assertion that the isolated run justifies does not show.** -/
theorem asserting_follows {below : List Word} {effect : StackEffect} {x : Run Unit}
    {f : Local → Answer} (hx : Follows below 0 x f)
    (hf : ∀ l, (f l).Meets fun l' => effect.inputs ≤ l.window.length ∧
      l'.window.length = l.window.length - effect.inputs + effect.outputs) :
    Follows below 0 (asserting effect x) f := by
  intro s l h hn
  have hrun := hx s l h hn
  have hmeets := hf l
  show Agrees below s.trace.toList (EStateM.bind x _ s) (f l)
  unfold EStateM.bind
  generalize x s = r at hrun ⊢
  generalize f l = a at hrun hmeets ⊢
  cases hrun with
  | @ok s' l' events shows trace =>
      obtain ⟨hinputs, hlength⟩ := hmeets
      have hbefore := h.height
      have hafter := shows.height
      have hassert : effect.inputs ≤ s.stack.height ∧
          s'.stack.height = s.stack.height - effect.inputs + effect.outputs := by omega
      show Agrees below s.trace.toList ((if effect.inputs ≤ s.stack.height ∧
        s'.stack.height = s.stack.height - effect.inputs + effect.outputs then _ else _ :
          Run Unit) s') _
      rw [if_pos hassert]
      exact .ok shows trace
  | error trace => exact .error trace

theorem runFrameAssertingWith_follows {e : Expression} (he : e.WellFormed) (host : Host)
    {nested : Frame → Run Unit} {callee : Callee}
    (hnested : ∀ k, k < e.code.length → FollowsCallee nested callee k)
    (hcallee : ∀ k, k < e.code.length → callee.Sound k) {k : Nat} (hk : k < e.code.length) :
    FollowsCallee (runFrameAssertingWith e host nested)
      (Isolated.runFrameWith e host callee) k := by
  refine frame_follows hk fun below depth op hop p => ?_
  have hw := he _ (List.getElem_mem hk) op hop
  have hsound : ∀ i, op.invocation? = some i → callee.Sound i.source :=
    fun i hi => hcallee _ (hw.source_lt hi)
  refine asserting_follows (step_follows host rfl p hw (fun i hi => hnested _ (hw.source_lt hi))
    hsound) fun l => ?_
  exact (Isolated.step_meets host _ p hw hsound l).mono fun _ h => ⟨h.1, h.2.length⟩

theorem runFrameAsserting_follows {e : Expression} (he : e.WellFormed) (host : Host) :
    ∀ (levels : Nat) {k : Nat}, k < e.code.length →
      FollowsCallee (runFrameAsserting e host levels) (Isolated.runFrame e host levels) k
  | 0, _, hk =>
      runFrameAssertingWith_follows he host (fun _ _ _ _ _ _ _ _ => .halt _)
        (fun _ _ _ _ _ => Isolated.meets_fail _) hk
  | levels + 1, _, hk =>
      runFrameAssertingWith_follows he host
        (fun _ hk' => runFrameAsserting_follows he host levels hk')
        (fun _ hk' => Isolated.runFrame_meets he host levels hk') hk

/-! ## 3. Evaluations -/

theorem evalAsserting_eq_outcome {e : Expression} (he : e.WellFormed) (host : Host) {entry : Nat}
    (hentry : entry < e.code.length) {inputs : List Word} (hinputs : inputs.length ≤ maxHeight) :
    evalAsserting e host entry inputs =
      (Isolated.runFrame e host maxDepth ⟨entry, 0, 0⟩ ⟨inputs, {}⟩).outcome entry := by
  unfold evalAsserting
  rw [if_neg (Nat.not_le.2 hentry), if_neg (Nat.not_lt.2 hinputs)]
  refine Agrees.outcome ?_ entry
  exact runFrameAsserting_follows he host maxDepth hentry [] 0 (.over [] ⟨inputs, {}⟩ #[])
    ⟨inputs, {}⟩ (State.over_shows _ _ _) (Nat.zero_le _)

theorem evalAsserting_eq {e : Expression} (he : e.WellFormed) (host : Host) (entry : Nat)
    (inputs : List Word) : evalAsserting e host entry inputs = eval e host entry inputs := by
  by_cases hentry : entry < e.code.length
  · by_cases hinputs : inputs.length ≤ maxHeight
    · rw [evalAsserting_eq_outcome he host hentry hinputs, eval_eq_outcome he host hentry hinputs]
    · have hmany : maxHeight < inputs.length := Nat.not_le.1 hinputs
      rw [eval_of_many host (Nat.not_le.2 hentry) hmany]
      unfold evalAsserting
      rw [if_neg (Nat.not_le.2 hentry), if_pos hmany]
  · have hnone : e.code.length ≤ entry := Nat.not_lt.1 hentry
    rw [eval_of_unknown host hnone]
    unfold evalAsserting
    rw [if_pos hnone]

/-- Well-formed expressions end with words or with a fault. -/
theorem eval_ends {e : Expression} (he : e.WellFormed) (host : Host) (entry : Nat)
    (inputs : List Word) :
    (∃ words, (eval e host entry inputs).result = .ok words) ∨
      ∃ f, (eval e host entry inputs).result = .error (.fault f) := by
  by_cases hentry : entry < e.code.length
  · by_cases hinputs : inputs.length ≤ maxHeight
    · rw [eval_eq_outcome he host hentry hinputs, Isolated.Answer.result_outcome]
      have hsound := Isolated.runFrame_meets he host maxDepth hentry 0 0 ⟨inputs, {}⟩
      generalize Isolated.runFrame e host maxDepth ⟨entry, 0, 0⟩ ⟨inputs, {}⟩ = a at hsound
      obtain ⟨events, result⟩ := a
      cases result with
      | ok l => exact Or.inl ⟨l.window, rfl⟩
      | error halt =>
          cases halt with
          | fault f => exact Or.inr ⟨f, rfl⟩
          | stuck => exact absurd rfl hsound
    · rw [eval_of_many host (Nat.not_le.2 hentry) (Nat.not_le.1 hinputs)]
      exact Or.inr ⟨_, rfl⟩
  · rw [eval_of_unknown host (Nat.not_lt.1 hentry)]
    exact Or.inr ⟨_, rfl⟩

/-- **What loading buys.** An evaluation of a loaded expression, from any entry, over any inputs and
with any host, ends with a stack or with a fault: nothing that the machine looks up is missing. The
asserting machine has the same outcome, so every instruction that ran kept to its stack effect.
Before every sink, and without one, the evaluation ends in the same way. -/
theorem loaded_eval_safe {e : Expression} (h : Loaded e) (host : Host) (entry : Nat)
    (inputs : List Word) :
    ((∃ words, (eval e host entry inputs).result = .ok words) ∨
      ∃ f, (eval e host entry inputs).result = .error (.fault f)) ∧
    evalAsserting e host entry inputs = eval e host entry inputs ∧
    ∀ (σ : Type) (sink : Option (Watched.Sink σ)) (own : σ),
      (Watched.eval sink own e host entry inputs).result = (eval e host entry inputs).result :=
  ⟨eval_ends h.wellFormed host entry inputs, evalAsserting_eq h.wellFormed host entry inputs,
    fun _ sink own => Watched.result_eval sink own e host entry inputs⟩

/-- Looks up constants, a source in a `do-while`, a word of the window, a debug mode, and a host
value. -/
def lookups : Expression where
  constants := [Word.one]
  code :=
    [[⟨.readMemory, 1⟩, ⟨.readMemory, 1⟩, ⟨.doWhile, 0x0101⟩, ⟨.debug, 0⟩, ⟨.scalar .caller, 0⟩],
     [⟨.readMemory, 0⟩, ⟨.apply .isZero, 0⟩]]

/-- All of them are there but the host value, and its absence is a fault. -/
theorem loaded_eval_safe_lookups :
    Loaded lookups ∧
      (eval lookups .null 0 []).result = .error (.fault (.host (.unsupported (.scalar .caller)))) ∧
      evalAsserting lookups .null 0 [] = eval lookups .null 0 [] := by
  have h : Loaded lookups := @Loaded.ofSources _ [Word.one] lookups.sources rfl
  refine ⟨h, ?_, (loaded_eval_safe h .null 0 []).2.1⟩
  rw [eval_eq_outcome h.wellFormed .null (by decide) (by decide)]
  rfl

end WordMachine.Machine
