import WordMachine.Proofs.Isolation
import WordMachine.Proofs.Simulation

/-!
# A body means what it means alone

A source that a `call`, a `loop-n` or a `do-while` runs is handed some words; nothing else of its
caller's gets into what it computes. The limits alone are shared: a body may run out of steps,
iterations, depth or room where the same source, evaluated on the same words by itself, does not.

`Slack.room` compares a run with one that has more of all four left, `runFrame_respects_room`
carries the comparison through all frames, and `invocation_standalone` says what it means for an
invocation on the shared stack: if the body ends well or with a fault that is none of a limit, so
does the evaluation of its source alone, with the same words or the same fault.
-/

namespace WordMachine.Machine

/-- The faults of the limits that all frames of an evaluation share. -/
def Fault.isResource : Fault → Bool
  | .stackOverflow _ _ | .callDepthExceeded | .iterationCapExceeded | .stepBudgetExceeded => true
  | _ => false

namespace Isolated

/-! ## 1. More room -/

/-- **The second run has at least as much left of every limit.** -/
def Slack.room : Slack where
  counters c c' := c' ≤ c
  excused f := f.isResource = true
  place := fun _ position => position
  observes := True

theorem Slack.room_lawful : room.Lawful where
  step := by
    intro window c c' h
    have hsteps : c'.steps ≤ c.steps := h.1
    unfold Local.countStep
    by_cases hspent : c.steps < maxSteps
    · rw [if_pos hspent, if_pos (Nat.lt_of_le_of_lt hsteps hspent)]
      have hstep : c'.step ≤ c.step := ⟨Nat.succ_le_succ hsteps, h.2⟩
      exact .done hstep window
    · rw [if_neg hspent]
      exact .excused rfl
  iteration := by
    intro window c c' h
    have hiterations : c'.iterations ≤ c.iterations := h.2
    unfold Local.countIteration
    by_cases hspent : c.iterations < maxIterations
    · rw [if_pos hspent, if_pos (Nat.lt_of_le_of_lt hiterations hspent)]
      have hiterate : c'.iterate ≤ c.iterate := ⟨h.1, Nat.succ_le_succ hiterations⟩
      exact .done hiterate window
    · rw [if_neg hspent]
      exact .excused rfl

/-- **A frame with more room does the same**, unless a limit ends the other. -/
theorem runFrame_respects_room (e : Expression) (host : Host) :
    ∀ {levels levels' : Nat}, levels ≤ levels' → ∀ source,
      RespectsCallee .room (runFrame e host levels) (runFrame e host levels') source
  | 0, 0, _ | 0, _ + 1, _ =>
      runFrameWith_respects Slack.room_lawful (fun _ _ => rfl) e host
        fun _ _ _ _ _ _ _ _ _ => .excused rfl
  | _ + 1, _ + 1, h =>
      runFrameWith_respects Slack.room_lawful (fun _ _ => rfl) e host
        (runFrame_respects_room e host (Nat.le_of_succ_le_succ h))

/-- Nothing below, nothing counted yet: no frame has more room. -/
theorem room_frames (source base depth : Nat) :
    Slack.room.Frames ⟨source, base, depth⟩ ⟨source, 0, 0⟩ where
  source := rfl
  base_le := Nat.zero_le base
  overflow := Or.inr fun _ _ => rfl

/-- What the outcome with more room is, by the end of the run with less. -/
theorem Sim.room_outcome {a a' : Answer} (h : Sim .room a a') (entry : Nat)
    (hend : ∀ f, a.result = .error (.fault f) → f.isResource = false) :
    (a'.outcome entry).result = a.result.map (·.window) ∧
      records (a'.outcome entry).trace = records a.events := by
  have hnone : ∀ f, a.result = .error (.fault f) → ¬ f.isResource = true := by
    intro f hf hresource
    rw [hend f hf] at hresource
    cases hresource
  obtain ⟨hresult, hrecords⟩ := h.unexcused hnone
  rw [Answer.records_outcome, Answer.result_outcome, hresult]
  refine ⟨?_, hrecords trivial⟩
  cases a.result with
  | ok l => rfl
  | error halt => exact congrArg Except.error halt.relocate_self

end Isolated

/-! ## 2. Invocations -/

open Isolated (Counters)

/-- An isolated frame at any depth, above any number of words and with any counters, against the
evaluation of its source. -/
theorem body_alone {e : Expression} (he : e.WellFormed) (host : Host) {k : Nat}
    (hk : k < e.code.length) {args : List Word} (hfits : args.length ≤ maxHeight)
    (base depth : Nat) (c : Counters) :
    let body := Isolated.runFrame e host (maxDepth - depth) ⟨k, base, depth⟩ ⟨args, c⟩
    (∀ f, body.result = .error (.fault f) → f.isResource = false) →
      (eval e host k args).result = body.result.map (·.window) ∧
        records (eval e host k args).trace = records body.events := by
  intro body hend
  have hspent : ({} : Counters) ≤ c := ⟨Nat.zero_le _, Nat.zero_le _⟩
  have hsim := Isolated.runFrame_respects_room e host (Nat.sub_le maxDepth depth) k _ _ rfl
    (Isolated.room_frames k base depth) args c {} hspent
  rw [eval_eq_outcome he host hk hfits]
  exact hsim.room_outcome k hend

/-- **A body means what it means alone.** Let an operation of a loaded expression invoke a source
over the words `args`, at any depth and in any state: any words below, any counters. If the body
ends well, the evaluation of its source over `args` gives the words that the body leaves. If it ends
with a fault that is none of a limit, the evaluation ends with the same fault. In both cases the
words below show in the records of the body and make no other difference to them. -/
theorem invocation_standalone {e : Expression} (h : Loaded e) (host : Host) {ops : List Operation}
    (hops : ops ∈ e.code) {op : Operation} (hop : op ∈ ops) {i : Invocation}
    (hi : op.invocation? = some i) (below : List Word) {args : List Word}
    (hargs : args.length = i.inputs) (depth : Nat) {s : State}
    (hs : s.stack.words = below ++ args) :
    let body := (runFrame e host (maxDepth - depth) ⟨i.source, below.length, depth⟩).run s
    let alone := eval e host i.source args
    let seen := records s.trace.toList ++ (records alone.trace).map (·.under below)
    (∀ s', body = .ok () s' → ∃ left, s'.stack.words = below ++ left ∧
      alone.result = .ok left ∧ records s'.trace.toList = seen) ∧
    (∀ halt s', body = .error halt s' → ∃ f, halt = .fault f ∧ (f.isResource = false →
      alone.result = .error (.fault f) ∧ records s'.trace.toList = seen)) := by
  intro body alone seen
  have he := h.wellFormed
  have hsource : i.source < e.code.length := (he ops hops op hop).source_lt hi
  have hfits : args.length ≤ maxHeight := by
    have hfew := Operation.inputs_lt_of_invocation? hi
    rw [hargs]
    exact Nat.le_trans (Nat.le_of_lt hfew) (by decide)
  have hagrees : Agrees below s.trace.toList body _ :=
    runFrame_follows he host (maxDepth - depth) hsource below depth s
      ⟨args, ⟨s.steps, s.iterations⟩⟩ ⟨hs, rfl, rfl⟩ (Nat.zero_le _)
  have hsound := Isolated.runFrame_meets he host (maxDepth - depth) hsource below.length depth
    ⟨args, ⟨s.steps, s.iterations⟩⟩
  have halone := body_alone he host hsource hfits below.length depth ⟨s.steps, s.iterations⟩
  have hseen : ∀ {trace events : List Event}, records alone.trace = records events →
      trace = s.trace.toList ++ events.map (·.under below) → records trace = seen := by
    intro trace events hrecords htrace
    rw [htrace, records_append, records_map_under, ← hrecords]
  refine ⟨fun s' hbody => ?_, fun halt s' hbody => ?_⟩
  · obtain ⟨l, hl, shows⟩ := (hbody ▸ hagrees).exists_of_ok
    obtain ⟨hresult, hrecords⟩ := halone fun f hf => by rw [hl] at hf; cases hf
    rw [hl] at hresult
    exact ⟨l.window, shows.words, hresult, hseen hrecords (hagrees.trace_eq (Or.inl hbody))⟩
  · have hhalt := (hagrees.error_iff halt).2 ⟨s', hbody⟩
    cases halt with
    | stuck => exact absurd hhalt hsound.ne_stuck
    | fault f =>
        refine ⟨f, rfl, fun hresource => ?_⟩
        obtain ⟨hresult, hrecords⟩ := halone fun f' hf => by
          rw [hhalt] at hf
          cases hf
          exact hresource
        rw [hhalt] at hresult
        exact ⟨hresult, hseen hrecords (hagrees.trace_eq (Or.inr ⟨_, hbody⟩))⟩

/-- Takes the upper of two words from the lower, in a source of its own. -/
def difference : Expression where
  constants := []
  code :=
    [[⟨.call, 0x0112⟩],
     [⟨.debug, 0⟩, ⟨.apply .sub, 2⟩]]

/-- That source, invoked above a word and at depth seven. -/
def difference.body (upper : Word) : EStateM.Result Halt State Unit :=
  (runFrame difference .null (maxDepth - 7) ⟨1, 1, 7⟩).run
    (.over [Word.max] ⟨[Word.one, upper], ⟨99, 5⟩⟩ #[])

/-- One from one is zero, and more cannot be taken from it, neither there nor alone. -/
theorem invocation_standalone_difference :
    Loaded difference ∧
      (∃ s, difference.body Word.one = .ok () s ∧ s.stack.words = [Word.max, Word.zero]) ∧
      (eval difference .null 1 [Word.one, Word.one]).result = .ok [Word.zero] ∧
      (∃ s, difference.body Word.max = .error (.fault (.arithmetic .sub .underflow)) s) ∧
      (eval difference .null 1 [Word.one, Word.max]).result =
        .error (.fault (.arithmetic .sub .underflow)) := by
  have h : Loaded difference := @Loaded.ofSources _ [] difference.sources rfl
  have halone : ∀ upper, _ := fun upper =>
    @invocation_standalone difference h .null _ List.mem_cons_self _ List.mem_cons_self ⟨1, 2, 1⟩
      (by decide) [Word.max] [Word.one, upper] rfl 7
      (.over [Word.max] ⟨[Word.one, upper], ⟨99, 5⟩⟩ #[]) rfl
  refine ⟨h, ⟨_, rfl, rfl⟩, ?_, ⟨_, rfl⟩, ?_⟩
  · obtain ⟨left, hwords, hresult, -⟩ := (halone Word.one).1 _ rfl
    have hleft : [Word.max, Word.zero] = [Word.max] ++ left := hwords
    cases hleft
    exact hresult
  · obtain ⟨f, hf, hresult⟩ := (halone Word.max).2 _ _ rfl
    cases hf
    exact (hresult rfl).1

end WordMachine.Machine
