import WordMachine.Proofs.Arity
import WordMachine.Proofs.Recursion
import WordMachine.Proofs.Standalone

/-!
# A do-while is a loop over evaluations

A `do-while` takes its condition off the stack it shares with everybody, runs its body in the middle
of an evaluation and counts the bodies of all loops together. What it computes is nevertheless a
plain loop: the body is the evaluation of a source alone, and what it gives is the next condition
and the words below it.

* `LoopRun` is the loop, round after round, with what each round starts from;
* `loopBody_cases` puts one round beside the evaluation of its source;
* `whileTrue_eq_ok` reads a loop off a `do-while` that ended well, and `whileTrue_of_loopRun` says
  what a `do-while` does where there is a loop: it ends with the words of the loop, or at a limit,
  or at the first round that leaves too few or too many words;
* `doWhile_is_loop` says both of a `do-while` on the shared stack.
-/

namespace WordMachine

namespace DoWhileOperand

variable (d : DoWhileOperand)

theorem invocation?_doWhile :
    (⟨.doWhile, d.toBits⟩ : Operation).invocation? = some ⟨d.source, d.inputs, d.inputs + 1⟩ := by
  unfold Operation.invocation?
  dsimp only
  rw [ofBits_toBits]

theorem effect_doWhile :
    (⟨.doWhile, d.toBits⟩ : Operation).effect = ⟨d.inputs + 1, d.inputs⟩ := by
  unfold Operation.effect Opcode.effect
  dsimp only
  rw [ofBits_toBits]

end DoWhileOperand

namespace Machine

/-! ## 1. Loops of evaluations -/

/-- **A loop that evaluates source `k` as long as the condition is not zero.** It starts from the
words `w` and the condition `c`; `path` holds the words and the condition after each round, and
`left` the words at the end. -/
inductive LoopRun (e : Expression) (host : Host) (k : Nat) :
    (w : List Word) → (c : Word) → (path : List (List Word × Word)) → (left : List Word) →
      Prop where
  | stop (w : List Word) : LoopRun e host k w .zero [] w
  | round {w w' left : List Word} {c c' : Word} {path : List (List Word × Word)} (hc : c ≠ .zero)
      (hbody : (eval e host k w).result = .ok (w' ++ [c']))
      (hrest : LoopRun e host k w' c' path left) : LoopRun e host k w c ((w', c') :: path) left

namespace Isolated

/-! ## 2. One invocation -/

theorem result_andThen (a : Answer) (next : Local → Answer) :
    (a.andThen next).result = a.result.bind fun l => (next l).result := by
  obtain ⟨events, result⟩ := a
  cases result <;> rfl

/-- **An invocation ends as its callee does**, if the callee leaves the required number of words. -/
theorem result_invoke {callee : Callee} {caller : Frame} {k inputs outputs : Nat}
    {rest w : List Word} {c : Counters} (hw : w.length = inputs) :
    (invoke callee caller k inputs outputs ⟨rest ++ w, c⟩).result =
      (callee ⟨k, caller.base + rest.length, caller.depth + 1⟩ ⟨w, c⟩).result.bind fun left =>
        if left.window.length = outputs then .ok ⟨rest ++ left.window, left.counters⟩
        else .error (.fault (.stackMismatch k outputs left.window.length)) := by
  unfold invoke
  rw [Local.popThen_append hw, result_andThen]
  congr 1
  funext left
  split <;> rfl

/-! ## 3. One round -/

/-- The body of a `do-while` in the frame `caller`. -/
def loopBody (e : Expression) (host : Host) (caller : Frame) (k inputs : Nat) : Local → Answer :=
  invoke (callees e host (maxDepth - caller.depth)) caller k inputs (inputs + 1)

section Body

variable {e : Expression} (he : e.WellFormed) (host : Host) {k : Nat} (hk : k < e.code.length)

include he hk

/-- A body that meets no limit does what the evaluation of its source alone does. -/
theorem callees_alone {args : List Word} (hfits : args.length ≤ maxHeight) (base depth : Nat)
    (c : Counters) :
    let body := callees e host (maxDepth - depth) ⟨k, base, depth + 1⟩ ⟨args, c⟩
    (∃ f, f.isResource = true ∧ body.result = .error (.fault f)) ∨
      (eval e host k args).result = body.result.map (·.window) := by
  intro body
  by_cases hdepth : depth < maxDepth
  · have hlevels : maxDepth - depth = maxDepth - (depth + 1) + 1 := by omega
    have hbody : body =
        runFrame e host (maxDepth - (depth + 1)) ⟨k, base, depth + 1⟩ ⟨args, c⟩ := by
      show callees e host (maxDepth - depth) ⟨k, base, depth + 1⟩ ⟨args, c⟩ = _
      rw [hlevels]
      rfl
    by_cases hlimit : ∃ f, f.isResource = true ∧ body.result = .error (.fault f)
    · exact .inl hlimit
    · right
      rw [hbody] at hlimit ⊢
      refine (body_alone he host hk hfits base (depth + 1) c fun f hf => ?_).1
      exact Bool.eq_false_iff.2 fun hresource => hlimit ⟨f, hresource, hf⟩
  · have hlevels : maxDepth - depth = 0 := by omega
    refine .inl ⟨.callDepthExceeded, rfl, ?_⟩
    show (callees e host (maxDepth - depth) ⟨k, base, depth + 1⟩ ⟨args, c⟩).result = _
    rw [hlevels]
    rfl

/-- **One round beside the evaluation of its source.** It meets a limit; or it ends with the fault
of the evaluation; or the evaluation gives too few or too many words; or it gives the next words and
the next condition, and these stand in the place of the old ones. -/
theorem loopBody_cases {caller : Frame} {rest w : List Word} {inputs : Nat}
    (hfits : inputs ≤ maxHeight) (hw : w.length = inputs) (n : Counters) :
    let body := loopBody e host caller k inputs ⟨rest ++ w, n⟩
    (∃ f, f.isResource = true ∧ body.result = .error (.fault f)) ∨
    (∃ halt, (eval e host k w).result = .error halt ∧ body.result = .error halt) ∨
    (∃ left, (eval e host k w).result = .ok left ∧ left.length ≠ inputs + 1 ∧
      body.result = .error (.fault (.stackMismatch k (inputs + 1) left.length))) ∨
    (∃ w' c' n', (eval e host k w).result = .ok (w' ++ [c']) ∧ w'.length = inputs ∧ n ≤ n' ∧
      body.result = .ok ⟨rest ++ w' ++ [c'], n'⟩) := by
  intro body
  have hbody : body.result = _ := result_invoke hw
  have hsound := callees_sound he host (maxDepth - caller.depth) hk (caller.base + rest.length)
    (caller.depth + 1) ⟨w, n⟩
  have halone := callees_alone he host hk (hw ▸ hfits) (caller.base + rest.length) caller.depth n
  rcases halone with ⟨f, hresource, hf⟩ | halone
  · rw [hf] at hbody
    exact .inl ⟨f, hresource, hbody⟩
  · cases hresult : (callees e host (maxDepth - caller.depth)
        ⟨k, caller.base + rest.length, caller.depth + 1⟩ ⟨w, n⟩).result with
    | error halt =>
        rw [hresult] at hbody halone
        exact .inr (.inl ⟨halt, halone, hbody⟩)
    | ok left =>
        rw [hresult] at hbody halone
        by_cases hlength : left.window.length = inputs + 1
        · have hchecked := hbody.trans (if_pos hlength)
          rcases List.eq_nil_or_concat' left.window with hnil | ⟨w', c', hleft⟩
          · rw [hnil] at hlength
            cases hlength
          · rw [hleft, ← List.append_assoc] at hchecked
            rw [hleft, List.length_append] at hlength
            have hgrown : n ≤ left.counters := hsound.of_ok hresult
            refine .inr (.inr (.inr ⟨w', c', left.counters, ?_, ?_, hgrown, hchecked⟩))
            · rw [halone, ← hleft]
              rfl
            · exact Nat.succ.inj hlength
        · exact .inr (.inr (.inl ⟨left.window, halone, hlength, hbody.trans (if_neg hlength)⟩))

end Body

/-! ## 4. The loop -/

theorem whileTrue_zero (body : Local → Answer) (bound : Nat) (window : List Word) (n : Counters) :
    whileTrue body (bound + 1) ⟨window ++ [.zero], n⟩ = .done ⟨window, n⟩ :=
  Local.popCondition_append _

/-- One more round: it is counted, the body runs, and the loop goes on with what the body leaves. -/
theorem whileTrue_of_ne {c : Word} (hc : c ≠ .zero) (body : Local → Answer) (bound : Nat)
    (window : List Word) (n : Counters) :
    (whileTrue body (bound + 1) ⟨window ++ [c], n⟩).result =
      if n.iterations < maxIterations then
        (body ⟨window, n.iterate⟩).result.bind fun l => (whileTrue body bound l).result
      else .error (.fault .iterationCapExceeded) := by
  have hpop : whileTrue body (bound + 1) ⟨window ++ [c], n⟩ = _ := Local.popCondition_append _
  rw [hpop, if_pos (Word.truthy_eq_true_iff.2 hc), result_andThen]
  unfold Local.countIteration
  dsimp only
  split
  · exact result_andThen _ _
  · rfl

section Loop

variable {e : Expression} (he : e.WellFormed) (host : Host) {k : Nat} (hk : k < e.code.length)
  {caller : Frame} {inputs : Nat} (hfits : inputs ≤ maxHeight) {rest : List Word}

include he hk hfits

/-- **A `do-while` that ends well has gone through a loop of evaluations**, and has counted its
rounds. -/
theorem whileTrue_eq_ok (bound : Nat) {w : List Word} {c : Word} {n : Counters} {l : Local}
    (hw : w.length = inputs)
    (h : (whileTrue (loopBody e host caller k inputs) bound ⟨rest ++ w ++ [c], n⟩).result = .ok l) :
    ∃ path left, LoopRun e host k w c path left ∧ path.length < bound ∧
      (∀ x ∈ path, x.1.length = inputs) ∧ l.window = rest ++ left ∧
      n.iterations + path.length ≤ l.counters.iterations := by
  induction bound generalizing w c n with
  | zero => cases h
  | succ bound ih =>
      by_cases hc : c = .zero
      · subst hc
        rw [whileTrue_zero] at h
        cases h
        exact ⟨[], w, .stop w, Nat.succ_pos _, fun _ hx => absurd hx List.not_mem_nil, rfl,
          Nat.le_refl _⟩
      · rw [whileTrue_of_ne hc] at h
        split at h
        · rcases loopBody_cases he host hk hfits hw n.iterate with
            ⟨f, -, hend⟩ | ⟨halt, -, hend⟩ | ⟨left, -, -, hend⟩ | ⟨w', c', n', heval, hw', hn, hend⟩
          · rw [hend] at h
            cases h
          · rw [hend] at h
            cases h
          · rw [hend] at h
            cases h
          · rw [hend] at h
            obtain ⟨path, left, hloop, hpath, hlengths, hwindow, hcount⟩ := ih hw' h
            refine ⟨(w', c') :: path, left, .round hc heval hloop, Nat.succ_lt_succ hpath, ?_,
              hwindow, ?_⟩
            · exact List.forall_mem_cons.2 ⟨hw', hlengths⟩
            · have hgrown : n.iterations + 1 ≤ n'.iterations := hn.2
              rw [List.length_cons]
              omega
        · cases h

/-- **What a `do-while` does where there is a loop of evaluations.** It meets a limit, or every
round leaves as many words as it finds and the words at the end are those of the loop, or it stops
at the first round that leaves another number of words. -/
theorem whileTrue_of_loopRun {w left : List Word} {c : Word} {path : List (List Word × Word)}
    (hloop : LoopRun e host k w c path left) (hw : w.length = inputs) (bound : Nat)
    (n : Counters) :
    let loop := whileTrue (loopBody e host caller k inputs) bound ⟨rest ++ w ++ [c], n⟩
    (∃ f, f.isResource = true ∧ loop.result = .error (.fault f)) ∨
    ((∀ x ∈ path, x.1.length = inputs) ∧ ∃ n', loop.result = .ok ⟨rest ++ left, n'⟩) ∨
    (∃ before w' c' after, path = before ++ (w', c') :: after ∧
      (∀ x ∈ before, x.1.length = inputs) ∧ w'.length ≠ inputs ∧
      loop.result = .error (.fault (.stackMismatch k (inputs + 1) (w'.length + 1)))) := by
  -- Nothing is asked of the bound: a loop that runs out of it fails as one that meets the cap.
  induction hloop generalizing bound n with
  | stop w =>
      cases bound with
      | zero => exact .inl ⟨.iterationCapExceeded, rfl, rfl⟩
      | succ bound =>
          refine .inr (.inl ⟨fun _ hx => absurd hx List.not_mem_nil, n, ?_⟩)
          rw [whileTrue_zero]
          rfl
  | @round w w' left c c' path hc heval hrest ih =>
      cases bound with
      | zero => exact .inl ⟨.iterationCapExceeded, rfl, rfl⟩
      | succ bound =>
          dsimp only
          rw [whileTrue_of_ne hc]
          split
          · rcases loopBody_cases he host hk hfits hw n.iterate with
              ⟨f, hresource, hend⟩ | ⟨halt, hhalt, -⟩ | ⟨given, hgiven, hlength, hend⟩ |
              ⟨w₁, c₁, n', hgiven, hlength, -, hend⟩
            · rw [hend]
              exact .inl ⟨f, hresource, rfl⟩
            · rw [heval] at hhalt
              cases hhalt
            · rw [heval] at hgiven
              cases hgiven
              -- The evaluation gave a condition, but not above as many words as the round found.
              rw [List.length_append] at hlength hend
              rw [hend]
              refine .inr (.inr ⟨[], w', c', path, rfl, ?_, fun hw' => hlength ?_, rfl⟩)
              · exact fun _ hy => absurd hy List.not_mem_nil
              · exact congrArg (· + 1) hw'
            · rw [heval] at hgiven
              obtain ⟨rfl, rfl⟩ := List.append_singleton_inj.1 (Except.ok.inj hgiven)
              rw [hend]
              rcases ih hlength bound n' with hlimit | ⟨hlengths, hend'⟩ |
                ⟨before, w₂, c₂, after, hsplit, hbefore, hw₂, hend'⟩
              · exact .inl hlimit
              · exact .inr (.inl ⟨List.forall_mem_cons.2 ⟨hlength, hlengths⟩, hend'⟩)
              · refine .inr (.inr ⟨(w', c') :: before, w₂, c₂, after, ?_, ?_, hw₂, hend'⟩)
                · rw [hsplit, List.cons_append]
                · exact List.forall_mem_cons.2 ⟨hlength, hbefore⟩
          · exact .inl ⟨.iterationCapExceeded, rfl, rfl⟩

end Loop

/-- A `do-while` that finds its condition and the words below it is counted, and then its loop
runs; it needs no more room than it has. -/
theorem result_step_doWhile {constants : List Word} {host : Host} {callee : Callee} {frame : Frame}
    {position : Nat} {d : DoWhileOperand} {window : List Word} {n : Counters}
    (hwindow : d.inputs.val + 1 ≤ window.length) :
    (step constants host callee frame position ⟨.doWhile, d.toBits⟩ ⟨window, n⟩).result =
      if n.steps < maxSteps then
        (doWhile (invoke callee frame d.source d.inputs (d.inputs + 1)) ⟨window, n.step⟩).result
      else .error (.fault .stepBudgetExceeded) := by
  split
  · rename_i hsteps
    rw [step_of_lt hsteps]
    unfold perform execute
    dsimp only
    rw [d.effect_doWhile, DoWhileOperand.ofBits_toBits, if_neg (Nat.not_lt.2 hwindow),
      if_neg fun hgrows => absurd hgrows.1 (Nat.not_lt.2 (Nat.le_succ _))]
    rfl
  · rename_i hsteps
    rw [step_of_not_lt hsteps]
    rfl

end Isolated

/-! ## 5. On the shared stack -/

open Isolated (Local Answer)

/-- **A `do-while` is a bounded loop over its body.** Let a frame of a loaded expression run a
`do-while`, at any depth and in any state: any words below, any counters. The window of the frame
ends in the inputs `w` and the condition `c`.

* If it ends well, there is a loop of evaluations of its source alone that starts from `w` and `c`
  and takes at most as many rounds as the cap allows. The words that the loop leaves stand in the
  place of `w` and `c`, the other words are what they were, and the rounds have been counted.
* If there is such a loop, the `do-while` fails at a limit, or all its rounds leave as many words as
  they find and it ends well with the words of the loop, or it fails at the first round that leaves
  another number of words. -/
theorem doWhile_is_loop {e : Expression} (h : Loaded e) (host : Host) {ops : List Operation}
    (hops : ops ∈ e.code) {d : DoWhileOperand} (hop : ⟨.doWhile, d.toBits⟩ ∈ ops) {frame : Frame}
    {below rest w : List Word} (hbase : frame.base = below.length) (hw : w.length = d.inputs)
    (c : Word) (position : Nat) {s : State} (hs : s.stack.words = below ++ (rest ++ w ++ [c])) :
    let run := (step e host (nestedFrames e host (maxDepth - frame.depth)) frame position
      ⟨.doWhile, d.toBits⟩).run s
    (∀ s', run = .ok () s' → ∃ path left, LoopRun e host d.source w c path left ∧
      path.length ≤ maxIterations ∧ (∀ x ∈ path, x.1.length = d.inputs) ∧
      s'.stack.words = below ++ (rest ++ left) ∧ s.iterations + path.length ≤ s'.iterations) ∧
    (∀ path left, LoopRun e host d.source w c path left →
      (∃ f s', f.isResource = true ∧ run = .error (.fault f) s') ∨
      ((∀ x ∈ path, x.1.length = d.inputs) ∧
        ∃ s', run = .ok () s' ∧ s'.stack.words = below ++ (rest ++ left)) ∨
      (∃ before w' c' after s', path = before ++ (w', c') :: after ∧
        (∀ x ∈ before, x.1.length = d.inputs.val) ∧ w'.length ≠ d.inputs.val ∧
        run = .error (.fault (.stackMismatch d.source (d.inputs + 1) (w'.length + 1))) s')) := by
  intro run
  have he := h.wellFormed
  have hsource : d.source < e.code.length := (he ops hops _ hop).source_lt d.invocation?_doWhile
  have hfits : d.inputs ≤ maxHeight := Nat.le_trans (Nat.le_of_lt d.inputs.isLt) (by decide)
  have hagrees : Agrees below s.trace.toList run _ :=
    frameStep_follows he host (maxDepth - frame.depth) hops hop hbase position s
      ⟨rest ++ w ++ [c], ⟨s.steps, s.iterations⟩⟩ ⟨hs, rfl, rfl⟩ (Nat.zero_le _)
  have hwindow : d.inputs.val + 1 ≤ (rest ++ w ++ [c]).length := by
    rw [List.length_append, List.length_append, hw, List.length_singleton]
    omega
  have hstep : (Isolated.step e.constants host (Isolated.callees e host (maxDepth - frame.depth))
      frame position ⟨.doWhile, d.toBits⟩ ⟨rest ++ w ++ [c], ⟨s.steps, s.iterations⟩⟩).result = _ :=
    Isolated.result_step_doWhile hwindow
  refine ⟨fun s' hrun => ?_, fun path left hloop => ?_⟩
  · obtain ⟨l, hl, shows⟩ := (hrun ▸ hagrees).exists_of_ok
    rw [hstep] at hl
    split at hl
    · obtain ⟨path, left, hloop, hpath, hlengths, hleft, hcount⟩ :=
        Isolated.whileTrue_eq_ok he host hsource hfits (maxIterations + 1) hw hl
      refine ⟨path, left, hloop, Nat.le_of_lt_succ hpath, hlengths, ?_, ?_⟩
      · rw [shows.words, hleft]
      · rw [shows.iterations]
        exact hcount
    · cases hl
  · by_cases hsteps : s.steps < maxSteps
    · rw [if_pos hsteps] at hstep
      rcases Isolated.whileTrue_of_loopRun he host hsource hfits hloop hw (maxIterations + 1)
          (Isolated.Counters.step ⟨s.steps, s.iterations⟩) with
        ⟨f, hresource, hend⟩ | ⟨hlengths, n, hend⟩ |
        ⟨before, w', c', after, hsplit, hbefore, hw', hend⟩
      · obtain ⟨s', hs'⟩ := (hagrees.error_iff _).1 (hstep.trans hend)
        exact .inl ⟨f, s', hresource, hs'⟩
      · obtain ⟨trace, hs'⟩ := (hagrees.ok_iff _).1 (hstep.trans hend)
        exact .inr (.inl ⟨hlengths, _, hs', (State.over_shows below _ trace).words⟩)
      · obtain ⟨s', hs'⟩ := (hagrees.error_iff _).1 (hstep.trans hend)
        exact .inr (.inr ⟨before, w', c', after, s', hsplit, hbefore, hw', hs'⟩)
    · rw [if_neg hsteps] at hstep
      obtain ⟨s', hs'⟩ := (hagrees.error_iff _).1 hstep
      exact .inl ⟨.stepBudgetExceeded, s', rfl, hs'⟩

/-- Counts the lower of two words down as long as the upper, and then the counter itself, is not
zero. -/
def countdown : Expression where
  constants := [Word.one]
  code :=
    [[⟨.doWhile, 0x0101⟩],
     [⟨.readMemory, 1⟩, ⟨.apply .sub, 2⟩, ⟨.readMemory, 0⟩]]

/-- A frame whose counter stands at three. -/
def countdown.start : Local := ⟨[Word.max, ⟨3, by decide⟩, Word.one], ⟨99, 5⟩⟩

/-- That `do-while` in this frame, above a word and at depth seven. -/
def countdown.run : EStateM.Result Halt State Unit :=
  (step countdown .null (nestedFrames countdown .null (maxDepth - 7)) ⟨0, 1, 7⟩ 0
    ⟨.doWhile, 0x0101⟩).run (.over [Word.max] countdown.start #[])

/-- Three rounds, and the counter stands at zero. -/
theorem doWhile_is_loop_countdown :
    Loaded countdown ∧
      LoopRun countdown .null 1 [⟨3, by decide⟩] Word.one
        [([⟨2, by decide⟩], ⟨2, by decide⟩), ([Word.one], Word.one), ([Word.zero], Word.zero)]
        [Word.zero] ∧
      ∃ s, countdown.run = .ok () s ∧ s.stack.words = [Word.max, Word.max, Word.zero] ∧
        ∃ path left, LoopRun countdown .null 1 [⟨3, by decide⟩] Word.one path left ∧
          path.length ≤ maxIterations ∧ left = [Word.zero] ∧ 5 + path.length ≤ s.iterations := by
  have h : Loaded countdown := @Loaded.ofSources _ [Word.one] countdown.sources rfl
  have hloop : LoopRun countdown .null 1 [⟨3, by decide⟩] Word.one
      [([⟨2, by decide⟩], ⟨2, by decide⟩), ([Word.one], Word.one), ([Word.zero], Word.zero)]
      [Word.zero] := by
    refine .round (by decide) ?_ (.round (by decide) ?_ (.round (by decide) ?_ (.stop _)))
    · rw [eval_eq_outcome h.wellFormed .null (by decide) (by decide)]
      decide +kernel
    · rw [eval_eq_outcome h.wellFormed .null (by decide) (by decide)]
      decide +kernel
    · rw [eval_eq_outcome h.wellFormed .null (by decide) (by decide)]
      decide +kernel
  have hagrees : Agrees [Word.max] [] countdown.run (Isolated.step countdown.constants .null
      (Isolated.callees countdown .null (maxDepth - 7)) ⟨0, 1, 7⟩ 0 ⟨.doWhile, 0x0101⟩
      countdown.start) :=
    frameStep_follows h.wellFormed .null (maxDepth - 7) List.mem_cons_self List.mem_cons_self rfl 0
      _ _ (State.over_shows [Word.max] countdown.start #[]) (Nat.zero_le _)
  obtain ⟨trace, hrun⟩ := (hagrees.ok_iff ⟨[Word.max, Word.zero], ⟨109, 8⟩⟩).1 (by decide +kernel)
  obtain ⟨hforth, hback⟩ := @doWhile_is_loop countdown h .null _ List.mem_cons_self ⟨1, 1⟩
    List.mem_cons_self ⟨0, 1, 7⟩ [Word.max] [Word.max] [⟨3, by decide⟩] rfl rfl Word.one 0
    (.over [Word.max] countdown.start #[]) (State.over_shows [Word.max] countdown.start #[]).words
  obtain ⟨path, left, hloop', hcap, -, hwords, hcount⟩ := hforth _ hrun
  refine ⟨h, hloop, _, hrun, ?_, path, left, hloop', hcap, ?_, hcount⟩
  · rcases hback _ _ hloop with ⟨f, s, -, hs⟩ | ⟨-, s, hs, hends⟩ | ⟨_, _, _, _, s, -, -, -, hs⟩
    · cases hrun.symm.trans hs
    · cases hrun.symm.trans hs
      exact hends
    · cases hrun.symm.trans hs
  · have hleft : [Word.max, Word.max, Word.zero] = [Word.max] ++ ([Word.max] ++ left) := hwords
    cases hleft
    rfl

/-- Goes round a `do-while` whose body leaves a word too many: two zeros where one was required. -/
def oneWordMore : Expression where
  constants := [Word.one, Word.zero]
  code :=
    [[⟨.readMemory, 1⟩, ⟨.doWhile, 0x0100⟩],
     [⟨.readMemory, 3⟩, ⟨.readMemory, 3⟩]]

/-- **A loop of evaluations alone is not enough**: over no words and the condition one, the
evaluation of the body gives the word zero and the condition zero, which ends the loop; but the
`do-while` fails, and with the fault of no limit. -/
theorem doWhile_loop_oneWordMore :
    Loaded oneWordMore ∧
      LoopRun oneWordMore .null 1 [] Word.one [([Word.zero], Word.zero)] [Word.zero] ∧
      (∃ s, (step oneWordMore .null (nestedFrames oneWordMore .null maxDepth) ⟨0, 0, 0⟩ 1
          ⟨.doWhile, 0x0100⟩).run (.over [] ⟨[Word.one], ⟨1, 0⟩⟩ #[]) =
        .error (.fault (.stackMismatch 1 1 2)) s) ∧
      Fault.isResource (.stackMismatch 1 1 2) = false ∧
      (eval oneWordMore .null 0 []).result = .error (.fault (.stackMismatch 1 1 2)) := by
  have h : Loaded oneWordMore := @Loaded.ofSources _ [Word.one, Word.zero] oneWordMore.sources rfl
  refine ⟨h, .round (by decide) ?_ (.stop _), ?_, rfl, ?_⟩
  · rw [eval_eq_outcome h.wellFormed .null (by decide) (by decide)]
    rfl
  · have hbase : (⟨0, 0, 0⟩ : Frame).base = ([] : List Word).length := rfl
    have hagrees := frameStep_follows h.wellFormed .null maxDepth List.mem_cons_self
      (List.mem_cons_of_mem _ List.mem_cons_self) hbase 1 _ _
      (State.over_shows [] ⟨[Word.one], ⟨1, 0⟩⟩ #[]) (Nat.zero_le _)
    exact (hagrees.error_iff _).1 rfl
  · rw [eval_eq_outcome h.wellFormed .null (by decide) (by decide)]
    rfl

end Machine

end WordMachine
