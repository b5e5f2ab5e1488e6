import WordMachine.Proofs.Recursion
import WordMachine.Proofs.Simulation
import WordMachine.Proofs.Sinks

/-!
# A loop is a repeated call

A `loop-n` of `n` rounds does what `n` calls of its source do, one after the other. So an expression
with a loop and the same expression with calls in its place (`Expression.unrolled`) end alike and
let out the same records, unless the step budget ends the second: every call counts as a step. What
differs are positions: behind the loop they move up (`placeUnrolled`).

The expression with the calls is the first of two runs side by side, with `Slack.unrolling`. Its
first call is checked as the loop is. The calls after that cannot fail their checks, because each
round leaves as many words as it finds (`rounds_sim`); so no fault of the first run is at one of
them. That is read off the second run: `placeRolled` sends such a position past the end of the code,
and a fault is always at an operation that is there (`runFrame_inCode`).
-/

namespace WordMachine

/-! ## 1. The expression with calls -/

/-- The `call` that does what one round of a loop does. -/
def LoopOperand.round (o : LoopOperand) : Operation :=
  ⟨.call, CallOperand.toBits ⟨o.inputs, o.outputs, o.source.castLE (by decide)⟩⟩

/-- The code with calls in the place of a loop, one for each of its rounds. -/
def unrolledCode (position : Nat) (o : LoopOperand) (ops : List Operation) : List Operation :=
  ops.take position ++ List.replicate o.count o.round ++ ops.drop (position + 1)

/-- The expression with calls in the place of a loop in one of its sources. -/
def Expression.unrolled (e : Expression) (source position : Nat) (o : LoopOperand) : Expression :=
  { e with code := e.code.modify source (unrolledCode position o) }

/-- Where an operation is once a loop of `count` rounds is unrolled. -/
def placeUnrolled (source position count : Nat) (k q : Nat) : Nat :=
  if k = source ∧ position < q then q + count - 1 else q

/-- Where an operation was before a loop was unrolled. A call after the first was nowhere; it is
sent past the end of the code. -/
def placeRolled (source position count length : Nat) (k q : Nat) : Nat :=
  if k = source ∧ position < q then if q < position + count then length else q + 1 - count else q

/-- Whatever is at a place of the code comes from where unrolling puts it. -/
theorem placeUnrolled_placeRolled {source position count length k q : Nat} (hcount : 1 ≤ count)
    (h : k = source → placeRolled source position count length k q < length) :
    placeUnrolled source position count k (placeRolled source position count length k q) = q := by
  unfold placeRolled at h ⊢
  unfold placeUnrolled
  by_cases hbehind : k = source ∧ position < q
  · have hlength := h hbehind.1
    rw [if_pos hbehind] at hlength ⊢
    by_cases hcall : q < position + count
    · rw [if_pos hcall] at hlength
      exact absurd hlength (Nat.lt_irrefl length)
    · have hlater : position < q + 1 - count := by omega
      rw [if_neg hcall, if_pos ⟨hbehind.1, hlater⟩]
      omega
  · rw [if_neg hbehind, if_neg hbehind]

/-- The operation at a position of a source, if there is one. -/
def Expression.operationAt? (e : Expression) (source position : Nat) : Option Operation :=
  e.code[source]?.bind (·[position]?)

namespace LoopOperand

/-- The invocation that every round of a loop makes. -/
def invocation (o : LoopOperand) : Invocation := ⟨o.source, o.inputs, o.outputs⟩

variable (o : LoopOperand)

theorem invocation?_loop : (⟨.loopN, o.toBits⟩ : Operation).invocation? = some o.invocation := by
  unfold Operation.invocation? invocation
  dsimp only
  rw [ofBits_toBits]

theorem rounds_loop : (⟨.loopN, o.toBits⟩ : Operation).rounds = o.count := by
  unfold Operation.rounds
  dsimp only
  rw [ofBits_toBits]

theorem invocation?_round : o.round.invocation? = some o.invocation := by
  unfold Operation.invocation? round invocation
  dsimp only
  rw [CallOperand.ofBits_toBits]
  rfl

theorem wellFormed_loop {constants sources : Nat} :
    (⟨.loopN, o.toBits⟩ : Operation).WellFormed constants sources ↔
      o.inputs = o.outputs ∧ o.source.val < sources := by
  unfold Operation.WellFormed
  dsimp only
  rw [ofBits_toBits]

theorem wellFormed_round {constants sources : Nat} (h : o.source.val < sources) :
    o.round.WellFormed constants sources := by
  unfold Operation.WellFormed round
  dsimp only
  rw [CallOperand.ofBits_toBits]
  exact h

end LoopOperand

namespace Expression

variable {e : Expression} {source position : Nat} {o : LoopOperand}

theorem operationAt?_eq_some_iff {op : Operation} :
    e.operationAt? source position = some op ↔
      ∃ ops, e.code[source]? = some ops ∧ ops[position]? = some op :=
  Option.bind_eq_some_iff

/-- What is before the loop, the loop, and what is behind it. -/
theorem split_of_loop (h : e.operationAt? source position = some ⟨.loopN, o.toBits⟩) :
    ∃ before rest, before.length = position ∧
      e.code[source]? = some (before ++ ⟨.loopN, o.toBits⟩ :: rest) ∧
      (e.unrolled source position o).code[source]? =
        some (before ++ List.replicate o.count o.round ++ rest) := by
  obtain ⟨ops, hcode, hop⟩ := operationAt?_eq_some_iff.1 h
  obtain ⟨hp, hop⟩ := List.getElem?_eq_some_iff.1 hop
  refine ⟨ops.take position, ops.drop (position + 1), ?_, ?_, ?_⟩
  · rw [List.length_take]
    omega
  · rw [hcode, ← hop, List.getElem_cons_drop, List.take_append_drop]
  · show (e.code.modify source (unrolledCode position o))[source]? = _
    rw [List.getElem?_modify_eq, hcode]
    rfl

/-- The other sources keep their code. -/
theorem code_unrolled_of_ne {k : Nat} (hk : k ≠ source) :
    (e.unrolled source position o).code[k]? = e.code[k]? :=
  List.getElem?_modify_ne _ _ (Ne.symm hk)

theorem length_code_unrolled : (e.unrolled source position o).code.length = e.code.length :=
  List.length_modify ..

theorem WellFormed.loop (he : e.WellFormed)
    (h : e.operationAt? source position = some ⟨.loopN, o.toBits⟩) :
    o.inputs = o.outputs ∧ o.source.val < e.code.length := by
  obtain ⟨ops, hcode, hop⟩ := operationAt?_eq_some_iff.1 h
  exact o.wellFormed_loop.1 (he ops (List.mem_of_getElem? hcode) _ (List.mem_of_getElem? hop))

/-- A call needs no more than the loop. -/
theorem WellFormed.unrolled (he : e.WellFormed)
    (h : e.operationAt? source position = some ⟨.loopN, o.toBits⟩) :
    (e.unrolled source position o).WellFormed := by
  obtain ⟨before, rest, -, hcode, hcode'⟩ := split_of_loop h
  intro ops hops op hop
  rw [length_code_unrolled]
  obtain ⟨k, hk⟩ := List.mem_iff_getElem?.1 hops
  by_cases hsource : k = source
  · subst hsource
    obtain rfl : _ = ops := Option.some.inj (hcode'.symm.trans hk)
    have hold := he _ (List.mem_of_getElem? hcode) op
    simp only [List.mem_append, List.mem_cons] at hop hold
    rcases hop with (hbefore | hcall) | hrest
    · exact hold (.inl hbefore)
    · rw [List.eq_of_mem_replicate hcall]
      exact o.wellFormed_round (he.loop h).2
    · exact hold (.inr (.inr hrest))
  · rw [code_unrolled_of_ne hsource] at hk
    exact he ops (List.mem_of_getElem? hk) op hop

end Expression

namespace Machine

/-- **The place that a fault names is a place of the code**, if it names one. -/
def Fault.InCode (e : Expression) (f : Fault) : Prop :=
  ∀ source position, f.place? = some (source, position) →
    position < (e.code.getD source []).length

namespace Isolated

/-! ## 2. Faults are at operations that are there -/

/-- **A run beside itself**, with every position behind the code moved. -/
def Slack.inCode (e : Expression) : Slack where
  counters c c' := c' = c
  excused _ := False
  place source position :=
    if position < (e.code.getD source []).length then position else position + 1
  observes := False

theorem Slack.inCode_lawful (e : Expression) : (inCode e).Lawful := lawful_of_eq fun _ _ => Iff.rfl

theorem runFrameWith_inCode (e : Expression) (host : Host) {callee callee' : Callee}
    (hcallee : ∀ source, RespectsCallee (.inCode e) callee callee' source) (source : Nat) :
    RespectsCallee (.inCode e) (runFrameWith e host callee) (runFrameWith e host callee')
      source := by
  intro frame frame' _ hframes window c c' h
  refine Sim.after ?_ False.elim
  rw [hframes.source]
  cases hcode : e.code[frame.source]? with
  | none => exact .halt .stuck
  | some code =>
      refine runCode_respects_at (fun i op hop => ?_) window c c' h
      have hlt : i < (e.code.getD frame.source []).length := by
        rw [List.getD_eq_getElem?_getD, hcode]
        exact (List.getElem?_eq_some_iff.1 hop).1
      have hplace : (Slack.inCode e).place frame.source (0 + i) = 0 + i := by
        rw [Nat.zero_add]
        exact if_pos hlt
      exact step_respects (Slack.inCode_lawful e) hframes hplace fun i _ => hcallee i.source

theorem runFrame_respects_inCode (e : Expression) (host : Host) :
    ∀ (levels source : Nat),
      RespectsCallee (.inCode e) (runFrame e host levels) (runFrame e host levels) source
  | 0 => runFrameWith_inCode e host fun _ _ _ _ _ _ _ _ _ => .halt (.fault .callDepthExceeded)
  | levels + 1 => runFrameWith_inCode e host (runFrame_respects_inCode e host levels)

/-- **A fault is at an operation that is there**: of the source that it names, and not behind it. -/
theorem runFrame_inCode {e : Expression} {host : Host} {levels : Nat} {frame : Frame} {l : Local}
    {f : Fault} (h : (runFrame e host levels frame l).result = .error (.fault f)) : f.InCode e := by
  have hsim := runFrame_respects_inCode e host levels frame.source frame frame rfl
    ⟨rfl, Nat.le_refl _, Or.inl rfl⟩ l.window l.counters l.counters rfl
  obtain ⟨hresult, -⟩ := hsim.unexcused fun _ _ => id
  have hfixed : f.relocate (Slack.inCode e).place = f := by
    rw [h] at hresult
    injection hresult with hhalt
    injection hhalt with hfault
    exact hfault.symm
  intro source position hplace
  have hstays := Fault.relocate_eq_self_iff.1 hfixed source position hplace
  refine Classical.byContradiction fun hge => ?_
  have hmoved : (Slack.inCode e).place source position = position + 1 := if_neg hge
  omega

/-! ## 3. Calls beside a loop -/

/-- **The first run counts a step for every call**, and the budget may end it for that. -/
def Slack.unrolling (e : Expression) (source position : Nat) (o : LoopOperand) : Slack where
  counters c c' := c'.steps ≤ c.steps ∧ c'.iterations = c.iterations
  excused f := f = .stepBudgetExceeded
  place := placeRolled source position o.count (e.code.getD source []).length
  observes := True

theorem Slack.unrolling_lawful (e : Expression) (source position : Nat) (o : LoopOperand) :
    (unrolling e source position o).Lawful :=
  lawful_of_steps_le (fun _ _ => Iff.rfl) rfl

theorem Answer.andThen_assoc (a : Answer) (next last : Local → Answer) :
    (a.andThen next).andThen last = a.andThen fun l => (next l).andThen last := by
  obtain ⟨events, result⟩ := a
  cases result with
  | error halt => rfl
  | ok l =>
      unfold Answer.andThen
      dsimp only
      cases hnext : (next l).result with
      | error halt => simp only [hnext]
      | ok l' => simp only [List.append_assoc]

theorem runCode_append (step : Nat → Operation → Local → Answer) (code rest : List Operation)
    (p : Nat) (l : Local) :
    runCode step p (code ++ rest) l =
      (runCode step p code l).andThen (runCode step (p + code.length) rest) := by
  induction code generalizing p l with
  | nil => rfl
  | cons op code ih =>
      have hlater : runCode step (p + 1) (code ++ rest) = fun l =>
          (runCode step (p + 1) code l).andThen (runCode step (p + (op :: code).length) rest) := by
        funext l
        rw [ih, List.length_cons, Nat.add_right_comm, Nat.add_assoc]
      show (step p op l).andThen (runCode step (p + 1) (code ++ rest)) =
        ((step p op l).andThen (runCode step (p + 1) code)).andThen _
      rw [Answer.andThen_assoc, hlater]

section Rounds

variable {e : Expression} {source position : Nat} {o : LoopOperand} {constants : List Word}
  {host : Host} {callee callee' : Callee} {frame frame' : Frame}

/-- An operation that runs its source whatever the data has the effect of the invocation. -/
theorem effect_of_rounds {op : Operation} (hop : 1 ≤ op.rounds) {i : Invocation}
    (hi : op.invocation? = some i) : op.opcode ≠ .doWhile ∧ op.effect = ⟨i.inputs, i.outputs⟩ := by
  obtain ⟨opcode, operand⟩ := op
  cases opcode with
  | call =>
      cases hi
      exact ⟨by exact nofun, rfl⟩
  | loopN =>
      cases hi
      exact ⟨by exact nofun, rfl⟩
  | doWhile => exact absurd hop (Nat.not_succ_le_zero 0)
  | _ => cases hi

/-- **A call or a loop that finds its inputs goes through its rounds**; it needs no more room than
it has. -/
theorem perform_rounds {op : Operation} (hop : 1 ≤ op.rounds) {i : Invocation}
    (hi : op.invocation? = some i) (hbalanced : i.inputs = i.outputs) (p : Nat) (l : Local)
    (h : i.inputs ≤ l.window.length) :
    perform constants host callee frame p op l = .after (.step frame p op l.window.length)
      (times op.rounds (invoke callee frame i.source i.inputs i.outputs) l) := by
  obtain ⟨hdo, heffect⟩ := effect_of_rounds hop hi
  have hinputs : ¬ l.window.length < i.inputs := Nat.not_lt.2 h
  have hgrows : ¬ (i.inputs < i.outputs ∧
      maxHeight < frame.base + l.window.length - i.inputs + i.outputs) := by
    rw [hbalanced]
    exact fun hlt => Nat.lt_irrefl _ hlt.1
  unfold perform
  rw [heffect, if_neg hinputs, if_neg hgrows, execute_eq_times hdo hi]

/-- One that does not find its inputs fails the check for them. -/
theorem perform_few {op : Operation} (hop : 1 ≤ op.rounds) {i : Invocation}
    (hi : op.invocation? = some i) (p : Nat) (l : Local) (h : l.window.length < i.inputs) :
    perform constants host callee frame p op l =
      .fail (.stackUnderflow frame.source p i.inputs l.window.length) := by
  unfold perform
  rw [(effect_of_rounds hop hi).2, if_pos h]

/-- **A call beside a round of a loop.** It leaves as many words as it finds. -/
theorem round_sim (hbalanced : o.inputs = o.outputs) (hsound : callee.Sound o.source)
    (hcallee : RespectsCallee (.unrolling e source position o) callee callee' o.source)
    (hframes : (Slack.unrolling e source position o).Frames frame frame') (p : Nat)
    {window : List Word} {c c' : Counters} (h : o.inputs.val ≤ window.length)
    (hcounters : (Slack.unrolling e source position o).counters c c') :
    Sim (.unrolling e source position o)
        (perform constants host callee frame p o.round ⟨window, c⟩)
        (invoke callee' frame' o.source o.inputs o.outputs ⟨window, c'⟩) ∧
      (perform constants host callee frame p o.round ⟨window, c⟩).Meets fun l =>
        o.inputs.val ≤ l.window.length := by
  have hone : 1 ≤ o.round.rounds := Nat.le_refl 1
  have hperform : perform constants host callee frame p o.round ⟨window, c⟩ =
      .after (.step frame p o.round window.length)
        (invoke callee frame o.source o.inputs o.outputs ⟨window, c⟩) :=
    (perform_rounds hone o.invocation?_round (congrArg Fin.val hbalanced) p ⟨window, c⟩ h).trans
      (congrArg _ (Answer.andThen_done _))
  have hbody := invoke_respects hcallee hframes o.inputs o.outputs window c c' hcounters
  have hleaves : (invoke callee frame o.source o.inputs o.outputs ⟨window, c⟩).Meets _ :=
    invoke_meets hsound frame h rfl
  rw [hperform]
  refine ⟨hbody.after_left rfl, ?_⟩
  refine (hleaves.after _).mono fun l hl => ?_
  rw [hl.length, hbalanced]
  exact Nat.le_add_left _ _

/-- **The rounds of a loop beside calls**, the first of which has passed its checks. The next finds
as many words, so it passes them as well. -/
theorem rounds_sim (hbalanced : o.inputs = o.outputs) (hsound : callee.Sound o.source)
    (hcallee : RespectsCallee (.unrolling e source position o) callee callee' o.source)
    (hframes : (Slack.unrolling e source position o).Frames frame frame') (n : Nat) :
    ∀ (p : Nat) (window : List Word) (c c' : Counters), o.inputs.val ≤ window.length →
      (Slack.unrolling e source position o).counters c c' →
      Sim (.unrolling e source position o)
        ((perform constants host callee frame p o.round ⟨window, c⟩).andThen
          (runCode (step constants host callee frame) (p + 1) (List.replicate n o.round)))
        (times (n + 1) (invoke callee' frame' o.source o.inputs o.outputs) ⟨window, c'⟩) := by
  induction n with
  | zero =>
      intro p window c c' h hcounters
      obtain ⟨hround, -⟩ := round_sim hbalanced hsound hcallee hframes p h hcounters
      exact hround.andThen fun window' d d' hd => .done hd window'
  | succ n ih =>
      intro p window c c' h hcounters
      obtain ⟨hround, hleaves⟩ := round_sim hbalanced hsound hcallee hframes p h hcounters
      refine hround.andThen_of_ok fun window' d d' hok hd => ?_
      have h' : o.inputs.val ≤ window'.length := hleaves.of_ok hok
      show Sim _ ((step constants host callee frame (p + 1) o.round ⟨window', d⟩).andThen _) _
      by_cases hspent : d.steps < maxSteps
      · have hd' : (Slack.unrolling e source position o).counters d.step d' :=
          ⟨Nat.le_succ_of_le hd.1, hd.2⟩
        rw [step_of_lt hspent]
        exact ih (p + 1) window' d.step d' h' hd'
      · rw [step_of_not_lt hspent]
        exact .excused rfl

/-- **All calls beside the loop.** The first call is checked as the loop is. -/
theorem loop_sim (hcount : 1 ≤ o.count.val) (hbalanced : o.inputs = o.outputs)
    (hsound : callee.Sound o.source)
    (hcallee : RespectsCallee (.unrolling e source position o) callee callee' o.source)
    (hframes : (Slack.unrolling e source position o).Frames frame frame') {p p' : Nat}
    (hplace : (Slack.unrolling e source position o).place frame.source p = p') :
    Respects (.unrolling e source position o)
      (runCode (step constants host callee frame) p (List.replicate o.count o.round))
      (step constants host callee' frame' p' ⟨.loopN, o.toBits⟩) := by
  intro window c c' hcounters
  obtain ⟨n, hn⟩ := Nat.exists_eq_add_of_le' hcount
  have hone : 1 ≤ o.round.rounds := Nat.le_refl 1
  have hloop : 1 ≤ (⟨.loopN, o.toBits⟩ : Operation).rounds := by
    rw [o.rounds_loop]
    exact hcount
  rw [hn]
  show Sim _ ((step constants host callee frame p o.round ⟨window, c⟩).andThen _) _
  by_cases hspent : c.steps < maxSteps
  · have hspent' : c'.steps < maxSteps := Nat.lt_of_le_of_lt hcounters.1 hspent
    have hstep : (Slack.unrolling e source position o).counters c.step c'.step :=
      ⟨Nat.succ_le_succ hcounters.1, hcounters.2⟩
    rw [step_of_lt hspent, step_of_lt hspent']
    by_cases hfew : window.length < o.inputs.val
    · rw [perform_few hone o.invocation?_round p ⟨window, c.step⟩ hfew,
        perform_few hloop o.invocation?_loop p' ⟨window, c'.step⟩ hfew, hframes.source, ← hplace]
      exact .halt (.fault (.stackUnderflow frame.source p o.inputs window.length))
    · have henough : o.inputs.val ≤ window.length := Nat.not_lt.1 hfew
      have hrounds := @rounds_sim _ _ _ _ constants host _ _ _ _ hbalanced hsound hcallee hframes
        n p window c.step c'.step henough hstep
      rw [perform_rounds hloop o.invocation?_loop (congrArg Fin.val hbalanced) p'
        ⟨window, c'.step⟩ henough, o.rounds_loop, hn]
      exact hrounds.after_right rfl
  · rw [step_of_not_lt hspent]
    exact .excused rfl

end Rounds

/-! ## 4. Frames -/

section Frames

variable {e : Expression} {source position : Nat} {o : LoopOperand}

theorem runFrameWith_unrolled (he : e.WellFormed)
    (hloop : e.operationAt? source position = some ⟨.loopN, o.toBits⟩) (hcount : 1 ≤ o.count.val)
    (host : Host) {callee callee' : Callee} (hsound : callee.Sound o.source)
    (hcallee : ∀ k, RespectsCallee (.unrolling e source position o) callee callee' k) (k : Nat) :
    RespectsCallee (.unrolling e source position o)
      (runFrameWith (e.unrolled source position o) host callee)
      (runFrameWith e host callee') k := by
  intro frame frame' _ hframes window c c' h
  have hstep : ∀ p p' op, (Slack.unrolling e source position o).place frame.source p = p' →
      Respects (.unrolling e source position o) (step e.constants host callee frame p op)
        (step e.constants host callee' frame' p' op) := fun p p' op hplace =>
    step_respects (Slack.unrolling_lawful e source position o) hframes hplace
      fun i _ => hcallee i.source
  refine Sim.after ?_ fun _ => rfl
  rw [hframes.source]
  by_cases hsource : frame.source = source
  · obtain ⟨before, rest, hlength, hcode, hcode'⟩ := Expression.split_of_loop hloop
    have hbefore : ∀ q, q ≤ position →
        (Slack.unrolling e source position o).place frame.source q = q := fun q hq =>
      if_neg fun hbehind => Nat.not_lt.2 hq hbehind.2
    have hbehind : ∀ i, (Slack.unrolling e source position o).place frame.source
        (position + o.count + i) = position + 1 + i := by
      intro i
      show placeRolled source position o.count _ frame.source (position + o.count + i) = _
      unfold placeRolled
      rw [if_pos ⟨hsource, by omega⟩, if_neg (by omega)]
      omega
    rw [hsource, hcode, hcode']
    show Sim _ (runCode _ 0 (before ++ _ ++ rest) _) (runCode _ 0 (before ++ _ :: rest) _)
    rw [runCode_append, runCode_append, runCode_append, Answer.andThen_assoc, Nat.zero_add, hlength,
      List.length_append, List.length_replicate, hlength, Nat.zero_add]
    refine Sim.andThen (runCode_respects_at (fun i op hop => ?_) window c c' h) ?_
    · have hi : i < before.length := (List.getElem?_eq_some_iff.1 hop).1
      exact hstep _ _ op (hbefore (0 + i) (by omega))
    · intro window c c' h
      refine Sim.andThen ?_ (runCode_respects_at fun i op _ => hstep _ _ op (hbehind i))
      exact loop_sim hcount (he.loop hloop).1 hsound (hcallee o.source) hframes
        (hbefore position (Nat.le_refl position)) window c c' h
  · have hsame : ∀ q, (Slack.unrolling e source position o).place frame.source q = q := fun q =>
      if_neg fun hbehind => hsource hbehind.1
    rw [Expression.code_unrolled_of_ne hsource]
    cases e.code[frame.source]? with
    | none => exact .halt .stuck
    | some code =>
        exact runCode_respects_at (fun i op _ => hstep _ _ op (hsame (0 + i))) window c c' h

/-- **Frames of an expression with calls, and with a loop.** -/
theorem runFrame_unrolled (he : e.WellFormed)
    (hloop : e.operationAt? source position = some ⟨.loopN, o.toBits⟩) (hcount : 1 ≤ o.count.val)
    (host : Host) : ∀ (levels k : Nat), RespectsCallee (.unrolling e source position o)
      (runFrame (e.unrolled source position o) host levels) (runFrame e host levels) k
  | 0 => runFrameWith_unrolled he hloop hcount host (fun _ _ _ => meets_fail _)
      fun _ _ _ _ _ _ _ _ _ => .halt (.fault .callDepthExceeded)
  | levels + 1 => by
      have hsource : o.source.val < (e.unrolled source position o).code.length := by
        rw [Expression.length_code_unrolled]
        exact (he.loop hloop).2
      exact runFrameWith_unrolled he hloop hcount host
        (runFrame_meets (he.unrolled hloop) host levels hsource)
        (runFrame_unrolled he hloop hcount host levels)

end Frames

end Isolated

/-! ## 5. Evaluations -/

/-- A fault of an evaluation is at an operation that is there, or it is the one of too many
inputs. -/
theorem eval_inCode {e : Expression} (he : e.WellFormed) {host : Host} {entry : Nat}
    {inputs : List Word} {f : Fault} (h : (eval e host entry inputs).result = .error (.fault f)) :
    f.InCode e ∨ f = .stackOverflow entry 0 := by
  rcases eval_cases he host entry inputs with ⟨-, heval⟩ | ⟨-, -, heval⟩ | ⟨-, -, heval⟩
  · rw [heval] at h
    cases h
    exact .inl fun _ _ hplace => by cases hplace
  · rw [heval] at h
    cases h
    exact .inr rfl
  · rw [heval] at h
    exact .inl (Isolated.runFrame_inCode (Isolated.Answer.of_outcome_error h))

/-- A fault with a place in the code of the loop goes back to where it was among the calls. -/
theorem Fault.relocate_rolled {e : Expression} {source position : Nat} {o : LoopOperand}
    (hcount : 1 ≤ o.count.val) (hcode : 0 < (e.code.getD source []).length) {f : Fault}
    {entry : Nat} (h : (f.relocate (Isolated.Slack.unrolling e source position o).place).InCode e ∨
      f.relocate (Isolated.Slack.unrolling e source position o).place = .stackOverflow entry 0) :
    (f.relocate (Isolated.Slack.unrolling e source position o).place).relocate
      (placeUnrolled source position o.count) = f := by
  rw [Fault.relocate_relocate, Fault.relocate_eq_self_iff]
  intro k q hplace
  refine placeUnrolled_placeRolled hcount fun hsource => ?_
  subst hsource
  have hmoved := Fault.place?_relocate (Isolated.Slack.unrolling e k position o).place f
  rw [hplace] at hmoved
  rcases h with hin | hzero
  · exact hin _ _ hmoved
  · rw [hzero] at hmoved
    have hstart : (Isolated.Slack.unrolling e k position o).place k q = 0 :=
      (congrArg Prod.snd (Option.some.inj hmoved)).symm
    exact Nat.lt_of_le_of_lt (Nat.le_of_eq hstart) hcode

/-- The result with calls is the result with the loop, up to positions. -/
theorem eval_unrolled {e : Expression} (he : e.WellFormed) {source position : Nat}
    {o : LoopOperand} (hloop : e.operationAt? source position = some ⟨.loopN, o.toBits⟩)
    (hcount : 1 ≤ o.count.val) (host : Host) (entry : Nat) (inputs : List Word)
    (hbudget : (eval (e.unrolled source position o) host entry inputs).result ≠
      .error (.fault .stepBudgetExceeded)) :
    (eval (e.unrolled source position o) host entry inputs).result =
        (eval e host entry inputs).result.mapError
          (·.relocate (placeUnrolled source position o.count)) ∧
      records (eval e host entry inputs).trace =
        records (eval (e.unrolled source position o) host entry inputs).trace := by
  have hplace : (Isolated.Slack.unrolling e source position o).place entry 0 = 0 :=
    if_neg fun hbehind => Nat.not_lt_zero _ hbehind.2
  have hcode : 0 < (e.code.getD source []).length := by
    obtain ⟨ops, hops, hop⟩ := Expression.operationAt?_eq_some_iff.1 hloop
    rw [List.getD_eq_getElem?_getD, hops]
    exact Nat.zero_lt_of_lt (List.getElem?_eq_some_iff.1 hop).1
  obtain ⟨hresult, hrecords⟩ := eval_of_sim (he.unrolled hloop) he
    Expression.length_code_unrolled.symm host hplace (fun _ =>
      Isolated.runFrame_unrolled he hloop hcount host maxDepth entry ⟨entry, 0, 0⟩ ⟨entry, 0, 0⟩ rfl
        ⟨rfl, Nat.le_refl 0, Or.inl rfl⟩ inputs {} {} ⟨Nat.le_refl 0, rfl⟩)
    fun f hf hexcused => hbudget (by rw [hf, hexcused])
  refine ⟨?_, hrecords trivial⟩
  cases hcalls : (eval (e.unrolled source position o) host entry inputs).result with
  | ok words =>
      rw [hresult, hcalls]
      rfl
  | error halt =>
      cases halt with
      | stuck =>
          rw [hresult, hcalls]
          rfl
      | fault f =>
          rw [hcalls] at hresult
          have hback := Fault.relocate_rolled hcount hcode (eval_inCode he hresult)
          rw [hresult]
          exact congrArg (fun f => Except.error (Halt.fault f)) hback.symm

/-- **A loop is a repeated call.** Let a loaded expression have a `loop-n` of at least one round at
a position of a source, and put as many calls of the same source in its place. What comes out
loads. For every entry, inputs and host for which it keeps within the step budget, it gives the
words that the expression with the loop gives, or fails with the same fault, at the place where the
operation then is; and a sink that keeps records has been handed the same records. -/
theorem loop_is_repeated_call {e : Expression} (h : Loaded e) {source position : Nat}
    {o : LoopOperand} (hloop : e.operationAt? source position = some ⟨.loopN, o.toBits⟩)
    (hcount : 1 ≤ o.count.val) (host : Host) (entry : Nat) (inputs : List Word)
    (hbudget : (Watched.eval (some .recording) #[] (e.unrolled source position o) host entry
      inputs).result ≠ .error (.fault .stepBudgetExceeded)) :
    let looping := Watched.eval (some .recording) #[] e host entry inputs
    let calling := Watched.eval (some .recording) #[] (e.unrolled source position o) host entry
      inputs
    Expression.load e.constants (e.unrolled source position o).sources =
      .ok (e.unrolled source position o) ∧
    calling.result =
      looping.result.mapError (·.relocate (placeUnrolled source position o.count)) ∧
    calling.told.sink = looping.told.sink := by
  intro looping calling
  have he := h.wellFormed
  have hloopResult : looping.result = (eval e host entry inputs).result :=
    Watched.result_eval ..
  have hcallResult : calling.result =
      (eval (e.unrolled source position o) host entry inputs).result :=
    Watched.result_eval ..
  have hwithin : (eval (e.unrolled source position o) host entry inputs).result ≠
      .error (.fault .stepBudgetExceeded) := fun hfault => hbudget (hcallResult.trans hfault)
  obtain ⟨hresult, hrecords⟩ := eval_unrolled he hloop hcount host entry inputs hwithin
  refine ⟨Expression.load_eq_ok_iff.2 ⟨rfl, rfl, he.unrolled hloop⟩, ?_, Array.toList_inj.1 ?_⟩
  · rw [hloopResult, hcallResult, hresult]
  · rw [Watched.sink_eval_recording, Watched.sink_eval_recording, hrecords]

/-- Doubles a word three times, shows it after each time, and wants another word at the end. -/
def doublings : Expression where
  constants := [Word.one]
  code :=
    [[⟨.readMemory, 1⟩, ⟨.loopN, 0x3111⟩, ⟨.apply .add, 2⟩],
     [⟨.readMemory, 0⟩, ⟨.apply .add, 2⟩, ⟨.debug, 1⟩]]

/-- The records of `doublings`. -/
def doublings.records : List Record :=
  [.stack [⟨2, by decide⟩], .stack [⟨4, by decide⟩], .stack [⟨8, by decide⟩]]

/-- With three calls the last operation stands two places further, and all else is the same. -/
theorem loop_is_repeated_call_doublings :
    Loaded doublings ∧
      (doublings.unrolled 0 1 ⟨3, 1, 1, 1⟩).code =
        [[⟨.readMemory, 1⟩, ⟨.call, 0x0111⟩, ⟨.call, 0x0111⟩, ⟨.call, 0x0111⟩, ⟨.apply .add, 2⟩],
         [⟨.readMemory, 0⟩, ⟨.apply .add, 2⟩, ⟨.debug, 1⟩]] ∧
      (Watched.eval (some .recording) #[] doublings .null 0 []).result =
        .error (.fault (.stackUnderflow 0 2 2 1)) ∧
      (Watched.eval (some .recording) #[] (doublings.unrolled 0 1 ⟨3, 1, 1, 1⟩) .null 0 []).result =
        .error (.fault (.stackUnderflow 0 4 2 1)) ∧
      (Watched.eval (some .recording) #[] doublings .null 0 []).told.sink.toList =
        doublings.records ∧
      (Watched.eval (some .recording) #[] (doublings.unrolled 0 1 ⟨3, 1, 1, 1⟩) .null 0
        []).told.sink.toList = doublings.records := by
  have h : Loaded doublings := @Loaded.ofSources _ [Word.one] doublings.sources rfl
  have hloop : doublings.operationAt? 0 1 = some ⟨.loopN, LoopOperand.toBits ⟨3, 1, 1, 1⟩⟩ := rfl
  have hfault : (Watched.eval (some .recording) #[] doublings .null 0 []).result =
      .error (.fault (.stackUnderflow 0 2 2 1)) := by
    rw [Watched.eval_eq, eval_eq_outcome h.wellFormed .null (by decide) (by decide)]
    decide +kernel
  have hkept : (Watched.eval (some .recording) #[] doublings .null 0 []).told.sink.toList =
      doublings.records := by
    rw [Watched.sink_eval_recording, eval_eq_outcome h.wellFormed .null (by decide) (by decide)]
    decide +kernel
  have hcalls : (Watched.eval (some .recording) #[] (doublings.unrolled 0 1 ⟨3, 1, 1, 1⟩) .null 0
      []).result = .error (.fault (.stackUnderflow 0 4 2 1)) := by
    rw [Watched.eval_eq,
      eval_eq_outcome (h.wellFormed.unrolled hloop) .null (by decide) (by decide)]
    decide +kernel
  have hbudget : (Watched.eval (some .recording) #[] (doublings.unrolled 0 1 ⟨3, 1, 1, 1⟩) .null 0
      []).result ≠ .error (.fault .stepBudgetExceeded) := by
    rw [hcalls]
    exact nofun
  obtain ⟨-, hresult, hsink⟩ := loop_is_repeated_call h hloop (by decide) .null 0 [] hbudget
  refine ⟨h, by decide, hfault, ?_, hkept, ?_⟩
  · rw [hresult, hfault]
    rfl
  · rw [hsink, hkept]

end Machine

end WordMachine
