import WordMachine.Proofs.Isolation
import WordMachine.Proofs.Listeners
import WordMachine.Proofs.Simulation

/-!
# Debugging does not interfere

A `debug` lets a record out and does nothing else that the program could notice: it takes no words,
leaves none, and changes none. It only counts as a step. So an expression and the same expression
with every `debug` taken out (`Expression.withoutDebug`) end alike, unless the step budget ends the
first. What differs are positions: in a source they move down by the number of `debug` operations
before them (`Expression.placeWithoutDebug`).

The two run side by side with `Slack.debugging`: the first may have counted more steps. A `debug` of
the first is met by no step of the second (`step_debug_sim`), every other operation by itself.
-/

namespace WordMachine

/-! ## 1. The expression without `debug` -/

/-- Whether the operation is a `debug`. -/
def Operation.isDebug (op : Operation) : Bool := op.opcode = .debug

namespace Expression

/-- The expression with every `debug` taken out of every source. -/
def withoutDebug (e : Expression) : Expression :=
  { e with code := e.code.map fun ops => ops.filter (!·.isDebug) }

/-- How many `debug` operations a source has before a position. -/
def debugsBefore (e : Expression) (source position : Nat) : Nat :=
  ((e.code.getD source []).take position).countP (·.isDebug)

/-- Where the operation at a position is once every `debug` is taken out. -/
def placeWithoutDebug (e : Expression) (source position : Nat) : Nat :=
  position - e.debugsBefore source position

theorem length_code_withoutDebug (e : Expression) : e.withoutDebug.code.length = e.code.length :=
  List.length_map _

/-- Nothing refers to a `debug`, so the others stay well formed. -/
theorem WellFormed.withoutDebug {e : Expression} (he : e.WellFormed) :
    e.withoutDebug.WellFormed := by
  intro ops hops op hop
  obtain ⟨ops', hops', rfl⟩ := List.mem_map.1 hops
  rw [length_code_withoutDebug]
  exact he ops' hops' op (List.mem_filter.1 hop).1

/-- An operation is where the others before it put it. -/
theorem placeWithoutDebug_length {e : Expression} {source : Nat} {before rest : List Operation}
    (h : e.code[source]? = some (before ++ rest)) :
    e.placeWithoutDebug source before.length = (before.filter (!·.isDebug)).length := by
  have hbefore : e.debugsBefore source before.length = before.countP (·.isDebug) := by
    unfold debugsBefore
    rw [List.getD_eq_getElem?_getD, h, Option.getD_some, List.take_left]
  have hlength := List.length_eq_countP_add_countP (·.isDebug) (l := before)
  unfold placeWithoutDebug
  rw [hbefore, ← List.countP_eq_length_filter]
  simp only [Bool.not_eq_true, Bool.decide_eq_false] at hlength
  omega

end Expression

namespace Machine

namespace Isolated

/-! ## 2. Side by side -/

/-- **The first run counts the `debug` operations as well**, and the budget may end it for that. -/
def Slack.debugging (e : Expression) : Slack where
  counters c c' := c'.steps ≤ c.steps ∧ c'.iterations = c.iterations
  excused f := f = .stepBudgetExceeded
  place := e.placeWithoutDebug
  observes := False

theorem Slack.debugging_lawful (e : Expression) : (debugging e).Lawful :=
  lawful_of_steps_le (fun _ _ => Iff.rfl) rfl

/-- **A `debug` is met by doing nothing.** -/
theorem step_debug_sim {e : Expression} (host : Host) (callee : Callee) (frame : Frame)
    (position : Nat) {op : Operation} (hdebug : op.isDebug = true)
    (hop : op.WellFormed e.constants.length e.code.length) {c c' : Counters}
    (h : (Slack.debugging e).counters c c') (window : List Word) :
    Sim (.debugging e) (step e.constants host callee frame position op ⟨window, c⟩)
      (.done ⟨window, c'⟩) := by
  obtain ⟨opcode, operand⟩ := op
  obtain rfl : opcode = .debug := of_decide_eq_true hdebug
  obtain ⟨mode, hmode⟩ := hop.exists_debugMode
  have hcounted : (Slack.debugging e).counters c.step c' := ⟨Nat.le_succ_of_le h.1, h.2⟩
  have hperform : ∀ l, perform e.constants host callee frame position ⟨.debug, operand⟩ l =
      .after (.step frame position ⟨.debug, operand⟩ l.window.length)
        (debug e.constants frame l mode) := by
    intro l
    have heffect : (⟨.debug, operand⟩ : Operation).effect = ⟨0, 0⟩ := rfl
    unfold perform
    rw [heffect, if_neg (Nat.not_lt_zero _), if_neg fun hgrows => Nat.lt_irrefl 0 hgrows.1]
    unfold execute
    rw [hmode]
  unfold step Local.countStep
  by_cases hspent : c.steps < maxSteps
  · rw [if_pos hspent, funext hperform]
    cases mode <;> exact .finished hcounted False.elim
  · rw [if_neg hspent]
    exact .excused rfl

/-- **The rest of a source, and the rest without `debug`.** The positions are those that the
operations before leave. -/
theorem runCode_withoutDebug {e : Expression} (he : e.WellFormed) (host : Host)
    {callee callee' : Callee} (hcallee : ∀ source, source < e.code.length →
      RespectsCallee (.debugging e) callee callee' source) {frame frame' : Frame}
    (hframes : (Slack.debugging e).Frames frame frame') (rest : List Operation) :
    ∀ before, e.code[frame.source]? = some (before ++ rest) →
      Respects (.debugging e) (runCode (step e.constants host callee frame) before.length rest)
        (runCode (step e.constants host callee' frame') (before.filter (!·.isDebug)).length
          (rest.filter (!·.isDebug))) := by
  -- By induction on what is left; `before` grows and says how far apart the positions are.
  induction rest with
  | nil => exact fun _ _ window _ _ h => .done h window
  | cons op rest ih =>
      intro before hcode window c c' h
      have hop : op.WellFormed e.constants.length e.code.length :=
        he _ (List.mem_of_getElem? hcode) op (List.mem_append_right _ List.mem_cons_self)
      have hnext := ih (before ++ [op]) (by rw [hcode, List.append_assoc, List.singleton_append])
      rw [List.length_append, List.length_singleton, List.filter_append] at hnext
      by_cases hdebug : op.isDebug = true
      · have hskip : [op].filter (!·.isDebug) = [] := by simp [hdebug]
        have hrest : (op :: rest).filter (!·.isDebug) = rest.filter (!·.isDebug) := by simp [hdebug]
        rw [hskip, List.append_nil] at hnext
        rw [hrest]
        exact (step_debug_sim host callee frame _ hdebug hop h window).andThen hnext
      · have hkeep : [op].filter (!·.isDebug) = [op] := by simp [hdebug]
        have hrest : (op :: rest).filter (!·.isDebug) = op :: rest.filter (!·.isDebug) := by
          simp [hdebug]
        rw [hkeep, List.length_append, List.length_singleton] at hnext
        rw [hrest]
        refine Sim.andThen ?_ hnext
        exact step_respects (Slack.debugging_lawful e) hframes
          (Expression.placeWithoutDebug_length hcode)
          (fun i hi => hcallee i.source (hop.source_lt hi)) window c c' h

theorem runFrameWith_withoutDebug {e : Expression} (he : e.WellFormed) (host : Host)
    {callee callee' : Callee} (hcallee : ∀ source, source < e.code.length →
      RespectsCallee (.debugging e) callee callee' source) {k : Nat} (hk : k < e.code.length) :
    RespectsCallee (.debugging e) (runFrameWith e host callee)
      (runFrameWith e.withoutDebug host callee') k := by
  intro frame frame' hsource hframes window c c' h
  subst hsource
  have hcode : e.code[frame.source]? = some e.code[frame.source] := List.getElem?_eq_getElem hk
  have hcode' : e.withoutDebug.code[frame'.source]? =
      some (e.code[frame.source].filter (!·.isDebug)) := by
    rw [hframes.source]
    exact (List.getElem?_map ..).trans (congrArg _ hcode)
  refine Sim.after ?_ False.elim
  rw [hcode, hcode']
  exact runCode_withoutDebug he host hcallee hframes _ [] hcode window c c' h

/-- **Frames of an expression, and of the expression without `debug`.** -/
theorem runFrame_withoutDebug {e : Expression} (he : e.WellFormed) (host : Host) :
    ∀ (levels : Nat) {k : Nat}, k < e.code.length →
      RespectsCallee (.debugging e) (runFrame e host levels) (runFrame e.withoutDebug host levels) k
  | 0, _, hk => runFrameWith_withoutDebug he host
      (fun _ _ _ _ _ _ _ _ _ _ => .halt (.fault .callDepthExceeded)) hk
  | levels + 1, _, hk => runFrameWith_withoutDebug he host
      (fun _ hk' => runFrame_withoutDebug he host levels hk') hk

end Isolated

/-! ## 3. Evaluations -/

/-- An evaluation without `debug` has the result of the evaluation with it, up to positions. -/
theorem result_withoutDebug {e : Expression} (he : e.WellFormed) (host : Host) (entry : Nat)
    (inputs : List Word)
    (hbudget : (eval e host entry inputs).result ≠ .error (.fault .stepBudgetExceeded)) :
    (eval e.withoutDebug host entry inputs).result =
      (eval e host entry inputs).result.mapError (·.relocate e.placeWithoutDebug) := by
  have hplace : e.placeWithoutDebug entry 0 = 0 := Nat.zero_sub _
  refine (eval_of_sim (S := .debugging e) he he.withoutDebug e.length_code_withoutDebug host hplace
    (fun hentry => ?_) fun f hf hexcused => hbudget ?_).1
  · exact Isolated.runFrame_withoutDebug he host maxDepth hentry ⟨entry, 0, 0⟩ ⟨entry, 0, 0⟩ rfl
      ⟨rfl, Nat.le_refl 0, Or.inl rfl⟩ inputs {} {} ⟨Nat.le_refl 0, rfl⟩
  · rw [hf, hexcused]

/-- **Debugging does not interfere.** Take every `debug` out of a loaded expression: what is left
loads, and for every entry, inputs and host for which the expression keeps within the step budget,
it gives the same words, or fails with the same fault at the place where the operation then is.
Before a sink, each of the two gives what it gives without. -/
theorem eval_withoutDebug {e : Expression} (h : Loaded e) (host : Host) (entry : Nat)
    (inputs : List Word)
    (hbudget : (eval e host entry inputs).result ≠ .error (.fault .stepBudgetExceeded)) :
    Expression.load e.constants e.withoutDebug.sources = .ok e.withoutDebug ∧
    (∀ words, (eval e.withoutDebug host entry inputs).result = .ok words ↔
      (eval e host entry inputs).result = .ok words) ∧
    (∀ f, (eval e host entry inputs).result = .error (.fault f) →
      (eval e.withoutDebug host entry inputs).result =
        .error (.fault (f.relocate e.placeWithoutDebug))) ∧
    ∀ (σ : Type) (sink : Option (Watched.Sink σ)) (own : σ),
      (Watched.eval sink own e host entry inputs).result = (eval e host entry inputs).result ∧
      (Watched.eval sink own e.withoutDebug host entry inputs).result =
        (eval e.withoutDebug host entry inputs).result := by
  have he := h.wellFormed
  have hresult := result_withoutDebug he host entry inputs hbudget
  refine ⟨Expression.load_eq_ok_iff.2 ⟨rfl, rfl, he.withoutDebug⟩, fun words => ?_, fun f hf => ?_,
    fun _ sink own => ⟨Watched.result_eval .., Watched.result_eval ..⟩⟩
  · rw [hresult]
    cases (eval e host entry inputs).result with
    | ok words' => exact Iff.rfl
    | error halt => exact ⟨nofun, nofun⟩
  · rw [hresult, hf]
    rfl

/-- Copies its input and ensures the copy in a source of its own, watched all along. -/
def watched : Expression where
  constants := []
  code :=
    [[⟨.debug, 0⟩, ⟨.readMemory, 0⟩, ⟨.debug, 1⟩, ⟨.call, 0x0101⟩],
     [⟨.debug, 0⟩, ⟨.ensure, 1⟩]]

/-- One is ensured, watched or not. Zero is not, and the `ensure` at fault stands one place
earlier when nobody watches. -/
theorem eval_withoutDebug_watched :
    Loaded watched ∧
      (eval watched .null 0 [Word.one]).result = .ok [Word.one] ∧
      (eval watched.withoutDebug .null 0 [Word.one]).result = .ok [Word.one] ∧
      (eval watched .null 0 [Word.zero]).result = .error (.fault (.ensureFailed 1 1 0)) ∧
      (eval watched.withoutDebug .null 0 [Word.zero]).result =
        .error (.fault (.ensureFailed 1 0 0)) := by
  have h : Loaded watched := @Loaded.ofSources _ [] watched.sources rfl
  have hone : (eval watched .null 0 [Word.one]).result = .ok [Word.one] := by
    rw [eval_eq_outcome h.wellFormed .null (by decide) (by decide)]
    rfl
  have hzero : (eval watched .null 0 [Word.zero]).result =
      .error (.fault (.ensureFailed 1 1 0)) := by
    rw [eval_eq_outcome h.wellFormed .null (by decide) (by decide)]
    rfl
  have hone' := eval_withoutDebug h .null 0 [Word.one] (by rw [hone]; exact nofun)
  have hzero' := eval_withoutDebug h .null 0 [Word.zero] (by rw [hzero]; exact nofun)
  exact ⟨h, hone, (hone'.2.1 _).2 hone, hzero, hzero'.2.2.1 _ hzero⟩

end Machine

end WordMachine
