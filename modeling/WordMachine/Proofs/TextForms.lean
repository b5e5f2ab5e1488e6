import WordMachine.Proofs.Simulation
import WordMachine.Proofs.Sinks
import WordMachine.Proofs.SourceText
import WordMachine.Proofs.Standalone

/-!
# Every text of an expression means the same

A source can be written as stored code or as assembly, and an expression some sources this way and
some that way. What is built from the texts need not be the expression that was written: an operand
that has no meaning is stored, but not printed.

* `Operation.Alike`: two operations that differ in such an operand only;
* `execute_alike`, `step_alike`: they do the same;
* `eval_alike`: so do expressions that are alike, operation by operation;
* `eval_textForm`: whatever texts are chosen, what they write builds, and is alike.
-/

namespace WordMachine

/-! ## 1. Operations that differ in nothing that counts -/

/-- **The same opcode, and the same operand unless it has no meaning.** -/
structure Operation.Alike (op op' : Operation) : Prop where
  opcode : op'.opcode = op.opcode
  operand : op.opcode.ignoresOperand = false → op'.operand = op.operand

namespace Operation

/-- The operation without an operand that has no meaning. -/
def cleared (op : Operation) : Operation :=
  if op.opcode.ignoresOperand then ⟨op.opcode, 0⟩ else op

theorem Alike.refl (op : Operation) : op.Alike op := ⟨rfl, fun _ => rfl⟩

theorem alike_cleared (op : Operation) : op.Alike op.cleared := by
  unfold cleared
  by_cases h : op.opcode.ignoresOperand = true
  · rw [if_pos h]
    exact ⟨rfl, fun hnot => absurd h (by simp [hnot])⟩
  · rw [if_neg h]
    exact .refl op

theorem instruction_cleared (op : Operation) : op.cleared.instruction = op.instruction.cleared := by
  unfold cleared Instruction.cleared
  rw [op.opcode?_instruction]
  dsimp only
  split <;> rfl

section Alike

variable {op op' : Operation}

/-- Two operations that are alike are the same, or ignore what they differ in. -/
theorem Alike.cases (h : op.Alike op') :
    op' = op ∨ op.opcode.ignoresOperand = true ∧ op'.opcode = op.opcode := by
  by_cases hignores : op.opcode.ignoresOperand = true
  · exact .inr ⟨hignores, h.opcode⟩
  · obtain ⟨opcode, operand⟩ := op
    obtain ⟨opcode', operand'⟩ := op'
    obtain rfl : opcode' = opcode := h.opcode
    obtain rfl : operand' = operand := h.operand (by simpa using hignores)
    exact .inl rfl

theorem Alike.effect (h : op.Alike op') : op'.effect = op.effect := by
  rcases h.cases with rfl | ⟨hignores, hopcode⟩
  · rfl
  · obtain ⟨opcode, operand⟩ := op
    obtain ⟨opcode', operand'⟩ := op'
    obtain rfl : opcode' = opcode := hopcode
    cases opcode' with
    | scalar s => rfl
    | balanceOf => rfl
    | totalSupply => rfl
    | apply f => cases f <;> first | rfl | cases hignores
    | _ => cases hignores

theorem Alike.wellFormed (h : op.Alike op') {constants sources : Nat}
    (hop : op.WellFormed constants sources) : op'.WellFormed constants sources := by
  rcases h.cases with rfl | ⟨hignores, hopcode⟩
  · exact hop
  · obtain ⟨opcode, operand⟩ := op
    obtain ⟨opcode', operand'⟩ := op'
    obtain rfl : opcode' = opcode := hopcode
    cases opcode' with
    | scalar s => trivial
    | balanceOf => trivial
    | totalSupply => trivial
    | apply f =>
        intro hvariadic
        rw [Opcode.ignoresOperand_of_variadic hvariadic] at hignores
        cases hignores
    | _ => cases hignores

end Alike

end Operation

/-! ## 2. Expressions that are alike -/

/-- Lists that are related element by element are related at every index. -/
theorem rel_getElem? {α β : Type} {R : α → β → Prop} {xs : List α} {ys : List β}
    (h : List.Forall₂ R xs ys) (k : Nat) : Option.Rel R xs[k]? ys[k]? := by
  induction h generalizing k with
  | nil => exact .none
  | cons hR _ ih =>
      cases k with
      | zero => exact .some hR
      | succ k => exact ih k

theorem exists_of_mem_forall₂ {α β : Type} {R : α → β → Prop} {xs : List α} {ys : List β}
    (h : List.Forall₂ R xs ys) {y : β} (hy : y ∈ ys) : ∃ x ∈ xs, R x y := by
  obtain ⟨k, hk⟩ := List.mem_iff_getElem?.1 hy
  have hrel := rel_getElem? h k
  rw [hk] at hrel
  cases hx : xs[k]? with
  | none => rw [hx] at hrel; cases hrel
  | some x =>
      rw [hx] at hrel
      cases hrel with
      | some hR => exact ⟨x, List.mem_of_getElem? hx, hR⟩

/-- **The same constants, and operations that are alike, place by place.** -/
structure Expression.Alike (e e' : Expression) : Prop where
  constants : e'.constants = e.constants
  code : List.Forall₂ (List.Forall₂ Operation.Alike) e.code e'.code

namespace Expression.Alike

variable {e e' : Expression}

theorem length_code (h : e.Alike e') : e'.code.length = e.code.length := h.code.length_eq.symm

theorem wellFormed (h : e.Alike e') (he : e.WellFormed) : e'.WellFormed := by
  intro ops' hops' op' hop'
  obtain ⟨ops, hops, hcode⟩ := exists_of_mem_forall₂ h.code hops'
  obtain ⟨op, hop, halike⟩ := exists_of_mem_forall₂ hcode hop'
  rw [h.constants, h.length_code]
  exact halike.wellFormed (he ops hops op hop)

end Expression.Alike

namespace Machine

namespace Isolated

/-! ## 3. Alike operations do the same -/

/-- **No difference at all**: the same counters, faults, places and records. -/
def Slack.none : Slack where
  counters c c' := c' = c
  excused _ := False
  place := fun _ position => position
  observes := True

theorem Slack.none_lawful : none.Lawful := lawful_of_eq fun _ _ => Iff.rfl

section Alike

variable {S : Slack} {constants : List Word} {host : Host} {callee callee' : Callee}
  {frame frame' : Frame} {position position' : Nat} {op op' : Operation}

/-- What an operation does does not hang on an operand that has no meaning. -/
theorem execute_alike (h : op.Alike op') (l : Local) :
    execute constants host callee frame position op' l =
      execute constants host callee frame position op l := by
  have heffect := h.effect
  rcases h.cases with rfl | ⟨hignores, hopcode⟩
  · rfl
  · obtain ⟨opcode, operand⟩ := op
    obtain ⟨opcode', operand'⟩ := op'
    obtain rfl : opcode' = opcode := hopcode
    cases opcode' with
    | scalar s => rfl
    | balanceOf => rfl
    | totalSupply => rfl
    | apply f =>
        show applyFunction f _ l = applyFunction f _ l
        rw [heffect]
    | _ => cases hignores

/-- Two runs that end alike and let out the same records. -/
structure Answer.Same (a a' : Answer) : Prop where
  result : a'.result = a.result
  records : records a'.events = records a.events

theorem Answer.Same.andThen (a : Answer) {next next' : Local → Answer}
    (h : ∀ l, (next l).Same (next' l)) : (a.andThen next).Same (a.andThen next') := by
  obtain ⟨events, result⟩ := a
  cases result with
  | error halt => exact ⟨rfl, rfl⟩
  | ok l =>
      refine ⟨(h l).result, ?_⟩
      show Machine.records (events ++ (next' l).events) = Machine.records (events ++ (next l).events)
      rw [records_append, records_append, (h l).records]

/-- Only the end and the records of the second run count. -/
theorem Sim.congr_right {a b b' : Answer} (h : Sim S a b) (hsame : b.Same b') : Sim S a b' := by
  obtain ⟨hresult, hrecords⟩ := hsame
  obtain ⟨events', result'⟩ := b'
  obtain rfl : result' = b.result := hresult
  cases h with
  | excused h => exact .excused h
  | halted h => exact .halted fun ho => hrecords.trans (h ho)
  | finished hcounters h => exact .finished hcounters fun ho => hrecords.trans (h ho)

/-- The two differ in the operand that their event shows, and in nothing else. -/
theorem perform_alike (h : op.Alike op') (l : Local) :
    (perform constants host callee frame position op l).Same
      (perform constants host callee frame position op' l) := by
  unfold perform
  rw [h.effect, execute_alike h]
  by_cases hfew : l.window.length < op.effect.inputs
  · rw [if_pos hfew, if_pos hfew]
    exact ⟨rfl, rfl⟩
  · rw [if_neg hfew, if_neg hfew]
    by_cases hhigh : op.effect.inputs < op.effect.outputs ∧
        maxHeight < frame.base + l.window.length - op.effect.inputs + op.effect.outputs
    · rw [if_pos hhigh, if_pos hhigh]
      exact ⟨rfl, rfl⟩
    · rw [if_neg hhigh, if_neg hhigh]
      exact ⟨rfl, rfl⟩

/-- **A step of alike operations on both sides.** -/
theorem step_alike (hS : S.Lawful) (hframes : S.Frames frame frame')
    (hplace : S.place frame.source position = position') (hop : op.Alike op')
    (hcallee : ∀ i, op.invocation? = some i → RespectsCallee S callee callee' i.source) :
    Respects S (step constants host callee frame position op)
      (step constants host callee' frame' position' op') := by
  intro window c c' h
  have hsame : (step constants host callee' frame' position' op ⟨window, c'⟩).Same
      (step constants host callee' frame' position' op' ⟨window, c'⟩) :=
    Answer.Same.andThen _ (perform_alike hop)
  exact (step_respects hS hframes hplace hcallee window c c' h).congr_right hsame

end Alike

/-! ## 4. Alike expressions do the same -/

theorem runCode_alike {S : Slack} {step step' : Nat → Operation → Local → Answer}
    {code code' : List Operation} (hcode : List.Forall₂ Operation.Alike code code')
    (hstep : ∀ op op', op.Alike op' → ∀ p, Respects S (step p op) (step' p op')) :
    ∀ p, Respects S (runCode step p code) (runCode step' p code') := by
  induction hcode with
  | nil => exact fun _ window _ _ h => .done h window
  | cons halike _ ih =>
      intro p window c c' h
      exact (hstep _ _ halike p window c c' h).andThen (ih (p + 1))

theorem runFrameWith_alike {e e' : Expression} (h : e.Alike e') (host : Host)
    {callee callee' : Callee} (hcallee : ∀ source, RespectsCallee .none callee callee' source)
    (source : Nat) :
    RespectsCallee .none (runFrameWith e host callee) (runFrameWith e' host callee') source := by
  intro frame frame' _ hframes window c c' hcounters
  have hcode := rel_getElem? h.code frame.source
  refine Sim.after ?_ fun _ => rfl
  rw [hframes.source, h.constants]
  cases hfirst : e.code[frame.source]? with
  | none =>
      rw [hfirst] at hcode
      cases hsecond : e'.code[frame.source]? with
      | none => exact .halt .stuck
      | some code' => rw [hsecond] at hcode; cases hcode
  | some code =>
      rw [hfirst] at hcode
      cases hsecond : e'.code[frame.source]? with
      | none => rw [hsecond] at hcode; cases hcode
      | some code' =>
          rw [hsecond] at hcode
          cases hcode with
          | some hcode =>
              refine runCode_alike hcode (fun op op' hop p => ?_) 0 window c c' hcounters
              exact step_alike Slack.none_lawful hframes rfl hop fun i _ => hcallee i.source

/-- **Frames of expressions that are alike.** -/
theorem runFrame_alike {e e' : Expression} (h : e.Alike e') (host : Host) :
    ∀ (levels source : Nat),
      RespectsCallee .none (runFrame e host levels) (runFrame e' host levels) source
  | 0 => runFrameWith_alike h host fun _ _ _ _ _ _ _ _ _ => .halt (.fault .callDepthExceeded)
  | levels + 1 => runFrameWith_alike h host (runFrame_alike h host levels)

end Isolated

/-- **Expressions that are alike have the same results and let out the same records.** -/
theorem eval_alike {e e' : Expression} (he : e.WellFormed) (h : e.Alike e') (host : Host)
    (entry : Nat) (inputs : List Word) :
    (eval e' host entry inputs).result = (eval e host entry inputs).result ∧
      records (eval e' host entry inputs).trace = records (eval e host entry inputs).trace := by
  have hsim : entry < e.code.length → Isolated.Sim .none
      (Isolated.runFrame e host maxDepth ⟨entry, 0, 0⟩ ⟨inputs, {}⟩)
      (Isolated.runFrame e' host maxDepth ⟨entry, 0, 0⟩ ⟨inputs, {}⟩) := fun _ =>
    Isolated.runFrame_alike h host maxDepth entry ⟨entry, 0, 0⟩ ⟨entry, 0, 0⟩ rfl
      ⟨rfl, Nat.le_refl 0, Or.inl rfl⟩ inputs {} {} rfl
  obtain ⟨hresult, hrecords⟩ := eval_of_sim he (h.wellFormed he) h.length_code host rfl hsim
    fun _ _ => id
  refine ⟨hresult.trans ?_, hrecords trivial⟩
  cases (eval e host entry inputs).result with
  | ok words => rfl
  | error halt => exact congrArg Except.error halt.relocate_self

end Machine

/-! ## 5. Texts -/

/-- **A text of a source**: its stored code in base 16, or its printed form. -/
inductive TextForm (s : Source) : String → Prop where
  | hex : TextForm s (Config.hexText s)
  | printed : TextForm s s.text

/-- What a text of some operations writes is the code of operations that are alike. -/
theorem TextForm.exists_alike {constants sources : Nat} {ops : List Operation}
    (hops : ∀ op ∈ ops, op.WellFormed constants sources) {text : String}
    (h : TextForm (ops.map Operation.instruction) text) :
    ∃ ops', List.Forall₂ Operation.Alike ops ops' ∧
      Config.Writes text (Source.encode (ops'.map Operation.instruction)) := by
  cases h with
  | hex =>
      refine ⟨ops, List.forall₂_same.2 fun op _ => .refl op, Config.writes_hexText _⟩
  | printed =>
      have hreadable : ∀ i ∈ ops.map Operation.instruction, ¬ i.Unreadable := by
        intro i hi
        obtain ⟨op, hop, rfl⟩ := List.mem_map.1 hi
        exact (hops op hop).readable
      have hcleared : Source.cleared (ops.map Operation.instruction) =
          (ops.map Operation.cleared).map Operation.instruction := by
        unfold Source.cleared
        simp [Function.comp_def, Operation.instruction_cleared]
      refine ⟨ops.map Operation.cleared, ?_, ?_⟩
      · rw [List.forall₂_map_right_iff, List.forall₂_same]
        exact fun op _ => op.alike_cleared
      · rw [← hcleared]
        exact Config.writes_text hreadable

/-- The texts of all sources write the code of an expression that is alike. -/
theorem exists_alike_of_texts {constants sources : Nat} {code : List (List Operation)}
    (hcode : ∀ ops ∈ code, ∀ op ∈ ops, op.WellFormed constants sources) {texts : List String}
    (h : List.Forall₂ (fun ops text => TextForm (List.map Operation.instruction ops) text) code
      texts) :
    ∃ code', List.Forall₂ (List.Forall₂ Operation.Alike) code code' ∧
      List.Forall₂ Config.Writes texts
        (code'.map fun ops => Source.encode (ops.map Operation.instruction)) := by
  induction h with
  | nil => exact ⟨[], .nil, .nil⟩
  | @cons ops text code texts hform _ ih =>
      obtain ⟨ops', hops, hwrites⟩ := hform.exists_alike (hcode ops List.mem_cons_self)
      obtain ⟨code', hrest, hwritten⟩ := ih fun ops h => hcode ops (List.mem_cons_of_mem _ h)
      exact ⟨ops' :: code', .cons hops hrest, .cons hwrites hwritten⟩

/-- **Every text of an expression means the same.** Write each source of a loaded expression as
stored code in base 16 or as its printed form, one this way and one that way as you like: the
configuration with these texts builds. For every entry, inputs and host, what is built gives the
same words or the same fault as the expression, and lets out the same records in the same order.
Before a sink the two give the same as well, and a sink that keeps records has kept the same. -/
theorem eval_textForm {e : Expression} (h : Loaded e) {texts : List String}
    (htexts : List.Forall₂ TextForm e.sources texts) :
    ∃ e', Config.build ⟨e.constants, texts⟩ = .ok e' ∧
      ∀ (host : Host) (entry : Nat) (inputs : List Word),
        (Machine.eval e' host entry inputs).result = (Machine.eval e host entry inputs).result ∧
        Machine.records (Machine.eval e' host entry inputs).trace =
          Machine.records (Machine.eval e host entry inputs).trace ∧
        (∀ (σ : Type) (sink : Option (Machine.Watched.Sink σ)) (own : σ),
          (Machine.Watched.eval sink own e' host entry inputs).result =
            (Machine.Watched.eval sink own e host entry inputs).result) ∧
        (Machine.Watched.eval (some .recording) #[] e' host entry inputs).told.sink =
          (Machine.Watched.eval (some .recording) #[] e host entry inputs).told.sink := by
  have he := h.wellFormed
  obtain ⟨code', hcode, hwrites⟩ := exists_alike_of_texts he (List.forall₂_map_left_iff.1 htexts)
  have halike : e.Alike ⟨e.constants, code'⟩ := ⟨rfl, hcode⟩
  refine ⟨⟨e.constants, code'⟩, ?_, fun host entry inputs => ?_⟩
  · rw [Config.build_of_writes hwrites,
      Expression.loadBytes_eq_ok_iff.2 ⟨rfl, ?_, halike.wellFormed he⟩]
    · rfl
    · simp [Expression.sources, Function.comp_def]
  · obtain ⟨hresult, hrecords⟩ := Machine.eval_alike he halike host entry inputs
    refine ⟨hresult, hrecords, fun _ sink own => ?_, Array.toList_inj.1 ?_⟩
    · rw [Machine.Watched.result_eval, Machine.Watched.result_eval, hresult]
    · rw [Machine.Watched.sink_eval_recording, Machine.Watched.sink_eval_recording, hrecords]

/-- Shows whether a word is zero; the `is-zero` in a source of its own has an operand that is not
printed. -/
def negation : Expression where
  constants := []
  code := [[⟨.call, 0x0111⟩, ⟨.debug, 1⟩], [⟨.apply .isZero, 7⟩]]

/-- One source as stored code and one printed: one is not zero, and that is shown. -/
theorem eval_textForm_negation :
    Loaded negation ∧ ∃ e', Config.build ⟨[], ["0x0001011100040001", "is-zero"]⟩ = .ok e' ∧
      (Machine.eval e' .null 0 [Word.one]).result = .ok [Word.zero] ∧
      Machine.records (Machine.eval e' .null 0 [Word.one]).trace = [.stack [Word.zero]] := by
  have h : Loaded negation := @Loaded.ofSources _ [] negation.sources rfl
  have hhex : Config.hexText [⟨1, 0x0111⟩, ⟨4, 1⟩] = "0x0001011100040001" := by decide
  have hprinted : Source.text [⟨23, 7⟩] = "is-zero" := by decide
  have hforms : List.Forall₂ TextForm negation.sources ["0x0001011100040001", "is-zero"] := by
    rw [← hhex, ← hprinted]
    exact .cons .hex (.cons .printed .nil)
  obtain ⟨e', hbuild, heval⟩ := eval_textForm h hforms
  obtain ⟨hresult, hrecords, -⟩ := heval .null 0 [Word.one]
  rw [Machine.eval_eq_outcome h.wellFormed .null (by decide) (by decide)] at hresult hrecords
  exact ⟨h, e', hbuild, hresult, hrecords⟩

end WordMachine
