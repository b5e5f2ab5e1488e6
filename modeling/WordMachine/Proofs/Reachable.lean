import Mathlib.Logic.Relation
import WordMachine.Proofs.Isolation
import WordMachine.Proofs.Simulation

/-!
# Only what can be reached matters

An evaluation gets from its entry to other sources by `call`, `loop-n` and `do-while`, to constants
by `read-memory`, and to the host by the opcodes that read it. Nothing else of an expression or a
host has any bearing on its result.

* `Expression.Invokes` is the graph of all invocations, `Expression.InReach` says of an operation
  that it stands in a source that the entry can get to;
* `Expression.AgreesFrom`: two expressions and two hosts are the same, as far as that goes;
* `execute_reads`, `step_reads`: an operation does the same over pools and hosts that agree on what
  it reads, up to the records it lets out;
* `only_reachable_matters` says what this means for evaluations.
-/

namespace WordMachine

/-! ## 1. What an entry can get at -/

/-- The constant that an operation reads, if it reads one. -/
def Operation.constant? (op : Operation) : Option Nat :=
  match op.opcode with
  | .readMemory =>
    let place := MemoryOperand.ofBits op.operand
    if place.region = .constant then some place.offset else none
  | _ => none

/-- The hosts answer alike what an operation reads from them. -/
def Host.AgreeOn (op : Operation) (host host' : Host) : Prop :=
  match op.opcode with
  | .context =>
    host'.context (ContextCell.ofBits op.operand) = host.context (ContextCell.ofBits op.operand)
  | .scalar s => host'.scalar s = host.scalar s
  | .balanceOf => host'.balanceOf = host.balanceOf
  | .totalSupply => host'.totalSupply = host.totalSupply
  | _ => True

theorem Host.agreeOn_self (op : Operation) (host : Host) : Host.AgreeOn op host host := by
  unfold Host.AgreeOn
  split <;> trivial

namespace Expression

/-- Source `j` has an operation whose target is source `k`. -/
def Invokes (e : Expression) (j k : Nat) : Prop :=
  ∃ ops, e.code[j]? = some ops ∧ ∃ op ∈ ops, ∃ i, op.invocation? = some i ∧ i.source = k

/-- The operation stands in a source that can be reached from the entry. -/
def InReach (e : Expression) (entry : Nat) (op : Operation) : Prop :=
  ∃ k, Relation.ReflTransGen e.Invokes entry k ∧ ∃ ops, e.code[k]? = some ops ∧ op ∈ ops

/-- **The expressions, and the hosts, are the same as far as the entry can get**: the sources that
it reaches, the constants that they read, and the host reads that they make. -/
structure AgreesFrom (entry : Nat) (e e' : Expression) (host host' : Host) : Prop where
  code : ∀ k, Relation.ReflTransGen e.Invokes entry k → e'.code[k]? = e.code[k]?
  constants : ∀ op, e.InReach entry op → ∀ n, op.constant? = some n →
    e'.constants[n]? = e.constants[n]?
  hosts : ∀ op, e.InReach entry op → Host.AgreeOn op host host'

variable {e : Expression}

/-- An invocation in a well-formed expression finds its source. -/
theorem Invokes.lt (he : e.WellFormed) {j k : Nat} (h : e.Invokes j k) : k < e.code.length := by
  obtain ⟨ops, hops, op, hop, i, hi, rfl⟩ := h
  exact (he ops (List.mem_of_getElem? hops) op hop).source_lt hi

/-- From a source one gets to sources only. -/
theorem reached_lt (he : e.WellFormed) {entry k : Nat} (hentry : entry < e.code.length)
    (h : Relation.ReflTransGen e.Invokes entry k) : k < e.code.length := by
  rcases h.cases_tail with rfl | ⟨j, -, hjk⟩
  · exact hentry
  · exact hjk.lt he

/-- A constant that is read is there. -/
theorem InReach.constant_lt (he : e.WellFormed) {entry : Nat} {op : Operation}
    (h : e.InReach entry op) {n : Nat} (hn : op.constant? = some n) : n < e.constants.length := by
  obtain ⟨k, -, ops, hops, hop⟩ := h
  have hw := he ops (List.mem_of_getElem? hops) op hop
  obtain ⟨opcode, operand⟩ := op
  unfold Operation.constant? at hn
  cases opcode with
  | readMemory =>
      dsimp only at hn
      split at hn
      · rename_i hregion
        cases hn
        exact hw hregion
      · cases hn
  | _ => cases hn

/-- More constants and more sources, behind those that are there. -/
theorem AgreesFrom.append (he : e.WellFormed) {entry : Nat} (hentry : entry < e.code.length)
    {host host' : Host} (hhosts : ∀ op, e.InReach entry op → Host.AgreeOn op host host')
    (constants : List Word) (code : List (List Operation)) :
    AgreesFrom entry e ⟨e.constants ++ constants, e.code ++ code⟩ host host' where
  code _ hk := List.getElem?_append_left (reached_lt he hentry hk)
  constants _ hop _ hn := List.getElem?_append_left (hop.constant_lt he hn)
  hosts := hhosts

/-- Other code for a source that is out of reach. -/
theorem AgreesFrom.setCode {entry k : Nat} (hk : ¬ Relation.ReflTransGen e.Invokes entry k)
    (code : List Operation) (host : Host) :
    AgreesFrom entry e ⟨e.constants, e.code.set k code⟩ host host where
  code j hj := by
    have hne : k ≠ j := fun heq => hk (heq ▸ hj)
    exact List.getElem?_set_ne hne
  constants _ _ _ _ := rfl
  hosts op _ := Host.agreeOn_self op host

/-- Another value for a constant that no operation within reach reads. -/
theorem AgreesFrom.setConstant {entry n : Nat}
    (hn : ∀ op, e.InReach entry op → op.constant? ≠ some n) (w : Word) (host : Host) :
    AgreesFrom entry e ⟨e.constants.set n w, e.code⟩ host host where
  code _ _ := rfl
  constants op hop m hm := by
    have hne : n ≠ m := fun heq => hn op hop (heq ▸ hm)
    exact List.getElem?_set_ne hne
  hosts op _ := Host.agreeOn_self op host

end Expression

namespace Machine

namespace Isolated

/-! ## 2. The same ends -/

/-- **The same end**, with the same counters; what the runs let out does not count. -/
def Slack.ends : Slack where
  counters c c' := c' = c
  excused _ := False
  place := fun _ position => position
  observes := False

theorem Sim.ends_iff {a a' : Answer} : Sim .ends a a' ↔ a'.result = a.result := by
  constructor
  · intro h
    cases h with
    | excused h => exact absurd h id
    | halted _ => exact congrArg Except.error (Halt.relocate_self _)
    | finished hcounters _ =>
        obtain rfl := hcounters
        rfl
  · intro h
    obtain ⟨events, result⟩ := a
    obtain ⟨events', result'⟩ := a'
    obtain rfl : result' = result := h
    cases result' with
    | ok l => exact .finished rfl (absurd · id)
    | error halt =>
        have hhalt : Sim .ends ⟨events, .error halt⟩ ⟨events', .error (halt.relocate _)⟩ :=
          .halted (absurd · id)
        rw [show halt.relocate Slack.ends.place = halt from halt.relocate_self] at hhalt
        exact hhalt

theorem Slack.ends_lawful : ends.Lawful := lawful_of_eq fun _ _ => Iff.rfl

/-! ## 3. Operations that read the same -/

section Reads

variable {e e' : Expression} {host host' : Host} {callee callee' : Callee} {frame frame' : Frame}
  {p : Nat} {op : Operation}

theorem readMemory_reads {place : MemoryOperand} (h : place.region = .constant →
    e'.constants[place.offset.val]? = e.constants[place.offset.val]?) (l : Local) :
    readMemory e'.constants frame p place l = readMemory e.constants frame p place l := by
  unfold readMemory
  cases hregion : place.region with
  | constant => rw [h hregion]
  | stack => rfl

/-- **What an operation does hangs on what it reads only.** A record shows the whole pool, so it
may differ; the end does not. -/
theorem execute_reads
    (hconstant : ∀ n, op.constant? = some n → e'.constants[n]? = e.constants[n]?)
    (hhost : Host.AgreeOn op host host') (l : Local) :
    (execute e'.constants host' callee frame p op l).result =
      (execute e.constants host callee frame p op l).result := by
  obtain ⟨opcode, operand⟩ := op
  cases opcode with
  | readMemory =>
      refine congrArg Answer.result (readMemory_reads (fun hregion => hconstant _ ?_) l)
      exact if_pos hregion
  | debug =>
      unfold execute
      dsimp only
      cases Operation.debugMode? ⟨.debug, operand⟩ with
      | none => rfl
      | some mode => cases mode <;> rfl
  | context =>
      have hread : host'.context (ContextCell.ofBits operand) =
          host.context (ContextCell.ofBits operand) := hhost
      show (l.pushRead _).result = (l.pushRead _).result
      rw [hread]
  | scalar s =>
      have hread : host'.scalar s = host.scalar s := hhost
      show (l.pushRead _).result = (l.pushRead _).result
      rw [hread]
  | balanceOf =>
      have hread : host'.balanceOf = host.balanceOf := hhost
      unfold execute
      dsimp only
      rw [hread]
  | totalSupply =>
      have hread : host'.totalSupply = host.totalSupply := hhost
      unfold execute
      dsimp only
      rw [hread]
  | _ => rfl

theorem perform_reads
    (hconstant : ∀ n, op.constant? = some n → e'.constants[n]? = e.constants[n]?)
    (hhost : Host.AgreeOn op host host') (l : Local) :
    (perform e'.constants host' callee frame p op l).result =
      (perform e.constants host callee frame p op l).result := by
  unfold perform
  split
  · rfl
  · split
    · rfl
    · exact execute_reads hconstant hhost l

theorem Answer.result_andThen {a : Answer} {next next' : Local → Answer}
    (h : ∀ l, (next' l).result = (next l).result) :
    (a.andThen next').result = (a.andThen next).result := by
  obtain ⟨events, result⟩ := a
  cases result with
  | ok l => exact h l
  | error halt => rfl

/-- **A step on both sides**, over pools and hosts that agree on what it reads. -/
theorem step_reads (hframes : Slack.ends.Frames frame frame')
    (hconstant : ∀ n, op.constant? = some n → e'.constants[n]? = e.constants[n]?)
    (hhost : Host.AgreeOn op host host')
    (hcallee : ∀ i, op.invocation? = some i → RespectsCallee .ends callee callee' i.source) :
    Respects .ends (step e.constants host callee frame p op)
      (step e'.constants host' callee' frame' p op) := by
  have hsame : Respects .ends (step e.constants host callee frame p op)
      (step e.constants host callee' frame' p op) :=
    step_respects Slack.ends_lawful hframes rfl hcallee
  intro window c c' h
  refine Sim.ends_iff.2 (Eq.trans ?_ (Sim.ends_iff.1 (hsame window c c' h)))
  exact Answer.result_andThen (perform_reads hconstant hhost)

end Reads

/-! ## 4. Frames -/

section Frames

variable {e e' : Expression} {host host' : Host} {entry : Nat}

theorem runFrameWith_reads (hagree : Expression.AgreesFrom entry e e' host host')
    {callee callee' : Callee} (hcallee : ∀ k, Relation.ReflTransGen e.Invokes entry k →
      RespectsCallee .ends callee callee' k) {k : Nat}
    (hk : Relation.ReflTransGen e.Invokes entry k) :
    RespectsCallee .ends (runFrameWith e host callee) (runFrameWith e' host' callee') k := by
  rintro frame frame' rfl hframes window c c' h
  refine Sim.after ?_ fun _ => rfl
  rw [hframes.source, hagree.code _ hk]
  cases hcode : e.code[frame.source]? with
  | none => exact .halt .stuck
  | some code =>
      refine runCode_respects (fun op hop p => ?_) 0 window c c' h
      have hreach : e.InReach entry op := ⟨_, hk, code, hcode, hop⟩
      refine step_reads hframes (hagree.constants op hreach) (hagree.hosts op hreach) fun i hi => ?_
      exact hcallee i.source (hk.tail ⟨code, hcode, op, hop, i, hi, rfl⟩)

/-- **Frames of sources that the entry can get to.** -/
theorem runFrame_reads (hagree : Expression.AgreesFrom entry e e' host host') :
    ∀ (levels : Nat) {k : Nat}, Relation.ReflTransGen e.Invokes entry k →
      RespectsCallee .ends (runFrame e host levels) (runFrame e' host' levels) k
  | 0, _, hk => runFrameWith_reads hagree
      (fun _ _ _ _ _ _ _ _ _ _ => .halt (.fault .callDepthExceeded)) hk
  | levels + 1, _, hk => runFrameWith_reads hagree (fun _ hk' => runFrame_reads hagree levels hk') hk

end Frames

end Isolated

/-! ## 5. Evaluations -/

theorem eval_of_agreesFrom {e e' : Expression} (he : e.WellFormed) (he' : e'.WellFormed)
    {host host' : Host} {entry : Nat} (hentry : entry < e.code.length)
    (hagree : Expression.AgreesFrom entry e e' host host') (inputs : List Word) :
    (eval e' host' entry inputs).result = (eval e host entry inputs).result := by
  have hentry' : entry < e'.code.length := by
    have hcode := hagree.code entry .refl
    rw [List.getElem?_eq_getElem hentry] at hcode
    exact (List.getElem?_eq_some_iff.1 hcode).1
  by_cases hinputs : inputs.length ≤ maxHeight
  · rw [eval_eq_outcome he host hentry hinputs, eval_eq_outcome he' host' hentry' hinputs,
      Isolated.Answer.result_outcome, Isolated.Answer.result_outcome]
    have hsim := Isolated.runFrame_reads hagree maxDepth .refl ⟨entry, 0, 0⟩ ⟨entry, 0, 0⟩ rfl
      ⟨rfl, Nat.le_refl 0, Or.inl rfl⟩ inputs {} {} rfl
    rw [Isolated.Sim.ends_iff.1 hsim]
  · have hmany : maxHeight < inputs.length := Nat.not_le.1 hinputs
    rw [eval_of_many host (Nat.not_le.2 hentry) hmany,
      eval_of_many host' (Nat.not_le.2 hentry') hmany]

/-- **Only what can be reached matters.** If two loaded expressions and two hosts are the same as
far as an entry can get (the sources it reaches by invocations, the constants that these read, the
host reads that they make), an evaluation from that entry has the same result with both, words or
fault, whatever the inputs. In particular a result does not change where constants or sources are
added behind the others, where a source that is out of reach gets other code, or where a constant
that nothing within reach reads gets another value. -/
theorem only_reachable_matters {e : Expression} (h : Loaded e) {entry : Nat}
    (hentry : entry < e.code.length) :
    (∀ (e' : Expression) (host host' : Host), Loaded e' →
      Expression.AgreesFrom entry e e' host host' → ∀ inputs,
        (eval e' host' entry inputs).result = (eval e host entry inputs).result) ∧
    (∀ constants code, Loaded ⟨e.constants ++ constants, e.code ++ code⟩ → ∀ host inputs,
      (eval ⟨e.constants ++ constants, e.code ++ code⟩ host entry inputs).result =
        (eval e host entry inputs).result) ∧
    (∀ k code, ¬ Relation.ReflTransGen e.Invokes entry k →
      Loaded ⟨e.constants, e.code.set k code⟩ → ∀ host inputs,
        (eval ⟨e.constants, e.code.set k code⟩ host entry inputs).result =
          (eval e host entry inputs).result) ∧
    (∀ n w, (∀ op, e.InReach entry op → op.constant? ≠ some n) →
      Loaded ⟨e.constants.set n w, e.code⟩ → ∀ host inputs,
        (eval ⟨e.constants.set n w, e.code⟩ host entry inputs).result =
          (eval e host entry inputs).result) := by
  have he := h.wellFormed
  refine ⟨fun e' host host' h' hagree inputs => ?_, fun constants code h' host inputs => ?_,
    fun k code hk h' host inputs => ?_, fun n w hn h' host inputs => ?_⟩
  · exact eval_of_agreesFrom he h'.wellFormed hentry hagree inputs
  · have hagree := Expression.AgreesFrom.append he hentry
      (fun op _ => Host.agreeOn_self op host) constants code
    exact eval_of_agreesFrom he h'.wellFormed hentry hagree inputs
  · exact eval_of_agreesFrom he h'.wellFormed hentry (.setCode hk code host) inputs
  · exact eval_of_agreesFrom he h'.wellFormed hentry (.setConstant hn w host) inputs

/-- Gives the larger of a constant and the caller; the caller is read in a source of its own. -/
def largerCaller : Expression where
  constants := [Word.one]
  code :=
    [[⟨.readMemory, 1⟩, ⟨.call, 0x0111⟩],
     [⟨.scalar .caller, 0⟩, ⟨.apply .max, 2⟩]]

/-- The same, with a constant and a source that are not used. -/
def largerCaller.extended : Expression :=
  ⟨largerCaller.constants ++ [Word.max], largerCaller.code ++ [[⟨.scalar .timestamp, 0⟩]]⟩

/-- A host that knows its caller, and gives one answer to every other question for a scalar. -/
def callerHost (other : Except HostFault Word) : Host :=
  { Host.null with scalar := fun s => if s = .caller then .ok Word.zero else other }

/-- What is added is not used, and the hosts differ in what is not read. -/
theorem only_reachable_matters_largerCaller :
    Loaded largerCaller ∧ Loaded largerCaller.extended ∧ 0 < largerCaller.code.length ∧
      Expression.AgreesFrom 0 largerCaller largerCaller.extended (callerHost (.ok Word.one))
        (callerHost (.error (.failed "down"))) ∧
      (eval largerCaller (callerHost (.ok Word.one)) 0 []).result = .ok [Word.one] ∧
      (eval largerCaller.extended (callerHost (.error (.failed "down"))) 0 []).result =
        .ok [Word.one] := by
  have h : Loaded largerCaller := @Loaded.ofSources _ [Word.one] largerCaller.sources rfl
  have h' : Loaded largerCaller.extended :=
    @Loaded.ofSources _ [Word.one, Word.max] largerCaller.extended.sources rfl
  have hentry : 0 < largerCaller.code.length := by decide
  have hhosts : ∀ op, largerCaller.InReach 0 op →
      Host.AgreeOn op (callerHost (.ok Word.one)) (callerHost (.error (.failed "down"))) := by
    rintro op ⟨k, -, ops, hops, hop⟩
    rcases k with _ | _ | k
    · cases hops
      rcases List.mem_pair.1 hop with rfl | rfl <;> trivial
    · cases hops
      rcases List.mem_pair.1 hop with rfl | rfl
      · rfl
      · trivial
    · cases hops
  have hagree := Expression.AgreesFrom.append h.wellFormed hentry hhosts [Word.max]
    [[⟨.scalar .timestamp, 0⟩]]
  have hresult : (eval largerCaller (callerHost (.ok Word.one)) 0 []).result = .ok [Word.one] := by
    rw [eval_eq_outcome h.wellFormed _ hentry (by decide)]
    decide +kernel
  refine ⟨h, h', hentry, hagree, hresult, ?_⟩
  exact ((only_reachable_matters h hentry).1 _ _ _ h' hagree []).trans hresult

end Machine

end WordMachine
