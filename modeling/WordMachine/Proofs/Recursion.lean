import Mathlib.Data.List.Chain
import Mathlib.Logic.Relation
import WordMachine.Proofs.Isolation

/-!
# Recursion never ends well

A `call`, and a `loop-n` that goes round at all, run their source whatever the data. If source `j`
holds one of them with target `k`, `j` leads to `k`. A frame that ends well has run all its
operations, so each source that it leads to has ended well too, one level deeper; and there are
only so many levels.

* `Expression.Leads` is the graph;
* `Callee.Succeeds`: a source ends well in some frame and over some words. `leads_succeeds` hands
  this on along an edge, `runFrame_walk` along a walk;
* `recursion_never_succeeds` says it of evaluations: no walk from the entry has more edges than the
  depth limit, and whoever can get into a cycle fails.
-/

namespace WordMachine

/-! ## 1. What is run whatever the data -/

/-- How often an operation runs the source that it invokes, whatever the data. A `do-while` may not
run its own at all. -/
def Operation.rounds (op : Operation) : Nat :=
  match op.opcode with
  | .call => 1
  | .loopN => (LoopOperand.ofBits op.operand).count
  | _ => 0

/-- **The edges of the call graph that no run can avoid**: an operation of source `j` runs source
`k` at least once. -/
def Expression.Leads (e : Expression) (j k : Nat) : Prop :=
  ∃ ops, e.code[j]? = some ops ∧
    ∃ op ∈ ops, 1 ≤ op.rounds ∧ ∃ i, op.invocation? = some i ∧ i.source = k

/-- Whoever can get into a cycle can go on as long as it likes. -/
theorem exists_walk_of_cycle {α : Type} {R : α → α → Prop} {a c : α}
    (hreach : Relation.ReflTransGen R a c) (hcycle : Relation.TransGen R c c) (n : Nat) :
    ∃ path : List α, List.IsChain R (a :: path) ∧ path.length = n := by
  induction n generalizing a c with
  | zero => exact ⟨[], .singleton a, rfl⟩
  | succ n ih =>
      -- One edge further, the cycle can still be reached, perhaps from its next place.
      obtain ⟨b, hab, d, hbd, hd⟩ : ∃ b, R a b ∧ ∃ d, Relation.ReflTransGen R b d ∧
          Relation.TransGen R d d := by
        rcases hreach.cases_head with rfl | ⟨b, hab, hbc⟩
        · obtain ⟨b, hab, hba⟩ := Relation.TransGen.head'_iff.1 hcycle
          exact ⟨b, hab, a, hba, hcycle⟩
        · exact ⟨b, hab, c, hbc, hcycle⟩
      obtain ⟨path, hpath, hlength⟩ := ih hbd hd
      exact ⟨b :: path, .cons_cons hab hpath, congrArg (· + 1) hlength⟩

namespace Machine

namespace Isolated

/-! ## 2. Runs that end well -/

theorem Answer.andThen_eq_ok {a : Answer} {next : Local → Answer} {l : Local}
    (h : (a.andThen next).result = .ok l) :
    ∃ l', a.result = .ok l' ∧ (next l').result = .ok l := by
  obtain ⟨events, result⟩ := a
  cases result with
  | ok l' => exact ⟨l', rfl, h⟩
  | error halt => cases h

/-- A run that goes on and does nothing. -/
theorem Answer.andThen_done (a : Answer) : a.andThen .done = a := by
  obtain ⟨events, result⟩ := a
  cases result with
  | ok l =>
      show Answer.mk (events ++ []) (.ok l) = _
      rw [List.append_nil]
  | error halt => rfl

theorem popThen_eq_ok {l l' : Local} {n : Nat} {next : List Word → Local → Answer}
    (h : (l.popThen n next).result = .ok l') :
    ∃ words rest, (next words rest).result = .ok l' := by
  unfold Local.popThen at h
  split at h
  · exact ⟨_, _, h⟩
  · cases h

/-- What an operation that is no `do-while` does with the source that it invokes. -/
theorem execute_eq_times {constants : List Word} {host : Host} {callee : Callee} {frame : Frame}
    {position : Nat} {op : Operation} (hop : op.opcode ≠ .doWhile) {i : Invocation}
    (hi : op.invocation? = some i) (l : Local) :
    execute constants host callee frame position op l =
      times op.rounds (invoke callee frame i.source i.inputs i.outputs) l := by
  obtain ⟨opcode, operand⟩ := op
  cases opcode with
  | call =>
      cases hi
      exact (Answer.andThen_done _).symm
  | loopN =>
      cases hi
      rfl
  | doWhile => exact absurd rfl hop
  | _ => cases hi

/-- **Some run of the source ends well.** -/
def Callee.Succeeds (callee : Callee) (source : Nat) : Prop :=
  ∃ base depth l l', (callee ⟨source, base, depth⟩ l).result = .ok l'

section Succeeds

variable {constants : List Word} {host : Host} {callee : Callee}

theorem invoke_succeeds {caller : Frame} {source inputs outputs : Nat} {l l' : Local}
    (h : (invoke callee caller source inputs outputs l).result = .ok l') :
    callee.Succeeds source := by
  obtain ⟨arguments, rest, hinvoke⟩ := popThen_eq_ok h
  obtain ⟨left, hleft, -⟩ := Answer.andThen_eq_ok hinvoke
  exact ⟨_, _, _, left, hleft⟩

/-- An operation that runs its source whatever the data has seen it end well. -/
theorem execute_succeeds {frame : Frame} {position : Nat} {op : Operation} (hop : 1 ≤ op.rounds)
    {i : Invocation} (hi : op.invocation? = some i) {l l' : Local}
    (h : (execute constants host callee frame position op l).result = .ok l') :
    callee.Succeeds i.source := by
  have hnot : op.opcode ≠ .doWhile := by
    intro hdo
    unfold Operation.rounds at hop
    rw [hdo] at hop
    exact absurd hop (Nat.not_succ_le_zero 0)
  rw [execute_eq_times hnot hi] at h
  obtain ⟨n, hn⟩ := Nat.exists_eq_add_of_le' hop
  rw [hn] at h
  obtain ⟨l₁, hl₁, -⟩ := Answer.andThen_eq_ok h
  exact invoke_succeeds hl₁

theorem step_of_lt {frame : Frame} {p : Nat} {op : Operation} {window : List Word} {c : Counters}
    (h : c.steps < maxSteps) :
    step constants host callee frame p op ⟨window, c⟩ =
      perform constants host callee frame p op ⟨window, c.step⟩ := by
  unfold step Local.countStep
  rw [if_pos h]
  rfl

theorem step_of_not_lt {frame : Frame} {p : Nat} {op : Operation} {window : List Word}
    {c : Counters} (h : ¬ c.steps < maxSteps) :
    step constants host callee frame p op ⟨window, c⟩ = .fail .stepBudgetExceeded := by
  unfold step Local.countStep
  rw [if_neg h]
  rfl

/-- A step that ends well has run its operation to the end. -/
theorem step_eq_ok {frame : Frame} {position : Nat} {op : Operation} {l l' : Local}
    (h : (step constants host callee frame position op l).result = .ok l') :
    ∃ l₁, (execute constants host callee frame position op l₁).result = .ok l' := by
  obtain ⟨l₁, -, hperform⟩ := Answer.andThen_eq_ok h
  unfold perform at hperform
  split at hperform
  · cases hperform
  · split at hperform
    · cases hperform
    · exact ⟨l₁, hperform⟩

/-- Code that ends well has run each of its operations to the end. -/
theorem runCode_eq_ok {step : Nat → Operation → Local → Answer} {code : List Operation}
    {p : Nat} {l l' : Local} (h : (runCode step p code l).result = .ok l') :
    ∀ op ∈ code, ∃ q l₁ l₂, (step q op l₁).result = .ok l₂ := by
  induction code generalizing p l with
  | nil => exact fun op hop => absurd hop List.not_mem_nil
  | cons first rest ih =>
      obtain ⟨l₁, hfirst, hrest⟩ := Answer.andThen_eq_ok h
      intro op hop
      rcases List.mem_cons.1 hop with rfl | hop
      · exact ⟨p, l, l₁, hfirst⟩
      · exact ih hrest op hop

/-! ## 3. Walks -/

/-- **Along an edge**: a source ends well only if the source that it leads to has. -/
theorem leads_succeeds {e : Expression} {j k : Nat} (hleads : e.Leads j k)
    (h : (runFrameWith e host callee).Succeeds j) : callee.Succeeds k := by
  obtain ⟨ops, hops, op, hop, hrounds, i, hi, rfl⟩ := hleads
  obtain ⟨base, depth, l, l', hrun⟩ := h
  have hcode : (runCode (step e.constants host callee ⟨j, base, depth⟩) 0 ops l).result =
      .ok l' := by
    unfold runFrameWith at hrun
    rw [hops] at hrun
    exact hrun
  obtain ⟨q, l₁, l₂, hstep⟩ := runCode_eq_ok hcode op hop
  obtain ⟨l₃, hexecute⟩ := step_eq_ok hstep
  exact execute_succeeds hrounds hi hexecute

/-- **Along a walk**: each edge takes one of the levels that may nest. -/
theorem runFrame_walk {e : Expression} {levels j : Nat} {path : List Nat}
    (hpath : List.IsChain e.Leads (j :: path)) (h : (runFrame e host levels).Succeeds j) :
    path.length ≤ levels := by
  induction levels generalizing j path with
  | zero =>
      cases hpath with
      | singleton => exact Nat.le_refl 0
      | cons_cons hleads _ =>
          obtain ⟨_, _, _, _, hfail⟩ := leads_succeeds hleads h
          cases hfail
  | succ levels ih =>
      cases hpath with
      | singleton => exact Nat.zero_le _
      | cons_cons hleads hrest => exact Nat.succ_le_succ (ih hrest (leads_succeeds hleads h))

end Succeeds

end Isolated

/-! ## 4. Evaluations -/

/-- An evaluation that gives a stack has run its entry to the end. -/
theorem succeeds_of_eval {e : Expression} (he : e.WellFormed) {host : Host} {entry : Nat}
    {inputs words : List Word} (h : (eval e host entry inputs).result = .ok words) :
    (Isolated.runFrame e host maxDepth).Succeeds entry := by
  rcases eval_cases he host entry inputs with ⟨-, heval⟩ | ⟨-, -, heval⟩ | ⟨-, -, heval⟩
  · rw [heval] at h
    cases h
  · rw [heval] at h
    cases h
  · rw [heval] at h
    obtain ⟨l, hrun, -⟩ := Isolated.Answer.of_outcome_ok h
    exact ⟨0, 0, _, l, hrun⟩

/-- An evaluation of a well-formed expression that gives no stack gives a fault. -/
theorem fault_of_eval {e : Expression} (he : e.WellFormed) {host : Host} {entry : Nat}
    {inputs : List Word} (h : ∀ words, (eval e host entry inputs).result ≠ .ok words) :
    ∃ f, (eval e host entry inputs).result = .error (.fault f) := by
  rcases eval_cases he host entry inputs with ⟨-, heval⟩ | ⟨-, -, heval⟩ | ⟨hentry, -, heval⟩
  · exact ⟨_, by rw [heval]⟩
  · exact ⟨_, by rw [heval]⟩
  · have hmeets := Isolated.runFrame_meets he host maxDepth hentry 0 0 ⟨inputs, {}⟩
    cases hresult : (eval e host entry inputs).result with
    | ok words => exact absurd hresult (h words)
    | error halt =>
        cases halt with
        | fault f => exact ⟨f, rfl⟩
        | stuck =>
            rw [heval] at hresult
            exact absurd (Isolated.Answer.of_outcome_error hresult) hmeets.ne_stuck

/-- **Recursion never ends well.** If an evaluation of a loaded expression gives a stack, no walk
from its entry along what is run whatever the data has more edges than the depth limit allows
levels. So an evaluation fails whose entry can get into a cycle of such edges, whatever the inputs
and the host. -/
theorem recursion_never_succeeds {e : Expression} (h : Loaded e) (host : Host) (entry : Nat)
    (inputs : List Word) :
    (∀ words, (eval e host entry inputs).result = .ok words →
      ∀ path, List.IsChain e.Leads (entry :: path) → path.length ≤ maxDepth) ∧
    (∀ k, Relation.ReflTransGen e.Leads entry k → Relation.TransGen e.Leads k k →
      ∃ f, (eval e host entry inputs).result = .error (.fault f)) := by
  have he := h.wellFormed
  have hwalk : ∀ words, (eval e host entry inputs).result = .ok words →
      ∀ path, List.IsChain e.Leads (entry :: path) → path.length ≤ maxDepth :=
    fun words hwords path hpath => Isolated.runFrame_walk hpath (succeeds_of_eval he hwords)
  refine ⟨hwalk, fun k hreach hcycle => fault_of_eval he fun words hwords => ?_⟩
  obtain ⟨path, hpath, hlength⟩ := exists_walk_of_cycle hreach hcycle (maxDepth + 1)
  have hbound := hwalk words hwords path hpath
  omega

/-- The first two sources run each other, but the way back is a `do-while` over zero. The last two
run each other whatever the data. -/
def circles : Expression where
  constants := [Word.zero]
  code :=
    [[⟨.loopN, 0x2100⟩],
     [⟨.readMemory, 1⟩, ⟨.doWhile, 0x0000⟩],
     [⟨.call, 0x0300⟩],
     [⟨.loopN, 0x1200⟩]]

/-- The first circle can be left, and the walk from its entry has one edge; the second cannot. -/
theorem recursion_never_succeeds_circles :
    Loaded circles ∧ (eval circles .null 0 []).result = .ok [] ∧
      List.IsChain circles.Leads [0, 1] ∧ [1].length ≤ maxDepth ∧
      circles.Leads 2 3 ∧ circles.Leads 3 2 ∧
      ∃ f, (eval circles .null 2 []).result = .error (.fault f) := by
  have h : Loaded circles := @Loaded.ofSources _ [Word.zero] circles.sources rfl
  have hok : (eval circles .null 0 []).result = .ok [] := by
    rw [eval_eq_outcome h.wellFormed .null (by decide) (by decide)]
    rfl
  have hchain : List.IsChain circles.Leads [0, 1] := by
    refine .cons_cons ?_ (.singleton 1)
    exact ⟨_, rfl, _, List.mem_cons_self, by decide, ⟨1, 0, 0⟩, rfl, rfl⟩
  have hthere : circles.Leads 2 3 :=
    ⟨_, rfl, _, List.mem_cons_self, by decide, ⟨3, 0, 0⟩, rfl, rfl⟩
  have hback : circles.Leads 3 2 :=
    ⟨_, rfl, _, List.mem_cons_self, by decide, ⟨2, 0, 0⟩, rfl, rfl⟩
  refine ⟨h, hok, hchain, (recursion_never_succeeds h .null 0 []).1 _ hok _ hchain, hthere, hback, ?_⟩
  exact (recursion_never_succeeds h .null 2 []).2 2 .refl (.head hthere (.single hback))

end Machine

end WordMachine
