import Mathlib.Data.List.Chain
import Mathlib.Data.List.Perm.Subperm
import WordMachine.Proofs.Recursion

/-!
# What runs is known before a run

Where no `do-while` is in play, the data decide how far an evaluation gets, and nothing else: which
instructions it runs, in which order and how deep, can be read off the expression.

* `Expression.unfolding` writes that list out: each instruction of a source, followed by what it
  runs. It is finite where the call graph has no cycle, and then it satisfies its own description
  (`Acyclic.unfolding_eq`);
* `Answer.Unfolds` says that a run goes along a list of places: it may stop early, but it does not
  leave the list, and it counts its steps by it;
* `runFrame_unfolds` shows this of frames, and `unfolding_foretells` of evaluations.
-/

namespace WordMachine

/-! ## 1. Unfoldings -/

/-- Where an instruction is run: a source, a position in it, and how deep the frame is. -/
structure Place where
  source : Nat
  position : Nat
  depth : Nat
deriving DecidableEq, Repr

/-- What an operation runs, whatever the data, if `nested` unfolds the sources. -/
def Operation.unfold (nested : Nat → List Place) (op : Operation) : List Place :=
  match op.invocation? with
  | some i => (List.replicate op.rounds (nested i.source)).flatten
  | none => []

/-- The places of code from a position on, each followed by what is run from there. -/
def unfoldCode (nested : Nat → List Place) (source depth : Nat) :
    (position : Nat) → List Operation → List Place
  | _, [] => []
  | p, op :: rest =>
    ⟨source, p, depth⟩ :: (op.unfold nested ++ unfoldCode nested source depth (p + 1) rest)

namespace Expression

/-- The places of a source; what it runs lies one level deeper and is unfolded by `nested`. -/
def unfoldSource (e : Expression) (nested : (source depth : Nat) → List Place)
    (source depth : Nat) : List Place :=
  match e.code[source]? with
  | some code => unfoldCode (nested · (depth + 1)) source depth 0 code
  | none => []

/-- The places of a source, down to so many levels. -/
def unfoldWithin (e : Expression) : (levels source depth : Nat) → List Place
  | 0 => fun _ _ => []
  | levels + 1 => e.unfoldSource (e.unfoldWithin levels)

/-- The source holds no `do-while`. -/
def Straight (e : Expression) (source : Nat) : Prop :=
  ∀ code, e.code[source]? = some code → ∀ op ∈ code, op.opcode ≠ .doWhile

/-- From the source, what is run whatever the data never comes round to itself. -/
def Acyclic (e : Expression) (source : Nat) : Prop :=
  ∀ k, Relation.ReflTransGen e.Leads source k → ¬ Relation.TransGen e.Leads k k

/-- **All places of a source.** Without a cycle, no more sources can nest than there are. -/
def unfolding (e : Expression) : (source depth : Nat) → List Place :=
  e.unfoldWithin (e.code.length + 1)

end Expression

/-! ## 2. Without cycles the unfolding is complete -/

section Acyclic

variable {α : Type} {R : α → α → Prop}

/-- Whatever a walk comes by can be reached from its start. -/
theorem reaches_of_mem_walk {a x : α} {path : List α} (hpath : List.IsChain R (a :: path))
    (hx : x ∈ a :: path) : Relation.ReflTransGen R a x := by
  rcases List.mem_cons.1 hx with rfl | hx
  · exact .refl
  · have htrans : List.IsChain (Relation.TransGen R) (a :: path) :=
      hpath.imp fun _ _ => Relation.TransGen.single
    exact (htrans.rel_cons hx).to_reflTransGen

/-- Without cycles, a walk comes by nothing twice. -/
theorem nodup_walk {a : α} (hacyclic : ∀ b, Relation.ReflTransGen R a b → ¬ Relation.TransGen R b b)
    {path : List α} (hpath : List.IsChain R (a :: path)) : (a :: path).Nodup := by
  have htrans : List.IsChain (Relation.TransGen R) (a :: path) :=
    hpath.imp fun _ _ => Relation.TransGen.single
  refine htrans.pairwise.imp_of_mem ?_
  rintro x _ hx - hxx rfl
  exact hacyclic x (reaches_of_mem_walk hpath hx) hxx

/-- A walk leaves all that it comes by but the last. -/
theorem leaves_of_mem_dropLast {a x : α} {path : List α} (hpath : List.IsChain R (a :: path))
    (hx : x ∈ (a :: path).dropLast) : ∃ y, R x y := by
  induction path generalizing a with
  | nil => exact absurd hx List.not_mem_nil
  | cons b path ih =>
      obtain ⟨hab, hrest⟩ := List.isChain_cons_cons.1 hpath
      rcases List.mem_cons.1 hx with rfl | hx
      · exact ⟨b, hab⟩
      · exact ih hrest hx

end Acyclic

namespace Expression

variable {e : Expression}

/-- No walk from a source has as many edges as that. -/
def Shallow (e : Expression) (n source : Nat) : Prop :=
  ∀ path, List.IsChain e.Leads (source :: path) → path.length < n

theorem Shallow.of_leads {n j k : Nat} (h : e.Shallow (n + 1) j) (hleads : e.Leads j k) :
    e.Shallow n k :=
  fun path hpath => Nat.lt_of_succ_lt_succ (h (k :: path) (.cons_cons hleads hpath))

/-- **Without cycles, walks are no longer than there are sources**, since they leave each of them
once at most. -/
theorem Acyclic.shallow {k : Nat} (hacyclic : e.Acyclic k) : e.Shallow (e.code.length + 1) k := by
  intro path hpath
  have hnodup : (k :: path).dropLast.Nodup :=
    (nodup_walk hacyclic hpath).sublist (List.dropLast_sublist _)
  have hsubset : (k :: path).dropLast ⊆ List.range e.code.length := by
    intro j hj
    obtain ⟨_, ops, hops, -⟩ := leaves_of_mem_dropLast hpath hj
    exact List.mem_range.2 (List.getElem?_eq_some_iff.1 hops).1
  have hlength := (List.subperm_of_subset hnodup hsubset).length_le
  rw [List.length_dropLast, List.length_range, List.length_cons, Nat.add_sub_cancel] at hlength
  exact Nat.lt_succ_of_le hlength

/-- Only the sources that an operation runs whatever the data show in its unfolding. -/
theorem unfold_congr {nested nested' : Nat → List Place} {op : Operation}
    (h : 1 ≤ op.rounds → ∀ i, op.invocation? = some i → nested i.source = nested' i.source) :
    op.unfold nested = op.unfold nested' := by
  unfold Operation.unfold
  cases hi : op.invocation? with
  | none => rfl
  | some i =>
      show (List.replicate op.rounds (nested i.source)).flatten =
        (List.replicate op.rounds (nested' i.source)).flatten
      rcases Nat.eq_zero_or_pos op.rounds with hzero | hpos
      · rw [hzero]
        rfl
      · rw [h hpos i hi]

theorem unfoldCode_congr {nested nested' : Nat → List Place} {source depth : Nat}
    {code : List Operation} (h : ∀ op ∈ code, op.unfold nested = op.unfold nested') (p : Nat) :
    unfoldCode nested source depth p code = unfoldCode nested' source depth p code := by
  induction code generalizing p with
  | nil => rfl
  | cons op rest ih =>
      unfold unfoldCode
      rw [h op List.mem_cons_self, ih (fun op' hop' => h op' (List.mem_cons_of_mem _ hop'))]

theorem unfoldSource_congr {nested nested' : (source depth : Nat) → List Place} {k : Nat}
    (h : ∀ j, e.Leads k j → nested j = nested' j) (depth : Nat) :
    e.unfoldSource nested k depth = e.unfoldSource nested' k depth := by
  unfold unfoldSource
  cases hcode : e.code[k]? with
  | none => rfl
  | some code =>
      refine unfoldCode_congr (fun op hop => unfold_congr fun hrounds i hi => ?_) 0
      exact congrFun (h i.source ⟨code, hcode, op, hop, hrounds, i, hi, rfl⟩) (depth + 1)

/-- A source whose walks end in time is unfolded down to the ground. -/
theorem unfoldWithin_succ {n k : Nat} (h : e.Shallow n k) :
    e.unfoldWithin n k = e.unfoldWithin (n + 1) k := by
  induction n generalizing k with
  | zero => exact absurd (h [] (.singleton k)) (Nat.not_lt_zero _)
  | succ n ih =>
      funext depth
      exact unfoldSource_congr (fun j hleads => ih (h.of_leads hleads)) depth

/-- **Without cycles, the unfolding is what it is meant to be**: the places of the source, each
followed by the unfolding of what is run from there, one level deeper. -/
theorem Acyclic.unfolding_eq {k : Nat} (hacyclic : e.Acyclic k) (depth : Nat) :
    e.unfolding k depth = e.unfoldSource e.unfolding k depth :=
  unfoldSource_congr (fun _ hleads => unfoldWithin_succ (hacyclic.shallow.of_leads hleads)) depth

/-- Whatever can be reached has no more cycles in reach. -/
theorem Acyclic.of_reaches {j k : Nat} (hacyclic : e.Acyclic j)
    (hk : Relation.ReflTransGen e.Leads j k) : e.Acyclic k :=
  fun i hi => hacyclic i (hk.trans hi)

end Expression

namespace Machine

/-! ## 3. Places of a run -/

/-- **Where the instructions of a trace were run**, in order. An instruction is in the trace once it
has passed its checks. -/
def places (trace : List Event) : List Place :=
  trace.filterMap fun
    | .step frame position _ _ => some ⟨frame.source, position, frame.depth⟩
    | _ => none

theorem places_append (trace trace' : List Event) :
    places (trace ++ trace') = places trace ++ places trace' :=
  List.filterMap_append

/-- The words below do not show in the places. -/
theorem places_map_under (below : List Word) (trace : List Event) :
    places (trace.map (·.under below)) = places trace := by
  induction trace with
  | nil => rfl
  | cons event trace ih =>
      cases event with
      | step frame p op n => exact congrArg (Place.mk frame.source p frame.depth :: ·) ih
      | _ => exact ih

namespace Isolated

/-- **The run goes along some places.** It has counted `steps` instructions before. -/
structure Answer.Unfolds (steps : Nat) (ps : List Place) (a : Answer) : Prop where
  /-- It does not leave them. -/
  along : places a.events <+: ps
  /-- If it ends well, it has come to their end and has counted them, within the budget. -/
  finished : ∀ {l}, a.result = .ok l → places a.events = ps ∧
    l.counters.steps = steps + ps.length ∧ (steps ≤ maxSteps → l.counters.steps ≤ maxSteps)
  /-- If it runs out of the budget, they do not fit into it. -/
  exhausted : a.result = .error (.fault .stepBudgetExceeded) → maxSteps < steps + ps.length

section Unfolds

variable {steps : Nat} {ps qs : List Place} {a : Answer} {l : Local}

theorem unfolds_done (h : l.counters.steps = steps) : (Answer.done l).Unfolds steps [] := by
  refine ⟨List.nil_prefix, fun hl => ?_, fun hl => ?_⟩
  · cases hl
    exact ⟨rfl, h, fun hle => h ▸ hle⟩
  · cases hl

/-- A run may stop anywhere, for any reason but the budget. -/
theorem unfolds_halt {halt : Halt} (h : halt ≠ .fault .stepBudgetExceeded) :
    (Answer.halt halt).Unfolds steps ps := by
  refine ⟨List.nil_prefix, fun hl => ?_, fun hl => ?_⟩
  · cases hl
  · cases hl
    exact absurd rfl h

theorem unfolds_fail {f : Fault} (h : f ≠ .stepBudgetExceeded) :
    (Answer.fail f).Unfolds steps ps := by
  refine unfolds_halt fun heq => ?_
  cases heq
  exact absurd rfl h

theorem unfolds_stuck : (Answer.halt .stuck).Unfolds steps ps := by
  refine unfolds_halt fun heq => ?_
  cases heq

theorem Answer.Unfolds.under (h : a.Unfolds steps ps) (below : List Word) :
    (a.under below).Unfolds steps ps := by
  have hplaces : places (a.under below).events = places a.events := places_map_under below _
  refine ⟨?_, fun hl => ?_, h.exhausted⟩
  · rw [hplaces]
    exact h.along
  · rw [hplaces]
    exact h.finished hl

/-- What is let out is no step. -/
theorem Answer.Unfolds.after {event : Event} (h : a.Unfolds steps ps)
    (hevent : places [event] = []) : (a.after event).Unfolds steps ps := by
  have hplaces : places (a.after event).events = places a.events := by
    show places ([event] ++ a.events) = _
    rw [places_append, hevent, List.nil_append]
  refine ⟨?_, fun hl => ?_, h.exhausted⟩
  · rw [hplaces]
    exact h.along
  · rw [hplaces]
    exact h.finished hl

/-- **One run after another.** -/
theorem Answer.Unfolds.andThen {next : Local → Answer} (h : a.Unfolds steps ps)
    (hnext : ∀ l, (next l).Unfolds l.counters.steps qs) :
    (a.andThen next).Unfolds steps (ps ++ qs) := by
  obtain ⟨events, result⟩ := a
  cases result with
  | error halt =>
      refine ⟨h.along.trans (List.prefix_append ps qs), fun hl => ?_, fun hl => ?_⟩
      · cases hl
      · have hfit := h.exhausted hl
        rw [List.length_append]
        omega
  | ok l =>
      obtain ⟨hplaces, hsteps, hbudget⟩ := h.finished rfl
      have hall : places (events ++ (next l).events) = ps ++ places (next l).events := by
        rw [places_append]
        exact congrArg (· ++ _) hplaces
      refine ⟨?_, fun hl => ?_, fun hl => ?_⟩
      · show places (events ++ (next l).events) <+: ps ++ qs
        rw [hall]
        exact (List.prefix_append_right_inj ps).2 (hnext l).along
      · obtain ⟨hplaces', hsteps', hbudget'⟩ := (hnext l).finished hl
        refine ⟨?_, ?_, fun hle => hbudget' (hbudget hle)⟩
        · show places (events ++ (next l).events) = ps ++ qs
          rw [hall, hplaces']
        · rw [hsteps', hsteps, List.length_append, Nat.add_assoc]
      · have hfit := (hnext l).exhausted hl
        rw [List.length_append]
        omega

theorem popThen_unfolds {n : Nat} {next : List Word → Local → Answer}
    (hnext : ∀ words window, (next words ⟨window, l.counters⟩).Unfolds steps ps) :
    (l.popThen n next).Unfolds steps ps := by
  unfold Local.popThen
  split
  · exact hnext _ _
  · exact unfolds_stuck

/-! ## 4. Operations -/

theorem pushRead_unfolds (l : Local) (read : Except HostFault Word) :
    (l.pushRead read).Unfolds l.counters.steps [] := by
  cases read with
  | ok w => exact unfolds_done rfl
  | error f => exact unfolds_fail (by simp)

theorem readMemory_unfolds {constants : List Word} (frame : Frame) (p : Nat)
    (place : MemoryOperand) (l : Local) :
    (readMemory constants frame p place l).Unfolds l.counters.steps [] := by
  unfold readMemory
  split
  · split
    · exact unfolds_done rfl
    · exact unfolds_stuck
  · split
    · exact unfolds_done rfl
    · exact unfolds_fail (by simp)

/-- **An operation that invokes nothing** runs nothing but itself. -/
theorem execute_unfolds_none {constants : List Word} {host : Host} {callee : Callee}
    {frame : Frame} {p : Nat} {op : Operation} (hop : op.invocation? = none) (l : Local) :
    (execute constants host callee frame p op l).Unfolds l.counters.steps [] := by
  obtain ⟨opcode, operand⟩ := op
  cases opcode with
  | readMemory => exact readMemory_unfolds frame p _ l
  | call => cases hop
  | loopN => cases hop
  | doWhile => cases hop
  | debug =>
      unfold execute
      dsimp only
      cases Operation.debugMode? ⟨.debug, operand⟩ with
      | none => exact unfolds_stuck
      | some mode => cases mode <;> exact (unfolds_done rfl).after rfl
  | context => exact pushRead_unfolds l _
  | scalar s => exact pushRead_unfolds l _
  | balanceOf | totalSupply =>
      unfold execute
      refine popThen_unfolds fun words window => ?_
      split
      · exact pushRead_unfolds ⟨window, l.counters⟩ _
      · exact unfolds_stuck
  | apply f =>
      unfold execute applyFunction
      refine popThen_unfolds fun words window => ?_
      split
      · exact unfolds_done rfl
      · exact unfolds_fail (by simp)
      · exact unfolds_stuck
  | ensure =>
      unfold execute ensureAll
      refine popThen_unfolds fun words window => ?_
      split
      · exact unfolds_done rfl
      · exact unfolds_fail (by simp)

end Unfolds

/-- Frames of a source go along some places. -/
def Callee.Unfolds (callee : Callee) (source depth : Nat) (ps : List Place) : Prop :=
  ∀ base l, (callee ⟨source, base, depth⟩ l).Unfolds l.counters.steps ps

section Operations

variable {constants : List Word} {host : Host} {callee : Callee} {frame : Frame}

theorem invoke_unfolds {source : Nat} {ps : List Place}
    (hcallee : callee.Unfolds source (frame.depth + 1) ps) (inputs outputs : Nat) (l : Local) :
    (invoke callee frame source inputs outputs l).Unfolds l.counters.steps ps := by
  refine popThen_unfolds fun arguments window => ?_
  rw [← List.append_nil ps]
  refine ((hcallee _ ⟨arguments, l.counters⟩).under window).andThen fun left => ?_
  split
  · exact unfolds_done rfl
  · exact unfolds_fail (by simp)

theorem times_unfolds {body : Local → Answer} {ps : List Place}
    (hbody : ∀ l, (body l).Unfolds l.counters.steps ps) :
    ∀ (n : Nat) (l : Local),
      (times n body l).Unfolds l.counters.steps (List.replicate n ps).flatten
  | 0, _ => unfolds_done rfl
  | n + 1, l => (hbody l).andThen (times_unfolds hbody n)

/-- **An operation that is no `do-while`** runs what its unfolding says. -/
theorem execute_unfolds {p : Nat} {op : Operation} {nested : Nat → List Place}
    (hop : op.opcode ≠ .doWhile) (hcallee : 1 ≤ op.rounds → ∀ i, op.invocation? = some i →
      callee.Unfolds i.source (frame.depth + 1) (nested i.source)) (l : Local) :
    (execute constants host callee frame p op l).Unfolds l.counters.steps (op.unfold nested) := by
  unfold Operation.unfold
  cases hi : op.invocation? with
  | none => exact execute_unfolds_none hi l
  | some i =>
      rw [execute_eq_times hop hi]
      show (times op.rounds _ l).Unfolds _ (List.replicate op.rounds (nested i.source)).flatten
      rcases Nat.eq_zero_or_pos op.rounds with hzero | hpos
      · rw [hzero]
        exact unfolds_done rfl
      · exact times_unfolds (invoke_unfolds (hcallee hpos i hi) i.inputs i.outputs) op.rounds l

/-- **A step is one place further**: it is counted before it is checked, and in the trace once it
has passed. -/
theorem step_unfolds (frame : Frame) {p : Nat} {op : Operation} {nested : Nat → List Place}
    (hop : op.opcode ≠ .doWhile) (hcallee : 1 ≤ op.rounds → ∀ i, op.invocation? = some i →
      callee.Unfolds i.source (frame.depth + 1) (nested i.source)) (l : Local) :
    (step constants host callee frame p op l).Unfolds l.counters.steps
      (⟨frame.source, p, frame.depth⟩ :: op.unfold nested) := by
  unfold step Local.countStep
  by_cases hsteps : l.counters.steps < maxSteps
  · rw [if_pos hsteps]
    show (perform constants host callee frame p op ⟨l.window, l.counters.step⟩).Unfolds _ _
    unfold perform
    split
    · exact unfolds_fail (by simp)
    · split
      · exact unfolds_fail (by simp)
      · have hrun : (execute constants host callee frame p op ⟨l.window, l.counters.step⟩).Unfolds
            (l.counters.steps + 1) (op.unfold nested) :=
          execute_unfolds hop hcallee ⟨l.window, l.counters.step⟩
        refine ⟨(List.prefix_cons_inj _).2 hrun.along, fun hl => ?_, fun hl => ?_⟩
        · obtain ⟨hplaces, hcounted, hbudget⟩ := hrun.finished hl
          refine ⟨congrArg (_ :: ·) hplaces, ?_, fun _ => hbudget hsteps⟩
          rw [hcounted, List.length_cons]
          omega
        · have hfit := hrun.exhausted hl
          rw [List.length_cons]
          omega
  · rw [if_neg hsteps]
    refine ⟨List.nil_prefix, fun hl => ?_, fun _ => ?_⟩
    · cases hl
    · rw [List.length_cons]
      omega

theorem runCode_unfolds {step : Nat → Operation → Local → Answer} {code : List Operation}
    {source depth : Nat} {nested : Nat → List Place}
    (hstep : ∀ op ∈ code, ∀ p l, (step p op l).Unfolds l.counters.steps
      (⟨source, p, depth⟩ :: op.unfold nested)) :
    ∀ (p : Nat) (l : Local),
      (runCode step p code l).Unfolds l.counters.steps (unfoldCode nested source depth p code) := by
  induction code with
  | nil => exact fun _ _ => unfolds_done rfl
  | cons op rest ih =>
      intro p l
      have hrest := ih (fun op' hop' => hstep op' (List.mem_cons_of_mem _ hop'))
      exact (hstep op List.mem_cons_self p l).andThen (hrest (p + 1))

end Operations

/-! ## 5. Frames -/

theorem runFrameWith_unfolds {e : Expression} {host : Host} {callee : Callee} {k depth : Nat}
    (hstraight : e.Straight k) {nested : (source depth : Nat) → List Place}
    (hcallee : ∀ j, e.Leads k j → callee.Unfolds j (depth + 1) (nested j (depth + 1))) :
    (runFrameWith e host callee).Unfolds k depth (e.unfoldSource nested k depth) := by
  intro base l
  refine Answer.Unfolds.after ?_ rfl
  unfold Expression.unfoldSource
  dsimp only
  cases hcode : e.code[k]? with
  | none => exact unfolds_stuck
  | some code =>
      refine runCode_unfolds (fun op hop p l' => ?_) 0 l
      refine step_unfolds ⟨k, base, depth⟩ (hstraight code hcode op hop) (fun hrounds i hi => ?_) l'
      exact hcallee i.source ⟨code, hcode, op, hop, hrounds, i, hi, rfl⟩

/-- **A frame goes along the unfolding of its source**, however many levels it is given. -/
theorem runFrame_unfolds {e : Expression} (host : Host) {entry : Nat}
    (hacyclic : e.Acyclic entry)
    (hstraight : ∀ k, Relation.ReflTransGen e.Leads entry k → e.Straight k) :
    ∀ (levels depth : Nat) {k : Nat}, Relation.ReflTransGen e.Leads entry k →
      (runFrame e host levels).Unfolds k depth (e.unfolding k depth) := by
  intro levels
  induction levels with
  | zero =>
      intro depth k hk
      rw [(hacyclic.of_reaches hk).unfolding_eq]
      exact runFrameWith_unfolds (hstraight k hk) fun _ _ _ _ => unfolds_fail (by simp)
  | succ levels ih =>
      intro depth k hk
      rw [(hacyclic.of_reaches hk).unfolding_eq]
      exact runFrameWith_unfolds (hstraight k hk) fun j hleads => ih (depth + 1) (hk.tail hleads)

theorem Answer.places_outcome (entry : Nat) (a : Answer) :
    places (a.outcome entry).trace = places a.events := by
  obtain ⟨events, result⟩ := a
  cases result <;> exact (places_append _ _).trans (List.append_nil _)

end Isolated

/-! ## 6. Evaluations -/

/-- **What runs is known before a run.** From an entry of a loaded expression, let what is run
whatever the data hold no `do-while` and no cycle. Then `unfolding` is what it is meant to be, and
for all inputs and every host:

* the instructions that pass their checks are the first ones of the unfolding of the entry, in this
  order and at these depths;
* an evaluation that gives a stack has run all of them, and they fit into the step budget;
* an evaluation runs out of the step budget only if they do not. -/
theorem unfolding_foretells {e : Expression} (h : Loaded e) {entry : Nat}
    (hacyclic : e.Acyclic entry)
    (hstraight : ∀ k, Relation.ReflTransGen e.Leads entry k → e.Straight k) (host : Host)
    (inputs : List Word) :
    let outcome := eval e host entry inputs
    let foretold := e.unfolding entry 0
    (∀ k depth, Relation.ReflTransGen e.Leads entry k →
      e.unfolding k depth = e.unfoldSource e.unfolding k depth) ∧
    places outcome.trace <+: foretold ∧
    (∀ words, outcome.result = .ok words →
      places outcome.trace = foretold ∧ foretold.length ≤ maxSteps) ∧
    (outcome.result = .error (.fault .stepBudgetExceeded) → maxSteps < foretold.length) := by
  intro outcome foretold
  refine ⟨fun k depth hk => (hacyclic.of_reaches hk).unfolding_eq depth, ?_⟩
  rcases eval_cases h.wellFormed host entry inputs with ⟨-, heval⟩ | ⟨-, -, heval⟩ | ⟨-, -, heval⟩
  · rw [show outcome = _ from heval]
    exact ⟨List.nil_prefix, fun _ hok => (by cases hok), fun hfault => (by cases hfault)⟩
  · rw [show outcome = _ from heval]
    exact ⟨List.nil_prefix, fun _ hok => (by cases hok), fun hfault => (by cases hfault)⟩
  · have hrun := Isolated.runFrame_unfolds host hacyclic hstraight maxDepth 0 .refl 0 ⟨inputs, {}⟩
    rw [show outcome = _ from heval, Isolated.Answer.places_outcome]
    refine ⟨hrun.along, fun words hok => ?_, fun hfault => ?_⟩
    · obtain ⟨l, hresult, -⟩ := Isolated.Answer.of_outcome_ok hok
      obtain ⟨hplaces, hcounted, hbudget⟩ := hrun.finished hresult
      have hfits := hbudget (Nat.zero_le _)
      rw [hcounted, Nat.zero_add] at hfits
      exact ⟨hplaces, hfits⟩
    · have hfit := hrun.exhausted (Isolated.Answer.of_outcome_error hfault)
      rw [Nat.zero_add] at hfit
      exact hfit

/-- Requires in its last source that a word is true: twice by way of the second source, and once
directly. -/
def relay : Expression where
  constants := []
  code :=
    [[⟨.loopN, 0x2111⟩, ⟨.call, 0x0211⟩],
     [⟨.call, 0x0211⟩],
     [⟨.readMemory, 0⟩, ⟨.ensure, 1⟩]]

/-- Each source leads to later ones only. -/
theorem relay_leads {j k : Nat} (h : relay.Leads j k) : j < k := by
  obtain ⟨ops, hops, op, hop, -, i, hi, rfl⟩ := h
  rcases j with _ | _ | _ | j
  · cases hops
    rcases List.mem_pair.1 hop with rfl | rfl
    · cases hi
      decide
    · cases hi
      decide
  · cases hops
    cases List.mem_singleton.1 hop
    cases hi
    decide
  · cases hops
    rcases List.mem_pair.1 hop with rfl | rfl <;> cases hi
  · cases hops

theorem relay_acyclic : relay.Acyclic 0 := by
  intro k _ hcycle
  have hlt : ∀ {a b}, Relation.TransGen relay.Leads a b → a < b := by
    intro a b hab
    induction hab with
    | single h => exact relay_leads h
    | tail _ h ih => exact Nat.lt_trans ih (relay_leads h)
  exact Nat.lt_irrefl k (hlt hcycle)

theorem relay_straight (k : Nat) : relay.Straight k := by
  intro code hcode op hop
  have hall : ∀ code ∈ relay.code, ∀ op ∈ code, op.opcode ≠ .doWhile := by decide
  exact hall code (List.mem_of_getElem? hcode) op hop

/-- Over one, all ten instructions are run as foretold. Over zero, the evaluation stops with the
fourth. -/
theorem unfolding_foretells_relay :
    Loaded relay ∧ relay.Acyclic 0 ∧ (∀ k, relay.Straight k) ∧
      relay.unfolding 0 0 =
        [⟨0, 0, 0⟩, ⟨1, 0, 1⟩, ⟨2, 0, 2⟩, ⟨2, 1, 2⟩, ⟨1, 0, 1⟩, ⟨2, 0, 2⟩, ⟨2, 1, 2⟩,
         ⟨0, 1, 0⟩, ⟨2, 0, 1⟩, ⟨2, 1, 1⟩] ∧
      (eval relay .null 0 [Word.one]).result = .ok [Word.one] ∧
      places (eval relay .null 0 [Word.one]).trace = relay.unfolding 0 0 ∧
      (eval relay .null 0 [Word.zero]).result = .error (.fault (.ensureFailed 2 1 0)) ∧
      places (eval relay .null 0 [Word.zero]).trace <+: relay.unfolding 0 0 ∧
      (places (eval relay .null 0 [Word.zero]).trace).length = 4 := by
  have h : Loaded relay := @Loaded.ofSources _ [] relay.sources rfl
  have hforetells := unfolding_foretells h relay_acyclic (fun k _ => relay_straight k) .null
  have hok : (eval relay .null 0 [Word.one]).result = .ok [Word.one] := by
    rw [eval_eq_outcome h.wellFormed .null (by decide) (by decide)]
    decide +kernel
  refine ⟨h, relay_acyclic, relay_straight, rfl, hok, ((hforetells [Word.one]).2.2.1 _ hok).1, ?_,
    (hforetells [Word.zero]).2.1, ?_⟩
  · rw [eval_eq_outcome h.wellFormed .null (by decide) (by decide)]
    rfl
  · rw [eval_eq_outcome h.wellFormed .null (by decide) (by decide)]
    rfl

end Machine

end WordMachine
