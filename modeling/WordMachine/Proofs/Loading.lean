import Mathlib.Data.List.Basic
import WordMachine.Config
import WordMachine.Proofs.Walks

/-!
# What loading accepts

Loading is a check and nothing else: it accepts the sources of exactly those expressions whose
operations are well formed, and it changes none of them (`Expression.load_eq_ok_iff`). The run-time
facts about loaded expressions start from `Loaded.wellFormed`.

* `Operation.WellFormed` says for each opcode what its operand has to satisfy;
* `Expression.WellFormed` says it of every operation of every source;
* `Loaded` collects the three ways to come by an expression.
-/

namespace WordMachine

/-! ## 1. Well-formed operations -/

/-- **The operand suits the opcode** in an expression with so many constants and sources. -/
def Operation.WellFormed (constants sources : Nat) (op : Operation) : Prop :=
  match op.opcode with
  | .readMemory =>
    (MemoryOperand.ofBits op.operand).region = .constant →
      (MemoryOperand.ofBits op.operand).offset.val < constants
  | .call => (CallOperand.ofBits op.operand).source.val < sources
  | .loopN =>
    (LoopOperand.ofBits op.operand).inputs = (LoopOperand.ofBits op.operand).outputs ∧
      (LoopOperand.ofBits op.operand).source.val < sources
  | .doWhile => (DoWhileOperand.ofBits op.operand).source.val < sources
  | .debug => op.operand.toNat ≤ 1
  | .context | .scalar _ | .balanceOf | .totalSupply => True
  | .apply f => f.arity = .variadic → 2 ≤ op.operand.toNat
  | .ensure => 1 ≤ op.operand.toNat

/-- Every operation of every source is well formed. -/
def Expression.WellFormed (e : Expression) : Prop :=
  ∀ ops ∈ e.code, ∀ op ∈ ops, op.WellFormed e.constants.length e.code.length

/-! ## 2. Invocations -/

/-- A source that an operation runs, over how many words, and how many it has to leave. -/
structure Invocation where
  source : Nat
  inputs : Nat
  outputs : Nat
deriving DecidableEq, Repr

/-- The invocation that an operation makes, once or several times; only `call`, `loop-n` and
`do-while` make one. -/
def Operation.invocation? (op : Operation) : Option Invocation :=
  match op.opcode with
  | .call =>
    let c := CallOperand.ofBits op.operand
    some ⟨c.source, c.inputs, c.outputs⟩
  | .loopN =>
    let l := LoopOperand.ofBits op.operand
    some ⟨l.source, l.inputs, l.outputs⟩
  | .doWhile =>
    let d := DoWhileOperand.ofBits op.operand
    some ⟨d.source, d.inputs, d.inputs + 1⟩
  | _ => none

/-- A well-formed operation invokes a source that is there. -/
theorem Operation.WellFormed.source_lt {constants sources : Nat} {op : Operation}
    (h : op.WellFormed constants sources) {i : Invocation} (hi : op.invocation? = some i) :
    i.source < sources := by
  obtain ⟨opcode, operand⟩ := op
  unfold Operation.invocation? at hi
  cases opcode with
  | call => cases hi; exact h
  | loopN => cases hi; exact h.2
  | doWhile => cases hi; exact h
  | _ => cases hi

/-- An operand has no room for a larger number of inputs. -/
theorem Operation.inputs_lt_of_invocation? {op : Operation} {i : Invocation}
    (hi : op.invocation? = some i) : i.inputs < 256 := by
  obtain ⟨opcode, operand⟩ := op
  unfold Operation.invocation? at hi
  cases opcode with
  | call => cases hi; exact Nat.lt_trans (Fin.isLt _) (by decide)
  | loopN => cases hi; exact Nat.lt_trans (Fin.isLt _) (by decide)
  | doWhile => cases hi; exact Fin.isLt _
  | _ => cases hi

/-! ## 3. Inputs of word functions -/

/-- A function has a value, or an arithmetic fault, at as many inputs as it takes. -/
theorem WordFunction.apply_ne_none {f : WordFunction} {words : List Word}
    (hfixed : ∀ n, f.arity = .fixed n → words.length = n)
    (hvariadic : f.arity = .variadic → words ≠ []) : f.apply words ≠ none := by
  cases hf : f.arity with
  | variadic =>
      obtain ⟨x, xs, rfl⟩ := List.exists_cons_of_ne_nil (hvariadic hf)
      cases f with
      | isZero | equalTo | lessThan | greaterThan | eagerIf => cases hf
      | _ => exact Option.some_ne_none _
  | fixed n =>
      have hlength := hfixed n hf
      cases f with
      | isZero =>
          cases hf
          obtain ⟨x, rfl⟩ := List.length_eq_one_iff.1 hlength
          exact Option.some_ne_none _
      | equalTo | lessThan | greaterThan =>
          cases hf
          obtain ⟨x, y, rfl⟩ := List.length_eq_two.1 hlength
          exact Option.some_ne_none _
      | eagerIf =>
          cases hf
          obtain ⟨x, y, z, rfl⟩ := List.length_eq_three.1 hlength
          exact Option.some_ne_none _
      | _ => cases hf

namespace Operation

variable {f : WordFunction} {operand : UInt16}

theorem effect_apply_fixed {n : Nat} (h : f.arity = .fixed n) :
    (⟨.apply f, operand⟩ : Operation).effect = ⟨n, 1⟩ := by
  simp only [effect, Opcode.effect, h]

theorem effect_apply_variadic (h : f.arity = .variadic) :
    (⟨.apply f, operand⟩ : Operation).effect = ⟨operand.toNat, 1⟩ := by
  simp only [effect, Opcode.effect, h]

theorem effect_apply_outputs : (⟨.apply f, operand⟩ : Operation).effect.outputs = 1 := by
  cases h : f.arity with
  | fixed n => rw [effect_apply_fixed h]
  | variadic => rw [effect_apply_variadic h]

/-- A well-formed operation applies its function to as many words as that takes. -/
theorem WellFormed.apply_ne_none {constants sources : Nat}
    (h : WellFormed constants sources ⟨.apply f, operand⟩) {words : List Word}
    (hlength : words.length = (⟨.apply f, operand⟩ : Operation).effect.inputs) :
    f.apply words ≠ none := by
  refine WordFunction.apply_ne_none (fun n hn => ?_) (fun hv hnil => ?_)
  · rw [hlength, effect_apply_fixed hn]
  · have hleast : 2 ≤ operand.toNat := h hv
    rw [hnil, effect_apply_variadic hv] at hlength
    exact absurd hlength (Nat.ne_of_lt (Nat.lt_of_lt_of_le (by decide) hleast))

end Operation

/-! ## 4. Checking one instruction -/

theorem DebugMode.ofBits?_eq_none_iff {raw : UInt16} :
    DebugMode.ofBits? raw = none ↔ 1 < raw.toNat := by
  unfold DebugMode.ofBits?
  split
  · rename_i h
    simp only [reduceCtorEq, false_iff]
    omega
  · split
    · rename_i h
      simp only [reduceCtorEq, false_iff]
      omega
    · simp only [true_iff]
      omega

theorem DebugMode.toBits_of_ofBits? {raw : UInt16} {m : DebugMode}
    (h : DebugMode.ofBits? raw = some m) : m.toBits = raw := by
  unfold DebugMode.ofBits? at h
  split at h
  · rename_i hzero
    cases h
    exact UInt16.toNat_inj.1 hzero.symm
  · split at h
    · rename_i hone
      cases h
      exact UInt16.toNat_inj.1 hone.symm
    · cases h

/-- A well-formed `debug` has a mode. -/
theorem Operation.WellFormed.exists_debugMode {constants sources : Nat} {operand : UInt16}
    (h : Operation.WellFormed constants sources ⟨.debug, operand⟩) :
    ∃ mode, Operation.debugMode? ⟨.debug, operand⟩ = some mode := by
  refine Option.ne_none_iff_exists'.1 fun hnone => ?_
  exact absurd (DebugMode.ofBits?_eq_none_iff.1 hnone) (Nat.not_lt.2 h)

namespace Expression

theorem checkTarget_eq_ok_iff {sources target : Nat} :
    checkTarget sources target = .ok () ↔ target < sources := by
  unfold checkTarget
  split
  · rename_i h
    exact ⟨fun _ => h, fun _ => rfl⟩
  · rename_i h
    exact ⟨fun e => (by cases e), fun h' => absurd h' h⟩

/-- **The check of an operand passes exactly on well-formed operations.** -/
theorem checkOperand_eq_ok_iff {constants sources : Nat} {op : Operation} :
    checkOperand constants sources op.opcode op.operand = .ok () ↔
      op.WellFormed constants sources := by
  obtain ⟨opcode, operand⟩ := op
  unfold checkOperand Operation.WellFormed
  cases opcode with
  | readMemory =>
      show (if _ then _ else _) = _ ↔ _
      split
      · rename_i h
        exact ⟨fun e => (by cases e), fun h' => absurd (h' h.1) (Nat.not_lt.2 h.2)⟩
      · rename_i h
        exact ⟨fun _ hr => Nat.not_le.1 fun hle => h ⟨hr, hle⟩, fun _ => rfl⟩
  | call => exact checkTarget_eq_ok_iff
  | loopN =>
      show (if _ then _ else _) = _ ↔ _
      split
      · rename_i h
        rw [checkTarget_eq_ok_iff]
        exact ⟨fun ht => ⟨h, ht⟩, fun h' => h'.2⟩
      · rename_i h
        exact ⟨fun e => (by cases e), fun h' => absurd h'.1 h⟩
  | doWhile => exact checkTarget_eq_ok_iff
  | debug =>
      dsimp only [Opcode.operandKind]
      cases h : DebugMode.ofBits? operand with
      | some m =>
          refine ⟨fun _ => Nat.not_lt.1 fun hlt => ?_, fun _ => rfl⟩
          rw [DebugMode.ofBits?_eq_none_iff.2 hlt] at h
          cases h
      | none =>
          have hlt := DebugMode.ofBits?_eq_none_iff.1 h
          exact ⟨fun e => (by cases e), fun hle => absurd hlt (Nat.not_lt.2 hle)⟩
  | context => exact ⟨fun _ => trivial, fun _ => rfl⟩
  | scalar s => exact ⟨fun _ => trivial, fun _ => rfl⟩
  | balanceOf => exact ⟨fun _ => trivial, fun _ => rfl⟩
  | totalSupply => exact ⟨fun _ => trivial, fun _ => rfl⟩
  | apply f =>
      cases hf : f.arity with
      | fixed n =>
          simp only [Opcode.operandKind, hf, reduceCtorEq, false_implies]
      | variadic =>
          simp only [Opcode.operandKind, hf, true_implies]
          split
          · rename_i h
            exact ⟨fun _ => h, fun _ => rfl⟩
          · rename_i h
            exact ⟨fun e => (by cases e), fun h' => absurd h' h⟩
  | ensure =>
      show (if 1 ≤ operand.toNat then _ else _) = _ ↔ _
      split
      · rename_i h
        exact ⟨fun _ => h, fun _ => rfl⟩
      · rename_i h
        exact ⟨fun e => (by cases e), fun h' => absurd h' h⟩

end Expression

/-! ## 5. Numbers of opcodes -/

namespace Opcode

theorem nodup_all : all.Nodup := by decide

theorem number_lt (op : Opcode) : op.number < count :=
  List.idxOf_lt_length_of_mem (mem_all op)

/-- An opcode is found under no number but its own. -/
theorem ofNumber?_eq_some_iff {n : Nat} {op : Opcode} : ofNumber? n = some op ↔ n = op.number := by
  constructor
  · intro h
    obtain ⟨hn, rfl⟩ := List.getElem?_eq_some_iff.1 h
    exact (nodup_all.idxOf_getElem n hn).symm
  · rintro rfl
    exact ofNumber?_number op

end Opcode

theorem Instruction.opcode?_eq_some_iff {i : Instruction} {op : Opcode} :
    i.opcode? = some op ↔ i.opcode = UInt16.ofNat op.number := by
  have hlt : op.number < 31 := op.number_lt
  unfold Instruction.opcode?
  rw [Opcode.ofNumber?_eq_some_iff]
  constructor
  · intro h
    rw [← h, UInt16.ofNat_toNat]
  · intro h
    rw [h, UInt16.toNat_ofNat']
    omega

/-! ## 6. Loading -/

namespace Expression

/-- An instruction resolves to the one operation whose instruction it is, if that is well
formed. -/
theorem resolve_eq_ok_iff {constants sources : Nat} {i : Instruction} {op : Operation} :
    resolve constants sources i = .ok op ↔
      i = op.instruction ∧ op.WellFormed constants sources := by
  obtain ⟨number, operand⟩ := i
  unfold resolve
  cases ho : Instruction.opcode? ⟨number, operand⟩ with
  | none =>
      refine ⟨fun h => (by cases h), ?_⟩
      rintro ⟨h, -⟩
      rw [h, Instruction.opcode?_eq_some_iff.2 rfl] at ho
      cases ho
  | some opcode =>
      have hnumber : number = UInt16.ofNat opcode.number := Instruction.opcode?_eq_some_iff.1 ho
      dsimp only
      constructor
      · intro h
        cases hc : checkOperand constants sources opcode operand with
        | error f =>
            rw [hc] at h
            cases h
        | ok =>
            rw [hc] at h
            cases h
            refine ⟨?_, checkOperand_eq_ok_iff.1 hc⟩
            rw [hnumber]
            rfl
      · rintro ⟨h, hw⟩
        have ho' : Instruction.opcode? ⟨number, operand⟩ = some op.opcode := by
          rw [h]
          exact Instruction.opcode?_eq_some_iff.2 rfl
        have hopcode : op.opcode = opcode := Option.some.inj (ho'.symm.trans ho)
        have hoperand : operand = op.operand := congrArg Instruction.operand h
        subst hopcode hoperand
        rw [checkOperand_eq_ok_iff.2 hw]

theorem resolveSource_walks {constants sources : Nat} (k : Nat) :
    Walks (fun i op => resolve constants sources i = .ok op)
      (fun p i e => ∃ f, resolve constants sources i = .error f ∧ e = LoadFault.instruction k p f)
      (resolveSource constants sources k) where
  nil _ _ := rfl
  ok h read p rest := by
    rw [resolveSource, h]
  error := by
    rintro p i e ⟨f, h, rfl⟩ read rest
    rw [resolveSource, h]
  total p i := by
    cases h : resolve constants sources i with
    | ok op => exact .inl ⟨op, rfl⟩
    | error f => exact .inr ⟨_, f, rfl, rfl⟩

theorem resolveSource_eq_ok_iff {constants sources k : Nat} {s : Source} {ops : List Operation} :
    resolveSource constants sources k [] 0 s = .ok ops ↔
      s = ops.map Operation.instruction ∧ ∀ op ∈ ops, op.WellFormed constants sources := by
  rw [(resolveSource_walks k).eq_ok_iff]
  simp only [resolve_eq_ok_iff]
  exact forall₂_eq_and_iff

/-- The index of a source is for its faults only. -/
theorem resolveAll_walks {constants sources : Nat} :
    Walks (fun s ops => s = List.map Operation.instruction ops ∧
        ∀ op ∈ ops, op.WellFormed constants sources)
      (fun k s e => resolveSource constants sources k [] 0 s = .error e)
      (resolveAll constants sources) where
  nil _ _ := rfl
  ok h read k rest := by
    rw [resolveAll, resolveSource_eq_ok_iff.2 h]
  error h read rest := by
    rw [resolveAll, h]
  total k s := by
    cases h : resolveSource constants sources k [] 0 s with
    | ok ops => exact .inl ⟨ops, resolveSource_eq_ok_iff.1 h⟩
    | error e => exact .inr ⟨e, rfl⟩

theorem resolveAll_eq_ok_iff {constants sources : Nat} {ss : List Source}
    {code : List (List Operation)} :
    resolveAll constants sources [] 0 ss = .ok code ↔
      ss = code.map (·.map Operation.instruction) ∧
        ∀ ops ∈ code, ∀ op ∈ ops, op.WellFormed constants sources := by
  rw [resolveAll_walks.eq_ok_iff]
  exact forall₂_eq_and_iff

/-- **Loading accepts the sources of exactly the well-formed expressions.** -/
theorem load_eq_ok_iff {constants : List Word} {sources : List Source} {e : Expression} :
    load constants sources = .ok e ↔
      e.constants = constants ∧ e.sources = sources ∧ e.WellFormed := by
  unfold load
  constructor
  · intro h
    split at h
    · rename_i code hcode
      cases h
      obtain ⟨rfl, hw⟩ := resolveAll_eq_ok_iff.1 hcode
      rw [List.length_map] at hw
      exact ⟨rfl, rfl, hw⟩
    · cases h
  · rintro ⟨rfl, rfl, hw⟩
    have hlength : e.sources.length = e.code.length := List.length_map _
    have hcode : resolveAll e.constants.length e.sources.length [] 0 e.sources = .ok e.code := by
      rw [hlength]
      exact resolveAll_eq_ok_iff.2 ⟨rfl, hw⟩
    rw [hcode]

theorem exists_load_of_loadBytes {constants : List Word} {bytes : List (List UInt8)}
    {e : Expression} (h : loadBytes constants bytes = .ok e) :
    ∃ sources, load constants sources = .ok e := by
  unfold loadBytes at h
  split at h
  · rename_i sources _
    exact ⟨sources, h⟩
  · cases h

end Expression

theorem Config.exists_loadBytes_of_build {c : Config} {e : Expression} (h : c.build = .ok e) :
    ∃ bytes, Expression.loadBytes c.constants bytes = .ok e := by
  unfold Config.build at h
  split at h
  · cases h
  · rename_i bytes _
    split at h
    · rename_i e' he
      cases h
      exact ⟨bytes, he⟩
    · cases h

/-- **An expression that was loaded**: from decoded sources, from stored code, or from a
configuration. -/
inductive Loaded (e : Expression) : Prop where
  | ofSources {constants : List Word} {sources : List Source}
      (h : Expression.load constants sources = .ok e)
  | ofBytes {constants : List Word} {bytes : List (List UInt8)}
      (h : Expression.loadBytes constants bytes = .ok e)
  | ofConfig {config : Config} (h : config.build = .ok e)

/-- Whichever way an expression was loaded, its operations are well formed. -/
theorem Loaded.wellFormed {e : Expression} (h : Loaded e) : e.WellFormed := by
  cases h with
  | ofSources h => exact (Expression.load_eq_ok_iff.1 h).2.2
  | ofBytes h =>
      obtain ⟨sources, h⟩ := Expression.exists_load_of_loadBytes h
      exact (Expression.load_eq_ok_iff.1 h).2.2
  | ofConfig h =>
      obtain ⟨bytes, h⟩ := Config.exists_loadBytes_of_build h
      obtain ⟨sources, h⟩ := Expression.exists_load_of_loadBytes h
      exact (Expression.load_eq_ok_iff.1 h).2.2

end WordMachine
