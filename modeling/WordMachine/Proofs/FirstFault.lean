import WordMachine.Proofs.Loading

/-!
# What loading accepts, and the fault it names

Loading stored code runs two loops, one after the other: all sources are decoded before the first
instruction is resolved. A configuration has a loop of its own before these, which takes the stored
code from the texts. Each of them ends at the first fault:

* `Source.encode` and the lengths of byte strings decide what is decoded (`decodeAll_walks`);
* `Instruction.WellFormed` and `Instruction.HasFault` say of an instruction alone whether it is
  accepted and, if not, which fault it has (`resolve_eq_error_iff`);
* `Stored` finds the instructions in the bytes, without decoding;
* `loading_names_first_fault` puts this together: `LoadsExactly` for stored code and `BuildsExactly`
  for configurations.
-/

namespace WordMachine

/-! ## 1. Stored code -/

theorem bytesOf_ofBytes (high low : UInt8) : bytesOf (ofBytes high low) = [high, low] := by
  have hhigh := high.toNat_lt
  have hlow := low.toNat_lt
  have hvalue : (ofBytes high low).toNat = 256 * high.toNat + low.toNat := by
    unfold ofBytes
    rw [UInt16.toNat_ofNat']
    omega
  unfold bytesOf
  rw [hvalue]
  congr 1
  · apply UInt8.toNat_inj.1
    rw [UInt8.toNat_ofNat']
    omega
  · congr 1
    apply UInt8.toNat_inj.1
    rw [UInt8.toNat_ofNat']
    omega

theorem ofBytes_bytesOf (n : UInt16) :
    ofBytes (UInt8.ofNat (n.toNat / 256)) (UInt8.ofNat n.toNat) = n := by
  have hn := n.toNat_lt
  apply UInt16.toNat_inj.1
  unfold ofBytes
  rw [UInt16.toNat_ofNat', UInt8.toNat_ofNat', UInt8.toNat_ofNat']
  omega

theorem Instruction.length_bytes (i : Instruction) : i.bytes.length = 4 := rfl

namespace Source

theorem encode_cons (i : Instruction) (s : Source) : encode (i :: s) = i.bytes ++ encode s := rfl

theorem length_encode (s : Source) : s.encode.length = 4 * s.length := by
  induction s with
  | nil => rfl
  | cons i s ih =>
      rw [encode_cons, List.length_append, ih, i.length_bytes, List.length_cons]
      omega

theorem decodeFrom_encode (read s : Source) : decodeFrom read s.encode = some (read.reverse ++ s) := by
  induction s generalizing read with
  | nil => rw [List.append_nil]; rfl
  | cons i s ih =>
      show decodeFrom (⟨ofBytes _ _, ofBytes _ _⟩ :: read) (encode s) = _
      rw [ofBytes_bytesOf, ofBytes_bytesOf, ih]
      simp

theorem decode?_encode (s : Source) : decode? s.encode = some s := decodeFrom_encode [] s

theorem encode_inj {s t : Source} (h : s.encode = t.encode) : s = t := by
  have hdecoded := decode?_encode s
  rw [h, decode?_encode] at hdecoded
  exact (Option.some.inj hdecoded).symm

/-- **A byte string of the right length is the code of a source.** -/
theorem exists_encode : ∀ {bytes : List UInt8}, bytes.length % 4 = 0 → ∃ s, bytes = encode s
  | [], _ => ⟨[], rfl⟩
  | [_], h | [_, _], h | [_, _, _], h => absurd h (by simp)
  | a :: b :: c :: d :: bytes, h => by
      have hlength : bytes.length % 4 = 0 := by
        simp only [List.length_cons] at h
        omega
      obtain ⟨s, rfl⟩ := exists_encode hlength
      refine ⟨⟨ofBytes a b, ofBytes c d⟩ :: s, ?_⟩
      rw [encode_cons, Instruction.bytes, bytesOf_ofBytes, bytesOf_ofBytes]
      rfl

theorem decodeFrom_eq_none : ∀ {bytes : List UInt8} (read : Source), bytes.length % 4 ≠ 0 →
    decodeFrom read bytes = none
  | [], _, h => absurd rfl h
  | [_], _, _ | [_, _], _, _ | [_, _, _], _, _ => rfl
  | a :: b :: c :: d :: bytes, read, h => by
      have hlength : bytes.length % 4 ≠ 0 := by
        simp only [List.length_cons] at h
        omega
      show decodeFrom (⟨ofBytes a b, ofBytes c d⟩ :: read) bytes = none
      exact decodeFrom_eq_none _ hlength

end Source

/-- **The instruction stored at a position of a source**: the four bytes from there on are its. -/
def Stored (codes : List (List UInt8)) (k p : Nat) (i : Instruction) : Prop :=
  ∃ bytes, codes[k]? = some bytes ∧ (bytes.drop (4 * p)).take 4 = i.bytes

theorem Source.take_drop_encode {s : Source} {i : Instruction} :
    ∀ {p : Nat}, (s.encode.drop (4 * p)).take 4 = i.bytes ↔ s[p]? = some i := by
  induction s with
  | nil =>
      intro p
      constructor
      · intro h
        rw [show encode [] = [] from rfl, List.drop_nil] at h
        cases h
      · intro h
        cases h
  | cons j s ih =>
      intro p
      cases p with
      | zero =>
          rw [encode_cons, Nat.mul_zero, List.drop_zero, List.take_left' j.length_bytes,
            List.getElem?_cons_zero, Option.some.injEq]
          constructor
          · intro h
            -- bytes of one instruction are the code of a source, and that is injective
            have hone : encode [j] = encode [i] := by
              rw [encode_cons, encode_cons, h]
            exact (List.cons.inj (encode_inj hone)).1
          · rintro rfl
            rfl
      | succ p =>
          have hdrop : (encode (j :: s)).drop (4 * (p + 1)) = (encode s).drop (4 * p) := by
            rw [encode_cons, Nat.mul_succ, Nat.add_comm, ← List.drop_drop,
              List.drop_left' j.length_bytes]
          rw [hdrop, ih, List.getElem?_cons_succ]

theorem stored_encode_iff {sources : List Source} {k p : Nat} {i : Instruction} :
    Stored (sources.map Source.encode) k p i ↔ ∃ s, sources[k]? = some s ∧ s[p]? = some i := by
  unfold Stored
  rw [List.getElem?_map]
  constructor
  · rintro ⟨bytes, hbytes, hstored⟩
    obtain ⟨s, hs, rfl⟩ := Option.map_eq_some_iff.1 hbytes
    exact ⟨s, hs, Source.take_drop_encode.1 hstored⟩
  · rintro ⟨s, hs, hi⟩
    exact ⟨s.encode, Option.map_eq_some_iff.2 ⟨s, hs, rfl⟩, Source.take_drop_encode.2 hi⟩

/-! ## 2. Single instructions -/

/-- **The fault of an operation** in an expression with so many constants and sources. A loop has the
fault of its numbers of inputs and outputs before that of its target. -/
def Operation.HasFault (constants sources : Nat) (op : Operation) (f : InstructionFault) : Prop :=
  match op.opcode with
  | .readMemory =>
    (MemoryOperand.ofBits op.operand).region = .constant ∧
      constants ≤ (MemoryOperand.ofBits op.operand).offset.val ∧
      f = .constantOutOfRange (MemoryOperand.ofBits op.operand).offset.val constants
  | .call =>
    sources ≤ (CallOperand.ofBits op.operand).source.val ∧
      f = .sourceOutOfRange (CallOperand.ofBits op.operand).source.val sources
  | .loopN =>
    (LoopOperand.ofBits op.operand).inputs ≠ (LoopOperand.ofBits op.operand).outputs ∧
        f = .invalidOperand .loopN op.operand .unbalancedLoop ∨
      (LoopOperand.ofBits op.operand).inputs = (LoopOperand.ofBits op.operand).outputs ∧
        sources ≤ (LoopOperand.ofBits op.operand).source.val ∧
        f = .sourceOutOfRange (LoopOperand.ofBits op.operand).source.val sources
  | .doWhile =>
    sources ≤ (DoWhileOperand.ofBits op.operand).source.val ∧
      f = .sourceOutOfRange (DoWhileOperand.ofBits op.operand).source.val sources
  | .debug => 1 < op.operand.toNat ∧ f = .invalidOperand .debug op.operand .debugMode
  | .context | .scalar _ | .balanceOf | .totalSupply => False
  | .apply g =>
    g.arity = .variadic ∧ op.operand.toNat < 2 ∧
      f = .invalidOperand (.apply g) op.operand .fewInputs
  | .ensure => op.operand.toNat < 1 ∧ f = .invalidOperand .ensure op.operand .ensureInputs

namespace Instruction

/-- **The opcode is known and the operand suits it.** -/
def WellFormed (constants sources : Nat) (i : Instruction) : Prop :=
  i.opcode.toNat < 31 ∧
    ∀ op, i.opcode? = some op → Operation.WellFormed constants sources ⟨op, i.operand⟩

/-- **The fault of an instruction**: that of an unknown opcode, or that of its operand. -/
def HasFault (constants sources : Nat) (i : Instruction) (f : InstructionFault) : Prop :=
  31 ≤ i.opcode.toNat ∧ f = .unknownOpcode i.opcode ∨
    ∃ op, i.opcode? = some op ∧ Operation.HasFault constants sources ⟨op, i.operand⟩ f

theorem opcode?_eq_none_iff {i : Instruction} : i.opcode? = none ↔ 31 ≤ i.opcode.toNat :=
  List.getElem?_eq_none_iff

end Instruction

namespace Expression

variable {constants sources : Nat}

/-- A check that passes under a condition fails with its one fault otherwise. -/
theorem check_eq_error_iff {p : Prop} [Decidable p] {fault f : InstructionFault} :
    (if p then .ok () else .error fault : Except InstructionFault Unit) = .error f ↔
      ¬ p ∧ f = fault := by
  split
  · rename_i h
    exact ⟨fun e => (by cases e), fun h' => absurd h h'.1⟩
  · rename_i h
    constructor
    · intro e
      cases e
      exact ⟨h, rfl⟩
    · rintro ⟨-, rfl⟩
      rfl

theorem checkTarget_eq_error_iff {target : Nat} {f : InstructionFault} :
    checkTarget sources target = .error f ↔
      sources ≤ target ∧ f = .sourceOutOfRange target sources := by
  unfold checkTarget
  rw [check_eq_error_iff, Nat.not_lt]

/-- **The check of an operand names the fault of the operation.** -/
theorem checkOperand_eq_error_iff {op : Operation} {f : InstructionFault} :
    checkOperand constants sources op.opcode op.operand = .error f ↔
      op.HasFault constants sources f := by
  obtain ⟨opcode, operand⟩ := op
  unfold checkOperand Operation.HasFault
  cases opcode with
  | readMemory =>
      show (if _ then _ else _) = _ ↔ _
      split
      · rename_i h
        constructor
        · intro e
          cases e
          exact ⟨h.1, h.2, rfl⟩
        · rintro ⟨-, -, rfl⟩
          rfl
      · rename_i h
        exact ⟨fun e => (by cases e), fun h' => absurd ⟨h'.1, h'.2.1⟩ h⟩
  | call => exact checkTarget_eq_error_iff
  | loopN =>
      show (if _ then _ else _) = _ ↔ _
      split
      · rename_i h
        -- only here is the target looked at
        rw [checkTarget_eq_error_iff]
        constructor
        · exact fun ht => .inr ⟨h, ht⟩
        · rintro (⟨hne, -⟩ | ⟨-, ht⟩)
          · exact absurd h hne
          · exact ht
      · rename_i h
        constructor
        · intro e
          cases e
          exact .inl ⟨h, rfl⟩
        · rintro (⟨-, rfl⟩ | ⟨heq, -⟩)
          · rfl
          · exact absurd heq h
  | doWhile => exact checkTarget_eq_error_iff
  | debug =>
      dsimp only [Opcode.operandKind]
      cases h : DebugMode.ofBits? operand with
      | some m =>
          refine ⟨fun e => (by cases e), fun h' => ?_⟩
          rw [DebugMode.ofBits?_eq_none_iff.2 h'.1] at h
          cases h
      | none =>
          constructor
          · intro e
            cases e
            exact ⟨DebugMode.ofBits?_eq_none_iff.1 h, rfl⟩
          · rintro ⟨-, rfl⟩
            rfl
  | context => exact ⟨fun e => (by cases e), False.elim⟩
  | scalar s => exact ⟨fun e => (by cases e), False.elim⟩
  | balanceOf => exact ⟨fun e => (by cases e), False.elim⟩
  | totalSupply => exact ⟨fun e => (by cases e), False.elim⟩
  | apply g =>
      cases hg : g.arity with
      | fixed n =>
          simp only [Opcode.operandKind, hg, reduceCtorEq, false_and]
      | variadic =>
          simp only [Opcode.operandKind, hg, true_and]
          rw [check_eq_error_iff, Nat.not_le]
          rfl
  | ensure =>
      show (if 1 ≤ operand.toNat then _ else _) = _ ↔ _
      rw [check_eq_error_iff, Nat.not_le]
      rfl

theorem resolve_eq_error_iff {i : Instruction} {f : InstructionFault} :
    resolve constants sources i = .error f ↔ i.HasFault constants sources f := by
  unfold resolve Instruction.HasFault
  cases ho : i.opcode? with
  | none =>
      have hunknown := Instruction.opcode?_eq_none_iff.1 ho
      constructor
      · intro h
        cases h
        exact .inl ⟨hunknown, rfl⟩
      · rintro (⟨-, rfl⟩ | ⟨op, hop, -⟩)
        · rfl
        · cases hop
  | some op =>
      dsimp only
      have hknown : ¬ 31 ≤ i.opcode.toNat := by
        rw [← Instruction.opcode?_eq_none_iff, ho]
        exact Option.some_ne_none op
      constructor
      · intro h
        cases hc : checkOperand constants sources op i.operand with
        | ok =>
            rw [hc] at h
            cases h
        | error g =>
            rw [hc] at h
            cases h
            exact .inr ⟨op, rfl, checkOperand_eq_error_iff.1 hc⟩
      · rintro (⟨hunknown, -⟩ | ⟨op', hop, hf⟩)
        · exact absurd hunknown hknown
        · cases hop
          have hc : checkOperand constants sources op i.operand = .error f :=
            checkOperand_eq_error_iff.2 hf
          rw [hc]

theorem wellFormed_iff {i : Instruction} : i.WellFormed constants sources ↔
    ∃ op : Operation, i = op.instruction ∧ op.WellFormed constants sources := by
  constructor
  · rintro ⟨hlt, hop⟩
    have hknown : i.opcode? ≠ none := fun h => Nat.not_le.2 hlt (Instruction.opcode?_eq_none_iff.1 h)
    obtain ⟨op, ho⟩ := Option.ne_none_iff_exists'.1 hknown
    refine ⟨⟨op, i.operand⟩, ?_, hop op ho⟩
    unfold Operation.instruction Instruction.make
    rw [← Instruction.opcode?_eq_some_iff.1 ho]
  · rintro ⟨op, rfl, hw⟩
    have ho : op.instruction.opcode? = some op.opcode := Instruction.opcode?_eq_some_iff.2 rfl
    refine ⟨Nat.not_le.1 fun h => ?_, fun op' ho' => ?_⟩
    · rw [Instruction.opcode?_eq_none_iff.2 h] at ho
      cases ho
    · cases ho.symm.trans ho'
      exact hw

/-- **An instruction is well formed or has a fault, and never both.** -/
theorem not_wellFormed_iff {i : Instruction} :
    ¬ i.WellFormed constants sources ↔ ∃ f, i.HasFault constants sources f := by
  rw [wellFormed_iff]
  cases h : resolve constants sources i with
  | ok op =>
      refine ⟨fun hnot => absurd ⟨op, resolve_eq_ok_iff.1 h⟩ hnot, ?_⟩
      rintro ⟨f, hf⟩
      rw [resolve_eq_error_iff.2 hf] at h
      cases h
  | error f =>
      refine ⟨fun _ => ⟨f, resolve_eq_error_iff.1 h⟩, ?_⟩
      rintro - ⟨op, hop⟩
      rw [resolve_eq_ok_iff.2 hop] at h
      cases h

end Expression

/-! ## 3. The loops of loading -/

theorem Source.exists_encode_iff {bytes : List UInt8} :
    (∃ s, bytes = Source.encode s) ↔ bytes.length % 4 = 0 := by
  refine ⟨?_, exists_encode⟩
  rintro ⟨s, rfl⟩
  rw [length_encode]
  exact Nat.mul_mod_right 4 _

namespace Expression

theorem decodeAll_walks : Walks (fun bytes s => bytes = Source.encode s)
    (fun k bytes e => bytes.length % 4 ≠ 0 ∧ e = LoadFault.malformedSource k bytes.length)
    decodeAll where
  nil _ _ := rfl
  ok := by
    rintro bytes s rfl read k rest
    rw [decodeAll, decodeSource, Source.decode?_encode]
  error := by
    rintro k bytes e ⟨hlength, rfl⟩ read rest
    rw [decodeAll, decodeSource, Source.decode?, Source.decodeFrom_eq_none _ hlength]
  total k bytes := by
    by_cases hlength : bytes.length % 4 = 0
    · exact .inl (Source.exists_encode hlength)
    · exact .inr ⟨_, hlength, rfl⟩

variable {constants sources : Nat}

/-- **The first fault in a source** is at a position, and all instructions before are well formed. -/
def FirstIn (constants sources : Nat) (s : Source) (p : Nat) (f : InstructionFault) : Prop :=
  (∃ i, s[p]? = some i ∧ i.HasFault constants sources f) ∧
    ∀ p' < p, ∀ i, s[p']? = some i → i.WellFormed constants sources

theorem resolveSource_eq_error_iff {k : Nat} {s : Source} {e : LoadFault} :
    resolveSource constants sources k [] 0 s = .error e ↔
      ∃ p f, FirstIn constants sources s p f ∧ e = .instruction k p f := by
  rw [(resolveSource_walks k).eq_error_iff]
  simp only [resolve_eq_ok_iff, resolve_eq_error_iff, ← wellFormed_iff]
  constructor
  · rintro ⟨p, i, hi, ⟨f, hf, rfl⟩, hbefore⟩
    exact ⟨p, f, ⟨⟨i, hi, hf⟩, hbefore⟩, rfl⟩
  · rintro ⟨p, f, ⟨⟨i, hi, hf⟩, hbefore⟩, rfl⟩
    exact ⟨p, i, hi, ⟨f, hf, rfl⟩, hbefore⟩

/-- A source resolves if each of its instructions does. -/
theorem exists_operations_iff {s : Source} :
    (∃ ops, s = List.map Operation.instruction ops ∧ ∀ op ∈ ops, op.WellFormed constants sources) ↔
      ∀ i ∈ s, i.WellFormed constants sources := by
  simp only [wellFormed_iff, ← forall₂_eq_and_iff]
  exact Walks.exists_made_iff

theorem load_eq_error_iff {constants : List Word} {ss : List Source} {e : LoadFault} :
    load constants ss = .error e ↔ ∃ k s, ss[k]? = some s ∧
      (∃ p f, FirstIn constants.length ss.length s p f ∧ e = .instruction k p f) ∧
      ∀ k' < k, ∀ s', ss[k']? = some s' → ∀ i ∈ s', i.WellFormed constants.length ss.length := by
  have hall : load constants ss = .error e ↔
      resolveAll constants.length ss.length [] 0 ss = .error e := by
    unfold load
    cases resolveAll constants.length ss.length [] 0 ss with
    | ok code => exact ⟨fun h => (by cases h), fun h => (by cases h)⟩
    | error f => exact ⟨fun h => (by cases h; rfl), fun h => (by cases h; rfl)⟩
  rw [hall, resolveAll_walks.eq_error_iff]
  simp only [exists_operations_iff, resolveSource_eq_error_iff]

theorem exists_load_iff {constants : List Word} {ss : List Source} :
    (∃ e, load constants ss = .ok e) ↔
      ∀ s ∈ ss, ∀ i ∈ s, i.WellFormed constants.length ss.length := by
  constructor
  · rintro ⟨e, h⟩ s hs i hi
    obtain ⟨rfl, rfl, hw⟩ := load_eq_ok_iff.1 h
    obtain ⟨ops, hops, rfl⟩ := List.mem_map.1 hs
    obtain ⟨op, hop, rfl⟩ := List.mem_map.1 hi
    have hlength : e.sources.length = e.code.length := List.length_map _
    rw [wellFormed_iff, hlength]
    exact ⟨op, rfl, hw ops hops op hop⟩
  · intro hw
    cases h : load constants ss with
    | ok e => exact ⟨e, rfl⟩
    | error e =>
        obtain ⟨k, s, hs, ⟨p, f, ⟨⟨i, hi, hf⟩, -⟩, -⟩, -⟩ := load_eq_error_iff.1 h
        have hi' := hw s (List.mem_of_getElem? hs) i (List.mem_of_getElem? hi)
        exact absurd hi' (not_wellFormed_iff.2 ⟨f, hf⟩)

/-! ## 4. Loading stored code -/

theorem loadBytes_encode (constants : List Word) (ss : List Source) :
    loadBytes constants (ss.map Source.encode) = load constants ss := by
  have hdecoded : decodeAll [] 0 (ss.map Source.encode) = .ok ss := by
    rw [decodeAll_walks.eq_ok_iff, List.forall₂_map_left_iff, List.forall₂_same]
    exact fun _ _ => rfl
  unfold loadBytes
  rw [hdecoded]

theorem exists_map_encode_iff {codes : List (List UInt8)} :
    (∃ ss, codes = List.map Source.encode ss) ↔ ∀ bytes ∈ codes, bytes.length % 4 = 0 := by
  simp only [← Source.exists_encode_iff]
  rw [← Walks.exists_made_iff]
  refine exists_congr fun ss => ?_
  rw [← List.forall₂_eq_eq_eq, List.forall₂_map_right_iff]

/-- All sources are decoded, or no instruction is looked at. -/
theorem loadBytes_cases (constants : List Word) (codes : List (List UInt8)) :
    (∃ ss, codes = List.map Source.encode ss) ∨
      ∃ e, decodeAll [] 0 codes = .error e ∧ loadBytes constants codes = .error e := by
  unfold loadBytes
  cases h : decodeAll [] 0 codes with
  | error e => exact .inr ⟨e, rfl, rfl⟩
  | ok ss =>
      have hwhole := decodeAll_walks.exists_ok_iff.1 ⟨ss, h⟩
      simp only [Source.exists_encode_iff] at hwhole
      exact .inl (exists_map_encode_iff.2 hwhole)

theorem decodeAll_eq_error_iff {codes : List (List UInt8)} {e : LoadFault} :
    decodeAll [] 0 codes = .error e ↔ ∃ k bytes, codes[k]? = some bytes ∧
      (bytes.length % 4 ≠ 0 ∧ e = .malformedSource k bytes.length) ∧
      ∀ j < k, ∀ bytes', codes[j]? = some bytes' → bytes'.length % 4 = 0 := by
  rw [decodeAll_walks.eq_error_iff]
  simp only [Source.exists_encode_iff]

theorem loadBytes_eq_malformed_iff {constants : List Word} {codes : List (List UInt8)} {k n : Nat} :
    loadBytes constants codes = .error (.malformedSource k n) ↔
      ∃ bytes, codes[k]? = some bytes ∧ bytes.length = n ∧ n % 4 ≠ 0 ∧
        ∀ j < k, ∀ bytes', codes[j]? = some bytes' → bytes'.length % 4 = 0 := by
  rcases loadBytes_cases constants codes with hwhole | ⟨e, hdecode, hload⟩
  · constructor
    · intro h
      obtain ⟨ss, rfl⟩ := hwhole
      rw [loadBytes_encode, load_eq_error_iff] at h
      obtain ⟨_, _, _, ⟨_, _, _, heq⟩, _⟩ := h
      cases heq
    · rintro ⟨bytes, hbytes, rfl, hragged, -⟩
      exact absurd (exists_map_encode_iff.1 hwhole bytes (List.mem_of_getElem? hbytes)) hragged
  · have hsame : loadBytes constants codes = .error (.malformedSource k n) ↔
        decodeAll [] 0 codes = .error (.malformedSource k n) := by
      rw [hload, hdecode, Except.error.injEq, Except.error.injEq]
    rw [hsame, decodeAll_eq_error_iff]
    constructor
    · rintro ⟨k', bytes, hbytes, ⟨hragged, heq⟩, hbefore⟩
      cases heq
      exact ⟨bytes, hbytes, rfl, hragged, hbefore⟩
    · rintro ⟨bytes, hbytes, rfl, hragged, hbefore⟩
      exact ⟨k, bytes, hbytes, ⟨hragged, rfl⟩, hbefore⟩

theorem loadBytes_eq_fault_iff {constants : List Word} {codes : List (List UInt8)} {k p : Nat}
    {f : InstructionFault} :
    loadBytes constants codes = .error (.instruction k p f) ↔
      (∀ bytes ∈ codes, bytes.length % 4 = 0) ∧
      (∃ i, Stored codes k p i ∧ i.HasFault constants.length codes.length f) ∧
      ∀ k' p' i, k' < k ∨ k' = k ∧ p' < p → Stored codes k' p' i →
        i.WellFormed constants.length codes.length := by
  rcases loadBytes_cases constants codes with ⟨ss, rfl⟩ | ⟨e, hdecode, hload⟩
  · rw [loadBytes_encode, load_eq_error_iff]
    simp only [stored_encode_iff, List.length_map]
    constructor
    · rintro ⟨k', s, hs, ⟨p', f', ⟨⟨i, hi, hf⟩, hown⟩, heq⟩, hbefore⟩
      cases heq
      refine ⟨exists_map_encode_iff.1 ⟨ss, rfl⟩, ⟨i, ⟨s, hs, hi⟩, hf⟩, ?_⟩
      rintro k' p' i' (hlt | ⟨rfl, hlt⟩) ⟨s', hs', hi'⟩
      · exact hbefore k' hlt s' hs' i' (List.mem_of_getElem? hi')
      · cases hs.symm.trans hs'
        exact hown p' hlt i' hi'
    · rintro ⟨-, ⟨i, ⟨s, hs, hi⟩, hf⟩, hbefore⟩
      refine ⟨k, s, hs, ⟨p, f, ⟨⟨i, hi, hf⟩, fun p' hlt i' hi' => ?_⟩, rfl⟩, ?_⟩
      · exact hbefore k p' i' (.inr ⟨rfl, hlt⟩) ⟨s, hs, hi'⟩
      · intro k' hlt s' hs' i' hi'
        -- an earlier source comes first with all its positions
        obtain ⟨p', hp'⟩ := List.mem_iff_getElem?.1 hi'
        exact hbefore k' p' i' (.inl hlt) ⟨s', hs', hp'⟩
  · obtain ⟨k', bytes, hbytes, ⟨hragged, rfl⟩, -⟩ := decodeAll_eq_error_iff.1 hdecode
    rw [hload]
    constructor
    · intro h
      cases h
    · rintro ⟨hwhole, -⟩
      exact absurd (hwhole bytes (List.mem_of_getElem? hbytes)) hragged

theorem exists_loadBytes_iff {constants : List Word} {codes : List (List UInt8)} :
    (∃ e, loadBytes constants codes = .ok e) ↔
      (∀ bytes ∈ codes, bytes.length % 4 = 0) ∧
      ∀ k p i, Stored codes k p i → i.WellFormed constants.length codes.length := by
  rcases loadBytes_cases constants codes with ⟨ss, rfl⟩ | ⟨e, hdecode, hload⟩
  · rw [loadBytes_encode, exists_load_iff]
    simp only [stored_encode_iff, List.length_map]
    constructor
    · intro hw
      refine ⟨exists_map_encode_iff.1 ⟨ss, rfl⟩, ?_⟩
      rintro k p i ⟨s, hs, hi⟩
      exact hw s (List.mem_of_getElem? hs) i (List.mem_of_getElem? hi)
    · rintro ⟨-, hw⟩ s hs i hi
      obtain ⟨k, hk⟩ := List.mem_iff_getElem?.1 hs
      obtain ⟨p, hp⟩ := List.mem_iff_getElem?.1 hi
      exact hw k p i ⟨s, hk, hp⟩
  · obtain ⟨k, bytes, hbytes, ⟨hragged, -⟩, -⟩ := decodeAll_eq_error_iff.1 hdecode
    rw [hload]
    constructor
    · rintro ⟨e', h⟩
      cases h
    · rintro ⟨hwhole, -⟩
      exact absurd (hwhole bytes (List.mem_of_getElem? hbytes)) hragged

theorem loadBytes_eq_ok_iff {constants : List Word} {codes : List (List UInt8)} {e : Expression} :
    loadBytes constants codes = .ok e ↔
      e.constants = constants ∧ e.sources.map Source.encode = codes ∧ e.WellFormed := by
  constructor
  · intro h
    rcases loadBytes_cases constants codes with ⟨ss, rfl⟩ | ⟨f, -, hload⟩
    · rw [loadBytes_encode] at h
      obtain ⟨rfl, rfl, hw⟩ := load_eq_ok_iff.1 h
      exact ⟨rfl, rfl, hw⟩
    · rw [hload] at h
      cases h
  · rintro ⟨rfl, rfl, hw⟩
    rw [loadBytes_encode]
    exact load_eq_ok_iff.2 ⟨rfl, rfl, hw⟩

end Expression

/-! ## 5. Resolved code -/

/-- **The operation that an instruction resolves to**: it has the opcode under the instruction's
number, the same operand and, if it is a `debug`, the mode that the operand stands for. -/
structure Operation.Resolves (op : Operation) (i : Instruction) : Prop where
  opcode : i.opcode.toNat = op.opcode.number
  operand : i.operand = op.operand
  debugMode : ∀ m, op.debugMode? = some m ↔ op.opcode = .debug ∧ i.operand = m.toBits
  debug : op.opcode = .debug → op.debugMode?.isSome

theorem Operation.WellFormed.resolves_iff {constants sources : Nat} {op : Operation}
    (h : op.WellFormed constants sources) {i : Instruction} :
    op.Resolves i ↔ op.instruction = i := by
  constructor
  · intro hr
    have hopcode : i.opcode = UInt16.ofNat op.opcode.number := by
      rw [← hr.opcode, UInt16.ofNat_toNat]
    unfold Operation.instruction Instruction.make
    rw [← hopcode, ← hr.operand]
  · rintro rfl
    refine ⟨?_, rfl, fun m => ?_, fun hdebug => ?_⟩
    · show (UInt16.ofNat op.opcode.number).toNat = op.opcode.number
      have hlt : op.opcode.number < 31 := op.opcode.number_lt
      rw [UInt16.toNat_ofNat']
      omega
    · unfold Operation.debugMode?
      show _ ↔ _ ∧ op.operand = m.toBits
      split
      · rename_i hdebug
        constructor
        · exact fun hm => ⟨hdebug, (DebugMode.toBits_of_ofBits? hm).symm⟩
        · rintro ⟨-, hm⟩
          rw [hm]
          exact m.ofBits?_toBits
      · rename_i hother
        exact ⟨fun hm => (by cases hm), fun hm => absurd hm.1 hother⟩
    · obtain ⟨opcode, operand⟩ := op
      cases hdebug
      obtain ⟨m, hm⟩ := h.exists_debugMode
      rw [hm]
      rfl

namespace Expression

/-- The operation at a position of a source. -/
def operation? (e : Expression) (k p : Nat) : Option Operation := e.code[k]?.bind fun ops => ops[p]?

theorem operation?_eq_some_iff {e : Expression} {k p : Nat} {op : Operation} :
    e.operation? k p = some op ↔ ∃ ops, e.code[k]? = some ops ∧ ops[p]? = some op := by
  unfold operation?
  rw [Option.bind_eq_some_iff]

/-- **The code of a loaded expression has the stored instructions, place by place.** -/
theorem stored_sources_iff {e : Expression} (hw : e.WellFormed) {k p : Nat} {i : Instruction} :
    Stored (e.sources.map Source.encode) k p i ↔
      ∃ op, e.operation? k p = some op ∧ op.Resolves i := by
  rw [stored_encode_iff]
  unfold sources
  simp only [operation?_eq_some_iff, List.getElem?_map, Option.map_eq_some_iff]
  constructor
  · rintro ⟨s, ⟨ops, hops, rfl⟩, hi⟩
    rw [List.getElem?_map, Option.map_eq_some_iff] at hi
    obtain ⟨op, hop, hi⟩ := hi
    have hwop := hw ops (List.mem_of_getElem? hops) op (List.mem_of_getElem? hop)
    exact ⟨op, ⟨ops, hops, hop⟩, hwop.resolves_iff.2 hi⟩
  · rintro ⟨op, ⟨ops, hops, hop⟩, hi⟩
    have hwop := hw ops (List.mem_of_getElem? hops) op (List.mem_of_getElem? hop)
    refine ⟨_, ⟨ops, hops, rfl⟩, ?_⟩
    rw [List.getElem?_map, Option.map_eq_some_iff]
    exact ⟨op, hop, hwop.resolves_iff.1 hi⟩

/-- **What loading stored code answers**, in terms of the bytes alone. -/
structure LoadsExactly (constants : List Word) (codes : List (List UInt8)) : Prop where
  /-- Accepted is a whole number of well-formed instructions in each source, and nothing else. -/
  accepts : (∃ e, loadBytes constants codes = .ok e) ↔
    (∀ bytes ∈ codes, bytes.length % 4 = 0) ∧
    ∀ k p i, Stored codes k p i → i.WellFormed constants.length codes.length
  /-- The sources that are kept write the bytes again. -/
  keeps : ∀ e, loadBytes constants codes = .ok e →
    e.constants = constants ∧ e.sources.map Source.encode = codes
  /-- The resolved code has an operation wherever an instruction is stored, and the right one. -/
  resolves : ∀ e, loadBytes constants codes = .ok e → ∀ k p i,
    Stored codes k p i ↔ ∃ op, e.operation? k p = some op ∧ op.Resolves i
  /-- A source of a wrong length is named if it is the first one, whatever the sources hold. -/
  malformed : ∀ k n, loadBytes constants codes = .error (.malformedSource k n) ↔
    ∃ bytes, codes[k]? = some bytes ∧ bytes.length = n ∧ n % 4 ≠ 0 ∧
      ∀ j < k, ∀ bytes', codes[j]? = some bytes' → bytes'.length % 4 = 0
  /-- If there is none, the first instruction with a fault is named, source by source and position by
  position. -/
  faulty : ∀ k p f, loadBytes constants codes = .error (.instruction k p f) ↔
    (∀ bytes ∈ codes, bytes.length % 4 = 0) ∧
    (∃ i, Stored codes k p i ∧ i.HasFault constants.length codes.length f) ∧
    ∀ k' p' i, k' < k ∨ k' = k ∧ p' < p → Stored codes k' p' i →
      i.WellFormed constants.length codes.length

theorem loadsExactly (constants : List Word) (codes : List (List UInt8)) :
    LoadsExactly constants codes where
  accepts := exists_loadBytes_iff
  keeps e h := ⟨(loadBytes_eq_ok_iff.1 h).1, (loadBytes_eq_ok_iff.1 h).2.1⟩
  resolves e h k p i := by
    obtain ⟨-, rfl, hw⟩ := loadBytes_eq_ok_iff.1 h
    exact stored_sources_iff hw
  malformed _ _ := loadBytes_eq_malformed_iff
  faulty _ _ _ := loadBytes_eq_fault_iff

end Expression

/-! ## 6. Configurations -/

namespace Config

/-- **The text of a source writes stored code**: in base 16 after `0x`, or as assembly. -/
inductive Writes (text : String) : List UInt8 → Prop where
  | hex {digits : List Char} {bytes : List UInt8}
      (hhex : Text.trim text.toList = '0' :: 'x' :: digits)
      (h : Text.decodeHex (String.ofList digits) = .ok bytes) : Writes text bytes
  | assembly {s : Source} (hplain : ∀ digits, Text.trim text.toList ≠ '0' :: 'x' :: digits)
      (h : Assembly.assembleChars (Text.trim text.toList) = .ok s) : Writes text s.encode

/-- **The text of a source writes nothing**, for this reason. -/
inductive TextFault (text : String) : SourceTextFault → Prop where
  | hex {digits : List Char} {f : Text.HexFault}
      (hhex : Text.trim text.toList = '0' :: 'x' :: digits)
      (h : Text.decodeHex (String.ofList digits) = .error f) : TextFault text (.hex f)
  | assembly {f : Assembly.SourceFault}
      (hplain : ∀ digits, Text.trim text.toList ≠ '0' :: 'x' :: digits)
      (h : Assembly.assembleChars (Text.trim text.toList) = .error f) : TextFault text (.assembly f)

theorem codeOf_of_writes {text : String} {bytes : List UInt8} (h : Writes text bytes) :
    codeOf text = .ok bytes := by
  unfold codeOf
  cases h with
  | hex hhex h => simp only [hhex, h]
  | assembly hplain h =>
      split
      · rename_i digits hhex
        exact absurd hhex (hplain digits)
      · rw [h]

theorem codeOf_of_textFault {text : String} {f : SourceTextFault} (h : TextFault text f) :
    codeOf text = .error f := by
  unfold codeOf
  cases h with
  | hex hhex h => simp only [hhex, h]
  | assembly hplain h =>
      split
      · rename_i digits hhex
        exact absurd hhex (hplain digits)
      · rw [h]

theorem writes_or_textFault (text : String) :
    (∃ bytes, Writes text bytes) ∨ ∃ f, TextFault text f := by
  by_cases hhex : ∃ digits, Text.trim text.toList = '0' :: 'x' :: digits
  · obtain ⟨digits, hhex⟩ := hhex
    cases h : Text.decodeHex (String.ofList digits) with
    | ok bytes => exact .inl ⟨bytes, .hex hhex h⟩
    | error f => exact .inr ⟨.hex f, .hex hhex h⟩
  · have hplain : ∀ digits, Text.trim text.toList ≠ '0' :: 'x' :: digits :=
      fun digits h => hhex ⟨digits, h⟩
    cases h : Assembly.assembleChars (Text.trim text.toList) with
    | ok s => exact .inl ⟨s.encode, .assembly hplain h⟩
    | error f => exact .inr ⟨.assembly f, .assembly hplain h⟩

theorem codesFrom_walks : Walks Writes
    (fun k text e => ∃ f, TextFault text f ∧ e = ConfigFault.source k f) codesFrom where
  nil _ _ := rfl
  ok h read k rest := by
    rw [codesFrom, codeOf_of_writes h]
  error := by
    rintro k text e ⟨f, hf, rfl⟩ read rest
    rw [codesFrom, codeOf_of_textFault hf]
  total k text := by
    rcases writes_or_textFault text with hwrites | ⟨f, hf⟩
    · exact .inl hwrites
    · exact .inr ⟨_, f, hf, rfl⟩

theorem build_of_writes {c : Config} {codes : List (List UInt8)}
    (h : List.Forall₂ Writes c.sources codes) :
    c.build = (Expression.loadBytes c.constants codes).mapError .load := by
  have hcodes : c.codes = .ok codes := codesFrom_walks.eq_ok_iff.2 h
  unfold build
  rw [hcodes]
  dsimp only
  cases Expression.loadBytes c.constants codes <;> rfl

theorem build_eq_source_iff {c : Config} {k : Nat} {f : SourceTextFault} :
    c.build = .error (.source k f) ↔ c.codes = .error (.source k f) := by
  unfold build
  cases c.codes with
  | error e => exact ⟨fun h => (by cases h; rfl), fun h => (by cases h; rfl)⟩
  | ok codes =>
      dsimp only
      cases Expression.loadBytes c.constants codes with
      | ok e => exact ⟨fun h => (by cases h), fun h => (by cases h)⟩
      | error e => exact ⟨fun h => (by cases h), fun h => (by cases h)⟩

/-- **What building a configuration answers**: the texts come first, then the code they write. -/
structure BuildsExactly (c : Config) : Prop where
  /-- A text is named if it is the first one that writes nothing. -/
  text : ∀ k f, c.build = .error (.source k f) ↔
    ∃ text, c.sources[k]? = some text ∧ TextFault text f ∧
      ∀ j < k, ∀ text', c.sources[j]? = some text' → ∃ bytes, Writes text' bytes
  /-- One is named unless all of them write code. -/
  texts : (∃ k f, c.build = .error (.source k f)) ↔ ¬ ∃ codes, List.Forall₂ Writes c.sources codes
  /-- Then the code they write is loaded. -/
  loads : ∀ codes, List.Forall₂ Writes c.sources codes →
    c.build = (Expression.loadBytes c.constants codes).mapError .load

theorem buildsExactly (c : Config) : c.BuildsExactly where
  text k f := by
    rw [build_eq_source_iff, codes, codesFrom_walks.eq_error_iff]
    constructor
    · rintro ⟨j, text, htext, ⟨f', hf, heq⟩, hbefore⟩
      cases heq
      exact ⟨text, htext, hf, hbefore⟩
    · rintro ⟨text, htext, hf, hbefore⟩
      exact ⟨k, text, htext, ⟨f, hf, rfl⟩, hbefore⟩
  texts := by
    constructor
    · rintro ⟨k, f, h⟩ ⟨codes, hcodes⟩
      rw [build_of_writes hcodes] at h
      cases hload : Expression.loadBytes c.constants codes with
      | ok e =>
          rw [hload] at h
          cases h
      | error e =>
          rw [hload] at h
          cases h
    · intro hnone
      cases hcodes : c.codes with
      | ok codes =>
          exact absurd ⟨codes, codesFrom_walks.eq_ok_iff.1 hcodes⟩ hnone
      | error e =>
          obtain ⟨k, text, -, ⟨f, -, rfl⟩, -⟩ := codesFrom_walks.eq_error_iff.1 hcodes
          exact ⟨k, f, build_eq_source_iff.2 hcodes⟩
  loads _ h := build_of_writes h

end Config

/-- **Loading accepts exactly the well-formed expressions and names the first fault**, for all
constants and all stored code, and for all configurations. -/
theorem loading_names_first_fault :
    (∀ constants codes, Expression.LoadsExactly constants codes) ∧
      ∀ c : Config, c.BuildsExactly :=
  ⟨Expression.loadsExactly, Config.buildsExactly⟩

/-- The length of the second source is looked at before the opcode in the first. -/
example : Expression.loadBytes [] [[0, 31, 0, 0], [0]] = .error (.malformedSource 1 1) := rfl

end WordMachine
