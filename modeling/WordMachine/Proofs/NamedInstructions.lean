import WordMachine.Proofs.FirstFault
import WordMachine.Proofs.Grammar
import WordMachine.Proofs.Listing

/-!
# What loading can still refuse in assembled sources

The assembler checks each field of an operand when it reads it, and loading checks the operand again
when it is packed. Both go by the layout of the opcode, so that most checks of loading cannot fail
any more, once an instruction was written by its name:

* `Operation.Written` says what the assembler makes sure of, in terms of the operand alone
  (`OperandText.written`);
* `LeftToLoading` has the faults that are left: those that depend on the pool or on the number of
  sources, and a loop with different numbers of inputs and outputs (`Written.leftToLoading`);
* the operand of such an instruction is also all printed, so that the printed source is read back as
  it is (`Written.cleared`).

`load_assembled` says it of whole texts. An instruction that is written by numbers is not checked at
all when it is read, so this is only about texts without these.
-/

namespace WordMachine

/-! ## 1. Operands that can be written -/

/-- **The operand can be written after the name of the opcode**: it is none that is refused, and it
is zero if the opcode has no fields. -/
structure Operation.Written (op : Operation) : Prop where
  accepted : ¬ op.opcode.Refuses op.operand
  zero : op.opcode.ignoresOperand = true → op.operand = 0

namespace Assembly

/-- **What the fields of an opcode write can be written.** -/
theorem OperandText.written {op : Opcode} {fields : List (List Char)} {raw : UInt16}
    (h : OperandText op.operandKind fields raw) : Operation.Written ⟨op, raw⟩ := by
  have hnone : op.operandKind = .none → raw = 0 := by
    intro hkind
    rw [hkind] at h
    cases h
    rfl
  have hleast : ∀ {least : Nat}, op.operandKind = .inputs least → least ≤ raw.toNat := by
    intro least hkind
    rw [hkind] at h
    cases h with
    | least => exact Nat.le_refl _
    | inputs _ hle => exact hle
  cases op with
  | debug =>
      cases h with
      | debugMode _ hraw =>
          refine ⟨fun hrefused => ?_, fun hignored => by cases hignored⟩
          rw [DebugMode.ofBits?_eq_none_iff.2 hrefused] at hraw
          cases hraw
  | apply f =>
      cases hf : f.arity with
      | fixed n =>
          have hkind : (Opcode.apply f).operandKind = .none := by
            simp only [Opcode.operandKind, hf]
          refine ⟨fun hrefused => ?_, fun _ => hnone hkind⟩
          rw [hrefused.1] at hf
          cases hf
      | variadic =>
          have hkind : (Opcode.apply f).operandKind = .inputs 2 := by
            simp only [Opcode.operandKind, hf]
          refine ⟨fun hrefused => Nat.not_lt.2 (hleast hkind) hrefused.2, fun hignored => ?_⟩
          rw [Opcode.ignoresOperand_of_variadic hf] at hignored
          cases hignored
  | ensure =>
      exact ⟨fun hrefused => Nat.not_lt.2 (hleast rfl) hrefused, fun hignored => by cases hignored⟩
  | scalar value => exact ⟨id, fun _ => hnone rfl⟩
  | balanceOf => exact ⟨id, fun _ => hnone rfl⟩
  | totalSupply => exact ⟨id, fun _ => hnone rfl⟩
  | readMemory => exact ⟨id, fun hignored => by cases hignored⟩
  | call => exact ⟨id, fun hignored => by cases hignored⟩
  | loopN => exact ⟨id, fun hignored => by cases hignored⟩
  | doWhile => exact ⟨id, fun hignored => by cases hignored⟩
  | context => exact ⟨id, fun hignored => by cases hignored⟩

end Assembly

/-! ## 2. The faults that are left -/

/-- **The faults that are left to loading**, in an expression with so many constants and sources: a
constant or a source that is not there, and a loop that has not as many outputs as inputs. -/
inductive LeftToLoading (constants sources : Nat) : Operation → InstructionFault → Prop where
  | constant {operand : UInt16} (hregion : (MemoryOperand.ofBits operand).region = .constant)
      (h : constants ≤ (MemoryOperand.ofBits operand).offset.val) :
      LeftToLoading constants sources ⟨.readMemory, operand⟩
        (.constantOutOfRange (MemoryOperand.ofBits operand).offset.val constants)
  | source {op : Operation} {target : Nat} (h : sources ≤ target) :
      LeftToLoading constants sources op (.sourceOutOfRange target sources)
  | loop {operand : UInt16}
      (h : (LoopOperand.ofBits operand).inputs ≠ (LoopOperand.ofBits operand).outputs) :
      LeftToLoading constants sources ⟨.loopN, operand⟩
        (.invalidOperand .loopN operand .unbalancedLoop)

namespace Operation

variable {constants sources : Nat} {op : Operation} {f : InstructionFault}

theorem Written.leftToLoading (h : op.Written) (hf : op.HasFault constants sources f) :
    LeftToLoading constants sources op f := by
  obtain ⟨opcode, operand⟩ := op
  have haccepted := h.accepted
  cases opcode with
  | readMemory =>
      obtain ⟨hregion, hle, rfl⟩ := hf
      exact .constant hregion hle
  | call =>
      obtain ⟨hle, rfl⟩ := hf
      exact .source hle
  | loopN =>
      rcases hf with ⟨hne, rfl⟩ | ⟨-, hle, rfl⟩
      · exact .loop hne
      · exact .source hle
  | doWhile =>
      obtain ⟨hle, rfl⟩ := hf
      exact .source hle
  | debug => exact absurd hf.1 haccepted
  | apply g => exact absurd ⟨hf.1, hf.2.1⟩ haccepted
  | ensure => exact absurd hf.1 haccepted
  | context => exact hf.elim
  | scalar value => exact hf.elim
  | balanceOf => exact hf.elim
  | totalSupply => exact hf.elim

theorem hasFault_of_instruction (hf : op.instruction.HasFault constants sources f) :
    op.HasFault constants sources f := by
  have hopcode := op.opcode?_instruction
  rcases hf with ⟨hunknown, -⟩ | ⟨op', hop', hf⟩
  · rw [Instruction.opcode?_eq_none_iff.2 hunknown] at hopcode
    cases hopcode
  · cases hopcode.symm.trans hop'
    exact hf

/-! ## 3. Printed and read back -/

theorem Written.readable (h : op.Written) : ¬ op.instruction.Unreadable := by
  unfold Instruction.Unreadable
  rw [op.opcode?_instruction]
  exact h.accepted

/-- **Nothing of an operand that can be written is lost in print.** -/
theorem Written.cleared (h : op.Written) : op.instruction.cleared = op.instruction := by
  unfold Instruction.cleared
  rw [op.opcode?_instruction]
  dsimp only
  split
  · rename_i hignored
    have hzero : op.instruction.operand = 0 := h.zero hignored
    rw [← hzero]
  · rfl

end Operation

theorem Source.assemble_text_of_written {s : Source}
    (h : ∀ i ∈ s, ∃ op : Operation, i = op.instruction ∧ op.Written) :
    Assembly.assemble s.text = .ok s := by
  have hreadable : ∀ i ∈ s, ¬ i.Unreadable := by
    intro i hi
    obtain ⟨op, rfl, hop⟩ := h i hi
    exact hop.readable
  have hcleared : s.map Instruction.cleared = s := by
    have hsame : ∀ i ∈ s, i.cleared = id i := by
      intro i hi
      obtain ⟨op, rfl, hop⟩ := h i hi
      exact hop.cleared
    rw [List.map_congr_left hsame, List.map_id]
  rw [assemble_text_of_readable hreadable, hcleared]

/-! ## 4. Assembled sources -/

namespace Assembly

/-- No instruction of the text is written by numbers. -/
def Named (text : List Char) : Prop :=
  ∀ tokens, tokenize text = .ok tokens → ∀ token ∈ tokens, token.head? ≠ some '#'

instance (text : List Char) : Decidable (Named text) :=
  decidable_of_iff (∀ token ∈ (tokenize text).toOption.getD [], token.head? ≠ some '#') <| by
    unfold Named
    cases tokenize text <;> simp [Except.toOption]

theorem exists_written_of_instructionOf {name : List Char} {fields : List (List Char)}
    {i : Instruction} (h : instructionOf name fields = .ok i) (hname : name.head? ≠ some '#') :
    ∃ op : Operation, i = op.instruction ∧ op.Written := by
  cases instructionOf_eq_ok_iff.1 h with
  | number => exact absurd rfl hname
  | numbers => exact absurd rfl hname
  | @named op _ raw htext => exact ⟨⟨op, raw⟩, rfl, htext.written⟩

theorem exists_written_of_spelled {token : List Char} {i : Instruction}
    (h : spelled token = .ok i) (htoken : token.head? ≠ some '#') :
    ∃ op : Operation, i = op.instruction ∧ op.Written := by
  unfold spelled at h
  split at h
  · exact exists_written_of_instructionOf h htoken
  · split at h
    · cases h
    · refine exists_written_of_instructionOf h fun hhead => ?_
      -- the name is the beginning of the token
      rw [List.head?_takeWhile, Option.filter_eq_some_iff] at hhead
      exact htoken hhead.1

/-- **Each instruction of an accepted text without numbers can be written.** -/
theorem exists_written_of_assembleChars {text : List Char} {s : Source}
    (h : assembleChars text = .ok s) (hnamed : Named text) :
    ∀ i ∈ s, ∃ op : Operation, i = op.instruction ∧ op.Written := by
  obtain ⟨tokens, htokens, hspelled⟩ := assembleChars_eq_ok_iff.1 h
  intro i hi
  have hmem : Except.ok i ∈ tokens.map spelled := by
    rw [hspelled]
    exact List.mem_map_of_mem hi
  obtain ⟨token, htoken, hi⟩ := List.mem_map.1 hmem
  exact exists_written_of_spelled hi (hnamed tokens htokens token htoken)

theorem exists_written_of_assembleAll {text : String} {sources : List Source}
    (h : assembleAll text = .ok sources) (hnamed : ∀ piece ∈ sourceTexts text.toList, Named piece) :
    ∀ s ∈ sources, ∀ i ∈ s, ∃ op : Operation, i = op.instruction ∧ op.Written := by
  have hpieces : List.Forall₂ (fun piece s => Named piece ∧ assembleChars piece = .ok s)
      (sourceTexts text.toList) sources :=
    (List.forall₂_and_left _ _).2 ⟨hnamed, assembleTexts_walks.eq_ok_iff.1 h⟩
  intro s hs
  obtain ⟨piece, hpiece, hassembled⟩ := Walks.exists_made_iff.1 ⟨_, hpieces.flip⟩ s hs
  exact exists_written_of_assembleChars hassembled hpiece

end Assembly

/-- **Assembling leaves little to loading.** Let a text be accepted, and no instruction in it be
written by numbers. With any pool of constants, its sources

* are loaded, or they are refused for the instruction at some place, and then for a constant or a
  source that is not there or for a loop with different numbers of inputs and outputs;
* are never refused for their length, for an unknown opcode, or for the operand of any other opcode
  than that of a loop;
* are read back from their printed form as they are. -/
theorem load_assembled {text : String} {sources : List Source}
    (h : Assembly.assembleAll text = .ok sources)
    (hnamed : ∀ piece ∈ Assembly.sourceTexts text.toList, Assembly.Named piece)
    (constants : List Word) :
    ((∃ e, Expression.load constants sources = .ok e) ∨
      ∃ k p s op f, Expression.load constants sources = .error (.instruction k p f) ∧
        sources[k]? = some s ∧ s[p]? = some op.instruction ∧
        LeftToLoading constants.length sources.length op f) ∧
    (∀ k n, Expression.load constants sources ≠ .error (.malformedSource k n)) ∧
    (∀ k p n, Expression.load constants sources ≠ .error (.instruction k p (.unknownOpcode n))) ∧
    (∀ k p op operand f, Expression.load constants sources =
      .error (.instruction k p (.invalidOperand op operand f)) → op = .loopN) ∧
    ∀ s ∈ sources, Assembly.assemble s.text = .ok s := by
  have hwritten := Assembly.exists_written_of_assembleAll h hnamed
  have hleft : ∀ fault, Expression.load constants sources = .error fault →
      ∃ k p s op f, fault = .instruction k p f ∧ sources[k]? = some s ∧
        s[p]? = some op.instruction ∧ LeftToLoading constants.length sources.length op f := by
    intro fault hfault
    obtain ⟨k, s, hs, ⟨p, f, ⟨⟨i, hi, hf⟩, -⟩, rfl⟩, -⟩ :=
      Expression.load_eq_error_iff.1 hfault
    obtain ⟨op, rfl, hop⟩ := hwritten s (List.mem_of_getElem? hs) i (List.mem_of_getElem? hi)
    exact ⟨k, p, s, op, f, rfl, hs, hi, hop.leftToLoading (Operation.hasFault_of_instruction hf)⟩
  refine ⟨?_, fun k n hfault => ?_, fun k p n hfault => ?_, fun k p op operand f hfault => ?_,
    fun s hs => Source.assemble_text_of_written (hwritten s hs)⟩
  · cases hload : Expression.load constants sources with
    | ok e => exact .inl ⟨e, rfl⟩
    | error fault =>
        obtain ⟨k, p, s, op, f, rfl, hplace⟩ := hleft fault hload
        exact .inr ⟨k, p, s, op, f, rfl, hplace⟩
  · obtain ⟨_, _, _, _, _, heq, -⟩ := hleft _ hfault
    cases heq
  · obtain ⟨_, _, _, _, _, heq, -, -, hkind⟩ := hleft _ hfault
    cases heq
    cases hkind
  · obtain ⟨_, _, _, _, _, heq, -, -, hkind⟩ := hleft _ hfault
    cases heq
    cases hkind
    rfl

/-- A loop with one input and no output, and a `debug` without trouble. -/
def unbalancedSources : List Source := [[⟨12, 2⟩, ⟨2, 0x2101⟩], [⟨4, 0⟩, ⟨30, 1⟩, ⟨23, 0⟩]]

/-- Such a loop passes the assembler, and only loading refuses it. -/
theorem load_assembled_unbalanced :
    Assembly.assembleAll "add loop-n<2 1 0 1>; debug<0> ensure is-zero" = .ok unbalancedSources ∧
    Expression.load [] unbalancedSources =
      .error (.instruction 0 1 (.invalidOperand .loopN 0x2101 .unbalancedLoop)) ∧
    ∀ s ∈ unbalancedSources, Assembly.assemble s.text = .ok s := by
  have hassembled : Assembly.assembleAll "add loop-n<2 1 0 1>; debug<0> ensure is-zero" =
      .ok unbalancedSources := by decide +kernel
  have hnamed : ∀ piece ∈
      Assembly.sourceTexts "add loop-n<2 1 0 1>; debug<0> ensure is-zero".toList,
      Assembly.Named piece := by decide +kernel
  obtain ⟨-, -, -, -, hback⟩ := load_assembled hassembled hnamed []
  exact ⟨hassembled, by decide +kernel, hback⟩

end WordMachine
