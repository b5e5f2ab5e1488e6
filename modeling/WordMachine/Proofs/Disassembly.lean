import Mathlib.Data.List.TakeWhile
import WordMachine.Proofs.Loading
import WordMachine.Proofs.Reading

/-!
# Printed sources are read back

The printer of instructions and the assembler are two readings of the same layouts. Here they meet:
a printed source is assembled to itself, but for operands that are not printed and operands that the
assembler refuses.

* `Instruction.Unreadable` says which instructions print as something that is refused;
* `Instruction.cleared` is what the others are read back as;
* `Source.assemble_text_iff` says that this is all there is to say about a whole source.

The proof takes a printed instruction as a name and fields (`Instruction.text_eq_spell`), finds the
token and the fields again whatever the operand means, and then goes through the layouts.
-/

namespace WordMachine

/-! ## 1. What is read back -/

/-- The operand has no meaning and is not printed. -/
def Opcode.ignoresOperand : Opcode → Bool
  | .scalar _ | .balanceOf | .totalSupply => true
  | .apply .isZero | .apply .equalTo | .apply .lessThan | .apply .greaterThan | .apply .eagerIf =>
    true
  | _ => false

/-- **The operand has no meaning, but is printed**: it is no debug mode, or too few inputs. -/
def Opcode.Refuses (op : Opcode) (operand : UInt16) : Prop :=
  match op with
  | .debug => 1 < operand.toNat
  | .apply f => f.arity = .variadic ∧ operand.toNat < 2
  | .ensure => operand.toNat < 1
  | _ => False

namespace Instruction

/-- The instruction is printed, but not accepted. -/
def Unreadable (i : Instruction) : Prop :=
  match i.opcode? with
  | some op => op.Refuses i.operand
  | none => False

/-- The instruction without an operand that has no meaning. -/
def cleared (i : Instruction) : Instruction :=
  match i.opcode? with
  | some op => if op.ignoresOperand then ⟨i.opcode, 0⟩ else i
  | none => i

/-- The name in the printed form. -/
def name (i : Instruction) : String :=
  match i.opcode? with
  | none => "#" ++ toString i.opcode.toNat
  | some op => op.name

/-- The fields in the printed form. -/
def fields (i : Instruction) : List String :=
  match i.opcode? with
  | none => [toString i.operand.toNat]
  | some op => op.operandFields i.operand

theorem text_eq_spell (i : Instruction) : i.text = spell i.name i.fields := by
  unfold text name fields
  cases i.opcode? <;> rfl

end Instruction

/-! ## 2. Words -/

/-- A name or a field: it is not empty, and every character stands for itself. -/
structure IsWord (text : List Char) : Prop where
  ne_nil : text ≠ []
  plain : ∀ c ∈ text, Assembly.Lexer.Plain c

theorem IsWord.of_all {text : List Char} (hne : text.isEmpty = false)
    (h : text.all (fun c => Assembly.Lexer.Plain c) = true) : IsWord text :=
  ⟨List.isEmpty_eq_false_iff.1 hne, fun c hc => of_decide_eq_true (List.all_eq_true.1 h c hc)⟩

namespace Text

theorem toNat_of_isDigit {c : Char} (h : isDigit c = true) : 48 ≤ c.toNat ∧ c.toNat ≤ 57 := by
  simpa [isDigit, Char.le_def, UInt32.le_iff_toNat_le] using h

theorem plain_of_isDigit {c : Char} (h : isDigit c = true) : Assembly.Lexer.Plain c := by
  have hrange := toNat_of_isDigit h
  have hblank : isBlank c = false := by
    simp [isBlank, blankRanges]
    omega
  refine ⟨?_, ?_, hblank, ?_⟩
  all_goals
    rintro rfl
    exact absurd h (by decide)

theorem isWord_toString (n : Nat) : IsWord (toString n).toList := by
  refine ⟨?_, fun c hc => plain_of_isDigit (isDigit_of_mem_toString hc)⟩
  rw [toList_toString]
  exact Nat.toDigits_ne_nil

theorem hash_not_mem_toString (n : Nat) : '#' ∉ (toString n).toList := by
  intro h
  exact absurd (isDigit_of_mem_toString h) (by decide)

end Text

namespace Opcode

theorem ignoresOperand_of_fixed {f : WordFunction} {n : Nat} (h : f.arity = .fixed n) :
    (Opcode.apply f).ignoresOperand = true := by
  cases f <;> first | rfl | cases h

theorem ignoresOperand_of_variadic {f : WordFunction} (h : f.arity = .variadic) :
    (Opcode.apply f).ignoresOperand = false := by
  cases f <;> first | rfl | cases h

theorem isWord_name (op : Opcode) : IsWord op.name.toList := by
  cases op with
  | scalar s => cases s <;> exact .of_all (by decide) (by decide)
  | apply f => cases f <;> exact .of_all (by decide) (by decide)
  | _ => exact .of_all (by decide) (by decide)

theorem hash_not_mem_name (op : Opcode) : '#' ∉ op.name.toList := by
  cases op with
  | scalar s => cases s <;> decide
  | apply f => cases f <;> decide
  | _ => decide

/-- Every field of an operand is a word, and none holds the sign of a comment. -/
theorem isWord_operandFields (op : Opcode) (operand : UInt16) :
    ∀ field ∈ op.operandFields operand, IsWord field.toList ∧ '#' ∉ field.toList := by
  have hnumber : ∀ n : Nat, IsWord (toString n).toList ∧ '#' ∉ (toString n).toList :=
    fun n => ⟨Text.isWord_toString n, Text.hash_not_mem_toString n⟩
  have hregion : ∀ r : Region, IsWord r.name.toList ∧ '#' ∉ r.name.toList := by
    intro r
    cases r <;> exact ⟨.of_all (by decide) (by decide), by decide⟩
  have hmode : ∀ m : DebugMode, IsWord m.name.toList ∧ '#' ∉ m.name.toList := by
    intro m
    cases m <;> exact ⟨.of_all (by decide) (by decide), by decide⟩
  intro field hfield
  unfold operandFields at hfield
  cases hkind : op.operandKind with
  | none =>
      rw [hkind] at hfield
      cases hfield
  | debugMode =>
      rw [hkind] at hfield
      dsimp only at hfield
      cases hm : DebugMode.ofBits? operand with
      | some m =>
          rw [hm] at hfield
          rw [List.mem_singleton.1 hfield]
          exact hmode m
      | none =>
          rw [hm] at hfield
          rw [List.mem_singleton.1 hfield]
          exact hnumber _
  | memory =>
      rw [hkind] at hfield
      simp only [List.mem_cons, List.not_mem_nil, or_false] at hfield
      rcases hfield with rfl | rfl
      · exact hregion _
      · exact hnumber _
  | _ =>
      rw [hkind] at hfield
      simp only [List.mem_cons, List.not_mem_nil, or_false] at hfield
      rcases hfield with rfl | rfl | rfl | rfl <;> exact hnumber _

end Opcode

/-! ## 3. Printed names and fields -/

namespace Assembly

theorem spelled_name {name : List Char} (h : ∀ c ∈ name, c ≠ '<') :
    spelled name = instructionOf name [] := by
  have hplain : ∀ c ∈ name, decide (c ≠ '<') = true := fun c hc => decide_eq_true (h c hc)
  unfold spelled
  rw [List.dropWhile_eq_nil_iff.2 hplain]

theorem spelled_fields {name : List Char} (h : ∀ c ∈ name, c ≠ '<') (inner : List Char) :
    spelled (name ++ '<' :: (inner ++ ['>'])) = instructionOf name (Text.fields inner) := by
  have hplain : ∀ c ∈ name, decide (c ≠ '<') = true := fun c hc => decide_eq_true (h c hc)
  have hclose : dropClose (inner ++ ['>']) = some inner := by
    unfold dropClose
    rw [List.reverse_append]
    show some inner.reverse.reverse = _
    rw [List.reverse_reverse]
  have hdrop : ('<' :: (inner ++ ['>'])).dropWhile (fun c => decide (c ≠ '<')) =
      '<' :: (inner ++ ['>']) := rfl
  have htake : ('<' :: (inner ++ ['>'])).takeWhile (fun c => decide (c ≠ '<')) = [] := rfl
  unfold spelled
  rw [List.dropWhile_append_of_pos hplain, List.takeWhile_append_of_pos hplain, hdrop, htake,
    List.append_nil]
  dsimp only
  rw [hclose]

end Assembly

namespace Instruction

theorem toList_spell_cons (name field : String) (fields : List String) :
    (spell name (field :: fields)).toList = name.toList ++
      '<' :: ([' '].intercalate ((field :: fields).map String.toList) ++ ['>']) := by
  show (name ++ "<" ++ " ".intercalate (field :: fields) ++ ">").toList = _
  simp [String.toList_append, String.toList_intercalate]

section Spell

variable {name : String} {fields : List String}

/-- What the characters of words with spaces between them can be. -/
theorem mem_intercalate_words {words : List (List Char)} {c : Char}
    (h : c ∈ [' '].intercalate words) : (∃ w ∈ words, c ∈ w) ∨ c = ' ' := by
  induction words with
  | nil => exact absurd h List.not_mem_nil
  | cons word words ih =>
      cases words with
      | nil =>
          rw [List.intercalate_singleton] at h
          exact .inl ⟨word, List.mem_cons_self, h⟩
      | cons word' words =>
          rw [List.intercalate_cons_cons, List.mem_append, List.mem_append, List.mem_singleton] at h
          rcases h with (h | h) | h
          · exact .inl ⟨word, List.mem_cons_self, h⟩
          · exact .inr h
          · rcases ih h with ⟨w, hw, hc⟩ | hc
            · exact .inl ⟨w, List.mem_cons_of_mem _ hw, hc⟩
            · exact .inr hc

/-- What the characters of a printed form can be. -/
theorem mem_spell {c : Char} (h : c ∈ (spell name fields).toList) :
    c ∈ name.toList ∨ (∃ f ∈ fields, c ∈ f.toList) ∨ c = '<' ∨ c = ' ' ∨ c = '>' := by
  cases fields with
  | nil => exact .inl h
  | cons field fields =>
      rw [toList_spell_cons, List.mem_append, List.mem_cons, List.mem_append,
        List.mem_singleton] at h
      rcases h with h | rfl | h | rfl
      · exact .inl h
      · exact .inr (.inr (.inl rfl))
      · rcases mem_intercalate_words h with ⟨w, hw, hc⟩ | rfl
        · obtain ⟨f, hf, rfl⟩ := List.mem_map.1 hw
          exact .inr (.inl ⟨f, hf, hc⟩)
        · exact .inr (.inr (.inr (.inl rfl)))
      · exact .inr (.inr (.inr (.inr rfl)))

theorem oneLine_of_plain {c : Char} (h : Assembly.Lexer.Plain c) : c ≠ '\n' ∧ c ≠ '\r' := by
  constructor
  all_goals
    rintro rfl
    exact absurd h (by decide)

theorem oneLine_spell (hname : IsWord name.toList) (hfields : ∀ f ∈ fields, IsWord f.toList) :
    Text.OneLine (spell name fields).toList := by
  intro c hc
  rcases mem_spell hc with h | ⟨f, hf, h⟩ | rfl | rfl | rfl
  · exact oneLine_of_plain (hname.plain c h)
  · exact oneLine_of_plain ((hfields f hf).plain c h)
  · decide
  · decide
  · decide

theorem spell_ne_nil (hname : IsWord name.toList) : (spell name fields).toList ≠ [] := by
  cases fields with
  | nil => exact hname.ne_nil
  | cons field fields =>
      rw [toList_spell_cons]
      exact List.append_ne_nil_of_left_ne_nil hname.ne_nil _

theorem isToken_spell (hname : IsWord name.toList) (hfields : ∀ f ∈ fields, IsWord f.toList) :
    Assembly.IsToken (spell name fields).toList := by
  cases fields with
  | nil => exact Assembly.isToken_name hname.plain hname.ne_nil
  | cons field fields =>
      rw [toList_spell_cons]
      refine Assembly.isToken_fields hname.plain hname.ne_nil fun c hc => ?_
      rcases mem_intercalate_words hc with ⟨w, hw, hc⟩ | rfl
      · exact .inl ((List.forall_mem_map.2 hfields w hw).plain c hc)
      · exact .inr rfl

/-- **The assembler finds the name and the fields again.** -/
theorem spelled_spell (hname : IsWord name.toList) (hfields : ∀ f ∈ fields, IsWord f.toList) :
    Assembly.spelled (spell name fields).toList =
      Assembly.instructionOf name.toList (fields.map String.toList) := by
  have hplain : ∀ c ∈ name.toList, c ≠ '<' := fun c hc => (hname.plain c hc).1
  cases fields with
  | nil => exact Assembly.spelled_name hplain
  | cons field fields =>
      have hwords : ∀ w ∈ (field :: fields).map String.toList,
          w ≠ [] ∧ ∀ c ∈ w, Text.isBlank c = false := by
        refine List.forall_mem_map.2 fun f hf => ⟨(hfields f hf).ne_nil, fun c hc => ?_⟩
        exact ((hfields f hf).plain c hc).2.2.1
      rw [toList_spell_cons, Assembly.spelled_fields hplain, Text.fields_intercalate hwords]

end Spell

end Instruction

/-! ## 4. Layouts -/

namespace Assembly

theorem numberField_toString {limit n : Nat} (what : String) (h : n < limit) :
    numberField limit what (toString n).toList = .ok n := by
  unfold numberField
  rw [Text.numeral_toString h]

theorem byteField_toString {n : Nat} (what : String) (h : n < 256) :
    byteField what (toString n).toList = .ok (lowByte n) := by
  unfold byteField
  rw [numberField_toString what h]

theorem val_lowByte_of_lt {n : Nat} (h : n < 256) : (lowByte n).val = n := by
  rw [val_lowByte, Nat.mod_eq_of_lt h]

theorem lowByte_val (x : Fin 256) : lowByte x.val = x := Fin.ext (val_lowByte_of_lt x.isLt)

theorem ofOffset_val (r : Region) (o : Fin 32768) : MemoryOperand.ofOffset r o.val = ⟨r, o⟩ := by
  unfold MemoryOperand.ofOffset
  congr 1
  exact Fin.ext (Nat.mod_eq_of_lt o.isLt)

theorem regionNamed?_name (r : Region) : regionNamed? r.name.toList = some r := by
  cases r <;> decide

theorem debugModeNamed?_name (m : DebugMode) : debugModeNamed? m.name.toList = some m := by
  cases m <;> decide

/-- A number above one names no debug mode. -/
theorem debugModeNamed?_toString {n : Nat} (h : 1 < n) : debugModeNamed? (toString n).toList = none := by
  have hvalue := Text.numeral_toString (Nat.lt_succ_self n)
  have hname : ∀ name : List Char, Text.numeral (n + 1) name ≠ .ok n → (toString n).toList ≠ name := by
    intro name hne heq
    rw [heq] at hvalue
    exact hne hvalue
  have hdigit : ∀ d : Nat, d ≤ 1 → (toString n).toList ≠ (toString d).toList := by
    intro d hd heq
    rw [heq, Text.numeral_toString (by omega)] at hvalue
    have := Except.ok.inj hvalue
    omega
  unfold debugModeNamed?
  rw [if_neg, if_neg]
  · rintro (heq | heq)
    · exact hname _ (by intro hread; cases hread) heq
    · exact hdigit 1 (Nat.le_refl _) heq
  · rintro (heq | heq)
    · exact hname _ (by intro hread; cases hread) heq
    · exact hdigit 0 (Nat.zero_le _) heq

theorem make?_call (c : CallOperand) :
    CallOperand.make? (lowByte c.inputs.val).val (lowByte c.outputs.val).val c.source = some c := by
  rw [val_lowByte_of_lt (Nat.lt_trans c.inputs.isLt (by decide)),
    val_lowByte_of_lt (Nat.lt_trans c.outputs.isLt (by decide))]
  unfold CallOperand.make?
  rw [dif_pos ⟨c.inputs.isLt, c.outputs.isLt⟩]

theorem make?_loop (l : LoopOperand) :
    LoopOperand.make? (lowByte l.count.val).val (lowByte l.inputs.val).val
      (lowByte l.outputs.val).val (lowByte l.source.val).val = some l := by
  rw [val_lowByte_of_lt (Nat.lt_trans l.count.isLt (by decide)),
    val_lowByte_of_lt (Nat.lt_trans l.inputs.isLt (by decide)),
    val_lowByte_of_lt (Nat.lt_trans l.outputs.isLt (by decide)),
    val_lowByte_of_lt (Nat.lt_trans l.source.isLt (by decide))]
  unfold LoopOperand.make?
  rw [dif_pos ⟨l.count.isLt, l.inputs.isLt, l.outputs.isLt, l.source.isLt⟩]

section Layouts

variable {op : Opcode} (operand : UInt16)

theorem operandOf_none (h : op.operandKind = .none) :
    operandOf op ((op.operandFields operand).map String.toList) = .ok 0 := by
  unfold operandOf Opcode.operandFields
  rw [h]
  rfl

theorem operandOf_memory (h : op.operandKind = .memory) :
    operandOf op ((op.operandFields operand).map String.toList) = .ok operand := by
  have hbits := MemoryOperand.toBits_ofBits operand
  have hoffset := (MemoryOperand.ofBits operand).offset.isLt
  have hplace : MemoryOperand.ofOffset (MemoryOperand.ofBits operand).region
      (MemoryOperand.ofBits operand).offset.val = MemoryOperand.ofBits operand := ofOffset_val _ _
  have hle : (MemoryOperand.ofBits operand).offset.val ≤ MemoryOperand.maxOffset :=
    Nat.le_of_lt_succ hoffset
  have hnumber := numberField_toString "offset" (Nat.lt_trans hoffset (by decide : 32768 < 65536))
  simp only [operandOf, Opcode.operandFields, h, List.map, hnumber, bind, Except.bind, if_pos hle,
    regionNamed?_name, hplace, hbits]

theorem operandOf_call (h : op.operandKind = .call) :
    operandOf op ((op.operandFields operand).map String.toList) = .ok operand := by
  let c := CallOperand.ofBits operand
  have hbits : c.toBits = operand := CallOperand.toBits_ofBits operand
  have hinputs : c.inputs.val < 256 := Nat.lt_trans c.inputs.isLt (by decide)
  have houtputs : c.outputs.val < 256 := Nat.lt_trans c.outputs.isLt (by decide)
  simp only [operandOf, Opcode.operandFields, h, List.map, bind, Except.bind,
    byteField_toString "inputs" hinputs, byteField_toString "outputs" houtputs,
    byteField_toString "source" c.source.isLt, lowByte_val, make?_call, hbits, c]

theorem operandOf_loopN (h : op.operandKind = .loopN) :
    operandOf op ((op.operandFields operand).map String.toList) = .ok operand := by
  let l := LoopOperand.ofBits operand
  have hbits : l.toBits = operand := LoopOperand.toBits_ofBits operand
  have hbyte : ∀ x : Fin 16, x.val < 256 := fun x => Nat.lt_trans x.isLt (by decide)
  simp only [operandOf, Opcode.operandFields, h, List.map, bind, Except.bind,
    byteField_toString "n" (hbyte l.count), byteField_toString "inputs" (hbyte l.inputs),
    byteField_toString "outputs" (hbyte l.outputs), byteField_toString "source" (hbyte l.source),
    make?_loop, hbits, l]

theorem operandOf_doWhile (h : op.operandKind = .doWhile) :
    operandOf op ((op.operandFields operand).map String.toList) = .ok operand := by
  let d := DoWhileOperand.ofBits operand
  have hbits : d.toBits = operand := DoWhileOperand.toBits_ofBits operand
  simp only [operandOf, Opcode.operandFields, h, List.map, bind, Except.bind,
    byteField_toString "inputs" d.inputs.isLt, byteField_toString "source" d.source.isLt,
    lowByte_val, hbits, d]

theorem operandOf_context (h : op.operandKind = .context) :
    operandOf op ((op.operandFields operand).map String.toList) = .ok operand := by
  let c := ContextCell.ofBits operand
  have hbits : c.toBits = operand := ContextCell.toBits_ofBits operand
  simp only [operandOf, Opcode.operandFields, h, List.map, bind, Except.bind,
    byteField_toString "column" c.column.isLt, byteField_toString "row" c.row.isLt,
    lowByte_val, hbits, c]

theorem operandOf_debugMode (h : op.operandKind = .debugMode) :
    (operand.toNat ≤ 1 →
      operandOf op ((op.operandFields operand).map String.toList) = .ok operand) ∧
    (1 < operand.toNat →
      ∃ f, operandOf op ((op.operandFields operand).map String.toList) = .error f) := by
  constructor
  · intro hle
    have hsome : DebugMode.ofBits? operand ≠ none :=
      fun hnone => Nat.not_lt.2 hle (DebugMode.ofBits?_eq_none_iff.1 hnone)
    obtain ⟨m, hm⟩ := Option.ne_none_iff_exists'.1 hsome
    simp only [operandOf, Opcode.operandFields, h, hm, List.map, debugModeNamed?_name,
      DebugMode.toBits_of_ofBits? hm]
  · intro hlt
    have hnone := DebugMode.ofBits?_eq_none_iff.2 hlt
    simp only [operandOf, Opcode.operandFields, h, hnone, List.map, debugModeNamed?_toString hlt]
    exact ⟨_, rfl⟩

theorem operandOf_inputs {least : Nat} (h : op.operandKind = .inputs least) :
    (least ≤ operand.toNat →
      operandOf op ((op.operandFields operand).map String.toList) = .ok operand) ∧
    (operand.toNat < least →
      ∃ f, operandOf op ((op.operandFields operand).map String.toList) = .error f) := by
  have hnumber := numberField_toString "inputs" (show operand.toNat < 65536 from operand.toNat_lt)
  constructor
  · intro hle
    simp only [operandOf, Opcode.operandFields, h, List.map, hnumber, bind, Except.bind, if_pos hle,
      UInt16.ofNat_toNat]
  · intro hlt
    simp only [operandOf, Opcode.operandFields, h, List.map, hnumber, bind, Except.bind,
      if_neg (Nat.not_le.2 hlt)]
    exact ⟨_, rfl⟩

/-- **The operand that the printed fields write**: the one that was printed, zero if none was. -/
theorem operandOf_operandFields (op : Opcode) (operand : UInt16) :
    (op.Refuses operand →
      ∃ f, operandOf op ((op.operandFields operand).map String.toList) = .error f) ∧
    (¬ op.Refuses operand → operandOf op ((op.operandFields operand).map String.toList) =
      .ok (if op.ignoresOperand then 0 else operand)) := by
  cases op with
  | readMemory => exact ⟨False.elim, fun _ => operandOf_memory operand rfl⟩
  | call => exact ⟨False.elim, fun _ => operandOf_call operand rfl⟩
  | loopN => exact ⟨False.elim, fun _ => operandOf_loopN operand rfl⟩
  | doWhile => exact ⟨False.elim, fun _ => operandOf_doWhile operand rfl⟩
  | debug =>
      obtain ⟨hok, herror⟩ := operandOf_debugMode operand (show Opcode.debug.operandKind = .debugMode from rfl)
      exact ⟨herror, fun h => hok (Nat.not_lt.1 h)⟩
  | context => exact ⟨False.elim, fun _ => operandOf_context operand rfl⟩
  | scalar value => exact ⟨False.elim, fun _ => operandOf_none operand rfl⟩
  | balanceOf => exact ⟨False.elim, fun _ => operandOf_none operand rfl⟩
  | totalSupply => exact ⟨False.elim, fun _ => operandOf_none operand rfl⟩
  | apply f =>
      -- the layout of a word function hangs on its arity, so the opcode alone does not compute it
      cases hf : f.arity with
      | fixed n =>
          have hkind : (Opcode.apply f).operandKind = .none := by
            simp only [Opcode.operandKind, hf]
          refine ⟨fun h => ?_, fun _ => ?_⟩
          · rw [h.1] at hf
            cases hf
          · rw [operandOf_none operand hkind, Opcode.ignoresOperand_of_fixed hf]
            rfl
      | variadic =>
          have hkind : (Opcode.apply f).operandKind = .inputs 2 := by
            simp only [Opcode.operandKind, hf]
          obtain ⟨hok, herror⟩ := operandOf_inputs operand hkind
          refine ⟨fun h => herror h.2, fun h => ?_⟩
          rw [hok (Nat.not_lt.1 fun hlt => h ⟨hf, hlt⟩), Opcode.ignoresOperand_of_variadic hf]
          rfl
  | ensure =>
      obtain ⟨hok, herror⟩ := operandOf_inputs operand (show Opcode.ensure.operandKind = .inputs 1 from rfl)
      exact ⟨herror, fun h => hok (Nat.not_lt.1 h)⟩

end Layouts

/-! ## 5. Instructions -/

theorem instructionOf_name (op : Opcode) (fields : List (List Char)) :
    instructionOf op.name.toList fields =
      (operandOf op fields).map fun operand => Instruction.make op operand := by
  have hhash := op.hash_not_mem_name
  unfold instructionOf
  split
  · rename_i number heq
    rw [heq] at hhash
    exact absurd List.mem_cons_self hhash
  · rw [String.ofList_toList, Opcode.ofName?_name]
    dsimp only
    cases operandOf op fields <;> rfl

theorem instructionOf_raw {n m : Nat} (hn : n < 65536) (hm : m < 65536) :
    instructionOf ("#" ++ toString n).toList [(toString m).toList] =
      .ok ⟨UInt16.ofNat n, UInt16.ofNat m⟩ := by
  have hname : ("#" ++ toString n).toList = '#' :: (toString n).toList := by
    rw [String.toList_append]
    rfl
  rw [hname]
  simp only [instructionOf, rawOperandOf, Text.numeral_toString hn,
    numberField_toString "operand" hm, bind, Except.bind]

end Assembly

namespace Instruction

theorem isWord_name (i : Instruction) : IsWord i.name.toList := by
  unfold name
  cases i.opcode? with
  | none =>
      have hdigits := Text.isWord_toString i.opcode.toNat
      dsimp only
      rw [String.toList_append]
      refine ⟨List.cons_ne_nil _ _, fun c hc => ?_⟩
      rcases List.mem_cons.1 hc with rfl | hc
      · decide
      · exact hdigits.plain c hc
  | some op => exact op.isWord_name

theorem isWord_fields (i : Instruction) :
    ∀ f ∈ i.fields, IsWord f.toList ∧ '#' ∉ f.toList := by
  unfold fields
  cases i.opcode? with
  | none =>
      intro f hf
      rw [List.mem_singleton.1 hf]
      exact ⟨Text.isWord_toString _, Text.hash_not_mem_toString _⟩
  | some op => exact op.isWord_operandFields i.operand

/-- A `#` with a digit behind it starts no comment. -/
theorem cutComment_number (n : Nat) {rest : List Char} (h : '#' ∉ rest) :
    Assembly.cutComment ('#' :: ((toString n).toList ++ rest)) =
      '#' :: ((toString n).toList ++ rest) := by
  have hdigits : ∀ c ∈ (toString n).toList, Text.isDigit c = true :=
    fun _ => Text.isDigit_of_mem_toString
  have hstart : Assembly.startsWithDigit ((toString n).toList ++ rest) = true := by
    have hne := (Text.isWord_toString n).ne_nil
    generalize (toString n).toList = digits at hdigits hne
    cases digits with
    | nil => exact absurd rfl hne
    | cons c digits => exact hdigits c List.mem_cons_self
  have hrest : '#' ∉ (toString n).toList ++ rest := by
    intro hmem
    rcases List.mem_append.1 hmem with hmem | hmem
    · exact Text.hash_not_mem_toString n hmem
    · exact h hmem
  rw [Assembly.cutComment_cons, if_neg (by rw [hstart]; exact fun hand => Bool.noConfusion hand.2),
    Assembly.cutComment_eq_self hrest]

/-- **A printed instruction has no comment.** -/
theorem cutComment_text (i : Instruction) :
    Assembly.cutComment i.text.toList = i.text.toList := by
  unfold text
  cases i.opcode? with
  | some op =>
      refine Assembly.cutComment_eq_self fun h => ?_
      rcases mem_spell h with h | ⟨f, hf, h⟩ | h | h | h
      · exact op.hash_not_mem_name h
      · exact (op.isWord_operandFields i.operand f hf).2 h
      · exact absurd h (by decide)
      · exact absurd h (by decide)
      · exact absurd h (by decide)
  | none =>
      dsimp only
      rw [toList_spell_cons, List.map_singleton, List.intercalate_singleton, String.toList_append,
        List.append_assoc]
      refine cutComment_number i.opcode.toNat fun h => ?_
      rcases List.mem_cons.1 h with h | h
      · exact absurd h (by decide)
      · rcases List.mem_append.1 h with h | h
        · exact Text.hash_not_mem_toString _ h
        · exact absurd (List.mem_singleton.1 h) (by decide)

/-- A known opcode is written back under its number. -/
theorem make_of_opcode? {i : Instruction} {op : Opcode} (h : i.opcode? = some op) (operand : UInt16) :
    make op operand = ⟨i.opcode, operand⟩ := by
  unfold make
  rw [opcode?_eq_some_iff.1 h]

/-- **What the assembler makes of a printed instruction.** -/
theorem spelled_text (i : Instruction) :
    (i.Unreadable → ∃ f, Assembly.spelled i.text.toList = .error f) ∧
    (¬ i.Unreadable → Assembly.spelled i.text.toList = .ok i.cleared) := by
  have hspelled : Assembly.spelled i.text.toList =
      Assembly.instructionOf i.name.toList (i.fields.map String.toList) := by
    rw [text_eq_spell]
    exact spelled_spell i.isWord_name fun f hf => (i.isWord_fields f hf).1
  rw [hspelled]
  unfold name fields Unreadable cleared
  cases hop : i.opcode? with
  | none =>
      -- an unknown opcode refuses nothing, and both its numbers are printed
      refine ⟨fun h => absurd h id, fun _ => ?_⟩
      have hraw := Assembly.instructionOf_raw (show i.opcode.toNat < 65536 from i.opcode.toNat_lt)
        (show i.operand.toNat < 65536 from i.operand.toNat_lt)
      rw [UInt16.ofNat_toNat, UInt16.ofNat_toNat] at hraw
      exact hraw
  | some op =>
      dsimp only
      rw [Assembly.instructionOf_name]
      obtain ⟨herror, hok⟩ := Assembly.operandOf_operandFields op i.operand
      refine ⟨fun h => ?_, fun h => ?_⟩
      · obtain ⟨f, hf⟩ := herror h
        rw [hf]
        exact ⟨f, rfl⟩
      · rw [hok h]
        show Except.ok (make op (if op.ignoresOperand = true then 0 else i.operand)) = _
        rw [make_of_opcode? hop]
        split <;> rfl

end Instruction

/-! ## 6. Sources -/

namespace Assembly

theorem assembleTokens_walks : Walks (fun token i => spelled token = .ok i)
    (fun p token e => ∃ f, spelled token = .error f ∧
      e = SourceFault.instruction p (String.ofList token) f) assembleTokens where
  nil _ _ := rfl
  ok h read p rest := by
    rw [assembleTokens, h]
  error := by
    rintro p token e ⟨f, h, rfl⟩ read rest
    rw [assembleTokens, h]
  total p token := by
    cases h : spelled token with
    | ok i => exact .inl ⟨i, rfl⟩
    | error f => exact .inr ⟨_, f, rfl, rfl⟩

end Assembly

namespace Source

/-- The printed instructions. -/
def lines (s : Source) : List (List Char) := s.map fun i => i.text.toList

theorem toList_text (s : Source) : s.text.toList = ['\n'].intercalate s.lines := by
  unfold text
  rw [String.toList_intercalate, List.map_map]
  rfl

theorem oneLine_lines {s : Source} {l : List Char} (h : l ∈ s.lines) : Text.OneLine l := by
  obtain ⟨i, -, rfl⟩ := List.mem_map.1 h
  rw [Instruction.text_eq_spell]
  exact Instruction.oneLine_spell i.isWord_name fun f hf => (i.isWord_fields f hf).1

theorem ne_nil_of_mem_lines {s : Source} {l : List Char} (h : l ∈ s.lines) : l ≠ [] := by
  obtain ⟨i, -, rfl⟩ := List.mem_map.1 h
  rw [Instruction.text_eq_spell]
  exact Instruction.spell_ne_nil i.isWord_name

theorem isToken_lines {s : Source} {l : List Char} (h : l ∈ s.lines) : Assembly.IsToken l := by
  obtain ⟨i, -, rfl⟩ := List.mem_map.1 h
  rw [Instruction.text_eq_spell]
  exact Instruction.isToken_spell i.isWord_name fun f hf => (i.isWord_fields f hf).1

theorem map_cutComment_lines (s : Source) : s.lines.map Assembly.cutComment = s.lines := by
  unfold lines
  rw [List.map_map]
  exact List.map_congr_left fun i _ => i.cutComment_text

/-- The tokens of a printed source are its printed instructions. -/
theorem assemble_text_eq (s : Source) :
    Assembly.assemble s.text = Assembly.assembleTokens [] 0 s.lines := by
  have hlines : Text.lines s.text.toList = s.lines := by
    rw [toList_text]
    exact Text.lines_intercalate fun l hl => ⟨oneLine_lines hl, ne_nil_of_mem_lines hl⟩
  have htokens : Assembly.tokenize s.text.toList = .ok s.lines := by
    unfold Assembly.tokenize
    rw [Assembly.stripComments_of_lines hlines, map_cutComment_lines]
    exact Assembly.tokensOf_unlines fun l hl => isToken_lines hl
  unfold Assembly.assemble Assembly.assembleChars
  rw [htokens]

/-- What the assembler makes of the lines of a source that it accepts. -/
theorem assembleTokens_lines {s : Source} (h : ∀ i ∈ s, ¬ i.Unreadable) :
    Assembly.assembleTokens [] 0 s.lines = .ok (s.map Instruction.cleared) := by
  unfold lines
  rw [Assembly.assembleTokens_walks.eq_ok_iff, List.forall₂_map_left_iff,
    List.forall₂_map_right_iff, List.forall₂_same]
  exact fun i hi => i.spelled_text.2 (h i hi)

theorem assemble_text_of_readable {s : Source} (h : ∀ i ∈ s, ¬ i.Unreadable) :
    Assembly.assemble s.text = .ok (s.map Instruction.cleared) := by
  rw [assemble_text_eq]
  exact assembleTokens_lines h

theorem assemble_text_of_unreadable {s : Source} {i : Instruction} (hi : i ∈ s)
    (h : i.Unreadable) : ∃ f, Assembly.assemble s.text = .error f := by
  obtain ⟨f, hf⟩ := i.spelled_text.1 h
  have hnone : ∀ j, Assembly.spelled i.text.toList ≠ .ok j := by
    intro j hj
    rw [hf] at hj
    cases hj
  rw [assemble_text_eq]
  exact Assembly.assembleTokens_walks.exists_error (List.mem_map_of_mem hi) hnone 0

/-- **Printing and reading back, exactly.** A printed source is refused if and only if some
instruction has an operand that is printed and refused. Otherwise it is read back as it was but for
the operands that are not printed, which are zero then. An instruction with an unknown opcode is
printed by its numbers and comes back as it was. -/
theorem assemble_text_iff (s : Source) :
    ((∃ f, Assembly.assemble s.text = .error f) ↔ ∃ i ∈ s, i.Unreadable) ∧
    (∀ r, Assembly.assemble s.text = .ok r ↔
      (∀ i ∈ s, ¬ i.Unreadable) ∧ r = s.map Instruction.cleared) ∧
    (∀ i ∈ s, 31 ≤ i.opcode.toNat → i.text = "#" ++ toString i.opcode.toNat ++ "<" ++
      toString i.operand.toNat ++ ">" ∧ i.cleared = i) := by
  refine ⟨⟨fun hf => ?_, fun ⟨i, hi, h⟩ => assemble_text_of_unreadable hi h⟩, fun r => ?_, ?_⟩
  · obtain ⟨f, hf⟩ := hf
    by_contra hnone
    have hok := assemble_text_of_readable fun i hi h => hnone ⟨i, hi, h⟩
    rw [hf] at hok
    cases hok
  · constructor
    · intro hr
      have hreadable : ∀ i ∈ s, ¬ i.Unreadable := by
        intro i hi h
        obtain ⟨f, hf⟩ := assemble_text_of_unreadable hi h
        rw [hf] at hr
        cases hr
      rw [assemble_text_of_readable hreadable] at hr
      exact ⟨hreadable, (Except.ok.inj hr).symm⟩
    · rintro ⟨hreadable, rfl⟩
      exact assemble_text_of_readable hreadable
  · intro i _ hunknown
    have hnone : i.opcode? = none := List.getElem?_eq_none hunknown
    unfold Instruction.text Instruction.cleared
    rw [hnone]
    exact ⟨rfl, rfl⟩

end Source

end WordMachine
