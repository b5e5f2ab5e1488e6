import WordMachine.Proofs.Disassembly

/-!
# What a name and its fields write

The written form of an instruction, stated as relations between texts and what they write, and the
proof that the assembler reads exactly these:

* `Numeral`: digits, possibly after a `+`, and their value;
* `HasFields`: words with blanks between them;
* `OperandText`: the fields of each kind of operand. A field writes the number that the operand is
  decoded to, so a number that does not fit into its bits is written by no field;
* `Means`: a name with its fields, and the instruction.

Each of them has one theorem, in the form "is read as" if and only if "writes"
(`numeral_eq_ok_iff`, `fields_eq_iff`, `operandOf_eq_ok_iff`, `instructionOf_eq_ok_iff`).
-/

namespace WordMachine

/-! ## 1. Numerals -/

namespace Text

/-- **A numeral and its value**: at least one digit, possibly after a `+`. -/
inductive Numeral : List Char → Nat → Prop where
  | digits {digits : List Char} (hne : digits ≠ []) (h : ∀ c ∈ digits, isDigit c = true) :
      Numeral digits (Nat.ofDigitChars 10 digits 0)
  | signed {digits : List Char} (hne : digits ≠ []) (h : ∀ c ∈ digits, isDigit c = true) :
      Numeral ('+' :: digits) (Nat.ofDigitChars 10 digits 0)

theorem readDigits_eq_ok_iff {limit value n : Nat} {digits : List Char} (hvalue : value < limit) :
    readDigits limit value digits = .ok n ↔
      (∀ c ∈ digits, isDigit c = true) ∧ Nat.ofDigitChars 10 digits value = n ∧ n < limit := by
  constructor
  · intro h
    induction digits generalizing value with
    | nil =>
        cases h
        exact ⟨by simp, by simp, hvalue⟩
    | cons c digits ih =>
        unfold readDigits at h
        cases hc : isDigit c with
        | false =>
            simp [digitValue?, hc] at h
        | true =>
            simp only [digitValue?, hc, if_true] at h
            by_cases hlt : value * 10 + (c.toNat - '0'.toNat) < limit
            · rw [if_pos hlt] at h
              obtain ⟨hdigits, hn, hlimit⟩ := ih hlt h
              refine ⟨?_, ?_, hlimit⟩
              · intro d hd
                rcases List.mem_cons.1 hd with rfl | hd
                · exact hc
                · exact hdigits d hd
              · rw [Nat.ofDigitChars_cons, Nat.mul_comm, hn]
            · rw [if_neg hlt] at h
              cases h
  · rintro ⟨hdigits, rfl, hlimit⟩
    exact readDigits_eq_ok hdigits hlimit

/-- **A numeral below the limit is read to its value**, and nothing else is read. -/
theorem numeral_eq_ok_iff {limit n : Nat} (hlimit : 0 < limit) {text : List Char} :
    numeral limit text = .ok n ↔ Numeral text n ∧ n < limit := by
  unfold numeral
  split
  · simp only [reduceCtorEq, false_iff, not_and]
    intro h
    cases h with
    | digits hne => exact absurd rfl hne
  · simp only [reduceCtorEq, false_iff, not_and]
    intro h
    cases h with
    | digits _ h => exact absurd (h '+' List.mem_cons_self) (by decide)
    | signed hne => exact absurd rfl hne
  · rename_i digits hne
    have hdigits : digits ≠ [] := by
      rintro rfl
      exact hne rfl
    rw [readDigits_eq_ok_iff hlimit]
    constructor
    · rintro ⟨h, rfl, hlt⟩
      exact ⟨.signed hdigits h, hlt⟩
    · rintro ⟨h, hlt⟩
      cases h with
      | digits _ h => exact absurd (h '+' List.mem_cons_self) (by decide)
      | signed _ h => exact ⟨h, rfl, hlt⟩
  · rename_i hempty _ hplus
    rw [readDigits_eq_ok_iff hlimit]
    constructor
    · rintro ⟨h, rfl, hlt⟩
      exact ⟨.digits hempty h, hlt⟩
    · rintro ⟨h, hlt⟩
      cases h with
      | digits _ h => exact ⟨h, rfl, hlt⟩
      | signed => exact absurd rfl (hplus _)

theorem Numeral.isWord {text : List Char} {n : Nat} (h : Numeral text n) : IsWord text := by
  cases h with
  | digits hne h => exact ⟨hne, fun c hc => plain_of_isDigit (h c hc)⟩
  | signed hne h =>
      refine ⟨List.cons_ne_nil _ _, fun c hc => ?_⟩
      rcases List.mem_cons.1 hc with rfl | hc
      · decide
      · exact plain_of_isDigit (h c hc)

/-! ## 2. Fields -/

/-- Blanks and nothing else. -/
def Blank (text : List Char) : Prop := ∀ c ∈ text, isBlank c = true

theorem Blank.nil : Blank [] := fun _ hc => absurd hc List.not_mem_nil

theorem Blank.cons {c : Char} (hc : isBlank c = true) {text : List Char} (h : Blank text) :
    Blank (c :: text) := by
  intro d hd
  rcases List.mem_cons.1 hd with rfl | hd
  · exact hc
  · exact h d hd

/-- A word can end here: nothing follows, or a blank. -/
def Parted (rest : List Char) : Prop := ∀ c ∈ rest.head?, isBlank c = true

/-- **The fields of a text**: words with blanks between them, and maybe around them. -/
inductive HasFields : List Char → List (List Char) → Prop where
  | blanks {text : List Char} (h : Blank text) : HasFields text []
  | word {lead word rest : List Char} {fields : List (List Char)} (hlead : Blank lead)
      (hne : word ≠ []) (hword : ∀ c ∈ word, isBlank c = false) (hrest : Parted rest)
      (h : HasFields rest fields) : HasFields (lead ++ (word ++ rest)) (word :: fields)

theorem HasFields.blank_cons {c : Char} (hc : isBlank c = true) {text : List Char}
    {fields : List (List Char)} (h : HasFields text fields) : HasFields (c :: text) fields := by
  cases h with
  | blanks h => exact .blanks (h.cons hc)
  | word hlead hne hword hrest h => exact .word (hlead.cons hc) hne hword hrest h

theorem HasFields.cons {c : Char} (hc : isBlank c = false) {text : List Char}
    {fields : List (List Char)} (h : HasFields text fields) :
    ∃ fields', HasFields (c :: text) fields' := by
  by_cases hparted : Parted text
  · have hword : ∀ d ∈ [c], isBlank d = false := by simpa using hc
    exact ⟨[c] :: fields, .word .nil (List.cons_ne_nil c []) hword hparted h⟩
  · -- no word can end before `text`, so its first word goes on to the left
    cases h with
    | blanks h =>
        exact absurd (fun d hd => h d (List.mem_of_mem_head? hd)) hparted
    | @word lead word rest fields hlead hne hword hrest h =>
        cases lead with
        | cons d lead =>
            refine absurd (fun e he => ?_) hparted
            cases he
            exact hlead d List.mem_cons_self
        | nil =>
            have hword' : ∀ d ∈ c :: word, isBlank d = false := by
              intro d hd
              rcases List.mem_cons.1 hd with rfl | hd
              · exact hc
              · exact hword d hd
            exact ⟨_, .word .nil (List.cons_ne_nil c word) hword' hrest h⟩

theorem exists_hasFields (text : List Char) : ∃ fields, HasFields text fields := by
  induction text with
  | nil => exact ⟨[], .blanks .nil⟩
  | cons c text ih =>
      obtain ⟨fields, h⟩ := ih
      cases hc : isBlank c with
      | true => exact ⟨fields, h.blank_cons hc⟩
      | false => exact h.cons hc

theorem Fields.close_nil (finished : List (List Char)) :
    Fields.close ⟨finished, []⟩ = ⟨finished, []⟩ := rfl

theorem Fields.close_close (f : Fields) : f.close.close = f.close := by
  unfold Fields.close
  cases hf : f.current.isEmpty with
  | true => simp [hf]
  | false => simp

theorem Fields.read_blank {c : Char} (hc : isBlank c = true) (f : Fields) : f.read c = f.close := by
  unfold Fields.read
  rw [if_pos hc]

theorem foldl_read_blanks {text : List Char} (h : Blank text) (finished : List (List Char)) :
    text.foldl Fields.read ⟨finished, []⟩ = ⟨finished, []⟩ := by
  induction text with
  | nil => rfl
  | cons c text ih =>
      rw [List.foldl_cons, Fields.read_blank (h c List.mem_cons_self), Fields.close_nil,
        ih fun d hd => h d (List.mem_cons_of_mem _ hd)]

/-- A word that can end does end. -/
theorem close_foldl_parted {word rest : List Char} (hne : word ≠ []) (hrest : Parted rest)
    (finished : List (List Char)) :
    (rest.foldl Fields.read ⟨finished, word.reverse⟩).close =
      (rest.foldl Fields.read ⟨word :: finished, []⟩).close := by
  cases rest with
  | nil => exact Fields.close_word hne finished
  | cons c rest =>
      have hc : isBlank c = true := hrest c rfl
      rw [List.foldl_cons, List.foldl_cons, Fields.read_blank hc, Fields.read_blank hc,
        Fields.close_word hne, Fields.close_nil]

theorem HasFields.close_foldl {text : List Char} {fields : List (List Char)}
    (h : HasFields text fields) (finished : List (List Char)) :
    (text.foldl Fields.read ⟨finished, []⟩).close = ⟨fields.reverse ++ finished, []⟩ := by
  induction h generalizing finished with
  | blanks h =>
      rw [foldl_read_blanks h]
      rfl
  | @word lead word rest fields hlead hne hword hrest _ ih =>
      rw [List.foldl_append, foldl_read_blanks hlead, List.foldl_append, foldl_read_word hword,
        List.append_nil, close_foldl_parted hne hrest, ih]
      simp

/-- **The fields of a text are the words between its blanks.** -/
theorem fields_eq_iff {text : List Char} {words : List (List Char)} :
    fields text = words ↔ HasFields text words := by
  have hfields : ∀ {words'}, HasFields text words' → fields text = words' := by
    intro words' h
    unfold fields
    rw [h.close_foldl []]
    simp
  constructor
  · rintro rfl
    obtain ⟨words', h⟩ := exists_hasFields text
    rw [hfields h]
    exact h
  · exact hfields

end Text

/-! ## 3. Operands -/

namespace Assembly

/-- **The fields of an operand and the operand that they write.** A number stands for what the
operand is decoded to, and so has to be in the range of its field. -/
inductive OperandText : OperandKind → List (List Char) → UInt16 → Prop where
  | none : OperandText .none [] 0
  | memory {region : Region} {offset : List Char} {o : Fin 32768} {raw : UInt16}
      (ho : Text.Numeral offset o.val) (hraw : MemoryOperand.ofBits raw = ⟨region, o⟩) :
      OperandText .memory [region.name.toList, offset] raw
  | call {inputs outputs source : List Char} {i o : Fin 16} {s : Fin 256} {raw : UInt16}
      (hi : Text.Numeral inputs i.val) (ho : Text.Numeral outputs o.val)
      (hs : Text.Numeral source s.val) (hraw : CallOperand.ofBits raw = ⟨i, o, s⟩) :
      OperandText .call [inputs, outputs, source] raw
  | loopN {count inputs outputs source : List Char} {n i o s : Fin 16} {raw : UInt16}
      (hn : Text.Numeral count n.val) (hi : Text.Numeral inputs i.val)
      (ho : Text.Numeral outputs o.val) (hs : Text.Numeral source s.val)
      (hraw : LoopOperand.ofBits raw = ⟨n, i, o, s⟩) :
      OperandText .loopN [count, inputs, outputs, source] raw
  | doWhile {inputs source : List Char} {i s : Fin 256} {raw : UInt16}
      (hi : Text.Numeral inputs i.val) (hs : Text.Numeral source s.val)
      (hraw : DoWhileOperand.ofBits raw = ⟨i, s⟩) : OperandText .doWhile [inputs, source] raw
  | context {column row : List Char} {c r : Fin 256} {raw : UInt16}
      (hc : Text.Numeral column c.val) (hr : Text.Numeral row r.val)
      (hraw : ContextCell.ofBits raw = ⟨c, r⟩) : OperandText .context [column, row] raw
  | debugMode {mode : List Char} {m : DebugMode} {raw : UInt16}
      (hmode : (mode, m) ∈ [("state".toList, .state), (['0'], .state), ("stack".toList, .stack),
        (['1'], .stack)])
      (hraw : DebugMode.ofBits? raw = some m) : OperandText .debugMode [mode] raw
  /-- Without a field there are as few inputs as there may be. -/
  | least {raw : UInt16} : OperandText (.inputs raw.toNat) [] raw
  | inputs {least : Nat} {count : List Char} {raw : UInt16}
      (hn : Text.Numeral count raw.toNat) (hle : least ≤ raw.toNat) :
      OperandText (.inputs least) [count] raw

theorem bind_eq_ok_iff {ε α β : Type} {x : Except ε α} {f : α → Except ε β} {b : β} :
    (x >>= f) = .ok b ↔ ∃ a, x = .ok a ∧ f a = .ok b := by
  cases x with
  | error e =>
      refine ⟨fun h => ?_, ?_⟩
      · cases h
      · rintro ⟨a, h, -⟩
        cases h
  | ok a =>
      refine ⟨fun h => ⟨a, rfl, h⟩, ?_⟩
      rintro ⟨a', h, hf⟩
      cases h
      exact hf

theorem toNat_ofNat_of_lt {n : Nat} (h : n < 65536) : (UInt16.ofNat n).toNat = n := by
  rw [UInt16.toNat_ofNat', Nat.mod_eq_of_lt h]

theorem numberField_eq_ok_iff {limit n : Nat} (hlimit : 0 < limit) {what : String}
    {text : List Char} :
    numberField limit what text = .ok n ↔ Text.Numeral text n ∧ n < limit := by
  rw [← Text.numeral_eq_ok_iff hlimit]
  unfold numberField
  cases Text.numeral limit text <;> simp

theorem byteField_eq_ok_iff {what : String} {text : List Char} {b : Fin 256} :
    byteField what text = .ok b ↔ Text.Numeral text b.val := by
  have hbyte : byteField what text = .ok b ↔ numberField 256 what text = .ok b.val := by
    unfold byteField
    cases hnumber : numberField 256 what text with
    | error f => simp
    | ok n =>
        have hlt := ((numberField_eq_ok_iff (by decide)).1 hnumber).2
        simp only [Except.ok.injEq, Fin.ext_iff, val_lowByte_of_lt hlt]
  rw [hbyte, numberField_eq_ok_iff (by decide)]
  exact and_iff_left b.isLt

theorem val_lowByte_nibble (x : Fin 16) : (lowByte x.val).val = x.val :=
  val_lowByte_of_lt (Nat.lt_trans x.isLt (by decide))

/-- A field of four bits is read as a byte first. -/
theorem byteField_nibble (what : String) {text : List Char} {x : Fin 16}
    (h : Text.Numeral text x.val) : byteField what text = .ok (lowByte x.val) :=
  byteField_eq_ok_iff.2 (by rw [val_lowByte_nibble]; exact h)

theorem regionNamed?_eq_some_iff {name : List Char} {r : Region} :
    regionNamed? name = some r ↔ name = r.name.toList := by
  refine ⟨fun h => ?_, fun h => h ▸ regionNamed?_name r⟩
  unfold regionNamed? at h
  split at h
  · cases h
    assumption
  split at h
  · cases h
    assumption
  · cases h

theorem debugModeNamed?_eq_some_iff {mode : List Char} {m : DebugMode} :
    debugModeNamed? mode = some m ↔ (mode, m) ∈ [("state".toList, DebugMode.state), (['0'], .state),
      ("stack".toList, .stack), (['1'], .stack)] := by
  constructor
  · intro h
    unfold debugModeNamed? at h
    split at h
    · rename_i hname
      cases h
      rcases hname with rfl | rfl <;> simp
    split at h
    · rename_i hname
      cases h
      rcases hname with rfl | rfl <;> simp
    · cases h
  · intro h
    simp only [List.mem_cons, List.not_mem_nil, or_false, Prod.mk.injEq] at h
    rcases h with ⟨rfl, rfl⟩ | ⟨rfl, rfl⟩ | ⟨rfl, rfl⟩ | ⟨rfl, rfl⟩ <;> decide

section Layouts

variable {op : Opcode} {fields : List (List Char)} {raw : UInt16}

theorem operandOf_none_iff (h : op.operandKind = .none) :
    operandOf op fields = .ok raw ↔ OperandText .none fields raw := by
  constructor
  · intro hread
    rcases fields with _ | ⟨field, more⟩
    · simp only [operandOf, h, Except.ok.injEq] at hread
      subst hread
      exact .none
    · simp [operandOf, h] at hread
  · intro htext
    cases htext
    simp [operandOf, h]

theorem operandOf_memory_iff (h : op.operandKind = .memory) :
    operandOf op fields = .ok raw ↔ OperandText .memory fields raw := by
  constructor
  · intro hread
    rcases fields with _ | ⟨region, _ | ⟨offset, _ | ⟨extra, more⟩⟩⟩
    · simp [operandOf, h] at hread
    · simp [operandOf, h] at hread
    · simp only [operandOf, h] at hread
      obtain ⟨o, hoffset, hread⟩ := bind_eq_ok_iff.1 hread
      have ho := ((numberField_eq_ok_iff (by decide)).1 hoffset).1
      by_cases hle : o ≤ MemoryOperand.maxOffset
      · rw [if_pos hle] at hread
        cases hregion : regionNamed? region with
        | none =>
            rw [hregion] at hread
            cases hread
        | some r =>
            rw [hregion] at hread
            cases hread
            have hplace : MemoryOperand.ofOffset r o = ⟨r, ⟨o, Nat.lt_succ_of_le hle⟩⟩ :=
              ofOffset_val r ⟨o, Nat.lt_succ_of_le hle⟩
            rw [regionNamed?_eq_some_iff.1 hregion, hplace]
            exact .memory (o := ⟨o, _⟩) ho (MemoryOperand.ofBits_toBits _)
      · rw [if_neg hle] at hread
        cases hread
    · simp [operandOf, h] at hread
  · intro htext
    cases htext with
    | @memory region offset o _ ho hraw =>
        have hlt : o.val < 65536 := Nat.lt_trans o.isLt (by decide)
        have hle : o.val ≤ MemoryOperand.maxOffset := Nat.le_of_lt_succ o.isLt
        have hnumber : numberField 65536 "offset" offset = .ok o.val :=
          (numberField_eq_ok_iff (by decide)).2 ⟨ho, hlt⟩
        simp only [operandOf, h, hnumber, bind, Except.bind, if_pos hle, regionNamed?_name,
          ofOffset_val, ← hraw, MemoryOperand.toBits_ofBits]

theorem make?_call_iff {i o : Nat} {s : Fin 256} {c : CallOperand} :
    CallOperand.make? i o s = some c ↔ c.inputs.val = i ∧ c.outputs.val = o ∧ c.source = s := by
  unfold CallOperand.make?
  constructor
  · intro hmake
    split at hmake
    · cases hmake
      exact ⟨rfl, rfl, rfl⟩
    · cases hmake
  · rintro ⟨rfl, rfl, rfl⟩
    rw [dif_pos ⟨c.inputs.isLt, c.outputs.isLt⟩]

theorem make?_loop_iff {n i o s : Nat} {l : LoopOperand} :
    LoopOperand.make? n i o s = some l ↔
      l.count.val = n ∧ l.inputs.val = i ∧ l.outputs.val = o ∧ l.source.val = s := by
  unfold LoopOperand.make?
  constructor
  · intro hmake
    split at hmake
    · cases hmake
      exact ⟨rfl, rfl, rfl, rfl⟩
    · cases hmake
  · rintro ⟨rfl, rfl, rfl, rfl⟩
    rw [dif_pos ⟨l.count.isLt, l.inputs.isLt, l.outputs.isLt, l.source.isLt⟩]

theorem operandOf_call_iff (h : op.operandKind = .call) :
    operandOf op fields = .ok raw ↔ OperandText .call fields raw := by
  constructor
  · intro hread
    rcases fields with _ | ⟨inputs, _ | ⟨outputs, _ | ⟨source, _ | ⟨extra, more⟩⟩⟩⟩
    · simp [operandOf, h] at hread
    · simp [operandOf, h] at hread
    · simp [operandOf, h] at hread
    · simp only [operandOf, h] at hread
      obtain ⟨i, hi, hread⟩ := bind_eq_ok_iff.1 hread
      obtain ⟨o, ho, hread⟩ := bind_eq_ok_iff.1 hread
      obtain ⟨s, hs, hread⟩ := bind_eq_ok_iff.1 hread
      rw [byteField_eq_ok_iff] at hi ho hs
      cases hmake : CallOperand.make? i.val o.val s with
      | none =>
          rw [hmake] at hread
          cases hread
      | some c =>
          rw [hmake] at hread
          cases hread
          obtain ⟨hinputs, houtputs, rfl⟩ := make?_call_iff.1 hmake
          rw [← hinputs] at hi
          rw [← houtputs] at ho
          exact .call hi ho hs (CallOperand.ofBits_toBits c)
    · simp [operandOf, h] at hread
  · intro htext
    cases htext with
    | @call inputs outputs source i o s _ hi ho hs hraw =>
        have hsource : byteField "source" source = .ok s := byteField_eq_ok_iff.2 hs
        have hmake : CallOperand.make? i.val o.val s = some ⟨i, o, s⟩ :=
          make?_call_iff.2 ⟨rfl, rfl, rfl⟩
        simp only [operandOf, h, bind, Except.bind, byteField_nibble "inputs" hi,
          byteField_nibble "outputs" ho, hsource, val_lowByte_nibble, hmake, ← hraw,
          CallOperand.toBits_ofBits]

theorem operandOf_loopN_iff (h : op.operandKind = .loopN) :
    operandOf op fields = .ok raw ↔ OperandText .loopN fields raw := by
  constructor
  · intro hread
    rcases fields with
      _ | ⟨count, _ | ⟨inputs, _ | ⟨outputs, _ | ⟨source, _ | ⟨extra, more⟩⟩⟩⟩⟩
    · simp [operandOf, h] at hread
    · simp [operandOf, h] at hread
    · simp [operandOf, h] at hread
    · simp [operandOf, h] at hread
    · simp only [operandOf, h] at hread
      obtain ⟨n, hn, hread⟩ := bind_eq_ok_iff.1 hread
      obtain ⟨i, hi, hread⟩ := bind_eq_ok_iff.1 hread
      obtain ⟨o, ho, hread⟩ := bind_eq_ok_iff.1 hread
      obtain ⟨s, hs, hread⟩ := bind_eq_ok_iff.1 hread
      rw [byteField_eq_ok_iff] at hn hi ho hs
      cases hmake : LoopOperand.make? n.val i.val o.val s.val with
      | none =>
          rw [hmake] at hread
          cases hread
      | some l =>
          rw [hmake] at hread
          cases hread
          obtain ⟨hcount, hinputs, houtputs, hsource⟩ := make?_loop_iff.1 hmake
          rw [← hcount] at hn
          rw [← hinputs] at hi
          rw [← houtputs] at ho
          rw [← hsource] at hs
          exact .loopN hn hi ho hs (LoopOperand.ofBits_toBits l)
    · simp [operandOf, h] at hread
  · intro htext
    cases htext with
    | @loopN count inputs outputs source n i o s _ hn hi ho hs hraw =>
        have hmake : LoopOperand.make? n.val i.val o.val s.val = some ⟨n, i, o, s⟩ :=
          make?_loop_iff.2 ⟨rfl, rfl, rfl, rfl⟩
        simp only [operandOf, h, bind, Except.bind, byteField_nibble "n" hn,
          byteField_nibble "inputs" hi, byteField_nibble "outputs" ho, byteField_nibble "source" hs,
          val_lowByte_nibble, hmake, ← hraw, LoopOperand.toBits_ofBits]

theorem operandOf_doWhile_iff (h : op.operandKind = .doWhile) :
    operandOf op fields = .ok raw ↔ OperandText .doWhile fields raw := by
  constructor
  · intro hread
    rcases fields with _ | ⟨inputs, _ | ⟨source, _ | ⟨extra, more⟩⟩⟩
    · simp [operandOf, h] at hread
    · simp [operandOf, h] at hread
    · simp only [operandOf, h] at hread
      obtain ⟨i, hi, hread⟩ := bind_eq_ok_iff.1 hread
      obtain ⟨s, hs, hread⟩ := bind_eq_ok_iff.1 hread
      rw [byteField_eq_ok_iff] at hi hs
      cases hread
      exact .doWhile hi hs (DoWhileOperand.ofBits_toBits _)
    · simp [operandOf, h] at hread
  · intro htext
    cases htext with
    | @doWhile inputs source i s _ hi hs hraw =>
        have hinputs : byteField "inputs" inputs = .ok i := byteField_eq_ok_iff.2 hi
        have hsource : byteField "source" source = .ok s := byteField_eq_ok_iff.2 hs
        simp only [operandOf, h, bind, Except.bind, hinputs, hsource, ← hraw,
          DoWhileOperand.toBits_ofBits]

theorem operandOf_context_iff (h : op.operandKind = .context) :
    operandOf op fields = .ok raw ↔ OperandText .context fields raw := by
  constructor
  · intro hread
    rcases fields with _ | ⟨column, _ | ⟨row, _ | ⟨extra, more⟩⟩⟩
    · simp [operandOf, h] at hread
    · simp [operandOf, h] at hread
    · simp only [operandOf, h] at hread
      obtain ⟨c, hc, hread⟩ := bind_eq_ok_iff.1 hread
      obtain ⟨r, hr, hread⟩ := bind_eq_ok_iff.1 hread
      rw [byteField_eq_ok_iff] at hc hr
      cases hread
      exact .context hc hr (ContextCell.ofBits_toBits _)
    · simp [operandOf, h] at hread
  · intro htext
    cases htext with
    | @context column row c r _ hc hr hraw =>
        have hcolumn : byteField "column" column = .ok c := byteField_eq_ok_iff.2 hc
        have hrow : byteField "row" row = .ok r := byteField_eq_ok_iff.2 hr
        simp only [operandOf, h, bind, Except.bind, hcolumn, hrow, ← hraw,
          ContextCell.toBits_ofBits]

theorem operandOf_debugMode_iff (h : op.operandKind = .debugMode) :
    operandOf op fields = .ok raw ↔ OperandText .debugMode fields raw := by
  constructor
  · intro hread
    rcases fields with _ | ⟨mode, _ | ⟨extra, more⟩⟩
    · simp [operandOf, h] at hread
    · simp only [operandOf, h] at hread
      cases hmode : debugModeNamed? mode with
      | none =>
          rw [hmode] at hread
          cases hread
      | some m =>
          rw [hmode] at hread
          cases hread
          exact .debugMode (debugModeNamed?_eq_some_iff.1 hmode) (DebugMode.ofBits?_toBits m)
    · simp [operandOf, h] at hread
  · intro htext
    cases htext with
    | debugMode hmode hraw =>
        simp only [operandOf, h, debugModeNamed?_eq_some_iff.2 hmode, DebugMode.toBits_of_ofBits? hraw]

theorem operandOf_inputs_iff {least : Nat} (hleast : least < 65536)
    (h : op.operandKind = .inputs least) :
    operandOf op fields = .ok raw ↔ OperandText (.inputs least) fields raw := by
  constructor
  · intro hread
    rcases fields with _ | ⟨count, _ | ⟨extra, more⟩⟩
    · simp only [operandOf, h, Except.ok.injEq] at hread
      have htext : OperandText (.inputs (UInt16.ofNat least).toNat) [] (UInt16.ofNat least) := .least
      rw [toNat_ofNat_of_lt hleast, hread] at htext
      exact htext
    · simp only [operandOf, h] at hread
      obtain ⟨n, hnumber, hread⟩ := bind_eq_ok_iff.1 hread
      obtain ⟨hn, hlt⟩ := (numberField_eq_ok_iff (by decide)).1 hnumber
      by_cases hle : least ≤ n
      · rw [if_pos hle] at hread
        cases hread
        have hvalue := toNat_ofNat_of_lt hlt
        exact .inputs (by rw [hvalue]; exact hn) (by rw [hvalue]; exact hle)
      · rw [if_neg hle] at hread
        cases hread
    · simp [operandOf, h] at hread
  · intro htext
    cases htext with
    | least => simp only [operandOf, h, UInt16.ofNat_toNat]
    | @inputs _ count _ hn hle =>
        have hnumber : numberField 65536 "inputs" count = .ok raw.toNat :=
          (numberField_eq_ok_iff (by decide)).2 ⟨hn, raw.toNat_lt⟩
        simp only [operandOf, h, bind, Except.bind, hnumber, if_pos hle, UInt16.ofNat_toNat]

theorem least_le_two {least : Nat} (h : op.operandKind = .inputs least) : least ≤ 2 := by
  cases op with
  | apply f =>
      simp only [Opcode.operandKind] at h
      split at h
      · cases h
        exact Nat.le_refl 2
      · cases h
  | ensure =>
      cases h
      decide
  | _ => cases h

/-- **The operand of an opcode is read from the fields that write it**, and from no others. -/
theorem operandOf_eq_ok_iff :
    operandOf op fields = .ok raw ↔ OperandText op.operandKind fields raw := by
  cases hkind : op.operandKind with
  | none => exact operandOf_none_iff hkind
  | memory => exact operandOf_memory_iff hkind
  | call => exact operandOf_call_iff hkind
  | loopN => exact operandOf_loopN_iff hkind
  | doWhile => exact operandOf_doWhile_iff hkind
  | context => exact operandOf_context_iff hkind
  | debugMode => exact operandOf_debugMode_iff hkind
  | inputs least =>
      have hleast : least ≤ 2 := least_le_two hkind
      exact operandOf_inputs_iff (by omega) hkind

end Layouts

theorem OperandText.isWord {kind : OperandKind} {fields : List (List Char)} {raw : UInt16}
    (h : OperandText kind fields raw) : ∀ field ∈ fields, IsWord field := by
  intro field hfield
  cases h with
  | none => cases hfield
  | least => cases hfield
  | @memory region _ _ _ ho =>
      simp only [List.mem_cons, List.not_mem_nil, or_false] at hfield
      rcases hfield with rfl | rfl
      · cases region <;> exact .of_all (by decide) (by decide)
      · exact ho.isWord
  | call hi ho hs =>
      simp only [List.mem_cons, List.not_mem_nil, or_false] at hfield
      rcases hfield with rfl | rfl | rfl
      exacts [hi.isWord, ho.isWord, hs.isWord]
  | loopN hn hi ho hs =>
      simp only [List.mem_cons, List.not_mem_nil, or_false] at hfield
      rcases hfield with rfl | rfl | rfl | rfl
      exacts [hn.isWord, hi.isWord, ho.isWord, hs.isWord]
  | doWhile hi hs =>
      simp only [List.mem_cons, List.not_mem_nil, or_false] at hfield
      rcases hfield with rfl | rfl
      exacts [hi.isWord, hs.isWord]
  | context hc hr =>
      simp only [List.mem_cons, List.not_mem_nil, or_false] at hfield
      rcases hfield with rfl | rfl
      exacts [hc.isWord, hr.isWord]
  | debugMode hmode =>
      rw [List.mem_singleton.1 hfield]
      simp only [List.mem_cons, List.not_mem_nil, or_false, Prod.mk.injEq] at hmode
      rcases hmode with ⟨rfl, -⟩ | ⟨rfl, -⟩ | ⟨rfl, -⟩ | ⟨rfl, -⟩ <;>
        exact .of_all (by decide) (by decide)
  | inputs hn =>
      rw [List.mem_singleton.1 hfield]
      exact hn.isWord

/-! ## 4. Instructions -/

/-- **A name, its fields, and the instruction that they write.** The name is `#` and the number of
the opcode, or the name of an opcode. -/
inductive Means : List Char → List (List Char) → Instruction → Prop where
  | number {opcode : List Char} {n : UInt16} (hn : Text.Numeral opcode n.toNat) :
      Means ('#' :: opcode) [] ⟨n, 0⟩
  | numbers {opcode operand : List Char} {n m : UInt16} (hn : Text.Numeral opcode n.toNat)
      (hm : Text.Numeral operand m.toNat) : Means ('#' :: opcode) [operand] ⟨n, m⟩
  | named {op : Opcode} {fields : List (List Char)} {raw : UInt16}
      (h : OperandText op.operandKind fields raw) :
      Means op.name.toList fields (Instruction.make op raw)

theorem Means.isWord {name : List Char} {fields : List (List Char)} {i : Instruction}
    (h : Means name fields i) : IsWord name ∧ ∀ field ∈ fields, IsWord field := by
  have hhash : ∀ {opcode : List Char}, IsWord opcode → IsWord ('#' :: opcode) := by
    intro opcode hopcode
    refine ⟨List.cons_ne_nil _ _, fun c hc => ?_⟩
    rcases List.mem_cons.1 hc with rfl | hc
    · decide
    · exact hopcode.plain c hc
  cases h with
  | number hn => exact ⟨hhash hn.isWord, by simp⟩
  | numbers hn hm => exact ⟨hhash hn.isWord, by simpa using hm.isWord⟩
  | @named op _ _ h => exact ⟨op.isWord_name, h.isWord⟩

theorem rawOperandOf_eq_ok_iff {fields : List (List Char)} {m : UInt16} :
    rawOperandOf fields = .ok m ↔
      (fields = [] ∧ m = 0) ∨ ∃ operand, fields = [operand] ∧ Text.Numeral operand m.toNat := by
  rcases fields with _ | ⟨operand, _ | ⟨extra, more⟩⟩
  · simp [rawOperandOf, eq_comm]
  · have hread : rawOperandOf [operand] = .ok m ↔
        numberField 65536 "operand" operand = .ok m.toNat := by
      unfold rawOperandOf
      rw [bind_eq_ok_iff]
      constructor
      · rintro ⟨n, hnumber, hm⟩
        cases hm
        rw [hnumber, toNat_ofNat_of_lt ((numberField_eq_ok_iff (by decide)).1 hnumber).2]
      · intro hnumber
        exact ⟨m.toNat, hnumber, by rw [UInt16.ofNat_toNat]⟩
    rw [hread, numberField_eq_ok_iff (by decide), and_iff_left m.toNat_lt]
    simp
  · simp [rawOperandOf]

theorem instructionOf_hash_iff {opcode : List Char} {fields : List (List Char)} {i : Instruction} :
    instructionOf ('#' :: opcode) fields = .ok i ↔
      Text.Numeral opcode i.opcode.toNat ∧ rawOperandOf fields = .ok i.operand := by
  constructor
  · intro hread
    simp only [instructionOf] at hread
    cases hnumeral : Text.numeral 65536 opcode with
    | error f =>
        rw [hnumeral] at hread
        cases hread
    | ok n =>
        rw [hnumeral] at hread
        obtain ⟨hn, hlt⟩ := (Text.numeral_eq_ok_iff (by decide)).1 hnumeral
        obtain ⟨m, hm, hi⟩ := bind_eq_ok_iff.1 hread
        cases hi
        exact ⟨by rw [toNat_ofNat_of_lt hlt]; exact hn, hm⟩
  · rintro ⟨hn, hm⟩
    have hnumeral := (Text.numeral_eq_ok_iff (by decide : 0 < 65536)).2 ⟨hn, i.opcode.toNat_lt⟩
    simp only [instructionOf, hnumeral, hm, bind, Except.bind, UInt16.ofNat_toNat]

theorem ofName?_eq_some_iff {name : List Char} {op : Opcode} :
    Opcode.ofName? (String.ofList name) = some op ↔ name = op.name.toList := by
  constructor
  · intro h
    have hname : op.name = String.ofList name := by simpa using List.find?_some h
    rw [hname, String.toList_ofList]
  · rintro rfl
    rw [String.ofList_toList, Opcode.ofName?_name]

/-- **A name and its fields are read as the instruction that they write**, and as no other. -/
theorem instructionOf_eq_ok_iff {name : List Char} {fields : List (List Char)} {i : Instruction} :
    instructionOf name fields = .ok i ↔ Means name fields i := by
  constructor
  · intro hread
    by_cases hhash : ∃ opcode, name = '#' :: opcode
    · obtain ⟨opcode, rfl⟩ := hhash
      obtain ⟨hn, hoperand⟩ := instructionOf_hash_iff.1 hread
      obtain ⟨n, m⟩ := i
      rcases rawOperandOf_eq_ok_iff.1 hoperand with ⟨rfl, hm⟩ | ⟨operand, rfl, hm⟩
      · dsimp only at hm
        subst hm
        exact .number hn
      · exact .numbers hn hm
    · unfold instructionOf at hread
      split at hread
      · exact absurd ⟨_, rfl⟩ hhash
      · cases hop : Opcode.ofName? (String.ofList name) with
        | none =>
            rw [hop] at hread
            cases hread
        | some op =>
            rw [hop] at hread
            obtain ⟨raw, hraw, hi⟩ := bind_eq_ok_iff.1 hread
            cases hi
            rw [ofName?_eq_some_iff.1 hop]
            exact .named (operandOf_eq_ok_iff.1 hraw)
  · intro h
    cases h with
    | number hn => exact instructionOf_hash_iff.2 ⟨hn, rfl⟩
    | numbers hn hm =>
        exact instructionOf_hash_iff.2 ⟨hn, rawOperandOf_eq_ok_iff.2 (.inr ⟨_, rfl, hm⟩)⟩
    | named h =>
        rw [instructionOf_name, operandOf_eq_ok_iff.2 h]
        rfl

end Assembly

end WordMachine
