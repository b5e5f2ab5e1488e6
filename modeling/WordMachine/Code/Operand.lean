/-!
# Operands

An operand is sixteen bits. Each layout below cuts them into fields, lowest bits first, and puts
them together again; `ofBits` and `toBits` of one layout are inverse to each other.

| Layout | bits |
|---|---|
| memory | region 0, offset 1–15 |
| call | inputs 0–3, outputs 4–7, source 8–15 |
| loop | inputs 0–3, outputs 4–7, source 8–11, count 12–15 |
| do-while | inputs 0–7, source 8–15 |
| context cell | row 0–7, column 8–15 |
| debug mode | the whole operand, zero or one |
-/

namespace WordMachine

/-- The low eight bits of a number. -/
def lowByte (n : Nat) : Fin 256 := Fin.ofNat 256 n

@[simp] theorem val_lowByte (n : Nat) : (lowByte n).val = n % 256 := rfl

/-! ## 1. Memory -/

/-- What `read-memory` reads from. -/
inductive Region where
  | stack
  | constant
deriving DecidableEq, Repr

/-- The name of a region. -/
def Region.name : Region → String
  | .stack => "stack"
  | .constant => "constant"

/-- A place in memory. -/
structure MemoryOperand where
  region : Region
  offset : Fin 32768
deriving DecidableEq, Repr

namespace MemoryOperand

/-- The largest offset. -/
def maxOffset : Nat := 32767

/-- The place with the fifteen low bits of a number as its offset. -/
def ofOffset (region : Region) (offset : Nat) : MemoryOperand :=
  ⟨region, Fin.ofNat 32768 offset⟩

/-- The place that an operand names. -/
def ofBits (raw : UInt16) : MemoryOperand :=
  ofOffset (if raw.toNat % 2 = 1 then .constant else .stack) (raw.toNat / 2)

/-- The operand of a place. -/
def toBits (m : MemoryOperand) : UInt16 :=
  UInt16.ofNat (2 * m.offset.val + match m.region with | .stack => 0 | .constant => 1)

theorem toBits_ofBits (raw : UInt16) : (ofBits raw).toBits = raw := by
  have h := raw.toNat_lt
  apply UInt16.toNat_inj.1
  by_cases odd : raw.toNat % 2 = 1
  · simp only [ofBits, ofOffset, toBits, if_pos odd, UInt16.toNat_ofNat', Fin.val_ofNat]
    omega
  · simp only [ofBits, ofOffset, toBits, if_neg odd, UInt16.toNat_ofNat', Fin.val_ofNat]
    omega

theorem ofBits_toBits (m : MemoryOperand) : ofBits m.toBits = m := by
  obtain ⟨r, o⟩ := m
  have ho := o.isLt
  unfold ofBits ofOffset toBits
  cases r <;> simp only [UInt16.toNat_ofNat', mk.injEq, Fin.ext_iff, Fin.val_ofNat]
  · exact ⟨by rw [if_neg (by omega)], by omega⟩
  · exact ⟨by rw [if_pos (by omega)], by omega⟩

end MemoryOperand

/-! ## 2. Call -/

/-- Runs a source over some inputs for some outputs. -/
structure CallOperand where
  inputs : Fin 16
  outputs : Fin 16
  source : Fin 256
deriving DecidableEq, Repr

namespace CallOperand

/-- The operand with the given fields, if the counts fit. -/
def make? (inputs outputs : Nat) (source : Fin 256) : Option CallOperand :=
  if h : inputs < 16 ∧ outputs < 16 then some ⟨⟨inputs, h.1⟩, ⟨outputs, h.2⟩, source⟩ else none

/-- The fields of an operand. -/
def ofBits (raw : UInt16) : CallOperand :=
  ⟨Fin.ofNat 16 raw.toNat, Fin.ofNat 16 (raw.toNat / 16), lowByte (raw.toNat / 256)⟩

/-- The operand of some fields. -/
def toBits (c : CallOperand) : UInt16 :=
  UInt16.ofNat (c.inputs.val + 16 * c.outputs.val + 256 * c.source.val)

theorem toBits_ofBits (raw : UInt16) : (ofBits raw).toBits = raw := by
  have h := raw.toNat_lt
  apply UInt16.toNat_inj.1
  simp only [ofBits, toBits, UInt16.toNat_ofNat', Fin.val_ofNat, val_lowByte]
  omega

theorem ofBits_toBits (c : CallOperand) : ofBits c.toBits = c := by
  obtain ⟨i, o, s⟩ := c
  have := i.isLt; have := o.isLt; have := s.isLt
  simp only [ofBits, toBits, UInt16.toNat_ofNat', mk.injEq, Fin.ext_iff, Fin.val_ofNat, val_lowByte]
  omega

end CallOperand

/-! ## 3. Loop -/

/-- Runs a source a fixed number of times. -/
structure LoopOperand where
  count : Fin 16
  inputs : Fin 16
  outputs : Fin 16
  source : Fin 16
deriving DecidableEq, Repr

namespace LoopOperand

/-- The operand with the given fields, if all fit. -/
def make? (count inputs outputs source : Nat) : Option LoopOperand :=
  if h : count < 16 ∧ inputs < 16 ∧ outputs < 16 ∧ source < 16 then
    some ⟨⟨count, h.1⟩, ⟨inputs, h.2.1⟩, ⟨outputs, h.2.2.1⟩, ⟨source, h.2.2.2⟩⟩
  else none

/-- The fields of an operand. -/
def ofBits (raw : UInt16) : LoopOperand :=
  ⟨Fin.ofNat 16 (raw.toNat / 4096), Fin.ofNat 16 raw.toNat, Fin.ofNat 16 (raw.toNat / 16),
   Fin.ofNat 16 (raw.toNat / 256)⟩

/-- The operand of some fields. -/
def toBits (l : LoopOperand) : UInt16 :=
  UInt16.ofNat
    (l.inputs.val + 16 * l.outputs.val + 256 * l.source.val + 4096 * l.count.val)

theorem toBits_ofBits (raw : UInt16) : (ofBits raw).toBits = raw := by
  have h := raw.toNat_lt
  apply UInt16.toNat_inj.1
  simp only [ofBits, toBits, UInt16.toNat_ofNat', Fin.val_ofNat]
  omega

theorem ofBits_toBits (l : LoopOperand) : ofBits l.toBits = l := by
  obtain ⟨n, i, o, s⟩ := l
  have := n.isLt; have := i.isLt; have := o.isLt; have := s.isLt
  simp only [ofBits, toBits, UInt16.toNat_ofNat', mk.injEq, Fin.ext_iff, Fin.val_ofNat]
  omega

end LoopOperand

/-! ## 4. Do-while -/

/-- Runs a source as long as the word it leaves on top is true. -/
structure DoWhileOperand where
  inputs : Fin 256
  source : Fin 256
deriving DecidableEq, Repr

namespace DoWhileOperand

/-- The fields of an operand. -/
def ofBits (raw : UInt16) : DoWhileOperand :=
  ⟨lowByte raw.toNat, lowByte (raw.toNat / 256)⟩

/-- The operand of some fields. -/
def toBits (d : DoWhileOperand) : UInt16 := UInt16.ofNat (d.inputs.val + 256 * d.source.val)

theorem toBits_ofBits (raw : UInt16) : (ofBits raw).toBits = raw := by
  have h := raw.toNat_lt
  apply UInt16.toNat_inj.1
  simp only [ofBits, toBits, UInt16.toNat_ofNat', val_lowByte]
  omega

theorem ofBits_toBits (d : DoWhileOperand) : ofBits d.toBits = d := by
  obtain ⟨i, s⟩ := d
  have := i.isLt; have := s.isLt
  simp only [ofBits, toBits, UInt16.toNat_ofNat', mk.injEq, Fin.ext_iff, val_lowByte]
  omega

end DoWhileOperand

/-! ## 5. Context -/

/-- A cell of the context grid. -/
structure ContextCell where
  column : Fin 256
  row : Fin 256
deriving DecidableEq, Repr

namespace ContextCell

/-- The fields of an operand. -/
def ofBits (raw : UInt16) : ContextCell :=
  ⟨lowByte (raw.toNat / 256), lowByte raw.toNat⟩

/-- The operand of some fields. -/
def toBits (c : ContextCell) : UInt16 := UInt16.ofNat (c.row.val + 256 * c.column.val)

theorem toBits_ofBits (raw : UInt16) : (ofBits raw).toBits = raw := by
  have h := raw.toNat_lt
  apply UInt16.toNat_inj.1
  simp only [ofBits, toBits, UInt16.toNat_ofNat', val_lowByte]
  omega

theorem ofBits_toBits (c : ContextCell) : ofBits c.toBits = c := by
  obtain ⟨i, s⟩ := c
  have := i.isLt; have := s.isLt
  simp only [ofBits, toBits, UInt16.toNat_ofNat', mk.injEq, Fin.ext_iff, val_lowByte]
  omega

end ContextCell

/-! ## 6. Debug mode -/

/-- What a debug record holds. -/
inductive DebugMode where
  | state
  | stack
deriving DecidableEq, Repr

namespace DebugMode

/-- The name of a mode. -/
def name : DebugMode → String
  | .state => "state"
  | .stack => "stack"

/-- The mode of an operand, if it is one. -/
def ofBits? (raw : UInt16) : Option DebugMode :=
  if raw.toNat = 0 then some .state else if raw.toNat = 1 then some .stack else none

/-- The operand of a mode. -/
def toBits : DebugMode → UInt16
  | .state => 0
  | .stack => 1

theorem ofBits?_toBits (m : DebugMode) : ofBits? m.toBits = some m := by
  cases m <;> rfl

end DebugMode

end WordMachine
