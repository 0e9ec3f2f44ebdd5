import Mathlib.Data.Nat.Notation
import Mathlib.Logic.Function.Basic
import Mathlib.Tactic.SplitIfs

/-!
# A super-I/O chip behind an index and a data port

The configuration registers of a super-I/O chip are reached through two I/O ports:
the index port selects a register, the data port reads or writes it. The registers
below `30h` are global; those from `30h` on exist once for each logical device, and
global register `07h` says which device is meant. The chip listens only in
configuration mode, entered by writing `87h` twice to the index port and left by
writing `AAh` to it.

`Machine` is a board with a chip at `2Eh/2Fh`, at `4Eh/4Fh`, at both or at neither.
-/

set_option autoImplicit false

namespace TTLinux.Lib.SuperIo

/-- A register, a register index, a logical device number. -/
abbrev Byte := BitVec 8

/-- The state of one chip. -/
structure Chip where
  /-- The chip is in configuration mode. -/
  config : Bool
  /-- Outside configuration mode: the last write to the index port was `87h`. -/
  unlock : Bool
  /-- The selected register. -/
  index : Byte
  /-- The registers that all logical devices share. -/
  common : Byte → Byte
  /-- The registers of each logical device. -/
  bank : Byte → Byte → Byte

namespace Chip

/-- The logical device that is selected. -/
def ldn (c : Chip) : Byte := c.common 0x07#8

/-- The register a data access means. -/
def reg (c : Chip) (r : Byte) : Byte :=
  if r < 0x30#8 then c.common r else c.bank c.ldn r

/-- Change the register a data access means. -/
def setReg (c : Chip) (r v : Byte) : Chip :=
  if r < 0x30#8 then { c with common := Function.update c.common r v }
  else { c with bank := Function.update c.bank c.ldn (Function.update (c.bank c.ldn) r v) }

/-- A write to the index port. -/
def writeIndex (c : Chip) (v : Byte) : Chip :=
  if c.config then
    if v = 0xAA#8 then { c with config := false, unlock := false } else { c with index := v }
  else if v = 0x87#8 then
    if c.unlock then { c with config := true, unlock := false } else { c with unlock := true }
  else { c with unlock := false }

/-- A write to the data port. -/
def writeData (c : Chip) (v : Byte) : Chip :=
  if c.config then c.setReg c.index v else c

/-- A read of the index port. -/
def readIndex (c : Chip) : Byte := if c.config then c.index else 0xFF#8

/-- A read of the data port; outside configuration mode the bus floats. -/
def readData (c : Chip) : Byte := if c.config then c.reg c.index else 0xFF#8

end Chip

/-- The chips of a board, by the address of their index port. -/
structure Machine where
  at2E : Option Chip
  at4E : Option Chip

namespace Machine

/-- The chip whose index port is `cir`. -/
def chip (hw : Machine) (cir : Byte) : Option Chip :=
  if cir = 0x2E#8 then hw.at2E else if cir = 0x4E#8 then hw.at4E else none

/-- Apply a change to the chip whose index port is `cir`. -/
def onChip (hw : Machine) (cir : Byte) (f : Chip → Chip) : Machine :=
  if cir = 0x2E#8 then { hw with at2E := hw.at2E.map f }
  else if cir = 0x4E#8 then { hw with at4E := hw.at4E.map f }
  else hw

/-- `outb(value, port)` on the ports of the two chips; other ports are not theirs. -/
def outb (hw : Machine) (v : Byte) (port : ℕ) : Machine :=
  if port = 0x2E then hw.onChip 0x2E#8 (·.writeIndex v)
  else if port = 0x2F then hw.onChip 0x2E#8 (·.writeData v)
  else if port = 0x4E then hw.onChip 0x4E#8 (·.writeIndex v)
  else if port = 0x4F then hw.onChip 0x4E#8 (·.writeData v)
  else hw

/-- `inb(port)`; where no chip answers, the bus floats. -/
def inb (hw : Machine) (port : ℕ) : Byte :=
  if port = 0x2E then (hw.at2E.map Chip.readIndex).getD 0xFF#8
  else if port = 0x2F then (hw.at2E.map Chip.readData).getD 0xFF#8
  else if port = 0x4E then (hw.at4E.map Chip.readIndex).getD 0xFF#8
  else if port = 0x4F then (hw.at4E.map Chip.readData).getD 0xFF#8
  else 0xFF#8

end Machine

/-! ## Register access in configuration mode -/

namespace Chip

/-- INTERNAL: a register does not hold the mode. -/
@[simp] theorem setReg_config (c : Chip) (r v : Byte) : (c.setReg r v).config = c.config := by
  unfold setReg
  split <;> rfl

/-- INTERNAL: only the common registers hold the selected device. -/
theorem setReg_ldn (c : Chip) (r v : Byte) (hr : ¬ r < 0x30#8) : (c.setReg r v).ldn = c.ldn := by
  simp [setReg, hr, ldn]

/-- INTERNAL: writing a device register changes that register of the selected device
and no other. -/
theorem setReg_bank (c : Chip) (r v l x : Byte) (hr : ¬ r < 0x30#8) :
    (c.setReg r v).bank l x = if l = c.ldn ∧ x = r then v else c.bank l x := by
  unfold setReg
  rw [if_neg hr]
  by_cases hl : l = c.ldn
  · subst hl
    by_cases hx : x = r
    · simp [hx]
    · simp [hx]
  · simp [hl]

/-- INTERNAL: writing a shared register changes no register of a device. -/
theorem setReg_common_bank (c : Chip) (r v : Byte) (hr : r < 0x30#8) :
    (c.setReg r v).bank = c.bank := by
  simp [setReg, hr]

/-- INTERNAL: in configuration mode a write selects a register. -/
theorem writeIndex_config (c : Chip) (v : Byte) (hc : c.config = true) (hv : v ≠ 0xAA#8) :
    c.writeIndex v = { c with index := v } := by
  simp [writeIndex, hc, hv]

/-- INTERNAL: no write to the index port touches a register of a device. -/
@[simp] theorem writeIndex_bank (c : Chip) (v : Byte) : (c.writeIndex v).bank = c.bank := by
  unfold writeIndex
  split_ifs <;> rfl

/-- INTERNAL: and changes none. -/
@[simp] theorem writeIndex_common (c : Chip) (v : Byte) : (c.writeIndex v).common = c.common := by
  unfold writeIndex
  split_ifs <;> rfl

/-- INTERNAL: writing `87h` twice enters configuration mode from any state. -/
theorem enter_config (c : Chip) :
    ((c.writeIndex 0x87#8).writeIndex 0x87#8).config = true := by
  unfold writeIndex
  cases hconf : c.config with
  | true => simp
  | false => cases hun : c.unlock <;> simp

end Chip

/-! ## Port access on a board -/

namespace Machine

/-- INTERNAL: a chip answers only at the two addresses. -/
theorem cir_of_chip (hw : Machine) (cir : Byte) (c : Chip) (h : hw.chip cir = some c) :
    cir = 0x2E#8 ∨ cir = 0x4E#8 := by
  unfold chip at h
  by_cases h1 : cir = 0x2E#8
  · exact Or.inl h1
  · by_cases h2 : cir = 0x4E#8
    · exact Or.inr h2
    · rw [if_neg h1, if_neg h2] at h
      cases h

/-- INTERNAL: a write to the index port reaches the chip. -/
theorem chip_outb_index (hw : Machine) (cir v : Byte) (c : Chip) (h : hw.chip cir = some c) :
    (hw.outb v cir.toNat).chip cir = some (c.writeIndex v) := by
  rcases cir_of_chip hw cir c h with rfl | rfl
  · simp only [chip, if_true] at h
    simp [outb, onChip, chip, h]
  · have hne : ¬ 0x4E#8 = 0x2E#8 := by decide
    simp only [chip, if_true, if_neg hne] at h
    simp [outb, onChip, chip, h]

/-- INTERNAL: a write to the data port reaches the chip. -/
theorem chip_outb_data (hw : Machine) (cir v : Byte) (c : Chip) (h : hw.chip cir = some c) :
    (hw.outb v (cir.toNat + 1)).chip cir = some (c.writeData v) := by
  rcases cir_of_chip hw cir c h with rfl | rfl
  · simp only [chip, if_true] at h
    simp [outb, onChip, chip, h]
  · have hne : ¬ 0x4E#8 = 0x2E#8 := by decide
    simp only [chip, if_true, if_neg hne] at h
    simp [outb, onChip, chip, h]

/-- INTERNAL: a read of the data port is answered by the chip. -/
theorem inb_data (hw : Machine) (cir : Byte) (c : Chip) (h : hw.chip cir = some c) :
    hw.inb (cir.toNat + 1) = c.readData := by
  rcases cir_of_chip hw cir c h with rfl | rfl
  · simp only [chip, if_true] at h
    simp [inb, h]
  · have hne : ¬ 0x4E#8 = 0x2E#8 := by decide
    simp only [chip, if_true, if_neg hne] at h
    simp [inb, h]

/-! ## Configuration mode on a board -/

/-- The chip at an address is in configuration mode. -/
def InConfig (hw : Machine) (cir : Byte) : Prop := ∃ c, hw.chip cir = some c ∧ c.config = true

/-- INTERNAL: a write to a port that does not belong to a chip does not reach it. -/
theorem chip_outb_other (hw : Machine) (cir v : Byte) (port : ℕ) (hindex : port ≠ cir.toNat)
    (hdata : port ≠ cir.toNat + 1) : (hw.outb v port).chip cir = hw.chip cir := by
  by_cases h2E : cir = 0x2E#8
  · subst h2E
    have h1 : port ≠ 0x2E := hindex
    have h2 : port ≠ 0x2F := hdata
    unfold outb
    rw [if_neg h1, if_neg h2]
    split_ifs <;> rfl
  · by_cases h4E : cir = 0x4E#8
    · subst h4E
      have h1 : port ≠ 0x4E := hindex
      have h2 : port ≠ 0x4F := hdata
      unfold outb
      rw [if_neg h1, if_neg h2]
      split_ifs <;> rfl
    · simp [chip, h2E, h4E]

/-- INTERNAL: a change to the chips of a board makes no new one. -/
theorem chip_onChip_none (hw : Machine) (cir at_cir : Byte) (f : Chip → Chip) (h : hw.chip cir = none) :
    (hw.onChip at_cir f).chip cir = none := by
  have hne : ¬ 0x4E#8 = 0x2E#8 := by decide
  unfold onChip
  by_cases h2E : cir = 0x2E#8
  · subst h2E
    simp only [chip, if_true] at h ⊢
    split_ifs
    · exact Option.map_eq_none_iff.mpr h
    · exact h
    · exact h
  · by_cases h4E : cir = 0x4E#8
    · subst h4E
      simp only [chip, if_true, if_neg hne] at h ⊢
      split_ifs
      · exact h
      · exact Option.map_eq_none_iff.mpr h
      · exact h
    · simp only [chip, if_neg h2E, if_neg h4E]

/-- INTERNAL: no chip appears where there is none. -/
theorem chip_outb_none (hw : Machine) (cir v : Byte) (port : ℕ) (h : hw.chip cir = none) :
    (hw.outb v port).chip cir = none := by
  unfold outb
  split_ifs
  · exact chip_onChip_none hw cir _ _ h
  · exact chip_onChip_none hw cir _ _ h
  · exact chip_onChip_none hw cir _ _ h
  · exact chip_onChip_none hw cir _ _ h
  · exact h

/-- INTERNAL: only a write to its index port takes a chip into configuration mode or out of it. -/
theorem inConfig_outb (hw : Machine) (cir v : Byte) (port : ℕ) (hindex : port ≠ cir.toNat) :
    (hw.outb v port).InConfig cir ↔ hw.InConfig cir := by
  unfold InConfig
  by_cases hdata : port = cir.toNat + 1
  · subst hdata
    cases hc : hw.chip cir with
    | none => rw [chip_outb_none hw cir v _ hc]
    | some c =>
      have hconf : (c.writeData v).config = c.config := by
        unfold Chip.writeData
        split_ifs
        · exact Chip.setReg_config c c.index v
        · rfl
      rw [chip_outb_data hw cir v c hc]
      simp [hconf]
  · rw [chip_outb_other hw cir v port hindex hdata]

/-- INTERNAL: `AAh` at its index port takes a chip out of configuration mode. -/
theorem not_inConfig_exit (hw : Machine) (cir : Byte) : ¬(hw.outb 0xAA#8 cir.toNat).InConfig cir := by
  rintro ⟨c', h', hconf⟩
  cases hc : hw.chip cir with
  | none =>
    rw [chip_outb_none hw cir _ _ hc] at h'
    cases h'
  | some c =>
    rw [chip_outb_index hw cir _ c hc] at h'
    obtain rfl := Option.some.inj h'
    unfold Chip.writeIndex at hconf
    split_ifs at hconf <;> simp_all

/-- The board after some writes to an index port and to the data port behind it. -/
inductive Traffic (cir : Byte) (hw : Machine) : Machine → Prop where
  | refl : Traffic cir hw hw
  | index {m : Machine} (v : Byte) : Traffic cir hw m → Traffic cir hw (m.outb v cir.toNat)
  | data {m : Machine} (v : Byte) : Traffic cir hw m → Traffic cir hw (m.outb v (cir.toNat + 1))

/-- INTERNAL: traffic in two parts. -/
theorem Traffic.trans {cir : Byte} {hw m m' : Machine} (h : Traffic cir hw m) (h' : Traffic cir m m') :
    Traffic cir hw m' := by
  induction h' with
  | refl => exact h
  | index v _ ih => exact ih.index v
  | data v _ ih => exact ih.data v

/-- INTERNAL: writes to the ports of one chip do not reach another one. -/
theorem Traffic.chip_other {cir : Byte} {hw m : Machine} (h : Traffic cir hw m) (other : Byte)
    (hfar : cir.toNat + 1 < other.toNat ∨ other.toNat + 1 < cir.toNat) : m.chip other = hw.chip other := by
  induction h with
  | refl => rfl
  | index v _ ih => rw [chip_outb_other _ other v _ (by omega) (by omega), ih]
  | data v _ ih => rw [chip_outb_other _ other v _ (by omega) (by omega), ih]

/-- INTERNAL: writes to the ports of one chip do not take another one into configuration mode or out of
it. -/
theorem Traffic.inConfig_iff {cir : Byte} {hw m : Machine} (h : Traffic cir hw m) (other : Byte)
    (hne : other ≠ cir) (hdata : cir.toNat + 1 ≠ other.toNat) : m.InConfig other ↔ hw.InConfig other := by
  have hindex : cir.toNat ≠ other.toNat := fun he => hne (BitVec.eq_of_toNat_eq he.symm)
  induction h with
  | refl => rfl
  | index v _ ih => exact (inConfig_outb _ other v _ hindex).trans ih
  | data v _ ih => exact (inConfig_outb _ other v _ hdata).trans ih

end Machine

end TTLinux.Lib.SuperIo
