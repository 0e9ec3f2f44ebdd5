import TTLinux.Lib.SuperIo

/-!
# Super-I/O chips with any register file

A chip behind an index and a data port whose registers have places of any kind: `locate` says which place a register
index means, given what the selecting registers hold. `Config` and `Left` say that a chip is in configuration mode, or
has left it, and what its registers hold; they are what the accesses are followed by.
-/

set_option autoImplicit false

namespace TTLinux.Lib.RegisterFile

open TTLinux.Lib.SuperIo (Byte)

/-- What the registers at the places hold. -/
abbrev Registers (L : Type) := L → Byte

/-- The state of one chip. -/
structure Chip (L : Type) where
  /-- The chip is in configuration mode. -/
  config : Bool
  /-- Outside configuration mode: the last write to the index port was `87h`. -/
  unlock : Bool
  /-- The selected register. -/
  index : Byte
  regs : Registers L

/-- The chips of a board, by the address of their index port. -/
structure Board (L : Type) where
  at2E : Option (Chip L)
  at4E : Option (Chip L)

variable {L : Type} [DecidableEq L] (locate : Registers L → Byte → L)

namespace Chip

/-- A write to the index port. -/
def writeIndex (c : Chip L) (v : Byte) : Chip L :=
  if c.config then
    if v = 0xAA#8 then { c with config := false, unlock := false } else { c with index := v }
  else if v = 0x87#8 then
    if c.unlock then { c with config := true, unlock := false } else { c with unlock := true }
  else { c with unlock := false }

/-- A write to the data port. -/
def writeData (c : Chip L) (v : Byte) : Chip L :=
  if c.config then { c with regs := Function.update c.regs (locate c.regs c.index) v } else c

/-- A read of the index port. -/
def readIndex (c : Chip L) : Byte := if c.config then c.index else 0xFF#8

/-- A read of the data port; outside configuration mode the bus floats. -/
def readData (c : Chip L) : Byte := if c.config then c.regs (locate c.regs c.index) else 0xFF#8

end Chip

namespace Board

/-- The chip whose index port is `cir`. -/
def chip (hw : Board L) (cir : Byte) : Option (Chip L) :=
  if cir = 0x2E#8 then hw.at2E else if cir = 0x4E#8 then hw.at4E else none

/-- `outb(value, port)` on the ports of the two chips; other ports are not theirs. -/
def outb (hw : Board L) (v : Byte) (port : ℕ) : Board L :=
  if port = 0x2E then { hw with at2E := hw.at2E.map (·.writeIndex v) }
  else if port = 0x2F then { hw with at2E := hw.at2E.map (·.writeData locate v) }
  else if port = 0x4E then { hw with at4E := hw.at4E.map (·.writeIndex v) }
  else if port = 0x4F then { hw with at4E := hw.at4E.map (·.writeData locate v) }
  else hw

/-- `inb(port)`; where no chip answers, the bus floats. -/
def inb (hw : Board L) (port : ℕ) : Byte :=
  if port = 0x2E then (hw.at2E.map Chip.readIndex).getD 0xFF#8
  else if port = 0x2F then (hw.at2E.map (Chip.readData locate)).getD 0xFF#8
  else if port = 0x4E then (hw.at4E.map Chip.readIndex).getD 0xFF#8
  else if port = 0x4F then (hw.at4E.map (Chip.readData locate)).getD 0xFF#8
  else 0xFF#8

/-! ## The ports of a chip -/

omit [DecidableEq L] in
/-- INTERNAL: a chip answers only at the two addresses. -/
theorem cir_of_chip (hw : Board L) (cir : Byte) (c : Chip L) (h : hw.chip cir = some c) :
    cir = 0x2E#8 ∨ cir = 0x4E#8 := by
  unfold chip at h
  by_cases h1 : cir = 0x2E#8
  · exact Or.inl h1
  · by_cases h2 : cir = 0x4E#8
    · exact Or.inr h2
    · rw [if_neg h1, if_neg h2] at h
      cases h

/-- INTERNAL: a write to the index port reaches the chip. -/
theorem chip_outb_index (hw : Board L) (cir v : Byte) (c : Chip L) (h : hw.chip cir = some c) :
    (hw.outb locate v cir.toNat).chip cir = some (c.writeIndex v) := by
  rcases cir_of_chip hw cir c h with rfl | rfl
  · simp only [chip, if_true] at h
    simp [outb, chip, h]
  · have hne : ¬ 0x4E#8 = 0x2E#8 := by decide
    simp only [chip, if_true, if_neg hne] at h
    simp [outb, chip, h]

/-- INTERNAL: a write to the data port reaches the chip. -/
theorem chip_outb_data (hw : Board L) (cir v : Byte) (c : Chip L) (h : hw.chip cir = some c) :
    (hw.outb locate v (cir.toNat + 1)).chip cir = some (c.writeData locate v) := by
  rcases cir_of_chip hw cir c h with rfl | rfl
  · simp only [chip, if_true] at h
    simp [outb, chip, h]
  · have hne : ¬ 0x4E#8 = 0x2E#8 := by decide
    simp only [chip, if_true, if_neg hne] at h
    simp [outb, chip, h]

omit [DecidableEq L] in
/-- INTERNAL: a read of the data port is answered by the chip. -/
theorem inb_data (hw : Board L) (cir : Byte) (c : Chip L) (h : hw.chip cir = some c) :
    hw.inb locate (cir.toNat + 1) = c.readData locate := by
  rcases cir_of_chip hw cir c h with rfl | rfl
  · simp only [chip, if_true] at h
    simp [inb, h]
  · have hne : ¬ 0x4E#8 = 0x2E#8 := by decide
    simp only [chip, if_true, if_neg hne] at h
    simp [inb, h]

/-! ## What accesses do -/

/-- The chip is in configuration mode, and its registers hold `R`. -/
def Config (hw : Board L) (cir : Byte) (R : Registers L) : Prop :=
  ∃ c, hw.chip cir = some c ∧ c.config = true ∧ c.regs = R

/-- The chip is not in configuration mode nor about to enter it, and its registers hold `R`. -/
def Left (hw : Board L) (cir : Byte) (R : Registers L) : Prop :=
  ∃ c, hw.chip cir = some c ∧ c.config = false ∧ c.unlock = false ∧ c.regs = R

/-- INTERNAL: selecting a register. -/
theorem Config.select {hw : Board L} {cir : Byte} {R : Registers L} (h : Config hw cir R) (r : Byte) (hr : r ≠ 0xAA#8) :
    ∃ c, (hw.outb locate r cir.toNat).chip cir = some c ∧ c.config = true ∧ c.regs = R ∧ c.index = r := by
  obtain ⟨c, hchip, hconf, hregs⟩ := h
  refine ⟨{ c with index := r }, ?_, hconf, hregs, rfl⟩
  rw [chip_outb_index locate hw cir r c hchip, Chip.writeIndex, if_pos hconf, if_neg hr]

/-- INTERNAL: selecting a register keeps the mode. -/
theorem Config.index {hw : Board L} {cir : Byte} {R : Registers L} (h : Config hw cir R) (r : Byte) (hr : r ≠ 0xAA#8) :
    Config (hw.outb locate r cir.toNat) cir R := by
  obtain ⟨c, hchip, hconf, hregs, -⟩ := h.select locate r hr
  exact ⟨c, hchip, hconf, hregs⟩

/-- INTERNAL: **a register is read.** -/
theorem Config.read {hw : Board L} {cir : Byte} {R : Registers L} (h : Config hw cir R) (r : Byte) (hr : r ≠ 0xAA#8) :
    (hw.outb locate r cir.toNat).inb locate (cir.toNat + 1) = R (locate R r) := by
  obtain ⟨c, hchip, hconf, hregs, hindex⟩ := h.select locate r hr
  rw [inb_data locate _ cir c hchip, Chip.readData, if_pos hconf, hregs, hindex]

/-- INTERNAL: **a register is written.** -/
theorem Config.write {hw : Board L} {cir : Byte} {R : Registers L} (h : Config hw cir R) (r v : Byte) (hr : r ≠ 0xAA#8) :
    Config ((hw.outb locate r cir.toNat).outb locate v (cir.toNat + 1)) cir (Function.update R (locate R r) v) := by
  obtain ⟨c, hchip, hconf, hregs, hindex⟩ := h.select locate r hr
  refine ⟨c.writeData locate v, chip_outb_data locate _ cir v c hchip, ?_, ?_⟩
  · rw [Chip.writeData, if_pos hconf]
    exact hconf
  · rw [Chip.writeData, if_pos hconf, hregs, hindex]

/-- INTERNAL: `AAh` at the index port leaves configuration mode. -/
theorem Config.leave {hw : Board L} {cir : Byte} {R : Registers L} (h : Config hw cir R) :
    Left (hw.outb locate 0xAA#8 cir.toNat) cir R := by
  obtain ⟨c, hchip, hconf, hregs⟩ := h
  refine ⟨{ c with config := false, unlock := false }, ?_, rfl, rfl, hregs⟩
  rw [chip_outb_index locate hw cir _ c hchip, Chip.writeIndex, if_pos hconf, if_pos rfl]

/-- INTERNAL: **outside configuration mode** no write but `87h` at the index port does anything. -/
theorem Left.index {hw : Board L} {cir : Byte} {R : Registers L} (h : Left hw cir R) (v : Byte) (hv : v ≠ 0x87#8) :
    Left (hw.outb locate v cir.toNat) cir R := by
  obtain ⟨c, hchip, hconf, hunlock, hregs⟩ := h
  refine ⟨{ c with unlock := false }, ?_, hconf, rfl, hregs⟩
  rw [chip_outb_index locate hw cir v c hchip, Chip.writeIndex, hconf, if_neg Bool.false_ne_true, if_neg hv]

/-- INTERNAL: a write after the mode was left does nothing. -/
theorem Left.data {hw : Board L} {cir : Byte} {R : Registers L} (h : Left hw cir R) (v : Byte) :
    Left (hw.outb locate v (cir.toNat + 1)) cir R := by
  obtain ⟨c, hchip, hconf, hunlock, hregs⟩ := h
  refine ⟨c, ?_, hconf, hunlock, hregs⟩
  rw [chip_outb_data locate hw cir v c hchip, Chip.writeData, hconf, if_neg Bool.false_ne_true]

omit [DecidableEq L] in
/-- INTERNAL: and a read finds only ones. -/
theorem Left.read {hw : Board L} {cir : Byte} {R : Registers L} (h : Left hw cir R) :
    hw.inb locate (cir.toNat + 1) = 0xFF#8 := by
  obtain ⟨c, hchip, hconf, -, -⟩ := h
  rw [inb_data locate hw cir c hchip, Chip.readData, hconf, if_neg Bool.false_ne_true]

/-- INTERNAL: writing `87h` twice enters configuration mode from any state. -/
theorem enter_config (hw : Board L) (cir : Byte) (c : Chip L) (h : hw.chip cir = some c) :
    Config ((hw.outb locate 0x87#8 cir.toNat).outb locate 0x87#8 cir.toNat) cir c.regs := by
  have h₁ := chip_outb_index locate hw cir 0x87#8 c h
  have h₂ := chip_outb_index locate _ cir 0x87#8 _ h₁
  refine ⟨_, h₂, ?_, ?_⟩
  · unfold Chip.writeIndex
    cases hconf : c.config with
    | true => simp
    | false => cases hunlock : c.unlock <;> simp
  · unfold Chip.writeIndex
    cases hconf : c.config with
    | true => simp
    | false => cases hunlock : c.unlock <;> simp

end Board

end TTLinux.Lib.RegisterFile
