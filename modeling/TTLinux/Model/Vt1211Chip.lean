import TTLinux.Lib.RegisterFile
import TTLinux.Model.Vt1211

/-!
# The configuration registers of the VT1211

Register 07h of the VT1211 selects a logical device for the registers from 30h on. On device 8, the GPIO, register F0h
selects a port for the registers F1h and F2h in turn (kernel/2.6.30/patches/vt1211-generic.patch).
-/

set_option autoImplicit false

namespace TTLinux.Model.Vt1211Chip

open TTLinux.Lib.SuperIo (Byte)
open TTLinux.Lib.RegisterFile
open TTLinux.Model.Vt1211 (PortIo)

/-- A register. -/
inductive Loc where
  /-- One that the logical devices share. -/
  | common (r : Byte)
  /-- One of a logical device. -/
  | device (ldn r : Byte)
  /-- One of a GPIO port. -/
  | port (p r : Byte)
deriving DecidableEq

/-- The register that an index means.
SOURCE: vt1211-generic.patch:201-212, 247-284, 307-326 -/
def locate (R : Registers Loc) (r : Byte) : Loc :=
  if r < 0x30#8 then .common r
  else if R (.common 0x07#8) = 0x8#8 ∧ (r = 0xF1#8 ∨ r = 0xF2#8) then .port (R (.device 0x8#8 0xF0#8) &&& 0x7#8) r
  else .device (R (.common 0x07#8)) r

/-- The ports of a board with such chips. -/
def io : PortIo (Board Loc) := ⟨Board.outb locate, Board.inb locate⟩

/-- INTERNAL: where a register of the chip is. -/
theorem locate_common (R : Registers Loc) (r : Byte) (hr : r < 0x30#8) : locate R r = .common r := if_pos hr

/-- INTERNAL: where one of the selected device is. -/
theorem locate_device (R : Registers Loc) (r : Byte) (hr : ¬ r < 0x30#8)
    (hport : R (.common 0x07#8) ≠ 0x8#8 ∨ (r ≠ 0xF1#8 ∧ r ≠ 0xF2#8)) :
    locate R r = .device (R (.common 0x07#8)) r := by
  rw [locate, if_neg hr, if_neg]
  rintro ⟨hgpio, hreg⟩
  rcases hport with hother | ⟨h1, h2⟩
  · exact hother hgpio
  · exact hreg.elim h1 h2

/-- INTERNAL: where one of the selected port is. -/
theorem locate_port (R : Registers Loc) (r : Byte) (hgpio : R (.common 0x07#8) = 0x8#8)
    (hr : r = 0xF1#8 ∨ r = 0xF2#8) : locate R r = .port (R (.device 0x8#8 0xF0#8) &&& 0x7#8) r := by
  have hge : ¬ r < 0x30#8 := by rcases hr with rfl | rfl <;> decide
  rw [locate, if_neg hge, if_pos ⟨hgpio, hr⟩]

end TTLinux.Model.Vt1211Chip
