import Mathlib.Tactic.IntervalCases
import TTLinux.Model.W83627dhg

/-!
# What a run of `w83627dhg_gpio_set` does to the chip

Each call is a read-modify-write of one data register after the logical device has
been selected and the port enabled. `gpioSet_bank` says what one call does to the
whole register file: apart from the activation register `30h` it changes one
register, the data register of the line's port, and there one bit. The ports are
told apart by `portReg_injective`: the registers of different ports are different,
although those of ports 4 and 6 have the same indices, because the devices differ.
-/

set_option autoImplicit false

namespace TTLinux.Analysis.GpioSet

open TTLinux.Lib.SuperIo TTLinux.Model.W83627dhg

/-! ## Registers of a port -/

/-- The logical device of a port.
SOURCE: w83627dhg-generic.patch:359-373 -/
def portLdn (port : ℕ) : Byte := if port = 6 then 0x7#8 else 0x9#8

/-- The direction, data and polarity register of a port, for the offsets 0, 1 and 2. -/
def portReg (c : Chip) (port : ℕ) (i : Byte) : Byte := c.bank (portLdn port) (cfgOffset port + i)

/-- The direction register of a port. -/
def direction (c : Chip) (port : ℕ) : Byte := portReg c port 0

/-- The polarity register of a port. -/
def polarity (c : Chip) (port : ℕ) : Byte := portReg c port 2

/-- The data bit of a line. -/
def dataBit (c : Chip) (line : ℕ) : Bool :=
  (portReg c (PORTNO line) 1).getLsbD (line % 8)

/-- INTERNAL: the ports of the lines 8 to 47 are 2 to 6. -/
theorem portno_bounds (line : ℕ) (h8 : 8 ≤ line) (h47 : line ≤ 47) :
    2 ≤ PORTNO line ∧ PORTNO line ≤ 6 := by
  unfold PORTNO PORT
  rw [Nat.shiftRight_eq_div_pow]
  omega

/-- INTERNAL: **the register maps of the ports do not overlap.** -/
theorem portReg_injective (p q : ℕ) (i j : Byte) (hp : 2 ≤ p ∧ p ≤ 6) (hq : 2 ≤ q ∧ q ≤ 6)
    (hi : i ≤ 2) (hj : j ≤ 2) (hl : portLdn p = portLdn q)
    (hr : cfgOffset p + i = cfgOffset q + j) : p = q ∧ i = j := by
  have hcases : ∀ x : Byte, x ≤ 2 → x = 0 ∨ x = 1 ∨ x = 2 := by decide
  obtain ⟨hp2, hp6⟩ := hp
  obtain ⟨hq2, hq6⟩ := hq
  rcases hcases i hi with rfl | rfl | rfl <;> rcases hcases j hj with rfl | rfl | rfl <;>
    interval_cases p <;> interval_cases q <;> revert hl hr <;> decide

/-- INTERNAL: the registers of a port lie above the activation register. -/
theorem cfgOffset_gt (p : ℕ) (i : Byte) (hp : 2 ≤ p ∧ p ≤ 6) (hi : i ≤ 2) :
    ¬ cfgOffset p + i < 0x30#8 ∧ cfgOffset p + i ≠ 0x30#8 ∧ cfgOffset p + i ≠ 0xAA#8 := by
  have hcases : ∀ x : Byte, x ≤ 2 → x = 0 ∨ x = 1 ∨ x = 2 := by decide
  obtain ⟨hp2, hp6⟩ := hp
  rcases hcases i hi with rfl | rfl | rfl <;> interval_cases p <;> decide

/-! ## One access in configuration mode -/

section Access

variable (drv : Driver) (hw : Machine) (c : Chip)

/-- INTERNAL: `getRegister` reads the register and moves the index.
SOURCE: w83627dhg-generic.patch:286-292 -/
theorem getRegister_spec (reg : Byte) (h : hw.chip drv.cirAddr = some c)
    (hc : c.config = true) (hreg : reg ≠ 0xAA#8) :
    (getRegister drv reg hw).1 = c.reg reg ∧
      (getRegister drv reg hw).2.chip drv.cirAddr = some { c with index := reg } := by
  have hidx := Machine.chip_outb_index hw drv.cirAddr reg c h
  rw [Chip.writeIndex_config c reg hc hreg] at hidx
  refine ⟨?_, hidx⟩
  have hin := Machine.inb_data _ drv.cirAddr _ hidx
  simp only [getRegister, CDR_ADDR, hin, Chip.readData, hc, if_true]
  rfl

/-- INTERNAL: what `setRegister` writes. -/
def modified (c : Chip) (reg value : Byte) : SetRegMode → Byte
  | .set => value
  | .and => value &&& c.reg reg
  | .or => value ||| c.reg reg

/-- INTERNAL: `setRegister` writes the register and moves the index.
SOURCE: w83627dhg-generic.patch:237-283 -/
theorem setRegister_spec (reg value : Byte) (mode : SetRegMode)
    (h : hw.chip drv.cirAddr = some c) (hc : c.config = true) (hreg : reg ≠ 0xAA#8) :
    (setRegister drv reg value mode hw).2.chip drv.cirAddr =
      some (({ c with index := reg } : Chip).setReg reg (modified c reg value mode)) := by
  have hidx := Machine.chip_outb_index hw drv.cirAddr reg c h
  rw [Chip.writeIndex_config c reg hc hreg] at hidx
  have hin := Machine.inb_data _ drv.cirAddr _ hidx
  have hread : ({ c with index := reg } : Chip).readData = c.reg reg := by
    simp only [Chip.readData, hc, if_true]
    rfl
  rw [hread] at hin
  have hout := fun v => Machine.chip_outb_data _ drv.cirAddr v _ hidx
  have hdata : ∀ v, ({ c with index := reg } : Chip).writeData v =
      ({ c with index := reg } : Chip).setReg reg v := by
    intro v
    simp only [Chip.writeData, hc, if_true]
  cases mode with
  | set => simp only [setRegister, modified, CDR_ADDR, hout, hdata]
  | and => simp [setRegister, modified, CDR_ADDR, hout, hdata, hin]
  | or => simp [setRegister, modified, CDR_ADDR, hout, hdata, hin]

/-- INTERNAL: `w83627dhg_select_ldn_gpio` succeeds for the ports 2 to 6 and selects
the port's device.
SOURCE: w83627dhg-generic.patch:355-380 -/
theorem selectLdnGpio_spec (port : ℕ) (hp : 2 ≤ port ∧ port ≤ 6)
    (h : hw.chip drv.cirAddr = some c) (hc : c.config = true) :
    (selectLdnGpio drv port hw).1 = 0 ∧
      (selectLdnGpio drv port hw).2.chip drv.cirAddr =
        some (({ c with index := 0x7#8 } : Chip).setReg 0x7#8 (portLdn port)) := by
  obtain ⟨hp2, hp6⟩ := hp
  have hset := fun v => setRegister_spec drv hw c 0x7#8 v .set h hc (by decide)
  interval_cases port <;> simp [selectLdnGpio, portLdn, hset, modified]

/-- INTERNAL: `w83627dhg_enable_gpio` without pin selection writes only the
activation register.
SOURCE: w83627dhg-generic.patch:404-454 -/
theorem enableGpio_spec (port : ℕ) (hp : 2 ≤ port ∧ port ≤ 6)
    (h : hw.chip drv.cirAddr = some c) (hc : c.config = true) :
    ∃ byte, (enableGpio drv port false hw).chip drv.cirAddr =
      some (({ c with index := 0x30#8 } : Chip).setReg 0x30#8 byte) := by
  obtain ⟨hp2, hp6⟩ := hp
  obtain ⟨-, hget⟩ := getRegister_spec drv hw c 0x30#8 h hc (by decide)
  have hset := fun v => setRegister_spec drv (getRegister drv 0x30#8 hw).2 _ 0x30#8 v .set hget
    hc (by decide)
  interval_cases port <;> exact ⟨_, hset _⟩

/-- INTERNAL: the debugging output moves at most the index.
SOURCE: w83627dhg-generic.patch:580-586 -/
theorem showMasks_spec (port : ℕ) (hp : 2 ≤ port ∧ port ≤ 6)
    (h : hw.chip drv.cirAddr = some c) (hc : c.config = true) :
    ∃ i, (showMasks drv (cfgOffset port + 1) hw).chip drv.cirAddr =
      some { c with index := i } := by
  unfold showMasks
  by_cases hd : drv.debug = true
  · rw [if_pos hd]
    have h0 : cfgOffset port + 1 - 0x1#8 ≠ 0xAA#8 := by
      have := (cfgOffset_gt port 0 hp (by decide)).2.2
      rw [show (1 : Byte) = 0x1#8 from rfl, BitVec.add_sub_cancel]
      simpa using this
    have h2 : cfgOffset port + 1 + 0x1#8 ≠ 0xAA#8 := by
      have := (cfgOffset_gt port 2 hp (by decide)).2.2
      rw [BitVec.add_assoc]
      exact this
    obtain ⟨-, hg1⟩ := getRegister_spec drv hw c _ h hc h0
    obtain ⟨-, hg2⟩ := getRegister_spec drv _ _ _ hg1 hc h2
    exact ⟨_, hg2⟩
  · rw [if_neg hd]
    exact ⟨c.index, h⟩

end Access

/-! ## One call -/

/-- The mask of a line in its data register.
SOURCE: w83627dhg-generic.patch:597 -/
def lineMask (minor : Byte) : Byte := 0x1#8 <<< (minor &&& 0x7#8)

/-- What a call makes of the data register.
SOURCE: w83627dhg-generic.patch:598-602 -/
def newData (minor state old : Byte) : Byte :=
  if state ≠ 0 then lineMask minor ||| old else ~~~lineMask minor &&& old

/-- INTERNAL: the register address of an existing line. -/
theorem portaddr_eq (line : ℕ) (h8 : 8 ≤ line) (h47 : line ≤ 47) :
    portaddr line = cfgOffset (PORTNO line) + 1 ∧ portaddr line ≠ 0 := by
  have h1 : 1 ≤ PORT line ∧ PORT line ≤ 5 := by
    unfold PORT
    rw [Nat.shiftRight_eq_div_pow]
    omega
  obtain ⟨hlo, hhi⟩ := h1
  unfold portaddr PORTNO
  generalize PORT line = p at hlo hhi
  interval_cases p <;> decide

/-- INTERNAL: **before the data register is touched** the chip is in configuration
mode with the port's device selected, and apart from the activation registers it
holds what it held.
SOURCE: w83627dhg-generic.patch:576-586 -/
theorem prepare_spec (drv : Driver) (hw : Machine) (c : Chip) (p : ℕ) (hp : 2 ≤ p ∧ p ≤ 6)
    (h : hw.chip drv.cirAddr = some c) :
    (selectLdnGpio drv p (enterConfig drv.cirAddr hw)).1 = 0 ∧
    ∃ c', (showMasks drv (cfgOffset p + 1) (enableGpio drv p false
        (selectLdnGpio drv p (enterConfig drv.cirAddr hw)).2)).chip drv.cirAddr = some c' ∧
      c'.config = true ∧ c'.ldn = portLdn p ∧ ∀ l r, r ≠ 0x30#8 → c'.bank l r = c.bank l r := by
  have henter : (enterConfig drv.cirAddr hw).chip drv.cirAddr =
      some ((c.writeIndex 0x87#8).writeIndex 0x87#8) :=
    Machine.chip_outb_index _ _ _ _ (Machine.chip_outb_index _ _ _ _ h)
  have hconf := Chip.enter_config c
  have hbank : ((c.writeIndex 0x87#8).writeIndex 0x87#8).bank = c.bank := by simp
  generalize (c.writeIndex 0x87#8).writeIndex 0x87#8 = c₁ at henter hconf hbank
  obtain ⟨hrc, hselect⟩ := selectLdnGpio_spec drv _ c₁ p hp henter hconf
  have hldn₂ : (({ c₁ with index := 0x7#8 } : Chip).setReg 0x7#8 (portLdn p)).ldn = portLdn p := by
    simp [Chip.setReg, Chip.ldn]
  have hbank₂ : (({ c₁ with index := 0x7#8 } : Chip).setReg 0x7#8 (portLdn p)).bank = c.bank := by
    rw [Chip.setReg_common_bank _ _ _ (by decide), ← hbank]
  have hconf₂ : (({ c₁ with index := 0x7#8 } : Chip).setReg 0x7#8 (portLdn p)).config = true := by
    simp [hconf]
  generalize ({ c₁ with index := 0x7#8 } : Chip).setReg 0x7#8 (portLdn p) = c₂
    at hselect hldn₂ hbank₂ hconf₂
  obtain ⟨byte, henable⟩ := enableGpio_spec drv _ c₂ p hp hselect hconf₂
  have hldn₃ := Chip.setReg_ldn { c₂ with index := 0x30#8 } 0x30#8 byte (by decide)
  have hbank₃ : ∀ l r, r ≠ 0x30#8 →
      (({ c₂ with index := 0x30#8 } : Chip).setReg 0x30#8 byte).bank l r = c.bank l r := by
    intro l r hr
    rw [Chip.setReg_bank _ _ _ _ _ (by decide), if_neg (fun hx => hr hx.2), ← hbank₂]
  have hconf₃ : (({ c₂ with index := 0x30#8 } : Chip).setReg 0x30#8 byte).config = true := by
    simp [hconf₂]
  generalize ({ c₂ with index := 0x30#8 } : Chip).setReg 0x30#8 byte = c₃
    at henable hldn₃ hbank₃ hconf₃
  obtain ⟨i, hshow⟩ := showMasks_spec drv _ c₃ p hp henable hconf₃
  exact ⟨hrc, { c₃ with index := i }, hshow, hconf₃, hldn₃.trans hldn₂, hbank₃⟩

/-- INTERNAL: modifying one device register and leaving configuration mode changes
that register of the selected device and no other. -/
theorem modify_spec (drv : Driver) (hw : Machine) (c : Chip) (reg value : Byte)
    (mode : SetRegMode) (h : hw.chip drv.cirAddr = some c) (hc : c.config = true)
    (hge : ¬ reg < 0x30#8) (hneAA : reg ≠ 0xAA#8) :
    ∃ c', (exitConfig drv.cirAddr (setRegister drv reg value mode hw).2).chip drv.cirAddr =
        some c' ∧
      ∀ l r, c'.bank l r =
        if l = c.ldn ∧ r = reg then modified c reg value mode else c.bank l r := by
  have hset := setRegister_spec drv hw c reg value mode h hc hneAA
  refine ⟨_, Machine.chip_outb_index _ _ _ _ hset, ?_⟩
  intro l r
  rw [Chip.writeIndex_bank, Chip.setReg_bank _ _ _ _ _ hge]
  rfl

/-- INTERNAL: **the effect of one call on the register file.** The call returns 0;
apart from the activation registers it changes the line's data register and nothing
else, whatever mode the chip was in.
SOURCE: w83627dhg-generic.patch:564-615 -/
theorem gpioSet_bank (drv : Driver) (hw : Machine) (c : Chip) (minor state : Byte)
    (h : hw.chip drv.cirAddr = some c) (h8 : 8 ≤ minor.toNat) (h47 : minor.toNat ≤ 47) :
    (gpioSet drv minor state hw).1 = 0 ∧
    ∃ c', (gpioSet drv minor state hw).2.chip drv.cirAddr = some c' ∧
      ∀ l r, r ≠ 0x30#8 → c'.bank l r =
        if l = portLdn (PORTNO minor.toNat) ∧ r = cfgOffset (PORTNO minor.toNat) + 1 then
          newData minor state (c.bank l r) else c.bank l r := by
  obtain ⟨hbase, hbase0⟩ := portaddr_eq minor.toNat h8 h47
  have hp := portno_bounds minor.toNat h8 h47
  unfold gpioSet
  generalize PORTNO minor.toNat = p at hbase hp ⊢
  obtain ⟨hrc, c₁, hprep, hconf, hldn, hbank⟩ := prepare_spec drv hw c p hp h
  obtain ⟨hge, hne30, hneAA⟩ := cfgOffset_gt p 1 hp (by decide)
  rw [hbase] at hbase0
  simp only [hbase, hbase0, if_false, hrc, ne_eq, not_true_eq_false]
  have hreg : c₁.reg (cfgOffset p + 1) = c.bank (portLdn p) (cfgOffset p + 1) := by
    rw [Chip.reg, if_neg hge, hldn]
    exact hbank _ _ hne30
  have hmod : ∀ v mode, modified c₁ (cfgOffset p + 1) v mode =
        newData minor state (c.bank (portLdn p) (cfgOffset p + 1)) →
      ∃ c', (exitConfig drv.cirAddr (setRegister drv (cfgOffset p + 1) v mode
          (showMasks drv (cfgOffset p + 1) (enableGpio drv p false
            (selectLdnGpio drv p (enterConfig drv.cirAddr hw)).2))).2).chip drv.cirAddr =
          some c' ∧
        ∀ l r, r ≠ 0x30#8 → c'.bank l r = if l = portLdn p ∧ r = cfgOffset p + 1 then
          newData minor state (c.bank l r) else c.bank l r := by
    intro v mode hv
    obtain ⟨c', hchip, hb⟩ := modify_spec drv _ c₁ _ v mode hprep hconf hge hneAA
    refine ⟨c', hchip, ?_⟩
    intro l r hr
    rw [hb l r, hldn, hv, hbank l r hr]
    by_cases hx : l = portLdn p ∧ r = cfgOffset p + 1
    · rw [if_pos hx, if_pos hx, hx.1, hx.2]
    · rw [if_neg hx, if_neg hx]
  refine ⟨trivial, ?_⟩
  by_cases hs : state = 0
  · rw [if_neg (not_not.mpr hs)]
    apply hmod
    rw [modified, hreg, newData, if_neg (not_not.mpr hs)]
    rfl
  · rw [if_pos hs]
    apply hmod
    rw [modified, hreg, newData, if_pos hs]
    rfl

/-- INTERNAL: the mask has exactly the line's bit. -/
theorem getLsbD_lineMask (minor : Byte) (i : ℕ) (hi : i < 8) :
    (lineMask minor).getLsbD i = decide (i = minor.toNat % 8) := by
  have hmod : (minor &&& 0x7#8).toNat = minor.toNat % 8 := by
    rw [BitVec.toNat_and]
    exact Nat.and_two_pow_sub_one_eq_mod minor.toNat 3
  unfold lineMask
  rw [BitVec.shiftLeft_eq', hmod, BitVec.getLsbD_shiftLeft]
  have hlt : minor.toNat % 8 < 8 := Nat.mod_lt _ (by omega)
  generalize minor.toNat % 8 = k at hlt
  interval_cases k <;> interval_cases i <;> rfl

/-- INTERNAL: a call changes the line's bit of the data register to the state and no
other bit.
SOURCE: w83627dhg-generic.patch:597-602 -/
theorem getLsbD_newData (minor state old : Byte) (i : ℕ) (hi : i < 8) :
    (newData minor state old).getLsbD i =
      if i = minor.toNat % 8 then decide (state ≠ 0) else old.getLsbD i := by
  unfold newData
  by_cases hs : state = 0
  · rw [if_neg (by simpa using hs), BitVec.getLsbD_and, BitVec.getLsbD_not,
      getLsbD_lineMask minor i hi]
    by_cases hi' : i = minor.toNat % 8
    · simp [hi', hs]
    · simp [hi', hi]
  · rw [if_pos hs, BitVec.getLsbD_or, getLsbD_lineMask minor i hi]
    by_cases hi' : i = minor.toNat % 8
    · rw [if_pos hi', decide_eq_true hi', decide_eq_true hs, Bool.true_or]
    · simp [hi']

/-- INTERNAL: **one call, seen from the ports.** The direction and polarity registers
stay, the line takes the state, every other line keeps its bit. -/
theorem gpioSet_ports (drv : Driver) (hw : Machine) (c : Chip) (minor state : Byte)
    (h : hw.chip drv.cirAddr = some c) (h8 : 8 ≤ minor.toNat) (h47 : minor.toNat ≤ 47) :
    ∃ c', (gpioSet drv minor state hw).2.chip drv.cirAddr = some c' ∧
      (∀ port, 2 ≤ port ∧ port ≤ 6 →
        direction c' port = direction c port ∧ polarity c' port = polarity c port) ∧
      ∀ line, 8 ≤ line → line ≤ 47 →
        dataBit c' line = if line = minor.toNat then decide (state ≠ 0) else dataBit c line := by
  obtain ⟨-, c', hchip, hbank⟩ := gpioSet_bank drv hw c minor state h h8 h47
  have hp := portno_bounds minor.toNat h8 h47
  have hother : ∀ port (i : Byte), 2 ≤ port ∧ port ≤ 6 → i ≤ 2 → i ≠ 1 →
      portReg c' port i = portReg c port i := by
    intro port i hport hi hne
    obtain ⟨-, h30, -⟩ := cfgOffset_gt port i hport hi
    unfold portReg
    rw [hbank _ _ h30, if_neg]
    rintro ⟨hl, hr⟩
    exact hne (portReg_injective port _ i 1 hport hp hi (by decide) hl hr).2
  refine ⟨c', hchip, ?_, ?_⟩
  · intro port hport
    exact ⟨hother port 0 hport (by decide) (by decide), hother port 2 hport (by decide) (by decide)⟩
  · intro line hline8 hline47
    have hq := portno_bounds line hline8 hline47
    obtain ⟨-, h30, -⟩ := cfgOffset_gt (PORTNO line) 1 hq (by decide)
    unfold dataBit portReg
    rw [hbank _ _ h30]
    by_cases hport : PORTNO line = PORTNO minor.toNat
    · rw [hport, if_pos ⟨rfl, rfl⟩, getLsbD_newData _ _ _ _ (Nat.mod_lt _ (by omega))]
      have hiff : line % 8 = minor.toNat % 8 ↔ line = minor.toNat := by
        unfold PORTNO PORT at hport
        rw [Nat.shiftRight_eq_div_pow, Nat.shiftRight_eq_div_pow] at hport
        omega
      simp only [hiff]
    · rw [if_neg, if_neg]
      · exact fun he => hport (by rw [he])
      · rintro ⟨hl, hr⟩
        exact hport (portReg_injective _ _ 1 1 hq hp (by decide) (by decide) hl hr).1

/-! ## Runs -/

/-- The board after a sequence of calls. -/
def run (drv : Driver) (hw : Machine) (calls : List (Byte × Byte)) : Machine :=
  calls.foldl (fun hw call => (gpioSet drv call.1 call.2 hw).2) hw

/-- The state of the last call on a line, if there was one. -/
def lastSet (line : ℕ) (calls : List (Byte × Byte)) : Option Bool :=
  calls.foldl (fun last call =>
    if line = call.1.toNat then some (decide (call.2 ≠ 0)) else last) none

/-- INTERNAL: the run lemma, from a bit `b` that already reflects the calls before. -/
theorem run_spec (drv : Driver) (calls : List (Byte × Byte))
    (hlines : ∀ call ∈ calls, 8 ≤ call.1.toNat ∧ call.1.toNat ≤ 47) (hw : Machine) (c : Chip)
    (h : hw.chip drv.cirAddr = some c) :
    ∃ c', (run drv hw calls).chip drv.cirAddr = some c' ∧
      (∀ port, 2 ≤ port ∧ port ≤ 6 →
        direction c' port = direction c port ∧ polarity c' port = polarity c port) ∧
      ∀ line, 8 ≤ line → line ≤ 47 → ∀ last : Option Bool, ∀ b : Bool,
        dataBit c line = last.getD b →
        dataBit c' line = (calls.foldl (fun last call =>
          if line = call.1.toNat then some (decide (call.2 ≠ 0)) else last) last).getD b := by
  induction calls generalizing hw c with
  | nil => exact ⟨c, h, fun _ _ => ⟨rfl, rfl⟩, fun _ _ _ _ _ hb => hb⟩
  | cons call calls ih =>
    obtain ⟨hlo, hhi⟩ := hlines call (by simp)
    obtain ⟨c₁, h₁, hregs₁, hbit₁⟩ := gpioSet_ports drv hw c call.1 call.2 h hlo hhi
    obtain ⟨c', h', hregs', hbit'⟩ :=
      ih (fun x hx => hlines x (List.mem_cons_of_mem _ hx)) _ c₁ h₁
    refine ⟨c', h', ?_, ?_⟩
    · intro port hport
      obtain ⟨hd, hpol⟩ := hregs' port hport
      obtain ⟨hd₁, hpol₁⟩ := hregs₁ port hport
      exact ⟨hd.trans hd₁, hpol.trans hpol₁⟩
    · intro line hline8 hline47 last b hb
      rw [List.foldl_cons]
      apply hbit' line hline8 hline47
      rw [hbit₁ line hline8 hline47]
      by_cases hl : line = call.1.toNat
      · simp [hl]
      · simp only [if_neg hl, hb]

/-- **Every run of `w83627dhg_gpio_set` on the lines 8 to 47**, from any register file:
the data bit of a line is the state of the last call on it, or what it was if there
was none; no direction and no polarity register changes. So a call on a line of port
4 never shows in port 6, nor the other way round. -/
theorem gpioSet_run_ports (drv : Driver) (hw : Machine) (c : Chip)
    (h : hw.chip drv.cirAddr = some c) (calls : List (Byte × Byte))
    (hlines : ∀ call ∈ calls, 8 ≤ call.1.toNat ∧ call.1.toNat ≤ 47) :
    ∃ c', (run drv hw calls).chip drv.cirAddr = some c' ∧
      (∀ port, 2 ≤ port ∧ port ≤ 6 →
        direction c' port = direction c port ∧ polarity c' port = polarity c port) ∧
      ∀ line, 8 ≤ line → line ≤ 47 →
        dataBit c' line = (lastSet line calls).getD (dataBit c line) := by
  obtain ⟨c', h', hregs, hbit⟩ := run_spec drv calls hlines hw c h
  exact ⟨c', h', hregs, fun line h8 h47 => hbit line h8 h47 none _ rfl⟩

/-- INTERNAL: a chip with every register clear. -/
def blankChip : Chip := ⟨false, false, 0#8, fun _ => 0#8, fun _ _ => 0#8⟩

/-- A run that sets lines of ports 4 and 6, whose registers have the same indices. -/
theorem gpioSet_run_ports_shared_indices :
    (Machine.mk (some blankChip) none).chip 0x2E#8 = some blankChip ∧
    ∃ c', (run ⟨true, 0x2E#8⟩ (Machine.mk (some blankChip) none)
        [(24#8, 1#8), (40#8, 1#8), (24#8, 0#8)]).chip 0x2E#8 = some c' ∧
      dataBit c' 24 = false ∧ dataBit c' 40 = true ∧ dataBit c' 25 = false := by
  have hlines : ∀ call ∈ [(24#8, 1#8), (40#8, 1#8), (24#8, 0#8)],
      8 ≤ call.1.toNat ∧ call.1.toNat ≤ 47 := by
    intro call hcall
    simp only [List.mem_cons, List.not_mem_nil, or_false] at hcall
    rcases hcall with rfl | rfl | rfl <;> decide
  obtain ⟨c', hchip, -, hbit⟩ := gpioSet_run_ports ⟨true, 0x2E#8⟩
    (Machine.mk (some blankChip) none) blankChip rfl
    [(24#8, 1#8), (40#8, 1#8), (24#8, 0#8)] hlines
  refine ⟨rfl, c', hchip, ?_, ?_, ?_⟩
  · rw [hbit 24 (by decide) (by decide)]
    rfl
  · rw [hbit 40 (by decide) (by decide)]
    rfl
  · rw [hbit 25 (by decide) (by decide)]
    rfl

end TTLinux.Analysis.GpioSet
