import TTLinux.Model.Vt1211Chip

/-!
# The registers of the VT1211 after the initialization

`vt1211_gpio_init` sets bit 5 of register 25h for the ports 2 to 6, disables the flash ROM, activates the GPIO device
and sets the direction and the polarity of the enabled ports. But `vt1211_disable_rom` writes the value for register
25h to the index port: the register keeps what it held, and the value AAh ends configuration mode.
-/

set_option autoImplicit false

namespace TTLinux.Analysis.GpioVt1211

open TTLinux.Lib.SuperIo (Byte)
open TTLinux.Lib.RegisterFile TTLinux.Lib.RegisterFile.Board
open TTLinux.Model.Vt1211 TTLinux.Model.Vt1211Chip
open TTLinux.Model.GpioKernel (Kernel Resource)

/-! ## Accesses -/

section

variable {hw : Board Loc} {cir : Byte} {R : Registers Loc}

/-- INTERNAL: a register is written in configuration mode, which only the value 0xAA ends. -/
theorem config_writeRegister (h : Config hw cir R) (r v : Byte) (hr : r ≠ 0xAA#8) :
    Config (writeRegister io r v cir hw) cir (Function.update R (locate R r) v) := h.write locate r v hr

/-- INTERNAL: and read. -/
theorem config_readRegister (h : Config hw cir R) (r : Byte) (hr : r ≠ 0xAA#8) :
    (readRegister io r cir hw).1 = R (locate R r) ∧ Config (readRegister io r cir hw).2 cir R :=
  ⟨h.read locate r hr, h.index locate r hr⟩

/-- INTERNAL: a write after the mode was left changes no register. -/
theorem left_writeRegister (h : Left hw cir R) (r v : Byte) (hr : r ≠ 0x87#8) :
    Left (writeRegister io r v cir hw) cir R := (h.index locate r hr).data locate v

/-- INTERNAL: and a read finds only ones. -/
theorem left_readRegister (h : Left hw cir R) (r : Byte) (hr : r ≠ 0x87#8) :
    (readRegister io r cir hw).1 = 0xFF#8 ∧ Left (readRegister io r cir hw).2 cir R :=
  ⟨(h.index locate r hr).read locate, h.index locate r hr⟩

end

/-! ## The search for the chip -/

/-- **The chip that is found**: its identification is right, and that of a chip at the first address is not if the
chip is at the second one. -/
structure Found (hw : Board Loc) (cir : Byte) (c : Chip Loc) : Prop where
  chip : hw.chip cir = some c
  id : c.regs (.common 0x20#8) = 0x3C#8
  first : cir = 0x2E#8 ∨ ∀ c₀, hw.chip 0x2E#8 = some c₀ → c₀.regs (.common 0x20#8) ≠ 0x3C#8

/-- INTERNAL: the test of an address with a chip.
SOURCE: vt1211-generic.patch:328-337 -/
theorem test_spec (hw : Board Loc) (cir : Byte) (c : Chip Loc) (h : hw.chip cir = some c) :
    ((test io cir hw).1 = true ↔ c.regs (.common 0x20#8) = 0x3C#8) ∧ Config (test io cir hw).2 cir c.regs := by
  have henter : Config (enterConfig io cir hw) cir c.regs := enter_config locate hw cir c h
  obtain ⟨hid, hread⟩ := config_readRegister henter 0x20#8 (by decide)
  refine ⟨?_, hread⟩
  rw [locate_common _ _ (by decide)] at hid
  change decide ((readRegister io 0x20#8 cir (enterConfig io cir hw)).1 = 0x3C#8) = true ↔ _
  rw [decide_eq_true_iff, hid]

/-- INTERNAL: the test of an address without a chip.
SOURCE: vt1211-generic.patch:328-337 -/
theorem test_none (hw : Board Loc) (h : hw.chip 0x2E#8 = none) : (test io 0x2E#8 hw).1 = false := by
  have hnone : hw.at2E = none := h
  change decide ((((hw.outb locate 0x87#8 0x2E).outb locate 0x87#8 0x2E).outb locate 0x20#8 0x2E).inb locate 0x2F
    = 0x3C#8) = false
  simp [outb, inb, hnone]

/-- INTERNAL: **the chip is found**, and it is in configuration mode then.
SOURCE: vt1211-generic.patch:340-360 -/
theorem find_spec (hw : Board Loc) (cir cir₀ : Byte) (c : Chip Loc) (h : Found hw cir c) :
    ∃ hw', find io cir₀ hw = (0, cir, hw') ∧ Config hw' cir c.regs := by
  by_cases hcir : cir = 0x2E#8
  · subst hcir
    obtain ⟨hid, hconfig⟩ := test_spec hw 0x2E#8 c h.chip
    refine ⟨(test io 0x2E#8 hw).2, ?_, hconfig⟩
    simp only [find, hid.mpr h.id, if_true]
  · -- the first address is tested in vain
    obtain rfl : cir = 0x4E#8 := (cir_of_chip hw cir c h.chip).resolve_left hcir
    have hfirst : (test io 0x2E#8 hw).1 = false := by
      cases hchip : hw.chip 0x2E#8 with
      | none => exact test_none hw hchip
      | some c₀ =>
        apply (Bool.not_eq_true _).mp
        rw [(test_spec hw 0x2E#8 c₀ hchip).1]
        exact h.first.resolve_left hcir c₀ hchip
    have hkept : (test io 0x2E#8 hw).2.chip 0x4E#8 = some c := h.chip
    obtain ⟨hid, hconfig⟩ := test_spec _ 0x4E#8 c hkept
    refine ⟨(test io 0x4E#8 (test io 0x2E#8 hw).2).2, ?_, hconfig⟩
    simp only [find, hfirst, Bool.false_eq_true, if_false, hid.mpr h.id, if_true]

/-! ## The flash ROM and the GPIO device -/

/-- The registers with the flash ROM disabled and its device selected. -/
def romDisabled (R : Registers Loc) : Registers Loc :=
  Function.update (Function.update R (.common 0x07#8) 0x0D#8) (.device 0x0D#8 0x30#8)
    (R (.device 0x0D#8 0x30#8) &&& 0xFE#8)

/-- The registers with the GPIO device selected and activated. -/
def gpioEnabled (R : Registers Loc) : Registers Loc :=
  Function.update (Function.update R (.common 0x07#8) 0x8#8) (.device 0x8#8 0x30#8)
    (R (.device 0x8#8 0x30#8) ||| 0x1#8)

section

variable {hw : Board Loc} {cir : Byte} {R : Registers Loc}

/-- INTERNAL: the activation register of a device that is selected is read and written.
SOURCE: vt1211-generic.patch:201-243, 316-324 -/
theorem config_activation (h : Config hw cir R) (ldn : Byte) (f : Byte → Byte) :
    Config (writeRegister io 0x30#8 (f (readRegister io 0x30#8 cir (writeRegister io 0x07#8 ldn cir hw)).1) cir
      (readRegister io 0x30#8 cir (writeRegister io 0x07#8 ldn cir hw)).2) cir
      (Function.update (Function.update R (.common 0x07#8) ldn) (.device ldn 0x30#8) (f (R (.device ldn 0x30#8)))) := by
  have hselect := config_writeRegister h 0x07#8 ldn (by decide)
  rw [locate_common _ _ (by decide)] at hselect
  obtain ⟨hvalue, hread⟩ := config_readRegister hselect 0x30#8 (by decide)
  have hloc : locate (Function.update R (.common 0x07#8) ldn) 0x30#8 = .device ldn 0x30#8 := by
    rw [locate_device _ _ (by decide) (Or.inr (by decide)), Function.update_self]
  rw [hloc, Function.update_of_ne (by simp)] at hvalue
  have hwrite := config_writeRegister hread 0x30#8 (f (R (.device ldn 0x30#8))) (by decide)
  rw [hloc] at hwrite
  rw [hvalue]
  exact hwrite

/-- INTERNAL: **the flash ROM is disabled**, with register 25h as it was.
SOURCE: vt1211-generic.patch:307-326 -/
theorem config_disableRom (h : Config hw cir R) (hrom : R (.common 0x25#8) ||| 0x20#8 ≠ 0xAA#8) :
    Config (disableRom io cir hw) cir (romDisabled R) := by
  obtain ⟨hvalue, hread⟩ := config_readRegister h 0x25#8 (by decide)
  rw [locate_common _ _ (by decide)] at hvalue
  rw [← hvalue] at hrom
  have hindex : Config (io.outb (io.outb (readRegister io 0x25#8 cir hw).2 0x25#8 cir.toNat)
      ((readRegister io 0x25#8 cir hw).1 ||| 0x20#8) cir.toNat) cir R :=
    (hread.index locate 0x25#8 (by decide)).index locate _ hrom
  exact config_activation hindex 0x0D#8 (· &&& 0xFE#8)

/-- INTERNAL: **configuration mode ends** where the value for register 25h is AAh.
SOURCE: vt1211-generic.patch:307-326 -/
theorem left_disableRom (h : Config hw cir R) (hrom : R (.common 0x25#8) ||| 0x20#8 = 0xAA#8) :
    Left (disableRom io cir hw) cir R := by
  obtain ⟨hvalue, hread⟩ := config_readRegister h 0x25#8 (by decide)
  rw [locate_common _ _ (by decide)] at hvalue
  rw [← hvalue] at hrom
  have hleft : Left (io.outb (io.outb (readRegister io 0x25#8 cir hw).2 0x25#8 cir.toNat)
      ((readRegister io 0x25#8 cir hw).1 ||| 0x20#8) cir.toNat) cir R := by
    rw [hrom]
    exact (hread.index locate 0x25#8 (by decide)).leave locate
  have hselect := left_writeRegister hleft 0x07#8 0x0D#8 (by decide)
  obtain ⟨-, hactivation⟩ := left_readRegister hselect 0x30#8 (by decide)
  exact left_writeRegister hactivation 0x30#8 _ (by decide)

/-- INTERNAL: **the GPIO device is selected and activated.**
SOURCE: vt1211-generic.patch:201-205, 229-243 -/
theorem config_enableGpio (h : Config hw cir R) :
    Config (enableGpio io cir (selectLdnGpio io cir hw)) cir (gpioEnabled R) :=
  config_activation h 0x8#8 (· ||| 0x1#8)

/-- INTERNAL: a port is not enabled then. -/
theorem left_enableGpio (h : Left hw cir R) : Left (enableGpio io cir (selectLdnGpio io cir hw)) cir R := by
  have hselect := left_writeRegister h 0x07#8 0x8#8 (by decide)
  obtain ⟨-, hactivation⟩ := left_readRegister hselect 0x30#8 (by decide)
  exact left_writeRegister hactivation 0x30#8 _ (by decide)

/-- INTERNAL: the base address of the GPIO device.
SOURCE: vt1211-generic.patch:215-226 -/
theorem config_gpiobase (h : Config hw cir R) (hldn : R (.common 0x07#8) = 0x8#8) :
    (gpiobase io cir hw).1 = (R (.device 0x8#8 0x60#8)).toNat <<< 8 + (R (.device 0x8#8 0x61#8)).toNat ∧
      Config (gpiobase io cir hw).2 cir R := by
  obtain ⟨hhigh, hreadHigh⟩ := config_readRegister h 0x60#8 (by decide)
  obtain ⟨hlow, hreadLow⟩ := config_readRegister hreadHigh 0x61#8 (by decide)
  rw [locate_device _ _ (by decide) (Or.inr (by decide)), hldn] at hhigh hlow
  refine ⟨?_, hreadLow⟩
  rw [← hhigh, ← hlow]
  rfl

/-- INTERNAL: and the base address cannot be read. -/
theorem left_gpiobase (h : Left hw cir R) : (gpiobase io cir hw).1 = 0xFFFF ∧ Left (gpiobase io cir hw).2 cir R := by
  obtain ⟨hhigh, hreadHigh⟩ := left_readRegister h 0x60#8 (by decide)
  obtain ⟨hlow, hreadLow⟩ := left_readRegister hreadHigh 0x61#8 (by decide)
  refine ⟨?_, hreadLow⟩
  change (readRegister io 0x60#8 cir hw).1.toNat <<< 8 +
    (readRegister io 0x61#8 cir (readRegister io 0x60#8 cir hw).2).1.toNat = 0xFFFF
  rw [hhigh, hlow]
  rfl

end

/-! ## The ports -/

/-- The value of register F0h that selects a port. -/
def portSelect (pn : ℕ) : Byte := if pn ≠ 0 then BitVec.ofNat 8 (pn - 1) else 0

/-- A port that `setup_gpio` sets up. -/
def Enabled (portmask : Byte) (pn : ℕ) : Prop := pn ≠ 1 ∧ pn ≠ 6 ∧ portmask.getLsbD pn = true

instance (portmask : Byte) (pn : ℕ) : Decidable (Enabled portmask pn) := inferInstanceAs (Decidable (_ ∧ _ ∧ _))

/-- INTERNAL: one port in the loop of `setup_gpio`.
SOURCE: vt1211-generic.patch:256-282 -/
def setupPort (v : Vars) (hw : Board Loc) (pn : ℕ) : Board Loc :=
  if Enabled v.portmask pn then
    let (byte, hw) := readRegister io 0xF0#8 v.cirAddr hw
    let hw := writeRegister io 0xF0#8 ((byte &&& 0xF8#8) ||| portSelect pn) v.cirAddr hw
    let hw := writeRegister io 0xF2#8 (v.polarity pn) v.cirAddr hw
    writeRegister io 0xF1#8 (v.outmask pn) v.cirAddr hw
  else hw

/-- INTERNAL: two ports are not selected by the same value. -/
theorem portSelect_injective (portmask : Byte) (p q : ℕ) (hp : Enabled portmask p ∧ p < 7)
    (hq : Enabled portmask q ∧ q < 7) (h : portSelect p = portSelect q) : p = q := by
  have hall : ∀ p < 7, ∀ q < 7, p ≠ 1 → q ≠ 1 → portSelect p = portSelect q → p = q := by decide
  exact hall p hp.2 q hq.2 hp.1.1 hq.1.1 h

/-- INTERNAL: the value of register F0h selects the port. -/
theorem selected_port (byte : Byte) (pn : ℕ) (hpn : pn < 7) :
    (byte &&& 0xF8#8 ||| portSelect pn) &&& 0x7#8 = portSelect pn := by
  revert byte pn
  decide +kernel

/-- The registers that are written for some ports. -/
def PortWritten (portmask : Byte) (ports : List ℕ) (l : Loc) : Prop :=
  l = .device 0x8#8 0xF0#8 ∨
    ∃ pn ∈ ports, Enabled portmask pn ∧ (l = .port (portSelect pn) 0xF1#8 ∨ l = .port (portSelect pn) 0xF2#8)

/-- **Some ports are set up**, and no other register is written. -/
structure PortsSet (portmask : Byte) (outmask polarity : ℕ → Byte) (ports : List ℕ) (R R' : Registers Loc) : Prop where
  direction : ∀ pn ∈ ports, Enabled portmask pn → R' (.port (portSelect pn) 0xF1#8) = outmask pn
  polarity : ∀ pn ∈ ports, Enabled portmask pn → R' (.port (portSelect pn) 0xF2#8) = polarity pn
  others : ∀ l, ¬ PortWritten portmask ports l → R' l = R l

section

variable {portmask : Byte} {outmask polarity : ℕ → Byte}

/-- INTERNAL: what is set up for a port stays when other ports are set up. -/
theorem PortsSet.kept {ports : List ℕ} {R R' : Registers Loc} (h : PortsSet portmask outmask polarity ports R R')
    (pn : ℕ) (henabled : Enabled portmask pn) (hpn : pn < 7) (hports : ∀ q ∈ ports, q < 7) (hnot : pn ∉ ports) (r : Byte) :
    R' (.port (portSelect pn) r) = R (.port (portSelect pn) r) := by
  apply h.others
  rintro (heq | ⟨q, hq, hq', heq⟩)
  · cases heq
  · have hsame : portSelect pn = portSelect q := by
      rcases heq with heq | heq
      · exact (Loc.port.inj heq).1
      · exact (Loc.port.inj heq).1
    obtain rfl := portSelect_injective portmask pn q ⟨henabled, hpn⟩ ⟨hq', hports q hq⟩ hsame
    exact hnot hq

/-- INTERNAL: one port that was set up before the others. -/
theorem PortsSet.cons {ports : List ℕ} {pn : ℕ} {R R₁ R' : Registers Loc}
    (h : PortsSet portmask outmask polarity [pn] R R₁) (h' : PortsSet portmask outmask polarity ports R₁ R')
    (hpn : pn < 7) (hports : ∀ q ∈ ports, q < 7) (hnot : pn ∉ ports) :
    PortsSet portmask outmask polarity (pn :: ports) R R' := by
  refine ⟨?_, ?_, ?_⟩
  · intro p hp henabled
    rcases List.mem_cons.mp hp with rfl | hp
    · rw [h'.kept p henabled hpn hports hnot]
      exact h.direction p (List.mem_singleton.mpr rfl) henabled
    · exact h'.direction p hp henabled
  · intro p hp henabled
    rcases List.mem_cons.mp hp with rfl | hp
    · rw [h'.kept p henabled hpn hports hnot]
      exact h.polarity p (List.mem_singleton.mpr rfl) henabled
    · exact h'.polarity p hp henabled
  · intro l hl
    rw [h'.others l, h.others l]
    · rintro (hbank | ⟨q, hq, hwritten⟩)
      · exact hl (Or.inl hbank)
      · rw [List.mem_singleton.mp hq] at hwritten
        exact hl (Or.inr ⟨pn, List.mem_cons_self, hwritten⟩)
    · rintro (hbank | ⟨q, hq, hwritten⟩)
      · exact hl (Or.inl hbank)
      · exact hl (Or.inr ⟨q, List.mem_cons_of_mem pn hq, hwritten⟩)

end

section

variable {v : Vars} {hw : Board Loc} {R : Registers Loc}

/-- INTERNAL: **one port is set up.**
SOURCE: vt1211-generic.patch:256-282 -/
theorem config_setupPort (h : Config hw v.cirAddr R) (hldn : R (.common 0x07#8) = 0x8#8) (pn : ℕ) (hpn : pn < 7) :
    ∃ R', Config (setupPort v hw pn) v.cirAddr R' ∧ PortsSet v.portmask v.outmask v.polarity [pn] R R' := by
  by_cases henabled : Enabled v.portmask pn
  · have hselect : locate R 0xF0#8 = .device 0x8#8 0xF0#8 := by
      rw [locate_device _ _ (by decide) (Or.inr (by decide)), hldn]
    obtain ⟨hvalue, hread⟩ := config_readRegister h 0xF0#8 (by decide)
    rw [hselect] at hvalue
    have h₀ := config_writeRegister hread 0xF0#8 ((readRegister io 0xF0#8 v.cirAddr hw).1 &&& 0xF8#8 ||| portSelect pn)
      (by decide)
    rw [hselect] at h₀
    -- register F0h selects the port for the two others
    have h₂ := config_writeRegister h₀ 0xF2#8 (v.polarity pn) (by decide)
    rw [locate_port _ _ (by rw [Function.update_of_ne (by simp), hldn]) (Or.inr rfl), Function.update_self,
      selected_port _ _ hpn] at h₂
    have h₁ := config_writeRegister h₂ 0xF1#8 (v.outmask pn) (by decide)
    rw [locate_port _ _ (by rw [Function.update_of_ne (by simp), Function.update_of_ne (by simp), hldn]) (Or.inl rfl),
      Function.update_of_ne (by simp), Function.update_self, selected_port _ _ hpn] at h₁
    rw [setupPort, if_pos henabled]
    refine ⟨_, h₁, ?_, ?_, ?_⟩
    · intro p hp _
      rw [List.mem_singleton.mp hp, Function.update_self]
    · intro p hp _
      rw [List.mem_singleton.mp hp, Function.update_of_ne (by simp), Function.update_self]
    · intro l hl
      have hdirection : l ≠ .port (portSelect pn) 0xF1#8 :=
        fun heq => hl (Or.inr ⟨pn, List.mem_singleton.mpr rfl, henabled, Or.inl heq⟩)
      have hpolarity : l ≠ .port (portSelect pn) 0xF2#8 :=
        fun heq => hl (Or.inr ⟨pn, List.mem_singleton.mpr rfl, henabled, Or.inr heq⟩)
      have hbank : l ≠ .device 0x8#8 0xF0#8 := fun heq => hl (Or.inl heq)
      rw [Function.update_of_ne hdirection, Function.update_of_ne hpolarity, Function.update_of_ne hbank]
  · rw [setupPort, if_neg henabled]
    refine ⟨R, h, ?_, ?_, fun _ _ => rfl⟩
    · intro p hp hp'
      rw [List.mem_singleton.mp hp] at hp'
      exact absurd hp' henabled
    · intro p hp hp'
      rw [List.mem_singleton.mp hp] at hp'
      exact absurd hp' henabled

/-- INTERNAL: **the loop of `setup_gpio`**, by induction on the ports that are left.
SOURCE: vt1211-generic.patch:255-283 -/
theorem config_foldl_setupPort (ports : List ℕ) (hnodup : ports.Nodup) (hports : ∀ q ∈ ports, q < 7)
    (h : Config hw v.cirAddr R) (hldn : R (.common 0x07#8) = 0x8#8) :
    ∃ R', Config (ports.foldl (setupPort v) hw) v.cirAddr R' ∧ PortsSet v.portmask v.outmask v.polarity ports R R' := by
  induction ports generalizing hw R with
  | nil => exact ⟨R, h, fun _ hp => absurd hp List.not_mem_nil, fun _ hp => absurd hp List.not_mem_nil, fun _ _ => rfl⟩
  | cons pn ports ih =>
    obtain ⟨hnot, hnodup⟩ := List.nodup_cons.mp hnodup
    have hpn : pn < 7 := hports pn List.mem_cons_self
    have hrest : ∀ q ∈ ports, q < 7 := fun q hq => hports q (List.mem_cons_of_mem pn hq)
    obtain ⟨R₁, h₁, hset₁⟩ := config_setupPort h hldn pn hpn
    have hldn₁ : R₁ (.common 0x07#8) = 0x8#8 := by
      rw [hset₁.others, hldn]
      simp [PortWritten]
    obtain ⟨R', h', hset'⟩ := ih hnodup hrest h₁ hldn₁
    exact ⟨R', h', hset₁.cons hset' hpn hrest hnot⟩

/-- INTERNAL: no port is set up after the mode was left. -/
theorem left_foldl_setupPort (ports : List ℕ) (h : Left hw v.cirAddr R) :
    Left (ports.foldl (setupPort v) hw) v.cirAddr R := by
  induction ports generalizing hw with
  | nil => exact h
  | cons pn ports ih =>
    apply ih
    unfold setupPort
    split_ifs
    · obtain ⟨-, hread⟩ := left_readRegister h 0xF0#8 (by decide)
      apply left_writeRegister _ _ _ (by decide)
      apply left_writeRegister _ _ _ (by decide)
      exact left_writeRegister hread _ _ (by decide)
    · exact h

end

/-! ## The initialization -/

/-- The ports in the order of `setup_gpio`. -/
def allPorts : List ℕ := [6, 5, 4, 3, 2, 1, 0]

/-- The masks of the outputs, with that of port 6 reduced to its three lines.
SOURCE: vt1211-generic.patch:664-666 -/
def sanitized (outmask : ℕ → Byte) : ℕ → Byte :=
  if outmask 5 &&& 0xF4#8 ≠ 0 then Function.update outmask 5 (outmask 5 &&& 0x7#8) else outmask

/-- The base address of the region that is requested: the one that is given, or the one that the chip reports. After
`disable_rom` has ended configuration mode, nothing answers.
SOURCE: vt1211-generic.patch:689-695 -/
def requestedBase (gpioBase : ℕ) (portmask : Byte) (R : Registers Loc) : ℕ :=
  if gpioBase ≠ 0 then gpioBase
  else if portmask &&& 0x3E#8 ≠ 0 ∧ R (.common 0x25#8) ||| 0x20#8 = 0xAA#8 then 0xFFFF
  else (R (.device 0x8#8 0x60#8)).toNat <<< 8 + (R (.device 0x8#8 0x61#8)).toNat

section

variable {k : Kernel} {s : System (Board Loc)} {R : Registers Loc}

/-- INTERNAL: asking for the region keeps address and mask. -/
theorem requestGpio_vars {M : Type} (io : PortIo M) (k : Kernel) (rc : ℤ) (s : System M) :
    (requestGpio io k rc s).2.vars.cirAddr = s.vars.cirAddr ∧
      (requestGpio io k rc s).2.vars.portmask = s.vars.portmask := by
  simp only [requestGpio]
  split_ifs
  · exact ⟨rfl, rfl⟩
  · exact ⟨rfl, rfl⟩
  · exact ⟨rfl, rfl⟩
  · exact ⟨rfl, rfl⟩
  · exact ⟨rfl, rfl⟩

/-- INTERNAL: registering the lines touches neither the chip nor the address. -/
theorem registerLines_kept {M : Type} (k : Kernel) (stack : ℕ → Resource) (count : TTLinux.Model.GpioKernel.DevCount)
    (rc : ℤ) (s : System M) :
    (registerLines k stack count rc s).2.hw = s.hw ∧
      (registerLines k stack count rc s).2.vars.cirAddr = s.vars.cirAddr := by
  unfold registerLines
  by_cases hrc : rc = 0
  · simp only [if_pos hrc]
    by_cases hnum : (TTLinux.Model.GpioKernel.allocateNumbers k s.vars.major s.vars.firstminor s.vars.numdevs).1 = 0
    · simp only [if_pos hnum]
      split_ifs <;> exact ⟨rfl, rfl⟩
    · simp only [if_neg hnum]
      split_ifs <;> exact ⟨rfl, rfl⟩
  · simp only [if_neg hrc]
    split_ifs <;> exact ⟨rfl, rfl⟩

/-- INTERNAL: **the ports are set up** once the region is granted.
SOURCE: vt1211-generic.patch:688-704 -/
theorem config_requestGpio (rc : ℤ) (hmask : s.vars.portmask &&& 0x3D#8 ≠ 0) (h : Config s.hw s.vars.cirAddr R)
    (hldn : R (.common 0x07#8) = 0x8#8)
    (hgranted : k.requestRegion (if s.vars.gpioBase = 0 then (gpiobase io s.vars.cirAddr s.hw).1
      else s.vars.gpioBase) VT1211_GPIO_SIZE = true) :
    ∃ R', Config (requestGpio io k rc s).2.hw s.vars.cirAddr R' ∧
      PortsSet s.vars.portmask s.vars.outmask s.vars.polarity allPorts R R' := by
  have hnodup : allPorts.Nodup := by decide
  have hports : ∀ q ∈ allPorts, q < 7 := by decide
  obtain ⟨-, hread⟩ := config_gpiobase h hldn
  simp only [requestGpio, if_neg hmask]
  by_cases hgiven : s.vars.gpioBase = 0
  · rw [if_pos hgiven] at hgranted
    simp only [if_pos hgiven, hgranted, if_true]
    exact config_foldl_setupPort (v := { s.vars with
      gpioBase := (gpiobase io s.vars.cirAddr s.hw).1, gpioMapped := true }) allPorts hnodup hports hread hldn
  · rw [if_neg hgiven] at hgranted
    simp only [if_neg hgiven, hgranted, if_true]
    exact config_foldl_setupPort (v := { s.vars with gpioMapped := true }) allPorts hnodup hports h hldn

/-- INTERNAL: the mode is still left when the region is asked for. -/
theorem left_requestGpio (rc : ℤ) (hmask : s.vars.portmask &&& 0x3D#8 ≠ 0) (h : Left s.hw s.vars.cirAddr R) :
    Left (requestGpio io k rc s).2.hw s.vars.cirAddr R := by
  obtain ⟨-, hread⟩ := left_gpiobase h
  simp only [requestGpio, if_neg hmask]
  split_ifs
  · exact left_foldl_setupPort (v := { s.vars with
      gpioBase := (gpiobase io s.vars.cirAddr s.hw).1, gpioMapped := true }) allPorts hread
  · exact hread
  · exact left_foldl_setupPort (v := { s.vars with gpioMapped := true }) allPorts h
  · exact h

end

/-- The system when the region of the ports is requested, once the chip was found at `cir`.
SOURCE: vt1211-generic.patch:671-685 -/
def prepared (s : System (Board Loc)) (portmask : Byte) (outmask : ℕ → Byte) (cir : Byte) (hw : Board Loc) :
    System (Board Loc) :=
  { s with
    vars := { s.vars with portmask := portmask, outmask := outmask, cirAddr := cir }
    hw := enableGpio io cir (selectLdnGpio io cir
      (if portmask &&& 0x3E#8 ≠ 0 then disableRom io cir hw else hw)) }

/-- INTERNAL: what `setupChip` leaves on the board is what the request for the ports leaves, out of configuration mode.
SOURCE: vt1211-generic.patch:672-786 -/
theorem setupChip_hw (k : Kernel) (stack : ℕ → Resource) (s : System (Board Loc)) (cir : Byte) (hw : Board Loc)
    (hwkup : s.vars.portmask &&& 0x42#8 = 0) (hfind : find io s.vars.cirAddr s.hw = (0, cir, hw)) :
    (setupChip io k stack s).2.hw =
      exitConfig io cir (requestGpio io k 0 (prepared s s.vars.portmask s.vars.outmask cir hw)).2.hw := by
  have hrequest := requestGpio_vars io k 0 (prepared s s.vars.portmask s.vars.outmask cir hw)
  unfold prepared at hrequest ⊢
  simp only [setupChip, hfind]
  generalize requestGpio io k 0 _ = request at hrequest ⊢
  obtain ⟨rc, t⟩ := request
  obtain ⟨hcir, hmask⟩ := hrequest
  have hgo : requestWkup io k t = (true, t) := by
    rw [requestWkup, if_pos]
    exact (congrArg (· &&& 0x42#8) hmask).trans hwkup
  obtain ⟨hhw, hregistered⟩ := registerLines_kept k stack (mapLines t.vars).2 rc { t with vars := (mapLines t.vars).1 }
  rw [hgo]
  simp only [hhw, hregistered]
  exact congrArg (exitConfig io · t.hw) hcir

/-- INTERNAL: **what an accepted call leaves on the board.**
SOURCE: vt1211-generic.patch:641-787 -/
theorem gpioInit_hw (k : Kernel) (stack : ℕ → Resource) (s : System (Board Loc)) (portmask cir : Byte) (hw : Board Loc)
    (hportmask : portmask = s.vars.portmask &&& 0x7F#8) (hwkup : portmask &&& 0x42#8 = 0) (hne : portmask ≠ 0)
    (hfind : find io s.vars.cirAddr s.hw = (0, cir, hw)) :
    (gpioInit io k stack s).2.hw =
      exitConfig io cir (requestGpio io k 0 (prepared s portmask (sanitized s.vars.outmask) cir hw)).2.hw := by
  subst hportmask
  rw [gpioInit, if_neg (not_not.mpr hwkup), if_neg hne]
  exact setupChip_hw k stack _ cir hw hwkup hfind

section

variable {s : System (Board Loc)} {portmask cir : Byte} {hw : Board Loc} {R : Registers Loc} (outmask : ℕ → Byte)

/-- INTERNAL: the GPIO device is activated while the chip listens.
SOURCE: vt1211-generic.patch:674-685 -/
theorem config_prepared (h : Config hw cir R)
    (hrom : ¬ (portmask &&& 0x3E#8 ≠ 0 ∧ R (.common 0x25#8) ||| 0x20#8 = 0xAA#8)) :
    Config (prepared s portmask outmask cir hw).hw cir
      (gpioEnabled (if portmask &&& 0x3E#8 ≠ 0 then romDisabled R else R)) := by
  apply config_enableGpio
  split_ifs with hports
  · exact config_disableRom h fun hended => hrom ⟨hports, hended⟩
  · exact h

/-- INTERNAL: the write that disables the ROM may leave the mode. -/
theorem left_prepared (h : Config hw cir R) (hports : portmask &&& 0x3E#8 ≠ 0)
    (hrom : R (.common 0x25#8) ||| 0x20#8 = 0xAA#8) : Left (prepared s portmask outmask cir hw).hw cir R := by
  apply left_enableGpio
  rw [if_pos hports]
  exact left_disableRom h hrom

/-- INTERNAL: the base address that is requested.
SOURCE: vt1211-generic.patch:689-695 -/
theorem prepared_base (h : Config hw cir R) :
    (if s.vars.gpioBase = 0 then (gpiobase io cir (prepared s portmask outmask cir hw).hw).1 else s.vars.gpioBase) =
      requestedBase s.vars.gpioBase portmask R := by
  unfold requestedBase
  by_cases hgiven : s.vars.gpioBase = 0
  · rw [if_pos hgiven, if_neg (not_not.mpr hgiven)]
    by_cases hrom : portmask &&& 0x3E#8 ≠ 0 ∧ R (.common 0x25#8) ||| 0x20#8 = 0xAA#8
    · rw [if_pos hrom]
      exact (left_gpiobase (left_prepared outmask h hrom.1 hrom.2)).1
    · rw [if_neg hrom, (config_gpiobase (config_prepared outmask h hrom) (by simp [gpioEnabled])).1]
      split_ifs <;> simp [gpioEnabled, romDisabled]
  · rw [if_neg hgiven, if_pos hgiven]

end

/-- INTERNAL: a mask that is accepted enables a port of the GPIO device. -/
theorem port_of_accepted (portmask given : Byte) (hportmask : portmask = given &&& 0x7F#8)
    (hwkup : portmask &&& 0x42#8 = 0) (hne : portmask ≠ 0) : portmask &&& 0x3D#8 ≠ 0 := by
  subst hportmask
  revert given
  decide +kernel

/-! ## What the registers hold -/

/-- **The registers that the initialization may write**: 07h and F0h, which select, the activation of the GPIO device,
25h and the activation of the flash ROM for the ports 2 to 6, and those of the enabled ports. -/
def Written (portmask : Byte) (l : Loc) : Prop :=
  l = .common 0x07#8 ∨ l = .device 0x8#8 0xF0#8 ∨ l = .device 0x8#8 0x30#8 ∨
    (portmask &&& 0x3E#8 ≠ 0 ∧ (l = .common 0x25#8 ∨ l = .device 0x0D#8 0x30#8)) ∨
      ∃ pn < 7, portmask.getLsbD pn = true ∧ (l = .port (portSelect pn) 0xF1#8 ∨ l = .port (portSelect pn) 0xF2#8)

/-- **What the initialization is to do to the registers** of the chip. -/
structure Initialised (portmask : Byte) (outmask polarity : ℕ → Byte) (R R' : Registers Loc) : Prop where
  /-- For the ports 2 to 6, bit 5 of register 25h is set and the flash ROM is disabled. -/
  rom : portmask &&& 0x3E#8 ≠ 0 → R' (.common 0x25#8) = R (.common 0x25#8) ||| 0x20#8 ∧
    R' (.device 0x0D#8 0x30#8) = R (.device 0x0D#8 0x30#8) &&& 0xFE#8
  gpio : R' (.device 0x8#8 0x30#8) = R (.device 0x8#8 0x30#8) ||| 0x1#8
  direction : ∀ pn < 7, portmask.getLsbD pn = true → R' (.port (portSelect pn) 0xF1#8) = outmask pn
  polarity : ∀ pn < 7, portmask.getLsbD pn = true → R' (.port (portSelect pn) 0xF2#8) = polarity pn
  others : ∀ l, ¬ Written portmask l → R' l = R l

/-- **The registers are as they are to be**, before anything is written. -/
structure AlreadySet (portmask : Byte) (outmask polarity : ℕ → Byte) (R : Registers Loc) : Prop where
  rom : portmask &&& 0x3E#8 ≠ 0 → (R (.common 0x25#8)).getLsbD 5 = true ∧ (R (.device 0x0D#8 0x30#8)).getLsbD 0 = false
  gpio : (R (.device 0x8#8 0x30#8)).getLsbD 0 = true
  direction : ∀ pn < 7, portmask.getLsbD pn = true → R (.port (portSelect pn) 0xF1#8) = outmask pn
  polarity : ∀ pn < 7, portmask.getLsbD pn = true → R (.port (portSelect pn) 0xF2#8) = polarity pn

/-- INTERNAL: what the three changes of a byte leave as it is. -/
theorem unchanged_iff (b : Byte) : (b = b ||| 0x20#8 ↔ b.getLsbD 5 = true) ∧
    (b = b &&& 0xFE#8 ↔ b.getLsbD 0 = false) ∧ (b = b ||| 0x1#8 ↔ b.getLsbD 0 = true) := by
  revert b
  decide +kernel

/-- INTERNAL: registers that nothing is written to are initialised exactly if they are already set. -/
theorem initialised_self_iff (portmask : Byte) (outmask polarity : ℕ → Byte) (R : Registers Loc) :
    Initialised portmask outmask polarity R R ↔ AlreadySet portmask outmask polarity R := by
  constructor
  · intro h
    refine ⟨?_, ((unchanged_iff _).2.2).mp h.gpio, h.direction, h.polarity⟩
    intro hports
    obtain ⟨hselect, hactivation⟩ := h.rom hports
    exact ⟨((unchanged_iff _).1).mp hselect, ((unchanged_iff _).2.1).mp hactivation⟩
  · intro h
    refine ⟨?_, ((unchanged_iff _).2.2).mpr h.gpio, h.direction, h.polarity, fun _ _ => rfl⟩
    intro hports
    obtain ⟨hselect, hactivation⟩ := h.rom hports
    exact ⟨((unchanged_iff _).1).mpr hselect, ((unchanged_iff _).2.1).mpr hactivation⟩

/-- INTERNAL: without the ports 2 and 7, every port of the mask is set up. -/
theorem enabled_iff (portmask : Byte) (hwkup : portmask &&& 0x42#8 = 0) (pn : ℕ) :
    Enabled portmask pn ↔ portmask.getLsbD pn = true := by
  refine ⟨fun h => h.2.2, fun h => ⟨?_, ?_, h⟩⟩
  · rintro rfl
    have hbit := congrArg (BitVec.getLsbD · 1) hwkup
    rw [BitVec.getLsbD_and, h] at hbit
    exact absurd hbit (by decide)
  · rintro rfl
    have hbit := congrArg (BitVec.getLsbD · 6) hwkup
    rw [BitVec.getLsbD_and, h] at hbit
    exact absurd hbit (by decide)

/-- INTERNAL: the ports of the chip. -/
theorem mem_allPorts (pn : ℕ) : pn ∈ allPorts ↔ pn < 7 := by
  simp only [allPorts, List.mem_cons, List.not_mem_nil, or_false]
  omega

/-- INTERNAL: **the registers after all writes** are the ones that are due, except that register 25h is as it was. -/
theorem initialised_iff_of_portsSet (portmask : Byte) (outmask polarity : ℕ → Byte) (R R' : Registers Loc)
    (hwkup : portmask &&& 0x42#8 = 0)
    (h : PortsSet portmask outmask polarity allPorts
      (gpioEnabled (if portmask &&& 0x3E#8 ≠ 0 then romDisabled R else R)) R') :
    Initialised portmask outmask polarity R R' ↔ (portmask &&& 0x3E#8 ≠ 0 → (R (.common 0x25#8)).getLsbD 5 = true) := by
  have hcommon : ∀ r, r ≠ 0x07#8 → R' (.common r) = R (.common r) := by
    intro r hr
    rw [h.others _ (by simp [PortWritten])]
    split_ifs <;> simp [gpioEnabled, romDisabled, hr]
  have hgpio : R' (.device 0x8#8 0x30#8) = R (.device 0x8#8 0x30#8) ||| 0x1#8 := by
    rw [h.others _ (by simp [PortWritten])]
    split_ifs <;> simp [gpioEnabled, romDisabled]
  constructor
  · intro hinit hports
    obtain ⟨hselect, -⟩ := hinit.rom hports
    rw [hcommon _ (by decide)] at hselect
    exact ((unchanged_iff _).1).mp hselect
  · intro hbit
    refine ⟨?_, hgpio, ?_, ?_, ?_⟩
    · intro hports
      refine ⟨?_, ?_⟩
      · rw [hcommon _ (by decide)]
        exact ((unchanged_iff _).1).mpr (hbit hports)
      · rw [h.others _ (by simp [PortWritten]), if_pos hports]
        simp [gpioEnabled, romDisabled]
    · intro pn hpn henabled
      exact h.direction pn ((mem_allPorts pn).mpr hpn) ((enabled_iff portmask hwkup pn).mpr henabled)
    · intro pn hpn henabled
      exact h.polarity pn ((mem_allPorts pn).mpr hpn) ((enabled_iff portmask hwkup pn).mpr henabled)
    · intro l hl
      simp only [Written, not_or] at hl
      obtain ⟨hldn, hbank, hactivation, hrom, hports⟩ := hl
      rw [h.others l]
      · split_ifs with hmask
        · have hflash : l ≠ .device 0x0D#8 0x30#8 := fun heq => hrom ⟨hmask, Or.inr heq⟩
          simp [gpioEnabled, romDisabled, hldn, hactivation, hflash]
        · simp [gpioEnabled, hldn, hactivation]
      · rintro (heq | ⟨pn, hpn, henabled, heq⟩)
        · exact hbank heq
        · exact hports ⟨pn, (mem_allPorts pn).mp hpn, (enabled_iff portmask hwkup pn).mp henabled, heq⟩

/-- **The initialization does what it is to do exactly if** only port 1 is enabled, or bit 5 of register 25h is set
before and the register is not AAh, or all registers are already as they are to be. Otherwise register 25h stays without
bit 5, or configuration mode ends in `disable_rom` and no register is written.
SOURCE: vt1211-generic.patch:188-326, 641-787 -/
theorem gpioInit_iff (k : Kernel) (stack : ℕ → Resource) (s : System (Board Loc)) (cir : Byte) (c : Chip Loc)
    (portmask : Byte) (hportmask : portmask = s.vars.portmask &&& 0x7F#8) (hwkup : portmask &&& 0x42#8 = 0)
    (hne : portmask ≠ 0) (hfound : Found s.hw cir c)
    (hgranted : k.requestRegion (requestedBase s.vars.gpioBase portmask c.regs) VT1211_GPIO_SIZE = true) :
    ∃ c', (gpioInit io k stack s).2.hw.chip cir = some c' ∧
      (Initialised portmask (sanitized s.vars.outmask) s.vars.polarity c.regs c'.regs ↔
        portmask &&& 0x3E#8 = 0 ∨ ((c.regs (.common 0x25#8)).getLsbD 5 = true ∧ c.regs (.common 0x25#8) ≠ 0xAA#8) ∨
          AlreadySet portmask (sanitized s.vars.outmask) s.vars.polarity c.regs) := by
  obtain ⟨hw, hfind, hconfig⟩ := find_spec s.hw cir s.vars.cirAddr c hfound
  have hmask : portmask &&& 0x3D#8 ≠ 0 := port_of_accepted portmask s.vars.portmask hportmask hwkup hne
  rw [gpioInit_hw k stack s portmask cir hw hportmask hwkup hne hfind]
  by_cases hended : portmask &&& 0x3E#8 ≠ 0 ∧ c.regs (.common 0x25#8) ||| 0x20#8 = 0xAA#8
  · -- configuration mode has ended
    obtain ⟨hports, hrom⟩ := hended
    have hprepared : Left (prepared s portmask (sanitized s.vars.outmask) cir hw).hw cir c.regs :=
      left_prepared _ hconfig hports hrom
    obtain ⟨c', hchip, -, -, hregs⟩ := (left_requestGpio (k := k) 0 hmask hprepared).index locate 0xAA#8 (by decide)
    refine ⟨c', hchip, ?_⟩
    rw [hregs, initialised_self_iff]
    constructor
    · intro h
      exact Or.inr (Or.inr h)
    · rintro (hnone | ⟨hbit, hother⟩ | h)
      · exact absurd hnone hports
      · rw [← ((unchanged_iff _).1).mpr hbit] at hrom
        exact absurd hrom hother
      · exact h
  · -- every register but 25h is written
    have hprepared : Config (prepared s portmask (sanitized s.vars.outmask) cir hw).hw cir _ :=
      config_prepared _ hconfig hended
    rw [← prepared_base (sanitized s.vars.outmask) hconfig] at hgranted
    obtain ⟨R', hset, hports⟩ := config_requestGpio 0 hmask hprepared (by simp [gpioEnabled]) hgranted
    obtain ⟨c', hchip, -, -, hregs⟩ := hset.leave locate
    refine ⟨c', hchip, ?_⟩
    rw [hregs, initialised_iff_of_portsSet portmask (sanitized s.vars.outmask) s.vars.polarity c.regs R' hwkup hports]
    constructor
    · intro hbit
      by_cases hnone : portmask &&& 0x3E#8 = 0
      · exact Or.inl hnone
      · refine Or.inr (Or.inl ⟨hbit hnone, ?_⟩)
        intro hrom
        exact hended ⟨hnone, by rw [hrom]; decide⟩
    · rintro (hnone | ⟨hbit, -⟩ | h) hany
      · exact absurd hnone hany
      · exact hbit
      · exact (h.rom hany).1

/-- A board with a VT1211 at 2Eh whose registers hold `regs`. -/
def boardWith (regs : Registers Loc) : Board Loc := ⟨some ⟨false, false, 0x0#8, regs⟩, none⟩

/-- Zeros in all registers but the identification and register 25h. -/
def regsWith (rom : Byte) (l : Loc) : Byte :=
  if l = .common 0x20#8 then 0x3C#8 else if l = .common 0x25#8 then rom else 0x0#8

/-- A kernel that grants everything. -/
def granting : Kernel := ⟨fun _ _ => true, fun _ _ _ => 0, fun _ _ => (0, 240), fun _ _ => true⟩

/-- The module with its default parameters, on a board. -/
def loading (hw : Board Loc) : System (Board Loc) :=
  ⟨⟨0, 0x0#8, 0, 0, 0x30#8, fun _ => 0x0#8, fun _ => 0x0#8, fun _ => ⟨.nc, []⟩, .null, .null, 0, 0, false, false⟩,
    hw, []⟩

/-- **With the default port mask, register 25h stays 00h**, where bit 5 is to be set. -/
theorem rom_register_kept :
    ∃ c', (gpioInit io granting (fun _ => ⟨[], 0, 0, 0⟩) (loading (boardWith (regsWith 0x00#8)))).2.hw.chip 0x2E#8 =
        some c' ∧ c'.regs (.common 0x25#8) = 0x00#8 ∧
      ¬ Initialised 0x30#8 (fun _ => 0x0#8) (fun _ => 0x0#8) (regsWith 0x00#8) c'.regs := by
  refine ⟨_, rfl, by decide, ?_⟩
  intro hinit
  exact absurd (hinit.rom (by decide)).1 (by decide)

/-- `gpioInit_iff` for the same ports of a chip with bit 5 of register 25h set. -/
theorem default_ports_initialised :
    ∃ c', (gpioInit io granting (fun _ => ⟨[], 0, 0, 0⟩) (loading (boardWith (regsWith 0x20#8)))).2.hw.chip 0x2E#8 =
        some c' ∧
      (Initialised 0x30#8 (sanitized fun _ => 0x0#8) (fun _ => 0x0#8) (regsWith 0x20#8) c'.regs ↔
        0x30#8 &&& 0x3E#8 = 0#8 ∨
          ((regsWith 0x20#8 (.common 0x25#8)).getLsbD 5 = true ∧ regsWith 0x20#8 (.common 0x25#8) ≠ 0xAA#8) ∨
          AlreadySet 0x30#8 (sanitized fun _ => 0x0#8) (fun _ => 0x0#8) (regsWith 0x20#8)) :=
  gpioInit_iff granting (fun _ => ⟨[], 0, 0, 0⟩) (loading (boardWith (regsWith 0x20#8))) 0x2E#8
    ⟨false, false, 0x0#8, regsWith 0x20#8⟩ 0x30#8 (by decide) (by decide) (by decide) ⟨rfl, by decide, Or.inl rfl⟩ rfl

end TTLinux.Analysis.GpioVt1211
