import TTLinux.Analysis.GpioGet

/-!
# Setting up and checking a port

`setup_gpio` sets the polarity and the direction of the lines of a port, or checks that they still are what was set.
The direction register is to hold the complement of the mask of the outputs, but it is checked against the mask itself.
-/

set_option autoImplicit false

namespace TTLinux.Analysis.GpioSetup

open TTLinux.Lib.SuperIo TTLinux.Model.W83627dhg
open TTLinux.Analysis.GpioSet TTLinux.Analysis.GpioGet

/-- **What a port that is set up holds**: the complement of the mask of the outputs in its direction register, the
polarity in its polarity register, and every other register as it was. -/
structure SetUp (cfg : Settings) (port : ℕ) (c c' : Chip) : Prop where
  direction : direction c' port = ~~~cfg.outmask (port - 1)
  polarity : polarity c' port = cfg.polarity (port - 1)
  others : ∀ l r, ¬(l = portLdn port ∧ (r = cfgOffset port + 0 ∨ r = cfgOffset port + 2)) → c'.bank l r = c.bank l r

/-- INTERNAL: a byte is not its own complement. -/
theorem ne_not (b : Byte) : b ≠ ~~~b := by
  revert b
  decide +kernel

/-- INTERNAL: **the two registers of a port** after `setup_gpio`, with their values.
SOURCE: w83627dhg-generic.patch:461-516 -/
theorem setupGpio_values (cfg : Settings) (hw : Machine) (c : Chip) (port : ℕ) (check : Bool)
    (hp : 2 ≤ port ∧ port ≤ 6) (h : hw.chip cfg.cirAddr = some c) (hc : c.config = true) (hldn : c.ldn = portLdn port) :
    ∃ c', (setupGpio cfg port check hw).chip cfg.cirAddr = some c' ∧
      polarity c' port = cfg.polarity (port - 1) ∧
      direction c' port =
        if check = true ∧ direction c port = cfg.outmask (port - 1) then cfg.outmask (port - 1)
        else OUTPUT_MASK cfg (port - 1) := by
  obtain ⟨hge2, -, hAA2⟩ := cfgOffset_gt port 2 hp (by decide)
  obtain ⟨hge0, -, hAA0⟩ := cfgOffset_gt port 0 hp (by decide)
  obtain ⟨c₁, h₁, hc₁, hldn₁, hbank₁⟩ := setupRegister_spec cfg hw c (cfgOffset port + 0x2#8)
    (cfg.polarity (port - 1)) (cfg.polarity (port - 1)) check h hc hge2 hAA2
  obtain ⟨c₂, h₂, -, -, hbank₂⟩ := setupRegister_spec cfg _ c₁ (cfgOffset port + 0x0#8)
    (cfg.outmask (port - 1)) (OUTPUT_MASK cfg (port - 1)) check h₁ hc₁ hge0 hAA0
  rw [hldn₁, hldn] at hbank₂
  rw [hldn] at hbank₁
  have hne : cfgOffset port + 0x0#8 ≠ cfgOffset port + 0x2#8 := fun heq =>
    absurd (portReg_injective port port 0 2 hp hp (by decide) (by decide) rfl heq).2 (by decide)
  -- the polarity does not reach the direction register
  have hdirection : c₁.bank (portLdn port) (cfgOffset port + 0x0#8) = direction c port := by
    rw [hbank₁, if_neg fun heq => hne heq.2]
    rfl
  refine ⟨c₂, h₂, ?_, ?_⟩
  · change c₂.bank (portLdn port) (cfgOffset port + 0x2#8) = _
    rw [hbank₂, if_neg fun heq => hne heq.2.symm, hbank₁, if_pos ⟨rfl, rfl⟩]
    split_ifs <;> rfl
  · change c₂.bank (portLdn port) (cfgOffset port + 0x0#8) = _
    rw [hbank₂, if_pos ⟨rfl, rfl⟩, hdirection]

/-- **A port is set up exactly if it is not only checked, or if its direction register does not hold the mask of the
outputs**, the one value that the check takes for right and that is wrong in every bit.
SOURCE: w83627dhg-generic.patch:162, 461-516, 646-650 -/
theorem setupGpio_iff (cfg : Settings) (hw : Machine) (c : Chip) (port : ℕ) (check : Bool) (hp : 2 ≤ port ∧ port ≤ 6)
    (h : hw.chip cfg.cirAddr = some c) (hc : c.config = true) (hldn : c.ldn = portLdn port) :
    ∃ c', (setupGpio cfg port check hw).chip cfg.cirAddr = some c' ∧
      (SetUp cfg port c c' ↔ check = false ∨ direction c port ≠ cfg.outmask (port - 1)) := by
  obtain ⟨c', h', hpolarity, hdirection⟩ := setupGpio_values cfg hw c port check hp h hc hldn
  obtain ⟨c'', h'', -, -, hothers⟩ := setupGpio_spec cfg hw c port check hp h hc hldn
  obtain rfl := Option.some.inj (h'.symm.trans h'')
  refine ⟨c', h', ?_, ?_⟩
  · intro hsetup
    by_contra hwrong
    obtain ⟨hcheck, heq⟩ := not_or.mp hwrong
    rw [if_pos ⟨(Bool.not_eq_false _).mp hcheck, not_not.mp heq⟩] at hdirection
    exact ne_not _ (hdirection.symm.trans hsetup.direction)
  · intro hright
    refine ⟨?_, hpolarity, hothers⟩
    rw [hdirection, if_neg]
    · rfl
    · rintro ⟨hcheck, heq⟩
      rcases hright with hfalse | hne
      · rw [hcheck] at hfalse
        cases hfalse
      · exact hne heq

/-- A chip in configuration mode with device 9 selected and zeros in its registers. -/
def zeroedChip : Chip := ⟨true, false, 0x0#8, fun r => if r = 0x07#8 then 0x9#8 else 0x0#8, fun _ _ => 0x0#8⟩

def board : Machine := ⟨some zeroedChip, none⟩

/-- All lines are inputs, none is inverted. -/
def allInputs : Settings := ⟨⟨false, 0x2E#8⟩, true, fun _ => 0x0#8, fun _ => 0x0#8⟩

/-- **The check of port 2 takes eight outputs for eight inputs**: the direction register stays 00h, where FFh is due. -/
theorem outputs_taken_for_inputs :
    ∃ c', (setupGpio allInputs 2 true board).chip 0x2E#8 = some c' ∧ direction c' 2 = 0x00#8 ∧
      ¬ SetUp allInputs 2 zeroedChip c' := by
  refine ⟨_, rfl, by decide, ?_⟩
  intro hsetup
  exact absurd hsetup.direction (by decide)

/-- `setupGpio_iff` for the same port when it is not only checked. -/
theorem all_inputs_set :
    ∃ c', (setupGpio allInputs 2 false board).chip 0x2E#8 = some c' ∧
      (SetUp allInputs 2 zeroedChip c' ↔ false = false ∨ direction zeroedChip 2 ≠ allInputs.outmask (2 - 1)) :=
  setupGpio_iff allInputs board zeroedChip 2 false (by decide) rfl rfl rfl

end TTLinux.Analysis.GpioSetup
