import Mathlib.Data.List.Induction
import TTLinux.Analysis.GpioSet

/-!
# What `w83627dhg_gpio_get` reads

A call reads the data register of the line's port. The byte `FFh` is taken for an irregular value:
it is skipped, and the last byte that was read regularly stands in for it. Every other byte is
what the calls of `w83627dhg_gpio_set` have made it, whatever was read in between.
-/

set_option autoImplicit false

namespace TTLinux.Analysis.GpioGet

open TTLinux.Lib.SuperIo TTLinux.Model.W83627dhg TTLinux.Analysis.GpioSet

/-! ## The registers of a port -/

/-- INTERNAL: `selCtlReg` moves the index.
SOURCE: w83627dhg-generic.patch:197-201 -/
theorem selCtlReg_spec (drv : Driver) (hw : Machine) (c : Chip) (reg : Byte)
    (h : hw.chip drv.cirAddr = some c) (hc : c.config = true) (hreg : reg ≠ 0xAA#8) :
    (selCtlReg drv reg hw).chip drv.cirAddr = some { c with index := reg } := by
  have hidx := Machine.chip_outb_index hw drv.cirAddr reg c h
  rwa [Chip.writeIndex_config c reg hc hreg] at hidx

/-- INTERNAL: `setup_gpio` on one register of a port, in configuration mode.
SOURCE: w83627dhg-generic.patch:474-486, 496-508 -/
theorem setupRegister_spec (cfg : Settings) (hw : Machine) (c : Chip) (reg expected value : Byte) (check : Bool)
    (h : hw.chip cfg.cirAddr = some c) (hc : c.config = true) (hge : ¬ reg < 0x30#8) (hreg : reg ≠ 0xAA#8) :
    ∃ c', (setupRegister cfg reg expected value check hw).chip cfg.cirAddr = some c' ∧
      c'.config = true ∧ c'.ldn = c.ldn ∧
      ∀ l r, c'.bank l r =
        if l = c.ldn ∧ r = reg then
          if check = true ∧ c.bank c.ldn reg = expected then expected else value
        else c.bank l r := by
  have hsel := selCtlReg_spec cfg.toDriver hw c reg h hc hreg
  have hread : (selCtlReg cfg.toDriver reg hw).inb (CDR_ADDR cfg.cirAddr) = c.bank c.ldn reg := by
    have hin := Machine.inb_data _ cfg.cirAddr _ hsel
    rw [CDR_ADDR, hin, Chip.readData, if_pos hc, Chip.reg, if_neg hge]
    rfl
  simp only [setupRegister, hread]
  by_cases hkeep : check = true ∧ c.bank c.ldn reg = expected
  · rw [if_pos hkeep]
    refine ⟨_, hsel, hc, rfl, ?_⟩
    intro l r
    by_cases hx : l = c.ldn ∧ r = reg
    · rw [if_pos hx, if_pos hkeep, hx.1, hx.2]
      exact hkeep.2
    · rw [if_neg hx]
  · rw [if_neg hkeep]
    have hdata := Machine.chip_outb_data _ cfg.cirAddr value _ hsel
    rw [Chip.writeData, if_pos hc] at hdata
    refine ⟨_, hdata, by simpa using hc, Chip.setReg_ldn _ reg value hge, ?_⟩
    intro l r
    rw [Chip.setReg_bank _ _ _ _ _ hge, if_neg hkeep]
    rfl

/-- INTERNAL: **`setup_gpio` on the whole register file.** Only the polarity and the direction register
of the port change. With `check` the direction register is compared with the mask of the outputs,
not with its complement.
SOURCE: w83627dhg-generic.patch:461-516 -/
theorem setupGpio_spec (cfg : Settings) (hw : Machine) (c : Chip) (port : ℕ) (check : Bool)
    (hp : 2 ≤ port ∧ port ≤ 6) (h : hw.chip cfg.cirAddr = some c) (hc : c.config = true)
    (hldn : c.ldn = portLdn port) :
    ∃ c', (setupGpio cfg port check hw).chip cfg.cirAddr = some c' ∧
      c'.config = true ∧ c'.ldn = portLdn port ∧
      ∀ l r, ¬(l = portLdn port ∧ (r = cfgOffset port + 0 ∨ r = cfgOffset port + 2)) →
        c'.bank l r = c.bank l r := by
  obtain ⟨hge2, -, hAA2⟩ := cfgOffset_gt port 2 hp (by decide)
  obtain ⟨hge0, -, hAA0⟩ := cfgOffset_gt port 0 hp (by decide)
  obtain ⟨c₁, h₁, hc₁, hldn₁, hbank₁⟩ := setupRegister_spec cfg hw c (cfgOffset port + 0x2#8)
    (cfg.polarity (port - 1)) (cfg.polarity (port - 1)) check h hc hge2 hAA2
  obtain ⟨c₂, h₂, hc₂, hldn₂, hbank₂⟩ := setupRegister_spec cfg _ c₁ (cfgOffset port + 0x0#8)
    (cfg.outmask (port - 1)) (OUTPUT_MASK cfg (port - 1)) check h₁ hc₁ hge0 hAA0
  refine ⟨c₂, h₂, hc₂, hldn₂.trans (hldn₁.trans hldn), ?_⟩
  intro l r hother
  rw [hbank₂, if_neg, hbank₁, if_neg]
  · rintro ⟨hl, hr⟩
    exact hother ⟨hl.trans hldn, Or.inr hr⟩
  · rintro ⟨hl, hr⟩
    exact hother ⟨hl.trans (hldn₁.trans hldn), Or.inl hr⟩

/-! ## One call -/

/-- The data register of a port. -/
def portData (c : Chip) (port : ℕ) : Byte := portReg c port 1

/-- The bit of a line in a byte, as a state. -/
def stateOf (b : Bool) : Byte := if b then 1 else 0

/-- INTERNAL: the test of a line's bit.
SOURCE: w83627dhg-generic.patch:665, 668 -/
theorem and_lineMask (byte minor : Byte) :
    (if ¬byte &&& 0x1#8 <<< (minor &&& 0x7#8) = 0 then 1 else 0) = stateOf (byte.getLsbD (minor.toNat % 8)) := by
  have hbit : ∀ i < 8, (byte &&& 0x1#8 <<< (minor &&& 0x7#8)).getLsbD i =
      (byte.getLsbD i && decide (i = minor.toNat % 8)) := by
    intro i hi
    rw [BitVec.getLsbD_and, ← getLsbD_lineMask minor i hi]
    rfl
  unfold stateOf
  by_cases hb : byte.getLsbD (minor.toNat % 8) = true
  · rw [if_pos hb, if_pos]
    intro hzero
    have hset := hbit (minor.toNat % 8) (Nat.mod_lt _ (by omega))
    rw [hzero, hb] at hset
    simp at hset
  · rw [if_neg hb, if_neg]
    apply not_not.mpr
    apply BitVec.eq_of_getLsbD_eq
    intro i hi
    rw [hbit i hi]
    by_cases hi' : i = minor.toNat % 8
    · simp [hi', hb]
    · simp [hi']

/-- INTERNAL: with or without the check of the inputs the data registers are what they were.
SOURCE: w83627dhg-generic.patch:646-650 -/
theorem checked_spec (cfg : Settings) (hw : Machine) (c : Chip) (port : ℕ) (input : Prop) [Decidable input]
    (hp : 2 ≤ port ∧ port ≤ 6) (h : hw.chip cfg.cirAddr = some c) (hc : c.config = true)
    (hldn : c.ldn = portLdn port) :
    ∃ hw' c', (if input then setupGpio cfg port true hw else hw) = hw' ∧ hw'.chip cfg.cirAddr = some c' ∧
      c'.config = true ∧ c'.ldn = portLdn port ∧
      ∀ q, 2 ≤ q ∧ q ≤ 6 → portData c' q = portData c q := by
  by_cases hinput : input
  · rw [if_pos hinput]
    obtain ⟨c', h', hc', hldn', hbank⟩ := setupGpio_spec cfg hw c port true hp h hc hldn
    refine ⟨_, c', rfl, h', hc', hldn', ?_⟩
    intro q hq
    apply hbank
    rintro ⟨hl, hr | hr⟩
    · exact absurd (portReg_injective q port 1 0 hq hp (by decide) (by decide) hl hr).2 (by decide)
    · exact absurd (portReg_injective q port 1 2 hq hp (by decide) (by decide) hl hr).2 (by decide)
  · rw [if_neg hinput]
    exact ⟨hw, c, rfl, h, hc, hldn, fun _ _ => rfl⟩

/-- INTERNAL: **one call.** It returns 0 and leaves every data register as it is; the byte `FFh` is
skipped.
SOURCE: w83627dhg-generic.patch:621-683 -/
theorem gpioGet_spec (cfg : Settings) (hw : Machine) (c : Chip) (minor lastbyte : Byte)
    (h : hw.chip cfg.cirAddr = some c) (h8 : 8 ≤ minor.toNat) (h47 : minor.toNat ≤ 47) :
    ∃ hw' c', gpioGet cfg minor lastbyte hw =
        (if portData c (PORTNO minor.toNat) = 0xFF#8 then
          (0, some (stateOf (lastbyte.getLsbD (minor.toNat % 8))), lastbyte, hw')
        else (0, some (stateOf (dataBit c minor.toNat)), portData c (PORTNO minor.toNat), hw')) ∧
      hw'.chip cfg.cirAddr = some c' ∧
      ∀ port, 2 ≤ port ∧ port ≤ 6 → portData c' port = portData c port := by
  obtain ⟨hbase, hbase0⟩ := portaddr_eq minor.toNat h8 h47
  have hp := portno_bounds minor.toNat h8 h47
  rw [hbase] at hbase0
  obtain ⟨hrc, c₁, hprep, hconf, hldn, hbank⟩ := prepare_spec cfg.toDriver hw c (PORTNO minor.toNat) hp h
  have hdata₁ : ∀ q, 2 ≤ q ∧ q ≤ 6 → portData c₁ q = portData c q := by
    intro q hq
    exact hbank _ _ (cfgOffset_gt q 1 hq (by decide)).2.1
  obtain ⟨hw₂, c₂, hhw₂, hchip, hconf₂, hldn₂, hdata₂⟩ := checked_spec cfg _ c₁ (PORTNO minor.toNat)
    (cfg.paranoid ∧ cfg.outmask (PORT minor.toNat) &&& (0x1#8 <<< (minor &&& 0x7#8)) = 0) hp hprep hconf hldn
  simp only [gpioGet, hbase, hbase0, if_false, hrc, ne_eq, not_true_eq_false, hhw₂]
  obtain ⟨hge, -, hneAA⟩ := cfgOffset_gt (PORTNO minor.toNat) 1 hp (by decide)
  have hsel := selCtlReg_spec cfg.toDriver hw₂ c₂ _ hchip hconf₂ hneAA
  have hread : (selCtlReg cfg.toDriver (cfgOffset (PORTNO minor.toNat) + 1) hw₂).inb (CDR_ADDR cfg.cirAddr) =
      portData c (PORTNO minor.toNat) := by
    have hin := Machine.inb_data _ cfg.cirAddr _ hsel
    rw [CDR_ADDR, hin, Chip.readData, if_pos hconf₂, Chip.reg, if_neg hge, ← hdata₁ _ hp, ← hdata₂ _ hp,
      portData, portReg, ← hldn₂]
    rfl
  rw [hread]
  refine ⟨_, _, ?_, Machine.chip_outb_index _ _ 0xAA#8 _ hsel, ?_⟩
  · rw [and_lineMask, and_lineMask]
    rfl
  · intro q hq
    rw [← hdata₁ q hq, ← hdata₂ q hq, portData, portData, portReg, portReg, Chip.writeIndex_bank]

/-! ## Runs -/

/-- A call of the driver. -/
inductive Call where
  | set (minor state : Byte)
  | get (minor : Byte)

/-- The line of a call. -/
def Call.line : Call → ℕ
  | .set minor _ => minor.toNat
  | .get minor => minor.toNat

/-- The line and the state of a call that sets a line. -/
def Call.setting : Call → Option (Byte × Byte)
  | .set minor state => some (minor, state)
  | .get _ => none

/-- The board, and the static variable of `w83627dhg_gpio_get`. -/
structure Panel where
  lastbyte : Byte
  hw : Machine

/-- One call. -/
def perform (cfg : Settings) (s : Panel) : Call → Panel
  | .set minor state => { s with hw := (gpioSet cfg.toDriver minor state s.hw).2 }
  | .get minor => ⟨(gpioGet cfg minor s.lastbyte s.hw).2.2.1, (gpioGet cfg minor s.lastbyte s.hw).2.2.2⟩

/-- The board after a sequence of calls. -/
def performAll (cfg : Settings) (s : Panel) (calls : List Call) : Panel := calls.foldl (perform cfg) s

/-- The data bit of a line after some calls: the state of the last one that set it, or what it was. -/
def level (c : Chip) (calls : List Call) (line : ℕ) : Bool :=
  (lastSet line (calls.filterMap Call.setting)).getD (dataBit c line)

/-- All lines of a port are high. -/
def AllHigh (levels : ℕ → Bool) (port : ℕ) : Prop := ∀ line, PORTNO line = port → levels line = true

/-- The lines of the calls exist. -/
def Valid (calls : List Call) : Prop := ∀ call ∈ calls, 8 ≤ call.line ∧ call.line ≤ 47

/-- INTERNAL: the level of a line after one more line was set. -/
theorem level_snoc_set (c : Chip) (calls : List Call) (minor state : Byte) (line : ℕ) :
    level c (calls ++ [.set minor state]) line =
      if line = minor.toNat then decide (state ≠ 0) else level c calls line := by
  have hsnoc : (calls ++ [Call.set minor state]).filterMap Call.setting =
      calls.filterMap Call.setting ++ [(minor, state)] := List.filterMap_append
  rw [level, hsnoc, lastSet, List.foldl_append, List.foldl_cons, List.foldl_nil]
  by_cases hline : line = minor.toNat
  · rw [if_pos hline, if_pos hline, Option.getD_some]
  · rw [if_neg hline, if_neg hline]
    rfl

/-- INTERNAL: reading changes no level. -/
theorem level_snoc_get (c : Chip) (calls : List Call) (minor : Byte) (line : ℕ) :
    level c (calls ++ [.get minor]) line = level c calls line := by
  have hsnoc : (calls ++ [Call.get minor]).filterMap Call.setting = calls.filterMap Call.setting ++ [] :=
    List.filterMap_append
  rw [level, hsnoc, List.append_nil, level]

/-- INTERNAL: **the levels of a run.** Reads do not change a data bit. -/
theorem performAll_levels (cfg : Settings) (s : Panel) (c : Chip) (calls : List Call)
    (h : s.hw.chip cfg.cirAddr = some c) (hvalid : Valid calls) :
    ∃ c', (performAll cfg s calls).hw.chip cfg.cirAddr = some c' ∧
      ∀ line, 8 ≤ line → line ≤ 47 → dataBit c' line = level c calls line := by
  induction calls using List.reverseRecOn with
  | nil => exact ⟨c, h, fun _ _ _ => rfl⟩
  | append_singleton calls call ih =>
    obtain ⟨c₁, h₁, hlevels⟩ := ih fun x hx => hvalid x (List.mem_append_left _ hx)
    obtain ⟨h8, h47⟩ := hvalid call (List.mem_append_right _ (List.mem_singleton_self call))
    unfold performAll at h₁ ⊢
    rw [List.foldl_append, List.foldl_cons, List.foldl_nil]
    cases call with
    | set minor state =>
      obtain ⟨c', h', -, hbit⟩ := gpioSet_ports cfg.toDriver _ c₁ minor state h₁ h8 h47
      refine ⟨c', h', ?_⟩
      intro line hline8 hline47
      rw [hbit line hline8 hline47, hlevels line hline8 hline47, level_snoc_set]
    | get minor =>
      obtain ⟨hw', c', hget, h', hdata⟩ := gpioGet_spec cfg _ c₁ minor
        (List.foldl (perform cfg) s calls).lastbyte h₁ h8 h47
      refine ⟨c', ?_, ?_⟩
      · rw [perform, hget]
        split_ifs
        · exact h'
        · exact h'
      · intro line hline8 hline47
        rw [level_snoc_get, ← hlevels line hline8 hline47]
        have hport := hdata (PORTNO line) (portno_bounds line hline8 hline47)
        exact congrArg (fun byte : Byte => byte.getLsbD (line % 8)) hport

/-- INTERNAL: the data register of a port is `FFh` if and only if all its lines are high. -/
theorem portData_eq_iff (c : Chip) (port : ℕ) (hp : 1 ≤ port) :
    portData c port = 0xFF#8 ↔ AllHigh (dataBit c) port := by
  constructor
  · rintro h line rfl
    have hbit : ∀ i < 8, (0xFF#8).getLsbD i = true := by decide
    rw [dataBit, ← portData, h]
    exact hbit _ (Nat.mod_lt _ (by omega))
  · intro h
    apply BitVec.eq_of_getLsbD_eq
    intro i hi
    have hport : PORTNO (8 * (port - 1) + i) = port := by
      unfold PORTNO PORT
      rw [Nat.shiftRight_eq_div_pow]
      omega
    have hbit : ∀ i < 8, (0xFF#8).getLsbD i = true := by decide
    have hline := h _ hport
    rw [dataBit, hport, Nat.mul_add_mod, Nat.mod_eq_of_lt hi] at hline
    rw [hbit i hi]
    exact hline

/-- INTERNAL: whether a port is high depends on its own lines. -/
theorem allHigh_congr (f g : ℕ → Bool) (port : ℕ) (hp : 2 ≤ port ∧ port ≤ 6)
    (h : ∀ line, 8 ≤ line → line ≤ 47 → f line = g line) : AllHigh f port ↔ AllHigh g port := by
  have hlines : ∀ line, PORTNO line = port → f line = g line := by
    intro line hline
    unfold PORTNO PORT at hline
    rw [Nat.shiftRight_eq_div_pow] at hline
    exact h line (by omega) (by omega)
  constructor
  · exact fun hf line hline => (hlines line hline) ▸ hf line hline
  · exact fun hg line hline => (hlines line hline).symm ▸ hg line hline

/-- INTERNAL: **one read in a run**, in terms of the calls before it. -/
theorem gpioGet_levels (cfg : Settings) (s : Panel) (c : Chip) (calls : List Call) (minor : Byte)
    (h : s.hw.chip cfg.cirAddr = some c) (hvalid : Valid calls)
    (h8 : 8 ≤ minor.toNat) (h47 : minor.toNat ≤ 47) :
    ∃ state byte hw', gpioGet cfg minor (performAll cfg s calls).lastbyte (performAll cfg s calls).hw =
        (0, some state, byte, hw') ∧
      (AllHigh (level c calls) (PORTNO minor.toNat) →
        state = stateOf ((performAll cfg s calls).lastbyte.getLsbD (minor.toNat % 8)) ∧
        byte = (performAll cfg s calls).lastbyte) ∧
      (¬AllHigh (level c calls) (PORTNO minor.toNat) →
        state = stateOf (level c calls minor.toNat) ∧
        ∀ line, PORTNO line = PORTNO minor.toNat → byte.getLsbD (line % 8) = level c calls line) := by
  obtain ⟨c₁, h₁, hlevels⟩ := performAll_levels cfg s c calls h hvalid
  have hp := portno_bounds minor.toNat h8 h47
  obtain ⟨hw', c', hget, -, -⟩ := gpioGet_spec cfg _ c₁ minor (performAll cfg s calls).lastbyte h₁ h8 h47
  have hhigh : portData c₁ (PORTNO minor.toNat) = 0xFF#8 ↔ AllHigh (level c calls) (PORTNO minor.toNat) :=
    (portData_eq_iff c₁ _ (by omega)).trans (allHigh_congr _ _ _ hp hlevels)
  rw [hget]
  by_cases hff : portData c₁ (PORTNO minor.toNat) = 0xFF#8
  · rw [if_pos hff]
    exact ⟨_, _, _, rfl, fun _ => ⟨rfl, rfl⟩, fun hlow => absurd (hhigh.mp hff) hlow⟩
  · rw [if_neg hff]
    refine ⟨_, _, _, rfl, fun hall => absurd (hhigh.mpr hall) hff, fun _ => ⟨?_, ?_⟩⟩
    · rw [hlevels _ h8 h47]
    · intro line hline
      have hbounds : 8 ≤ line ∧ line ≤ 47 := by
        rw [← hline] at hp
        unfold PORTNO PORT at hp
        rw [Nat.shiftRight_eq_div_pow] at hp
        omega
      rw [← hlevels line hbounds.1 hbounds.2, dataBit, ← portData, hline]

/-- INTERNAL: one more call after a run. -/
theorem performAll_snoc (cfg : Settings) (s : Panel) (calls : List Call) (call : Call) :
    performAll cfg s (calls ++ [call]) = perform cfg (performAll cfg s calls) call := by
  rw [performAll, List.foldl_append]
  rfl

/-- INTERNAL: reads that are all skipped leave `lastbyte` as it is. -/
theorem performAll_lastbyte (cfg : Settings) (s : Panel) (c : Chip) (before after : List Call)
    (h : s.hw.chip cfg.cirAddr = some c) (hvalid : Valid (before ++ after))
    (hskip : ∀ early minor late, after = early ++ .get minor :: late →
      AllHigh (level c (before ++ early)) (PORTNO minor.toNat)) :
    (performAll cfg s (before ++ after)).lastbyte = (performAll cfg s before).lastbyte := by
  induction after using List.reverseRecOn with
  | nil => rw [List.append_nil]
  | append_singleton after call ih =>
    rw [← List.append_assoc] at hvalid ⊢
    have hvalid' : Valid (before ++ after) := fun x hx => hvalid x (List.mem_append_left _ hx)
    have hbefore := ih hvalid' fun early minor late heq =>
      hskip early minor (late ++ [call]) (by rw [heq]; simp)
    rw [performAll_snoc]
    cases call with
    | set minor state => exact hbefore
    | get minor =>
      obtain ⟨h8, h47⟩ := hvalid (.get minor) (by simp)
      obtain ⟨state, byte, hw', hget, hhigh, -⟩ :=
        gpioGet_levels cfg s c (before ++ after) minor h hvalid' h8 h47
      rw [perform, hget]
      exact (hhigh (hskip after minor [] rfl)).2.trans hbefore

/-- **What `w83627dhg_gpio_get` reads**, after every run of calls on the lines 8 to 47, from any register
file. The data bits are what the last calls of `w83627dhg_gpio_set` have made them, whatever was read in
between. A read returns 0, and unless all lines of the port are high it stores the data bit of
the line. If all of them are high the byte is skipped as irregular, and if the last byte that was not
skipped was read from the same port, the state is the one that the line had then.
SOURCE: w83627dhg-generic.patch:564-683 -/
theorem gpioGet_run_levels (cfg : Settings) (s : Panel) (c : Chip) (calls : List Call) (minor : Byte)
    (h : s.hw.chip cfg.cirAddr = some c) (hvalid : Valid calls)
    (h8 : 8 ≤ minor.toNat) (h47 : minor.toNat ≤ 47) :
    (∃ c', (performAll cfg s calls).hw.chip cfg.cirAddr = some c' ∧
      ∀ line, 8 ≤ line → line ≤ 47 → dataBit c' line = level c calls line) ∧
    ∃ state byte hw', gpioGet cfg minor (performAll cfg s calls).lastbyte (performAll cfg s calls).hw =
        (0, some state, byte, hw') ∧
      (¬AllHigh (level c calls) (PORTNO minor.toNat) → state = stateOf (level c calls minor.toNat)) ∧
      (AllHigh (level c calls) (PORTNO minor.toNat) → ∀ before line after,
        calls = before ++ .get line :: after → PORTNO line.toNat = PORTNO minor.toNat →
        ¬AllHigh (level c before) (PORTNO minor.toNat) →
        (∀ early skipped late, after = early ++ .get skipped :: late →
          AllHigh (level c (before ++ .get line :: early)) (PORTNO skipped.toNat)) →
        state = stateOf (level c before minor.toNat)) := by
  refine ⟨performAll_levels cfg s c calls h hvalid, ?_⟩
  obtain ⟨state, byte, hw', hget, hhigh, hlow⟩ := gpioGet_levels cfg s c calls minor h hvalid h8 h47
  refine ⟨state, byte, hw', hget, fun hl => (hlow hl).1, ?_⟩
  intro hall before line after hcalls hport hregular hskip
  have hsplit : before ++ .get line :: after = (before ++ [.get line]) ++ after := by simp
  rw [hsplit] at hcalls
  have hvalid₁ : Valid before := fun x hx => hvalid x (by rw [hcalls]; simp [hx])
  obtain ⟨hline8, hline47⟩ := hvalid (.get line) (by rw [hcalls]; simp)
  -- the byte that was read regularly has stayed
  have hlast := performAll_lastbyte cfg s c (before ++ [.get line]) after h (hcalls ▸ hvalid)
    (by simpa using hskip)
  obtain ⟨_, byte₁, _, hget₁, -, hlow₁⟩ := gpioGet_levels cfg s c before line h hvalid₁ hline8 hline47
  rw [← hcalls, performAll_snoc, perform, hget₁] at hlast
  rw [(hhigh hall).1, hlast, (hlow₁ (hport.symm ▸ hregular)).2 minor.toNat hport.symm]

/-- Settings without an output line, for a chip at `2Eh`. -/
def inputsAt2E : Settings := ⟨⟨false, 0x2E#8⟩, true, fun _ => 0#8, fun _ => 0#8⟩

/-- A board with a chip that has every register clear, before the first read. -/
def blankPanel : Panel := ⟨0#8, ⟨some blankChip, none⟩⟩

/-- A line that was set, between reads of its own port and of another one. -/
theorem gpioGet_run_levels_set_line :
    ∃ byte hw', gpioGet inputsAt2E 9#8
        (performAll inputsAt2E blankPanel [.get 40#8, .set 9#8 1#8, .get 8#8]).lastbyte
        (performAll inputsAt2E blankPanel [.get 40#8, .set 9#8 1#8, .get 8#8]).hw = (0, some 1, byte, hw') := by
  have hvalid : Valid [.get 40#8, .set 9#8 1#8, .get 8#8] := by
    intro call hcall
    simp only [List.mem_cons, List.not_mem_nil, or_false] at hcall
    rcases hcall with rfl | rfl | rfl <;> decide
  obtain ⟨-, state, byte, hw', hget, hregular, -⟩ := gpioGet_run_levels inputsAt2E blankPanel blankChip
    [.get 40#8, .set 9#8 1#8, .get 8#8] 9#8 rfl hvalid (by decide) (by decide)
  have hlow : ¬AllHigh (level blankChip [.get 40#8, .set 9#8 1#8, .get 8#8]) (PORTNO (9#8).toNat) :=
    fun hall => absurd (hall 10 rfl) (by decide)
  have hstate : state = 1 := hregular hlow
  exact ⟨byte, hw', hstate ▸ hget⟩

/-- The calls that set all lines of port 2. -/
def setPort2 : List Call := [8#8, 9#8, 10#8, 11#8, 12#8, 13#8, 14#8, 15#8].map (.set · 1#8)

/-- All lines of a port high: each was set and not set again, and a read stores 0.
SOURCE: w83627dhg-generic.patch:664-666 -/
theorem gpioGet_skips_all_high :
    ((performAll inputsAt2E blankPanel setPort2).hw.chip 0x2E#8).map (dataBit · 8) = some true ∧
      (gpioGet inputsAt2E 8#8 (performAll inputsAt2E blankPanel setPort2).lastbyte
        (performAll inputsAt2E blankPanel setPort2).hw).2.1 = some 0 := by
  have hvalid : Valid setPort2 := by
    intro call hcall
    obtain ⟨minor, hminor, rfl⟩ := List.mem_map.mp hcall
    have hlines : ∀ line ∈ [8#8, 9#8, 10#8, 11#8, 12#8, 13#8, 14#8, 15#8],
        8 ≤ line.toNat ∧ line.toNat ≤ 47 := by decide
    exact hlines minor hminor
  have hhigh : AllHigh (level blankChip setPort2) (PORTNO (8#8).toNat) := by
    intro line hline
    have hbounds : 8 ≤ line ∧ line < 16 := by
      have h2 : PORTNO line = 2 := hline
      unfold PORTNO PORT at h2
      rw [Nat.shiftRight_eq_div_pow] at h2
      omega
    obtain ⟨hlo, hhi⟩ := hbounds
    interval_cases line <;> rfl
  have hlast := performAll_lastbyte inputsAt2E blankPanel blankChip [] setPort2 rfl hvalid (by
    intro early minor late heq
    have hmem : Call.get minor ∈ setPort2 := by simp [heq]
    simp [setPort2] at hmem)
  obtain ⟨c', hchip, hlevels⟩ := performAll_levels inputsAt2E blankPanel blankChip setPort2 rfl hvalid
  obtain ⟨state, byte, hw', hget, hskipped, -⟩ :=
    gpioGet_levels inputsAt2E blankPanel blankChip setPort2 8#8 rfl hvalid (by decide) (by decide)
  constructor
  · have hchip' : (performAll inputsAt2E blankPanel setPort2).hw.chip 0x2E#8 = some c' := hchip
    rw [hchip', Option.map_some, hlevels 8 (by decide) (by decide)]
    exact congrArg some (hhigh 8 rfl)
  · rw [hget, (hskipped hhigh).1]
    rw [List.nil_append] at hlast
    rw [hlast]
    rfl

end TTLinux.Analysis.GpioGet
