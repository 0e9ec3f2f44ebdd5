import TTLinux.Analysis.GpioGet
import TTLinux.Model.W83627dhgInit

/-!
# Configuration mode between calls

`w83627dhg_gpio_set` and `w83627dhg_gpio_get` leave configuration mode before they return, on every
path. `w83627dhg_gpio_init` looks for the chip at two addresses by entering configuration mode there,
and leaves it only at the address of the chip that it has found.
-/

set_option autoImplicit false

namespace TTLinux.Analysis.GpioConfigMode

open TTLinux.Lib.SuperIo TTLinux.Lib.SuperIo.Machine TTLinux.Model.W83627dhg
open TTLinux.Model.GpioKernel (Kernel Resource)

/-! ## Which ports are written -/

section

variable (drv : Driver) (hw : Machine)

/-- INTERNAL: a register is written by traffic on the two ports. -/
theorem setRegister_traffic (reg value : Byte) (mode : SetRegMode) :
    Traffic drv.cirAddr hw (setRegister drv reg value mode hw).2 :=
  (Traffic.refl.index reg).data _

/-- INTERNAL: and read by it. -/
theorem getRegister_traffic (reg : Byte) : Traffic drv.cirAddr hw (getRegister drv reg hw).2 :=
  Traffic.refl.index reg

/-- INTERNAL: entering the configuration mode is traffic. -/
theorem enterConfig_traffic (cir : Byte) : Traffic cir hw (enterConfig cir hw) :=
  (Traffic.refl.index _).index _

/-- INTERNAL: selecting the logical device is. -/
theorem selectLdnGpio_traffic (port : ℕ) : Traffic drv.cirAddr hw (selectLdnGpio drv port hw).2 := by
  have hselect : ∀ ldn, Traffic drv.cirAddr hw (setRegister drv 0x7#8 ldn .set hw).2 :=
    fun ldn => setRegister_traffic drv hw 0x7#8 ldn .set
  unfold selectLdnGpio
  split
  · exact hselect 0x9#8
  · exact hselect 0x9#8
  · exact hselect 0x9#8
  · exact hselect 0x9#8
  · exact hselect 0x7#8
  · exact Traffic.refl

/-- INTERNAL: and selecting the pins. -/
theorem pinSelect_traffic (port : ℕ) : Traffic drv.cirAddr hw (pinSelect drv port hw) := by
  unfold pinSelect
  split
  · apply Traffic.trans (setRegister_traffic drv hw _ _ _)
    apply Traffic.trans (setRegister_traffic drv _ _ _ _)
    exact setRegister_traffic drv _ _ _ _
  · exact setRegister_traffic drv hw _ _ _
  · exact Traffic.refl

/-- INTERNAL: and enabling a port. -/
theorem enableGpio_traffic (port : ℕ) (pinSel : Bool) :
    Traffic drv.cirAddr hw (enableGpio drv port pinSel hw) := by
  have hget := getRegister_traffic drv hw 0x30#8
  unfold enableGpio
  generalize getRegister drv 0x30#8 hw = g at hget ⊢
  obtain ⟨old, m⟩ := g
  have hports : ∀ byte, Traffic drv.cirAddr hw
      (setRegister drv 0x30#8 byte .set (if pinSel then pinSelect drv port m else m)).2 := by
    intro byte
    refine Traffic.trans ?_ (setRegister_traffic drv _ _ _ _)
    split_ifs
    · exact hget.trans (pinSelect_traffic drv m port)
    · exact hget
  dsimp only
  split
  · exact hports _
  · exact hports _
  · exact hports _
  · exact hports _
  · exact hget.trans (setRegister_traffic drv _ _ _ _)
  · exact hget

/-- INTERNAL: and showing its masks. -/
theorem showMasks_traffic (base : Byte) : Traffic drv.cirAddr hw (showMasks drv base hw) := by
  unfold showMasks
  split_ifs
  · exact (getRegister_traffic drv hw _).trans (getRegister_traffic drv _ _)
  · exact Traffic.refl

/-- INTERNAL: and all of `setup_gpio`. -/
theorem setupGpio_traffic (cfg : Settings) (port : ℕ) (check : Bool) :
    Traffic cfg.cirAddr hw (setupGpio cfg port check hw) := by
  have hregister : ∀ m reg expected value,
      Traffic cfg.cirAddr m (setupRegister cfg reg expected value check m) := by
    intro m reg expected value
    simp only [setupRegister]
    split_ifs
    · exact Traffic.refl.index reg
    · exact (Traffic.refl.index reg).data value
  exact (hregister hw _ _ _).trans (hregister _ _ _ _)

end

/-- The board after some writes to an index port and its data port, of which the last one is `AAh` to the
index port. -/
def Exited (cir : Byte) (hw hw' : Machine) : Prop := ∃ m, Traffic cir hw m ∧ hw' = exitConfig cir m

/-- INTERNAL: what `w83627dhg_gpio_set` and `w83627dhg_gpio_get` do first.
SOURCE: w83627dhg-generic.patch:575-586, 634-644 -/
theorem prepared_traffic (drv : Driver) (hw : Machine) (minor : Byte) :
    Traffic drv.cirAddr hw (showMasks drv (portaddr minor.toNat)
      (enableGpio drv (PORTNO minor.toNat) false
        (selectLdnGpio drv (PORTNO minor.toNat) (enterConfig drv.cirAddr hw)).2)) := by
  apply Traffic.trans (enterConfig_traffic hw drv.cirAddr)
  apply Traffic.trans (selectLdnGpio_traffic drv _ _)
  apply Traffic.trans (enableGpio_traffic drv _ _ _)
  exact showMasks_traffic drv _ _

/-- INTERNAL: `w83627dhg_gpio_set` leaves configuration mode.
SOURCE: w83627dhg-generic.patch:564-615 -/
theorem gpioSet_exited (drv : Driver) (minor state : Byte) (hw : Machine) (hline : portaddr minor.toNat ≠ 0) :
    Exited drv.cirAddr hw (gpioSet drv minor state hw).2 := by
  simp only [gpioSet, if_neg hline]
  have hprepared := prepared_traffic drv hw minor
  split_ifs
  · exact ⟨_, hprepared, rfl⟩
  · exact ⟨_, hprepared.trans (setRegister_traffic drv _ _ _ _), rfl⟩
  · exact ⟨_, hprepared.trans (setRegister_traffic drv _ _ _ _), rfl⟩

/-- INTERNAL: and so is a set-up that may be left out. -/
theorem checked_traffic (cfg : Settings) (hw : Machine) (port : ℕ) (input : Prop) [Decidable input] :
    ∃ m, (if input then setupGpio cfg port true hw else hw) = m ∧ Traffic cfg.cirAddr hw m := by
  refine ⟨_, rfl, ?_⟩
  split_ifs
  · exact setupGpio_traffic hw cfg port true
  · exact Traffic.refl

/-- INTERNAL: `w83627dhg_gpio_get` leaves configuration mode.
SOURCE: w83627dhg-generic.patch:621-683 -/
theorem gpioGet_exited (cfg : Settings) (minor lastbyte : Byte) (hw : Machine)
    (hline : portaddr minor.toNat ≠ 0) : Exited cfg.cirAddr hw (gpioGet cfg minor lastbyte hw).2.2.2 := by
  obtain ⟨m, hm, htraffic⟩ := checked_traffic cfg _ (PORTNO minor.toNat)
    (cfg.paranoid ∧ cfg.outmask (PORT minor.toNat) &&& (0x1#8 <<< (minor &&& 0x7#8)) = 0)
  have hchecked := (prepared_traffic cfg.toDriver hw minor).trans htraffic
  simp only [gpioGet, if_neg hline, hm]
  split
  · exact ⟨m, hchecked, rfl⟩
  · split
    · exact ⟨_, hchecked.index _, rfl⟩
    · exact ⟨_, hchecked.index _, rfl⟩

/-! ## The initialization -/

/-- INTERNAL: enabling the ports writes only to the ports of the chip.
SOURCE: w83627dhg-generic.patch:892-899 -/
theorem enablePorts_traffic (cfg : Settings) (portmask : Byte) (hw : Machine) :
    Traffic cfg.cirAddr hw (enablePorts cfg portmask hw) := by
  unfold enablePorts
  generalize [6, 5, 4, 3, 2] = ports
  induction ports generalizing hw with
  | nil => exact Traffic.refl
  | cons pn ports ih =>
    rw [List.foldl_cons]
    refine Traffic.trans ?_ (ih _)
    split_ifs
    · apply Traffic.trans (selectLdnGpio_traffic cfg.toDriver hw pn)
      apply Traffic.trans (enableGpio_traffic cfg.toDriver _ pn true)
      exact setupGpio_traffic _ cfg pn false
    · exact Traffic.refl

/-- INTERNAL: asking for the region is, and it keeps the address. -/
theorem requestGpio_traffic (k : Kernel) (s : System) :
    Traffic s.vars.cirAddr s.hw (requestGpio k s).2.hw ∧
      (requestGpio k s).2.vars.cirAddr = s.vars.cirAddr := by
  have hbase : Traffic s.vars.cirAddr s.hw
      (if s.vars.gpioBase = 0 then gpiobase s.vars.toDriver s.hw else (s.vars.gpioBase, s.hw)).2 := by
    split_ifs
    · exact (getRegister_traffic s.vars.toDriver s.hw _).trans (getRegister_traffic s.vars.toDriver _ _)
    · exact Traffic.refl
  unfold requestGpio
  generalize (if s.vars.gpioBase = 0 then gpiobase s.vars.toDriver s.hw else (s.vars.gpioBase, s.hw)) = g at hbase ⊢
  obtain ⟨base, hw⟩ := g
  dsimp only
  split_ifs
  · exact ⟨Traffic.refl, rfl⟩
  · exact ⟨hbase, rfl⟩
  · exact ⟨hbase, rfl⟩
  · exact ⟨hbase, rfl⟩

/-- INTERNAL: registering the lines touches neither the chip nor the address. -/
theorem registerLines_hw (k : Kernel) (stack : ℕ → Resource) (count : TTLinux.Model.GpioKernel.DevCount) (rc : ℤ)
    (s : System) : (registerLines k stack count rc s).2.hw = s.hw ∧
      (registerLines k stack count rc s).2.vars.cirAddr = s.vars.cirAddr := by
  unfold registerLines
  dsimp only
  split_ifs <;> exact ⟨rfl, rfl⟩

/-- The ports that an initialization would enable. -/
def enabledPorts (s : System) : Byte := s.vars.portmask &&& 0x7E#8

/-- INTERNAL: a chip that is found is left in the end.
SOURCE: w83627dhg-generic.patch:892-990 -/
theorem setupFound_exited (k : Kernel) (stack : ℕ → Resource) (s : System) :
    Exited s.vars.cirAddr s.hw (setupFound k stack s).2.hw ∧
      (setupFound k stack s).2.vars.cirAddr = s.vars.cirAddr := by
  have henable := enablePorts_traffic s.vars.toSettings s.vars.portmask s.hw
  obtain ⟨hrequest, hcir⟩ :=
    requestGpio_traffic k { s with hw := enablePorts s.vars.toSettings s.vars.portmask s.hw }
  unfold setupFound
  dsimp only
  generalize requestGpio k { s with hw := enablePorts s.vars.toSettings s.vars.portmask s.hw } = g
    at hrequest hcir ⊢
  obtain ⟨rc, m⟩ := g
  have hmap : (mapLines m.vars).1.cirAddr = m.vars.cirAddr := rfl
  obtain ⟨hhw, hcir'⟩ := registerLines_hw k stack (mapLines m.vars).2 rc { m with vars := (mapLines m.vars).1 }
  have hfinal : (registerLines k stack (mapLines m.vars).2 rc { m with vars := (mapLines m.vars).1 }).2.vars.cirAddr =
      s.vars.cirAddr := hcir'.trans (hmap.trans hcir)
  refine ⟨⟨_, henable.trans hrequest, ?_⟩, hfinal⟩
  rw [hfinal, hhw]

/-- INTERNAL: **what an initialization does to the board.**
SOURCE: w83627dhg-generic.patch:865-991 -/
theorem gpioInit_cases (k : Kernel) (stack : ℕ → Resource) (s : System) :
    (enabledPorts s = 0 ∧ (gpioInit k stack s).2.hw = s.hw ∧
        (gpioInit k stack s).2.vars.cirAddr = s.vars.cirAddr) ∨
      (enabledPorts s ≠ 0 ∧ (find s.hw).1 = none ∧ (gpioInit k stack s).2.hw = (find s.hw).2 ∧
        (gpioInit k stack s).2.vars.cirAddr = s.vars.cirAddr) ∨
      ∃ cir, enabledPorts s ≠ 0 ∧ (find s.hw).1 = some cir ∧
        Exited cir (find s.hw).2 (gpioInit k stack s).2.hw ∧
        (gpioInit k stack s).2.vars.cirAddr = cir := by
  unfold gpioInit enabledPorts
  dsimp only
  by_cases hmask : s.vars.portmask &&& 0x7E#8 = 0
  · rw [if_pos hmask]
    exact Or.inl ⟨hmask, rfl, rfl⟩
  · rw [if_neg hmask]
    refine Or.inr ?_
    generalize find s.hw = f
    obtain ⟨found, hw⟩ := f
    cases found with
    | none => exact Or.inl ⟨hmask, rfl, rfl, rfl⟩
    | some cir =>
      have hfound := setupFound_exited k stack { s with
        vars := { s.vars with portmask := s.vars.portmask &&& 0x7E#8, cirAddr := cir }
        hw := hw }
      exact Or.inr ⟨cir, hmask, rfl, hfound⟩

/-! ## The search for the chip -/

/-- The chip has the number of a W83627DHG.
SOURCE: w83627dhg-generic.patch:533 -/
def IsDhg (c : Chip) : Prop := (c.common 0x20#8 ++ c.common 0x21#8) &&& 0xFFF0#16 = 0xA020#16

/-- INTERNAL: a test for the chip is traffic. -/
theorem test_traffic (cir : Byte) (hw : Machine) : Traffic cir hw (test cir hw).2 :=
  ((enterConfig_traffic hw cir).index _).index _

/-- INTERNAL: `w83627dhg_test` takes a chip into configuration mode, and answers for its number.
SOURCE: w83627dhg-generic.patch:519-534 -/
theorem test_chip (cir : Byte) (hw : Machine) (c : Chip) (h : hw.chip cir = some c) :
    (test cir hw).2.InConfig cir ∧ ((test cir hw).1 = true ↔ IsDhg c) := by
  have henter : (enterConfig cir hw).chip cir = some ((c.writeIndex 0x87#8).writeIndex 0x87#8) :=
    chip_outb_index _ _ _ _ (chip_outb_index _ _ _ _ h)
  have hconf := Chip.enter_config c
  have hcommon : ((c.writeIndex 0x87#8).writeIndex 0x87#8).common = c.common := by
    rw [Chip.writeIndex_common, Chip.writeIndex_common]
  generalize (c.writeIndex 0x87#8).writeIndex 0x87#8 = e at henter hconf hcommon
  have hhigh := chip_outb_index _ cir 0x20#8 e henter
  rw [Chip.writeIndex_config e _ hconf (by decide)] at hhigh
  have hlow := chip_outb_index _ cir 0x21#8 _ hhigh
  rw [Chip.writeIndex_config ({ e with index := 0x20#8 } : Chip) 0x21#8 hconf (by decide)] at hlow
  refine ⟨⟨_, hlow, hconf⟩, ?_⟩
  have hread : ∀ (m : Machine) (i : Byte), m.chip cir = some { e with index := i } → i < 0x30#8 →
      m.inb (CDR_ADDR cir) = c.common i := by
    intro m i hm hi
    rw [CDR_ADDR, inb_data m cir _ hm, Chip.readData, if_pos hconf, Chip.reg, if_pos hi, ← hcommon]
  rw [test, IsDhg]
  simp only [decide_eq_true_eq]
  rw [hread _ 0x20#8 hhigh (by decide), hread _ 0x21#8 hlow (by decide)]

/-- INTERNAL: without a chip `w83627dhg_test` reads a floating bus.
SOURCE: w83627dhg-generic.patch:519-534 -/
theorem test_none (cir : Byte) (hw : Machine) (hcir : cir = 0x2E#8 ∨ cir = 0x4E#8) (h : hw.chip cir = none) :
    (test cir hw).2.chip cir = none ∧ (test cir hw).1 = false := by
  have hfloat : ∀ m : Machine, m.chip cir = none → m.inb (CDR_ADDR cir) = 0xFF#8 := by
    intro m hm
    rcases hcir with rfl | rfl
    · have hnone : m.at2E = none := hm
      simp [Machine.inb, CDR_ADDR, hnone]
    · have hnone : m.at4E = none := hm
      simp [Machine.inb, CDR_ADDR, hnone]
  have hnone : ∀ m, Traffic cir hw m → m.chip cir = none := by
    intro m hm
    induction hm with
    | refl => exact h
    | index v _ ih => exact chip_outb_none _ cir v _ ih
    | data v _ ih => exact chip_outb_none _ cir v _ ih
  refine ⟨hnone _ (test_traffic cir hw), ?_⟩
  have henter := (enterConfig_traffic hw cir).index 0x20#8
  rw [test]
  simp only [decide_eq_false_iff_not]
  rw [hfloat _ (hnone _ henter), hfloat _ (hnone _ (henter.index 0x21#8))]
  decide

/-- A search leaves no chip in configuration mode that it does not go on with: the chip at `2Eh` is a
W83627DHG, or there is none, and then the same at `4Eh`. -/
def Identified (hw : Machine) : Prop :=
  (∃ c, hw.chip 0x2E#8 = some c ∧ IsDhg c) ∨
    (hw.chip 0x2E#8 = none ∧ ∀ c, hw.chip 0x4E#8 = some c → IsDhg c)

/-- INTERNAL: the search when the chip at `2Eh` answers.
SOURCE: w83627dhg-generic.patch:541-543 -/
theorem find_first (hw : Machine) (h : (test 0x2E#8 hw).1 = true) :
    find hw = (some 0x2E#8, (test 0x2E#8 hw).2) := by
  unfold find
  generalize test 0x2E#8 hw = t at h ⊢
  exact if_pos h

/-- INTERNAL: the search when it does not.
SOURCE: w83627dhg-generic.patch:544-550 -/
theorem find_second (hw : Machine) (h : (test 0x2E#8 hw).1 = false) :
    find hw = (if (test 0x4E#8 (test 0x2E#8 hw).2).1 = true then some 0x4E#8 else none,
      (test 0x4E#8 (test 0x2E#8 hw).2).2) := by
  unfold find
  generalize test 0x2E#8 hw = t at h ⊢
  obtain ⟨found, m⟩ := t
  have hfound : found = false := h
  rw [hfound]
  dsimp only
  rw [if_neg (by decide)]
  split_ifs <;> rfl

/-! ## Calls -/

/-- A call of the driver. -/
inductive Call where
  | init (k : Kernel) (stack : ℕ → Resource)
  | set (minor state : Byte)
  | get (minor : Byte)

/-- The module with the board after a call. -/
def perform (s : System) : Call → System
  | .init k stack => (gpioInit k stack s).2
  | .set minor state => { s with hw := (gpioSet s.vars.toDriver minor state s.hw).2 }
  | .get minor =>
    { s with
      vars := { s.vars with lastbyte := (gpioGet s.vars.toSettings minor s.vars.lastbyte s.hw).2.2.1 }
      hw := (gpioGet s.vars.toSettings minor s.vars.lastbyte s.hw).2.2.2 }

/-- The index ports to which a call sends `87h` twice. -/
def entered (s : System) : Call → List Byte
  | .init _ _ =>
    if enabledPorts s = 0 then []
    else if (test 0x2E#8 s.hw).1 then [0x2E#8]
    else [0x2E#8, 0x4E#8]
  | .set minor _ => if portaddr minor.toNat = 0 then [] else [s.vars.cirAddr]
  | .get minor => if portaddr minor.toNat = 0 then [] else [s.vars.cirAddr]

/-- The module, and the index ports that were sent the sequence so far. -/
structure Watched where
  sys : System
  sent : List Byte

/-- No chip that was sent the sequence is in configuration mode. -/
def Quiet (w : Watched) : Prop := ∀ cir ∈ w.sent, ¬w.sys.hw.InConfig cir

/-- One call. -/
def Watched.after (w : Watched) (call : Call) : Watched := ⟨perform w.sys call, w.sent ++ entered w.sys call⟩

/-- An initialization that goes on finds no other chip. -/
def Probes (s : System) : Call → Prop
  | .init _ _ => enabledPorts s = 0 ∨ Identified s.hw
  | .set _ _ => True
  | .get _ => True

/-- The data port of no chip is taken for an index port. -/
def Proper (cir : Byte) : Prop := cir ≠ 0x2D#8 ∧ cir ≠ 0x4D#8

/-- INTERNAL: the first address of the chip. -/
theorem proper_2E : Proper 0x2E#8 := by unfold Proper; decide

/-- INTERNAL: the second one. -/
theorem proper_4E : Proper 0x4E#8 := by unfold Proper; decide

/-- INTERNAL: the data port of a chip is no other chip's index port. -/
theorem Proper.data_ne {cir : Byte} (h : Proper cir) {hw : Machine} {other : Byte} (hother : hw.InConfig other) :
    cir.toNat + 1 ≠ other.toNat := by
  obtain ⟨c, hc, -⟩ := hother
  intro heq
  rcases cir_of_chip hw other c hc with rfl | rfl
  · exact h.1 (BitVec.eq_of_toNat_eq (by simpa using heq))
  · exact h.2 (BitVec.eq_of_toNat_eq (by simpa using heq))

/-- INTERNAL: after a call that leaves configuration mode in the end, its own chip and those that were
quiet are quiet. -/
theorem Exited.quiet {cir : Byte} {hw hw' : Machine} (h : Exited cir hw hw') (hcir : Proper cir) (a : Byte)
    (ha : a = cir ∨ ¬hw.InConfig a) : ¬hw'.InConfig a := by
  obtain ⟨m, htraffic, rfl⟩ := h
  by_cases heq : a = cir
  · rw [heq]
    exact not_inConfig_exit m cir
  · intro hconf
    have hiff := (htraffic.index 0xAA#8).inConfig_iff a heq (hcir.data_ne hconf)
    exact (ha.resolve_left heq) (hiff.mp hconf)

/-- INTERNAL: a call on a line, which does nothing if there is no such line. -/
theorem quiet_line (w : Watched) (sys : System) (minor : Byte) (hw : Quiet w) (hcir : Proper w.sys.vars.cirAddr)
    (hinvalid : portaddr minor.toNat = 0 → sys.hw = w.sys.hw)
    (hexit : portaddr minor.toNat ≠ 0 → Exited w.sys.vars.cirAddr w.sys.hw sys.hw) :
    Quiet ⟨sys, w.sent ++ if portaddr minor.toNat = 0 then [] else [w.sys.vars.cirAddr]⟩ := by
  intro a ha
  by_cases hline : portaddr minor.toNat = 0
  · dsimp only at ha ⊢
    rw [if_pos hline, List.append_nil] at ha
    rw [hinvalid hline]
    exact hw a ha
  · dsimp only at ha ⊢
    rw [if_neg hline] at ha
    apply (hexit hline).quiet hcir
    rcases List.mem_append.mp ha with hsent | hnew
    · exact Or.inr (hw a hsent)
    · exact Or.inl (List.mem_singleton.mp hnew)

/-- INTERNAL: `gpio_set` leaves the chips quiet. -/
theorem quiet_set (w : Watched) (minor state : Byte) (hw : Quiet w) (hcir : Proper w.sys.vars.cirAddr) :
    Quiet (w.after (.set minor state)) := by
  apply quiet_line w (perform w.sys (.set minor state)) minor hw hcir
  · intro hline
    simp only [perform, gpioSet, if_pos hline]
  · exact gpioSet_exited w.sys.vars.toDriver minor state w.sys.hw

/-- INTERNAL: so does `gpio_get`. -/
theorem quiet_get (w : Watched) (minor : Byte) (hw : Quiet w) (hcir : Proper w.sys.vars.cirAddr) :
    Quiet (w.after (.get minor)) := by
  apply quiet_line w (perform w.sys (.get minor)) minor hw hcir
  · intro hline
    simp only [perform, gpioGet, if_pos hline]
  · exact gpioGet_exited w.sys.vars.toSettings minor w.sys.vars.lastbyte w.sys.hw

/-- INTERNAL: an initialization that finds the chip at `2Eh`. -/
theorem quiet_init_first (w : Watched) (k : Kernel) (stack : ℕ → Resource) (c : Chip)
    (hmask : enabledPorts w.sys ≠ 0) (h : w.sys.hw.chip 0x2E#8 = some c) (hid : IsDhg c) (hw : Quiet w) :
    Quiet (w.after (.init k stack)) := by
  have htest : (test 0x2E#8 w.sys.hw).1 = true := (test_chip 0x2E#8 w.sys.hw c h).2.mpr hid
  have hfind := find_first w.sys.hw htest
  intro a ha
  rcases gpioInit_cases k stack w.sys with ⟨hzero, -⟩ | ⟨-, hnone, -⟩ | ⟨cir, -, hsome, hexit, -⟩
  · exact absurd hzero hmask
  · simp [hfind] at hnone
  · obtain rfl : 0x2E#8 = cir := by simpa [hfind] using hsome
    rw [hfind] at hexit
    apply hexit.quiet proper_2E
    rcases List.mem_append.mp ha with hsent | hnew
    · by_cases heq : a = 0x2E#8
      · exact Or.inl heq
      · refine Or.inr fun hconf => hw a hsent ?_
        exact ((test_traffic 0x2E#8 w.sys.hw).inConfig_iff a heq (proper_2E.data_ne hconf)).mp hconf
    · rw [entered, if_neg hmask, if_pos htest] at hnew
      exact Or.inl (List.mem_singleton.mp hnew)

/-- INTERNAL: the two searches do not disturb each other. -/
theorem chip_after_tests (hw : Machine) :
    (test 0x2E#8 hw).2.chip 0x4E#8 = hw.chip 0x4E#8 ∧
      (test 0x4E#8 (test 0x2E#8 hw).2).2.chip 0x2E#8 = (test 0x2E#8 hw).2.chip 0x2E#8 :=
  ⟨(test_traffic 0x2E#8 hw).chip_other 0x4E#8 (by decide),
    (test_traffic 0x4E#8 _).chip_other 0x2E#8 (by decide)⟩

/-- INTERNAL: only a chip at one of the two addresses can be in configuration mode. -/
theorem inConfig_address {hw : Machine} {a : Byte} (h : hw.InConfig a) : a = 0x2E#8 ∨ a = 0x4E#8 := by
  obtain ⟨c, hc, -⟩ := h
  exact cir_of_chip hw a c hc

/-- INTERNAL: an initialization without a chip at `2Eh` and without another one at `4Eh`. -/
theorem quiet_init_second (w : Watched) (k : Kernel) (stack : ℕ → Resource) (hmask : enabledPorts w.sys ≠ 0)
    (h : w.sys.hw.chip 0x2E#8 = none) (hid : ∀ c, w.sys.hw.chip 0x4E#8 = some c → IsDhg c) :
    Quiet (w.after (.init k stack)) := by
  obtain ⟨hnone, htest⟩ := test_none 0x2E#8 w.sys.hw (Or.inl rfl) h
  obtain ⟨h4E, h2E⟩ := chip_after_tests w.sys.hw
  rw [hnone] at h2E
  have hfind := find_second w.sys.hw htest
  have hother : ∀ a, a = 0x4E#8 ∨ ¬(find w.sys.hw).2.InConfig a := by
    intro a
    by_cases heq : a = 0x4E#8
    · exact Or.inl heq
    · refine Or.inr fun hconf => ?_
      obtain rfl := (inConfig_address hconf).resolve_right heq
      obtain ⟨c, hc, -⟩ := hconf
      rw [hfind, h2E] at hc
      cases hc
  intro a _
  rcases gpioInit_cases k stack w.sys with ⟨hzero, -⟩ | ⟨-, hmissing, hhw, -⟩ | ⟨cir, -, hsome, hexit, -⟩
  · exact absurd hzero hmask
  · -- without a chip at 4Eh either
    have hhw' : (w.after (.init k stack)).sys.hw = (find w.sys.hw).2 := hhw
    rw [hhw']
    rcases hother a with rfl | hquiet
    · rintro ⟨c, hc, -⟩
      cases hchip : w.sys.hw.chip 0x4E#8 with
      | none =>
        rw [hfind, (test_none 0x4E#8 _ (Or.inr rfl) (h4E.trans hchip)).1] at hc
        cases hc
      | some c₁ =>
        have hfound := (test_chip 0x4E#8 _ c₁ (h4E.trans hchip)).2.mpr (hid c₁ hchip)
        simp [hfind, hfound] at hmissing
    · exact hquiet
  · obtain rfl : 0x4E#8 = cir := by
      rw [hfind] at hsome
      exact (by simpa using hsome : _ ∧ 0x4E#8 = cir).2
    exact hexit.quiet proper_4E a (hother a)

/-- INTERNAL: an initialization that meets another chip leaves it in configuration mode.
SOURCE: w83627dhg-generic.patch:519-558 -/
theorem not_quiet_init (w : Watched) (k : Kernel) (stack : ℕ → Resource) (hmask : enabledPorts w.sys ≠ 0)
    (hid : ¬Identified w.sys.hw) : ¬Quiet (w.after (.init k stack)) := by
  have htest : (test 0x2E#8 w.sys.hw).1 = false := by
    cases hchip : w.sys.hw.chip 0x2E#8 with
    | none => exact (test_none 0x2E#8 w.sys.hw (Or.inl rfl) hchip).2
    | some c =>
      have hanswer := (test_chip 0x2E#8 w.sys.hw c hchip).2
      exact Bool.eq_false_iff.mpr fun h => hid (Or.inl ⟨c, hchip, hanswer.mp h⟩)
  have hfind := find_second w.sys.hw htest
  have hentered : entered w.sys (.init k stack) = [0x2E#8, 0x4E#8] := by
    rw [entered, if_neg hmask, if_neg (by simp [htest])]
  obtain ⟨h4E, h2E⟩ := chip_after_tests w.sys.hw
  intro hquiet
  have hquiet2E : ¬(perform w.sys (.init k stack)).hw.InConfig 0x2E#8 :=
    hquiet 0x2E#8 (List.mem_append_right _ (by simp [hentered]))
  have hquiet4E : ¬(perform w.sys (.init k stack)).hw.InConfig 0x4E#8 :=
    hquiet 0x4E#8 (List.mem_append_right _ (by simp [hentered]))
  have hsearched : (find w.sys.hw).2 = (test 0x4E#8 (test 0x2E#8 w.sys.hw).2).2 := by rw [hfind]
  cases hchip : w.sys.hw.chip 0x2E#8 with
  | some c =>
    -- the chip at 2Eh is in configuration mode after its test, and only the ports at 4Eh are written then
    obtain ⟨c₁, hc₁, hconf⟩ := (test_chip 0x2E#8 w.sys.hw c hchip).1
    have hstays : (find w.sys.hw).2.InConfig 0x2E#8 := ⟨c₁, by rw [hsearched, h2E, hc₁], hconf⟩
    rcases gpioInit_cases k stack w.sys with ⟨hzero, -⟩ | ⟨-, -, hhw, -⟩ | ⟨cir, -, hsome, hexit, -⟩
    · exact hmask hzero
    · exact hquiet2E (by rw [perform, hhw]; exact hstays)
    · obtain rfl : 0x4E#8 = cir := by
        rw [hfind] at hsome
        exact (by simpa using hsome : _ ∧ 0x4E#8 = cir).2
      obtain ⟨m, htraffic, hm⟩ := hexit
      have hsame := (htraffic.index 0xAA#8).inConfig_iff 0x2E#8 (by decide) (by decide)
      exact hquiet2E (by rw [perform, hm]; exact hsame.mpr hstays)
  | none =>
    have hother : ∃ c, w.sys.hw.chip 0x4E#8 = some c ∧ ¬IsDhg c := by
      by_contra hall
      exact hid (Or.inr ⟨hchip, fun c hc => by_contra fun hn => hall ⟨c, hc, hn⟩⟩)
    obtain ⟨c, hc, hn⟩ := hother
    obtain ⟨hconf, hanswer⟩ := test_chip 0x4E#8 (test 0x2E#8 w.sys.hw).2 c (h4E.trans hc)
    have hmissing : (find w.sys.hw).1 = none := by
      rw [hfind]
      exact if_neg fun h => hn (hanswer.mp h)
    rcases gpioInit_cases k stack w.sys with ⟨hzero, -⟩ | ⟨-, -, hhw, -⟩ | ⟨cir, -, hsome, -⟩
    · exact hmask hzero
    · exact hquiet4E (by rw [perform, hhw, hsearched]; exact hconf)
    · simp [hmissing] at hsome

/-- INTERNAL: **one call.** From a quiet board to a quiet board.
SOURCE: w83627dhg-generic.patch:564-683, 865-991 -/
theorem after_quiet_iff (w : Watched) (call : Call) (hw : Quiet w) (hcir : Proper w.sys.vars.cirAddr) :
    Quiet (w.after call) ↔ Probes w.sys call := by
  cases call with
  | set minor state => exact iff_of_true (quiet_set w minor state hw hcir) trivial
  | get minor => exact iff_of_true (quiet_get w minor hw hcir) trivial
  | init k stack =>
    by_cases hmask : enabledPorts w.sys = 0
    · refine iff_of_true ?_ (Or.inl hmask)
      intro a ha
      rcases gpioInit_cases k stack w.sys with ⟨-, hhw, -⟩ | ⟨hne, -⟩ | ⟨_, hne, -⟩
      · have hsame : (w.after (.init k stack)).sys.hw = w.sys.hw := hhw
        rw [hsame]
        exact hw a (by simpa [Watched.after, entered, hmask] using ha)
      · exact absurd hmask hne
      · exact absurd hmask hne
    · constructor
      · exact fun hquiet => Or.inr (by_contra fun hid => not_quiet_init w k stack hmask hid hquiet)
      · rintro (hzero | ⟨c, hchip, hid⟩ | ⟨hnone, hid⟩)
        · exact absurd hzero hmask
        · exact quiet_init_first w k stack c hmask hchip hid hw
        · exact quiet_init_second w k stack hmask hnone hid

/-- INTERNAL: the address that is found is one of them. -/
theorem find_proper (hw : Machine) (cir : Byte) (h : (find hw).1 = some cir) : Proper cir := by
  cases htest : (test 0x2E#8 hw).1 with
  | true =>
    rw [find_first hw htest] at h
    exact Option.some.inj h ▸ proper_2E
  | false =>
    rw [find_second hw htest] at h
    dsimp only at h
    split_ifs at h
    exact Option.some.inj h ▸ proper_4E

/-- INTERNAL: a call keeps the address. -/
theorem after_proper (w : Watched) (call : Call) (hcir : Proper w.sys.vars.cirAddr) :
    Proper (w.after call).sys.vars.cirAddr := by
  cases call with
  | set minor state => exact hcir
  | get minor => exact hcir
  | init k stack =>
    unfold Watched.after perform
    rcases gpioInit_cases k stack w.sys with ⟨-, -, hsame⟩ | ⟨-, -, -, hsame⟩ | ⟨cir, -, hsome, -, hsame⟩
    · rwa [hsame]
    · rwa [hsame]
    · rw [hsame]
      exact find_proper w.sys.hw cir hsome

/-! ## Runs -/

/-- A run of the driver from when it is loaded, with the calls that were made and what each of them
found. -/
inductive Run (s₀ : System) : List (Watched × Call) → Watched → Prop where
  | loaded : Run s₀ [] ⟨s₀, []⟩
  | call {past : List (Watched × Call)} {w : Watched} (c : Call) :
    Run s₀ past w → Run s₀ (past ++ [(w, c)]) (w.after c)

/-- INTERNAL: and so does a run. -/
theorem Run.proper {s₀ : System} {past : List (Watched × Call)} {w : Watched} (h : Run s₀ past w)
    (hcir : Proper s₀.vars.cirAddr) : Proper w.sys.vars.cirAddr := by
  induction h with
  | loaded => exact hcir
  | call c _ ih => exact after_proper _ c ih

/-- **Configuration mode between calls.** In every run of initializations, writes and reads, in any order,
on any board and for any line, no chip whose index port was sent `87h` twice is in configuration mode
when a call returns, if and only if each initialization of the run enables no port or finds at `2Eh` a
W83627DHG, or no chip there and none at `4Eh` that is not one. The parameter `cir_addr` is one of the two
addresses, or at least not the port below one of them.
SOURCE: w83627dhg-generic.patch:295-305, 519-683, 865-991 -/
theorem config_mode_left_iff (s₀ : System) (past : List (Watched × Call)) (w : Watched)
    (hcir : Proper s₀.vars.cirAddr) (h : Run s₀ past w) :
    ((∀ p ∈ past, Quiet p.1) ∧ Quiet w) ↔ ∀ p ∈ past, Probes p.1.sys p.2 := by
  induction h with
  | loaded => exact iff_of_true ⟨by simp, by simp [Quiet]⟩ (by simp)
  | @call past w c hrun ih =>
    have hstep := fun hquiet => after_quiet_iff w c hquiet (hrun.proper hcir)
    rw [List.forall_mem_append, List.forall_mem_append, List.forall_mem_singleton, List.forall_mem_singleton]
    constructor
    · rintro ⟨⟨hpast, hlast⟩, hnew⟩
      exact ⟨ih.mp ⟨hpast, hlast⟩, (hstep hlast).mp hnew⟩
    · rintro ⟨hprobes, hnew⟩
      obtain ⟨hpast, hlast⟩ := ih.mpr hprobes
      exact ⟨⟨hpast, hlast⟩, (hstep hlast).mpr hnew⟩

/-- A chip with a number. -/
def numberedChip (high low : Byte) : Chip :=
  { GpioSet.blankChip with common := fun r => if r = 0x20#8 then high else if r = 0x21#8 then low else 0#8 }

/-- A kernel that grants everything. -/
def grantAll : Kernel := ⟨fun _ _ => true, fun _ _ _ => 0, fun _ _ => (0, 254), fun _ _ => true⟩

/-- The module as it is loaded without parameters, on a board. -/
def loaded (hw : Machine) : System where
  vars := {
    debug := false
    cirAddr := 0#8
    paranoid := false
    outmask := fun _ => 0#8
    polarity := fun _ => 0#8
    major := 0
    gpioBase := 0
    portmask := 0x04#8
    iomap := fun _ => ⟨.nc, []⟩
    pdevin := .null
    pdevout := .null
    firstminor := 0
    numdevs := 0
    gpioMapped := false
    lastbyte := 0#8 }
  hw := hw
  log := []

/-- The initialization of the examples. -/
def initCall : Call := .init grantAll fun _ => ⟨[], 0, 0, 0⟩

/-- A board with a W83627DHG at `2Eh`: an initialization, a write and a read. -/
theorem config_mode_left_iff_found :
    ∃ past w, Run (loaded ⟨some (numberedChip 0xA0#8 0x23#8), none⟩) past w ∧ past.length = 3 ∧ Quiet w := by
  have hrun := (((@Run.loaded (loaded ⟨some (numberedChip 0xA0#8 0x23#8), none⟩)).call initCall).call
    (.set 16#8 1#8)).call (.get 16#8)
  refine ⟨_, _, hrun, rfl, ?_⟩
  have hcir : Proper (loaded ⟨some (numberedChip 0xA0#8 0x23#8), none⟩).vars.cirAddr := by
    unfold Proper
    decide
  refine ((config_mode_left_iff _ _ _ hcir hrun).mpr ?_).2
  have hid : IsDhg (numberedChip 0xA0#8 0x23#8) := by
    unfold IsDhg
    decide
  intro p hp
  simp only [List.nil_append, List.cons_append, List.mem_cons, List.not_mem_nil, or_false] at hp
  rcases hp with rfl | rfl | rfl
  · exact Or.inr (Or.inl ⟨_, rfl, hid⟩)
  · exact trivial
  · exact trivial

/-- A board with another chip at `2Eh` and a W83627DHG at `4Eh`: the initialization leaves the first one in
configuration mode.
SOURCE: w83627dhg-generic.patch:541-550, 989 -/
theorem init_leaves_other_chip_in_config :
    ∃ past w, Run (loaded ⟨some (numberedChip 0x52#8 0x10#8), some (numberedChip 0xA0#8 0x23#8)⟩) past w ∧
      past.length = 1 ∧ ¬Quiet w := by
  refine ⟨_, _, (@Run.loaded (loaded ⟨some (numberedChip 0x52#8 0x10#8), some (numberedChip 0xA0#8 0x23#8)⟩)).call
    initCall, rfl, ?_⟩
  apply not_quiet_init
  · unfold enabledPorts
    decide
  · rintro (⟨c, hc, hid⟩ | ⟨hnone, -⟩)
    · obtain rfl := Option.some.inj hc
      unfold IsDhg at hid
      revert hid
      decide
    · cases hnone

end TTLinux.Analysis.GpioConfigMode
