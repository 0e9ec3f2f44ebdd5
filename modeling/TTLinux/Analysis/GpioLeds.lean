import TTLinux.Analysis.GpioExports
import TTLinux.Analysis.GpioResources
import TTLinux.Analysis.GpioSet
import TTLinux.Lib.Resources
import TTLinux.Model.W83627dhgLeds

/-!
# The LEDs of the exported lines

The GPIO driver exports the output lines 8 to 47 under their own numbers, and the LED driver takes a resource
for a LED only if its number is below 40. So each exported line has its LED unless it is one of the last
port.
-/

set_option autoImplicit false

namespace TTLinux.Analysis.GpioLeds

open TTLinux.Lib
open TTLinux.Lib.SuperIo
open TTLinux.Model.GpioKernel hiding EINVAL
open TTLinux.Model.W83627dhg
open TTLinux.Model.W83627dhgLeds
open TTLinux.Analysis.GpioLineMap
open TTLinux.Analysis.GpioMinors (mapped mem_mapped w83627dhg_first)
open TTLinux.Analysis.GpioSet (dataBit)

/-! ## The map of the lines -/

/-- INTERNAL: **the outputs** after an initialization.
SOURCE: w83627dhg-generic.patch:921-941 -/
theorem mapLines_output (v : Vars) (hnc : ∀ line, (v.iomap line).direction = .nc) (line : ℕ) :
    ((mapLines v).1.iomap line).direction = .output ↔
      line / 8 ∈ mapped v.portmask (firstPort v.portmask 6 6 1) (5 - firstPort v.portmask 6 6 1) ∧
        (v.outmask (line / 8)).getLsbD (line % 8) = true := by
  have hbit : line % 8 < 8 := Nat.mod_lt _ (by decide)
  rw [(w83627dhg_lineMap v hnc).direction, lineDirection]
  split_ifs with hport hout
  · exact iff_of_true rfl ⟨hport.1, hout⟩
  · exact iff_of_false (by decide) fun h => hout h.2
  · exact iff_of_false (by decide) fun h => hport ⟨h.1, hbit⟩

/-- INTERNAL: port 1 has no lines.
SOURCE: w83627dhg-generic.patch:921-941 -/
theorem mapLines_port1 (v : Vars) (hnc : ∀ line, (v.iomap line).direction = .nc)
    (hfirst : 1 ≤ firstPort v.portmask 6 6 1) : ∀ line < 8, ((mapLines v).1.iomap line).direction = .nc := by
  intro line hline
  apply ((w83627dhg_lineMap v hnc).direction line).trans
  apply if_neg
  rw [mem_mapped]
  omega

/-! ## The resources -/

/-- The output lines in the order of the resources. -/
def outputs (iomap : ℕ → GpioIomap) (lines : List ℕ) : List ℕ :=
  lines.filter fun m => (iomap m).direction = .output

/-- INTERNAL: no output is outside of the lines 8 to 47. -/
theorem filter_range_eq_outputs (iomap : ℕ → GpioIomap) (n : ℕ) (hn : 48 ≤ n)
    (hrange : ∀ line, (iomap line).direction = .output → 8 ≤ line ∧ line < 48) :
    ((List.range n).filter fun m => (iomap m).direction = .output) = outputs iomap (List.range' 8 40) := by
  have hnone : ∀ lo k, lo + k ≤ 8 ∨ 48 ≤ lo →
      (List.range' lo k).filter (fun m => (iomap m).direction = .output) = [] := by
    intro lo k hout
    apply List.filter_eq_nil_iff.mpr
    intro line hline
    obtain ⟨hle, hlt⟩ := List.mem_range'_1.mp hline
    rw [decide_eq_true_iff]
    intro hdir
    have := hrange line hdir
    omega
  have hsplit : List.range n = List.range' 0 8 ++ (List.range' 8 40 ++ List.range' 48 (n - 48)) := by
    have hhead := @List.range'_append_1 0 8 (n - 8)
    have htail := @List.range'_append_1 8 40 (n - 48)
    have hlength : 8 + (n - 8) = n ∧ 40 + (n - 48) = n - 8 := by omega
    rw [hlength.1] at hhead
    rw [hlength.2] at htail
    rw [List.range_eq_range', ← hhead, ← htail]
  rw [hsplit, List.filter_append, List.filter_append, hnone 0 8 (Or.inl (le_refl 8)),
    hnone 48 (n - 48) (Or.inr (le_refl 48)), List.nil_append, List.append_nil]
  rfl

/-- INTERNAL: the output lines are counted. -/
theorem countLines_output (iomap : ℕ → GpioIomap) (n : ℕ) (hn : 48 ≤ n)
    (hrange : ∀ line, (iomap line).direction = .output → 8 ≤ line ∧ line < 48) :
    countLines iomap .output n = (outputs iomap (List.range' 8 40)).length := by
  have hranks := congrArg List.length (Ranks.map_count_filter (fun m => (iomap m).direction = .output) n)
  rw [filter_range_eq_outputs iomap n hn hrange, List.length_map, List.length_range] at hranks
  exact hranks.symm

/-- INTERNAL: **the resources of the `-out` device** are the output lines, in order. Where the end of an output is
stored does not matter for that.
SOURCE: w83627dhg-generic.patch:805-847 -/
theorem starts_eq_outputs (iomap : ℕ → GpioIomap) (stack : ℕ → Resource) (n : ℕ)
    (hnc : ∀ m < 8, (iomap m).direction = .nc)
    (hrange : ∀ line, (iomap line).direction = .output → 8 ≤ line ∧ line < 48)
    (hn : n = (outputs iomap (List.range' 8 40)).length) :
    ((List.range n).map ((List.range' 8 40).foldl (fillResource iomap) ⟨0, 0, stack, stack⟩).ores).map Resource.start =
      outputs iomap (List.range' 8 40) := by
  have hstarts := (GpioExports.passed stack iomap 48).starts
  rw [← GpioExports.filling_eq_range stack iomap 8 40 hnc, GpioExports.filling_arrays] at hstarts
  have hranks := Ranks.map_count_filter (fun m => (iomap m).direction = .output) 48
  rw [filter_range_eq_outputs iomap 48 (le_refl 48) hrange] at hranks
  rw [← countLines_output iomap 48 (le_refl 48) hrange, countLines] at hn
  rw [hn, ← hranks, List.map_map, List.map_map]
  apply (List.map_congr_left _).trans (List.map_id _)
  intro m hm
  have hdir : (iomap m).direction = .output := of_decide_eq_true (List.mem_filter.mp hm).2
  exact hstarts m (hrange m hdir).2 hdir

/-- The resources of the `-out` device after `setup_platform_devs` with this map.
SOURCE: w83627dhg-generic.patch:812-847 -/
def outResources (stack : ℕ → Resource) (iomap : ℕ → GpioIomap) (count : DevCount) : List Resource :=
  (List.range count.output).map ((List.range' 8 GPIO_MAX).foldl (fillResource iomap) ⟨0, 0, stack, stack⟩).ores

/-- The name of the device with the output lines. -/
def outName : Name := DRVNAME ++ "-out".toList

/-- INTERNAL: the device for outputs that is registered has the resources of the output lines. -/
theorem mem_setupPlatformDevs (k : Kernel) (stack : ℕ → Resource) (iomap : ℕ → GpioIomap) (count : DevCount)
    (pdevin : Pdev) (resource : List Resource)
    (h : .registerDevice outName resource true ∈
      (setupPlatformDevs k DRVNAME 8 GPIO_MAX stack iomap count pdevin).2.2.2) :
    resource = outResources stack iomap count := by
  have hname : outName ≠ DRVNAME ++ "-in".toList := by decide
  unfold setupPlatformDevs at h
  dsimp only at h
  split_ifs at h
  · simp at h
  · simp only [List.mem_cons, KernelCall.registerDevice.injEq, Bool.true_eq_false, and_false, List.not_mem_nil,
      or_false, and_true] at h
    exact h.2
  · simp only [List.mem_cons, KernelCall.registerDevice.injEq, hname, false_and, List.not_mem_nil, or_false,
      and_true] at h
    exact h.2

/-- INTERNAL: the request for the I/O region registers no device. -/
theorem requestGpio_calls (k : Kernel) (s : System) :
    ∃ calls, (requestGpio k s).2.log = s.log ++ calls ∧ ∀ name resource b, .registerDevice name resource b ∉ calls := by
  unfold requestGpio
  by_cases hmask : s.vars.portmask &&& 0x3D#8 = 0
  · rw [if_pos hmask]
    exact ⟨[], (List.append_nil _).symm, by simp⟩
  · rw [if_neg hmask]
    generalize (if s.vars.gpioBase = 0 then gpiobase s.vars.toDriver s.hw else (s.vars.gpioBase, s.hw)) = base
    dsimp only
    split_ifs
    · exact ⟨_, rfl, by simp⟩
    · exact ⟨_, rfl, by simp⟩
    · exact ⟨[], (List.append_nil _).symm, by simp⟩

/-- INTERNAL: a device is registered only by `setup_platform_devs`. -/
theorem mem_registration (numbers : ℤ × ℤ × KernelCall) (devs : ℤ × Pdev × Pdev × List KernelCall) (mapped : Bool)
    (base size : ℕ) (major : ℤ) (firstminor numdevs : ℕ) (rc : ℤ) (name : Name) (resource : List Resource)
    (hnumbers : numbers.2.2 ≠ .registerDevice name resource true)
    (h : .registerDevice name resource true ∈ GpioResources.registration numbers devs
      (if mapped then [.releaseRegion base size] else []) (.cdevAdd major firstminor numdevs) rc) :
    .registerDevice name resource true ∈ devs.2.2.2 := by
  have hreleased : KernelCall.registerDevice name resource true ∉
      (if mapped then [.releaseRegion base size] else [] : List KernelCall) := by
    split_ifs <;> simp
  have hdropped : ∀ pdev, KernelCall.registerDevice name resource true ∉ dropDevice pdev := by
    intro pdev
    unfold dropDevice
    split_ifs <;> simp
  unfold GpioResources.registration at h
  split_ifs at h <;> simp_all [eq_comm]

/-- INTERNAL: the registration behind the request for the I/O region.
SOURCE: w83627dhg-generic.patch:921-988 -/
theorem registerLines_exports (k : Kernel) (stack : ℕ → Resource) (v : Vars) (log calls : List KernelCall)
    (hin : v.pdevin = .null) (hout : v.pdevout = .null) (rc : ℤ) (t : System) (base : ℕ) (mapped : Bool)
    (hvars : t.vars = { v with gpioBase := base, gpioMapped := mapped }) (hlog : t.log = log ++ calls)
    (hnone : ∀ name resource b, .registerDevice name resource b ∉ calls) (resource : List Resource)
    (hcall : .registerDevice outName resource true ∈
      (registerLines k stack (mapLines t.vars).2 rc { t with vars := (mapLines t.vars).1 }).2.log.drop log.length) :
    (registerLines k stack (mapLines t.vars).2 rc { t with vars := (mapLines t.vars).1 }).2.vars.iomap =
        (mapLines v).1.iomap ∧
      resource = outResources stack (mapLines v).1.iomap (mapLines v).2 := by
  obtain ⟨vars, hw, tlog⟩ := t
  dsimp only at hvars hlog
  subst hvars hlog
  refine ⟨registerLines_iomap k stack _ _ _, ?_⟩
  obtain ⟨numbers, devs, rfl, rfl, -, hafter, -⟩ := GpioResources.w83627dhg_registerLines_eq k stack
    (mapLines { v with gpioBase := base, gpioMapped := mapped }).2 rc
    ⟨(mapLines { v with gpioBase := base, gpioMapped := mapped }).1, hw, log ++ calls⟩ hin hout
  rw [hafter, List.append_assoc, List.drop_left, List.mem_append, or_iff_right (hnone _ _ _)] at hcall
  apply mem_setupPlatformDevs k stack _ _ .null
  apply mem_registration _ _ _ _ _ _ _ _ _ _ _ _ hcall
  unfold allocateNumbers
  split_ifs <;> simp

/-- INTERNAL: what is exported with the chip that is found.
SOURCE: w83627dhg-generic.patch:892-990 -/
theorem setupFound_exports (k : Kernel) (stack : ℕ → Resource) (s : System)
    (hfresh : GpioResources.W83627dhgFresh s.vars) (resource : List Resource)
    (hcall : .registerDevice outName resource true ∈ (setupFound k stack s).2.log.drop s.log.length) :
    (setupFound k stack s).2.vars.iomap = (mapLines s.vars).1.iomap ∧
      resource = outResources stack (mapLines s.vars).1.iomap (mapLines s.vars).2 := by
  obtain ⟨base, mapped, hvars, -⟩ := GpioResources.w83627dhg_requestGpio_gains k
    { s with hw := enablePorts s.vars.toSettings s.vars.portmask s.hw } hfresh.mapped
  obtain ⟨calls, hlog, hnone⟩ := requestGpio_calls k
    { s with hw := enablePorts s.vars.toSettings s.vars.portmask s.hw }
  unfold setupFound at hcall ⊢
  exact registerLines_exports k stack s.vars s.log calls hfresh.pdevin hfresh.pdevout _ _ base mapped hvars hlog hnone
    resource hcall

/-- INTERNAL: **what an initialization exports.**
SOURCE: w83627dhg-generic.patch:865-991 -/
theorem gpioInit_exports (k : Kernel) (stack : ℕ → Resource) (s : System)
    (hfresh : GpioResources.W83627dhgFresh s.vars) (resource : List Resource)
    (hcall : .registerDevice outName resource true ∈ (gpioInit k stack s).2.log.drop s.log.length) :
    s.vars.portmask &&& 0x7E#8 ≠ 0 ∧
      (gpioInit k stack s).2.vars.iomap =
        (mapLines { s.vars with portmask := s.vars.portmask &&& 0x7E#8 }).1.iomap ∧
      resource = outResources stack (mapLines { s.vars with portmask := s.vars.portmask &&& 0x7E#8 }).1.iomap
        (mapLines { s.vars with portmask := s.vars.portmask &&& 0x7E#8 }).2 := by
  unfold gpioInit at hcall ⊢
  dsimp only at hcall ⊢
  by_cases hmask : s.vars.portmask &&& 0x7E#8 = 0
  · rw [if_pos hmask, List.drop_length] at hcall
    cases hcall
  · refine ⟨hmask, ?_⟩
    rw [if_neg hmask] at hcall ⊢
    rcases hfind : find s.hw with ⟨_ | cirAddr, hw⟩
    · rw [hfind, List.drop_length] at hcall
      cases hcall
    · rw [hfind] at hcall
      exact setupFound_exports k stack
        { s with vars := { s.vars with portmask := s.vars.portmask &&& 0x7E#8, cirAddr := cirAddr }, hw := hw }
        ⟨hfresh.mapped, hfresh.pdevin, hfresh.pdevout⟩ resource hcall

/-! ## The LEDs -/

/-- The LEDs that are registered. -/
def registered : Ledger LedCall ℕ where
  acquired
    | .register index rc => if 0 ≤ rc then some index else none
    | .unregister _ => none
  released
    | .register _ _ => none
    | .unregister index => some index

/-- INTERNAL: a LED is set up: it has a name afterwards, and the other LEDs and the calls stay.
SOURCE: w83627dhg-leds.patch:165-190 -/
theorem setupLed_spec (drv : Driver) (pin : ℕ) (r : Resource) (t : Leds) :
    (setupLed drv pin r t).calls = t.calls ∧ ((setupLed drv pin r t).devices pin).name ≠ none ∧
      (∀ i, i ≠ pin → (setupLed drv pin r t).devices i = t.devices i) ∧
      ∀ i ∈ (setupLed drv pin r t).indices, i ∈ t.indices ∨ i = pin := by
  unfold setupLed
  split_ifs with hname
  · refine ⟨rfl, ?_, ?_, ?_⟩
    · simp [modifyLed]
    · intro i hi
      exact Function.update_of_ne hi _ _
    · intro i hi
      simp only [modifyLed, List.mem_append, List.mem_singleton] at hi
      tauto
  · refine ⟨rfl, hname, fun i hi => rfl, ?_⟩
    intro i hi
    simp only [List.mem_append, List.mem_singleton] at hi
    omega

/-- INTERNAL: **a successful probe** registers the LED of each resource once more, and gives it a name.
SOURCE: w83627dhg-leds.patch:160-205 -/
theorem probeLoop_spec (drv : Driver) (register : ℕ → ℤ) (resource rest : List Resource) (t : Leds)
    (hvalid : ∀ r ∈ rest, r.start < GPIO_MAX) (hok : (probeLoop drv register resource rest t).1 = 0) :
    (∀ i, registered.held (probeLoop drv register resource rest t).2.calls i =
      registered.held t.calls i + (rest.map Resource.start).count i) ∧
    (∀ i, (t.devices i).name ≠ none ∨ i ∈ rest.map Resource.start →
      ((probeLoop drv register resource rest t).2.devices i).name ≠ none) ∧
    ∀ i ∈ (probeLoop drv register resource rest t).2.indices, i ∈ t.indices ∨ i < GPIO_MAX := by
  induction rest generalizing t with
  | nil =>
    refine ⟨fun i => by simp [probeLoop], fun i hi => ?_, fun i hi => Or.inl hi⟩
    simpa [probeLoop] using hi
  | cons r rest ih =>
    have hlt : r.start < GPIO_MAX := hvalid r List.mem_cons_self
    have hpin : r.start % 256 = r.start := Nat.mod_eq_of_lt (hlt.trans (by decide))
    obtain ⟨hcalls, hname, hother, hindices⟩ := setupLed_spec drv r.start r t
    rw [probeLoop, hpin] at hok ⊢
    by_cases hrc : register r.start < 0
    · rw [if_pos hrc] at hok
      dsimp only at hok
      omega
    · rw [if_neg hrc] at hok ⊢
      obtain ⟨hheld, hnames, hidx⟩ := ih _ (fun x hx => hvalid x (List.mem_cons_of_mem _ hx)) hok
      refine ⟨?_, ?_, ?_⟩
      · intro i
        rw [hheld, hcalls, Ledger.held_append, Ledger.held_acquired _ rfl, List.map_cons, List.count_cons]
        have hacq : registered.acquired (.register r.start (register r.start)) = some r.start :=
          if_pos (not_lt.mp hrc)
        rw [hacq]
        by_cases hi : r.start = i
        · simp [hi]
          omega
        · simp [hi]
      · intro i hi
        apply hnames
        by_cases hself : i = r.start
        · left
          rw [hself]
          exact hname
        · rw [List.map_cons, List.mem_cons, or_iff_right hself] at hi
          dsimp only
          rw [hother i hself]
          exact hi
      · intro i hi
        rcases hidx i hi with hold | hnew
        · rcases List.mem_append.mp hold with hsetup | hself
          · rcases hindices i hsetup with hbefore | hself
            · exact Or.inl hbefore
            · exact Or.inr (hself ▸ hlt)
          · exact Or.inr (List.mem_singleton.mp hself ▸ hlt)
        · exact Or.inr hnew

/-- INTERNAL: a probe that succeeds registers an LED for each output line. -/
theorem ledProbe_spec (drv : Driver) (register : ℕ → ℤ) (resource : List Resource) (t : Leds)
    (hok : (ledProbe drv register resource t).1 = 0) :
    (∀ i, registered.held (ledProbe drv register resource t).2.calls i =
      registered.held t.calls i + ((forAllLeds resource).map Resource.start).count i) ∧
    (∀ i ∈ (forAllLeds resource).map Resource.start,
      ((ledProbe drv register resource t).2.devices i).name ≠ none) ∧
    ∀ i ∈ (ledProbe drv register resource t).2.indices, i ∈ t.indices ∨ i < GPIO_MAX := by
  have hvalid : ∀ r ∈ forAllLeds resource, r.start < GPIO_MAX :=
    fun r hr => of_decide_eq_true (List.mem_filter.mp hr).2
  obtain ⟨hheld, hnames, hindices⟩ := probeLoop_spec drv register resource (forAllLeds resource) t hvalid hok
  exact ⟨hheld, fun i hi => hnames i (Or.inr hi), hindices⟩

/-- INTERNAL: a line past the bound of the LED driver has no LED. -/
theorem count_forAllLeds (resource : List Resource) (line : ℕ) (hline : GPIO_MAX ≤ line) :
    ((forAllLeds resource).map Resource.start).count line = 0 := by
  apply List.count_eq_zero.mpr
  intro hmem
  obtain ⟨r, hr, hstart⟩ := List.mem_map.mp hmem
  have hlt : r.start < GPIO_MAX := of_decide_eq_true (List.mem_filter.mp hr).2
  omega

/-- The LED driver as it is loaded. -/
def noLeds (hw : Machine) : Leds := ⟨fun _ => ⟨none, 0, 0, false, none, 0⟩, hw, [], []⟩

/-- Each output line is exported and has one LED, whose brightness is the state of this line and of no other,
and the array of the LEDs is never accessed past its end. -/
structure Driven (drv : Driver) (iomap : ℕ → GpioIomap) (resource : List Resource) (t : Leds) : Prop where
  exported : ∀ line, line ∈ resource.map Resource.start ↔ (iomap line).direction = .output
  one : ∀ line ∈ resource.map Resource.start, registered.held t.calls line = 1
  drives : ∀ line ∈ resource.map Resource.start, ∀ value hw c, hw.chip drv.cirAddr = some c →
    ∃ c', (ledBrightnessSet drv line value { t with hw := hw }).hw.chip drv.cirAddr = some c' ∧
      ∀ l, 8 ≤ l → l ≤ 47 → dataBit c' l = if l = line then decide (value ≠ LED_OFF) else dataBit c l
  bounded : ∀ i ∈ t.indices, i < GPIO_MAX

/-- INTERNAL: a LED with a name drives its line.
SOURCE: w83627dhg-leds.patch:82-97 -/
theorem ledBrightnessSet_drives (drv : Driver) (line value : ℕ) (t : Leds) (c : Chip) (hlo : 8 ≤ line)
    (hhi : line ≤ 47) (hname : (t.devices line).name ≠ none) (hc : t.hw.chip drv.cirAddr = some c) :
    ∃ c', (ledBrightnessSet drv line value t).hw.chip drv.cirAddr = some c' ∧
      ∀ l, 8 ≤ l → l ≤ 47 → dataBit c' l = if l = line then decide (value ≠ LED_OFF) else dataBit c l := by
  have hpin : (BitVec.ofNat 8 line).toNat = line := by
    rw [BitVec.toNat_ofNat]
    exact Nat.mod_eq_of_lt (by omega)
  have hcond : line < 8 + GPIO_MAX ∧ (t.devices line).name ≠ none := ⟨by unfold GPIO_MAX; omega, hname⟩
  obtain ⟨c', hc', -, hbit⟩ := GpioSet.gpioSet_ports drv t.hw c (BitVec.ofNat 8 line)
    (if value = LED_OFF then 0 else 1) hc (by rw [hpin]; exact hlo) (by rw [hpin]; exact hhi)
  refine ⟨c', ?_, ?_⟩
  · rw [ledBrightnessSet, if_pos hcond]
    exact hc'
  · intro l hl8 hl47
    rw [hbit l hl8 hl47, hpin]
    by_cases hoff : value = LED_OFF <;> simp [hoff]

/-- No output of the last port is enabled: index 5, and index 6 where it is the only one.
SOURCE: w83627dhg-generic.patch:867-869, 924-940 -/
def NoLastOutputs (portmask : Byte) (outmask : ℕ → Byte) : Prop :=
  ((portmask &&& 0x7E#8).getLsbD 5 = true → outmask 5 = 0) ∧ (portmask &&& 0x7E#8 = 0x40#8 → outmask 6 = 0)

/-- INTERNAL: an output of the last port is a line without a LED. -/
theorem exists_output_of_not_noLastOutputs (v : Vars) (portmask : Byte) (hv : v.portmask = portmask &&& 0x7E#8)
    (hmask : portmask &&& 0x7E#8 ≠ 0) (hnc : ∀ line, (v.iomap line).direction = .nc)
    (h : ¬NoLastOutputs portmask v.outmask) :
    ∃ line, GPIO_MAX ≤ line ∧ ((mapLines v).1.iomap line).direction = .output := by
  have hmapping := mapLines_output v hnc
  obtain ⟨-, -, -, hleast⟩ := w83627dhg_first portmask hmask
  rw [hv] at hmapping
  have hline : ∀ pn, pn ∈ mapped (portmask &&& 0x7E#8) (firstPort (portmask &&& 0x7E#8) 6 6 1)
      (5 - firstPort (portmask &&& 0x7E#8) 6 6 1) → 5 ≤ pn → v.outmask pn ≠ 0 →
      ∃ line, GPIO_MAX ≤ line ∧ ((mapLines v).1.iomap line).direction = .output := by
    intro pn hpn hlast hout
    obtain ⟨bit, hbit⟩ := GpioMinors.exists_enabled (v.outmask pn) hout
    have hlt : bit < 8 := BitVec.lt_of_getLsbD hbit
    have hdiv : (pn * 8 + bit) / 8 = pn := by omega
    have hmod : (pn * 8 + bit) % 8 = bit := by omega
    refine ⟨pn * 8 + bit, by unfold GPIO_MAX; omega, (hmapping _).mpr ?_⟩
    rw [hdiv, hmod]
    exact ⟨hpn, hbit⟩
  unfold NoLastOutputs at h
  rw [not_and_or] at h
  rcases h with h | h
  · obtain ⟨hfive, hout⟩ := Classical.not_imp.mp h
    apply hline 5 _ (le_refl 5) hout
    have hfirst := (hleast 5 hfive).1
    rw [mem_mapped]
    by_cases heq : 5 = firstPort (portmask &&& 0x7E#8) 6 6 1
    · exact Or.inl heq
    · exact Or.inr ⟨by omega, by omega, hfive⟩
  · obtain ⟨honly, hout⟩ := Classical.not_imp.mp h
    apply hline 6 _ (by decide) hout
    rw [honly]
    decide

/-- INTERNAL: without outputs of the last port, all outputs are below the bound of the LED driver and are
counted. -/
theorem outputs_of_noLastOutputs (v : Vars) (portmask : Byte) (hv : v.portmask = portmask &&& 0x7E#8)
    (hmask : portmask &&& 0x7E#8 ≠ 0) (hnc : ∀ line, (v.iomap line).direction = .nc)
    (h : NoLastOutputs portmask v.outmask) :
    (∀ line, ((mapLines v).1.iomap line).direction = .output → 8 ≤ line ∧ line < GPIO_MAX) ∧
      (mapLines v).2.output = (outputs (mapLines v).1.iomap (List.range' 8 40)).length := by
  obtain ⟨hlo, hhi, hbit, hleast⟩ := w83627dhg_first portmask hmask
  have hbelow : ∀ line, ((mapLines v).1.iomap line).direction = .output → 8 ≤ line ∧ line < GPIO_MAX := by
    intro line hline
    obtain ⟨hport, hout⟩ := (mapLines_output v hnc line).mp hline
    rw [hv, mem_mapped] at hport
    have hzero : v.outmask (line / 8) ≠ 0 := by
      intro hzero
      rw [hzero] at hout
      exact Bool.false_ne_true (BitVec.getLsbD_zero.symm.trans hout)
    have hfive : line / 8 ≠ 5 := by
      intro heq
      apply hzero
      rw [heq]
      apply h.1
      rcases hport with hfirst | ⟨-, -, hen⟩
      · rw [← heq, hfirst]
        exact hbit
      · exact heq ▸ hen
    have hsix : line / 8 ≠ 6 := by
      intro heq
      apply hzero
      rw [heq]
      apply h.2
      apply GpioExports.w83627dhg_first_six portmask hmask
      omega
    unfold GPIO_MAX
    omega
  refine ⟨hbelow, ?_⟩
  rw [((w83627dhg_lineMap v hnc).counted 56 _).2]
  · apply countLines_output _ 56 (by decide)
    intro line hline
    have := hbelow line hline
    unfold GPIO_MAX at this
    omega
  · intro pn hpn
    rw [hv, mem_mapped] at hpn
    omega

/-- **The LEDs of the exported lines.** After a successful probe each output line has its LED if and only if the
last port has no outputs.
SOURCE: w83627dhg-leds.patch:70-205; w83627dhg-generic.patch:805-862 -/
theorem leds_driven_iff (k : Kernel) (stack : ℕ → Resource) (s : System)
    (hfresh : GpioResources.W83627dhgFresh s.vars) (hnc : ∀ line, (s.vars.iomap line).direction = .nc)
    (resource : List Resource)
    (hcall : .registerDevice outName resource true ∈ (gpioInit k stack s).2.log.drop s.log.length)
    (register : ℕ → ℤ) (hw : Machine)
    (hok : (ledProbe (gpioInit k stack s).2.vars.toDriver register resource (noLeds hw)).1 = 0) :
    Driven (gpioInit k stack s).2.vars.toDriver (gpioInit k stack s).2.vars.iomap resource
        (ledProbe (gpioInit k stack s).2.vars.toDriver register resource (noLeds hw)).2 ↔
      NoLastOutputs s.vars.portmask s.vars.outmask := by
  obtain ⟨hmask, hiomap, rfl⟩ := gpioInit_exports k stack s hfresh resource hcall
  generalize (gpioInit k stack s).2.vars.toDriver = drv at hok ⊢
  rw [hiomap]
  generalize hv : { s.vars with portmask := s.vars.portmask &&& 0x7E#8 } = v at hok ⊢
  have hportmask : v.portmask = s.vars.portmask &&& 0x7E#8 := by rw [← hv]
  have houtmask : v.outmask = s.vars.outmask := by rw [← hv]
  have hvnc : ∀ line, (v.iomap line).direction = .nc := by
    rw [← hv]
    exact hnc
  obtain ⟨hheld, hnames, hindices⟩ := ledProbe_spec drv register _ (noLeds hw) hok
  generalize (ledProbe drv register (outResources stack (mapLines v).1.iomap (mapLines v).2) (noLeds hw)).2 = leds
    at hheld hnames hindices ⊢
  have hzero : ∀ i, registered.held (noLeds hw).calls i = 0 := fun i => registered.held_nil i
  simp only [hzero, zero_add] at hheld
  rw [← houtmask]
  constructor
  · intro hdriven
    by_contra hlast
    obtain ⟨line, hline, hout⟩ := exists_output_of_not_noLastOutputs v s.vars.portmask hportmask hmask hvnc hlast
    have hone := (hheld line).symm.trans (hdriven.one line ((hdriven.exported line).mpr hout))
    rw [count_forAllLeds _ line hline] at hone
    cases hone
  · intro hlast
    obtain ⟨hbelow, hcount⟩ := outputs_of_noLastOutputs v s.vars.portmask hportmask hmask hvnc hlast
    have hstarts : (outResources stack (mapLines v).1.iomap (mapLines v).2).map Resource.start =
        outputs (mapLines v).1.iomap (List.range' 8 40) := by
      apply starts_eq_outputs _ _ _ (mapLines_port1 v hvnc _) _ hcount
      · rw [hportmask]
        exact (w83627dhg_first s.vars.portmask hmask).1
      · intro line hline
        have := hbelow line hline
        unfold GPIO_MAX at this
        omega
    have hexported : ∀ line, line ∈ (outResources stack (mapLines v).1.iomap (mapLines v).2).map Resource.start ↔
        ((mapLines v).1.iomap line).direction = .output := by
      intro line
      rw [hstarts, outputs, List.mem_filter, List.mem_range'_1, decide_eq_true_iff]
      constructor
      · exact fun h => h.2
      · intro hout
        have := hbelow line hout
        unfold GPIO_MAX at this
        exact ⟨⟨by omega, by omega⟩, hout⟩
    have hall : forAllLeds (outResources stack (mapLines v).1.iomap (mapLines v).2) =
        outResources stack (mapLines v).1.iomap (mapLines v).2 := by
      apply List.filter_eq_self.mpr
      intro r hr
      exact decide_eq_true (hbelow r.start ((hexported _).mp (List.mem_map_of_mem hr))).2
    rw [hall] at hheld hnames
    refine ⟨hexported, ?_, ?_, ?_⟩
    · intro line hline
      have hnodup : (outputs (mapLines v).1.iomap (List.range' 8 40)).Nodup := (List.nodup_range').filter _
      rw [hheld line]
      rw [hstarts] at hline ⊢
      rw [List.count_eq_one_of_mem hnodup hline]
      rfl
    · intro line hline value board c hc
      have hrange := hbelow line ((hexported line).mp hline)
      unfold GPIO_MAX at hrange
      exact ledBrightnessSet_drives drv line value { leds with hw := board } c hrange.1 (by omega)
        (hnames line hline) hc
    · intro i hi
      have hnone : i ∉ (noLeds hw).indices := List.not_mem_nil
      exact (hindices i hi).resolve_left hnone

/-- The GPIO driver with these ports and the first line of each as output, where the kernel grants everything. -/
def exporting (portmask : Byte) : System :=
  { GpioMinors.w83627dhgLoaded portmask with
    vars := { (GpioMinors.w83627dhgLoaded portmask).vars with outmask := fun _ => 0x01#8 } }

/-- The module after its initialization, and the LED driver after its probe with these resources. -/
def exported (portmask : Byte) : System :=
  (gpioInit GpioConfigMode.grantAll (fun _ => ⟨[], 0, 0, 0⟩) (exporting portmask)).2

def probed (portmask : Byte) (resource : List Resource) : ℤ × Leds :=
  ledProbe (exported portmask).vars.toDriver (fun _ => 0) resource (noLeds (exported portmask).hw)

/-- The first line of port 2. -/
theorem leds_driven_iff_port2 :
    Driven (exported 0x02#8).vars.toDriver (exported 0x02#8).vars.iomap [⟨"unlock".toList, 8, 8, 1⟩]
      (probed 0x02#8 [⟨"unlock".toList, 8, 8, 1⟩]).2 := by
  apply (leds_driven_iff GpioConfigMode.grantAll (fun _ => ⟨[], 0, 0, 0⟩) (exporting 0x02#8) ⟨rfl, rfl, rfl⟩
    (fun _ => rfl) [⟨"unlock".toList, 8, 8, 1⟩] (by decide +kernel) (fun _ => 0) _ (by decide +kernel)).mpr
  unfold NoLastOutputs
  decide

/-- **The first line of port 6** is exported, and it has no LED after a successful probe.
SOURCE: w83627dhg-leds.patch:102-105 -/
theorem port6_without_led :
    .registerDevice outName [⟨"unlock".toList, 40, 40, 1⟩] true ∈ (exported 0x20#8).log ∧
      (probed 0x20#8 [⟨"unlock".toList, 40, 40, 1⟩]).1 = 0 ∧
      registered.held (probed 0x20#8 [⟨"unlock".toList, 40, 40, 1⟩]).2.calls 40 = 0 ∧
      ¬Driven (exported 0x20#8).vars.toDriver (exported 0x20#8).vars.iomap [⟨"unlock".toList, 40, 40, 1⟩]
        (probed 0x20#8 [⟨"unlock".toList, 40, 40, 1⟩]).2 := by
  have hnone : registered.held (probed 0x20#8 [⟨"unlock".toList, 40, 40, 1⟩]).2.calls 40 = 0 := rfl
  refine ⟨by decide +kernel, by decide +kernel, hnone, ?_⟩
  intro hdriven
  have hone := hdriven.one 40 List.mem_cons_self
  rw [hnone] at hone
  cases hone

end TTLinux.Analysis.GpioLeds
