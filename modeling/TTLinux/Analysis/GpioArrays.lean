import TTLinux.Analysis.GpioExports
import TTLinux.Model.W83627dhgArrays

/-!
# The bounds of the arrays of the lines

The arrays `outmask` and `polarity` have an element for each of the ports 1 to 6, and `iomap` has eight for each.
The filter of the port mask keeps the bit of port 7, which does not exist: where no other bit is set, the
initialization maps its lines, and they can always be opened.
-/

set_option autoImplicit false

namespace TTLinux.Analysis.GpioArrays

open TTLinux.Lib TTLinux.Lib.SuperIo
open TTLinux.Model.GpioKernel (Kernel Resource GpioIomap DevCount Pdev firstPort fillResource allocateNumbers)
open TTLinux.Model
open TTLinux.Model.W83627dhg (Driver Settings Vars System PORT PORTNO portaddr gpioOpen)
open TTLinux.Model.W83627dhgArrays
open TTLinux.Analysis.GpioMinors (mapped mem_mapped)

/-! ## Without the accesses the functions are those of the driver -/

/-- INTERNAL: the traced `setup_gpio` computes the driver's. -/
theorem setupGpio_result (cfg : Settings) (port : ℕ) (check : Bool) (hw : Machine) :
    (setupGpio cfg port check hw).result = some (W83627dhg.setupGpio cfg port check hw) := rfl

/-- INTERNAL: so does the traced `gpio_set`. -/
theorem gpioSet_result (drv : Driver) (minor state : Byte) (hw : Machine) :
    (gpioSet drv minor state hw).result = some (W83627dhg.gpioSet drv minor state hw) := rfl

/-- INTERNAL: and the traced `gpio_get`. -/
theorem gpioGet_result (cfg : Settings) (minor lastbyte : Byte) (hw : Machine) :
    (gpioGet cfg minor lastbyte hw).result = some (W83627dhg.gpioGet cfg minor lastbyte hw) := by
  unfold gpioGet W83627dhg.gpioGet
  by_cases hbase : portaddr minor.toNat = 0
  · rw [if_pos hbase, if_pos hbase]
    rfl
  · rw [if_neg hbase, if_neg hbase]
    dsimp only
    generalize W83627dhg.showMasks cfg.toDriver (portaddr minor.toNat) _ = board
    have hchecked : (if cfg.paranoid = true then
          (readOutmask cfg.outmask (PORT minor.toNat)).bind fun outmask =>
            if outmask &&& 0x1#8 <<< (minor &&& 0x7#8) = 0 then setupGpio cfg (PORTNO minor.toNat) true board
            else Traced.give [] board
        else Traced.give [] board : Traced Access Machine).result =
        some (if cfg.paranoid = true ∧ cfg.outmask (PORT minor.toNat) &&& 0x1#8 <<< (minor &&& 0x7#8) = 0 then
          W83627dhg.setupGpio cfg (PORTNO minor.toNat) true board
        else board) := by
      by_cases hparanoid : cfg.paranoid = true
      · rw [if_pos hparanoid, Traced.bind_result_of rfl]
        simp only [hparanoid, true_and]
        split_ifs <;> rfl
      · rw [if_neg hparanoid, if_neg fun h => hparanoid h.1]
        rfl
    rw [Traced.bind_result_of hchecked]
    split_ifs <;> rfl

/-- INTERNAL: the traced loop of `devmap` computes the driver's. -/
theorem devmapLoop_result (outmask : ℕ → Byte) (pn base bits i : ℕ) (iomap : ℕ → GpioIomap) (count : DevCount) :
    (devmapLoop outmask pn base bits i iomap count).result =
      some (GpioKernel.devmapLoop W83627dhg.lissnames (outmask pn) base bits i iomap count) := by
  induction bits generalizing i iomap count with
  | zero => rfl
  | succ bit ih =>
    rw [devmapLoop, GpioKernel.devmapLoop]
    dsimp only
    rw [Traced.bind_result_of rfl]
    split_ifs with hout
    · cases hname : W83627dhg.lissnames[i]? with
      | none => exact ih _ _ _
      | some name => exact ih _ _ _
    · exact ih _ _ _

/-- INTERNAL: so does the traced `devmap`. -/
theorem devmap_result (outmask : ℕ → Byte) (pn : ℕ) (iomap : ℕ → GpioIomap) (count : DevCount) :
    (devmap outmask pn iomap count).result = some (W83627dhg.devmap outmask pn iomap count) :=
  devmapLoop_result outmask pn (pn * 8) 8 0 iomap count

/-- INTERNAL: and the traced loop over the ports. -/
theorem enablePorts_result (cfg : Settings) (portmask : Byte) (hw : Machine) :
    (enablePorts cfg portmask hw).result = some (W83627dhg.enablePorts cfg portmask hw) := by
  apply Traced.foldl_result
  intro hw pn
  split_ifs <;> rfl

/-- INTERNAL: and the traced loop that maps their lines. -/
theorem mapLines_result (v : Vars) : (mapLines v).result = some (W83627dhg.mapLines v) := by
  unfold mapLines
  dsimp only
  rw [Traced.bind_result_of (devmap_result _ _ _ _)]
  have hfold := fun first => Traced.foldl_result (f := fun (m : (ℕ → GpioIomap) × DevCount) pn =>
        if v.portmask.getLsbD pn then devmap v.outmask pn m.1 m.2 else .give [] m)
      (g := fun m pn => if v.portmask.getLsbD pn then W83627dhg.devmap v.outmask pn m.1 m.2 else m)
      (by
        intro m pn
        split_ifs
        · exact devmap_result _ _ _ _
        · rfl)
      (List.range' (firstPort v.portmask 6 6 1 + 1) (5 - firstPort v.portmask 6 6 1)) first
  rw [Traced.bind_result_of (hfold _)]
  rfl

/-- INTERNAL: and the traced `setup_platform_devs`. -/
theorem setupPlatformDevs_result (k : Kernel) (stack : ℕ → Resource) (iomap : ℕ → GpioIomap) (count : DevCount)
    (pdevin : Pdev) :
    (setupPlatformDevs k stack iomap count pdevin).result =
      some (GpioKernel.setupPlatformDevs k W83627dhg.DRVNAME 8 W83627dhg.GPIO_MAX stack iomap count pdevin) := by
  have hfold := Traced.foldl_result (f := fun a m => (readIomap iomap m).bind fun line =>
      .give [] (fillResource (fun _ => line) a m)) (g := fillResource iomap) (fun _ _ => rfl)
    (List.range' 8 W83627dhg.GPIO_MAX) ⟨0, 0, stack, stack⟩
  unfold setupPlatformDevs
  rw [Traced.bind_result_of hfold]
  rfl

/-- INTERNAL: and the traced registration of the lines. -/
theorem registerLines_result (k : Kernel) (stack : ℕ → Resource) (count : DevCount) (rc : ℤ) (s : System) :
    (registerLines k stack count rc s).result = some (W83627dhg.registerLines k stack count rc s) := by
  have hdevs := setupPlatformDevs_result k stack s.vars.iomap count s.vars.pdevin
  unfold registerLines W83627dhg.registerLines
  by_cases hrc : rc = 0
  · simp only [if_pos hrc]
    by_cases hnum : (allocateNumbers k s.vars.major s.vars.firstminor s.vars.numdevs).1 = 0
    · simp only [if_pos hnum]
      rw [Traced.bind_result_of (Traced.bind_result_of hdevs _)]
      dsimp only
      split_ifs <;> rfl
    · simp only [if_neg hnum]
      rw [Traced.bind_result_of rfl]
      split_ifs <;> rfl
  · simp only [if_neg hrc]
    rw [Traced.bind_result_of rfl]
    split_ifs <;> rfl

/-- INTERNAL: and the traced set-up of a chip that was found. -/
theorem setupFound_result (k : Kernel) (stack : ℕ → Resource) (s : System) :
    (setupFound k stack s).result = some (W83627dhg.setupFound k stack s) := by
  unfold setupFound
  rw [Traced.bind_result_of (enablePorts_result _ _ _)]
  dsimp only
  rw [Traced.bind_result_of (mapLines_result _)]
  rw [Traced.bind_result_of (registerLines_result _ _ _ _ _)]
  rfl

/-- INTERNAL: **the initialization is that of the driver.**
SOURCE: w83627dhg-generic.patch:865-991 -/
theorem gpioInit_result (k : Kernel) (stack : ℕ → Resource) (s : System) :
    (gpioInit k stack s).result = some (W83627dhg.gpioInit k stack s) := by
  unfold gpioInit W83627dhg.gpioInit
  dsimp only
  split_ifs
  · rfl
  · rcases W83627dhg.find s.hw with ⟨_ | cirAddr, hw⟩
    · rfl
    · exact setupFound_result k stack _

/-! ## The accesses -/

/-- INTERNAL: the masks of a port that has an index.
SOURCE: w83627dhg-generic.patch:461-516 -/
theorem setupGpio_inBounds (cfg : Settings) (port : ℕ) (check : Bool) (hw : Machine) (hport : port ≤ 6) :
    (setupGpio cfg port check hw).Emits Access.InBounds := by
  have hindex : port - 1 < 1 + W83627DHG_GPIO_COUNT := by
    unfold W83627DHG_GPIO_COUNT
    omega
  apply (Traced.emits_one (P := Access.InBounds) (e := .polarity (port - 1)) hindex _).bind
  intro polarity _
  apply (Traced.emits_one (P := Access.InBounds) (e := .outmask (port - 1)) hindex _).bind
  intro outmask _
  exact Traced.emits_nil _

/-- INTERNAL: a line that exists is one of port 2 to 6.
SOURCE: w83627dhg-generic.patch:333-352 -/
theorem portno_of_portaddr (minor : ℕ) (h : portaddr minor ≠ 0) : 1 ≤ PORT minor ∧ PORT minor ≤ 5 := by
  unfold W83627dhg.portaddr at h
  split at h <;> first | omega | exact absurd rfl h

/-- INTERNAL: a read of any line.
SOURCE: w83627dhg-generic.patch:621-683 -/
theorem gpioGet_inBounds (cfg : Settings) (minor lastbyte : Byte) (hw : Machine) :
    (gpioGet cfg minor lastbyte hw).Emits Access.InBounds := by
  unfold gpioGet
  by_cases hbase : portaddr minor.toNat = 0
  · rw [if_pos hbase]
    exact Traced.emits_nil _
  · rw [if_neg hbase]
    dsimp only
    have hport := (portno_of_portaddr minor.toNat hbase).2
    apply Traced.Emits.bind
    · split_ifs
      · have hindex : PORT minor.toNat < 1 + W83627DHG_GPIO_COUNT := by
          unfold W83627DHG_GPIO_COUNT
          omega
        apply (Traced.emits_one (P := Access.InBounds) (e := .outmask (PORT minor.toNat)) hindex _).bind
        intro outmask _
        split_ifs
        · apply setupGpio_inBounds
          unfold W83627dhg.PORTNO
          omega
        · exact Traced.emits_nil _
      · exact Traced.emits_nil _
    · intro board _
      split_ifs <;> exact Traced.emits_nil _

/-- INTERNAL: the lines of a port that has an index.
SOURCE: w83627dhg-generic.patch:776-801 -/
theorem devmap_inBounds (outmask : ℕ → Byte) (pn : ℕ) (iomap : ℕ → GpioIomap) (count : DevCount) (hpn : pn ≤ 5) :
    (devmap outmask pn iomap count).Emits Access.InBounds := by
  have hindex : pn < 1 + W83627DHG_GPIO_COUNT := by
    unfold W83627DHG_GPIO_COUNT
    omega
  have hloop : ∀ bits, bits ≤ 8 → ∀ i iomap count,
      (devmapLoop outmask pn (pn * 8) bits i iomap count).Emits Access.InBounds := by
    intro bits
    induction bits with
    | zero => exact fun _ _ _ _ => Traced.emits_nil _
    | succ bit ih =>
      intro hbit i iomap count
      have hline : pn * 8 + bit < 8 + W83627dhg.GPIO_MAX := by
        unfold W83627dhg.GPIO_MAX
        omega
      have hrest := ih (by omega)
      have hwrite : ∀ m, (writeIomap iomap (pn * 8 + bit) m).Emits Access.InBounds := fun m =>
        Traced.emits_one (P := Access.InBounds) (e := .iomap (pn * 8 + bit)) hline _
      rw [devmapLoop]
      apply (Traced.emits_one (P := Access.InBounds) (e := .outmask pn) hindex _).bind
      intro byte _
      dsimp only
      split_ifs
      · cases W83627dhg.lissnames[i]? with
        | none => exact (hwrite _).bind fun iomap _ => hrest _ iomap _
        | some name => exact (hwrite _).bind fun iomap _ => hrest _ iomap _
      · exact (hwrite _).bind fun iomap _ => hrest _ iomap _
  exact hloop 8 (le_refl 8) 0 iomap count

/-- INTERNAL: the ports that are enabled have an index.
SOURCE: w83627dhg-generic.patch:892-899 -/
theorem enablePorts_inBounds (cfg : Settings) (portmask : Byte) (hw : Machine) :
    (enablePorts cfg portmask hw).Emits Access.InBounds := by
  apply Traced.emits_foldl
  intro pn hpn hw
  have hle : ∀ n ∈ [6, 5, 4, 3, 2], n ≤ 6 := by decide
  split_ifs
  · exact setupGpio_inBounds cfg pn false _ (hle pn hpn)
  · exact Traced.emits_nil _

/-- INTERNAL: the ports that are mapped have an index, if the search for the first one ends at one.
SOURCE: w83627dhg-generic.patch:921-941 -/
theorem mapLines_inBounds (v : Vars) (hfirst : firstPort v.portmask 6 6 1 ≤ 5) :
    (mapLines v).Emits Access.InBounds := by
  apply (devmap_inBounds v.outmask _ v.iomap ⟨0, 0⟩ hfirst).bind
  intro first _
  apply Traced.Emits.bind
  · apply Traced.emits_foldl
    intro pn hpn m
    have hlt := (List.mem_range'_1.mp hpn).2
    split_ifs
    · exact devmap_inBounds _ _ _ _ (by omega)
    · exact Traced.emits_nil _
  · intro m _
    exact Traced.emits_nil _

/-- INTERNAL: the loop over the lines.
SOURCE: w83627dhg-generic.patch:812-840 -/
theorem setupPlatformDevs_inBounds (k : Kernel) (stack : ℕ → Resource) (iomap : ℕ → GpioIomap) (count : DevCount)
    (pdevin : Pdev) : (setupPlatformDevs k stack iomap count pdevin).Emits Access.InBounds := by
  apply Traced.Emits.bind
  · apply Traced.emits_foldl
    intro m hm a
    have hline : m < 8 + W83627dhg.GPIO_MAX := (List.mem_range'_1.mp hm).2
    apply (Traced.emits_one (P := Access.InBounds) (e := .iomap m) hline _).bind
    intro line _
    exact Traced.emits_nil _
  · intro a _
    exact Traced.emits_nil _

/-- INTERNAL: the registration of the lines accesses its arrays inside of them. -/
theorem registerLines_inBounds (k : Kernel) (stack : ℕ → Resource) (count : DevCount) (rc : ℤ) (s : System) :
    (registerLines k stack count rc s).Emits Access.InBounds := by
  unfold registerLines
  dsimp only
  apply Traced.Emits.bind
  · split_ifs
    · apply (setupPlatformDevs_inBounds _ _ _ _ _).bind
      intro devs _
      exact Traced.emits_nil _
    · exact Traced.emits_nil _
    · exact Traced.emits_nil _
  · intro registered _
    split_ifs <;> exact Traced.emits_nil _

/-- The chip is there, and the filter of the port mask leaves the bit of port 7 alone.
SOURCE: w83627dhg-generic.patch:871-890 -/
def Port7Alone (s : System) : Prop := s.vars.portmask &&& 0x7E#8 = 0x40#8 ∧ (W83627dhg.find s.hw).1 ≠ none

/-- INTERNAL: the search for the first port ends at one that exists, unless only port 7 is enabled.
SOURCE: w83627dhg-generic.patch:867-882, 924-927 -/
theorem firstPort_le (portmask : Byte) (hmask : portmask &&& 0x7E#8 ≠ 0) (hother : portmask &&& 0x7E#8 ≠ 0x40#8) :
    firstPort (portmask &&& 0x7E#8) 6 6 1 ≤ 5 := by
  obtain ⟨-, hhi, hbit, hleast⟩ := GpioMinors.w83627dhg_first portmask hmask
  by_contra hlt
  have hsix : firstPort (portmask &&& 0x7E#8) 6 6 1 = 6 := by omega
  rw [hsix] at hbit hleast
  apply hother
  apply BitVec.eq_of_getLsbD_eq
  intro i hi
  by_cases heq : i = 6
  · rw [heq, hbit]
    rfl
  · have hclear : (portmask &&& 0x7E#8).getLsbD i = false := by
      refine Bool.eq_false_iff.mpr fun hset => ?_
      have := hleast i hset
      omega
    have hconst : ∀ j < 8, j ≠ 6 → (0x40#8).getLsbD j = false := by decide
    rw [hclear, hconst i hi heq]

/-- INTERNAL: **the accesses of an initialization**, unless only port 7 is enabled.
SOURCE: w83627dhg-generic.patch:865-991 -/
theorem gpioInit_inBounds (k : Kernel) (stack : ℕ → Resource) (s : System) (hother : ¬Port7Alone s) :
    (gpioInit k stack s).Emits Access.InBounds := by
  unfold Port7Alone at hother
  unfold gpioInit
  dsimp only
  by_cases hmask : s.vars.portmask &&& 0x7E#8 = 0
  · rw [if_pos hmask]
    exact Traced.emits_nil _
  rw [if_neg hmask]
  rcases hfind : W83627dhg.find s.hw with ⟨_ | cirAddr, hw⟩
  · exact Traced.emits_nil _
  · rw [hfind] at hother
    have hports : s.vars.portmask &&& 0x7E#8 ≠ 0x40#8 := fun h => hother ⟨h, Option.some_ne_none cirAddr⟩
    apply (enablePorts_inBounds _ _ _).bind
    intro board _
    dsimp only
    apply Traced.Emits.bind
    · apply mapLines_inBounds
      rw [(GpioMinors.w83627dhg_requestGpio k _ 0 0).2]
      exact firstPort_le _ hmask hports
    · intro lines _
      apply (registerLines_inBounds _ _ _ _ _).bind
      intro registered _
      exact Traced.emits_nil _

/-- INTERNAL: the map of a port reads its mask first.
SOURCE: w83627dhg-generic.patch:776-777 -/
theorem outmask_mem_devmap (outmask : ℕ → Byte) (pn : ℕ) (iomap : ℕ → GpioIomap) (count : DevCount) :
    .outmask pn ∈ (devmap outmask pn iomap count).items := by
  unfold devmap
  rw [devmapLoop]
  dsimp only
  rw [Traced.bind_of_result rfl]
  exact List.mem_append_left _ List.mem_cons_self

/-- INTERNAL: the lines of port 7 are behind the arrays.
SOURCE: w83627dhg-generic.patch:924-932 -/
theorem mapLines_not_inBounds (v : Vars) (hmask : v.portmask = 0x40#8) : ¬(mapLines v).Emits Access.InBounds := by
  intro hbounds
  have hfirst : firstPort v.portmask 6 6 1 = 6 := by
    rw [hmask]
    decide
  have hmem : .outmask 6 ∈ (mapLines v).items := by
    unfold mapLines
    dsimp only
    rw [hfirst, Traced.bind_of_result (devmap_result _ _ _ _)]
    exact List.mem_append_left _ (outmask_mem_devmap _ _ _ _)
  exact absurd (hbounds _ hmem) (by decide)

/-- INTERNAL: with a chip that is found and port 7 alone.
SOURCE: w83627dhg-generic.patch:892-932 -/
theorem setupFound_not_inBounds (k : Kernel) (stack : ℕ → Resource) (s : System) (hmask : s.vars.portmask = 0x40#8) :
    ¬(setupFound k stack s).Emits Access.InBounds := by
  intro hbounds
  unfold setupFound at hbounds
  rw [Traced.bind_of_result (enablePorts_result _ _ _)] at hbounds
  dsimp only at hbounds
  rw [Traced.bind_of_result (mapLines_result _)] at hbounds
  refine mapLines_not_inBounds _ ?_ fun e he =>
    hbounds e (List.mem_append_right _ (List.mem_append_left _ he))
  rw [(GpioMinors.w83627dhg_requestGpio k _ 0 0).2]
  exact hmask

/-- INTERNAL: **the accesses stay in the arrays** unless only port 7 is enabled.
SOURCE: w83627dhg-generic.patch:865-991 -/
theorem gpioInit_inBounds_iff (k : Kernel) (stack : ℕ → Resource) (s : System) :
    (gpioInit k stack s).Emits Access.InBounds ↔ ¬Port7Alone s := by
  refine ⟨?_, gpioInit_inBounds k stack s⟩
  rintro hbounds ⟨hmask, hfound⟩
  unfold gpioInit at hbounds
  dsimp only at hbounds
  rw [if_neg (by rw [hmask]; decide)] at hbounds
  rcases hfind : W83627dhg.find s.hw with ⟨_ | cirAddr, hw⟩
  · rw [hfind] at hfound
    exact hfound rfl
  · rw [hfind] at hbounds
    exact setupFound_not_inBounds k stack _ hmask hbounds

/-! ## The ports after an initialization -/

/-- INTERNAL: the request for the I/O region changes no line.
SOURCE: w83627dhg-generic.patch:901-919 -/
theorem requestGpio_maps (k : Kernel) (s : System) :
    (W83627dhg.requestGpio k s).2.vars.iomap = s.vars.iomap ∧
      (W83627dhg.requestGpio k s).2.vars.portmask = s.vars.portmask := by
  refine ⟨?_, (GpioMinors.w83627dhg_requestGpio k s 0 0).2⟩
  unfold W83627dhg.requestGpio
  split_ifs <;> dsimp only <;> split_ifs <;> rfl

/-- INTERNAL: the port mask after an initialization, and the map: either nothing is mapped or the ports from the
first one on are.
SOURCE: w83627dhg-generic.patch:865-991 -/
theorem gpioInit_maps (k : Kernel) (stack : ℕ → Resource) (s : System)
    (hnc : ∀ line, (s.vars.iomap line).direction = .nc) :
    (W83627dhg.gpioInit k stack s).2.vars.portmask = s.vars.portmask &&& 0x7E#8 ∧
      ∀ line, ((W83627dhg.gpioInit k stack s).2.vars.iomap line).direction ≠ .nc →
        line / 8 ∈ mapped (s.vars.portmask &&& 0x7E#8) (firstPort (s.vars.portmask &&& 0x7E#8) 6 6 1)
          (5 - firstPort (s.vars.portmask &&& 0x7E#8) 6 6 1) := by
  unfold W83627dhg.gpioInit
  dsimp only
  split_ifs with hmask
  · exact ⟨rfl, fun line hline => absurd (hnc line) hline⟩
  · rcases W83627dhg.find s.hw with ⟨_ | cirAddr, hw⟩
    · exact ⟨rfl, fun line hline => absurd (hnc line) hline⟩
    · obtain ⟨hiomap, hportmask⟩ := requestGpio_maps k
        { vars := { s.vars with portmask := s.vars.portmask &&& 0x7E#8, cirAddr := cirAddr }
          hw := W83627dhg.enablePorts { s.vars.toSettings with cirAddr := cirAddr } (s.vars.portmask &&& 0x7E#8) hw
          log := s.log }
      unfold W83627dhg.setupFound
      dsimp only at hiomap hportmask ⊢
      generalize W83627dhg.requestGpio k _ = request at hiomap hportmask ⊢
      have hmap := GpioLineMap.w83627dhg_lineMap request.2.vars fun line => by rw [hiomap]; exact hnc line
      rw [hportmask] at hmap
      rw [(GpioMinors.w83627dhg_registerLines k stack _ _ _).2, GpioLineMap.registerLines_iomap]
      refine ⟨hportmask, ?_⟩
      intro line hline
      by_contra hnone
      apply hline
      rw [hmap.direction, if_neg fun hboth => hnone hboth.1]

/-! ## The bounds -/

/-- All accesses to the arrays are in bounds, the ports that are mapped are among 2 to 6, and a line can be opened
only if it is one of an enabled port among these. -/
structure Contained (k : Kernel) (stack : ℕ → Resource) (s : System) : Prop where
  init : (gpioInit k stack s).Emits Access.InBounds
  get : ∀ minor lastbyte hw,
    (gpioGet (W83627dhg.gpioInit k stack s).2.vars.toSettings minor lastbyte hw).Emits Access.InBounds
  set : ∀ minor state hw,
    (gpioSet (W83627dhg.gpioInit k stack s).2.vars.toDriver minor state hw).Emits Access.InBounds
  maps : ∀ line, ((W83627dhg.gpioInit k stack s).2.vars.iomap line).direction ≠ .nc →
    2 ≤ PORTNO line ∧ PORTNO line ≤ 6
  opens : ∀ minor, gpioOpen (W83627dhg.gpioInit k stack s).2.vars.portmask 0 minor = 0 →
    2 ≤ PORTNO minor ∧ PORTNO minor ≤ 6 ∧
      (W83627dhg.gpioInit k stack s).2.vars.portmask.getLsbD (PORT minor) = true

/-- INTERNAL: the port of a minor number. -/
theorem port_eq_div (minor : ℕ) : PORT minor = minor / 8 := by
  rw [W83627dhg.PORT, Nat.shiftRight_eq_div_pow]

/-- **The arrays and the ports.** The initialization stays in the arrays and in the ports 2 to 6, and no line of
another port can be opened, if and only if the mask does not have the bit of port 7.
SOURCE: w83627dhg-generic.patch:134-141, 187-188, 734-802, 865-945 -/
theorem contained_iff (k : Kernel) (stack : ℕ → Resource) (s : System) (hmask : s.vars.portmask &&& 0x7E#8 ≠ 0)
    (hnc : ∀ line, (s.vars.iomap line).direction = .nc) :
    Contained k stack s ↔ s.vars.portmask.getLsbD 6 = false := by
  obtain ⟨hportmask, hmaps⟩ := gpioInit_maps k stack s hnc
  constructor
  · intro hcontained
    by_contra hne
    have hseven : s.vars.portmask.getLsbD 6 = true := eq_true_of_ne_false hne
    -- the first line of port 7
    have hopen : gpioOpen (W83627dhg.gpioInit k stack s).2.vars.portmask 0 48 = 0 := by
      rw [GpioMinors.w83627dhg_open_iff, hportmask, BitVec.getLsbD_and, hseven]
      decide
    exact absurd (hcontained.opens 48 hopen).2.1 (by decide)
  · intro hseven
    have hother : s.vars.portmask &&& 0x7E#8 ≠ 0x40#8 := by
      intro heq
      have hbit : (s.vars.portmask &&& 0x7E#8).getLsbD 6 = true := by
        rw [heq]
        rfl
      rw [BitVec.getLsbD_and, hseven] at hbit
      cases hbit
    have hfirst := firstPort_le s.vars.portmask hmask hother
    obtain ⟨hlo, -, -, hleast⟩ := GpioMinors.w83627dhg_first s.vars.portmask hmask
    constructor
    · exact gpioInit_inBounds k stack s fun h => hother h.1
    · exact fun minor lastbyte hw => gpioGet_inBounds _ minor lastbyte hw
    · exact fun _ _ _ => Traced.emits_nil _
    · intro line hline
      have hport := (mem_mapped _ _ _ _).mp (hmaps line hline)
      unfold W83627dhg.PORTNO
      rw [port_eq_div]
      omega
    · intro minor hopen
      have hbit := (GpioMinors.w83627dhg_open_iff _ _).mp hopen
      unfold W83627dhg.PORTNO
      rw [port_eq_div]
      have hne : minor / 8 ≠ 6 := by
        intro heq
        rw [heq, hportmask, BitVec.getLsbD_and, hseven] at hbit
        cases hbit
      have := hleast _ (hportmask ▸ hbit)
      exact ⟨by omega, by omega, hbit⟩

/-- Port 2, on a board that has the chip. -/
theorem contained_iff_port2 : Contained GpioConfigMode.grantAll GpioExports.emptyStack (GpioMinors.w83627dhgLoaded 0x02#8) :=
  (contained_iff GpioConfigMode.grantAll GpioExports.emptyStack (GpioMinors.w83627dhgLoaded 0x02#8) (by decide)
    fun _ => rfl).mpr (by decide)

/-- **Port 7 alone** passes the filter: the initialization succeeds, uses the mask and the lines of a port that the
arrays do not have, and the first line of this port can be opened.
SOURCE: w83627dhg-generic.patch:871-882, 924-930 -/
theorem port7_is_mapped :
    (W83627dhg.gpioInit GpioConfigMode.grantAll GpioExports.emptyStack (GpioMinors.w83627dhgLoaded 0x40#8)).1 = 0 ∧
      .outmask 6 ∈ (gpioInit GpioConfigMode.grantAll GpioExports.emptyStack (GpioMinors.w83627dhgLoaded 0x40#8)).items ∧
      .iomap 48 ∈ (gpioInit GpioConfigMode.grantAll GpioExports.emptyStack (GpioMinors.w83627dhgLoaded 0x40#8)).items ∧
      gpioOpen (W83627dhg.gpioInit GpioConfigMode.grantAll GpioExports.emptyStack
        (GpioMinors.w83627dhgLoaded 0x40#8)).2.vars.portmask 0 48 = 0 ∧
      ¬Contained GpioConfigMode.grantAll GpioExports.emptyStack (GpioMinors.w83627dhgLoaded 0x40#8) := by
  have hmask : .outmask 6 ∈
      (gpioInit GpioConfigMode.grantAll GpioExports.emptyStack (GpioMinors.w83627dhgLoaded 0x40#8)).items := by
    decide +kernel
  refine ⟨by decide +kernel, hmask, by decide +kernel, by decide +kernel, ?_⟩
  intro hcontained
  exact absurd (hcontained.init _ hmask) (by decide)

/-! ## The registered device numbers -/

/-- INTERNAL: device numbers are asked for only with a chip and a port.
SOURCE: w83627dhg-generic.patch:871-956 -/
theorem find_of_chrdevRegion (k : Kernel) (stack : ℕ → Resource) (s : System) (major : ℤ) (first num : ℕ) (rc : ℤ)
    (hcall : .chrdevRegion major first num rc ∈ (W83627dhg.gpioInit k stack s).2.log.drop s.log.length) :
    s.vars.portmask &&& 0x7E#8 ≠ 0 ∧ (W83627dhg.find s.hw).1 ≠ none := by
  unfold W83627dhg.gpioInit at hcall
  dsimp only at hcall
  split_ifs at hcall with hmask
  · rw [List.drop_length] at hcall
    cases hcall
  · refine ⟨hmask, fun hnone => ?_⟩
    rcases hfind : W83627dhg.find s.hw with ⟨_ | cirAddr, hw⟩
    · rw [hfind] at hcall
      simp only [List.drop_length, List.not_mem_nil] at hcall
    · rw [hfind] at hnone
      cases hnone

/-- **The lines that can be opened** are all among the device numbers an initialization registered if and only
if the enabled ports follow one another. A line of another port can be opened, but no registered number leads
to it. For the W83627DHG port 7 may not be enabled: beside another port its lines are not counted, and alone
they are written behind the arrays, over the other variables of the module.
SOURCE: w83627dhg-generic.patch:734-753, 921-956; vt1211-generic.patch:507-532, 726-753 -/
theorem registered_lines_iff {M : Type} (io : TTLinux.Model.Vt1211.PortIo M) (k : Kernel)
    (stack : ℕ → Resource) (s : System) (t : TTLinux.Model.Vt1211.System M) (major : ℤ) (first num : ℕ) :
    (.chrdevRegion major first num 0 ∈ (W83627dhg.gpioInit k stack s).2.log.drop s.log.length →
      ((gpioInit k stack s).Emits Access.InBounds ∧
        (∀ minor, gpioOpen (W83627dhg.gpioInit k stack s).2.vars.portmask 0 minor = 0 →
          first ≤ minor ∧ minor < first + num) ↔
        GpioMinors.Consecutive (s.vars.portmask &&& 0x7E#8) ∧ s.vars.portmask.getLsbD 6 = false)) ∧
    (.chrdevRegion major first num 0 ∈ (TTLinux.Model.Vt1211.gpioInit io k stack t).2.log.drop t.log.length →
      ((∀ minor, TTLinux.Model.Vt1211.gpioOpen
          (TTLinux.Model.Vt1211.gpioInit io k stack t).2.vars.portmask 0 minor = 0 →
          first ≤ minor ∧ minor < first + num) ↔
        GpioMinors.Consecutive (t.vars.portmask &&& 0x7F#8))) := by
  constructor
  · intro hcall
    obtain ⟨hmask, hfound⟩ := find_of_chrdevRegion k stack s major first num 0 hcall
    obtain ⟨-, v, hv, hfinal, rfl, rfl⟩ := GpioMinors.w83627dhg_init k stack s major first num 0 hcall
    rw [hfinal, GpioMinors.w83627dhg_covers_iff v s.vars.portmask hv hmask, gpioInit_inBounds_iff]
    have hbit : (s.vars.portmask &&& 0x7E#8).getLsbD 6 = s.vars.portmask.getLsbD 6 := by
      rw [BitVec.getLsbD_and]
      exact Bool.and_true _
    rw [hbit]
    constructor
    · rintro ⟨hother, hcons, halone⟩
      refine ⟨hcons, Bool.eq_false_iff.mpr fun hseven => hother ⟨?_, hfound⟩⟩
      have hless := halone hseven
      apply BitVec.eq_of_getLsbD_eq
      intro i hi
      have hconst : ∀ j < 8, (0x40#8).getLsbD j = decide (j = 6) := by decide
      rw [hconst i hi]
      rcases lt_trichotomy i 6 with hlt | rfl | hgt
      · rw [hless i hlt, decide_eq_false (by omega)]
      · rw [hbit, hseven, decide_eq_true rfl]
      · obtain rfl : i = 7 := by omega
        rw [BitVec.getLsbD_and]
        exact Bool.and_false _
    · rintro ⟨hcons, hseven⟩
      refine ⟨?_, hcons, fun h => by rw [hseven] at h; cases h⟩
      rintro ⟨heq, -⟩
      rw [heq, hseven] at hbit
      cases hbit
  · intro hcall
    obtain ⟨hmask, hwkup, v, hv, hfinal, rfl, rfl⟩ := GpioMinors.vt1211_init io k stack t major first num 0 hcall
    rw [hfinal]
    exact GpioMinors.vt1211_covers_iff v t.vars.portmask hv hmask hwkup

/-- Ports 2 and 3 of the W83627DHG; ports 3 to 6 of the VT1211. -/
theorem registered_lines_iff_neighbours :
    (∀ minor, gpioOpen (GpioMinors.w83627dhgReady 0x06#8).vars.portmask 0 minor = 0 →
      8 ≤ minor ∧ minor < 8 + 16) ∧
    (∀ minor, TTLinux.Model.Vt1211.gpioOpen (GpioMinors.vt1211Ready 0x3C#8).vars.portmask 0 minor = 0 →
      16 ≤ minor ∧ minor < 16 + 27) := by
  constructor
  · exact (((registered_lines_iff ⟨Machine.outb, Machine.inb⟩ _ _ _ (GpioMinors.vt1211Loaded 0x3C#8) 254 8 16).1
      (by decide +kernel)).mpr (by decide)).2
  · apply ((registered_lines_iff _ _ _ (GpioMinors.w83627dhgLoaded 0x06#8) _ 254 16 27).2 (by decide +kernel)).mpr
    decide

/-- Ports 2 and 4 of the W83627DHG, ports 1 and 3 of the VT1211: sixteen device numbers are registered, and
the first line of the second port can be opened but is not among them.
SOURCE: w83627dhg-generic.patch:921-941; vt1211-generic.patch:726-742 -/
theorem registered_lines_miss_port :
    (.chrdevRegion 254 8 16 0 ∈ (GpioMinors.w83627dhgReady 0x0A#8).log ∧
      gpioOpen (GpioMinors.w83627dhgReady 0x0A#8).vars.portmask 0 24 = 0 ∧ ¬24 < 8 + 16) ∧
    (.chrdevRegion 254 0 16 0 ∈ (GpioMinors.vt1211Ready 0x05#8).log ∧
      TTLinux.Model.Vt1211.gpioOpen (GpioMinors.vt1211Ready 0x05#8).vars.portmask 0 16 = 0 ∧ ¬16 < 0 + 16) := by
  decide +kernel

end TTLinux.Analysis.GpioArrays
