import TTLinux.Analysis.GpioArrays
import TTLinux.Lib.Resources

/-!
# The resources of an initialization

The initialization of both drivers asks for an I/O region, for device numbers and for two platform
devices, and releases them again after an error. What it does not release are the device numbers: if
these are granted and a platform device is not, the numbers stay registered.
-/

set_option autoImplicit false

namespace TTLinux.Analysis.GpioResources

open TTLinux.Lib
open TTLinux.Lib.SuperIo (Byte Machine)
open TTLinux.Model.GpioKernel

/-! ## What is held -/

/-- A resource of the kernel. -/
inductive Held where
  | region (base size : ℕ)
  | numbers (major : ℤ) (firstminor numdevs : ℕ)
  | device (name : Name)
deriving DecidableEq

/-- The platform device that a call drops the reference to. -/
def put : KernelCall → Pdev
  | .putDevice pdev => pdev
  | .unregisterDevice pdev => pdev
  | _ => .null

/-- The platform device that a call takes off the bus. -/
def del : KernelCall → Pdev
  | .delDevice pdev => pdev
  | .unregisterDevice pdev => pdev
  | _ => .null

/-- What is behind a pointer to a platform device. -/
def deviceOf : Pdev → Option Held
  | .device name => some (.device name)
  | _ => none

/-- Which call acquires and which one releases a resource, with the part of a platform device that is released
by `drop`. -/
def ledger (drop : KernelCall → Pdev) : Ledger KernelCall Held where
  acquired
    | .requestRegion base size granted => if granted then some (.region base size) else none
    | .chrdevRegion major firstminor numdevs rc =>
      if rc = 0 then some (.numbers major firstminor numdevs) else none
    | .registerDevice name _ registered => if registered then some (.device name) else none
    | _ => none
  released
    | .releaseRegion base size => some (.region base size)
    | .unregisterChrdevRegion major firstminor numdevs => some (.numbers major firstminor numdevs)
    | call => deviceOf (drop call)

/-- Everything that was acquired is released exactly once: the region, the numbers, and of each platform
device the reference and its place on the bus. -/
def Released (calls : List KernelCall) : Prop := (ledger put).Settled calls ∧ (ledger del).Settled calls

instance (calls : List KernelCall) : Decidable (Released calls) := by
  unfold Released Ledger.Settled
  infer_instance

/-- The holding of a platform device. -/
def deviceGain (pdev : Pdev) (r : Held) : ℤ := if deviceOf pdev = some r then 1 else 0

/-- The holding of a region that is mapped. -/
def regionGain (mapped : Bool) (base size : ℕ) (r : Held) : ℤ :=
  if mapped = true ∧ .region base size = r then 1 else 0

/-- The holding of device numbers that are granted. -/
def numbersGain (rc major : ℤ) (firstminor numdevs : ℕ) (r : Held) : ℤ :=
  if rc = 0 ∧ .numbers major firstminor numdevs = r then 1 else 0

section

variable (drop : KernelCall → Pdev)

/-- INTERNAL: a region that was granted is given back. -/
theorem held_releaseRegion (mapped : Bool) (base size : ℕ) (r : Held) :
    (ledger drop).held (if mapped then [.releaseRegion base size] else []) r = -regionGain mapped base size r := by
  cases mapped with
  | false => rfl
  | true =>
    have hacq : (ledger drop).acquired (.releaseRegion base size) = none := rfl
    rw [if_pos rfl, Ledger.held_released _ hacq]
    simp only [ledger, regionGain, Option.some.injEq, true_and]

variable (hdrop : drop = put ∨ drop = del)
include hdrop

/-- INTERNAL: a region that was granted is held. -/
theorem held_requestRegion (base size : ℕ) (granted : Bool) (r : Held) :
    (ledger drop).held [.requestRegion base size granted] r = regionGain granted base size r := by
  have hrel : (ledger drop).released (.requestRegion base size granted) = none := by
    rcases hdrop with rfl | rfl <;> rfl
  rw [Ledger.held_acquired _ hrel]
  cases granted <;> simp [ledger, regionGain]

/-- INTERNAL: so are the device numbers. -/
theorem held_chrdevRegion (major : ℤ) (firstminor numdevs : ℕ) (rc : ℤ) (r : Held) :
    (ledger drop).held [.chrdevRegion major firstminor numdevs rc] r = numbersGain rc major firstminor numdevs r := by
  have hrel : (ledger drop).released (.chrdevRegion major firstminor numdevs rc) = none := by
    rcases hdrop with rfl | rfl <;> rfl
  rw [Ledger.held_acquired _ hrel]
  by_cases hrc : rc = 0 <;> simp [ledger, numbersGain, hrc]

/-- INTERNAL: the numbers that the kernel grants.
SOURCE: w83627dhg-generic.patch:947-956; vt1211-generic.patch:744-753 -/
theorem held_allocateNumbers (k : Kernel) (major : ℤ) (firstminor numdevs : ℕ) (r : Held) :
    (ledger drop).held [(allocateNumbers k major firstminor numdevs).2.2] r =
      numbersGain (allocateNumbers k major firstminor numdevs).1 (allocateNumbers k major firstminor numdevs).2.1
        firstminor numdevs r := by
  unfold allocateNumbers
  split_ifs
  · exact held_chrdevRegion drop hdrop _ _ _ _ r
  · exact held_chrdevRegion drop hdrop _ _ _ _ r

/-- INTERNAL: and a device that was registered. -/
theorem held_registerDevice (name : Name) (resources : List Resource) (registered : Bool) (r : Held) :
    (ledger drop).held [.registerDevice name resources registered] r =
      if registered then deviceGain (.device name) r else 0 := by
  have hrel : (ledger drop).released (.registerDevice name resources registered) = none := by
    rcases hdrop with rfl | rfl <;> rfl
  rw [Ledger.held_acquired _ hrel]
  cases registered <;> simp [ledger, deviceGain, deviceOf]

/-- INTERNAL: the platform devices that are registered are those behind the pointers.
SOURCE: w83627dhg-generic.patch:843-862; vt1211-generic.patch:619-638 -/
theorem held_setupPlatformDevs (k : Kernel) (drvname : Name) (first lines : ℕ) (stack : ℕ → Resource)
    (iomap : ℕ → GpioIomap) (count : DevCount) (r : Held) :
    (ledger drop).held (setupPlatformDevs k drvname first lines stack iomap count .null).2.2.2 r =
      deviceGain (setupPlatformDevs k drvname first lines stack iomap count .null).2.1 r +
        deviceGain (setupPlatformDevs k drvname first lines stack iomap count .null).2.2.1 r := by
  have hregister := held_registerDevice drop hdrop
  have hnull : deviceGain .null r = 0 := rfl
  have herr : deviceGain .err r = 0 := rfl
  have hpair : ∀ a b, (ledger drop).held [a, b] r = (ledger drop).held [a] r + (ledger drop).held [b] r :=
    fun a b => (ledger drop).held_append [a] [b] r
  unfold setupPlatformDevs
  dsimp only
  split_ifs
  · rw [hregister, hnull, herr]
    rfl
  · rw [hpair, hregister, hregister, herr]
    rfl
  · rw [hpair, hregister, hregister]
    rfl

/-- INTERNAL: a platform device is released in both parts.
SOURCE: w83627dhg-generic.patch:969-976; vt1211-generic.patch:764-771 -/
theorem held_dropDevice (pdev : Pdev) (r : Held) : (ledger drop).held (dropDevice pdev) r = -deviceGain pdev r := by
  cases pdev with
  | err => rfl
  | null => rcases hdrop with rfl | rfl <;> rfl
  | device name =>
    rcases hdrop with rfl | rfl <;>
      simp [dropDevice, Ledger.held_cons, Ledger.held_nil, ledger, put, del, deviceOf, deviceGain]

/-- INTERNAL: the two devices are given back. -/
theorem held_unregisterDevices (pdevin pdevout : Pdev) (r : Held) :
    (ledger drop).held [.unregisterDevice pdevin, .unregisterDevice pdevout] r =
      -deviceGain pdevin r - deviceGain pdevout r := by
  have hrel : ∀ pdev, (ledger drop).released (.unregisterDevice pdev) = deviceOf pdev := by
    rcases hdrop with rfl | rfl <;> exact fun pdev => rfl
  have hone : ∀ pdev, (ledger drop).held [.unregisterDevice pdev] r = -deviceGain pdev r := by
    intro pdev
    have hacq : (ledger drop).acquired (.unregisterDevice pdev) = none := rfl
    rw [Ledger.held_released _ hacq, hrel, deviceGain]
  rw [← List.singleton_append, Ledger.held_append, hone, hone, sub_eq_add_neg]

/-- INTERNAL: and the numbers. -/
theorem held_unregisterChrdevRegion (major : ℤ) (firstminor numdevs : ℕ) (r : Held) :
    (ledger drop).held [.cdevDel, .unregisterChrdevRegion major firstminor numdevs] r =
      -numbersGain 0 major firstminor numdevs r := by
  rcases hdrop with rfl | rfl <;>
    simp [Ledger.held_cons, Ledger.held_nil, ledger, put, del, deviceOf, numbersGain]

/-- INTERNAL: `cdev_add` takes none of these. -/
theorem held_cdevAdd (major : ℤ) (firstminor numdevs : ℕ) (r : Held) :
    (ledger drop).held [.cdevAdd major firstminor numdevs] r = 0 := by
  rcases hdrop with rfl | rfl <;> rfl

end

/-- INTERNAL: what is still held was not released. -/
theorem not_released_of_held {calls : List KernelCall} (r : Held) (h : (ledger put).held calls r ≠ 0) :
    ¬Released calls := fun hreleased => h (((ledger put).settled_iff_held calls).mp hreleased.1 r)

/-- From one list of calls to a longer one the holdings change by `gain`, in both parts of a device. -/
def Gains (log log' : List KernelCall) (gain : Held → ℤ) : Prop :=
  ∃ calls, log' = log ++ calls ∧ ∀ drop, drop = put ∨ drop = del → ∀ r, (ledger drop).held calls r = gain r

/-- INTERNAL: no call was made. -/
theorem Gains.refl (log : List KernelCall) : Gains log log 0 :=
  ⟨[], (List.append_nil log).symm, fun drop _ r => (ledger drop).held_nil r⟩

/-- INTERNAL: calls with what they take and give back. -/
theorem Gains.append {log log' : List KernelCall} {gain gain' : Held → ℤ} (h : Gains log log' gain)
    {calls : List KernelCall} (hcalls : ∀ drop, drop = put ∨ drop = del → ∀ r, (ledger drop).held calls r = gain' r) :
    Gains log (log' ++ calls) (gain + gain') := by
  obtain ⟨first, rfl, hfirst⟩ := h
  refine ⟨first ++ calls, List.append_assoc _ _ _, ?_⟩
  intro drop hdrop r
  rw [Ledger.held_append, hfirst drop hdrop, hcalls drop hdrop, Pi.add_apply]

/-- INTERNAL: the gain of some calls, written in another way. -/
theorem Gains.congr {log log' : List KernelCall} {gain gain' : Held → ℤ} (h : Gains log log' gain)
    (heq : ∀ r, gain r = gain' r) : Gains log log' gain' := (funext heq) ▸ h

/-- INTERNAL: the request for a region. -/
theorem Gains.requestRegion (log : List KernelCall) (base size : ℕ) (granted : Bool) :
    Gains log (log ++ [.requestRegion base size granted]) (regionGain granted base size) :=
  ((Gains.refl log).append fun drop hdrop => held_requestRegion drop hdrop base size granted).congr
    fun _ => Int.zero_add _

/-- INTERNAL: everything is released if and only if nothing is gained. -/
theorem Gains.released_iff {log log' : List KernelCall} {gain : Held → ℤ} (h : Gains log log' gain) :
    Released (log'.drop log.length) ↔ ∀ r, gain r = 0 := by
  obtain ⟨calls, rfl, hcalls⟩ := h
  rw [List.drop_left, Released, Ledger.settled_iff_held, Ledger.settled_iff_held]
  constructor
  · rintro ⟨hput, -⟩ r
    rw [← hcalls put (Or.inl rfl) r]
    exact hput r
  · intro hgain
    refine ⟨fun r => ?_, fun r => ?_⟩
    · rw [hcalls put (Or.inl rfl) r, hgain]
    · rw [hcalls del (Or.inr rfl) r, hgain]

/-- INTERNAL: numbers that are asked for and granted are held. -/
theorem numbersGain_eq_zero_iff (rc rc' major : ℤ) (firstminor numdevs : ℕ) :
    (∀ r, (if rc = 0 then numbersGain rc' major firstminor numdevs r else 0) = 0) ↔ ¬(rc = 0 ∧ rc' = 0) := by
  constructor
  · rintro h ⟨hrc, hrc'⟩
    have := h (.numbers major firstminor numdevs)
    simp [numbersGain, hrc, hrc'] at this
  · intro h r
    rw [numbersGain, ite_eq_right_iff]
    exact fun hrc => if_neg fun h' => h ⟨hrc, h'.1⟩

/-- The calls of a registration in one place, with the answers for the numbers and for the devices, what is
released after an error and what is called without one.
SOURCE: w83627dhg-generic.patch:947-988; vt1211-generic.patch:744-783 -/
def registration (numbers : ℤ × ℤ × KernelCall) (devs : ℤ × Pdev × Pdev × List KernelCall)
    (released : List KernelCall) (added : KernelCall) (rc : ℤ) : List KernelCall :=
  if rc ≠ 0 then released ++ dropDevice .null ++ dropDevice .null
  else if numbers.1 ≠ 0 then [numbers.2.2] ++ released ++ dropDevice .null ++ dropDevice .null
  else if devs.1 ≠ 0 then [numbers.2.2] ++ devs.2.2.2 ++ released ++ dropDevice devs.2.2.1 ++ dropDevice devs.2.1
  else [numbers.2.2] ++ devs.2.2.2 ++ [added]

/-- INTERNAL: **after an error** the region and the devices are released, and the numbers are not.
SOURCE: w83627dhg-generic.patch:960-981; vt1211-generic.patch:755-776 -/
theorem registration_fails {drop : KernelCall → Pdev} {numbers : ℤ × ℤ × KernelCall}
    {devs : ℤ × Pdev × Pdev × List KernelCall} {released : List KernelCall} (added : KernelCall) {rc : ℤ}
    {region gain : Held → ℤ} (hdrop : drop = put ∨ drop = del)
    (hnumbers : ∀ r, (ledger drop).held [numbers.2.2] r = gain r)
    (hdevs : ∀ r, (ledger drop).held devs.2.2.2 r = deviceGain devs.2.1 r + deviceGain devs.2.2.1 r)
    (hreleased : ∀ r, (ledger drop).held released r = -region r)
    (hfails : ¬(rc = 0 ∧ numbers.1 = 0 ∧ devs.1 = 0)) (r : Held) :
    (ledger drop).held (registration numbers devs released added rc) r = (if rc = 0 then gain r else 0) - region r := by
  have hdropped := held_dropDevice drop hdrop
  have hnull : deviceGain .null r = 0 := rfl
  unfold registration
  by_cases hrc : rc = 0
  · rw [if_neg (not_not.mpr hrc), if_pos hrc]
    by_cases hgranted : numbers.1 = 0
    · have hdev : devs.1 ≠ 0 := fun hdev => hfails ⟨hrc, hgranted, hdev⟩
      rw [if_neg (not_not.mpr hgranted), if_pos hdev]
      simp only [Ledger.held_append, hnumbers, hdevs, hreleased, hdropped]
      omega
    · rw [if_pos hgranted]
      simp only [Ledger.held_append, hnumbers, hreleased, hdropped, hnull]
      omega
  · rw [if_pos hrc, if_neg hrc]
    simp only [Ledger.held_append, hreleased, hdropped, hnull]
    omega

/-- INTERNAL: the calls of a registration in which nothing fails. -/
theorem registration_succeeds {numbers : ℤ × ℤ × KernelCall} {devs : ℤ × Pdev × Pdev × List KernelCall}
    {released : List KernelCall} {added : KernelCall} {rc : ℤ} (h : rc = 0 ∧ numbers.1 = 0 ∧ devs.1 = 0) :
    registration numbers devs released added rc = [numbers.2.2] ++ devs.2.2.2 ++ [added] := by
  rw [registration, if_neg (not_not.mpr h.1), if_neg (not_not.mpr h.2.1), if_neg (not_not.mpr h.2.2)]

/-- INTERNAL: **a successful initialization** behind the request for the I/O region, and what the cleanup calls.
SOURCE: w83627dhg-generic.patch:981-1005; vt1211-generic.patch:776-803 -/
theorem Gains.registration_cleanup {log log' : List KernelCall} {mapped : Bool} {base size : ℕ}
    (h : Gains log log' (regionGain mapped base size)) (k : Kernel) (major : ℤ) (firstminor numdevs : ℕ)
    (drvname : Name) (first lines : ℕ) (stack : ℕ → Resource) (iomap : ℕ → GpioIomap) (count : DevCount)
    (released : List KernelCall) (rc : ℤ)
    (hok : rc = 0 ∧ (allocateNumbers k major firstminor numdevs).1 = 0 ∧
      (setupPlatformDevs k drvname first lines stack iomap count .null).1 = 0) :
    Gains log (log' ++ registration (allocateNumbers k major firstminor numdevs)
        (setupPlatformDevs k drvname first lines stack iomap count .null) released
        (.cdevAdd (allocateNumbers k major firstminor numdevs).2.1 firstminor numdevs) rc ++
      [.cdevDel, .unregisterChrdevRegion (allocateNumbers k major firstminor numdevs).2.1 firstminor numdevs] ++
      (if mapped then [.releaseRegion base size] else []) ++
      [.unregisterDevice (setupPlatformDevs k drvname first lines stack iomap count .null).2.2.1,
        .unregisterDevice (setupPlatformDevs k drvname first lines stack iomap count .null).2.1]) 0 := by
  obtain ⟨calls, rfl, hcalls⟩ := h
  rw [registration_succeeds hok]
  simp only [List.append_assoc]
  refine ⟨_, rfl, ?_⟩
  intro drop hdrop r
  simp only [Ledger.held_append, hcalls drop hdrop, held_allocateNumbers drop hdrop,
    held_setupPlatformDevs drop hdrop, held_cdevAdd drop hdrop, held_unregisterChrdevRegion drop hdrop,
    held_releaseRegion, held_unregisterDevices drop hdrop, hok.2.1, Pi.zero_apply]
  omega

/-- INTERNAL: **a failed initialization** behind the request for the I/O region gains the device numbers, if
they are asked for and granted.
SOURCE: w83627dhg-generic.patch:947-981; vt1211-generic.patch:744-776 -/
theorem Gains.registration_fails {log log' : List KernelCall} {mapped : Bool} {base size : ℕ}
    (h : Gains log log' (regionGain mapped base size)) (k : Kernel) (major : ℤ) (firstminor numdevs : ℕ)
    (drvname : Name) (first lines : ℕ) (stack : ℕ → Resource) (iomap : ℕ → GpioIomap) (count : DevCount)
    (added : KernelCall) (rc : ℤ)
    (hfails : ¬(rc = 0 ∧ (allocateNumbers k major firstminor numdevs).1 = 0 ∧
      (setupPlatformDevs k drvname first lines stack iomap count .null).1 = 0)) :
    Gains log (log' ++ registration (allocateNumbers k major firstminor numdevs)
        (setupPlatformDevs k drvname first lines stack iomap count .null)
        (if mapped then [.releaseRegion base size] else []) added rc)
      fun r => if rc = 0 then numbersGain (allocateNumbers k major firstminor numdevs).1
        (allocateNumbers k major firstminor numdevs).2.1 firstminor numdevs r else 0 := by
  have hcalls := h.append fun drop hdrop => GpioResources.registration_fails added hdrop
    (held_allocateNumbers drop hdrop k major firstminor numdevs)
    (held_setupPlatformDevs drop hdrop k drvname first lines stack iomap count)
    (held_releaseRegion drop mapped base size) hfails
  apply hcalls.congr
  intro r
  rw [Pi.add_apply]
  omega

/-- INTERNAL: the return value of a failed initialization.
SOURCE: w83627dhg-generic.patch:978-980; vt1211-generic.patch:773-775 -/
theorem failure_ne_zero (e : ℤ) (he : e ≠ 0) : (if e ≠ -ENODEV then (-1 : ℤ) else e) ≠ 0 := by
  split_ifs
  · decide
  · exact he

/-! ## The W83627DHG -/

section W83627dhg

open TTLinux.Model.W83627dhg

/-- INTERNAL: the registration of the lines.
SOURCE: w83627dhg-generic.patch:947-988 -/
theorem w83627dhg_registerLines_eq (k : Kernel) (stack : ℕ → Resource) (count : DevCount) (rc : ℤ) (s : System)
    (hin : s.vars.pdevin = .null) (hout : s.vars.pdevout = .null) :
    ∃ numbers devs,
      numbers = allocateNumbers k s.vars.major s.vars.firstminor s.vars.numdevs ∧
      devs = setupPlatformDevs k DRVNAME 8 GPIO_MAX stack s.vars.iomap count .null ∧
      ((registerLines k stack count rc s).1 = 0 ↔ rc = 0 ∧ numbers.1 = 0 ∧ devs.1 = 0) ∧
      (registerLines k stack count rc s).2.log = s.log ++ registration numbers devs
        (if s.vars.gpioMapped then [.releaseRegion s.vars.gpioBase W83627DHG_GPIO_SIZE] else [])
        (.cdevAdd numbers.2.1 s.vars.firstminor s.vars.numdevs) rc ∧
      ((registerLines k stack count rc s).1 = 0 → (registerLines k stack count rc s).2.vars =
        { s.vars with major := numbers.2.1, pdevout := devs.2.1, pdevin := devs.2.2.1 }) := by
  refine ⟨_, _, rfl, rfl, ?_⟩
  unfold registerLines registration
  generalize allocateNumbers k s.vars.major s.vars.firstminor s.vars.numdevs = numbers
  by_cases hrc : rc = 0
  · by_cases hgranted : numbers.1 = 0
    · generalize hsetup : setupPlatformDevs k DRVNAME 8 GPIO_MAX stack s.vars.iomap count .null = devs
      by_cases hdev : devs.1 = 0
      · simp [hrc, hgranted, hin, hsetup, hdev, List.append_assoc]
      · have := failure_ne_zero devs.1 hdev
        simp_all [List.append_assoc]
    · have := failure_ne_zero numbers.1 hgranted
      simp_all [List.append_assoc]
  · have := failure_ne_zero rc hrc
    simp_all [List.append_assoc]

/-- INTERNAL: the request for the I/O region, with nothing mapped before.
SOURCE: w83627dhg-generic.patch:901-919 -/
theorem w83627dhg_requestGpio_gains (k : Kernel) (s : System) (hmapped : s.vars.gpioMapped = false) :
    ∃ base mapped, (requestGpio k s).2.vars = { s.vars with gpioBase := base, gpioMapped := mapped } ∧
      Gains s.log (requestGpio k s).2.log (regionGain mapped base W83627DHG_GPIO_SIZE) := by
  have hnone : ∀ base, Gains s.log s.log (regionGain false base W83627DHG_GPIO_SIZE) := fun base =>
    (Gains.refl s.log).congr fun r => rfl
  unfold requestGpio
  by_cases hmask : s.vars.portmask &&& 0x3D#8 = 0
  · rw [if_pos hmask]
    exact ⟨s.vars.gpioBase, false, hmapped ▸ rfl, hnone _⟩
  · rw [if_neg hmask]
    generalize (if s.vars.gpioBase = 0 then gpiobase s.vars.toDriver s.hw else (s.vars.gpioBase, s.hw)) = base
    have hcall := Gains.requestRegion s.log base.1 W83627DHG_GPIO_SIZE (k.requestRegion base.1 W83627DHG_GPIO_SIZE)
    dsimp only
    split_ifs with hbase hgranted
    · exact ⟨base.1, true, rfl, hgranted ▸ hcall⟩
    · rw [Bool.not_eq_true] at hgranted
      exact ⟨base.1, false, hmapped ▸ rfl, hgranted ▸ hcall⟩
    · exact ⟨base.1, false, hmapped ▸ rfl, hnone _⟩

/-- INTERNAL: the initialization behind the request for the I/O region.
SOURCE: w83627dhg-generic.patch:921-988 -/
theorem w83627dhg_request_released (k : Kernel) (stack : ℕ → Resource) (v : Vars) (log : List KernelCall)
    (hin : v.pdevin = .null) (hout : v.pdevout = .null) (rc : ℤ) (t : System) (base : ℕ) (mapped : Bool)
    (hvars : t.vars = { v with gpioBase := base, gpioMapped := mapped })
    (hgains : Gains log t.log (regionGain mapped base W83627DHG_GPIO_SIZE))
    (hfails : (registerLines k stack (mapLines t.vars).2 rc { t with vars := (mapLines t.vars).1 }).1 ≠ 0) :
    Released ((registerLines k stack (mapLines t.vars).2 rc { t with vars := (mapLines t.vars).1 }).2.log.drop
        log.length) ↔
      ¬(rc = 0 ∧ (allocateNumbers k v.major (mapLines v).1.firstminor (mapLines v).1.numdevs).1 = 0) := by
  obtain ⟨vars, hw, calls⟩ := t
  dsimp only at hvars
  subst hvars
  obtain ⟨numbers, devs, rfl, rfl, hcode, hlog, -⟩ := w83627dhg_registerLines_eq k stack
    (mapLines { v with gpioBase := base, gpioMapped := mapped }).2 rc
    ⟨(mapLines { v with gpioBase := base, gpioMapped := mapped }).1, hw, calls⟩ hin hout
  have hregistered := hgains.registration_fails k v.major (mapLines v).1.firstminor (mapLines v).1.numdevs DRVNAME 8
    GPIO_MAX stack (mapLines v).1.iomap (mapLines v).2
    (.cdevAdd (allocateNumbers k v.major (mapLines v).1.firstminor (mapLines v).1.numdevs).2.1
      (mapLines v).1.firstminor (mapLines v).1.numdevs) rc fun h => hfails (hcode.mpr h)
  rw [hlog]
  exact hregistered.released_iff.trans (numbersGain_eq_zero_iff rc _ _ _ _)

/-- INTERNAL: the cleanup after the initialization.
SOURCE: w83627dhg-generic.patch:921-1005 -/
theorem w83627dhg_request_cleanup (k : Kernel) (stack : ℕ → Resource) (v : Vars) (log : List KernelCall)
    (hin : v.pdevin = .null) (hout : v.pdevout = .null) (rc : ℤ) (t : System) (base : ℕ) (mapped : Bool)
    (hvars : t.vars = { v with gpioBase := base, gpioMapped := mapped })
    (hgains : Gains log t.log (regionGain mapped base W83627DHG_GPIO_SIZE))
    (hok : (registerLines k stack (mapLines t.vars).2 rc { t with vars := (mapLines t.vars).1 }).1 = 0) :
    Gains log (gpioCleanup (registerLines k stack (mapLines t.vars).2 rc
      { t with vars := (mapLines t.vars).1 }).2).log 0 := by
  obtain ⟨vars, hw, calls⟩ := t
  dsimp only at hvars
  subst hvars
  obtain ⟨numbers, devs, rfl, rfl, hcode, hlog, hafter⟩ := w83627dhg_registerLines_eq k stack
    (mapLines { v with gpioBase := base, gpioMapped := mapped }).2 rc
    ⟨(mapLines { v with gpioBase := base, gpioMapped := mapped }).1, hw, calls⟩ hin hout
  unfold gpioCleanup
  rw [hlog, hafter hok]
  exact hgains.registration_cleanup k v.major (mapLines v).1.firstminor (mapLines v).1.numdevs DRVNAME 8 GPIO_MAX
    stack (mapLines v).1.iomap (mapLines v).2 _ rc (hcode.mp hok)

/-- The module variables before an initialization. -/
structure W83627dhgFresh (v : Vars) : Prop where
  mapped : v.gpioMapped = false
  pdevin : v.pdevin = .null
  pdevout : v.pdevout = .null

/-- INTERNAL: a failed initialization with the chip that is found.
SOURCE: w83627dhg-generic.patch:892-990 -/
theorem w83627dhg_setupFound_released (k : Kernel) (stack : ℕ → Resource) (s : System) (hfresh : W83627dhgFresh s.vars)
    (hfails : (setupFound k stack s).1 ≠ 0) :
    Released ((setupFound k stack s).2.log.drop s.log.length) ↔
      ¬((requestGpio k { s with hw := enablePorts s.vars.toSettings s.vars.portmask s.hw }).1 = 0 ∧
        (allocateNumbers k s.vars.major (mapLines s.vars).1.firstminor (mapLines s.vars).1.numdevs).1 = 0) := by
  obtain ⟨base, mapped, hvars, hgains⟩ := w83627dhg_requestGpio_gains k
    { s with hw := enablePorts s.vars.toSettings s.vars.portmask s.hw } hfresh.mapped
  unfold setupFound at hfails ⊢
  exact w83627dhg_request_released k stack s.vars s.log hfresh.pdevin hfresh.pdevout _ _ base mapped hvars hgains hfails

/-- INTERNAL: the cleanup does not depend on the registers of the chip. -/
theorem w83627dhg_cleanup_log (s : System) (hw : Machine) :
    (gpioCleanup { s with hw := hw }).log = (gpioCleanup s).log := rfl

/-- INTERNAL: the cleanup after an initialization with the chip that is found.
SOURCE: w83627dhg-generic.patch:892-1005 -/
theorem w83627dhg_setupFound_cleanup (k : Kernel) (stack : ℕ → Resource) (s : System) (hfresh : W83627dhgFresh s.vars)
    (hok : (setupFound k stack s).1 = 0) : Gains s.log (gpioCleanup (setupFound k stack s).2).log 0 := by
  obtain ⟨base, mapped, hvars, hgains⟩ := w83627dhg_requestGpio_gains k
    { s with hw := enablePorts s.vars.toSettings s.vars.portmask s.hw } hfresh.mapped
  unfold setupFound at hok ⊢
  rw [w83627dhg_cleanup_log]
  exact w83627dhg_request_cleanup k stack s.vars s.log hfresh.pdevin hfresh.pdevout _ _ base mapped hvars hgains hok

/-- The kernel grants the device numbers: a port is enabled, the chip is found, the I/O region is not refused
and the numbers are not.
SOURCE: w83627dhg-generic.patch:872-956 -/
def W83627dhgGranted (k : Kernel) (s : System) : Prop :=
  s.vars.portmask &&& 0x7E#8 ≠ 0 ∧ ∃ cirAddr, (find s.hw).1 = some cirAddr ∧
    let v := { s.vars with portmask := s.vars.portmask &&& 0x7E#8, cirAddr := cirAddr }
    (requestGpio k { s with vars := v, hw := enablePorts v.toSettings v.portmask (find s.hw).2 }).1 = 0 ∧
      (allocateNumbers k v.major (mapLines v).1.firstminor (mapLines v).1.numdevs).1 = 0

/-- INTERNAL: a failed initialization of the W83627DHG.
SOURCE: w83627dhg-generic.patch:865-991 -/
theorem w83627dhg_released_iff (k : Kernel) (stack : ℕ → Resource) (s : System) (hfresh : W83627dhgFresh s.vars)
    (hfails : (gpioInit k stack s).1 ≠ 0) :
    Released ((gpioInit k stack s).2.log.drop s.log.length) ↔ ¬W83627dhgGranted k s := by
  have hnone : Released (s.log.drop s.log.length) := (Gains.refl s.log).released_iff.mpr fun _ => rfl
  unfold gpioInit at hfails ⊢
  dsimp only at hfails ⊢
  by_cases hmask : s.vars.portmask &&& 0x7E#8 = 0
  · rw [if_pos hmask]
    exact iff_of_true hnone fun h => h.1 hmask
  · rw [if_neg hmask] at hfails ⊢
    rcases hfind : find s.hw with ⟨_ | cirAddr, hw⟩
    · apply iff_of_true hnone
      rintro ⟨-, cirAddr, hfound, -⟩
      rw [hfind] at hfound
      cases hfound
    · rw [hfind] at hfails
      have hreleased := w83627dhg_setupFound_released k stack
        { s with vars := { s.vars with portmask := s.vars.portmask &&& 0x7E#8, cirAddr := cirAddr }, hw := hw }
        ⟨hfresh.mapped, hfresh.pdevin, hfresh.pdevout⟩ hfails
      refine hreleased.trans (not_congr ?_)
      constructor
      · intro h
        exact ⟨hmask, cirAddr, by rw [hfind], by rw [hfind]; exact h⟩
      · rintro ⟨-, cirAddr', hfound, h⟩
        rw [hfind] at hfound h
        obtain rfl := Option.some.inj hfound
        exact h

/-- INTERNAL: **loading and unloading** the module releases everything.
SOURCE: w83627dhg-generic.patch:865-1005 -/
theorem w83627dhg_cleanup_released (k : Kernel) (stack : ℕ → Resource) (s : System) (hfresh : W83627dhgFresh s.vars)
    (hok : (gpioInit k stack s).1 = 0) :
    Released ((gpioCleanup (gpioInit k stack s).2).log.drop s.log.length) := by
  unfold gpioInit at hok ⊢
  dsimp only at hok ⊢
  by_cases hmask : s.vars.portmask &&& 0x7E#8 = 0
  · rw [if_pos hmask] at hok
    cases hok
  · rw [if_neg hmask] at hok ⊢
    rcases hfind : find s.hw with ⟨_ | cirAddr, hw⟩
    · rw [hfind] at hok
      cases hok
    · rw [hfind] at hok
      have hgains := w83627dhg_setupFound_cleanup k stack
        { s with vars := { s.vars with portmask := s.vars.portmask &&& 0x7E#8, cirAddr := cirAddr }, hw := hw }
        ⟨hfresh.mapped, hfresh.pdevin, hfresh.pdevout⟩ hok
      exact hgains.released_iff.mpr fun _ => rfl

end W83627dhg

/-! ## The VT1211 -/

section Vt1211

open TTLinux.Model.Vt1211

variable {M : Type}

/-- INTERNAL: the registration of the lines.
SOURCE: vt1211-generic.patch:744-783 -/
theorem vt1211_registerLines_eq (k : Kernel) (stack : ℕ → Resource) (count : DevCount) (rc : ℤ) (s : System M)
    (hin : s.vars.pdevin = .null) (hout : s.vars.pdevout = .null) (hwkup : s.vars.wkupMapped = false) :
    ∃ numbers devs,
      numbers = allocateNumbers k s.vars.major s.vars.firstminor s.vars.numdevs ∧
      devs = setupPlatformDevs k DRVNAME 0 GPIO_MAX stack s.vars.iomap count .null ∧
      ((registerLines k stack count rc s).1 = 0 ↔ rc = 0 ∧ numbers.1 = 0 ∧ devs.1 = 0) ∧
      (registerLines k stack count rc s).2.log = s.log ++ registration numbers devs
        (if s.vars.gpioMapped then [.releaseRegion s.vars.gpioBase VT1211_GPIO_SIZE] else [])
        (.cdevAdd numbers.2.1 s.vars.firstminor s.vars.numdevs) rc ∧
      ((registerLines k stack count rc s).1 = 0 → (registerLines k stack count rc s).2.vars =
        { s.vars with major := numbers.2.1, pdevout := devs.2.1, pdevin := devs.2.2.1 }) := by
  refine ⟨_, _, rfl, rfl, ?_⟩
  unfold registerLines registration
  generalize allocateNumbers k s.vars.major s.vars.firstminor s.vars.numdevs = numbers
  by_cases hrc : rc = 0
  · by_cases hgranted : numbers.1 = 0
    · generalize hsetup : setupPlatformDevs k DRVNAME 0 GPIO_MAX stack s.vars.iomap count .null = devs
      by_cases hdev : devs.1 = 0
      · simp [hrc, hgranted, hin, hsetup, hdev, List.append_assoc]
      · have := failure_ne_zero devs.1 hdev
        simp_all [List.append_assoc]
    · have := failure_ne_zero numbers.1 hgranted
      simp_all [List.append_assoc]
  · have := failure_ne_zero rc hrc
    simp_all [List.append_assoc]

/-- INTERNAL: the request for the I/O region, with nothing mapped before.
SOURCE: vt1211-generic.patch:688-704 -/
theorem vt1211_requestGpio_gains (io : PortIo M) (k : Kernel) (rc : ℤ) (s : System M)
    (hmapped : s.vars.gpioMapped = false) :
    ∃ base mapped, (requestGpio io k rc s).2.vars = { s.vars with gpioBase := base, gpioMapped := mapped } ∧
      Gains s.log (requestGpio io k rc s).2.log (regionGain mapped base VT1211_GPIO_SIZE) := by
  unfold requestGpio
  by_cases hmask : s.vars.portmask &&& 0x3D#8 = 0
  · rw [if_pos hmask]
    exact ⟨s.vars.gpioBase, false, hmapped ▸ rfl, (Gains.refl s.log).congr fun r => rfl⟩
  · rw [if_neg hmask]
    generalize (if s.vars.gpioBase = 0 then gpiobase io s.vars.cirAddr s.hw else (s.vars.gpioBase, s.hw)) = base
    have hcall := Gains.requestRegion s.log base.1 VT1211_GPIO_SIZE (k.requestRegion base.1 VT1211_GPIO_SIZE)
    dsimp only
    split_ifs with hgranted
    · exact ⟨base.1, true, rfl, hgranted ▸ hcall⟩
    · rw [Bool.not_eq_true] at hgranted
      exact ⟨base.1, false, hmapped ▸ rfl, hgranted ▸ hcall⟩

/-- INTERNAL: the initialization behind the request for the I/O region.
SOURCE: vt1211-generic.patch:725-783 -/
theorem vt1211_request_released (k : Kernel) (stack : ℕ → Resource) (v : Vars) (log : List KernelCall)
    (hin : v.pdevin = .null) (hout : v.pdevout = .null) (hwkup : v.wkupMapped = false) (rc : ℤ) (t : System M)
    (base : ℕ) (mapped : Bool) (hvars : t.vars = { v with gpioBase := base, gpioMapped := mapped })
    (hgains : Gains log t.log (regionGain mapped base VT1211_GPIO_SIZE))
    (hfails : (registerLines k stack (mapLines t.vars).2 rc { t with vars := (mapLines t.vars).1 }).1 ≠ 0) :
    Released ((registerLines k stack (mapLines t.vars).2 rc { t with vars := (mapLines t.vars).1 }).2.log.drop
        log.length) ↔
      ¬(rc = 0 ∧ (allocateNumbers k v.major (mapLines v).1.firstminor (mapLines v).1.numdevs).1 = 0) := by
  obtain ⟨vars, hw, calls⟩ := t
  dsimp only at hvars
  subst hvars
  obtain ⟨numbers, devs, rfl, rfl, hcode, hlog, -⟩ := vt1211_registerLines_eq k stack
    (mapLines { v with gpioBase := base, gpioMapped := mapped }).2 rc
    ⟨(mapLines { v with gpioBase := base, gpioMapped := mapped }).1, hw, calls⟩ hin hout hwkup
  have hregistered := hgains.registration_fails k v.major (mapLines v).1.firstminor (mapLines v).1.numdevs DRVNAME 0
    GPIO_MAX stack (mapLines v).1.iomap (mapLines v).2
    (.cdevAdd (allocateNumbers k v.major (mapLines v).1.firstminor (mapLines v).1.numdevs).2.1
      (mapLines v).1.firstminor (mapLines v).1.numdevs) rc fun h => hfails (hcode.mpr h)
  rw [hlog]
  exact hregistered.released_iff.trans (numbersGain_eq_zero_iff rc _ _ _ _)

/-- INTERNAL: the cleanup after the initialization.
SOURCE: vt1211-generic.patch:725-803 -/
theorem vt1211_request_cleanup (k : Kernel) (stack : ℕ → Resource) (v : Vars) (log : List KernelCall)
    (hin : v.pdevin = .null) (hout : v.pdevout = .null) (hwkup : v.wkupMapped = false) (rc : ℤ) (t : System M)
    (base : ℕ) (mapped : Bool) (hvars : t.vars = { v with gpioBase := base, gpioMapped := mapped })
    (hgains : Gains log t.log (regionGain mapped base VT1211_GPIO_SIZE))
    (hok : (registerLines k stack (mapLines t.vars).2 rc { t with vars := (mapLines t.vars).1 }).1 = 0) :
    Gains log (gpioCleanup (registerLines k stack (mapLines t.vars).2 rc
      { t with vars := (mapLines t.vars).1 }).2).log 0 := by
  obtain ⟨vars, hw, calls⟩ := t
  dsimp only at hvars
  subst hvars
  obtain ⟨numbers, devs, rfl, rfl, hcode, hlog, hafter⟩ := vt1211_registerLines_eq k stack
    (mapLines { v with gpioBase := base, gpioMapped := mapped }).2 rc
    ⟨(mapLines { v with gpioBase := base, gpioMapped := mapped }).1, hw, calls⟩ hin hout hwkup
  have hwkup' : (mapLines { v with gpioBase := base, gpioMapped := mapped }).1.wkupMapped = false := hwkup
  unfold gpioCleanup
  rw [hlog, hafter hok]
  dsimp only
  rw [hwkup', if_neg Bool.false_ne_true, List.append_nil]
  exact hgains.registration_cleanup k v.major (mapLines v).1.firstminor (mapLines v).1.numdevs DRVNAME 0 GPIO_MAX
    stack (mapLines v).1.iomap (mapLines v).2 _ rc (hcode.mp hok)

/-- The module variables before an initialization. -/
structure Vt1211Fresh (v : Vars) : Prop where
  mapped : v.gpioMapped = false
  wkup : v.wkupMapped = false
  pdevin : v.pdevin = .null
  pdevout : v.pdevout = .null

/-- The state in front of the request for the I/O region, with the return value so far.
SOURCE: vt1211-generic.patch:648-686 -/
def vt1211Prepared (io : PortIo M) (s : System M) : ℤ × System M :=
  let portmask := s.vars.portmask &&& 0x7F#8
  let outmask :=
    if s.vars.outmask 5 &&& 0xF4#8 ≠ 0 then Function.update s.vars.outmask 5 (s.vars.outmask 5 &&& 0x7#8)
    else s.vars.outmask
  let (rc, cirAddr, hw) := find io s.vars.cirAddr s.hw
  let hw := if portmask &&& 0x3E#8 ≠ 0 then disableRom io cirAddr hw else hw
  (rc, { s with
    vars := { s.vars with portmask := portmask, outmask := outmask, cirAddr := cirAddr }
    hw := enableGpio io cirAddr (selectLdnGpio io cirAddr hw) })

/-- The kernel grants the device numbers: a port is enabled and none for wakeup events, the chip is found, the
I/O region is not refused and the numbers are not.
SOURCE: vt1211-generic.patch:648-753 -/
def Vt1211Granted (io : PortIo M) (k : Kernel) (s : System M) : Prop :=
  (s.vars.portmask &&& 0x7F#8) &&& 0x42#8 = 0 ∧ s.vars.portmask &&& 0x7F#8 ≠ 0 ∧
    (requestGpio io k (vt1211Prepared io s).1 (vt1211Prepared io s).2).1 = 0 ∧
    (allocateNumbers k s.vars.major (mapLines (vt1211Prepared io s).2.vars).1.firstminor
      (mapLines (vt1211Prepared io s).2.vars).1.numdevs).1 = 0

/-- INTERNAL: without ports for wakeup events the initialization registers the lines after the I/O region.
SOURCE: vt1211-generic.patch:641-787 -/
theorem vt1211_init_eq (io : PortIo M) (k : Kernel) (stack : ℕ → Resource) (s : System M)
    (hwkup : (s.vars.portmask &&& 0x7F#8) &&& 0x42#8 = 0) (hmask : s.vars.portmask &&& 0x7F#8 ≠ 0)
    (request : ℤ × System M) (hrequest : request = requestGpio io k (vt1211Prepared io s).1 (vt1211Prepared io s).2)
    (hportmask : request.2.vars.portmask = s.vars.portmask &&& 0x7F#8) :
    ∃ hw, gpioInit io k stack s =
      ((registerLines k stack (mapLines request.2.vars).2 request.1
          { request.2 with vars := (mapLines request.2.vars).1 }).1,
        { (registerLines k stack (mapLines request.2.vars).2 request.1
          { request.2 with vars := (mapLines request.2.vars).1 }).2 with hw := hw }) := by
  have hskip : requestWkup io k request.2 = (true, request.2) := by
    apply if_pos
    rw [hportmask]
    exact hwkup
  refine ⟨exitConfig io (registerLines k stack (mapLines request.2.vars).2 request.1
    { request.2 with vars := (mapLines request.2.vars).1 }).2.vars.cirAddr (registerLines k stack
    (mapLines request.2.vars).2 request.1 { request.2 with vars := (mapLines request.2.vars).1 }).2.hw, ?_⟩
  unfold vt1211Prepared at hrequest
  dsimp only at hrequest
  unfold gpioInit
  dsimp only
  rw [if_neg (not_not.mpr hwkup), if_neg hmask]
  unfold setupChip
  dsimp only
  rw [← hrequest, hskip]

/-- INTERNAL: a failed initialization of the VT1211.
SOURCE: vt1211-generic.patch:641-787 -/
theorem vt1211_released_iff (io : PortIo M) (k : Kernel) (stack : ℕ → Resource) (s : System M)
    (hfresh : Vt1211Fresh s.vars) (hfails : (gpioInit io k stack s).1 ≠ 0) :
    Released ((gpioInit io k stack s).2.log.drop s.log.length) ↔ ¬Vt1211Granted io k s := by
  have hnone : Released (s.log.drop s.log.length) := (Gains.refl s.log).released_iff.mpr fun _ => rfl
  by_cases hwkup : (s.vars.portmask &&& 0x7F#8) &&& 0x42#8 = 0
  · by_cases hmask : s.vars.portmask &&& 0x7F#8 = 0
    · have hinit : gpioInit io k stack s =
          (-EINVAL, { s with vars := { s.vars with portmask := s.vars.portmask &&& 0x7F#8 } }) := by
        unfold gpioInit
        dsimp only
        rw [if_neg (not_not.mpr hwkup), if_pos hmask]
      rw [hinit]
      exact iff_of_true hnone fun h => h.2.1 hmask
    · obtain ⟨base, mapped, hvars, hgains⟩ := vt1211_requestGpio_gains io k (vt1211Prepared io s).1
        (vt1211Prepared io s).2 hfresh.mapped
      obtain ⟨hw, hinit⟩ := vt1211_init_eq io k stack s hwkup hmask _ rfl (by rw [hvars]; rfl)
      rw [hinit] at hfails ⊢
      refine (vt1211_request_released k stack (vt1211Prepared io s).2.vars s.log hfresh.pdevin hfresh.pdevout
        hfresh.wkup _ _ base mapped hvars hgains hfails).trans (not_congr ?_)
      exact ⟨fun h => ⟨hwkup, hmask, h⟩, fun h => h.2.2⟩
  · have hinit : gpioInit io k stack s =
        (-ENOSYS, { s with vars := { s.vars with portmask := s.vars.portmask &&& 0x7F#8 } }) := by
      unfold gpioInit
      dsimp only
      rw [if_pos hwkup]
    rw [hinit]
    exact iff_of_true hnone fun h => hwkup h.1

/-- INTERNAL: **loading and unloading** the module releases everything.
SOURCE: vt1211-generic.patch:641-803 -/
theorem vt1211_cleanup_released (io : PortIo M) (k : Kernel) (stack : ℕ → Resource) (s : System M)
    (hfresh : Vt1211Fresh s.vars) (hok : (gpioInit io k stack s).1 = 0) :
    Released ((gpioCleanup (gpioInit io k stack s).2).log.drop s.log.length) := by
  by_cases hwkup : (s.vars.portmask &&& 0x7F#8) &&& 0x42#8 = 0
  · by_cases hmask : s.vars.portmask &&& 0x7F#8 = 0
    · unfold gpioInit at hok
      dsimp only at hok
      rw [if_neg (not_not.mpr hwkup), if_pos hmask] at hok
      cases hok
    · obtain ⟨base, mapped, hvars, hgains⟩ := vt1211_requestGpio_gains io k (vt1211Prepared io s).1
        (vt1211Prepared io s).2 hfresh.mapped
      obtain ⟨hw, hinit⟩ := vt1211_init_eq io k stack s hwkup hmask _ rfl (by rw [hvars]; rfl)
      rw [hinit] at hok ⊢
      have hgains' := vt1211_request_cleanup k stack (vt1211Prepared io s).2.vars s.log hfresh.pdevin hfresh.pdevout
        hfresh.wkup _ _ base mapped hvars hgains hok
      exact hgains'.released_iff.mpr fun _ => rfl
  · unfold gpioInit at hok
    dsimp only at hok
    rw [if_pos hwkup] at hok
    cases hok

end Vt1211

/-! ## Failed initializations -/

/-- **A failed initialization** releases what it acquired, and each resource once, if and only if the kernel did
not grant it the device numbers. If it did, the numbers stay registered: only the cleanup of the module
unregisters them. With port 7 alone the W83627DHG driver writes behind its arrays, over the variables that the
cleanup branch reads.
SOURCE: w83627dhg-generic.patch:865-1005; vt1211-generic.patch:641-803 -/
theorem failed_init_released_iff {M : Type} (io : TTLinux.Model.Vt1211.PortIo M) (k : Kernel)
    (stack : ℕ → Resource) (s : TTLinux.Model.W83627dhg.System) (t : TTLinux.Model.Vt1211.System M)
    (hs : W83627dhgFresh s.vars) (ht : Vt1211Fresh t.vars) :
    (¬((TTLinux.Model.W83627dhgArrays.gpioInit k stack s).Emits TTLinux.Model.W83627dhgArrays.Access.InBounds ∧
        (TTLinux.Model.W83627dhg.gpioInit k stack s).1 = 0) →
      ((TTLinux.Model.W83627dhgArrays.gpioInit k stack s).Emits TTLinux.Model.W83627dhgArrays.Access.InBounds ∧
        Released ((TTLinux.Model.W83627dhg.gpioInit k stack s).2.log.drop s.log.length) ↔
        ¬W83627dhgGranted k s ∧ ¬GpioArrays.Port7Alone s)) ∧
    ((TTLinux.Model.Vt1211.gpioInit io k stack t).1 ≠ 0 →
      (Released ((TTLinux.Model.Vt1211.gpioInit io k stack t).2.log.drop t.log.length) ↔
        ¬Vt1211Granted io k t)) := by
  refine ⟨fun hfails => ?_, vt1211_released_iff io k stack t ht⟩
  rw [GpioArrays.gpioInit_inBounds_iff] at hfails ⊢
  by_cases hseven : GpioArrays.Port7Alone s
  · exact iff_of_false (fun h => h.1 hseven) fun h => h.2 hseven
  · have hreleased := w83627dhg_released_iff k stack s hs fun hrc => hfails ⟨hseven, hrc⟩
    exact ⟨fun h => ⟨hreleased.mp h.2, hseven⟩, fun h => ⟨hseven, hreleased.mpr h.1⟩⟩

/-- A kernel that refuses device numbers, and one that refuses the second platform device. -/
def noNumbers : Kernel := { GpioConfigMode.grantAll with allocChrdevRegion := fun _ _ => (-16, 254) }

def noInputs : Kernel :=
  { GpioConfigMode.grantAll with platformDeviceRegisterSimple := fun name _ => name.getLast? ≠ some 'n' }

/-- INTERNAL: a driver that was just loaded holds nothing. -/
theorem w83627dhgLoaded_fresh (portmask : Byte) : W83627dhgFresh (GpioMinors.w83627dhgLoaded portmask).vars :=
  ⟨rfl, rfl, rfl⟩

/-- INTERNAL: and neither does the other one. -/
theorem vt1211Loaded_fresh (portmask : Byte) : Vt1211Fresh (GpioMinors.vt1211Loaded portmask).vars :=
  ⟨rfl, rfl, rfl, rfl⟩

/-- The kernel has no device numbers. -/
theorem failed_init_released_iff_noNumbers :
    Released (TTLinux.Model.W83627dhg.gpioInit noNumbers (fun _ => ⟨[], 0, 0, 0⟩)
      (GpioMinors.w83627dhgLoaded 0x06#8)).2.log ∧
    Released (TTLinux.Model.Vt1211.gpioInit ⟨Machine.outb, Machine.inb⟩ noNumbers (fun _ => ⟨[], 0, 0, 0⟩)
      (GpioMinors.vt1211Loaded 0x3C#8)).2.log := by
  have hboth := failed_init_released_iff ⟨Machine.outb, Machine.inb⟩ noNumbers (fun _ => ⟨[], 0, 0, 0⟩)
    (GpioMinors.w83627dhgLoaded 0x06#8) (GpioMinors.vt1211Loaded 0x3C#8) (w83627dhgLoaded_fresh _)
    (vt1211Loaded_fresh _)
  have hfails : (TTLinux.Model.W83627dhg.gpioInit noNumbers (fun _ => ⟨[], 0, 0, 0⟩)
      (GpioMinors.w83627dhgLoaded 0x06#8)).1 ≠ 0 := by
    decide +kernel
  refine ⟨((hboth.1 fun h => hfails h.2).mpr ⟨?_, ?_⟩).2, (hboth.2 (by decide +kernel)).mpr ?_⟩
  · rintro ⟨-, cirAddr, -, -, hgranted⟩
    cases hgranted
  · rintro ⟨hmask, -⟩
    exact absurd hmask (by decide)
  · rintro ⟨-, -, -, hgranted⟩
    cases hgranted

/-- **The device numbers stay registered** when the second platform device is refused.
SOURCE: w83627dhg-generic.patch:960-981; vt1211-generic.patch:755-776 -/
theorem failed_init_keeps_numbers :
    ((TTLinux.Model.W83627dhg.gpioInit noInputs (fun _ => ⟨[], 0, 0, 0⟩) (GpioMinors.w83627dhgLoaded 0x06#8)).1 = -1 ∧
      ¬Released (TTLinux.Model.W83627dhg.gpioInit noInputs (fun _ => ⟨[], 0, 0, 0⟩)
        (GpioMinors.w83627dhgLoaded 0x06#8)).2.log) ∧
    ((TTLinux.Model.Vt1211.gpioInit ⟨Machine.outb, Machine.inb⟩ noInputs (fun _ => ⟨[], 0, 0, 0⟩)
        (GpioMinors.vt1211Loaded 0x3C#8)).1 = -1 ∧
      ¬Released (TTLinux.Model.Vt1211.gpioInit ⟨Machine.outb, Machine.inb⟩ noInputs (fun _ => ⟨[], 0, 0, 0⟩)
        (GpioMinors.vt1211Loaded 0x3C#8)).2.log) := by
  refine ⟨⟨by decide +kernel, ?_⟩, by decide +kernel, ?_⟩
  · apply not_released_of_held (.numbers 254 8 16)
    decide +kernel
  · apply not_released_of_held (.numbers 254 16 27)
    decide +kernel

end TTLinux.Analysis.GpioResources
