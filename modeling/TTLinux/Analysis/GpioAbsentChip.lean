import TTLinux.Analysis.GpioMinors
import TTLinux.Analysis.GpioVt1211

/-!
# The initialization of the VT1211 without a chip

Where neither address answers with the device id, `vt1211_find` reports an error and leaves `cir_addr` as it was
given. `vt1211_gpio_init` keeps the error but goes on: it writes to the ports at `cir_addr`, and without a base
address of its own it requests the region at the address that these ports read.
-/

set_option autoImplicit false

namespace TTLinux.Analysis.GpioAbsentChip

open TTLinux.Lib.SuperIo (Byte)
open TTLinux.Model.GpioKernel (Kernel KernelCall Resource ENODEV dropDevice)
open TTLinux.Model.Vt1211
open TTLinux.Analysis.GpioVt1211 (requestGpio_vars registerLines_kept port_of_accepted sanitized)

variable {M : Type}

/-- Neither address answers with the device id, the second one after the first was tested.
SOURCE: vt1211-generic.patch:340-352 -/
def Absent (io : PortIo M) (hw : M) : Prop :=
  (test io 0x2E#8 hw).1 = false ∧ (test io 0x4E#8 (test io 0x2E#8 hw).2).1 = false

/-- The board after both tests. -/
def tested (io : PortIo M) (hw : M) : M := (test io 0x4E#8 (test io 0x2E#8 hw).2).2

/-- INTERNAL: without the chip nothing is found, and only the tests were made. -/
theorem find_absent (io : PortIo M) (cirAddr : Byte) (hw : M) (h : Absent io hw) :
    find io cirAddr hw = (-ENODEV, cirAddr, tested io hw) := by
  unfold find
  dsimp only
  rw [h.1, if_neg Bool.false_ne_true, h.2, if_neg Bool.false_ne_true]
  rfl

/-- The system when the region is requested.
SOURCE: vt1211-generic.patch:645-685 -/
def activated (io : PortIo M) (s : System M) : System M :=
  let portmask := s.vars.portmask &&& 0x7F#8
  let hw := if portmask &&& 0x3E#8 ≠ 0 then disableRom io s.vars.cirAddr (tested io s.hw) else tested io s.hw
  { s with
    vars := { s.vars with portmask := portmask, outmask := sanitized s.vars.outmask }
    hw := enableGpio io s.vars.cirAddr (selectLdnGpio io s.vars.cirAddr hw) }

/-- The base address of the region that is requested: the one that is given, or what the ports read.
SOURCE: vt1211-generic.patch:689-692 -/
def base (io : PortIo M) (s : System M) : ℕ :=
  if s.vars.gpioBase = 0 then (gpiobase io s.vars.cirAddr s.hw).1 else s.vars.gpioBase

/-- The regions that are requested by these calls. -/
def requested (calls : List KernelCall) : List ℕ :=
  calls.filterMap fun call => match call with
    | .requestRegion base _ _ => some base
    | _ => none

/-- INTERNAL: the regions that two parts of the calls ask for. -/
theorem requested_append (calls more : List KernelCall) :
    requested (calls ++ more) = requested calls ++ requested more :=
  List.filterMap_append

/-- INTERNAL: the request, after an error.
SOURCE: vt1211-generic.patch:688-704 -/
theorem requestGpio_error (io : PortIo M) (k : Kernel) (s : System M) (hmask : s.vars.portmask &&& 0x3D#8 ≠ 0) :
    (requestGpio io k (-ENODEV) s).1 = -ENODEV ∧
      ∃ granted, (requestGpio io k (-ENODEV) s).2.log = s.log ++ [.requestRegion (base io s) VT1211_GPIO_SIZE granted] := by
  unfold requestGpio base
  rw [if_neg hmask]
  dsimp only
  split_ifs <;> exact ⟨rfl, _, rfl⟩

/-- INTERNAL: the registration, after an error.
SOURCE: vt1211-generic.patch:744-783 -/
theorem registerLines_error (k : Kernel) (stack : ℕ → Resource) (count : TTLinux.Model.GpioKernel.DevCount)
    (s : System M) :
    (registerLines k stack count (-ENODEV) s).1 = -ENODEV ∧
      ∃ calls, (registerLines k stack count (-ENODEV) s).2.log = s.log ++ calls ∧ requested calls = [] := by
  have hne : -ENODEV ≠ 0 := by decide
  have hdrop : ∀ pdev, requested (dropDevice pdev) = [] := by
    intro pdev
    unfold dropDevice
    split_ifs <;> rfl
  have hrelease : ∀ (mapped : Bool) base size,
      requested (if mapped = true then [.releaseRegion base size] else []) = [] := by
    intro mapped base size
    split_ifs <;> rfl
  unfold registerLines
  simp only [if_neg hne, if_pos hne]
  refine ⟨if_neg (not_not.mpr rfl), _, by simp only [List.append_assoc]; rfl, ?_⟩
  simp only [requested_append, hdrop, hrelease, List.append_nil]

/-- INTERNAL: no region for the wakeup events is requested.
SOURCE: vt1211-generic.patch:706 -/
theorem requestWkup_skipped {N : Type} (ports : PortIo N) (k : Kernel) (s : System N)
    (hwkup : s.vars.portmask &&& 0x42#8 = 0) : requestWkup ports k s = (true, s) :=
  if_pos hwkup

/-- INTERNAL: **an initialization without a chip** goes through all its steps.
SOURCE: vt1211-generic.patch:641-787 -/
theorem gpioInit_absent (io : PortIo M) (k : Kernel) (stack : ℕ → Resource) (s : System M) (habsent : Absent io s.hw)
    (hwkup : (s.vars.portmask &&& 0x7F#8) &&& 0x42#8 = 0) (hmask : s.vars.portmask &&& 0x7F#8 ≠ 0) :
    (gpioInit io k stack s).1 = -ENODEV ∧
      (gpioInit io k stack s).2.hw =
        exitConfig io s.vars.cirAddr (requestGpio io k (-ENODEV) (activated io s)).2.hw ∧
      ∃ calls, (gpioInit io k stack s).2.log = s.log ++ calls ∧ requested calls = [base io (activated io s)] := by
  obtain ⟨hrc, granted, hlog⟩ := requestGpio_error io k (activated io s)
    (port_of_accepted _ s.vars.portmask rfl hwkup hmask)
  obtain ⟨hcir, hportmask⟩ := requestGpio_vars io k (-ENODEV) (activated io s)
  unfold gpioInit
  dsimp only
  rw [if_neg (not_not.mpr hwkup), if_neg hmask]
  unfold setupChip
  dsimp only
  rw [find_absent io s.vars.cirAddr s.hw habsent]
  have hactivated : activated io s = {
      vars := { s.vars with portmask := s.vars.portmask &&& 0x7F#8, outmask := sanitized s.vars.outmask }
      hw := enableGpio io s.vars.cirAddr (selectLdnGpio io s.vars.cirAddr
        (if s.vars.portmask &&& 0x7F#8 &&& 0x3E#8 ≠ 0 then disableRom io s.vars.cirAddr (tested io s.hw)
          else tested io s.hw))
      log := s.log } := rfl
  unfold sanitized at hactivated
  dsimp only
  rw [← hactivated]
  generalize requestGpio io k (-ENODEV) (activated io s) = request at hrc hlog hcir hportmask ⊢
  obtain ⟨rc, t⟩ := request
  dsimp only at hrc hlog hcir hportmask ⊢
  have hgo : requestWkup io k t = (true, t) := by
    apply requestWkup_skipped
    rw [hportmask]
    exact hwkup
  obtain ⟨hfails, calls, hcalls, hnone⟩ := registerLines_error k stack (mapLines t.vars).2
    { t with vars := (mapLines t.vars).1 }
  obtain ⟨hhw, hkept⟩ := registerLines_kept k stack (mapLines t.vars).2 (-ENODEV) { t with vars := (mapLines t.vars).1 }
  rw [hgo, hrc]
  dsimp only
  refine ⟨hfails, ?_, ?_⟩
  · rw [hhw, hkept]
    exact congrArg (exitConfig io · t.hw) hcir
  · refine ⟨.requestRegion (base io (activated io s)) VT1211_GPIO_SIZE granted :: calls, ?_, ?_⟩
    · rw [hcalls]
      dsimp only
      rw [hlog, List.append_assoc]
      rfl
    · exact congrArg (base io (activated io s) :: ·) hnone

/-! ## The ports that are written -/

/-- The ports of a board, with a record of those that are written. -/
def recorded (io : PortIo M) : PortIo (M × List ℕ) where
  outb m v port := (io.outb m.1 v port, m.2 ++ [port])
  inb m port := io.inb m.1 port

/-- The system without the record. -/
def forget (s : System (M × List ℕ)) : System M := ⟨s.vars, s.hw.1, s.log⟩

section

variable (io : PortIo M)

/-- INTERNAL: recording the writes changes nothing of `find`. -/
theorem find_recorded (cirAddr : Byte) (m : M × List ℕ) :
    find io cirAddr m.1 =
      ((find (recorded io) cirAddr m).1, (find (recorded io) cirAddr m).2.1, (find (recorded io) cirAddr m).2.2.1) := by
  have htest : ∀ (cir : Byte) (m : M × List ℕ),
      test io cir m.1 = ((test (recorded io) cir m).1, (test (recorded io) cir m).2.1) := fun _ _ => rfl
  unfold find
  rw [htest]
  dsimp only
  rw [htest]
  split_ifs <;> rfl

/-- INTERNAL: nor of `setup_gpio`. -/
theorem setupGpio_recorded (v : Vars) (m : M × List ℕ) :
    setupGpio io v m.1 = (setupGpio (recorded io) v m).1 := by
  apply List.foldl_hom Prod.fst
  intro m pn
  by_cases henabled : pn ≠ 1 ∧ pn ≠ 6 ∧ v.portmask.getLsbD pn = true
  · rw [if_pos henabled, if_pos henabled]
    rfl
  · rw [if_neg henabled, if_neg henabled]

/-- INTERNAL: nor of the request for the region. -/
theorem requestGpio_recorded (k : Kernel) (rc : ℤ) (s : System (M × List ℕ)) :
    requestGpio io k rc (forget s) =
      ((requestGpio (recorded io) k rc s).1, forget (requestGpio (recorded io) k rc s).2) := by
  unfold requestGpio forget
  dsimp only
  by_cases hmask : s.vars.portmask &&& 0x3D#8 = 0
  · rw [if_pos hmask, if_pos hmask]
  · rw [if_neg hmask, if_neg hmask]
    have hread : (if s.vars.gpioBase = 0 then gpiobase io s.vars.cirAddr s.hw.1 else (s.vars.gpioBase, s.hw.1)) =
        ((if s.vars.gpioBase = 0 then gpiobase (recorded io) s.vars.cirAddr s.hw else (s.vars.gpioBase, s.hw)).1,
          (if s.vars.gpioBase = 0 then gpiobase (recorded io) s.vars.cirAddr s.hw
            else (s.vars.gpioBase, s.hw)).2.1) := by
      split_ifs <;> rfl
    rw [hread]
    generalize (if s.vars.gpioBase = 0 then gpiobase (recorded io) s.vars.cirAddr s.hw
      else (s.vars.gpioBase, s.hw)) = region
    dsimp only
    split_ifs
    · rw [setupGpio_recorded]
    · rfl

/-- INTERNAL: nor of the registration of the lines. -/
theorem registerLines_recorded (k : Kernel) (stack : ℕ → Resource) (count : TTLinux.Model.GpioKernel.DevCount)
    (rc : ℤ) (s : System (M × List ℕ)) :
    registerLines k stack count rc (forget s) =
      ((registerLines k stack count rc s).1, forget (registerLines k stack count rc s).2) := by
  unfold registerLines forget
  by_cases hrc : rc = 0
  · simp only [if_pos hrc]
    by_cases hnum : (TTLinux.Model.GpioKernel.allocateNumbers k s.vars.major s.vars.firstminor s.vars.numdevs).1 = 0
    · simp only [if_pos hnum]
      split_ifs <;> rfl
    · simp only [if_neg hnum]
      split_ifs <;> rfl
  · simp only [if_neg hrc]
    split_ifs <;> rfl

/-- INTERNAL: nor of the set-up of the chip. -/
theorem setupChip_recorded (k : Kernel) (stack : ℕ → Resource) (s : System (M × List ℕ))
    (hwkup : s.vars.portmask &&& 0x42#8 = 0) :
    setupChip io k stack (forget s) =
      ((setupChip (recorded io) k stack s).1, forget (setupChip (recorded io) k stack s).2) := by
  have hfind : find io (forget s).vars.cirAddr (forget s).hw = _ := find_recorded io s.vars.cirAddr s.hw
  unfold setupChip
  rw [hfind]
  generalize find (recorded io) s.vars.cirAddr s.hw = found
  obtain ⟨rc, cir, m⟩ := found
  dsimp only
  -- both systems when the region is requested
  have hrom : (if (forget s).vars.portmask &&& 0x3E#8 ≠ 0 then disableRom io cir m.1 else m.1) =
      (if s.vars.portmask &&& 0x3E#8 ≠ 0 then disableRom (recorded io) cir m else m).1 :=
    (apply_ite Prod.fst _ (disableRom (recorded io) cir m) m).symm
  rw [hrom]
  generalize (if s.vars.portmask &&& 0x3E#8 ≠ 0 then disableRom (recorded io) cir m else m) = hw
  have hrequest := requestGpio_recorded io k rc { s with
    vars := { s.vars with cirAddr := cir }
    hw := enableGpio (recorded io) cir (selectLdnGpio (recorded io) cir hw) }
  have hportmask := (requestGpio_vars (recorded io) k rc { s with
    vars := { s.vars with cirAddr := cir }
    hw := enableGpio (recorded io) cir (selectLdnGpio (recorded io) cir hw) }).2
  have hforget : forget { s with
      vars := { s.vars with cirAddr := cir }
      hw := enableGpio (recorded io) cir (selectLdnGpio (recorded io) cir hw) } =
    { forget s with
      vars := { (forget s).vars with cirAddr := cir }
      hw := enableGpio io cir (selectLdnGpio io cir hw.1) } := rfl
  rw [hforget] at hrequest
  rw [hrequest]
  generalize requestGpio (recorded io) k rc _ = request at hportmask ⊢
  have hskip : request.2.vars.portmask &&& 0x42#8 = 0 := by
    rw [hportmask]
    exact hwkup
  rw [requestWkup_skipped _ _ _ hskip, requestWkup_skipped io k (forget request.2) hskip]
  have hregister := registerLines_recorded k stack (mapLines request.2.vars).2 request.1
    { request.2 with vars := (mapLines request.2.vars).1 }
  dsimp only
  unfold forget at hregister ⊢
  rw [hregister]
  rfl

/-- INTERNAL: **the record changes nothing.** -/
theorem gpioInit_recorded (k : Kernel) (stack : ℕ → Resource) (s : System (M × List ℕ)) :
    gpioInit io k stack (forget s) =
      ((gpioInit (recorded io) k stack s).1, forget (gpioInit (recorded io) k stack s).2) := by
  unfold gpioInit
  by_cases hwkup : (s.vars.portmask &&& 0x7F#8) &&& 0x42#8 = 0
  · by_cases hmask : s.vars.portmask &&& 0x7F#8 = 0
    · simp only [forget, ne_eq, hmask]
      rfl
    · have hchip := fun outmask => setupChip_recorded io k stack
        { s with vars := { s.vars with portmask := s.vars.portmask &&& 0x7F#8, outmask := outmask } } hwkup
      simp only [forget, ne_eq, hwkup, hmask] at hchip ⊢
      exact hchip _
  · simp only [forget, ne_eq, hwkup]
    rfl

end

/-- From one record to a longer one only these ports are written. -/
def Writes (ports : List ℕ) (m m' : M × List ℕ) : Prop := ∃ written, m'.2 = m.2 ++ written ∧ ∀ p ∈ written, p ∈ ports

section

variable {ports : List ℕ} {m m₁ m₂ : M × List ℕ} (io : PortIo M)

/-- INTERNAL: nothing was written. -/
theorem Writes.refl (ports : List ℕ) (m : M × List ℕ) : Writes ports m m :=
  ⟨[], (List.append_nil _).symm, fun _ hp => absurd hp List.not_mem_nil⟩

/-- INTERNAL: what was written in two parts. -/
theorem Writes.trans (h : Writes ports m m₁) (h' : Writes ports m₁ m₂) : Writes ports m m₂ := by
  obtain ⟨written, hm₁, hports⟩ := h
  obtain ⟨more, hm₂, hmore⟩ := h'
  refine ⟨written ++ more, by rw [hm₂, hm₁, List.append_assoc], ?_⟩
  intro p hp
  exact (List.mem_append.mp hp).elim (hports p) (hmore p)

/-- INTERNAL: one more write to one of the ports. -/
theorem Writes.outb (h : Writes ports m m₁) (v : Byte) (port : ℕ) (hport : port ∈ ports) :
    Writes ports m ((recorded io).outb m₁ v port) :=
  h.trans ⟨[port], rfl, fun _ hp => List.mem_singleton.mp hp ▸ hport⟩

/-- The index and the data port at this address. -/
def pair (cirAddr : Byte) : List ℕ := [cirAddr.toNat, CDR_ADDR cirAddr]

/-- INTERNAL: a write to the index port. -/
theorem Writes.index {cirAddr : Byte} (h : Writes (pair cirAddr) m m₁) (v : Byte) :
    Writes (pair cirAddr) m ((recorded io).outb m₁ v cirAddr.toNat) :=
  h.outb io v _ List.mem_cons_self

/-- INTERNAL: a write to the data port. -/
theorem Writes.data {cirAddr : Byte} (h : Writes (pair cirAddr) m m₁) (v : Byte) :
    Writes (pair cirAddr) m ((recorded io).outb m₁ v (CDR_ADDR cirAddr)) :=
  h.outb io v _ (List.mem_cons_of_mem _ List.mem_cons_self)

/-- INTERNAL: a register is written through the two ports. -/
theorem Writes.writeRegister {cirAddr : Byte} (h : Writes (pair cirAddr) m m₁) (reg value : Byte) :
    Writes (pair cirAddr) m (writeRegister (recorded io) reg value cirAddr m₁) :=
  (h.index io reg).data io value

/-- INTERNAL: and read through them. -/
theorem Writes.readRegister {cirAddr : Byte} (h : Writes (pair cirAddr) m m₁) (reg : Byte) :
    Writes (pair cirAddr) m (readRegister (recorded io) reg cirAddr m₁).2 :=
  h.index io reg

/-- INTERNAL: a test for the chip. -/
theorem Writes.test {cirAddr : Byte} (h : Writes (pair cirAddr) m m₁) :
    Writes (pair cirAddr) m (test (recorded io) cirAddr m₁).2 :=
  ((h.index io _).index io _).readRegister io _

/-- INTERNAL: `disable_rom` writes to the two ports. -/
theorem Writes.disableRom {cirAddr : Byte} (h : Writes (pair cirAddr) m m₁) :
    Writes (pair cirAddr) m (disableRom (recorded io) cirAddr m₁) :=
  (((((h.readRegister io _).index io _).index io _).writeRegister io _ _).readRegister io _).writeRegister io _ _

/-- INTERNAL: so does `enable_gpio`. -/
theorem Writes.enableGpio {cirAddr : Byte} (h : Writes (pair cirAddr) m m₁) :
    Writes (pair cirAddr) m (enableGpio (recorded io) cirAddr m₁) :=
  (h.readRegister io _).writeRegister io _ _

/-- INTERNAL: so does the reading of the base address. -/
theorem Writes.gpiobase {cirAddr : Byte} (h : Writes (pair cirAddr) m m₁) :
    Writes (pair cirAddr) m (gpiobase (recorded io) cirAddr m₁).2 :=
  (h.readRegister io _).readRegister io _

/-- INTERNAL: and so does `setup_gpio`. -/
theorem Writes.setupGpio (v : Vars) (h : Writes (pair v.cirAddr) m m₁) :
    Writes (pair v.cirAddr) m (setupGpio (recorded io) v m₁) := by
  unfold TTLinux.Model.Vt1211.setupGpio
  generalize [6, 5, 4, 3, 2, 1, 0] = pns
  induction pns generalizing m₁ with
  | nil => exact h
  | cons pn pns ih =>
    rw [List.foldl_cons]
    apply ih
    by_cases henabled : pn ≠ 1 ∧ pn ≠ 6 ∧ v.portmask.getLsbD pn = true
    · rw [if_pos henabled]
      exact (((h.readRegister io _).writeRegister io _ _).writeRegister io _ _).writeRegister io _ _
    · rw [if_neg henabled]
      exact h

/-- INTERNAL: the request for the region writes only to the ports at `cir_addr`.
SOURCE: vt1211-generic.patch:688-704 -/
theorem Writes.requestGpio (k : Kernel) (rc : ℤ) (s : System (M × List ℕ)) (h : Writes (pair s.vars.cirAddr) m s.hw) :
    Writes (pair s.vars.cirAddr) m (requestGpio (recorded io) k rc s).2.hw := by
  unfold TTLinux.Model.Vt1211.requestGpio
  by_cases hmask : s.vars.portmask &&& 0x3D#8 = 0
  · rw [if_pos hmask]
    exact h
  · rw [if_neg hmask]
    have hread : Writes (pair s.vars.cirAddr) m (if s.vars.gpioBase = 0 then
        TTLinux.Model.Vt1211.gpiobase (recorded io) s.vars.cirAddr s.hw else (s.vars.gpioBase, s.hw)).2 := by
      split_ifs
      · exact h.gpiobase io
      · exact h
    generalize (if s.vars.gpioBase = 0 then
      TTLinux.Model.Vt1211.gpiobase (recorded io) s.vars.cirAddr s.hw else (s.vars.gpioBase, s.hw)) = region at hread ⊢
    dsimp only
    split_ifs
    · exact hread.setupGpio io { s.vars with gpioBase := region.1, gpioMapped := true }
    · exact hread

end

/-- The ports that are written by an initialization.
SOURCE: vt1211-generic.patch:641-787 -/
def written (io : PortIo M) (k : Kernel) (stack : ℕ → Resource) (s : System M) : List ℕ :=
  (gpioInit (recorded io) k stack ⟨s.vars, (s.hw, []), s.log⟩).2.hw.2

/-- The configuration ports that are probed.
SOURCE: vt1211-generic.patch:328-349 -/
def probedPorts : List ℕ := [0x2E, 0x2F, 0x4E, 0x4F]

/-- INTERNAL: **the ports that are written without a chip:** the probed ones, and both ports at `cir_addr`.
SOURCE: vt1211-generic.patch:641-787 -/
theorem written_absent (io : PortIo M) (k : Kernel) (stack : ℕ → Resource) (s : System M) (habsent : Absent io s.hw)
    (hwkup : (s.vars.portmask &&& 0x7F#8) &&& 0x42#8 = 0) (hmask : s.vars.portmask &&& 0x7F#8 ≠ 0) :
    (∀ p ∈ written io k stack s, p ∈ probedPorts ∨ p ∈ pair s.vars.cirAddr) ∧
      ∀ p ∈ pair s.vars.cirAddr, p ∈ written io k stack s := by
  obtain ⟨-, hhw, -⟩ := gpioInit_absent (recorded io) k stack ⟨s.vars, (s.hw, []), s.log⟩ habsent hwkup hmask
  have htested : ∀ p ∈ (tested (recorded io) (s.hw, [])).2, p ∈ probedPorts := by
    obtain ⟨first, hfirst, hports⟩ := (Writes.refl (pair 0x2E#8) (s.hw, [])).test io
    obtain ⟨second, hsecond, hmore⟩ := (Writes.refl (pair 0x4E#8) (test (recorded io) 0x2E#8 (s.hw, [])).2).test io
    have hpairs : ∀ p ∈ pair 0x2E#8 ++ pair 0x4E#8, p ∈ probedPorts := by decide
    intro p hp
    unfold tested at hp
    rw [hsecond, hfirst, List.nil_append] at hp
    apply hpairs
    rw [List.mem_append]
    exact (List.mem_append.mp hp).imp (hports p) (hmore p)
  -- the ROM is disabled, the GPIO device is selected and the rest follows
  obtain ⟨rom, hrom, hromports⟩ : ∃ rom, (if (s.vars.portmask &&& 0x7F#8) &&& 0x3E#8 ≠ 0 then
      disableRom (recorded io) s.vars.cirAddr (tested (recorded io) (s.hw, []))
      else tested (recorded io) (s.hw, [])).2 = (tested (recorded io) (s.hw, [])).2 ++ rom ∧
      ∀ p ∈ rom, p ∈ pair s.vars.cirAddr := by
    split_ifs
    · exact (Writes.refl _ _).disableRom io
    · exact Writes.refl _ _
  have hselect : ∀ m : M × List ℕ,
      (selectLdnGpio (recorded io) s.vars.cirAddr m).2 = m.2 ++ pair s.vars.cirAddr := by
    intro m
    exact List.append_assoc _ _ _
  have hrest : Writes (pair s.vars.cirAddr)
      (selectLdnGpio (recorded io) s.vars.cirAddr (if (s.vars.portmask &&& 0x7F#8) &&& 0x3E#8 ≠ 0 then
        disableRom (recorded io) s.vars.cirAddr (tested (recorded io) (s.hw, []))
        else tested (recorded io) (s.hw, [])))
      (gpioInit (recorded io) k stack ⟨s.vars, (s.hw, []), s.log⟩).2.hw := by
    rw [hhw]
    apply Writes.index
    exact Writes.requestGpio io k _ (activated (recorded io) ⟨s.vars, (s.hw, []), s.log⟩)
      ((Writes.refl _ _).enableGpio io)
  obtain ⟨rest, hall, hrestports⟩ := hrest
  unfold written
  rw [hall, hselect, hrom]
  constructor
  · intro p hp
    simp only [List.mem_append] at hp
    rcases hp with ((hp | hp) | hp) | hp
    · exact Or.inl (htested p hp)
    · exact Or.inr (hromports p hp)
    · exact Or.inr hp
    · exact Or.inr (hrestports p hp)
  · intro p hp
    simp only [List.mem_append, hp, or_true, true_or]

/-! ## What a missing chip leads to -/

/-- The regions that are requested by an initialization. -/
def requestedRegions (io : PortIo M) (k : Kernel) (stack : ℕ → Resource) (s : System M) : List ℕ :=
  requested ((gpioInit io k stack s).2.log.drop s.log.length)

/-- Only the probed ports are written, the regions that are requested are the same whatever the hardware reads, and
an error is returned. -/
structure Untouched (io : PortIo M) (k : Kernel) (stack : ℕ → Resource) (s : System M) : Prop where
  ports : ∀ p ∈ written io k stack s, p ∈ probedPorts
  regions : ∀ (M' : Type) (io' : PortIo M') (hw : M'), Absent io' hw →
    requestedRegions io' k stack ⟨s.vars, hw, s.log⟩ = requestedRegions io k stack s
  fails : (gpioInit io k stack s).1 ≠ 0

/-- INTERNAL: without the chip one region is asked for, at an address that was read from no chip. -/
theorem requestedRegions_absent (io : PortIo M) (k : Kernel) (stack : ℕ → Resource) (s : System M)
    (habsent : Absent io s.hw) (hwkup : (s.vars.portmask &&& 0x7F#8) &&& 0x42#8 = 0)
    (hmask : s.vars.portmask &&& 0x7F#8 ≠ 0) : requestedRegions io k stack s = [base io (activated io s)] := by
  obtain ⟨-, -, calls, hlog, hrequested⟩ := gpioInit_absent io k stack s habsent hwkup hmask
  rw [requestedRegions, hlog, List.drop_left]
  exact hrequested

/-- Hardware on which every port reads the same. -/
def floating (value : Byte) : PortIo Unit where
  outb _ _ _ := ()
  inb _ _ := value

/-- INTERNAL: both ports of a pair are among the probed ones. -/
theorem pair_probed_iff (cirAddr : Byte) :
    (∀ p ∈ pair cirAddr, p ∈ probedPorts) ↔ cirAddr = 0x2E#8 ∨ cirAddr = 0x4E#8 := by
  revert cirAddr
  decide +kernel

/-- **An initialization without a chip** leaves the other ports and the regions alone if and only if the module
parameters name one of the probed addresses and the base address.
SOURCE: vt1211-generic.patch:340-360, 641-786 -/
theorem untouched_iff (io : PortIo M) (k : Kernel) (stack : ℕ → Resource) (s : System M) (habsent : Absent io s.hw)
    (hwkup : (s.vars.portmask &&& 0x7F#8) &&& 0x42#8 = 0) (hmask : s.vars.portmask &&& 0x7F#8 ≠ 0) :
    Untouched io k stack s ↔
      (s.vars.cirAddr = 0x2E#8 ∨ s.vars.cirAddr = 0x4E#8) ∧ s.vars.gpioBase ≠ 0 := by
  obtain ⟨hwritten, hpair⟩ := written_absent io k stack s habsent hwkup hmask
  constructor
  · intro h
    refine ⟨(pair_probed_iff _).mp fun p hp => h.ports p (hpair p hp), ?_⟩
    intro hgiven
    -- hardware that reads 00h and hardware that reads FFh lead to different regions
    have hbase : ∀ value : Byte, value ≠ 0x3C#8 →
        requestedRegions io k stack s = [value.toNat <<< 8 + value.toNat] := by
      intro value hvalue
      have hfloating : Absent (floating value) () := ⟨decide_eq_false hvalue, decide_eq_false hvalue⟩
      have hread : base (floating value) (activated (floating value) ⟨s.vars, (), s.log⟩) =
          value.toNat <<< 8 + value.toNat := if_pos hgiven
      rw [← h.regions Unit (floating value) () hfloating, ← hread]
      exact requestedRegions_absent _ k stack _ hfloating hwkup hmask
    have hboth := (hbase 0x00#8 (by decide)).symm.trans (hbase 0xFF#8 (by decide))
    exact absurd hboth (by decide)
  · rintro ⟨hcir, hgiven⟩
    constructor
    · intro p hp
      exact (hwritten p hp).elim id ((pair_probed_iff _).mpr hcir p)
    · intro M' io' hw habsent'
      have hbase : ∀ (N : Type) (ports : PortIo N) (board : N),
          base ports (activated ports ⟨s.vars, board, s.log⟩) = s.vars.gpioBase := fun _ _ _ => if_neg hgiven
      rw [requestedRegions_absent io' k stack ⟨s.vars, hw, s.log⟩ habsent' hwkup hmask, hbase,
        requestedRegions_absent io k stack s habsent hwkup hmask]
      exact congrArg (fun b => [b]) (hbase M io s.hw).symm
    · rw [(gpioInit_absent io k stack s habsent hwkup hmask).1]
      decide

/-- The module with ports 5 and 6 and these parameters, where all ports read FFh. -/
def loadedWith (cirAddr : Byte) (gpioBase : ℕ) : System Unit where
  vars := { (GpioMinors.vt1211Loaded 0x30#8).vars with cirAddr := cirAddr, gpioBase := gpioBase }
  hw := ()
  log := []

/-- INTERNAL: a bus that reads as ones has no chip. -/
theorem floating_absent : Absent (floating 0xFF#8) () := ⟨by decide, by decide⟩

/-- The first address and a base address are given. -/
theorem untouched_iff_given :
    Untouched (floating 0xFF#8) GpioConfigMode.grantAll (fun _ => ⟨[], 0, 0, 0⟩) (loadedWith 0x2E#8 0x800) :=
  (untouched_iff (floating 0xFF#8) GpioConfigMode.grantAll (fun _ => ⟨[], 0, 0, 0⟩) (loadedWith 0x2E#8 0x800)
    floating_absent (by decide) (by decide)).mpr (by decide)

/-- **Without parameters** the missing chip is set up at the ports 0 and 1, and the region at the address that they
read is requested.
SOURCE: vt1211-generic.patch:671-695 -/
theorem default_parameters_write_elsewhere :
    (gpioInit (floating 0xFF#8) GpioConfigMode.grantAll (fun _ => ⟨[], 0, 0, 0⟩) (loadedWith 0x00#8 0)).1 = -ENODEV ∧
      0 ∈ written (floating 0xFF#8) GpioConfigMode.grantAll (fun _ => ⟨[], 0, 0, 0⟩) (loadedWith 0x00#8 0) ∧
      1 ∈ written (floating 0xFF#8) GpioConfigMode.grantAll (fun _ => ⟨[], 0, 0, 0⟩) (loadedWith 0x00#8 0) ∧
      requestedRegions (floating 0xFF#8) GpioConfigMode.grantAll (fun _ => ⟨[], 0, 0, 0⟩) (loadedWith 0x00#8 0) =
        [0xFFFF] ∧
      ¬Untouched (floating 0xFF#8) GpioConfigMode.grantAll (fun _ => ⟨[], 0, 0, 0⟩) (loadedWith 0x00#8 0) := by
  have hzero : 0 ∈ written (floating 0xFF#8) GpioConfigMode.grantAll (fun _ => ⟨[], 0, 0, 0⟩) (loadedWith 0x00#8 0) := by
    decide +kernel
  refine ⟨by decide +kernel, hzero, by decide +kernel, by decide +kernel, ?_⟩
  intro huntouched
  exact absurd (huntouched.ports 0 hzero) (by decide)

end TTLinux.Analysis.GpioAbsentChip
