import Mathlib.Data.Finset.Card
import Mathlib.Data.List.Range
import Mathlib.Data.Nat.Bitwise
import Mathlib.Order.Interval.Finset.Nat
import TTLinux.Analysis.GpioConfigMode
import TTLinux.Model.Vt1211

/-!
# The device numbers of the lines

Both drivers register one range of device numbers: it starts at the first port that is enabled and has as
many numbers as the enabled ports have lines. A line is found at eight times its port and its place in
the port, so the range holds the lines of all enabled ports only if there is no gap between them.
-/

set_option autoImplicit false

namespace TTLinux.Analysis.GpioMinors

open TTLinux.Lib.SuperIo (Byte Machine)
open TTLinux.Model.GpioKernel

/-! ## Numbers without a gap -/

/-- INTERNAL: numbers from `f` on lie in a range of their count if and only if they have no gap. -/
theorem lt_add_length_iff (ports : List ℕ) (f : ℕ) (hnodup : ports.Nodup) (hmin : ∀ i ∈ ports, f ≤ i) :
    (∀ i ∈ ports, i < f + ports.length) ↔ ∀ i ∈ ports, ∀ n, f ≤ n → n ≤ i → n ∈ ports := by
  have hcard : ports.toFinset.card = ports.length := List.toFinset_card_of_nodup hnodup
  constructor
  · intro h i hi n hfn hni
    have hsub : ports.toFinset ⊆ Finset.Ico f (f + ports.length) := by
      intro j hj
      have hmem := List.mem_toFinset.mp hj
      exact Finset.mem_Ico.mpr ⟨hmin j hmem, h j hmem⟩
    have heq : ports.toFinset = Finset.Ico f (f + ports.length) := by
      apply Finset.eq_of_subset_of_card_le hsub
      rw [Nat.card_Ico, hcard]
      omega
    have hlast := h i hi
    rw [← List.mem_toFinset, heq, Finset.mem_Ico]
    omega
  · intro h i hi
    have hsub : Finset.Icc f i ⊆ ports.toFinset := by
      intro n hn
      obtain ⟨hfn, hni⟩ := Finset.mem_Icc.mp hn
      exact List.mem_toFinset.mpr (h i hi n hfn hni)
    have hle := Finset.card_le_card hsub
    rw [Nat.card_Icc, hcard] at hle
    have hfi := hmin i hi
    omega

/-- The enabled ports follow one another. -/
def Consecutive (portmask : Byte) : Prop :=
  ∀ i j, portmask.getLsbD i = true → portmask.getLsbD j = true → ∀ n, i ≤ n → n ≤ j → portmask.getLsbD n = true

instance (portmask : Byte) : Decidable (Consecutive portmask) :=
  decidable_of_iff (∀ i < 8, ∀ j < 8, ∀ n < 8, portmask.getLsbD i = true ∧ portmask.getLsbD j = true ∧
      i ≤ n ∧ n ≤ j → portmask.getLsbD n = true)
    ⟨fun h i j hi hj n hin hnj => h i (BitVec.lt_of_getLsbD hi) j (BitVec.lt_of_getLsbD hj) n
      (hnj.trans_lt (BitVec.lt_of_getLsbD hj)) ⟨hi, hj, hin, hnj⟩,
    fun h i _ j _ n _ ⟨hi, hj, hin, hnj⟩ => h i j hi hj n hin hnj⟩

/-- INTERNAL: a mask that is not zero enables a port. -/
theorem exists_enabled (portmask : Byte) (h : portmask ≠ 0) : ∃ i, portmask.getLsbD i = true := by
  by_contra hnone
  apply h
  apply BitVec.eq_of_getLsbD_eq
  intro i _
  have hzero : (0 : Byte).getLsbD i = false := BitVec.getLsbD_zero
  rw [hzero]
  exact Bool.eq_false_iff.mpr fun hi => hnone ⟨i, hi⟩

/-- INTERNAL: where the search for the first port ends.
SOURCE: w83627dhg-generic.patch:924-927; vt1211-generic.patch:727-730 -/
theorem firstPort_spec (portmask : Byte) (limit fuel pn : ℕ) (hfuel : limit ≤ pn + fuel) (hpn : pn ≤ limit) :
    pn ≤ firstPort portmask limit fuel pn ∧ firstPort portmask limit fuel pn ≤ limit ∧
      (∀ i, pn ≤ i → i < firstPort portmask limit fuel pn → portmask.getLsbD i = false) ∧
      (firstPort portmask limit fuel pn < limit →
        portmask.getLsbD (firstPort portmask limit fuel pn) = true) := by
  induction fuel generalizing pn with
  | zero =>
    rw [firstPort]
    exact ⟨le_refl pn, hpn, fun i _ _ => by omega, fun h => by omega⟩
  | succ fuel ih =>
    rw [firstPort]
    split_ifs with hclear
    · obtain ⟨hle, hlimit, hskip, hfound⟩ := ih (pn + 1) (by omega) (by omega)
      refine ⟨by omega, hlimit, ?_, hfound⟩
      intro i hi hlt
      by_cases heq : i = pn
      · rw [heq]
        exact hclear.2
      · exact hskip i (by omega) hlt
    · refine ⟨le_refl pn, hpn, fun i _ _ => by omega, ?_⟩
      intro hlt
      simpa [hlt] using hclear

/-- The ports whose lines are mapped, when the search ended at `f` and goes on over `n` ports. -/
def mapped (portmask : Byte) (f n : ℕ) : List ℕ := f :: (List.range' (f + 1) n).filter fun i => portmask.getLsbD i

/-- INTERNAL: the ports whose lines are mapped. -/
theorem mem_mapped (portmask : Byte) (f n i : ℕ) :
    i ∈ mapped portmask f n ↔ i = f ∨ (f < i ∧ i ≤ f + n ∧ portmask.getLsbD i = true) := by
  rw [mapped, List.mem_cons, List.mem_filter, List.mem_range'_1]
  constructor
  · rintro (rfl | ⟨⟨hlo, hhi⟩, hbit⟩)
    · exact Or.inl rfl
    · exact Or.inr ⟨by omega, by omega, hbit⟩
  · rintro (rfl | ⟨hlo, hhi, hbit⟩)
    · exact Or.inl rfl
    · exact Or.inr ⟨⟨by omega, by omega⟩, hbit⟩

/-- INTERNAL: the mapped ports are the enabled ones, if the search ended at the first of them and goes on up to the
last. -/
theorem mem_mapped_iff (portmask : Byte) (f n : ℕ) (hbit : portmask.getLsbD f = true)
    (hbounds : ∀ i, portmask.getLsbD i = true → f ≤ i ∧ i ≤ f + n) (i : ℕ) :
    i ∈ mapped portmask f n ↔ portmask.getLsbD i = true := by
  rw [mem_mapped]
  constructor
  · rintro (rfl | ⟨-, -, hi⟩)
    · exact hbit
    · exact hi
  · intro hi
    obtain ⟨hlo, hhi⟩ := hbounds i hi
    by_cases heq : i = f
    · exact Or.inl heq
    · exact Or.inr ⟨by omega, hhi, hi⟩

/-- INTERNAL: none of them is mapped twice. -/
theorem mapped_nodup (portmask : Byte) (f n : ℕ) : (mapped portmask f n).Nodup := by
  apply List.nodup_cons.mpr
  constructor
  · intro hmem
    have := (List.mem_range'_1.mp (List.mem_filter.mp hmem).1).1
    omega
  · exact (List.nodup_range').filter _

/-- INTERNAL: how many they are at most. -/
theorem mapped_length_le (portmask : Byte) (f n : ℕ) : (mapped portmask f n).length ≤ n + 1 := by
  have hle := List.length_filter_le (fun i => portmask.getLsbD i) (List.range' (f + 1) n)
  rw [List.length_range'] at hle
  rw [mapped, List.length_cons]
  omega

/-! ## How many lines are mapped -/

/-- The lines that were counted. -/
def total (count : DevCount) : ℕ := count.input + count.output

/-- INTERNAL: each line of a port is counted once, whatever its direction.
SOURCE: w83627dhg-generic.patch:777-801; vt1211-generic.patch:562-586 -/
theorem devmapLoop_total (names : List Name) (outmask : Byte) (base bits i : ℕ) (iomap : ℕ → GpioIomap)
    (count : DevCount) : total (devmapLoop names outmask base bits i iomap count).2 = total count + bits := by
  induction bits generalizing i iomap count with
  | zero => rfl
  | succ bit ih =>
    rw [devmapLoop]
    dsimp only
    split_ifs
    · split
      · rw [ih]
        simp only [total]
        omega
      · rw [ih]
        simp only [total]
        omega
    · rw [ih]
      simp only [total]
      omega

/-- INTERNAL: the lines of all mapped ports, for a map that counts so many lines of each port. -/
theorem foldl_devmap_total (portmask : Byte) (lines : ℕ → ℕ)
    (dm : ℕ → (ℕ → GpioIomap) → DevCount → (ℕ → GpioIomap) × DevCount)
    (hdm : ∀ pn iomap count, total (dm pn iomap count).2 = total count + lines pn) (ports : List ℕ)
    (m : (ℕ → GpioIomap) × DevCount) :
    total (ports.foldl (fun (iomap, count) pn =>
        if portmask.getLsbD pn then dm pn iomap count else (iomap, count)) m).2 =
      total m.2 + ((ports.filter fun i => portmask.getLsbD i).map lines).sum := by
  induction ports generalizing m with
  | nil => simp
  | cons pn ports ih =>
    rw [List.foldl_cons, ih]
    obtain ⟨iomap, count⟩ := m
    dsimp only
    by_cases hbit : portmask.getLsbD pn = true
    · rw [if_pos hbit, List.filter_cons_of_pos hbit, List.map_cons, List.sum_cons, hdm, Nat.add_assoc]
    · rw [if_neg hbit, List.filter_cons_of_neg hbit]

/-- The port of a device number is enabled. -/
theorem and_shiftLeft_ne_zero (portmask : Byte) (p : ℕ) :
    portmask.toNat &&& (1 <<< p) ≠ 0 ↔ portmask.getLsbD p = true := by
  rw [Nat.one_shiftLeft, Nat.and_two_pow, BitVec.getLsbD]
  cases portmask.toNat.testBit p <;> simp

/-! ## What is registered -/

/-- From one list of calls to a longer one no range of device numbers is asked for but this one. -/
def Allocates (log log' : List KernelCall) (first num : ℕ) : Prop :=
  ∃ calls, log' = log ++ calls ∧
    ∀ major a b rc, .chrdevRegion major a b rc ∈ calls → a = first ∧ b = num

/-- INTERNAL: no call was made. -/
theorem Allocates.refl (log : List KernelCall) (first num : ℕ) : Allocates log log first num :=
  ⟨[], (List.append_nil log).symm, fun _ _ _ _ hmem => by cases hmem⟩

/-- INTERNAL: the calls of two parts. -/
theorem Allocates.trans {log log' log'' : List KernelCall} {first num : ℕ} (h : Allocates log log' first num)
    (h' : Allocates log' log'' first num) : Allocates log log'' first num := by
  obtain ⟨calls, rfl, hcalls⟩ := h
  obtain ⟨more, rfl, hmore⟩ := h'
  refine ⟨calls ++ more, List.append_assoc _ _ _, ?_⟩
  intro major a b rc hmem
  rcases List.mem_append.mp hmem with hfirst | hsecond
  · exact hcalls major a b rc hfirst
  · exact hmore major a b rc hsecond

/-- INTERNAL: further calls, of which none asks for device numbers. -/
theorem Allocates.append {log log' : List KernelCall} {first num : ℕ} (h : Allocates log log' first num)
    {calls : List KernelCall} (hnone : ∀ major a b rc, .chrdevRegion major a b rc ∉ calls) :
    Allocates log (log' ++ calls) first num := by
  apply h.trans
  exact ⟨calls, rfl, fun major a b rc hmem => absurd hmem (hnone major a b rc)⟩

/-- INTERNAL: the calls that this list of calls adds ask for this range. -/
theorem Allocates.range {log log' : List KernelCall} {first num : ℕ} (h : Allocates log log' first num)
    {major : ℤ} {a b : ℕ} {rc : ℤ} (hmem : .chrdevRegion major a b rc ∈ log'.drop log.length) :
    a = first ∧ b = num := by
  obtain ⟨calls, rfl, hcalls⟩ := h
  rw [List.drop_left] at hmem
  exact hcalls major a b rc hmem

/-- INTERNAL: the call for device numbers.
SOURCE: w83627dhg-generic.patch:947-956; vt1211-generic.patch:744-753 -/
theorem allocateNumbers_allocates (k : Kernel) (major : ℤ) (first num : ℕ) (log : List KernelCall) :
    Allocates log (log ++ [(allocateNumbers k major first num).2.2]) first num := by
  refine ⟨_, rfl, ?_⟩
  intro major' a b rc hmem
  rw [List.mem_singleton, allocateNumbers] at hmem
  split_ifs at hmem
  · simp only [KernelCall.chrdevRegion.injEq] at hmem
    exact ⟨hmem.2.1, hmem.2.2.1⟩
  · simp only [KernelCall.chrdevRegion.injEq] at hmem
    exact ⟨hmem.2.1, hmem.2.2.1⟩

/-- INTERNAL: `setup_platform_devs` allocates no numbers. -/
theorem setupPlatformDevs_calls (k : Kernel) (drvname : Name) (lo lines : ℕ) (stack : ℕ → Resource)
    (iomap : ℕ → GpioIomap) (count : DevCount) (pdevin : Pdev) (major : ℤ) (a b : ℕ) (rc : ℤ) :
    .chrdevRegion major a b rc ∉ (setupPlatformDevs k drvname lo lines stack iomap count pdevin).2.2.2 := by
  simp only [setupPlatformDevs]
  split_ifs <;> simp

/-- INTERNAL: what is released after an error are no device numbers.
SOURCE: w83627dhg-generic.patch:966-976; vt1211-generic.patch:758-771 -/
theorem Allocates.released {log log' : List KernelCall} {first num : ℕ} (h : Allocates log log' first num)
    (mapped : Bool) (base size : ℕ) :
    Allocates log (log' ++ if mapped then [.releaseRegion base size] else []) first num := by
  apply h.append
  intro major a b rc
  split_ifs <;> simp

/-- INTERNAL: neither does the removal of a device. -/
theorem Allocates.dropped {log log' : List KernelCall} {first num : ℕ} (h : Allocates log log' first num)
    (pdev : Pdev) : Allocates log (log' ++ dropDevice pdev) first num := by
  apply h.append
  intro major a b rc
  rw [dropDevice]
  split_ifs <;> simp

/-! ## The W83627DHG -/

section W83627dhg

open TTLinux.Model.W83627dhg (mapLines gpioOpen)

/-- INTERNAL: the range of the W83627DHG: eight numbers for each mapped port.
SOURCE: w83627dhg-generic.patch:921-941 -/
theorem w83627dhg_numdevs (v : TTLinux.Model.W83627dhg.Vars) :
    (mapLines v).1.firstminor = 8 * firstPort v.portmask 6 6 1 ∧
      (mapLines v).1.numdevs =
        8 * (mapped v.portmask (firstPort v.portmask 6 6 1) (5 - firstPort v.portmask 6 6 1)).length := by
  refine ⟨Nat.mul_comm _ _, ?_⟩
  have hdevmap : ∀ pn iomap count,
      total (TTLinux.Model.W83627dhg.devmap v.outmask pn iomap count).2 = total count + 8 :=
    fun pn iomap count => devmapLoop_total _ _ _ 8 0 iomap count
  have htotal := foldl_devmap_total v.portmask (fun _ => 8) (TTLinux.Model.W83627dhg.devmap v.outmask) hdevmap
    (List.range' (firstPort v.portmask 6 6 1 + 1) (5 - firstPort v.portmask 6 6 1))
    (TTLinux.Model.W83627dhg.devmap v.outmask (firstPort v.portmask 6 6 1) v.iomap ⟨0, 0⟩)
  rw [hdevmap, List.map_const', List.sum_replicate_nat] at htotal
  have hnum : (mapLines v).1.numdevs = total (List.foldl (fun (iomap, count) pn =>
      if v.portmask.getLsbD pn then TTLinux.Model.W83627dhg.devmap v.outmask pn iomap count else (iomap, count))
      (TTLinux.Model.W83627dhg.devmap v.outmask (firstPort v.portmask 6 6 1) v.iomap ⟨0, 0⟩)
      (List.range' (firstPort v.portmask 6 6 1 + 1) (5 - firstPort v.portmask 6 6 1))).2 := rfl
  rw [hnum, htotal, mapped, List.length_cons]
  simp only [total]
  omega

/-- INTERNAL: the lines that can be opened are those of the enabled ports.
SOURCE: w83627dhg-generic.patch:734-753 -/
theorem w83627dhg_open_iff (portmask : Byte) (minor : ℕ) :
    gpioOpen portmask 0 minor = 0 ↔ portmask.getLsbD (minor / 8) = true := by
  have hport : TTLinux.Model.W83627dhg.PORT minor = minor / 8 := by
    rw [TTLinux.Model.W83627dhg.PORT, Nat.shiftRight_eq_div_pow]
  have hexists : ¬¬(1 < TTLinux.Model.W83627dhg.PORTNO minor ∨ TTLinux.Model.W83627dhg.PORTNO minor < 7) := by omega
  rw [gpioOpen, if_neg hexists, hport, ← and_shiftLeft_ne_zero]
  split_ifs with hbit
  · exact iff_of_true rfl hbit
  · exact iff_of_false (by decide) hbit

/-- INTERNAL: what the search for the first port finds.
SOURCE: w83627dhg-generic.patch:867-882, 924-927 -/
theorem w83627dhg_first (portmask : Byte) (hmask : portmask &&& 0x7E#8 ≠ 0) :
    1 ≤ firstPort (portmask &&& 0x7E#8) 6 6 1 ∧ firstPort (portmask &&& 0x7E#8) 6 6 1 ≤ 6 ∧
      (portmask &&& 0x7E#8).getLsbD (firstPort (portmask &&& 0x7E#8) 6 6 1) = true ∧
      ∀ i, (portmask &&& 0x7E#8).getLsbD i = true → firstPort (portmask &&& 0x7E#8) 6 6 1 ≤ i ∧ i ≤ 6 := by
  have hports : ∀ i, (portmask &&& 0x7E#8).getLsbD i = true → 1 ≤ i ∧ i ≤ 6 := by
    intro i hi
    rw [BitVec.getLsbD_and, Bool.and_eq_true] at hi
    have hlt : i < 8 := BitVec.lt_of_getLsbD hi.2
    have hbits : ∀ j < 8, (0x7E#8).getLsbD j = true → 1 ≤ j ∧ j ≤ 6 := by decide
    exact hbits i hlt hi.2
  obtain ⟨hlo, hhi, hskip, hfound⟩ := firstPort_spec (portmask &&& 0x7E#8) 6 6 1 (by decide) (by decide)
  generalize portmask &&& 0x7E#8 = mask at hmask hports hlo hhi hskip hfound ⊢
  have hleast : ∀ i, mask.getLsbD i = true → firstPort mask 6 6 1 ≤ i ∧ i ≤ 6 := by
    intro i hi
    refine ⟨?_, (hports i hi).2⟩
    by_contra hlt
    rw [hskip i (hports i hi).1 (by omega)] at hi
    cases hi
  refine ⟨hlo, hhi, ?_, hleast⟩
  by_cases hlast : firstPort mask 6 6 1 < 6
  · exact hfound hlast
  · -- no port below index 6 is enabled, so it is this one
    obtain ⟨i, hi⟩ := exists_enabled mask hmask
    have heq : i = firstPort mask 6 6 1 := by
      have := hleast i hi
      omega
    exact heq ▸ hi

/-- INTERNAL: **the range of the W83627DHG.** It holds the lines of all enabled ports if and only if these
follow one another and index 6 is not among several: its lines are not counted then.
SOURCE: w83627dhg-generic.patch:921-941 -/
theorem w83627dhg_range_iff (portmask : Byte) (hmask : portmask &&& 0x7E#8 ≠ 0) :
    (∀ i, (portmask &&& 0x7E#8).getLsbD i = true →
      i < firstPort (portmask &&& 0x7E#8) 6 6 1 +
        (mapped (portmask &&& 0x7E#8) (firstPort (portmask &&& 0x7E#8) 6 6 1)
          (5 - firstPort (portmask &&& 0x7E#8) 6 6 1)).length) ↔
      Consecutive (portmask &&& 0x7E#8) ∧
        ((portmask &&& 0x7E#8).getLsbD 6 = true → ∀ i < 6, (portmask &&& 0x7E#8).getLsbD i = false) := by
  obtain ⟨hlo, hhi, hbit, hleast⟩ := w83627dhg_first portmask hmask
  generalize portmask &&& 0x7E#8 = mask at hmask hlo hhi hbit hleast ⊢
  generalize firstPort mask 6 6 1 = f at hlo hhi hbit hleast ⊢
  have hmem := mem_mapped mask f (5 - f)
  have hmin : ∀ i ∈ mapped mask f (5 - f), f ≤ i := by
    intro i hi
    rcases (hmem i).mp hi with rfl | ⟨hlt, -, -⟩
    · exact le_refl i
    · omega
  have hgap := lt_add_length_iff (mapped mask f (5 - f)) f (mapped_nodup mask f (5 - f)) hmin
  have hlen := mapped_length_le mask f (5 - f)
  -- without index 6 behind another port, the enabled ports are the mapped ones
  have hall : (mask.getLsbD 6 = true → f = 6) → ∀ i, mask.getLsbD i = true ↔ i ∈ mapped mask f (5 - f) := by
    intro hsix i
    apply (mem_mapped_iff mask f (5 - f) hbit _ i).symm
    intro j hj
    have hbounds := hleast j hj
    have hseven : j = 6 → f = 6 := fun h6 => hsix (h6 ▸ hj)
    omega
  constructor
  · intro h
    have hsix : mask.getLsbD 6 = true → f = 6 := by
      intro h6
      have := h 6 h6
      omega
    refine ⟨?_, ?_⟩
    · intro i j hi hj n hin hnj
      have hfits := hgap.mp fun x hx => h x ((hall hsix x).mpr hx)
      have hfn := (hleast i hi).1.trans hin
      exact (hall hsix n).mpr (hfits j ((hall hsix j).mp hj) n hfn hnj)
    · intro h6 i hlt
      refine Bool.eq_false_iff.mpr fun hi => ?_
      have := (hleast i hi).1
      have := hsix h6
      omega
  · rintro ⟨hcons, halone⟩
    have hsix : mask.getLsbD 6 = true → f = 6 := by
      intro h6
      by_contra hne
      rw [halone h6 f (by omega)] at hbit
      cases hbit
    intro i hi
    refine hgap.mpr ?_ i ((hall hsix i).mp hi)
    intro j hj n hfn hnj
    exact (hall hsix n).mp (hcons f j hbit ((hall hsix j).mpr hj) n hfn hnj)

/-- INTERNAL: **all lines of the W83627DHG that can be opened** are in the range that is registered. -/
theorem w83627dhg_covers_iff (v : TTLinux.Model.W83627dhg.Vars) (portmask : Byte)
    (hv : v.portmask = portmask &&& 0x7E#8) (hmask : portmask &&& 0x7E#8 ≠ 0) :
    (∀ minor, gpioOpen v.portmask 0 minor = 0 → (mapLines v).1.firstminor ≤ minor ∧
      minor < (mapLines v).1.firstminor + (mapLines v).1.numdevs) ↔
      Consecutive (portmask &&& 0x7E#8) ∧
        ((portmask &&& 0x7E#8).getLsbD 6 = true → ∀ i < 6, (portmask &&& 0x7E#8).getLsbD i = false) := by
  obtain ⟨-, -, -, hleast⟩ := w83627dhg_first portmask hmask
  obtain ⟨hfirst, hnum⟩ := w83627dhg_numdevs v
  rw [← w83627dhg_range_iff portmask hmask, hfirst, hnum, hv]
  constructor
  · intro h i hi
    have hline := (h (8 * i) ((w83627dhg_open_iff _ _).mpr (by rwa [Nat.mul_div_cancel_left i (by decide)]))).2
    omega
  · intro h minor hopen
    have hbit := (w83627dhg_open_iff _ _).mp hopen
    have hlt := h _ hbit
    have hle := (hleast _ hbit).1
    omega

/-- INTERNAL: the registration asks for no other range.
SOURCE: w83627dhg-generic.patch:947-988 -/
theorem w83627dhg_registerLines (k : Kernel) (stack : ℕ → Resource) (count : DevCount) (rc : ℤ)
    (s : TTLinux.Model.W83627dhg.System) :
    Allocates s.log (TTLinux.Model.W83627dhg.registerLines k stack count rc s).2.log s.vars.firstminor
        s.vars.numdevs ∧
      (TTLinux.Model.W83627dhg.registerLines k stack count rc s).2.vars.portmask = s.vars.portmask := by
  have halloc := allocateNumbers_allocates k s.vars.major s.vars.firstminor s.vars.numdevs s.log
  have hdevs := setupPlatformDevs_calls k TTLinux.Model.W83627dhg.DRVNAME 8 TTLinux.Model.W83627dhg.GPIO_MAX stack
    s.vars.iomap count s.vars.pdevin
  unfold TTLinux.Model.W83627dhg.registerLines
  generalize allocateNumbers k s.vars.major s.vars.firstminor s.vars.numdevs = numbers at halloc ⊢
  generalize hsetup : setupPlatformDevs k TTLinux.Model.W83627dhg.DRVNAME 8 TTLinux.Model.W83627dhg.GPIO_MAX stack
    s.vars.iomap count s.vars.pdevin = devs at hdevs
  by_cases hrc : rc = 0
  · simp only [if_pos hrc]
    by_cases hnum : numbers.1 = 0
    · have hboth := halloc.append hdevs
      simp only [if_pos hnum, hsetup]
      by_cases hdev : devs.1 ≠ 0
      · simp only [if_pos hdev, and_true]
        exact ((hboth.released _ _ _).dropped _).dropped _
      · simp only [if_neg hdev, and_true]
        apply hboth.append
        simp
    · simp only [if_neg hnum, if_pos hnum, and_true]
      exact ((halloc.released _ _ _).dropped _).dropped _
  · simp only [if_neg hrc, if_pos hrc, and_true]
    exact (((Allocates.refl s.log _ _).released _ _ _).dropped _).dropped _

/-- INTERNAL: the request for the I/O region asks for no device numbers.
SOURCE: w83627dhg-generic.patch:901-919 -/
theorem w83627dhg_requestGpio (k : Kernel) (s : TTLinux.Model.W83627dhg.System) (first num : ℕ) :
    Allocates s.log (TTLinux.Model.W83627dhg.requestGpio k s).2.log first num ∧
      (TTLinux.Model.W83627dhg.requestGpio k s).2.vars.portmask = s.vars.portmask := by
  have hstart := Allocates.refl s.log first num
  unfold TTLinux.Model.W83627dhg.requestGpio
  by_cases hmask : s.vars.portmask &&& 0x3D#8 = 0
  · simp only [if_pos hmask, and_true]
    exact hstart
  · simp only [if_neg hmask]
    generalize (if s.vars.gpioBase = 0 then TTLinux.Model.W83627dhg.gpiobase s.vars.toDriver s.hw
      else (s.vars.gpioBase, s.hw)) = base
    split_ifs
    · exact ⟨hstart.append (by simp), rfl⟩
    · exact ⟨hstart.append (by simp), rfl⟩
    · exact ⟨hstart, rfl⟩

/-- INTERNAL: the range that the driver of the W83627DHG allocates. -/
theorem w83627dhg_setupFound (k : Kernel) (stack : ℕ → Resource) (s : TTLinux.Model.W83627dhg.System) :
    ∃ v : TTLinux.Model.W83627dhg.Vars, v.portmask = s.vars.portmask ∧
      (TTLinux.Model.W83627dhg.setupFound k stack s).2.vars.portmask = v.portmask ∧
      Allocates s.log (TTLinux.Model.W83627dhg.setupFound k stack s).2.log (mapLines v).1.firstminor
        (mapLines v).1.numdevs := by
  unfold TTLinux.Model.W83627dhg.setupFound
  dsimp only
  have hrequest := w83627dhg_requestGpio k
    { s with hw := TTLinux.Model.W83627dhg.enablePorts s.vars.toSettings s.vars.portmask s.hw }
  generalize TTLinux.Model.W83627dhg.requestGpio k
    { s with hw := TTLinux.Model.W83627dhg.enablePorts s.vars.toSettings s.vars.portmask s.hw } = request at hrequest ⊢
  have hregister := w83627dhg_registerLines k stack (mapLines request.2.vars).2 request.1
    { request.2 with vars := (mapLines request.2.vars).1 }
  refine ⟨request.2.vars, (hrequest 0 0).2, hregister.2, ?_⟩
  exact (hrequest _ _).1.trans hregister.1

/-- INTERNAL: the device numbers an initialization asks for, and the ports that are enabled after it.
SOURCE: w83627dhg-generic.patch:865-991 -/
theorem w83627dhg_init (k : Kernel) (stack : ℕ → Resource) (s : TTLinux.Model.W83627dhg.System) (major : ℤ)
    (first num : ℕ) (rc : ℤ)
    (hcall : .chrdevRegion major first num rc ∈
      (TTLinux.Model.W83627dhg.gpioInit k stack s).2.log.drop s.log.length) :
    s.vars.portmask &&& 0x7E#8 ≠ 0 ∧
      ∃ v : TTLinux.Model.W83627dhg.Vars, v.portmask = s.vars.portmask &&& 0x7E#8 ∧
        (TTLinux.Model.W83627dhg.gpioInit k stack s).2.vars.portmask = v.portmask ∧
        first = (mapLines v).1.firstminor ∧ num = (mapLines v).1.numdevs := by
  unfold TTLinux.Model.W83627dhg.gpioInit at hcall ⊢
  by_cases hmask : s.vars.portmask &&& 0x7E#8 = 0
  · simp only [if_pos hmask, List.drop_length, List.not_mem_nil] at hcall
  · refine ⟨hmask, ?_⟩
    simp only [if_neg hmask] at hcall ⊢
    generalize TTLinux.Model.W83627dhg.find s.hw = found at hcall ⊢
    obtain ⟨_ | cir, hw⟩ := found
    · simp only [List.drop_length, List.not_mem_nil] at hcall
    · obtain ⟨v, hv, hfinal, halloc⟩ := w83627dhg_setupFound k stack
        { s with vars := { s.vars with portmask := s.vars.portmask &&& 0x7E#8, cirAddr := cir }, hw := hw }
      exact ⟨v, hv, hfinal, halloc.range hcall⟩

end W83627dhg

/-! ## The VT1211 -/

section Vt1211

open TTLinux.Model.Vt1211 (mapLines gpioOpen)

/-- The lines of a port of the VT1211. -/
def vt1211Lines (pn : ℕ) : ℕ := if pn = 5 then 3 else 8

/-- INTERNAL: only port 6 has fewer lines. -/
theorem sum_vt1211Lines (ports : List ℕ) (hnodup : ports.Nodup) :
    (ports.map vt1211Lines).sum + (if 5 ∈ ports then 5 else 0) = 8 * ports.length := by
  induction ports with
  | nil => rfl
  | cons pn ports ih =>
    obtain ⟨hnot, hrest⟩ := List.nodup_cons.mp hnodup
    have hsum := ih hrest
    rw [List.map_cons, List.sum_cons, List.length_cons, vt1211Lines]
    by_cases h5 : pn = 5
    · subst h5
      rw [if_neg hnot] at hsum
      rw [if_pos rfl, if_pos List.mem_cons_self]
      omega
    · have hiff : 5 ∈ pn :: ports ↔ 5 ∈ ports := by simp [Ne.symm h5]
      rw [if_neg h5]
      simp only [hiff]
      omega

/-- INTERNAL: the range of the VT1211: the lines of each mapped port.
SOURCE: vt1211-generic.patch:726-742 -/
theorem vt1211_numdevs (v : TTLinux.Model.Vt1211.Vars) :
    (mapLines v).1.firstminor = 8 * firstPort v.portmask 7 7 0 ∧
      (mapLines v).1.numdevs = ((mapped v.portmask (firstPort v.portmask 7 7 0)
        (7 - firstPort v.portmask 7 7 0)).map vt1211Lines).sum := by
  refine ⟨Nat.mul_comm _ _, ?_⟩
  have hdevmap : ∀ pn iomap count,
      total (TTLinux.Model.Vt1211.devmap v.outmask pn iomap count).2 = total count + vt1211Lines pn :=
    fun pn iomap count => devmapLoop_total _ _ _ _ 0 iomap count
  have htotal := foldl_devmap_total v.portmask vt1211Lines (TTLinux.Model.Vt1211.devmap v.outmask) hdevmap
    (List.range' (firstPort v.portmask 7 7 0 + 1) (7 - firstPort v.portmask 7 7 0))
    (TTLinux.Model.Vt1211.devmap v.outmask (firstPort v.portmask 7 7 0) v.iomap ⟨0, 0⟩)
  rw [hdevmap] at htotal
  have hnum : (mapLines v).1.numdevs = total (List.foldl (fun (iomap, count) pn =>
      if v.portmask.getLsbD pn then TTLinux.Model.Vt1211.devmap v.outmask pn iomap count else (iomap, count))
      (TTLinux.Model.Vt1211.devmap v.outmask (firstPort v.portmask 7 7 0) v.iomap ⟨0, 0⟩)
      (List.range' (firstPort v.portmask 7 7 0 + 1) (7 - firstPort v.portmask 7 7 0))).2 := rfl
  rw [hnum, htotal, mapped, List.map_cons, List.sum_cons]
  simp only [total]
  omega

/-- INTERNAL: the lines that can be opened are those of the enabled ports, of port 6 only three.
SOURCE: vt1211-generic.patch:507-532 -/
theorem vt1211_open_iff (portmask : Byte) (minor : ℕ) :
    gpioOpen portmask 0 minor = 0 ↔
      portmask.getLsbD (minor / 8) = true ∧ minor / 8 ≠ 1 ∧ minor / 8 ≠ 6 ∧ (minor / 8 = 5 → minor % 8 ≤ 2) := by
  have hport : TTLinux.Model.Vt1211.PORT minor = minor / 8 := by
    rw [TTLinux.Model.Vt1211.PORT, Nat.shiftRight_eq_div_pow]
  have hline : minor &&& 0x7 = minor % 8 := Nat.and_two_pow_sub_one_eq_mod minor 3
  rw [gpioOpen, TTLinux.Model.Vt1211.PORTNO, hport, hline, ← and_shiftLeft_ne_zero]
  split_ifs with hwkup hthree hbit
  · exact iff_of_false (by decide) (by omega)
  · exact iff_of_false (by decide) (by omega)
  · exact iff_of_true rfl ⟨hbit, by omega, by omega, by omega⟩
  · exact iff_of_false (by decide) fun h => hbit h.1

/-- INTERNAL: what the search for the first port finds.
SOURCE: vt1211-generic.patch:649-666, 727-730 -/
theorem vt1211_first (portmask : Byte) (hmask : portmask &&& 0x7F#8 ≠ 0)
    (hwkup : (portmask &&& 0x7F#8) &&& 0x42#8 = 0) :
    (portmask &&& 0x7F#8).getLsbD (firstPort (portmask &&& 0x7F#8) 7 7 0) = true ∧
      ∀ i, (portmask &&& 0x7F#8).getLsbD i = true →
        firstPort (portmask &&& 0x7F#8) 7 7 0 ≤ i ∧ i ≤ 5 ∧ i ≠ 1 := by
  have hports : ∀ i, (portmask &&& 0x7F#8).getLsbD i = true → i ≤ 5 ∧ i ≠ 1 := by
    intro i hi
    have hclear : ((portmask &&& 0x7F#8) &&& 0x42#8).getLsbD i = false := by
      rw [hwkup]
      exact BitVec.getLsbD_zero
    rw [BitVec.getLsbD_and, hi, Bool.true_and] at hclear
    rw [BitVec.getLsbD_and, Bool.and_eq_true] at hi
    have hbits : ∀ j < 8, (0x7F#8).getLsbD j = true → (0x42#8).getLsbD j = false → j ≤ 5 ∧ j ≠ 1 := by decide
    exact hbits i (BitVec.lt_of_getLsbD hi.2) hi.2 hclear
  obtain ⟨-, hhi, hskip, hfound⟩ := firstPort_spec (portmask &&& 0x7F#8) 7 7 0 (by decide) (by decide)
  generalize portmask &&& 0x7F#8 = mask at hmask hports hhi hskip hfound ⊢
  have hleast : ∀ i, mask.getLsbD i = true → firstPort mask 7 7 0 ≤ i ∧ i ≤ 5 ∧ i ≠ 1 := by
    intro i hi
    refine ⟨?_, hports i hi⟩
    by_contra hlt
    rw [hskip i (Nat.zero_le i) (by omega)] at hi
    cases hi
  refine ⟨?_, hleast⟩
  obtain ⟨i, hi⟩ := exists_enabled mask hmask
  apply hfound
  have := hleast i hi
  omega

/-- INTERNAL: **all lines of the VT1211 that can be opened** are in the range that is registered if and only
if the enabled ports follow one another. That port 6 is counted with three lines does no harm, since it
is the last one. -/
theorem vt1211_covers_iff (v : TTLinux.Model.Vt1211.Vars) (portmask : Byte)
    (hv : v.portmask = portmask &&& 0x7F#8) (hmask : portmask &&& 0x7F#8 ≠ 0)
    (hwkup : (portmask &&& 0x7F#8) &&& 0x42#8 = 0) :
    (∀ minor, gpioOpen v.portmask 0 minor = 0 → (mapLines v).1.firstminor ≤ minor ∧
      minor < (mapLines v).1.firstminor + (mapLines v).1.numdevs) ↔ Consecutive (portmask &&& 0x7F#8) := by
  obtain ⟨hbit, hleast⟩ := vt1211_first portmask hmask hwkup
  obtain ⟨hfirst, hnum⟩ := vt1211_numdevs v
  rw [hfirst, hnum, hv]
  generalize portmask &&& 0x7F#8 = mask at hbit hleast ⊢
  generalize firstPort mask 7 7 0 = f at hbit hleast ⊢
  have hall : ∀ i, mask.getLsbD i = true ↔ i ∈ mapped mask f (7 - f) := by
    intro i
    apply (mem_mapped_iff mask f (7 - f) hbit _ i).symm
    intro j hj
    have := hleast j hj
    omega
  have hmin : ∀ i ∈ mapped mask f (7 - f), f ≤ i := fun i hi => (hleast i ((hall i).mpr hi)).1
  have hgap := lt_add_length_iff (mapped mask f (7 - f)) f (mapped_nodup mask f (7 - f)) hmin
  have hsum := sum_vt1211Lines (mapped mask f (7 - f)) (mapped_nodup mask f (7 - f))
  have hcons : (∀ i ∈ mapped mask f (7 - f), i < f + (mapped mask f (7 - f)).length) ↔ Consecutive mask := by
    rw [hgap]
    constructor
    · intro h i j hi hj n hin hnj
      exact (hall n).mpr (h j ((hall j).mp hj) n ((hleast i hi).1.trans hin) hnj)
    · intro h i hi n hfn hni
      exact (hall n).mp (h f i hbit ((hall i).mpr hi) n hfn hni)
  rw [← hcons]
  constructor
  · intro h i hi
    have hi' := (hall i).mpr hi
    obtain ⟨-, hle5, hne1⟩ := hleast i hi'
    -- the last line of the port
    by_cases h5 : i = 5
    · subst h5
      have hline := (h 42 ((vt1211_open_iff _ _).mpr ⟨hi', by decide, by decide, fun _ => by decide⟩)).2
      rw [if_pos hi] at hsum
      omega
    · have hdiv : (8 * i + 7) / 8 = i := by omega
      have hline := (h (8 * i + 7) ((vt1211_open_iff _ _).mpr ⟨by rwa [hdiv], by omega, by omega, by omega⟩)).2
      omega
  · intro h minor hopen
    obtain ⟨hi, -, -, hthree⟩ := (vt1211_open_iff _ _).mp hopen
    have hmem := (hall _).mp hi
    have hlt := h _ hmem
    have := hleast _ hi
    refine ⟨by omega, ?_⟩
    by_cases h5 : 5 ∈ mapped mask f (7 - f)
    · -- port 6 is the last one, and the range ends with its three lines
      rw [if_pos h5] at hsum
      have hlast := h 5 h5
      by_cases heq : minor / 8 = 5
      · have := hthree heq
        omega
      · omega
    · rw [if_neg h5] at hsum
      omega

/-- INTERNAL: the registration asks for no other range.
SOURCE: vt1211-generic.patch:744-783 -/
theorem vt1211_registerLines {M : Type} (k : Kernel) (stack : ℕ → Resource) (count : DevCount) (rc : ℤ)
    (s : TTLinux.Model.Vt1211.System M) :
    Allocates s.log (TTLinux.Model.Vt1211.registerLines k stack count rc s).2.log s.vars.firstminor
        s.vars.numdevs ∧
      (TTLinux.Model.Vt1211.registerLines k stack count rc s).2.vars.portmask = s.vars.portmask := by
  have halloc := allocateNumbers_allocates k s.vars.major s.vars.firstminor s.vars.numdevs s.log
  have hdevs := setupPlatformDevs_calls k TTLinux.Model.Vt1211.DRVNAME 0 TTLinux.Model.Vt1211.GPIO_MAX stack
    s.vars.iomap count s.vars.pdevin
  unfold TTLinux.Model.Vt1211.registerLines
  generalize allocateNumbers k s.vars.major s.vars.firstminor s.vars.numdevs = numbers at halloc ⊢
  generalize hsetup : setupPlatformDevs k TTLinux.Model.Vt1211.DRVNAME 0 TTLinux.Model.Vt1211.GPIO_MAX stack
    s.vars.iomap count s.vars.pdevin = devs at hdevs
  by_cases hrc : rc = 0
  · simp only [if_pos hrc]
    by_cases hnum : numbers.1 = 0
    · have hboth := halloc.append hdevs
      simp only [if_pos hnum, hsetup]
      by_cases hdev : devs.1 ≠ 0
      · simp only [if_pos hdev, and_true]
        exact (((hboth.released _ _ _).released _ _ _).dropped _).dropped _
      · simp only [if_neg hdev, and_true]
        apply hboth.append
        simp
    · simp only [if_neg hnum, if_pos hnum, and_true]
      exact (((halloc.released _ _ _).released _ _ _).dropped _).dropped _
  · simp only [if_neg hrc, if_pos hrc, and_true]
    exact ((((Allocates.refl s.log _ _).released _ _ _).released _ _ _).dropped _).dropped _

/-- INTERNAL: the request for the I/O region asks for no device numbers.
SOURCE: vt1211-generic.patch:688-704 -/
theorem vt1211_requestGpio {M : Type} (io : TTLinux.Model.Vt1211.PortIo M) (k : Kernel) (rc : ℤ)
    (s : TTLinux.Model.Vt1211.System M) (first num : ℕ) :
    Allocates s.log (TTLinux.Model.Vt1211.requestGpio io k rc s).2.log first num ∧
      (TTLinux.Model.Vt1211.requestGpio io k rc s).2.vars.portmask = s.vars.portmask := by
  have hstart := Allocates.refl s.log first num
  unfold TTLinux.Model.Vt1211.requestGpio
  by_cases hmask : s.vars.portmask &&& 0x3D#8 = 0
  · simp only [if_pos hmask, and_true]
    exact hstart
  · simp only [if_neg hmask]
    generalize (if s.vars.gpioBase = 0 then TTLinux.Model.Vt1211.gpiobase io s.vars.cirAddr s.hw
      else (s.vars.gpioBase, s.hw)) = base
    split_ifs
    · exact ⟨hstart.append (by simp), rfl⟩
    · exact ⟨hstart.append (by simp), rfl⟩

/-- INTERNAL: the range that the driver of the VT1211 allocates. -/
theorem vt1211_setupChip {M : Type} (io : TTLinux.Model.Vt1211.PortIo M) (k : Kernel) (stack : ℕ → Resource)
    (s : TTLinux.Model.Vt1211.System M) (hwkup : s.vars.portmask &&& 0x42#8 = 0) :
    ∃ v : TTLinux.Model.Vt1211.Vars, v.portmask = s.vars.portmask ∧
      (TTLinux.Model.Vt1211.setupChip io k stack s).2.vars.portmask = v.portmask ∧
      Allocates s.log (TTLinux.Model.Vt1211.setupChip io k stack s).2.log (mapLines v).1.firstminor
        (mapLines v).1.numdevs := by
  unfold TTLinux.Model.Vt1211.setupChip
  generalize TTLinux.Model.Vt1211.find io s.vars.cirAddr s.hw = found
  dsimp only
  generalize TTLinux.Model.Vt1211.enableGpio io found.2.1 _ = hw
  have hrequest := vt1211_requestGpio io k found.1 { s with vars := { s.vars with cirAddr := found.2.1 }, hw := hw }
  generalize TTLinux.Model.Vt1211.requestGpio io k found.1
    { s with vars := { s.vars with cirAddr := found.2.1 }, hw := hw } = request at hrequest ⊢
  have hskip : TTLinux.Model.Vt1211.requestWkup io k request.2 = (true, request.2) := by
    apply if_pos
    rw [(hrequest 0 0).2]
    exact hwkup
  rw [hskip]
  have hregister := vt1211_registerLines k stack (mapLines request.2.vars).2 request.1
    { request.2 with vars := (mapLines request.2.vars).1 }
  refine ⟨request.2.vars, (hrequest 0 0).2, hregister.2, ?_⟩
  exact (hrequest _ _).1.trans hregister.1

/-- INTERNAL: the device numbers an initialization asks for, and the ports that are enabled after it.
SOURCE: vt1211-generic.patch:641-787 -/
theorem vt1211_init {M : Type} (io : TTLinux.Model.Vt1211.PortIo M) (k : Kernel) (stack : ℕ → Resource)
    (s : TTLinux.Model.Vt1211.System M) (major : ℤ) (first num : ℕ) (rc : ℤ)
    (hcall : .chrdevRegion major first num rc ∈
      (TTLinux.Model.Vt1211.gpioInit io k stack s).2.log.drop s.log.length) :
    s.vars.portmask &&& 0x7F#8 ≠ 0 ∧ (s.vars.portmask &&& 0x7F#8) &&& 0x42#8 = 0 ∧
      ∃ v : TTLinux.Model.Vt1211.Vars, v.portmask = s.vars.portmask &&& 0x7F#8 ∧
        (TTLinux.Model.Vt1211.gpioInit io k stack s).2.vars.portmask = v.portmask ∧
        first = (mapLines v).1.firstminor ∧ num = (mapLines v).1.numdevs := by
  unfold TTLinux.Model.Vt1211.gpioInit at hcall ⊢
  by_cases hwkup : (s.vars.portmask &&& 0x7F#8) &&& 0x42#8 = 0
  · by_cases hmask : s.vars.portmask &&& 0x7F#8 = 0
    · simp only [ne_eq, hwkup, not_true_eq_false, if_false, if_pos hmask, List.drop_length, List.not_mem_nil] at hcall
    · refine ⟨hmask, hwkup, ?_⟩
      simp only [ne_eq, hwkup, not_true_eq_false, if_false, if_neg hmask] at hcall ⊢
      generalize (if ¬s.vars.outmask 5 &&& 0xF4#8 = 0 then
        Function.update s.vars.outmask 5 (s.vars.outmask 5 &&& 0x7#8) else s.vars.outmask) = outmask at hcall ⊢
      obtain ⟨v, hv, hfinal, halloc⟩ := vt1211_setupChip io k stack
        { s with vars := { s.vars with portmask := s.vars.portmask &&& 0x7F#8, outmask := outmask } } hwkup
      exact ⟨v, hv, hfinal, halloc.range hcall⟩
  · simp only [ne_eq, hwkup, not_false_eq_true, if_true, List.drop_length, List.not_mem_nil] at hcall

end Vt1211

/-! ## Boards with the chips -/

/-- The module for the W83627DHG with these ports, on a board that has the chip at `2Eh`. -/
def w83627dhgLoaded (portmask : Byte) : TTLinux.Model.W83627dhg.System :=
  let s := GpioConfigMode.loaded ⟨some (GpioConfigMode.numberedChip 0xA0#8 0x23#8), none⟩
  { s with vars := { s.vars with portmask := portmask, gpioBase := 0xFFFF } }

/-- The module for the VT1211 with these ports, on a board that has the chip at `2Eh`. -/
def vt1211Loaded (portmask : Byte) : TTLinux.Model.Vt1211.System Machine where
  vars := {
    major := 0
    cirAddr := 0#8
    gpioBase := 0x800
    wkupBase := 0
    portmask := portmask
    outmask := fun _ => 0#8
    polarity := fun _ => 0#8
    iomap := fun _ => ⟨.nc, []⟩
    pdevin := .null
    pdevout := .null
    firstminor := 0
    numdevs := 0
    gpioMapped := false
    wkupMapped := false }
  hw := ⟨some (GpioConfigMode.numberedChip 0x3C#8 0x01#8), none⟩
  log := []

/-- Both modules after their initialization, where the kernel grants everything. -/
def w83627dhgReady (portmask : Byte) : TTLinux.Model.W83627dhg.System :=
  (TTLinux.Model.W83627dhg.gpioInit GpioConfigMode.grantAll (fun _ => ⟨[], 0, 0, 0⟩) (w83627dhgLoaded portmask)).2

def vt1211Ready (portmask : Byte) : TTLinux.Model.Vt1211.System Machine :=
  (TTLinux.Model.Vt1211.gpioInit ⟨Machine.outb, Machine.inb⟩ GpioConfigMode.grantAll (fun _ => ⟨[], 0, 0, 0⟩)
    (vt1211Loaded portmask)).2

end TTLinux.Analysis.GpioMinors
