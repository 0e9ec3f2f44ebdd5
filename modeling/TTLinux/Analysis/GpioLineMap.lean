import TTLinux.Analysis.GpioMinors
import TTLinux.Lib.Ranks

/-!
# The map of the lines

Both drivers map the lines of their ports from the masks of the outputs: a line of a mapped port is an input or
an output, every other line is not connected, and the two counters hold how many lines of each kind there are.
-/

set_option autoImplicit false

namespace TTLinux.Analysis.GpioLineMap

open TTLinux.Lib
open TTLinux.Lib.SuperIo (Byte)
open TTLinux.Model.GpioKernel
open TTLinux.Analysis.GpioMinors (mapped vt1211Lines)

/-- The direction of a line of a port with this mask. -/
def lineDirection (outmask : Byte) (bit : ℕ) : GpioDir := if outmask.getLsbD bit then .output else .input

/-- How many lines below a bound have this direction. -/
def countLines (iomap : ℕ → GpioIomap) (dir : GpioDir) (n : ℕ) : ℕ := Nat.count (fun m => (iomap m).direction = dir) n

/-- INTERNAL: the lines of a port are inputs or outputs, the others stay what they were.
SOURCE: w83627dhg-generic.patch:777-801; vt1211-generic.patch:562-586 -/
theorem devmapLoop_direction (names : List Name) (outmask : Byte) (base bits i : ℕ) (iomap : ℕ → GpioIomap)
    (count : DevCount) (line : ℕ) :
    ((devmapLoop names outmask base bits i iomap count).1 line).direction =
      if base ≤ line ∧ line < base + bits then lineDirection outmask (line - base) else (iomap line).direction := by
  induction bits generalizing i iomap count with
  | zero => rw [devmapLoop, if_neg (by omega)]
  | succ bit ih =>
    have hstep : ∀ (m : GpioIomap) (dir : GpioDir), m.direction = dir → dir = lineDirection outmask bit →
        (if base ≤ line ∧ line < base + bit then lineDirection outmask (line - base)
          else (Function.update iomap (base + bit) m line).direction) =
        if base ≤ line ∧ line < base + (bit + 1) then lineDirection outmask (line - base)
          else (iomap line).direction := by
      intro m dir hm hdir
      by_cases hline : line = base + bit
      · rw [if_neg (by omega), if_pos (by omega), hline, Function.update_self, hm, hdir, Nat.add_sub_cancel_left]
      · rw [Function.update_of_ne hline]
        exact if_congr (by omega) rfl rfl
    rw [devmapLoop]
    dsimp only
    by_cases hout : outmask.getLsbD bit = true
    · have hdir : GpioDir.output = lineDirection outmask bit := (if_pos hout).symm
      rw [if_pos hout]
      cases hname : names[i]? with
      | none => exact (ih _ _ _).trans (hstep _ .output rfl hdir)
      | some name => exact (ih _ _ _).trans (hstep _ .output rfl hdir)
    · have hdir : GpioDir.input = lineDirection outmask bit := (if_neg hout).symm
      rw [if_neg hout]
      exact (ih _ _ _).trans (hstep _ .input rfl hdir)

/-- INTERNAL: a line is connected. -/
theorem countLines_update (iomap : ℕ → GpioIomap) (line n : ℕ) (m : GpioIomap) (dir : GpioDir) (hn : line < n)
    (hnc : (iomap line).direction = .nc) (hdir : dir ≠ .nc) :
    countLines (Function.update iomap line m) dir n = countLines iomap dir n + if m.direction = dir then 1 else 0 := by
  have hother : ∀ k, k ≠ line → ((iomap k).direction = dir ↔ (Function.update iomap line m k).direction = dir) := by
    intro k hk
    rw [Function.update_of_ne hk]
  have hbefore : ¬(iomap line).direction = dir := by
    rw [hnc]
    exact hdir.symm
  unfold countLines
  split_ifs with hm
  · apply Ranks.count_insert _ _ hn hbefore _ hother
    rw [Function.update_self]
    exact hm
  · apply Ranks.count_congr
    intro k _
    by_cases hk : k = line
    · rw [hk, Function.update_self]
      exact iff_of_false hm hbefore
    · exact (hother k hk).symm

/-- INTERNAL: both counters grow with the lines that are connected.
SOURCE: w83627dhg-generic.patch:777-801; vt1211-generic.patch:562-586 -/
theorem devmapLoop_counts (names : List Name) (outmask : Byte) (base bits i n : ℕ) (iomap : ℕ → GpioIomap)
    (count : DevCount) (hn : base + bits ≤ n)
    (hnc : ∀ line, base ≤ line → line < base + bits → (iomap line).direction = .nc)
    (hinput : count.input = countLines iomap .input n) (houtput : count.output = countLines iomap .output n) :
    (devmapLoop names outmask base bits i iomap count).2.input =
        countLines (devmapLoop names outmask base bits i iomap count).1 .input n ∧
      (devmapLoop names outmask base bits i iomap count).2.output =
        countLines (devmapLoop names outmask base bits i iomap count).1 .output n := by
  induction bits generalizing i iomap count with
  | zero => exact ⟨hinput, houtput⟩
  | succ bit ih =>
    have hline : (iomap (base + bit)).direction = .nc := hnc _ (by omega) (by omega)
    have hrest : ∀ (m : GpioIomap) line, base ≤ line → line < base + bit →
        (Function.update iomap (base + bit) m line).direction = .nc := by
      intro m line hle hlt
      rw [Function.update_of_ne (by omega)]
      exact hnc line hle (by omega)
    have hother : GpioDir.output ≠ GpioDir.input := by decide
    have hupdate := fun m dir hdir => countLines_update iomap (base + bit) n m dir (by omega) hline hdir
    rw [devmapLoop]
    dsimp only
    by_cases hout : outmask.getLsbD bit = true
    · rw [if_pos hout]
      cases hname : names[i]? with
      | none =>
        apply ih _ _ _ (by omega) (hrest _)
        · rw [hupdate _ _ (by decide), if_neg hother]
          exact hinput
        · rw [hupdate _ _ (by decide), if_pos rfl, ← houtput]
      | some name =>
        apply ih _ _ _ (by omega) (hrest _)
        · rw [hupdate _ _ (by decide), if_neg hother]
          exact hinput
        · rw [hupdate _ _ (by decide), if_pos rfl, ← houtput]
    · rw [if_neg hout]
      apply ih _ _ _ (by omega) (hrest _)
      · rw [hupdate _ _ (by decide), if_pos rfl, ← hinput]
      · rw [hupdate _ _ (by decide), if_neg hother.symm]
        exact houtput

/-- The lines of these ports are mapped, as many of each port as it has, and they are counted. -/
structure LineMap (width : ℕ → ℕ) (outmask : ℕ → Byte) (ports : List ℕ) (iomap : ℕ → GpioIomap)
    (count : DevCount) : Prop where
  direction : ∀ line, (iomap line).direction =
    if line / 8 ∈ ports ∧ line % 8 < width (line / 8) then lineDirection (outmask (line / 8)) (line % 8) else .nc
  counted : ∀ n, (∀ pn ∈ ports, pn * 8 + 8 ≤ n) →
    count.input = countLines iomap .input n ∧ count.output = countLines iomap .output n

section

variable {width : ℕ → ℕ} {outmask : ℕ → Byte} {ports : List ℕ} {iomap : ℕ → GpioIomap} {count : DevCount}

/-- INTERNAL: nothing is mapped. -/
theorem LineMap.empty (width : ℕ → ℕ) (outmask : ℕ → Byte) (iomap : ℕ → GpioIomap)
    (hnc : ∀ line, (iomap line).direction = .nc) : LineMap width outmask [] iomap ⟨0, 0⟩ := by
  constructor
  · intro line
    rw [if_neg (by simp), hnc]
  · intro n _
    have hnone : ∀ dir, dir ≠ GpioDir.nc → 0 = countLines iomap dir n := by
      intro dir hdir
      apply Eq.symm
      apply Ranks.count_eq_zero
      intro k _
      rw [hnc]
      exact hdir.symm
    exact ⟨hnone _ (by decide), hnone _ (by decide)⟩

/-- INTERNAL: one more port.
SOURCE: w83627dhg-generic.patch:764-802; vt1211-generic.patch:543-587 -/
theorem LineMap.devmap (names : List Name) (h : LineMap width outmask ports iomap count) (pn : ℕ)
    (hwidth : width pn ≤ 8) (hnew : pn ∉ ports) :
    LineMap width outmask (ports ++ [pn])
      (devmapLoop names (outmask pn) (pn * 8) (width pn) 0 iomap count).1
      (devmapLoop names (outmask pn) (pn * 8) (width pn) 0 iomap count).2 := by
  constructor
  · intro line
    rw [devmapLoop_direction]
    simp only [List.mem_append, List.mem_singleton]
    by_cases hport : line / 8 = pn
    · have hbit : line - pn * 8 = line % 8 := by omega
      rw [hport, hbit]
      by_cases hline : line % 8 < width pn
      · rw [if_pos (by omega), if_pos ⟨Or.inr rfl, hline⟩]
      · rw [if_neg (by omega), if_neg fun hboth => hline hboth.2, h.direction, hport, if_neg fun hboth => hnew hboth.1]
    · rw [if_neg (by omega), h.direction]
      simp only [hport, or_false]
  · intro n hn
    obtain ⟨hinput, houtput⟩ := h.counted n fun port hmem => hn port (List.mem_append_left _ hmem)
    have hend := hn pn (List.mem_append_right _ List.mem_cons_self)
    apply devmapLoop_counts _ _ _ _ _ n _ _ (by omega) _ hinput houtput
    intro line hle hlt
    have hport : line / 8 = pn := by omega
    rw [h.direction, hport, if_neg fun hboth => hnew hboth.1]

/-- INTERNAL: the ports that are enabled among further ones.
SOURCE: w83627dhg-generic.patch:930-938; vt1211-generic.patch:732-740 -/
theorem LineMap.foldl (names : List Name) (portmask : Byte) (rest : List ℕ) {m : (ℕ → GpioIomap) × DevCount}
    (h : LineMap width outmask ports m.1 m.2) (hwidth : ∀ pn, width pn ≤ 8) (hnodup : (ports ++ rest).Nodup) :
    LineMap width outmask (ports ++ rest.filter fun pn => portmask.getLsbD pn)
      (rest.foldl (fun (iomap, count) pn => if portmask.getLsbD pn then
        devmapLoop names (outmask pn) (pn * 8) (width pn) 0 iomap count else (iomap, count)) m).1
      (rest.foldl (fun (iomap, count) pn => if portmask.getLsbD pn then
        devmapLoop names (outmask pn) (pn * 8) (width pn) 0 iomap count else (iomap, count)) m).2 := by
  induction rest generalizing ports m with
  | nil => simpa using h
  | cons pn rest ih =>
    rw [List.foldl_cons]
    obtain ⟨iomap, count⟩ := m
    dsimp only
    have hnew : pn ∉ ports := by
      intro hmem
      exact (List.nodup_append.mp hnodup).2.2 pn hmem pn List.mem_cons_self rfl
    by_cases hbit : portmask.getLsbD pn = true
    · rw [if_pos hbit, List.filter_cons_of_pos hbit, List.append_cons]
      apply ih (h.devmap names pn (hwidth pn) hnew)
      rwa [← List.append_cons]
    · rw [if_neg hbit, List.filter_cons_of_neg hbit]
      apply ih h
      exact hnodup.sublist (List.Sublist.append_left (List.sublist_cons_self pn rest) ports)

end

/-- INTERNAL: the map from the first port on.
SOURCE: w83627dhg-generic.patch:921-941; vt1211-generic.patch:726-742 -/
theorem mapped_lineMap (width : ℕ → ℕ) (names : List Name) (outmask : ℕ → Byte) (portmask : Byte) (f n : ℕ)
    (iomap : ℕ → GpioIomap) (hwidth : ∀ pn, width pn ≤ 8) (hnc : ∀ line, (iomap line).direction = .nc) :
    LineMap width outmask (mapped portmask f n)
      ((List.range' (f + 1) n).foldl (fun (iomap, count) pn => if portmask.getLsbD pn then
        devmapLoop names (outmask pn) (pn * 8) (width pn) 0 iomap count else (iomap, count))
        (devmapLoop names (outmask f) (f * 8) (width f) 0 iomap ⟨0, 0⟩)).1
      ((List.range' (f + 1) n).foldl (fun (iomap, count) pn => if portmask.getLsbD pn then
        devmapLoop names (outmask pn) (pn * 8) (width pn) 0 iomap count else (iomap, count))
        (devmapLoop names (outmask f) (f * 8) (width f) 0 iomap ⟨0, 0⟩)).2 := by
  have hfirst := (LineMap.empty width outmask iomap hnc).devmap names f (hwidth f) List.not_mem_nil
  apply hfirst.foldl names portmask _ hwidth
  rw [List.nil_append, List.singleton_append]
  have hcons : f :: List.range' (f + 1) n = List.range' f (n + 1) := (List.range'_succ ..).symm
  rw [hcons]
  exact List.nodup_range'

/-- INTERNAL: **the map of the W83627DHG** after an initialization.
SOURCE: w83627dhg-generic.patch:921-941 -/
theorem w83627dhg_lineMap (v : TTLinux.Model.W83627dhg.Vars) (hnc : ∀ line, (v.iomap line).direction = .nc) :
    LineMap (fun _ => 8) v.outmask
      (mapped v.portmask (firstPort v.portmask 6 6 1) (5 - firstPort v.portmask 6 6 1))
      (TTLinux.Model.W83627dhg.mapLines v).1.iomap (TTLinux.Model.W83627dhg.mapLines v).2 :=
  mapped_lineMap (fun _ => 8) _ v.outmask v.portmask _ _ v.iomap (fun _ => le_refl 8) hnc

/-- INTERNAL: the registration changes no line.
SOURCE: w83627dhg-generic.patch:947-988 -/
theorem registerLines_iomap (k : Kernel) (stack : ℕ → Resource) (count : DevCount) (rc : ℤ)
    (s : TTLinux.Model.W83627dhg.System) :
    (TTLinux.Model.W83627dhg.registerLines k stack count rc s).2.vars.iomap = s.vars.iomap := by
  unfold TTLinux.Model.W83627dhg.registerLines
  by_cases hrc : rc = 0
  · simp only [if_pos hrc]
    by_cases hnum : (allocateNumbers k s.vars.major s.vars.firstminor s.vars.numdevs).1 = 0
    · simp only [if_pos hnum]
      split_ifs <;> rfl
    · simp only [if_neg hnum]
      split_ifs <;> rfl
  · simp only [if_neg hrc]
    split_ifs <;> rfl

/-- INTERNAL: **the map of the VT1211** after an initialization: port 6 has three lines.
SOURCE: vt1211-generic.patch:726-742 -/
theorem vt1211_lineMap (v : TTLinux.Model.Vt1211.Vars) (hnc : ∀ line, (v.iomap line).direction = .nc) :
    LineMap vt1211Lines v.outmask
      (mapped v.portmask (firstPort v.portmask 7 7 0) (7 - firstPort v.portmask 7 7 0))
      (TTLinux.Model.Vt1211.mapLines v).1.iomap (TTLinux.Model.Vt1211.mapLines v).2 := by
  apply mapped_lineMap vt1211Lines _ v.outmask v.portmask _ _ v.iomap _ hnc
  intro pn
  unfold vt1211Lines
  split_ifs <;> omega

end TTLinux.Analysis.GpioLineMap
