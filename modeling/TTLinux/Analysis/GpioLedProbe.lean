import TTLinux.Analysis.GpioLeds
import TTLinux.Model.W83627dhgLedProbe

/-!
# A probe that fails

When a registration fails, the probe removes the LEDs of the whole list: those that it had registered, the
one that failed, and those that it never came to.
-/

set_option autoImplicit false

namespace TTLinux.Analysis.GpioLedProbe

open TTLinux.Model.GpioKernel (Name Resource)
open TTLinux.Model.W83627dhg (Driver GPIO_MAX)
open TTLinux.Model.W83627dhgLeds (LedCall Leds LedDevice modifyLed setupLed ledRemoveOneLed)
open TTLinux.Model.W83627dhgLedProbe
open TTLinux.Analysis.GpioLeds (registered noLeds setupLed_spec)

/-- The resource with its name. -/
def named (r : Resource) : BoardResource := ⟨some r.name, r.start, r.stop, r.flags⟩

/-- INTERNAL: on resources with names the LEDs are those of the model of the driver. -/
theorem forAllLeds_named (resource : List Resource) :
    forAllLeds (resource.map named) = TTLinux.Model.W83627dhgLeds.forAllLeds resource := by
  induction resource with
  | nil => rfl
  | cons r resource ih =>
    rw [forAllLeds] at ih
    rw [forAllLeds, TTLinux.Model.W83627dhgLeds.forAllLeds, List.map_cons, List.filterMap_cons,
      List.filter_cons, ih]
    by_cases hlt : r.start < GPIO_MAX
    · simp [named, hlt, TTLinux.Model.W83627dhgLeds.forAllLeds]
    · simp [named, hlt, TTLinux.Model.W83627dhgLeds.forAllLeds]

/-- INTERNAL: the names of the resources do not matter for `led_remove`. -/
theorem ledRemove_named (resource : List Resource) (t : Leds) :
    ledRemove (resource.map named) t = TTLinux.Model.W83627dhgLeds.ledRemove resource t := by
  rw [ledRemove, forAllLeds_named, TTLinux.Model.W83627dhgLeds.ledRemove]

/-- INTERNAL: the loop from a LED on. -/
theorem probeLoop_named (drv : Driver) (register answers : ℕ → ℤ) (resource rest : List Resource) (calls : ℕ)
    (t : Leds) (h : ∀ j < rest.length, answers (calls + j) = register ((rest.map Resource.start).getD j 0 % 256)) :
    probeLoop drv answers (resource.map named) rest calls t =
      TTLinux.Model.W83627dhgLeds.probeLoop drv register resource rest t := by
  induction rest generalizing calls t with
  | nil => rfl
  | cons r rest ih =>
    have hfirst : answers calls = register (r.start % 256) := h 0 (by simp)
    have hrest : ∀ j < rest.length, answers (calls + 1 + j) = register ((rest.map Resource.start).getD j 0 % 256) := by
      intro j hj
      have hnext := h (j + 1) (by simpa using hj)
      rw [Nat.add_right_comm, Nat.add_assoc, hnext]
      rfl
    rw [probeLoop, TTLinux.Model.W83627dhgLeds.probeLoop]
    simp only [hfirst, ledRemove_named, ih (calls + 1) _ hrest]

/-- INTERNAL: **the probe is that of the model of the driver** where all resources have names and the LED class
answers for each LED.
SOURCE: w83627dhg-leds.patch:145-205 -/
theorem ledProbe_named (drv : Driver) (register : ℕ → ℤ) (resource : List Resource) (t : Leds) :
    ledProbe drv
        (fun k => register (((TTLinux.Model.W83627dhgLeds.forAllLeds resource).map Resource.start).getD k 0 % 256))
        (resource.map named) t =
      TTLinux.Model.W83627dhgLeds.ledProbe drv register resource t := by
  rw [ledProbe, forAllLeds_named]
  apply probeLoop_named
  intro j _
  rw [Nat.zero_add]

/-! ## Removing -/

/-- INTERNAL: every LED of the list is unregistered once more.
SOURCE: w83627dhg-leds.patch:110-118, 134-143 -/
theorem ledRemove_calls (resource : List BoardResource) (t : Leds) :
    (ledRemove resource t).calls = t.calls ++ (forAllLeds resource).map fun r => .unregister r.start := by
  rw [ledRemove]
  generalize forAllLeds resource = leds
  induction leds generalizing t with
  | nil => simp
  | cons r leds ih =>
    rw [List.foldl_cons, ih, List.map_cons, List.append_cons]
    rfl

/-- INTERNAL: every LED of the list loses its name, and no LED gets one. -/
theorem ledRemove_name (resource : List BoardResource) (t : Leds) (i : ℕ)
    (h : (t.devices i).name = none ∨ i ∈ (forAllLeds resource).map Resource.start) :
    ((ledRemove resource t).devices i).name = none := by
  rw [ledRemove]
  generalize forAllLeds resource = leds at h ⊢
  induction leds generalizing t with
  | nil => simpa using h
  | cons r leds ih =>
    rw [List.foldl_cons]
    apply ih
    by_cases hi : i = r.start
    · left
      rw [hi]
      simp [ledRemoveOneLed, modifyLed]
    · rw [List.map_cons, List.mem_cons, or_iff_right hi] at h
      refine h.imp_left fun hname => ?_
      simpa [ledRemoveOneLed, modifyLed, Function.update_of_ne hi] using hname

/-! ## Failing -/

/-- The calls for LEDs that are registered, with the answers from a call on. -/
def registerCalls (answers : ℕ → ℤ) : List Resource → ℕ → List LedCall
  | [], _ => []
  | r :: rest, calls => .register r.start (answers calls) :: registerCalls answers rest (calls + 1)

/-- INTERNAL: **the loop up to the failure,** by induction on the LEDs before it: they are registered one after the
other, then all LEDs of the list are removed.
SOURCE: w83627dhg-leds.patch:160-202 -/
theorem probeLoop_fails (drv : Driver) (answers : ℕ → ℤ) (resource : List BoardResource) (done : List Resource)
    (failing : Resource) (rest : List Resource) (calls : ℕ) (t : Leds)
    (hvalid : ∀ r ∈ done ++ [failing], r.start < GPIO_MAX)
    (hdone : ∀ j < done.length, 0 ≤ answers (calls + j)) (hfail : answers (calls + done.length) < 0) :
    ∃ m, probeLoop drv answers resource (done ++ failing :: rest) calls t =
        (answers (calls + done.length), ledRemove resource m) ∧
      m.calls = t.calls ++ registerCalls answers done calls ++
        [.register failing.start (answers (calls + done.length))] := by
  induction done generalizing calls t with
  | nil =>
    have hpin : failing.start % 256 = failing.start :=
      Nat.mod_eq_of_lt ((hvalid failing (by simp)).trans (by decide))
    have hcalls := (setupLed_spec drv failing.start failing t).1
    rw [List.nil_append, probeLoop, hpin, if_pos (by simpa using hfail)]
    refine ⟨_, rfl, ?_⟩
    simp [modifyLed, hcalls, registerCalls]
  | cons r done ih =>
    have hpin : r.start % 256 = r.start := Nat.mod_eq_of_lt ((hvalid r (by simp)).trans (by decide))
    have hcalls := (setupLed_spec drv r.start r t).1
    have hfirst : ¬ answers calls < 0 := by
      have hzero := hdone 0 (by simp)
      simpa using hzero
    have hindex : calls + (r :: done).length = calls + 1 + done.length := by
      rw [List.length_cons]
      omega
    rw [List.cons_append, probeLoop, hpin, if_neg hfirst, hindex]
    rw [hindex] at hfail
    obtain ⟨m, hrun, hm⟩ := ih (calls + 1)
      { setupLed drv r.start r t with
        calls := (setupLed drv r.start r t).calls ++ [.register r.start (answers calls)]
        indices := (setupLed drv r.start r t).indices ++ [r.start] }
      (fun x hx => hvalid x (List.mem_cons_of_mem r hx)) (fun j hj => by
        have hnext := hdone (j + 1) (by simpa using hj)
        rwa [show calls + (j + 1) = calls + 1 + j by omega] at hnext) hfail
    refine ⟨m, hrun, ?_⟩
    rw [hm, hcalls, registerCalls]
    simp

/-- INTERNAL: what these calls register, where all answers are good. -/
theorem acquired_registerCalls (answers : ℕ → ℤ) (done : List Resource) (calls : ℕ)
    (hdone : ∀ j < done.length, 0 ≤ answers (calls + j)) :
    (registerCalls answers done calls).filterMap registered.acquired = done.map Resource.start ∧
      (registerCalls answers done calls).filterMap registered.released = [] := by
  induction done generalizing calls with
  | nil => exact ⟨rfl, rfl⟩
  | cons r done ih =>
    have hfirst : 0 ≤ answers calls := by simpa using hdone 0 (by simp)
    obtain ⟨hacquired, hreleased⟩ := ih (calls + 1) fun j hj => by
      have hnext := hdone (j + 1) (by simpa using hj)
      rwa [show calls + (j + 1) = calls + 1 + j by omega] at hnext
    have hacq : registered.acquired (.register r.start (answers calls)) = some r.start := if_pos hfirst
    have hrel : registered.released (.register r.start (answers calls)) = none := rfl
    rw [registerCalls, List.filterMap_cons, List.filterMap_cons, hacq, hrel, hacquired, hreleased]
    exact ⟨rfl, rfl⟩

/-- INTERNAL: what the removal unregisters. -/
theorem released_unregister (leds : List Resource) :
    (leds.map fun r => LedCall.unregister r.start).filterMap registered.acquired = [] ∧
      (leds.map fun r => LedCall.unregister r.start).filterMap registered.released = leds.map Resource.start := by
  induction leds with
  | nil => exact ⟨rfl, rfl⟩
  | cons r leds ih =>
    rw [List.map_cons, List.filterMap_cons, List.filterMap_cons]
    have hacq : registered.acquired (.unregister r.start) = none := rfl
    have hrel : registered.released (.unregister r.start) = some r.start := rfl
    rw [hacq, hrel, ih.1, ih.2]
    exact ⟨rfl, rfl⟩

/-- The calls of the LED class between two states. -/
def newCalls (t t' : Leds) : List LedCall := t'.calls.drop t.calls.length

/-- A failed probe is undone: each LED that it had registered is unregistered once and no other one is, and the
LEDs of the list have no name. -/
structure Undone (resource : List BoardResource) (t t' : Leds) : Prop where
  once : ∀ i, ((newCalls t t').filterMap registered.released).count i =
    if i ∈ (newCalls t t').filterMap registered.acquired then 1 else 0
  nameless : ∀ r ∈ forAllLeds resource, (t'.devices r.start).name = none

/-- INTERNAL: **what a failed probe does:** it registers the LEDs before the failure and unregisters all of the
list. -/
theorem ledProbe_fails (drv : Driver) (answers : ℕ → ℤ) (resource : List BoardResource) (t : Leds) (k : ℕ)
    (hk : k < (forAllLeds resource).length) (hbefore : ∀ j < k, 0 ≤ answers j) (hfail : answers k < 0) :
    (ledProbe drv answers resource t).1 = answers k ∧
      (newCalls t (ledProbe drv answers resource t).2).filterMap registered.acquired =
        ((forAllLeds resource).take k).map Resource.start ∧
      (newCalls t (ledProbe drv answers resource t).2).filterMap registered.released =
        (forAllLeds resource).map Resource.start ∧
      ∀ r ∈ forAllLeds resource, ((ledProbe drv answers resource t).2.devices r.start).name = none := by
  have hvalid : ∀ r ∈ forAllLeds resource, r.start < GPIO_MAX := by
    intro r hr
    obtain ⟨x, -, hx⟩ := List.mem_filterMap.mp hr
    split_ifs at hx with hlt
    obtain ⟨name, -, rfl⟩ := Option.map_eq_some_iff.mp hx
    exact hlt
  have hsplit := List.take_append_drop k (forAllLeds resource)
  rw [List.drop_eq_getElem_cons hk] at hsplit
  have hlength : ((forAllLeds resource).take k).length = k := by
    rw [List.length_take]
    omega
  obtain ⟨m, hrun, hm⟩ := probeLoop_fails drv answers resource ((forAllLeds resource).take k)
    (forAllLeds resource)[k] ((forAllLeds resource).drop (k + 1)) 0 t
    (fun r hr => hvalid r (by
      rw [← hsplit, List.append_cons]
      exact List.mem_append_left _ hr))
    (by
      rw [hlength]
      simpa using hbefore)
    (by simpa [hlength] using hfail)
  rw [hsplit, hlength, Nat.zero_add] at hrun
  rw [hlength, Nat.zero_add] at hm
  have hcalls : newCalls t (ledRemove resource m) =
      registerCalls answers ((forAllLeds resource).take k) 0 ++
        [.register (forAllLeds resource)[k].start (answers k)] ++
          (forAllLeds resource).map fun r => .unregister r.start := by
    rw [newCalls, ledRemove_calls, hm, List.append_assoc, List.append_assoc, List.append_assoc,
      List.drop_left]
  obtain ⟨hacquired, hreleased⟩ := acquired_registerCalls answers ((forAllLeds resource).take k) 0 (by
    rw [hlength]
    simpa using hbefore)
  obtain ⟨hnone, hall⟩ := released_unregister (forAllLeds resource)
  have hfailed : registered.acquired (.register (forAllLeds resource)[k].start (answers k)) = none :=
    if_neg (not_le.mpr hfail)
  rw [ledProbe, hrun]
  refine ⟨rfl, ?_, ?_, ?_⟩
  · rw [hcalls, List.filterMap_append, List.filterMap_append, hacquired, hnone]
    simp [hfailed]
  · rw [hcalls, List.filterMap_append, List.filterMap_append, hreleased, hall]
    simp [registered]
  · intro r hr
    exact ledRemove_name resource m r.start (Or.inr (List.mem_map_of_mem hr))

/-- **A failed probe is never undone as it should be.** For every list and every call of
`led_classdev_register` that fails, the probe returns the error and all LEDs of the list lose their names, but
every LED of the list is unregistered: also the one that could not be registered and those behind it.
SOURCE: w83627dhg-leds.patch:102-205 -/
theorem failed_probe_never_undone (drv : Driver) (answers : ℕ → ℤ) (resource : List BoardResource) (t : Leds) (k : ℕ)
    (hk : k < (forAllLeds resource).length) (hbefore : ∀ j < k, 0 ≤ answers j) (hfail : answers k < 0) :
    (ledProbe drv answers resource t).1 = answers k ∧
      (∀ r ∈ forAllLeds resource, ((ledProbe drv answers resource t).2.devices r.start).name = none) ∧
      ¬ Undone resource t (ledProbe drv answers resource t).2 := by
  obtain ⟨hrc, hacquired, hreleased, hnames⟩ := ledProbe_fails drv answers resource t k hk hbefore hfail
  refine ⟨hrc, hnames, ?_⟩
  intro hundone
  have honce := hundone.once (forAllLeds resource)[k].start
  have hsplit := List.take_append_drop k (forAllLeds resource)
  rw [List.drop_eq_getElem_cons hk] at hsplit
  have hcount := congrArg (fun leds => (leds.map Resource.start).count (forAllLeds resource)[k].start) hsplit
  simp only [List.map_append, List.map_cons, List.count_append, List.count_cons_self] at hcount
  rw [hacquired, hreleased, ← hcount] at honce
  split_ifs at honce with hmem
  · -- the LED was registered before: it is unregistered twice
    have hpos := List.count_pos_iff.mpr hmem
    omega

/-- Two LEDs, a resource without a name, and one that is no LED. -/
def sampleBoard : List BoardResource :=
  [⟨some "power".toList, 8, 8, 1⟩, ⟨none, 9, 9, 0⟩, ⟨some "far".toList, 40, 40, 0⟩, ⟨some "disk".toList, 10, 10, 0⟩]

/-- The LED class refuses the second LED. -/
def refuseSecond (calls : ℕ) : ℤ := if calls = 1 then -12 else 0

/-- The probe on a board without a chip. -/
def sampleProbe : ℤ × Leds := ledProbe ⟨false, 0x2E⟩ refuseSecond sampleBoard (noLeds ⟨none, none⟩)

/-- **The second LED is refused.** -/
theorem second_led_refused :
    sampleProbe.1 = -12 ∧ ¬ Undone sampleBoard (noLeds ⟨none, none⟩) sampleProbe.2 := by
  obtain ⟨hrc, -, hundone⟩ := failed_probe_never_undone ⟨false, 0x2E⟩ refuseSecond sampleBoard
    (noLeds ⟨none, none⟩) 1 (by decide) (by decide) (by decide)
  exact ⟨hrc, hundone⟩

/-- **The first LED is refused:** it and the LED behind it are unregistered, though none was registered.
SOURCE: w83627dhg-leds.patch:191-198 -/
theorem first_led_refused :
    ¬ Undone sampleBoard (noLeds ⟨none, none⟩)
      (ledProbe ⟨false, 0x2E⟩ (fun _ => -12) sampleBoard (noLeds ⟨none, none⟩)).2 := by
  obtain ⟨-, hacquired, hreleased, -⟩ := ledProbe_fails ⟨false, 0x2E⟩ (fun _ => -12) sampleBoard
    (noLeds ⟨none, none⟩) 0 (by decide) (by decide) (by decide)
  intro hundone
  have honce := hundone.once 10
  rw [hacquired, hreleased] at honce
  exact absurd honce (by decide)

end TTLinux.Analysis.GpioLedProbe
