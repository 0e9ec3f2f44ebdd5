import Mathlib.Data.Int.Notation
import Mathlib.Data.List.Perm.Basic
import Mathlib.Tactic.Linarith

/-!
# Resources along a log

Events acquire and release resources. `held` says how often a resource was acquired more often
than released, `total` sums this up over all resources, and a `Flow` from one log to a longer
one says what was gained between them and how much was held at most.
-/

set_option autoImplicit false

namespace TTLinux.Lib

/-- Which event acquires or releases which resource. -/
structure Ledger (E R : Type) where
  acquired : E → Option R
  released : E → Option R

namespace Ledger

variable {E R : Type} (L : Ledger E R)

/-- How many acquisitions are not yet released. -/
def total (log : List E) : ℤ := (log.filterMap L.acquired).length - (log.filterMap L.released).length

/-- Every acquired resource is released, as often as it was acquired. -/
def Settled (log : List E) : Prop := (log.filterMap L.acquired).Perm (log.filterMap L.released)

/-- INTERNAL: nothing is open when all is settled. -/
theorem total_of_settled (log : List E) (h : L.Settled log) : L.total log = 0 := by
  rw [total, h.length_eq, sub_self]

variable [DecidableEq R]

/-- How often a resource is held. -/
def held (log : List E) (r : R) : ℤ :=
  (log.filterMap L.acquired).count r - (log.filterMap L.released).count r

/-- INTERNAL: a log is settled if nothing is held. -/
theorem settled_of_held (log : List E) (h : ∀ r, L.held log r = 0) : L.Settled log := by
  apply List.perm_iff_count.mpr
  intro r
  have := h r
  rw [held] at this
  omega

/-- INTERNAL: and only then. -/
theorem settled_iff_held (log : List E) : L.Settled log ↔ ∀ r, L.held log r = 0 := by
  constructor
  · intro h r
    rw [held, h.count_eq, sub_self]
  · exact L.settled_of_held log

/-- INTERNAL: what is held after two parts. -/
theorem held_append (a b : List E) (r : R) : L.held (a ++ b) r = L.held a r + L.held b r := by
  simp only [held, List.filterMap_append, List.count_append]
  omega

/-- INTERNAL: and at the start. -/
theorem held_nil (r : R) : L.held [] r = 0 := by
  simp [held]

/-- INTERNAL: the count over a single event. -/
theorem count_filterMap_singleton (f : E → Option R) (e : E) (r : R) :
    ([e].filterMap f).count r = if f e = some r then 1 else 0 := by
  cases h : f e with
  | none => simp [h]
  | some x =>
    by_cases hx : x = r
    · simp [h, hx]
    · simp [h, hx]

/-- INTERNAL: what is held after one more event. -/
theorem held_snoc (a : List E) (e : E) (r : R) :
    L.held (a ++ [e]) r = L.held a r + (if L.acquired e = some r then 1 else 0) -
      (if L.released e = some r then 1 else 0) := by
  simp only [held, List.filterMap_append, List.count_append, count_filterMap_singleton]
  split_ifs <;> omega

omit [DecidableEq R] in
/-- INTERNAL: and how much. -/
theorem total_snoc (a : List E) (e : E) :
    L.total (a ++ [e]) = L.total a + (L.acquired e).toList.length - (L.released e).toList.length := by
  have hlen : ∀ f : E → Option R, ([e].filterMap f).length = (f e).toList.length := by
    intro f
    cases h : f e <;> simp [h]
  simp only [total, List.filterMap_append, List.length_append, hlen]
  omega

/-- INTERNAL: what the first event adds. -/
theorem held_cons (e : E) (b : List E) (r : R) :
    L.held (e :: b) r = (if L.acquired e = some r then 1 else 0) - (if L.released e = some r then 1 else 0) +
      L.held b r := by
  rw [← List.singleton_append, held_append, ← List.nil_append [e], held_snoc, held_nil, zero_add]

/-- INTERNAL: an event that only acquires, and one that only releases. -/
theorem held_acquired {e : E} (h : L.released e = none) (r : R) :
    L.held [e] r = if L.acquired e = some r then 1 else 0 := by
  simp [held_cons, held_nil, h]

/-- INTERNAL: an event that only releases. -/
theorem held_released {e : E} (h : L.acquired e = none) (r : R) :
    L.held [e] r = -(if L.released e = some r then 1 else 0) := by
  simp [held_cons, held_nil, h]

/-- One more of a resource. -/
def unit (r : R) : R → ℤ := fun x => if x = r then 1 else 0

/-- From the log `a` to the log `b` the holdings change by `gain`, `n` in all, and in between never
more than `B` are held. -/
structure Flow (B : ℤ) (gain : R → ℤ) (n : ℤ) (a b : List E) : Prop where
  grows : a <+: b
  bound : ∀ p, a <+: p → p <+: b → L.total p ≤ B
  held : ∀ r, L.held b r = L.held a r + gain r
  total : L.total b = L.total a + n

namespace Flow

variable {L}

/-- INTERNAL: nothing happens. -/
theorem refl (B : ℤ) (a : List E) (ha : L.total a ≤ B) : L.Flow B 0 0 a a where
  grows := List.prefix_rfl
  bound := fun p hp hp' => by rwa [← hp.eq_of_length_le hp'.length_le]
  held := by simp
  total := by simp

/-- INTERNAL: **flows follow each other.** -/
theorem trans {B : ℤ} {gain gain' : R → ℤ} {n n' : ℤ} {a b c : List E} (h : L.Flow B gain n a b)
    (h' : L.Flow B gain' n' b c) : L.Flow B (gain + gain') (n + n') a c where
  grows := h.grows.trans h'.grows
  bound := fun p hp hp' => by
    rcases List.prefix_or_prefix_of_prefix hp' h'.grows with hpb | hbp
    · exact h.bound p hp hpb
    · exact h'.bound p hbp hp'
  held := fun r => by
    rw [h'.held, h.held, Pi.add_apply, add_assoc]
  total := by
    rw [h'.total, h.total, add_assoc]

/-- INTERNAL: a flow, with its gain written in another way. -/
theorem congr {B : ℤ} {gain gain' : R → ℤ} {n n' : ℤ} {a b : List E} (h : L.Flow B gain n a b)
    (hgain : gain = gain') (hn : n = n') : L.Flow B gain' n' a b := hgain ▸ hn ▸ h

/-- INTERNAL: one event. -/
theorem snoc (B : ℤ) (gain : R → ℤ) (n : ℤ) (a : List E) (e : E) (ha : L.total a ≤ B)
    (hgain : ∀ r, gain r = (if L.acquired e = some r then 1 else 0) - (if L.released e = some r then 1 else 0))
    (hn : n = (L.acquired e).toList.length - (L.released e).toList.length) (hB : L.total a + n ≤ B) :
    L.Flow B gain n a (a ++ [e]) where
  grows := List.prefix_append a [e]
  bound := fun p hp hp' => by
    rcases List.prefix_concat_iff.mp hp' with rfl | hpa
    · rw [L.total_snoc]
      omega
    · rwa [hp.eq_of_length_le hpa.length_le] at ha
  held := fun r => by rw [L.held_snoc, hgain, add_sub_assoc]
  total := by rw [L.total_snoc, hn, add_sub_assoc]

/-- INTERNAL: an event that neither acquires nor releases. -/
theorem neutral (B : ℤ) (a : List E) (e : E) (hacq : L.acquired e = none) (hrel : L.released e = none)
    (ha : L.total a ≤ B) : L.Flow B 0 0 a (a ++ [e]) :=
  snoc B 0 0 a e ha (by simp [hacq, hrel]) (by simp [hacq, hrel]) (by omega)

/-- INTERNAL: an event that acquires, with room for one more. -/
theorem acquire (B : ℤ) (a : List E) (e : E) (r : R) (hacq : L.acquired e = some r)
    (hrel : L.released e = none) (ha : L.total a + 1 ≤ B) : L.Flow B (unit r) 1 a (a ++ [e]) :=
  snoc B (unit r) 1 a e (by omega) (by simp [hacq, hrel, unit, eq_comm]) (by simp [hacq, hrel]) ha

/-- INTERNAL: an event that releases. -/
theorem release (B : ℤ) (a : List E) (e : E) (r : R) (hacq : L.acquired e = none)
    (hrel : L.released e = some r) (ha : L.total a ≤ B) : L.Flow B (-unit r) (-1) a (a ++ [e]) :=
  snoc B (-unit r) (-1) a e ha (by simp [hacq, hrel, unit, eq_comm]) (by simp [hacq, hrel]) (by omega)

end Flow

end Ledger

end TTLinux.Lib
