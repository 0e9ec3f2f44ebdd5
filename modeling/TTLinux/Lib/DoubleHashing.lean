import Mathlib.Data.ZMod.Basic
import Mathlib.Algebra.Field.ZMod

/-!
# Double hashing

Open addressing in a table of `size` slots, where a key with hash value `h` is looked for
at `h % size` and then in steps of `1 + h % (size - 2)`. A table is a function from slots
to stored numbers, zero for an empty slot. `fill` stores `1, …, n` one after the other;
`fill_placed` says that each of them can be found again: it stands on the path of its
key, before the first empty slot of that path.
-/

set_option autoImplicit false

namespace TTLinux.Lib.DoubleHashing

/-! ## The path of a key -/

section

variable (size : ℕ)

/-- The distance between two probes. -/
def stride (h : ℕ) : ℕ := 1 + h % (size - 2)

/-- The `k`-th slot of the path of a key. -/
def slot (h k : ℕ) : ℕ := (h % size + k * stride size h) % size

/-- The slot after `idx`. -/
def next (idx inc : ℕ) : ℕ := if size - inc ≤ idx then idx - (size - inc) else idx + inc

/-- INTERNAL: the distance is less than the size. -/
theorem stride_lt (hsize : 2 < size) (h : ℕ) : 0 < stride size h ∧ stride size h < size := by
  have hmod := Nat.mod_lt h (show 0 < size - 2 by omega)
  unfold stride
  omega

/-- INTERNAL: stepping over the end of the table. -/
theorem next_eq_mod (idx inc : ℕ) (hidx : idx < size) (hinc : inc < size) :
    next size idx inc = (idx + inc) % size := by
  unfold next
  split_ifs with hle
  · have hsum : idx + inc = idx - (size - inc) + size := by omega
    rw [hsum, Nat.add_mod_right, Nat.mod_eq_of_lt (by omega)]
  · rw [Nat.mod_eq_of_lt (by omega)]

/-- INTERNAL: every path stays in the table. -/
theorem slot_lt (hsize : 2 < size) (h k : ℕ) : slot size h k < size :=
  Nat.mod_lt _ (by omega)

/-- INTERNAL: the first slot of a path. -/
theorem slot_zero (h : ℕ) : slot size h 0 = h % size := by
  simp [slot]

/-- INTERNAL: the path goes on at the next slot. -/
theorem slot_succ (hsize : 2 < size) (h k : ℕ) :
    slot size h (k + 1) = next size (slot size h k) (stride size h) := by
  rw [next_eq_mod size _ _ (slot_lt size hsize h k) (stride_lt size hsize h).2]
  have hsum : h % size + (k + 1) * stride size h = h % size + k * stride size h + stride size h := by
    rw [Nat.add_mul, Nat.one_mul, Nat.add_assoc]
  unfold slot
  rw [hsum, Nat.mod_add_mod (h % size + k * stride size h)]

/-- INTERNAL: **a path visits every slot** of a table of prime size. -/
theorem exists_slot_eq (hprime : size.Prime) (hsize : 2 < size) (h s : ℕ) (hs : s < size) :
    ∃ k, k < size ∧ slot size h k = s := by
  have : Fact size.Prime := ⟨hprime⟩
  obtain ⟨hpos, hlt⟩ := stride_lt size hsize h
  have hne : ((stride size h : ℕ) : ZMod size) ≠ 0 := by
    intro hzero
    have hdvd := (ZMod.natCast_eq_zero_iff (stride size h) size).mp hzero
    exact absurd (Nat.le_of_dvd hpos hdvd) (by omega)
  -- the number of steps is the distance divided by the stride
  let k : ZMod size := ((s : ZMod size) - (h : ZMod size)) * ((stride size h : ℕ) : ZMod size)⁻¹
  refine ⟨k.val, ZMod.val_lt k, ?_⟩
  have hcast : ((slot size h k.val : ℕ) : ZMod size) = (s : ZMod size) := by
    unfold slot
    rw [ZMod.natCast_mod, Nat.cast_add, Nat.cast_mul, ZMod.natCast_mod, ZMod.natCast_zmod_val]
    simp only [k]
    rw [mul_assoc, inv_mul_cancel₀ hne, mul_one, add_sub_cancel]
  have hmod := (ZMod.natCast_eq_natCast_iff' _ _ size).mp hcast
  rwa [Nat.mod_eq_of_lt (slot_lt size hsize h _), Nat.mod_eq_of_lt hs] at hmod

/-! ## Filling a table -/

/-- What a table stores in its slots. -/
abbrev Table := ℕ → ℕ

/-- Store `v` in the first empty slot of a path. -/
def place (table : Table) (h v : ℕ) : Table :=
  match (List.range size).find? fun k => table (slot size h k) = 0 with
  | some k => Function.update table (slot size h k) v
  | none => table

/-- The table after `1, …, n` have been stored, `i + 1` with the hash value `hash i`. -/
def fill (hash : ℕ → ℕ) : ℕ → Table
  | 0 => fun _ => 0
  | n + 1 => place size (fill hash n) (hash n) (n + 1)

/-- `v` stands on the path of `h`, with no empty slot before it. -/
def OnPath (table : Table) (h v : ℕ) : Prop :=
  ∃ k, k < size ∧ table (slot size h k) = v ∧ ∀ j, j < k → table (slot size h j) ≠ 0

/-- What is true of a table that stores `1, …, n`. -/
structure Placed (hash : ℕ → ℕ) (n : ℕ) (table : Table) : Prop where
  /-- Nothing else is stored. -/
  le : ∀ s, table s ≤ n
  /-- Nothing is stored outside of the table. -/
  inside : ∀ s, table s ≠ 0 → s < size
  /-- Nothing is stored twice. -/
  inj : ∀ s s', table s ≠ 0 → table s = table s' → s = s'
  /-- Everything can be found. -/
  onPath : ∀ i, i < n → OnPath size table (hash i) (i + 1)

/-- INTERNAL: storing fills the first empty slot of the path. -/
theorem place_cases (table : Table) (h v : ℕ) (hempty : ∃ k, k < size ∧ table (slot size h k) = 0) :
    ∃ k, k < size ∧ table (slot size h k) = 0 ∧ (∀ j, j < k → table (slot size h j) ≠ 0) ∧
      place size table h v = Function.update table (slot size h k) v := by
  unfold place
  cases hfind : (List.range size).find? fun k => table (slot size h k) = 0 with
  | none =>
    obtain ⟨k, hk, hzero⟩ := hempty
    have hnone := List.find?_eq_none.mp hfind k (List.mem_range.mpr hk)
    exact absurd hzero (by simpa using hnone)
  | some k =>
    obtain ⟨hk, hlt, hbefore⟩ := List.find?_range_eq_some.mp hfind
    exact ⟨k, List.mem_range.mp hlt, by simpa using hk, fun j hj => by simpa using hbefore j hj, rfl⟩

/-- INTERNAL: an empty slot was empty before. -/
theorem place_eq_zero (table : Table) (h v s : ℕ) (hv : v ≠ 0) (hs : place size table h v s = 0) :
    table s = 0 := by
  unfold place at hs
  cases hfind : (List.range size).find? fun k => table (slot size h k) = 0 with
  | none => simpa [hfind] using hs
  | some k =>
    simp only [hfind] at hs
    by_cases heq : s = slot size h k
    · rw [heq, Function.update_self] at hs
      exact absurd hs hv
    · rwa [Function.update_of_ne heq] at hs

/-- INTERNAL: **one more number** keeps the table in order. -/
theorem Placed.place (hash : ℕ → ℕ) (n : ℕ) (table : Table) (hsize : 2 < size)
    (h : Placed size hash n table)
    (hempty : ∃ k, k < size ∧ table (slot size (hash n) k) = 0) :
    Placed size hash (n + 1) (place size table (hash n) (n + 1)) := by
  obtain ⟨k, hk, hzero, hbefore, heq⟩ := place_cases size table (hash n) (n + 1) hempty
  have hself : Function.update table (slot size (hash n) k) (n + 1) (slot size (hash n) k) = n + 1 :=
    Function.update_self _ _ _
  have hother : ∀ s, table s ≠ 0 →
      Function.update table (slot size (hash n) k) (n + 1) s = table s := by
    intro s hs
    apply Function.update_of_ne
    rintro rfl
    exact hs hzero
  rw [heq]
  refine ⟨?_, ?_, ?_, ?_⟩
  · intro s
    by_cases hs : s = slot size (hash n) k
    · rw [hs, hself]
    · rw [Function.update_of_ne hs]
      exact Nat.le_succ_of_le (h.le s)
  · intro s hs
    by_cases hsk : s = slot size (hash n) k
    · rw [hsk]
      exact slot_lt size hsize _ _
    · rw [Function.update_of_ne hsk] at hs
      exact h.inside s hs
  · intro s s' hs hss'
    by_cases hsk : s = slot size (hash n) k
    · by_cases hsk' : s' = slot size (hash n) k
      · rw [hsk, hsk']
      · -- the new number is larger than the ones stored before
        rw [hsk, hself, Function.update_of_ne hsk'] at hss'
        have hle := h.le s'
        omega
    · rw [Function.update_of_ne hsk] at hs hss'
      by_cases hsk' : s' = slot size (hash n) k
      · rw [hsk', hself] at hss'
        have hle := h.le s
        omega
      · rw [Function.update_of_ne hsk'] at hss'
        exact h.inj s s' hs hss'
  · intro i hi
    rcases Nat.lt_succ_iff_lt_or_eq.mp hi with hlt | rfl
    · obtain ⟨m, hm, hval, hpath⟩ := h.onPath i hlt
      refine ⟨m, hm, ?_, fun j hj => ?_⟩
      · rw [hother _ (by omega), hval]
      · rw [hother _ (hpath j hj)]
        exact hpath j hj
    · refine ⟨k, hk, hself, fun j hj => ?_⟩
      rw [hother _ (hbefore j hj)]
      exact hbefore j hj

/-- **Everything that was stored can be found**, as long as a slot is left empty. -/
theorem fill_placed (hprime : size.Prime) (hsize : 2 < size) (hash : ℕ → ℕ) (n : ℕ)
    (hempty : ∃ s, s < size ∧ fill size hash n s = 0) : Placed size hash n (fill size hash n) := by
  induction n with
  | zero =>
    refine ⟨fun _ => Nat.le_refl 0, fun s hs => absurd rfl hs, fun s s' hs => absurd rfl hs, ?_⟩
    intro i hi
    omega
  | succ n ih =>
    obtain ⟨s, hs, hzero⟩ := hempty
    have hzero' : fill size hash n s = 0 := place_eq_zero size _ _ _ s (Nat.succ_ne_zero n) hzero
    obtain ⟨k, hk, hslot⟩ := exists_slot_eq size hprime hsize (hash n) s hs
    exact (ih ⟨s, hs, hzero'⟩).place size hash n _ hsize ⟨k, hk, by rw [hslot, hzero']⟩

/-- INTERNAL: **a search ends**: a path leads to an empty slot or to a hit, and everything
before it is occupied and no hit. -/
theorem exists_stop (hprime : size.Prime) (hsize : 2 < size) (table : Table) (h : ℕ)
    (hit : ℕ → Prop) (hempty : ∃ s, s < size ∧ table s = 0) :
    ∃ k, (table (slot size h k) = 0 ∨ hit (table (slot size h k))) ∧
      ∀ j, j < k → table (slot size h j) ≠ 0 ∧ ¬ hit (table (slot size h j)) := by
  classical
  have hex : ∃ k, table (slot size h k) = 0 ∨ hit (table (slot size h k)) := by
    obtain ⟨s, hs, hzero⟩ := hempty
    obtain ⟨k, -, hslot⟩ := exists_slot_eq size hprime hsize h s hs
    exact ⟨k, Or.inl (by rw [hslot, hzero])⟩
  refine ⟨Nat.find hex, Nat.find_spec hex, fun j hj => ?_⟩
  have hmin := Nat.find_min hex hj
  exact ⟨fun h0 => hmin (Or.inl h0), fun h1 => hmin (Or.inr h1)⟩

end

end TTLinux.Lib.DoubleHashing
