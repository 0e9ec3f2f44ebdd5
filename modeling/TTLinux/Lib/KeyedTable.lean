import Mathlib.Data.List.Nodup

/-!
# Tables with a primary key

A table is a list of rows of which no two have the same key, so that it is a partial function
from keys to values. Each statement on a table is described by what it does to that function.
-/

set_option autoImplicit false

namespace TTLinux.Lib

/-- Rows under pairwise different keys. -/
structure KeyedTable (K V : Type) where
  rows : List (K × V)
  keyed : (rows.map Prod.fst).Nodup

namespace KeyedTable

variable {K V : Type} [DecidableEq K]

/-- The table without rows. -/
def empty : KeyedTable K V := ⟨[], List.nodup_nil⟩

/-- The value under a key: `SELECT` with a condition on the key. -/
def lookup (t : KeyedTable K V) (k : K) : Option V := (t.rows.find? fun r => r.1 = k).map Prod.snd

/-- `DELETE` of the rows that meet a condition. -/
def deleteWhere (t : KeyedTable K V) (p : K → V → Bool) : KeyedTable K V where
  rows := t.rows.filter fun r => !p r.1 r.2
  keyed := t.keyed.sublist (List.filter_sublist.map Prod.fst)

/-- `UPDATE` of the row under a key. -/
def modify (t : KeyedTable K V) (k : K) (f : V → V) : KeyedTable K V where
  rows := t.rows.map fun r => (r.1, if r.1 = k then f r.2 else r.2)
  keyed := by
    rw [List.map_map]
    exact t.keyed

/-- `INSERT` of a row, which fails if there is a row under the key. -/
def insert (t : KeyedTable K V) (k : K) (v : V) : Option (KeyedTable K V) :=
  if h : k ∈ t.rows.map Prod.fst then none
  else
    some
      { rows := t.rows ++ [(k, v)]
        keyed := by
          rw [List.map_append, List.nodup_append]
          refine ⟨t.keyed, List.nodup_singleton k, fun a ha b hb hab => h ?_⟩
          obtain rfl : b = k := by simpa using hb
          exact hab ▸ ha }

/-! ## The table as a function -/

/-- INTERNAL: **the value under a key** is the one that stands beside it. -/
theorem lookup_eq_some (t : KeyedTable K V) (k : K) (v : V) : t.lookup k = some v ↔ (k, v) ∈ t.rows := by
  constructor
  · intro h
    obtain ⟨r, hr, rfl⟩ := Option.map_eq_some_iff.mp h
    have hkey : r.1 = k := by simpa using List.find?_some hr
    exact hkey ▸ List.mem_of_find?_eq_some hr
  · intro hmem
    cases hfind : t.rows.find? fun r => r.1 = k with
    | none =>
      have hno := List.find?_eq_none.mp hfind (k, v) hmem
      simp at hno
    | some r =>
      have hkey : r.1 = k := by simpa using List.find?_some hfind
      have heq : r = (k, v) :=
        List.inj_on_of_nodup_map t.keyed (List.mem_of_find?_eq_some hfind) hmem hkey
      simp [lookup, hfind, heq]

/-- INTERNAL: a key is not found if no row has it. -/
theorem lookup_eq_none (t : KeyedTable K V) (k : K) : t.lookup k = none ↔ k ∉ t.rows.map Prod.fst := by
  constructor
  · intro h hk
    obtain ⟨⟨k', v⟩, hmem, rfl⟩ := List.mem_map.mp hk
    rw [(lookup_eq_some t k' v).mpr hmem] at h
    contradiction
  · intro hk
    cases hl : t.lookup k with
    | none => rfl
    | some v => exact absurd (List.mem_map.mpr ⟨(k, v), (lookup_eq_some t k v).mp hl, rfl⟩) hk

/-- INTERNAL: and in the empty table no key is. -/
@[simp] theorem lookup_empty (k : K) : (empty : KeyedTable K V).lookup k = none := rfl

/-- INTERNAL: two tables that hold the same values under a key. -/
theorem lookup_congr (t t' : KeyedTable K V) (k k' : K) (h : ∀ v, (k, v) ∈ t.rows ↔ (k', v) ∈ t'.rows) :
    t.lookup k = t'.lookup k' := by
  apply Option.ext
  intro v
  rw [lookup_eq_some, lookup_eq_some]
  exact h v

/-- INTERNAL: a deletion keeps the values that do not meet its condition. -/
theorem lookup_deleteWhere (t : KeyedTable K V) (p : K → V → Bool) (k : K) :
    (t.deleteWhere p).lookup k = (t.lookup k).filter fun v => !p k v := by
  apply Option.ext
  intro v
  rw [lookup_eq_some, Option.filter_eq_some_iff, lookup_eq_some]
  exact List.mem_filter

/-- INTERNAL: an update changes the value under its key. -/
theorem lookup_modify (t : KeyedTable K V) (k k' : K) (f : V → V) :
    (t.modify k f).lookup k' = if k' = k then (t.lookup k').map f else t.lookup k' := by
  apply Option.ext
  intro v
  rw [lookup_eq_some]
  split_ifs with hk
  · subst hk
    rw [Option.map_eq_some_iff]
    constructor
    · intro h
      obtain ⟨⟨k, w⟩, hmem, heq⟩ := List.mem_map.mp h
      obtain ⟨rfl, rfl⟩ := Prod.mk.inj heq
      exact ⟨w, (lookup_eq_some t k w).mpr hmem, by simp⟩
    · rintro ⟨w, hw, rfl⟩
      exact List.mem_map.mpr ⟨(k', w), (lookup_eq_some t k' w).mp hw, by simp⟩
  · rw [lookup_eq_some]
    constructor
    · intro h
      obtain ⟨⟨k'', w⟩, hmem, heq⟩ := List.mem_map.mp h
      obtain ⟨rfl, rfl⟩ := Prod.mk.inj heq
      simpa [hk] using hmem
    · intro hmem
      exact List.mem_map.mpr ⟨(k', v), hmem, by simp [hk]⟩

/-- INTERNAL: an insertion fails exactly if there is a value under the key. -/
theorem insert_eq_none (t : KeyedTable K V) (k : K) (v : V) : t.insert k v = none ↔ (t.lookup k).isSome := by
  rw [Option.isSome_iff_ne_none, ne_eq, lookup_eq_none, not_not, insert]
  split_ifs with h <;> simp [h]

/-- INTERNAL: an insertion sets the value under its key. -/
theorem lookup_insert (t t' : KeyedTable K V) (k k' : K) (v : V) (h : t.insert k v = some t') :
    t'.lookup k' = if k' = k then some v else t.lookup k' := by
  rw [insert] at h
  split_ifs at h with hfresh
  obtain rfl := Option.some.inj h
  split_ifs with hk
  · subst hk
    rw [lookup_eq_some]
    simp
  · apply lookup_congr
    intro w
    simp [hk]

end KeyedTable

end TTLinux.Lib
