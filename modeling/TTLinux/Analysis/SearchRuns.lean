import Mathlib
import TTLinux.Analysis.SearchHeap

/-!
# The tree of `search.h` is a set

What a caller sees of the tree over a whole run: any sequence of `tsearch` and
`tdelete` calls on one root pointer that was null at first. The run is followed by
the same insertions and removals on a set (`setStep`); `RunInv` is what one call
preserves, and `represents_set_of_run` is what holds after every run.
-/

set_option autoImplicit false

namespace TTLinux.Analysis.SearchRuns

open TTLinux.Lib TTLinux.Model.Search TTLinux.Analysis.SearchHeap

variable {K : Type}

/-- A call that may change the tree. -/
inductive Call (K : Type) where
  | tsearch (key : K)
  | tdelete (key : K)

/-- What `calloc` returns, should the `n`-th call of a run ask it for a node. -/
abbrev Allocator (K : Type) := ℕ → Mem K → Option Addr

/-- `calloc` never fails and never hands out an address that is in use. -/
def Allocator.Succeeds (calloc : Allocator K) : Prop :=
  ∀ n m, ∃ a, calloc n m = some a ∧ a ∉ m.heap

/-- The memory after one call. -/
def step (compar : K → K → ℤ) (calloc : Allocator K) (n : ℕ) (m : Mem K) :
    Call K → Option (Mem K)
  | .tsearch key => (tsearch compar key (some .root) (calloc n m) m).map Prod.snd
  | .tdelete key => (tdelete compar key (some .root) m).map Prod.snd

/-- The memory after a sequence of calls, the first of which is the `n`-th. -/
def run (compar : K → K → ℤ) (calloc : Allocator K) : ℕ → Mem K → List (Call K) → Option (Mem K)
  | _, m, [] => some m
  | n, m, c :: cs => (step compar calloc n m c).bind fun m' => run compar calloc (n + 1) m' cs

/-- The same call on a set of keys. -/
def setStep (s : Set K) : Call K → Set K
  | .tsearch key => insert key s
  | .tdelete key => s \ {key}

/-- The memory holds a search tree whose keys are the set `s`. -/
def RunInv (compar : K → K → ℤ) (m : Mem K) (s : Set K) : Prop :=
  ∃ t, Represents m t ∧ t.Ordered compar ∧ {k | k ∈ t.keys} = s

/-- INTERNAL: **one call** returns and keeps the invariant.
SOURCE: dietlibc-0.28-search.patch:9-48, 70-92 -/
theorem step_runInv (compar : K → K → ℤ) (hcmp : StrictTotal compar) (calloc : Allocator K)
    (halloc : calloc.Succeeds) (n : ℕ) (m : Mem K) (s : Set K) (c : Call K)
    (h : RunInv compar m s) :
    ∃ m', step compar calloc n m c = some m' ∧ RunInv compar m' (setStep s c) := by
  obtain ⟨t, hrep, hord, rfl⟩ := h
  cases c with
  | tsearch key =>
    obtain ⟨a, ha, hfresh⟩ := halloc n m
    obtain ⟨p, m', hcall, hrep', -⟩ := tsearch_eq compar key m t a hrep hfresh
    refine ⟨m', by simp [step, ha, hcall], t.insert compar key a, hrep', hord.insert hcmp key a, ?_⟩
    ext x
    rw [Set.mem_ofPred_eq, LTree.mem_keys_insert compar hcmp]
    rfl
  | tdelete key =>
    obtain ⟨p, m', hcall, hrep', -⟩ := tdelete_eq compar key m t hrep
    refine ⟨m', by simp [step, hcall], t.erase compar key, hrep', hord.erase key, ?_⟩
    ext x
    rw [Set.mem_ofPred_eq, LTree.mem_keys_erase hcmp key hord]
    rfl

/-- INTERNAL: **a whole run** returns and keeps the invariant. -/
theorem run_runInv (compar : K → K → ℤ) (hcmp : StrictTotal compar) (calloc : Allocator K)
    (halloc : calloc.Succeeds) (calls : List (Call K)) (n : ℕ) (m : Mem K) (s : Set K)
    (h : RunInv compar m s) :
    ∃ m', run compar calloc n m calls = some m' ∧ RunInv compar m' (calls.foldl setStep s) := by
  induction calls generalizing n m s with
  | nil => exact ⟨m, rfl, h⟩
  | cons c cs ih =>
    obtain ⟨m₁, hstep, h₁⟩ := step_runInv compar hcmp calloc halloc n m s c h
    obtain ⟨m', hrun, h'⟩ := ih (n + 1) m₁ (setStep s c) h₁
    exact ⟨m', by simp [run, hstep, hrun], h'⟩

/-- INTERNAL: `tfind` decides membership in the set the tree stands for.
SOURCE: dietlibc-0.28-search.patch:99-117 -/
theorem tfind_of_ordered (compar : K → K → ℤ) (hcmp : StrictTotal compar) (m : Mem K)
    (t : LTree K) (hrep : Represents m t) (hord : t.Ordered compar) (k : K) :
    (k ∈ t.keys → ∃ a node, tfind compar k (some .root) m = some (some a) ∧
      m.node a = some node ∧ node.key = k) ∧
    (k ∉ t.keys → tfind compar k (some .root) m = some none) := by
  have hfind := tfind_eq compar k m t hrep
  obtain ⟨hin, hout⟩ := LTree.descend_spec hcmp k hord
  constructor
  · intro hk
    obtain ⟨a, l, r, hd⟩ := hin hk
    obtain ⟨-, -, -, hst, -⟩ := seek_from_root compar k m t hrep
    rw [hd] at hfind hst
    exact ⟨a, ⟨k, l.ptr, r.ptr⟩, hfind, hst.1, rfl⟩
  · intro hk
    rw [hfind, hout hk]
    rfl

/-- **Every run of `tsearch` and `tdelete` from a null root pointer** returns, and
leaves a binary search tree with strictly increasing in-order keys whose key set is
the set obtained by the same insertions and removals; `tfind` returns a node that
holds `k` exactly when `k` is in that set, and null otherwise. -/
theorem represents_set_of_run (compar : K → K → ℤ) (hcmp : StrictTotal compar)
    (calloc : Allocator K) (halloc : calloc.Succeeds) (calls : List (Call K)) :
    ∃ m t, run compar calloc 0 Mem.empty calls = some m ∧ Represents m t ∧
      t.keys.Pairwise (fun a b => compar a b < 0) ∧
      {k | k ∈ t.keys} = calls.foldl setStep ∅ ∧
      ∀ k, (k ∈ calls.foldl setStep ∅ → ∃ a node,
          tfind compar k (some .root) m = some (some a) ∧ m.node a = some node ∧ node.key = k) ∧
        (k ∉ calls.foldl setStep ∅ → tfind compar k (some .root) m = some none) := by
  have hempty : RunInv compar (Mem.empty : Mem K) ∅ := by
    refine ⟨.nil, ⟨rfl, trivial, by simp⟩, by simp [LTree.Ordered], ?_⟩
    ext x
    simp
  obtain ⟨m, hrun, t, hrep, hord, hset⟩ :=
    run_runInv compar hcmp calloc halloc calls 0 Mem.empty ∅ hempty
  refine ⟨m, t, hrun, hrep, hord, hset, ?_⟩
  rw [← hset]
  exact tfind_of_ordered compar hcmp m t hrep hord

/-- INTERNAL: the allocator that returns the first address above all those in use. -/
def bump : Allocator K := fun _ m => some (m.heap.keys.sup id + 1)

/-- INTERNAL: an address above all those in use is not in use. -/
theorem bump_succeeds : (bump : Allocator K).Succeeds := by
  intro n m
  refine ⟨_, rfl, ?_⟩
  intro hmem
  have hle : m.heap.keys.sup id + 1 ≤ m.heap.keys.sup id :=
    Finset.le_sup (f := id) (Finmap.mem_keys.mpr hmem)
  exact Nat.not_succ_le_self _ hle

/-- INTERNAL: comparing integers by their difference is a strict total order. -/
theorem strictTotal_sub : StrictTotal fun a b : ℤ => a - b :=
  ⟨fun _ _ => by omega, fun _ _ => by omega, fun _ _ _ => by omega⟩

/-- Three insertions, and the deletion of an inner node whose successor lies deeper. -/
theorem represents_set_of_run_int :
    StrictTotal (fun a b : ℤ => a - b) ∧ (bump : Allocator ℤ).Succeeds ∧
    ∃ m t, run (fun a b : ℤ => a - b) bump 0 Mem.empty
        [.tsearch 4, .tsearch 2, .tsearch 9, .tsearch 7, .tsearch 8, .tdelete 4] = some m ∧
      Represents m t ∧ t.keys.Pairwise (fun a b => a - b < 0) ∧
      {k | k ∈ t.keys} = List.foldl setStep ∅
        [.tsearch 4, .tsearch 2, .tsearch 9, .tsearch 7, .tsearch 8, .tdelete 4] ∧
      tfind (fun a b : ℤ => a - b) 4 (some .root) m = some none := by
  obtain ⟨m, t, hrun, hrep, hord, hset, hfind⟩ := represents_set_of_run (fun a b : ℤ => a - b)
    strictTotal_sub bump bump_succeeds
    [.tsearch 4, .tsearch 2, .tsearch 9, .tsearch 7, .tsearch 8, .tdelete 4]
  exact ⟨strictTotal_sub, bump_succeeds, m, t, hrun, hrep, hord, hset,
    (hfind 4).2 (by simp [setStep])⟩

end TTLinux.Analysis.SearchRuns
