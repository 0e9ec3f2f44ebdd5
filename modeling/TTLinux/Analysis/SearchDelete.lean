import TTLinux.Analysis.SearchHeap

/-!
# What `tdelete` returns

`tdelete` remembers the node above the slot it looks at, and returns that node once the one in the slot is freed.
The slot of the root has no node above it: there the remembered node is the root itself.
-/

set_option autoImplicit false

namespace TTLinux.Analysis.SearchDelete

open TTLinux.Lib
open TTLinux.Model.Search
open TTLinux.Analysis.SearchHeap

variable {K : Type}

/-- **The node above a position**: one of its links leads to the node `a`, and after the deletion it has the same
key, and the same link on the other side. -/
def KeepsParent (m m' : Mem K) (q a : Addr) : Prop :=
  ∃ n n', m.node q = some n ∧ m'.node q = some n' ∧ n'.key = n.key ∧
    (n.left = some a ∧ n'.right = n.right ∨ n.right = some a ∧ n'.left = n.left)

/-- INTERNAL: the node that owns the hole of a context has another link on one side only, whatever is in the hole. -/
theorem ctxParent_keeps (m m' : Mem K) (c : Ctx K) (top a : Addr) (p : Option Addr) (hc : CtxStored m.heap c (some a))
    (hc' : CtxStored m'.heap c p) (htop : ctxSlot c ≠ .root) : KeepsParent m m' (ctxParent top c) a := by
  cases c with
  | top => exact absurd rfl htop
  | left b k r c => exact ⟨⟨k, some a, r.ptr⟩, ⟨k, p, r.ptr⟩, hc.1, hc'.1, rfl, Or.inl ⟨rfl, rfl⟩⟩
  | right b k l c => exact ⟨⟨k, l.ptr, some a⟩, ⟨k, l.ptr, p⟩, hc.1, hc'.1, rfl, Or.inr ⟨rfl, rfl⟩⟩

/-- INTERNAL: the node that owns the hole is a node of the context. -/
theorem ctxParent_mem_addrs (c : Ctx K) (top : Addr) (htop : ctxSlot c ≠ .root) : ctxParent top c ∈ c.addrs := by
  cases c with
  | top => exact absurd rfl htop
  | left b k r c => simp [ctxParent, Ctx.addrs, Ctx.after]
  | right b k l c => simp [ctxParent, Ctx.addrs, Ctx.before]

/-- INTERNAL: the root of a tree around a hole is a node of the context. -/
theorem ptr_zip_mem_addrs (c : Ctx K) (t : LTree K) (htop : ctxSlot c ≠ .root) :
    ∃ b ∈ c.addrs, (c.zip t).ptr = some b := by
  induction c generalizing t with
  | top => exact absurd rfl htop
  | left b k r c ih =>
    cases hc : c with
    | top => exact ⟨b, by simp [Ctx.addrs, Ctx.after], rfl⟩
    | _ =>
      obtain ⟨d, hd, hptr⟩ := ih (.node b k t r) (by simp [hc, ctxSlot])
      rw [hc] at hd hptr
      exact ⟨d, Ctx.addrs_subset_left b k r _ hd, hptr⟩
  | right b k l c ih =>
    cases hc : c with
    | top => exact ⟨b, by simp [Ctx.addrs, Ctx.before], rfl⟩
    | _ =>
      obtain ⟨d, hd, hptr⟩ := ih (.node b k l t) (by simp [hc, ctxSlot])
      rw [hc] at hd hptr
      exact ⟨d, Ctx.addrs_subset_right b k l _ hd, hptr⟩

/-- **What `tdelete` returns**: null exactly for a key that is not in the tree. Else the node that holds the key is
freed, and what is returned was a node of the tree: for the key of the root the freed node itself, for any other key
the node above it, which is still in the tree and keeps its key.
SOURCE: dietlibc-0.28-search.patch:9-48 -/
theorem tdelete_returns (compar : K → K → ℤ) (hcmp : StrictTotal compar) (m : Mem K) (t : LTree K)
    (hm : Represents m t) (ht : t.Ordered compar) (key : K) :
    ∃ p m', tdelete compar key (some .root) m = some (p, m') ∧ Represents m' (t.erase compar key) ∧
      (p = none ↔ key ∉ t.keys) ∧
      ∀ q, p = some q → q ∈ t.addrs ∧ ∃ a, (a, key) ∈ t.cells ∧ a ∉ m'.heap ∧ (m.root = some a → q = a) ∧
        (m.root ≠ some a → q ≠ a ∧ q ∈ (t.erase compar key).addrs ∧ KeepsParent m m' q a) := by
  obtain ⟨hin, hout⟩ := LTree.descend_spec hcmp key ht
  by_cases hkey : key ∈ t.keys
  · obtain ⟨a, l, r, hsub⟩ := hin hkey
    obtain ⟨top, htop⟩ : ∃ top, t.ptr = some top := by
      cases t with
      | nil => cases hsub
      | node top k l r => exact ⟨top, rfl⟩
    obtain ⟨m', hrun, hrep, hfreed⟩ := tdelete_found compar key m t hm top htop a key l r hsub
    refine ⟨_, m', hrun, hrep, by simp [hkey], ?_⟩
    intro q hq
    cases hq
    have hseek : (Ctx.seek compar key .top t).2 = .node a key l r := by rw [Ctx.seek_snd, hsub]
    generalize hc : (Ctx.seek compar key .top t).1 = c
    have hzip : c.zip (.node a key l r) = t := by
      rw [← hc, ← hseek]
      exact Ctx.zip_seek compar key .top t
    have herase : t.erase compar key = c.zip (l.splice r) := by
      rw [← hc]
      exact Ctx.erase_eq_zip compar key .top t a key l r hseek
    have hcell : (a, key) ∈ t.cells := by
      rw [← hzip, Ctx.cells_zip]
      simp
    have hstored := hm.stored
    rw [← hzip, stored_zip_iff] at hstored
    have hstored' := hrep.stored
    rw [herase, stored_zip_iff] at hstored'
    by_cases hslot : ctxSlot c = .root
    · -- the key of the root: the remembered node is the root itself
      have hroot : t.ptr = some a := by
        cases c with
        | top => exact congrArg LTree.ptr hzip.symm
        | left _ _ _ _ => cases hslot
        | right _ _ _ _ => cases hslot
      have hparent : ctxParent top c = a := by
        cases c with
        | top => exact Option.some.inj (htop.symm.trans hroot)
        | left _ _ _ _ => cases hslot
        | right _ _ _ _ => cases hslot
      rw [hparent]
      refine ⟨List.mem_map_of_mem hcell, a, hcell, hfreed, fun _ => rfl, fun hne => ?_⟩
      exact absurd (hm.root.trans hroot) hne
    · have hmem : ctxParent top c ∈ c.addrs := ctxParent_mem_addrs c top hslot
      have hnodup := hm.nodup
      rw [← hzip] at hnodup
      have hdisjoint := ((Ctx.nodup_addrs_zip c _).mp hnodup).2.2
      have hne : ctxParent top c ≠ a := by
        intro heq
        rw [heq] at hmem
        exact hdisjoint a (by simp) hmem
      have hroot : m.root ≠ some a := by
        obtain ⟨b, hb, hptr⟩ := ptr_zip_mem_addrs c (.node a key l r) hslot
        rw [hm.root, ← hzip, hptr]
        intro heq
        cases heq
        exact hdisjoint a (by simp) hb
      refine ⟨?_, a, hcell, hfreed, fun h => absurd h hroot, fun _ => ⟨hne, ?_, ?_⟩⟩
      · rw [← hzip]
        exact (Ctx.mem_addrs_zip c _ _).mpr (Or.inl hmem)
      · rw [herase]
        exact (Ctx.mem_addrs_zip c _ _).mpr (Or.inl hmem)
      · exact ctxParent_keeps m m' c top a _ hstored.1 hstored'.1 hslot
  · refine ⟨none, m, tdelete_missing compar key m t hm (hout hkey), ?_, by simp [hkey], nofun⟩
    rw [Ctx.erase_eq_self compar key t (hout hkey)]
    exact hm

/-- A root with two children. -/
def forkTree : LTree ℕ := .node 7 5 (.node 8 2 .nil (.node 9 3 .nil .nil)) (.node 10 6 .nil .nil)

/-- The memory that spells it out. -/
def forkMem : Mem ℕ :=
  ⟨some 7, (((Finmap.singleton 7 ⟨5, some 8, some 10⟩).insert 8 ⟨2, none, some 9⟩).insert 9 ⟨3, none, none⟩).insert 10
    ⟨6, none, none⟩⟩

/-- INTERNAL: the memory of the example represents its tree. -/
theorem represents_fork : Represents forkMem forkTree := by
  refine ⟨rfl, ⟨?_, ⟨?_, trivial, ?_, trivial, trivial⟩, ?_, trivial, trivial⟩, by decide⟩
  · rfl
  · rfl
  · rfl
  · rfl

/-- INTERNAL: comparing numbers by their difference is a strict total order. -/
theorem strictTotal_nat : StrictTotal fun a b : ℕ => (a : ℤ) - b :=
  ⟨fun _ _ => by omega, fun _ _ => by omega, fun _ _ _ => by omega⟩

/-- **For the key of the root `tdelete` returns the node that it has freed.** -/
theorem tdelete_root_freed :
    Represents forkMem forkTree ∧ forkTree.Ordered (fun a b : ℕ => (a : ℤ) - b) ∧ 5 ∈ forkTree.keys ∧
      ∃ m', tdelete (fun a b : ℕ => (a : ℤ) - b) 5 (some .root) forkMem = some (some 7, m') ∧ 7 ∉ m'.heap := by
  obtain ⟨m', hrun, -, hfreed⟩ := tdelete_found (fun a b : ℕ => (a : ℤ) - b) 5 forkMem forkTree represents_fork 7 rfl 7 5
    _ _ rfl
  exact ⟨represents_fork, by unfold LTree.Ordered; decide, by decide, m', hrun, hfreed⟩

/-- **For another key it returns the node above**: that of 3 is the one that holds 2. -/
theorem tdelete_returns_parent :
    ∃ p m' a, tdelete (fun a b : ℕ => (a : ℤ) - b) 3 (some .root) forkMem = some (some p, m') ∧
      (a, 3) ∈ forkTree.cells ∧ p ≠ a ∧ a ∉ m'.heap ∧ KeepsParent forkMem m' p a := by
  obtain ⟨p, m', hrun, -, hnone, hnode⟩ := tdelete_returns (fun a b : ℕ => (a : ℤ) - b) strictTotal_nat forkMem forkTree
    represents_fork (by unfold LTree.Ordered; decide) 3
  have hmem : 3 ∈ forkTree.keys := by decide
  cases p with
  | none => exact absurd hmem (hnone.mp rfl)
  | some p =>
    obtain ⟨-, a, hcell, hfreed, -, hother⟩ := hnode p rfl
    have hroot : forkMem.root ≠ some a := by
      intro heq
      cases heq
      exact absurd hcell (by decide)
    obtain ⟨hne, -, hkeeps⟩ := hother hroot
    exact ⟨p, m', a, hrun, hcell, hne, hfreed, hkeeps⟩

end TTLinux.Analysis.SearchDelete
