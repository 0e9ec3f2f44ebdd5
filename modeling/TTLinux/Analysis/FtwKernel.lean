import TTLinux.Analysis.FtwTable
import TTLinux.Lib.Paths

/-!
# Working directories and descriptors

What the kernel below `nftw` makes of paths: every process has a working directory, an open stream belongs to a
directory, and the files do not change during a walk. `kernelOf` is a kernel for given files.
-/

set_option autoImplicit false

namespace TTLinux.Analysis.FtwKernel

open TTLinux.Lib
open TTLinux.Model.Ftw
open TTLinux.Analysis.FtwTable

variable {W D N : Type}

/-! ## What the kernel does -/

/-- The working directory and the directories of open descriptors, and how system calls change them. -/
structure View (sys : System W D) (ns : Namespace N) where
  cwd : W → N
  opened : W → ℕ → Option N
  stat : ∀ p w, cwd (sys.stat p w).2 = cwd w ∧ opened (sys.stat p w).2 = opened w
  lstat : ∀ p w, cwd (sys.lstat p w).2 = cwd w ∧ opened (sys.lstat p w).2 = opened w
  readdir : ∀ dh w, cwd (sys.readdir dh w).2.2 = cwd w ∧ opened (sys.readdir dh w).2.2 = opened w
  malloc : ∀ w, cwd (sys.malloc w).2 = cwd w ∧ opened (sys.malloc w).2 = opened w
  calloc : ∀ m w, cwd (sys.calloc m w).2 = cwd w ∧ opened (sys.calloc m w).2 = opened w
  readdir_fd : ∀ dh w, sys.fd (sys.readdir dh w).2.1 = sys.fd dh
  seekdir_fd : ∀ dh off, sys.fd (sys.seekdir dh off) = sys.fd dh
  opendir_cwd : ∀ p w, cwd (sys.opendir p w).2 = cwd w
  opendir_fails : ∀ p w w', sys.opendir p w = (none, w') → opened w' = opened w
  opendir : ∀ p w dh w', sys.opendir p w = (some dh, w') → opened w (sys.fd dh) = none ∧
    opened w' (sys.fd dh) = ns.locate (cwd w) p ∧ ∀ k, k ≠ sys.fd dh → opened w' k = opened w k
  closedir_cwd : ∀ dh w, cwd (sys.closedir dh w) = cwd w
  closedir : ∀ dh w k, k ≠ sys.fd dh → opened (sys.closedir dh w) k = opened w k
  chdir_opened : ∀ p w, opened (sys.chdir p w).2 = opened w
  chdir_fails : ∀ p w w', sys.chdir p w = (false, w') → cwd w' = cwd w
  chdir : ∀ p w w', sys.chdir p w = (true, w') → ns.locate (cwd w) p = some (cwd w')
  fchdir_opened : ∀ k w, opened (sys.fchdir k w).2 = opened w
  fchdir_fails : ∀ k w w', sys.fchdir k w = (false, w') → cwd w' = cwd w
  fchdir : ∀ k w w', sys.fchdir k w = (true, w') → opened w k = some (cwd w')
  getcwd_same : ∀ w, cwd (sys.getcwd w).2 = cwd w ∧ opened (sys.getcwd w).2 = opened w
  getcwd : ∀ w p w', ns.isDir (cwd w) = true → sys.getcwd w = (some p, w') →
    p.head? = some slash ∧ (0 : UInt8) ∉ p ∧ ns.locate (cwd w) p = some (cwd w)
  dot : ∀ w, ns.isDir (cwd w) = true → ns.locate (cwd w) [46] = some (cwd w)

/-! ## A kernel for given files -/

/-- A process: its working directory and its open descriptors. -/
structure Process (N : Type) where
  cwd : N
  files : List (ℕ × N)
  deriving DecidableEq

/-- A stream: its descriptor, the entries of the directory and the number of the next one. -/
structure Stream where
  fd : ℕ
  entries : List Dirent
  next : ℕ

/-- A descriptor that is not in use, behind those of the standard streams. -/
def Process.fresh (w : Process N) : ℕ := (w.files.map Prod.fst).foldr max 2 + 1

/-- The kernel for given files: what `stat` says, the names in each directory, and the paths of directories. -/
def kernelOf (ns : Namespace N) (attributes : N → Stat) (names : N → List Bytes) (pathOf : N → Bytes) :
    System (Process N) Stream where
  stat p w := ((ns.resolve true w.cwd p).elim (.error ENOENT) fun n => .ok (attributes n), w)
  lstat p w := ((ns.resolve false w.cwd p).elim (.error ENOENT) fun n => .ok (attributes n), w)
  opendir p w :=
    match ns.locate w.cwd p with
    | some n => (some ⟨w.fresh, direntsOf (names n), 0⟩, { w with files := (w.fresh, n) :: w.files })
    | none => (none, w)
  fd dh := dh.fd
  readdir dh w := (dh.entries[dh.next]?, { dh with next := dh.next + 1 }, w)
  seekdir dh off := { dh with next := off.toNat }
  closedir dh w := { w with files := w.files.filter fun f => f.1 ≠ dh.fd }
  chdir p w :=
    match ns.locate w.cwd p with
    | some n => (true, { w with cwd := n })
    | none => (false, w)
  fchdir k w :=
    match w.files.lookup k with
    | some n => (true, { w with cwd := n })
    | none => (false, w)
  getcwd w := (some (pathOf w.cwd), w)
  malloc w := (true, w)
  calloc m w := (SearchRuns.bump 0 m, w)
  stack _ := []

section Kernel

variable (ns : Namespace N) (attributes : N → Stat) (names : N → List Bytes) (pathOf : N → Bytes)

/-- INTERNAL: a fresh descriptor is not in use. -/
theorem lookup_fresh (w : Process N) : w.files.lookup w.fresh = none := by
  rw [List.lookup_eq_none_iff]
  intro f hf
  have hle : ∀ l : List ℕ, f.1 ∈ l → f.1 ≤ l.foldr max 2 := by
    intro l hl
    induction l with
    | nil => cases hl
    | cons a l ih =>
      rw [List.foldr_cons]
      rcases List.mem_cons.mp hl with heq | hmem
      · exact heq ▸ le_max_left _ _
      · exact (ih hmem).trans (le_max_right _ _)
  have hlt : f.1 < w.fresh := Nat.lt_succ_of_le (hle _ (List.mem_map_of_mem hf))
  rw [bne_iff_ne]
  omega

/-- INTERNAL: closing a descriptor does not touch the others. -/
theorem lookup_filter_ne (files : List (ℕ × N)) (k j : ℕ) (h : k ≠ j) :
    (files.filter fun f => f.1 ≠ j).lookup k = files.lookup k := by
  induction files with
  | nil => rfl
  | cons f files ih =>
    obtain ⟨i, n⟩ := f
    by_cases hi : i = j
    · subst hi
      have hne : (k == i) = false := beq_eq_false_iff_ne.mpr h
      rw [List.filter_cons_of_neg (by simp), ih, List.lookup_cons, hne]
    · rw [List.filter_cons_of_pos (by simpa using hi), List.lookup_cons, List.lookup_cons, ih]

/-- INTERNAL: **what the kernel for given files does**, if the paths of directories lead to them. -/
def viewOf (hpath : ∀ n, ns.isDir n = true → (pathOf n).head? = some slash ∧ (0 : UInt8) ∉ pathOf n ∧
      ns.locate n (pathOf n) = some n) (hdot : ∀ n, ns.isDir n = true → ns.locate n [46] = some n) :
    View (kernelOf ns attributes names pathOf) ns where
  cwd w := w.cwd
  opened w k := w.files.lookup k
  stat _ _ := ⟨rfl, rfl⟩
  lstat _ _ := ⟨rfl, rfl⟩
  readdir _ _ := ⟨rfl, rfl⟩
  malloc _ := ⟨rfl, rfl⟩
  calloc _ _ := ⟨rfl, rfl⟩
  readdir_fd _ _ := rfl
  seekdir_fd _ _ := rfl
  opendir_cwd p w := by
    rcases hn : ns.locate w.cwd p with _ | n <;> simp only [kernelOf, hn]
  opendir_fails p w w' h := by
    rcases hn : ns.locate w.cwd p with _ | n
    · simp only [kernelOf, hn] at h
      cases h
      rfl
    · simp only [kernelOf, hn] at h
      cases h
  opendir p w dh w' h := by
    rcases hn : ns.locate w.cwd p with _ | n
    · simp only [kernelOf, hn] at h
      cases h
    · simp only [kernelOf, hn] at h
      cases h
      refine ⟨lookup_fresh w, List.lookup_cons_self, fun k hk => ?_⟩
      have hne : (k == w.fresh) = false := beq_eq_false_iff_ne.mpr hk
      rw [List.lookup_cons, hne]
  closedir_cwd _ _ := rfl
  closedir dh w k hk := lookup_filter_ne w.files k dh.fd hk
  chdir_opened p w := by
    rcases hn : ns.locate w.cwd p with _ | n <;> simp only [kernelOf, hn]
  chdir_fails p w w' h := by
    rcases hn : ns.locate w.cwd p with _ | n
    · simp only [kernelOf, hn] at h
      cases h
      rfl
    · simp only [kernelOf, hn] at h
      cases h
  chdir p w w' h := by
    rcases hn : ns.locate w.cwd p with _ | n
    · simp only [kernelOf, hn] at h
      cases h
    · simp only [kernelOf, hn] at h
      cases h
      rfl
  fchdir_opened k w := by
    rcases hn : w.files.lookup k with _ | n <;> simp only [kernelOf, hn]
  fchdir_fails k w w' h := by
    rcases hn : w.files.lookup k with _ | n
    · simp only [kernelOf, hn] at h
      cases h
      rfl
    · simp only [kernelOf, hn] at h
      cases h
  fchdir k w w' h := by
    rcases hn : w.files.lookup k with _ | n
    · simp only [kernelOf, hn] at h
      cases h
    · simp only [kernelOf, hn] at h
      cases h
      rfl
  getcwd_same _ := ⟨rfl, rfl⟩
  getcwd w p w' hdir h := by
    cases h
    exact hpath w.cwd hdir
  dot w hdir := hdot w.cwd hdir

end Kernel

/-! ## A few files -/

/-- The root, a directory `a`, in it a directory `d`, and in that a file `x`. -/
inductive Place where
  | root
  | a
  | d
  | x
  deriving DecidableEq

/-- The directory above. -/
def Place.above : Place → Place
  | .root => .root
  | .a => .root
  | .d => .a
  | .x => .d

/-- The names in a directory. -/
def Place.names : Place → List Bytes
  | .root => [ascii ['a']]
  | .a => [ascii ['d']]
  | .d => [ascii ['x']]
  | .x => []

/-- The file with the only name in a directory. -/
def Place.below : Place → Place
  | .root => .a
  | .a => .d
  | .d => .x
  | .x => .x

/-- The path of a directory. -/
def Place.path : Place → Bytes
  | .root => ascii ['/']
  | .a => ascii ['/', 'a']
  | .d => ascii ['/', 'a', '/', 'd']
  | .x => []

/-- What `stat` says. -/
def Place.attributes : Place → Stat
  | .root => ⟨⟨1, 1⟩, .dir⟩
  | .a => ⟨⟨2, 1⟩, .dir⟩
  | .d => ⟨⟨3, 1⟩, .dir⟩
  | .x => ⟨⟨4, 1⟩, .other⟩

def places : Namespace Place where
  root := .root
  entry n name :=
    if n = .x then none
    else if name = ascii ['.'] then some n
    else if name = ascii ['.', '.'] then some n.above
    else if name ∈ n.names then some n.below
    else none
  follow n := some n
  isDir n := decide (n ≠ .x)

/-- The kernel for these files. -/
def placesKernel : System (Process Place) Stream := kernelOf places Place.attributes Place.names Place.path

/-- What this kernel does. -/
def placesView : View placesKernel places :=
  viewOf places Place.attributes Place.names Place.path
    (by
      intro n hn
      cases n with
      | root => exact ⟨by decide, by decide, by decide +kernel⟩
      | a => exact ⟨by decide, by decide, by decide +kernel⟩
      | d => exact ⟨by decide, by decide, by decide +kernel⟩
      | x => cases hn)
    (by
      intro n hn
      cases n with
      | root => decide +kernel
      | a => decide +kernel
      | d => decide +kernel
      | x => cases hn)

end TTLinux.Analysis.FtwKernel
