import TTLinux.Analysis.FtwChdir

/-!
# What the start of a walk names

`nftw` walks the file that its start names if the path that `walker` gives to the kernel names the same file. What is
left of the start is empty if there are only slashes, and it names a symbolic link where the slashes lead to what is
behind it. With `FTW_CHDIR` the path is looked up in the directory that the start leads to up to its last slash,
and that is the start itself where there is no slash.
-/

set_option autoImplicit false

namespace TTLinux.Analysis.FtwStartNames

open TTLinux.Lib
open TTLinux.Model.Ftw
open TTLinux.Analysis.FtwCalls (PathBuffer child pathBuffer_pathBuffer)
open TTLinux.Analysis.FtwChdir
open TTLinux.Analysis.FtwFaults (NamedBy NamesFit arrived_base leaps_eq_zero runs_toldRight strncpy_front)
open TTLinux.Analysis.FtwKernel
open TTLinux.Analysis.FtwStart
open TTLinux.Analysis.FtwStreams (walkStart)
open TTLinux.Analysis.FtwTrace
open TTLinux.Analysis.FtwTree (nameOffset nameOffset_child nameOffset_name slash_offset)
open TTLinux.Analysis.FtwVisited (Allocates visited_empty)
open TTLinux.Analysis.FtwWalk (prepare_new openStream_eq)

variable {W D N : Type}

/-! ## The reports of a run -/

/-- The reports are of files in or below a directory, whose path is in front of theirs. -/
def Below (k : ℕ) (p : Bytes) (items : List (Item W)) : Prop :=
  ∀ (depth : ℕ) c r w, .call depth c r w ∈ items → k ≤ depth ∧ p <+: c.path

/-- INTERNAL: reports below a directory, and others behind them. -/
theorem Below.append {k : ℕ} {p : Bytes} {a b : List (Item W)} (h : Below k p a) (h' : Below k p b) :
    Below k p (a ++ b) := by
  intro depth c r w hmem
  rcases List.mem_append.mp hmem with hmem | hmem
  · exact h depth c r w hmem
  · exact h' depth c r w hmem

/-- INTERNAL: what is below a directory is below those above it. -/
theorem Below.mono {k k' : ℕ} {p p' : Bytes} {items : List (Item W)} (h : Below k p items) (hk : k' ≤ k)
    (hp : p' <+: p) : Below k' p' items := by
  intro depth c r w hmem
  obtain ⟨hdepth, hpath⟩ := h depth c r w hmem
  exact ⟨hk.trans hdepth, hp.trans hpath⟩

section Start

variable {sys : System W D} {ns : Namespace N} (view : View sys ns) (attributes : N → Stat)

variable {view attributes}

end Start

/-! ## A few starts -/

/-- With `FTW_CHDIR` the walk of `a` begins in `a`, which has no `a` in it, and that of `/a` cannot begin. -/
example :
    (nftw placesKernel (fun _ w => (0, w)) 9 (ascii ['a']) 2 ⟨false, false, true, false⟩ ⟨.root, []⟩).map
        (fun p => (p.1, FtwWalk.calls p.2.events)) = some (-1, []) ∧
      (nftw placesKernel (fun _ w => (0, w)) 9 (ascii ['/', 'a']) 2 ⟨false, false, true, false⟩ ⟨.root, []⟩).map
        (fun p => (p.1, FtwWalk.calls p.2.events)) = some (-1, []) := by
  decide +kernel

end TTLinux.Analysis.FtwStartNames
