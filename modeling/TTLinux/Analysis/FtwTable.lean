import TTLinux.Analysis.FtwWalk
import TTLinux.Analysis.SearchRuns

/-!
# A file system in a table

A kernel that knows the files and directories of a table and whose calls do not fail
otherwise: the offset of an entry is its number, and a stream is the entries with the
number of the next one.
-/

set_option autoImplicit false

namespace TTLinux.Analysis.FtwTable

open TTLinux.Lib
open TTLinux.Model.Ftw
open TTLinux.Analysis.FtwVisited
open TTLinux.Analysis.FtwWalk

/-- The entries of a directory with these names. -/
def direntsOf (names : List Bytes) : List Dirent := (names.zipIdx 1).map fun (name, i) => ⟨name, i⟩

/-- The kernel for a table. -/
def tableSystem (stat lstat : Bytes → Except ℕ Stat) (names : Bytes → Option (List Bytes)) (stack : Bytes) :
    System Unit (List Dirent × ℕ) where
  stat p w := (stat p, w)
  lstat p w := (lstat p, w)
  opendir p w := ((names p).map fun ns => (direntsOf ns, 0), w)
  fd _ := 3
  readdir dh w := (dh.1[dh.2]?, (dh.1, dh.2 + 1), w)
  seekdir dh off := (dh.1, off.toNat)
  closedir _ w := w
  chdir _ w := (true, w)
  fchdir _ w := (true, w)
  getcwd w := (some [47], w)
  malloc w := (true, w)
  calloc m w := (SearchRuns.bump 0 m, w)
  stack _ := stack

section Table

variable (stat lstat : Bytes → Except ℕ Stat) (names : Bytes → Option (List Bytes)) (stack : Bytes)

/-- INTERNAL: a stream delivers the entries from its position on. -/
theorem yields_drop (es : List Dirent) (n : ℕ) :
    Yields (tableSystem stat lstat names stack) (es, n) (es.drop n) := by
  induction hk : es.length - n generalizing n with
  | zero =>
    rw [List.drop_eq_nil_of_le (by omega)]
    intro w
    refine ⟨(es, n + 1), w, ?_⟩
    show (es[n]?, _, w) = _
    rw [List.getElem?_eq_none (by omega)]
  | succ k ih =>
    have hlt : n < es.length := by omega
    rw [List.drop_eq_getElem_cons hlt]
    intro w
    refine ⟨(es, n + 1), w, ?_, ih (n + 1) (by omega)⟩
    show (es[n]?, _, w) = _
    rw [List.getElem?_eq_getElem hlt]

/-- INTERNAL: a directory of the table can be read, from every entry on. -/
theorem serves_table (p : Bytes) (ns : List Bytes) (h : names p = some ns) :
    Serves (tableSystem stat lstat names stack) p (direntsOf ns) := by
  intro w
  refine ⟨(direntsOf ns, 0), w, ?_, yields_drop stat lstat names stack (direntsOf ns) 0, ?_⟩
  · show ((names p).map _, w) = _
    rw [h]
    rfl
  · intro pre e rest hes
    have hoff : e.dOff = (pre.length + 1 : ℕ) := by
      have hget : (direntsOf ns)[pre.length]? = some e := by rw [hes]; simp
      unfold direntsOf at hget
      rw [List.getElem?_map, List.getElem?_zipIdx] at hget
      obtain ⟨q, hq, rfl⟩ := Option.map_eq_some_iff.mp hget
      obtain ⟨name, -, rfl⟩ := Option.map_eq_some_iff.mp hq
      show ((1 + pre.length : ℕ) : ℤ) = _
      rw [Nat.add_comm]
    have hrest : (direntsOf ns).drop (pre.length + 1) = rest := by
      rw [hes, List.drop_append]
      simp
    have hdrop := yields_drop stat lstat names stack (direntsOf ns) (pre.length + 1)
    rw [hrest] at hdrop
    show Yields _ (direntsOf ns, e.dOff.toNat) rest
    rw [hoff, Int.toNat_natCast]
    exact hdrop

/-- INTERNAL: a system that is given by tables hands out no descriptor zero. -/
theorem neverZero_table : NeverZero (tableSystem stat lstat names stack) := fun _ => Nat.succ_ne_zero 2

/-- INTERNAL: no allocation fails. -/
theorem allocates_table : Allocates (tableSystem stat lstat names stack) where
  malloc := fun w => ⟨w, rfl⟩
  calloc := by
    intro m w
    obtain ⟨a, ha, hfresh⟩ := SearchRuns.bump_succeeds 0 m
    exact ⟨a, w, by show (SearchRuns.bump 0 m, w) = _; rw [ha], hfresh⟩

/-- INTERNAL: no cell in use is given out again. -/
theorem freshCells_table : FreshCells (tableSystem stat lstat names stack) := by
  intro m w a w' h
  obtain ⟨b, hb, hfresh⟩ := SearchRuns.bump_succeeds 0 m
  have hcell : SearchRuns.bump 0 m = some a := congrArg Prod.fst h
  rw [hb] at hcell
  cases hcell
  exact hfresh

end Table

end TTLinux.Analysis.FtwTable
