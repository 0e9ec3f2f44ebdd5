import TTLinux.Analysis.FtwKernel
import TTLinux.Analysis.FtwTrace
import TTLinux.Analysis.FtwTree

/-!
# The start of a walk

`nftw` cuts the slashes off the end of the start and looks for its last component, and calls `walker` with what is
left.
-/

set_option autoImplicit false

namespace TTLinux.Analysis.FtwStart

open TTLinux.Lib
open TTLinux.Model.Ftw
open TTLinux.Analysis.FtwKernel
open TTLinux.Analysis.FtwStreams (walkStart)
open TTLinux.Analysis.FtwTrace
open TTLinux.Analysis.FtwTree

variable {W D N : Type}

/-- The start without the slashes at its end. -/
def trimmed (dir : Bytes) : Bytes := dir.rdropWhile (· = slash)

/-- INTERNAL: what is left has no slash at its end. -/
theorem trimmed_getLast (dir : Bytes) : (trimmed dir).getLast? ≠ some slash := by
  intro hlast
  have hne : trimmed dir ≠ [] := by
    rintro hnil
    rw [hnil] at hlast
    cases hlast
  have hnot := List.rdropWhile_last_not (· = slash) dir hne
  rw [List.getLast?_eq_some_getLast hne] at hlast
  exact hnot (decide_eq_true (Option.some.inj hlast))

/-- INTERNAL: **the loop that cuts off the slashes**: the string in the buffer, and `len`.
SOURCE: dietlibc-ftw.patch:289-291 -/
theorem trimSlashes_trimmed (dir : Bytes) (k : ℕ) :
    ∃ m, trimSlashes (dir ++ List.replicate (k + 1) 0) dir.length =
      (trimmed dir ++ List.replicate (m + 1) 0, (trimmed dir).length - 1) := by
  induction dir using List.reverseRecOn generalizing k with
  | nil => exact ⟨k, rfl⟩
  | append_singleton init b ih =>
    rw [List.length_append, List.length_singleton, trimSlashes]
    have hget : (init ++ [b] ++ List.replicate (k + 1) 0)[init.length]? = some b := by simp
    rw [hget]
    by_cases hb : b = slash
    · have hcut : trimmed (init ++ [b]) = trimmed init := by
        unfold trimmed
        exact List.rdropWhile_concat_pos _ init b (decide_eq_true hb)
      have hset : (init ++ [b] ++ List.replicate (k + 1) 0).set init.length 0 =
          init ++ List.replicate (k + 1 + 1) 0 := by
        rw [List.append_assoc, List.set_append_right _ _ (Nat.le_refl _), Nat.sub_self]
        rfl
      obtain ⟨m, hm⟩ := ih (k + 1)
      have hcond : some b = some 47 := congrArg some hb
      refine ⟨m, ?_⟩
      rw [if_pos hcond, hset, hm, hcut]
    · have hkeep : trimmed (init ++ [b]) = init ++ [b] := by
        unfold trimmed
        exact List.rdropWhile_concat_neg _ init b (by simpa using hb)
      have hcond : some b ≠ some 47 := fun h => hb (Option.some.inj h)
      refine ⟨k, ?_⟩
      rw [if_neg hcond, hkeep, List.length_append, List.length_singleton,
        Nat.add_sub_cancel]

/-- INTERNAL: a string without its slashes is still one. -/
theorem zero_notMem_trimmed (dir : Bytes) (hzero : (0 : UInt8) ∉ dir) : (0 : UInt8) ∉ trimmed dir :=
  fun hmem => hzero ((List.rdropWhile_prefix _ dir).mem hmem)

/-- INTERNAL: the string that the loop leaves.
SOURCE: dietlibc-ftw.patch:285-291 -/
theorem trimSlashes_cstr (dir : Bytes) (hzero : (0 : UInt8) ∉ dir) :
    ∃ buf, trimSlashes (dir ++ [0]) dir.length = (buf, (trimmed dir).length - 1) ∧ cstr buf = trimmed dir := by
  obtain ⟨m, hm⟩ := trimSlashes_trimmed dir 0
  refine ⟨_, hm, ?_⟩
  rw [List.replicate_succ, cstr_append, cstr_eq_self _ (zero_notMem_trimmed dir hzero)]

/-- INTERNAL: the path that `walker` is called with, and the offset of its last component.
SOURCE: dietlibc-ftw.patch:285-341 -/
theorem walkStart_trimmed (sys : System W D) (dir : Bytes) (hzero : (0 : UInt8) ∉ dir) (flags : Flags) (w : W)
    (conf : Conf) (path : Bytes) (s : State W) (h : walkStart sys dir flags w = some (conf, path, s)) :
    path = trimmed dir ∧ s.base = nameOffset path := by
  obtain ⟨buf, hbuf, hcstr⟩ := trimSlashes_cstr dir hzero
  have hbase := slash_offset (trimmed dir) (trimmed_getLast dir)
  unfold walkStart at h
  simp only [hbuf, hcstr] at h
  generalize (if (trimmed dir).length - 1 ≠ 0 then strrchr (trimmed dir) else none) = last at h hbase
  rcases hstat : sys.stat dir w with ⟨_ | st, w₁⟩
  · rw [hstat] at h
    cases h
  rw [hstat] at h
  dsimp only at h
  by_cases hchdir : flags.chdir = true
  · rw [if_pos hchdir] at h
    rcases hsave : saveCwd sys (trimmed dir) last w₁ with ⟨_ | ⟨cwd, fullpath⟩, w₂⟩
    · rw [hsave] at h
      cases h
    · rw [hsave] at h
      cases h
      exact ⟨rfl, hbase⟩
  · rw [if_neg hchdir] at h
    cases h
    exact ⟨rfl, hbase⟩

/-- INTERNAL: `nftw` without `FTW_CHDIR` is a call of `walker`, if the start is there.
SOURCE: dietlibc-ftw.patch:271-358 -/
theorem nftw_eq_walker (sys : System W D) (fn : Callback W) (fuel : ℕ) (dir : Bytes) (hzero : (0 : UInt8) ∉ dir)
    (nopenfd : ℤ) (flags : Flags) (hchdir : flags.chdir = false) (w : W) (st : Stat) (w₁ : W)
    (hstat : sys.stat dir w = (.ok st, w₁)) :
    nftw sys fn fuel dir nopenfd flags w =
      (walker sys fn ⟨flags, if flags.mount then st.node.dev else 0⟩ fuel (trimmed dir) nopenfd []
        ⟨w₁, 0, nameOffset (trimmed dir), .empty, [], []⟩).bind fun p => nftw.destroy p.1 p.2 := by
  obtain ⟨buf, hbuf, hcstr⟩ := trimSlashes_cstr dir hzero
  have hbase := slash_offset (trimmed dir) (trimmed_getLast dir)
  unfold nftw
  simp only [hbuf, hcstr, hstat, hchdir, Bool.false_eq_true, if_false, hbase]
  rfl

end TTLinux.Analysis.FtwStart
