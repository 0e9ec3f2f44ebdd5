import TTLinux.Analysis.FtwTable
import TTLinux.Analysis.FtwTrace

/-!
# Failures on the way

What a failure at one of the jumps to `error` in `walker` does to the result of `nftw` and to the level and the
base that later callbacks get. The label returns what `retval` holds, and it lies behind the lines that restore
the two fields.
-/

set_option autoImplicit false

namespace TTLinux.Analysis.FtwFaults

open TTLinux.Lib
open TTLinux.Model.Ftw
open TTLinux.Analysis.FtwCalls
open TTLinux.Analysis.FtwTable
open TTLinux.Analysis.FtwTrace
open TTLinux.Analysis.FtwVisited (destroy_eq)
open TTLinux.Analysis.FtwWalk

variable {W D : Type}

/-! ## The value that is returned -/

/-- A callback returns another value than zero, or a file has vanished. -/
def Stops (items : List (Item W)) : Prop := .gone ∈ items ∨ ∃ depth c r w, .call depth c r w ∈ items ∧ r ≠ 0

/-- INTERNAL: the walk is stopped in one of two parts. -/
theorem stops_append (a b : List (Item W)) : Stops (a ++ b) ↔ Stops a ∨ Stops b := by
  simp only [Stops, List.mem_append, or_and_right, exists_or]
  exact or_or_or_comm

/-- INTERNAL: no item stops the walk. -/
theorem not_stops_nil : ¬Stops ([] : List (Item W)) := by simp [Stops]

/-- INTERNAL: a failure does not. -/
theorem not_stops_fault (f : Fault) : ¬Stops ([.fault f] : List (Item W)) := by simp [Stops]

/-- INTERNAL: entering a directory does not. -/
theorem not_stops_into (depth : ℕ) : ¬Stops ([.into depth] : List (Item W)) := by simp [Stops]

/-- INTERNAL: a callback stops it by its value. -/
theorem stops_call (depth : ℕ) (c : Call) (r : ℤ) (w : W) : Stops [.call depth c r w] ↔ r ≠ 0 := by simp [Stops]

/-- The value of `retval` at the end. -/
def endValue : LoopEnd D → ℤ
  | .done _ retval => retval
  | .error => 0

/-- The value of `retval` at the end of a run. -/
def value : Outcome D → ℤ
  | .returned r => r
  | .ended e => endValue e

/-- INTERNAL: the callback before the entries decides whether the walk goes on. -/
theorem before_value {fn : Callback W} {flags : Flags} {depth : ℕ} {dir : Bytes} {st : Stat} {type : FtwType}
    {s : State W} {pre : List (Item W)} {r : ℤ} {s₁ : State W}
    (h : before fn flags depth dir st type s = .give pre (r, s₁)) : r ≠ 0 ↔ Stops pre := by
  rcases before_cases h with ⟨-, rfl, rfl, -⟩ | ⟨-, rfl, -⟩
  · simp [not_stops_nil]
  · exact (stops_call _ _ r _).symm

/-- INTERNAL: the value that a call ends with. -/
theorem finish_value {sys : System W D} {fn : Callback W} {flags : Flags} {depth : ℕ} {dir : Bytes} {st : Stat}
    {type : FtwType} {dh : Option D} {retval : ℤ} {s : State W} {post : List (Item W)} {r : ℤ} {s₁ : State W}
    (h : finish sys fn flags depth dir st type dh retval s = .give post (r, s₁)) :
    r ≠ 0 ↔ retval ≠ 0 ∨ Stops post := by
  rcases finish_cases h with ⟨rfl, rfl, -⟩ | ⟨rfl, type', s₂, rfl, -⟩
  · simp [not_stops_nil]
  · simp [stops_call]

/-- INTERNAL: the value after the loop of a directory. -/
theorem leaveDir_value {sys : System W D} {fn : Callback W} {flags : Flags} {dir : Bytes} {st : Stat}
    {type : FtwType} {last : List Data} {base : ℕ} {e : LoopEnd D} {s : State W} {post : List (Item W)} {r : ℤ}
    {s₁ : State W} (h : leaveDir sys fn flags dir st type last base (e, s) = .give post (r, s₁)) :
    r ≠ 0 ↔ endValue e ≠ 0 ∨ Stops post := by
  rcases leaveDir_cases h with ⟨rfl, rfl, rfl, -⟩ | ⟨dh, s₂, rfl, -, rfl, -⟩ | ⟨dh, retval, s₂, rfl, -, hfinish⟩
  · simp [endValue, not_stops_nil]
  · simp [endValue, not_stops_fault]
  · exact finish_value hfinish

/-- INTERNAL: **a run returns zero unless a callback does not or a file has vanished**, whatever fails.
SOURCE: dietlibc-ftw.patch:101-269 -/
theorem value_iff_stops {sys : System W D} {fn : Callback W} {conf : Conf} {piece : Piece D} {s s' : State W}
    {items : List (Item W)} {out : Outcome D} (h : Runs sys fn conf piece s items out s') : value out ≠ 0 ↔ Stops items := by
  induction h with
  | gone _ => simp [value, Stops]
  | visited _ => simp [value, not_stops_nil]
  | failed _ => simp [value, not_stops_fault]
  | refused _ _ => simp [value, not_stops_nil]
  | leaf _ _ hbefore hfinish =>
    rw [stops_append, ← before_value hbefore]
    exact finish_value hfinish
  | stopped _ _ hbefore _ hfinish =>
    rw [stops_append, ← before_value hbefore]
    exact finish_value hfinish
  | mount _ _ hbefore _ => exact before_value hbefore
  | @downFails _ _ _ _ _ _ _ _ pre _ _ _ _ hbefore _ _ =>
    have hpre : ¬Stops pre := fun h => (before_value hbefore).mpr h rfl
    simp [value, stops_append, hpre, not_stops_fault]
  | @directory _ _ _ _ _ _ _ _ pre _ _ _ _ _ _ _ _ _ _ _ hbefore _ _ _ hleave ih =>
    have hpre : ¬Stops pre := fun h => (before_value hbefore).mpr h rfl
    rw [stops_append, stops_append, stops_append, ← ih, or_iff_right hpre, or_iff_right (not_stops_into _)]
    exact leaveDir_value hleave
  | atEnd _ => simp [value, endValue, not_stops_nil]
  | dots _ _ _ ih => exact ih
  | entryStops _ _ _ _ ih => exact ih
  | next _ _ _ _ _ ihcall ihrest =>
    rw [stops_append, ← ihcall, ← ihrest]
    simp [value]
  | reopened _ _ _ _ _ _ ihcall ihrest =>
    rw [stops_append, ← ihcall, ← ihrest]
    simp [value]
  | reopenFails _ _ _ _ _ ihcall =>
    rw [stops_append, ← ihcall]
    simp [value, endValue, not_stops_fault]

/-- INTERNAL: the end of `nftw`: the value of the walk stays if there is a way back to the first working directory or
none is needed.
SOURCE: dietlibc-ftw.patch:349-357 -/
theorem traceEnd_value (sys : System W D) (cwd : Option Bytes) (r : ℤ) (s : State W) (items : List (Item W)) (rc : ℤ)
    (s' : State W) (h : traceEnd sys cwd (r, s) = .give items (rc, s')) :
    items = [] ∧ rc = r ∧ (∀ path, cwd = some path → sys.chdir path s.world = (true, s'.world)) ∨
      items = [.lost] ∧ rc = -1 := by
  unfold traceEnd at h
  cases cwd with
  | none =>
    obtain ⟨hrc, -⟩ := destroy_eq (congrArg Traced.result h)
    refine Or.inl ⟨(congrArg Traced.items h).symm, hrc, ?_⟩
    intro path hpath
    cases hpath
  | some cwd =>
    dsimp only at h
    rcases hback : sys.chdir cwd s.world with ⟨_ | _, w⟩
    · rw [hback] at h
      obtain ⟨hrc, -⟩ := destroy_eq (congrArg Traced.result h)
      exact Or.inr ⟨(congrArg Traced.items h).symm, hrc⟩
    · rw [hback] at h
      obtain ⟨hrc, m, hs'⟩ := destroy_eq (congrArg Traced.result h)
      refine Or.inl ⟨(congrArg Traced.items h).symm, hrc, ?_⟩
      intro path hpath
      cases hpath
      rw [hback, hs']

/-- **A failure is reported exactly if something else stops the walk.** The failures are those of `add_node`, of
the way into and out of a directory with `FTW_CHDIR` and of the second `opendir`; what stops a walk is another
value of a callback, a file that has vanished, or the way back to the first working directory that fails.
SOURCE: dietlibc-ftw.patch:138-269, 341-358 -/
theorem fault_reported_iff (sys : System W D) (fn : Callback W) (fuel : ℕ) (dir : Bytes) (nopenfd : ℤ) (flags : Flags)
    (w : W) (rc : ℤ) (s' : State W) (h : nftw sys fn fuel dir nopenfd flags w = some (rc, s')) :
    ((∃ f, .fault f ∈ (nftwTrace sys fn fuel dir nopenfd flags w).items) → rc ≠ 0) ↔
      (∀ f, .fault f ∉ (nftwTrace sys fn fuel dir nopenfd flags w).items) ∨
        Stops (nftwTrace sys fn fuel dir nopenfd flags w).items ∨
        .lost ∈ (nftwTrace sys fn fuel dir nopenfd flags w).items := by
  rw [← nftwTrace_result] at h
  rcases nftwTrace_eq sys dir nopenfd flags w with ⟨s, htrace⟩ | ⟨conf, path, s, cwd, -, -, -, -, -, -, htrace⟩
  · rw [(htrace fn fuel).1]
    simp
  have hgive : (traceWalker sys fn conf fuel path nopenfd [] s).bind (traceEnd sys cwd) =
      .give (nftwTrace sys fn fuel dir nopenfd flags w).items (rc, s') := by
    rw [← htrace fn fuel, Traced.give, ← h]
  obtain ⟨items, ⟨r, s₁⟩, rest, hwalk, hend, hitems⟩ := Traced.bind_eq_give hgive
  have hruns := traceWalker_runs sys fn conf fuel path nopenfd [] s items r s₁ hwalk
  have hvalue : r ≠ 0 ↔ Stops items := value_iff_stops hruns
  have hrc : rc ≠ 0 ↔ Stops (items ++ rest) ∨ .lost ∈ items ++ rest := by
    rcases traceEnd_value sys cwd r s₁ rest rc s' hend with ⟨rfl, rfl, -⟩ | ⟨rfl, rfl⟩
    · rw [List.append_nil, or_iff_left hruns.notLost]
      exact hvalue
    · simp
  have hno : (∀ f, .fault f ∉ items ++ rest) ↔ ¬∃ f, .fault f ∈ items ++ rest := not_exists.symm
  rw [hitems, ← hrc, hno]
  exact imp_iff_not_or

/-- A directory `d` with a directory `e`, which holds `x`, and a file `f`. -/
def scarceStat (p : Bytes) : Except ℕ Stat :=
  if p = ascii ['d'] then .ok ⟨⟨1, 1⟩, .dir⟩
  else if p = ascii ['d', '/', 'e'] then .ok ⟨⟨2, 1⟩, .dir⟩
  else if p = ascii ['d', '/', 'e', '/', 'x'] then .ok ⟨⟨3, 1⟩, .other⟩
  else if p = ascii ['d', '/', 'f'] then .ok ⟨⟨4, 1⟩, .other⟩
  else .error ENOENT

def scarceNames (p : Bytes) : Option (List Bytes) :=
  if p = ascii ['d'] then some [ascii ['e'], ascii ['f']]
  else if p = ascii ['d', '/', 'e'] then some [ascii ['x']]
  else none

/-- A kernel with memory for so many nodes that opens so many streams; the world counts both. -/
def scarceSystem (nodes streams : ℕ) : System (ℕ × ℕ) (List Dirent × ℕ) where
  stat p w := (scarceStat p, w)
  lstat p w := (scarceStat p, w)
  opendir p w :=
    (if w.2 < streams then (scarceNames p).map fun ns => (direntsOf ns, 0) else none, (w.1, w.2 + 1))
  fd _ := 3
  readdir dh w := (dh.1[dh.2]?, (dh.1, dh.2 + 1), w)
  seekdir dh off := (dh.1, off.toNat)
  closedir _ w := w
  chdir _ w := (true, w)
  fchdir _ w := (true, w)
  getcwd w := (some [47], w)
  malloc w := (decide (w.1 < nodes), (w.1 + 1, w.2))
  calloc m w := (SearchRuns.bump 0 m, w)
  stack _ := []

/-- A callback that returns a value for `f`. -/
def valueAtF (r : ℤ) : Callback (ℕ × ℕ) := fun c w => (if c.path = ascii ['d', '/', 'f'] then r else 0, w)

/-- A walk of `d` with memory for one node. -/
def scarceWalk (r : ℤ) : Traced (Item (ℕ × ℕ)) (ℤ × State (ℕ × ℕ)) :=
  nftwTrace (scarceSystem 1 9) (valueAtF r) 5 (ascii ['d']) 2 ⟨false, false, false, false⟩ (0, 0)

/-- **A failed allocation is not noticed**: `e` cannot be added to the list and is left out with all below it,
and `nftw` returns 0. -/
theorem failed_allocation_unreported :
    ∃ s', nftw (scarceSystem 1 9) (valueAtF 0) 5 (ascii ['d']) 2 ⟨false, false, false, false⟩ (0, 0) = some (0, s') ∧
      .fault .node ∈ (scarceWalk 0).items ∧
      (calls s'.events).map Call.path = [ascii ['d'], ascii ['d', '/', 'f']] := by
  have hrun : (scarceWalk 0).result.map (fun p => (p.1, (calls p.2.events).map Call.path)) =
      some (0, [ascii ['d'], ascii ['d', '/', 'f']]) := by
    decide +kernel
  obtain ⟨⟨rc, s'⟩, hwalk, hvalues⟩ := Option.map_eq_some_iff.mp hrun
  obtain ⟨rfl, hcalls⟩ := Prod.mk.inj hvalues
  rw [scarceWalk, nftwTrace_result] at hwalk
  exact ⟨s', hwalk, by decide +kernel, hcalls⟩

/-- **The failure is reported if the callback for `f` stops the walk.** -/
theorem fault_reported_iff_stopped :
    ∃ rc s', nftw (scarceSystem 1 9) (valueAtF 5) 5 (ascii ['d']) 2 ⟨false, false, false, false⟩ (0, 0) =
        some (rc, s') ∧ .fault .node ∈ (scarceWalk 5).items ∧ rc ≠ 0 := by
  have hsome : (scarceWalk 5).result.isSome = true := by decide +kernel
  have hfault : .fault .node ∈ (scarceWalk 5).items := by decide +kernel
  have hstops : Stops (scarceWalk 5).items :=
    Or.inr ⟨1, ⟨ascii ['d', '/', 'f'], ⟨⟨4, 1⟩, .other⟩, .F, 1, 2⟩, 5, (2, 1), by decide +kernel, by decide⟩
  obtain ⟨⟨rc, s'⟩, hwalk⟩ := Option.isSome_iff_exists.mp hsome
  rw [scarceWalk, nftwTrace_result] at hwalk
  have hiff := fault_reported_iff (scarceSystem 1 9) (valueAtF 5) 5 (ascii ['d']) 2 ⟨false, false, false, false⟩ (0, 0)
    rc s' hwalk
  exact ⟨rc, s', hwalk, hfault, hiff.mpr (Or.inr (Or.inl hstops)) ⟨.node, hfault⟩⟩

/-! ## The level and the base -/

/-- The failures after which `walker` returns without restoring the two fields. -/
def leaps (items : List (Item W)) : ℕ :=
  items.countP fun
    | .fault .reopen => true
    | .fault .back => true
    | _ => false

/-- INTERNAL: no failure, no leap. -/
@[simp] theorem leaps_nil : leaps ([] : List (Item W)) = 0 := rfl

/-- INTERNAL: leaps are counted item by item. -/
@[simp] theorem leaps_append (a b : List (Item W)) : leaps (a ++ b) = leaps a + leaps b := List.countP_append

/-- INTERNAL: entering a directory is none. -/
@[simp] theorem leaps_into (depth : ℕ) : leaps ([.into depth] : List (Item W)) = 0 := rfl

/-- INTERNAL: a directory that cannot be opened again is one. -/
@[simp] theorem leaps_reopen : leaps ([.fault .reopen] : List (Item W)) = 1 := rfl

/-- INTERNAL: a directory to which the walk cannot go back is one. -/
@[simp] theorem leaps_back : leaps ([.fault .back] : List (Item W)) = 1 := rfl

/-- INTERNAL: without leaps, neither of the two failures occurred. -/
theorem leaps_eq_zero (items : List (Item W)) :
    leaps items = 0 ↔ .fault .reopen ∉ items ∧ .fault .back ∉ items := by
  unfold leaps
  rw [List.countP_eq_zero]
  constructor
  · intro h
    exact ⟨fun hmem => h _ hmem rfl, fun hmem => h _ hmem rfl⟩
  · rintro ⟨hreopen, hback⟩ e he hleap
    split at hleap
    · exact hreopen he
    · exact hback he
    · cases hleap

/-- The part of the last failure that is still to come: `goto error` in the loop. -/
def pending : Outcome D → ℕ
  | .ended .error => 1
  | _ => 0

/-- INTERNAL: nothing is pending when the call has returned. -/
@[simp] theorem pending_returned (r : ℤ) : pending (.returned r : Outcome D) = 0 := rfl

/-- INTERNAL: or when the loop has come to its end. -/
@[simp] theorem pending_done (dh : Option D) (r : ℤ) : pending (.ended (.done dh r)) = 0 := rfl

/-- INTERNAL: `goto error` is pending. -/
@[simp] theorem pending_error : pending (.ended .error : Outcome D) = 1 := rfl

/-- The level grows by `n` less `k`; the base stays if `n` is zero. -/
structure Shifts (k n : ℕ) (s s' : State W) : Prop where
  le : k ≤ n
  level : s'.level + k = s.level + n
  base : n = 0 → s'.base = s.base

/-- INTERNAL: the shifts of two steps add up. -/
theorem Shifts.trans {k n k' n' : ℕ} {s s₁ s₂ : State W} (h : Shifts k n s s₁) (h' : Shifts k' n' s₁ s₂) :
    Shifts (k + k') (n + n') s s₂ where
  le := Nat.add_le_add h.le h'.le
  level := by
    have hfirst := h.level
    have hsecond := h'.level
    push_cast
    omega
  base := by
    intro hsum
    rw [h'.base (by omega), h.base (by omega)]

/-- INTERNAL: a step that keeps the fields does not shift them. -/
theorem shifts_of_keeps {sys : System W D} {s s' : State W} (h : Keeps sys s s') : Shifts 0 0 s s' where
  le := Nat.le_refl 0
  level := congrArg (· + (0 : ℤ)) h.level
  base := fun _ => h.base

/-- INTERNAL: nor does one before a shift. -/
theorem Shifts.behind {sys : System W D} {k n : ℕ} {s s₁ s₂ : State W} (h : Shifts k n s₁ s₂) (h' : Keeps sys s s₁) :
    Shifts k n s s₂ where
  le := h.le
  level := by rw [h.level, h'.level]
  base := fun hn => (h.base hn).trans h'.base

/-- INTERNAL: the callback before the entries shifts nothing. -/
theorem before_shifts {fn : Callback W} {flags : Flags} {depth : ℕ} {dir : Bytes} {st : Stat} {type : FtwType}
    {s : State W} {pre : List (Item W)} {r : ℤ} {s₁ : State W}
    (h : before fn flags depth dir st type s = .give pre (r, s₁)) : leaps pre = 0 ∧ Shifts 0 0 s s₁ := by
  rcases before_cases h with ⟨-, rfl, -, rfl⟩ | ⟨-, rfl, hcall⟩
  · exact ⟨rfl, Nat.le_refl 0, rfl, fun _ => rfl⟩
  · rw [callback_state hcall]
    exact ⟨rfl, Nat.le_refl 0, rfl, fun _ => rfl⟩

/-- INTERNAL: and neither does the end of the call. -/
theorem finish_shifts {sys : System W D} {fn : Callback W} {flags : Flags} {depth : ℕ} {dir : Bytes} {st : Stat}
    {type : FtwType} {dh : Option D} {retval : ℤ} {s : State W} {post : List (Item W)} {r : ℤ} {s₁ : State W}
    (h : finish sys fn flags depth dir st type dh retval s = .give post (r, s₁)) :
    leaps post = 0 ∧ Shifts 0 0 s s₁ := by
  rcases finish_cases h with ⟨rfl, -, rfl⟩ | ⟨-, type', s₂, rfl, hcall, rfl⟩
  · exact ⟨rfl, shifts_of_keeps (keeps_cleanup sys dh s)⟩
  · have hcalled : Shifts 0 0 s s₂ := by
      rw [callback_state hcall]
      exact ⟨Nat.le_refl 0, rfl, fun _ => rfl⟩
    exact ⟨rfl, hcalled.trans (shifts_of_keeps (keeps_cleanup sys dh s₂))⟩

/-- INTERNAL: the end of a directory takes the level back and restores the base, or there is one more failure.
SOURCE: dietlibc-ftw.patch:244-268 -/
theorem leaveDir_shifts {sys : System W D} {fn : Callback W} {flags : Flags} {dir : Bytes} {st : Stat}
    {type : FtwType} {last : List Data} {base : ℕ} {e : LoopEnd D} {s : State W} {post : List (Item W)} {r : ℤ}
    {s₁ : State W} (h : leaveDir sys fn flags dir st type last base (e, s) = .give post (r, s₁)) :
    s₁.level + 1 = s.level + pending (.ended e) + leaps post ∧
      (pending (.ended e) = 0 → leaps post = 0 → s₁.base = base) := by
  rcases leaveDir_cases h with ⟨rfl, rfl, -, rfl⟩ | ⟨dh, s₂, rfl, hback, rfl, rfl⟩ | ⟨dh, retval, s₂, rfl, hback, hfinish⟩
  · exact ⟨by simp, fun h => by cases h⟩
  · have hkeeps := (keeps_goBack hback).trans (keeps_cleanup sys dh s₂)
    refine ⟨?_, fun _ h => by cases h⟩
    rw [hkeeps.level]
    simp
  · obtain ⟨hleaps, hshifts⟩ := finish_shifts hfinish
    have hlevel := hshifts.level
    have hsame := (keeps_goBack hback).level
    refine ⟨?_, fun _ _ => hshifts.base rfl⟩
    rw [hleaps, pending_done]
    dsimp only at hlevel
    omega

/-- INTERNAL: **the level grows by one with every failure behind which the two fields are not restored**; the base
stays if there is none.
SOURCE: dietlibc-ftw.patch:101-269 -/
theorem runs_shifts {sys : System W D} {fn : Callback W} {conf : Conf} {piece : Piece D} {s s' : State W}
    {items : List (Item W)} {out : Outcome D} (h : Runs sys fn conf piece s items out s') :
    Shifts (pending out) (leaps items) s s' := by
  induction h with
  | gone h => exact shifts_of_keeps (keeps_arrive sys conf _ _ _ _ h)
  | visited h => exact shifts_of_keeps (keeps_arrive sys conf _ _ _ _ h)
  | failed h => exact shifts_of_keeps (keeps_arrive sys conf _ _ _ _ h)
  | @refused dir nopenfd last s type st dh s' h _ =>
    have hlog : Keeps sys s' (if type = .D ∨ type = .DNR then s'.log (.refused st.node) else s') := by
      split_ifs
      · exact keeps_log sys s' _ rfl
      · exact Keeps.refl sys s'
    exact shifts_of_keeps (((keeps_arrive sys conf _ _ _ _ h).trans hlog).trans (keeps_cleanup sys dh _))
  | leaf h _ hbefore hfinish =>
    obtain ⟨hpre, hshifts⟩ := before_shifts hbefore
    obtain ⟨hpost, hshifts'⟩ := finish_shifts hfinish
    rw [leaps_append, hpre, hpost]
    exact (hshifts.trans hshifts').behind (keeps_arrive sys conf _ _ _ _ h)
  | stopped h _ hbefore _ hfinish =>
    obtain ⟨hpre, hshifts⟩ := before_shifts hbefore
    obtain ⟨hpost, hshifts'⟩ := finish_shifts hfinish
    rw [leaps_append, hpre, hpost]
    exact (hshifts.trans hshifts').behind (keeps_arrive sys conf _ _ _ _ h)
  | mount h _ hbefore _ =>
    obtain ⟨hpre, hshifts⟩ := before_shifts hbefore
    rw [hpre]
    exact hshifts.behind (keeps_arrive sys conf _ _ _ _ h)
  | @downFails dir nopenfd last s type st d s' pre s₁ s₂ h _ hbefore _ hdown =>
    obtain ⟨hpre, hshifts⟩ := before_shifts hbefore
    rw [leaps_append, hpre]
    have hclosed := (keeps_goDown hdown).trans (keeps_cleanup sys (some d) s₂)
    exact (hshifts.trans (shifts_of_keeps hclosed)).behind (keeps_arrive sys conf _ _ _ _ h)
  | @directory dir nopenfd last s type st d s' pre s₁ len s₂ items e s₃ post r s₄ h _ hbefore _ hdown _ hleave ih =>
    obtain ⟨hpre, hshifts⟩ := before_shifts hbefore
    obtain ⟨hlevel, hbase⟩ := leaveDir_shifts hleave
    have hbelow := ih.level
    have hdown' := keeps_goDown hdown
    rw [leaps_append, leaps_append, leaps_append, hpre, leaps_into, Nat.zero_add, Nat.zero_add]
    refine Shifts.behind ?_ (keeps_arrive sys conf _ _ _ _ h)
    have hrest : Shifts 0 (leaps items + leaps post) s₁ s₄ := by
      refine ⟨Nat.zero_le _, ?_, ?_⟩
      · have hentered : (entered dir st s₂).level = s₁.level + 1 := congrArg (· + (1 : ℤ)) hdown'.level
        rw [hentered] at hbelow
        push_cast
        omega
      · intro hsum
        have hpending := ih.le
        rw [hbase (by omega) (by omega), hdown'.base]
    have hboth := hshifts.trans hrest
    rwa [Nat.zero_add, Nat.zero_add] at hboth
  | atEnd _ => exact shifts_of_keeps (keeps_world sys _ _)
  | dots _ _ _ ih => exact ih.behind (keeps_world sys _ _)
  | entryStops _ _ _ _ ih => exact ih.behind ((keeps_world sys _ _).trans (keeps_beforeCall sys _ _ _))
  | next _ _ _ _ _ ihcall ihrest =>
    have hboth := ihcall.trans ihrest
    rw [← leaps_append, pending_returned, Nat.zero_add] at hboth
    exact hboth.behind ((keeps_world sys _ _).trans (keeps_beforeCall sys _ _ _))
  | reopened _ _ _ _ hopen _ ihcall ihrest =>
    have hboth := ihcall.trans (ihrest.behind (keeps_openStream hopen))
    rw [← leaps_append, pending_returned, Nat.zero_add] at hboth
    exact hboth.behind ((keeps_world sys _ _).trans (keeps_beforeCall sys _ _ _))
  | reopenFails _ _ _ _ hopen ihcall =>
    have hstay := (ihcall.trans (shifts_of_keeps (keeps_openStream hopen))).behind
      ((keeps_world sys _ _).trans (keeps_beforeCall sys _ _ _))
    rw [leaps_append, leaps_reopen, pending_error]
    refine ⟨by omega, ?_, fun h => by omega⟩
    have hlevel := hstay.level
    rw [pending_returned] at hlevel
    push_cast at hlevel ⊢
    omega

/-! ## What callbacks are told -/

/-- Every name that is read fits into the path buffer. -/
def NamesFit (sys : System W D) : Prop :=
  ∀ dh w de dh' w', sys.readdir dh w = (some de, dh', w') → NameFits de.dName

/-- The base is the offset behind the path of a directory and a slash, and with names that fit that of the last
component. -/
def NamedBy (sys : System W D) (c : Call) : Prop :=
  ∃ parent name, c.path = parent ++ 47 :: name ∧ c.base = parent.length + 1 ∧ (NamesFit sys → (47 : UInt8) ∉ name)

/-- The callbacks below a directory that has `k` directories above it and whose level is `level`. -/
def PlacedBelow (sys : System W D) (level : ℤ) (k : ℕ) (items : List (Item W)) : Prop :=
  ∀ (depth : ℕ) c r w, .call depth c r w ∈ items → k < depth ∧ c.level = level + (depth - k : ℤ) ∧ NamedBy sys c

/-- The callbacks for a file with `k` directories above it and for what is below it. -/
def Placed (sys : System W D) (level : ℤ) (k : ℕ) (dir : Bytes) (base : ℕ) (items : List (Item W)) : Prop :=
  ∀ (depth : ℕ) c r w, .call depth c r w ∈ items → c.level = level + (depth - k : ℤ) ∧
    (depth = k ∧ c.path = dir ∧ c.base = base ∨ k < depth ∧ NamedBy sys c)

/-- INTERNAL: callbacks below a directory, and others behind them. -/
theorem PlacedBelow.append {sys : System W D} {level : ℤ} {k : ℕ} {a b : List (Item W)} (h : PlacedBelow sys level k a)
    (h' : PlacedBelow sys level k b) : PlacedBelow sys level k (a ++ b) := by
  intro depth c r w hmem
  rcases List.mem_append.mp hmem with hmem | hmem
  · exact h depth c r w hmem
  · exact h' depth c r w hmem

/-- INTERNAL: callbacks for a file, and others behind them. -/
theorem Placed.append {sys : System W D} {level : ℤ} {k : ℕ} {dir : Bytes} {base : ℕ} {a b : List (Item W)}
    (h : Placed sys level k dir base a) (h' : Placed sys level k dir base b) :
    Placed sys level k dir base (a ++ b) := by
  intro depth c r w hmem
  rcases List.mem_append.mp hmem with hmem | hmem
  · exact h depth c r w hmem
  · exact h' depth c r w hmem

/-- INTERNAL: an entry and what is below it are below the directory.
SOURCE: dietlibc-ftw.patch:220-230 -/
theorem Placed.below {sys : System W D} {level : ℤ} {k : ℕ} {p rest : Bytes} {items : List (Item W)}
    (h : Placed sys (level + 1) (k + 1) (p ++ 47 :: rest) (p.length + 1) items)
    (hrest : NamesFit sys → (47 : UInt8) ∉ rest) : PlacedBelow sys level k items := by
  intro depth c r w hmem
  obtain ⟨hlevel, hplace⟩ := h depth c r w hmem
  push_cast at hlevel
  rcases hplace with ⟨rfl, hpath, hbase⟩ | ⟨hdepth, hnamed⟩
  · exact ⟨Nat.lt_succ_self k, by push_cast; omega, p, rest, hpath, hbase, hrest⟩
  · exact ⟨by omega, by omega, hnamed⟩

/-- INTERNAL: what is below a directory belongs to it. -/
theorem PlacedBelow.placed {sys : System W D} {level : ℤ} {k : ℕ} {items : List (Item W)}
    (h : PlacedBelow sys level k items) (dir : Bytes) (base : ℕ) : Placed sys level k dir base items := by
  intro depth c r w hmem
  obtain ⟨hdepth, hlevel, hnamed⟩ := h depth c r w hmem
  exact ⟨hlevel, Or.inr ⟨hdepth, hnamed⟩⟩

/-- INTERNAL: no callback is misplaced where there is none. -/
theorem placed_nil {sys : System W D} {level : ℤ} {k : ℕ} {dir : Bytes} {base : ℕ} :
    Placed sys level k dir base [] := by
  intro depth c r w hmem
  cases hmem

/-- INTERNAL: or where a failure is. -/
theorem placed_fault {sys : System W D} {level : ℤ} {k : ℕ} {dir : Bytes} {base : ℕ} {f : Fault} :
    Placed sys level k dir base [.fault f] := by
  intro depth c r w hmem
  cases List.mem_singleton.mp hmem

/-- INTERNAL: or where a directory is entered. -/
theorem placed_into {sys : System W D} {level : ℤ} {k : ℕ} {dir : Bytes} {base depth : ℕ} :
    Placed sys level k dir base [.into depth] := by
  intro depth c r w hmem
  cases List.mem_singleton.mp hmem

/-- INTERNAL: the callback for the file itself. -/
theorem placed_call {sys : System W D} {level : ℤ} {k : ℕ} {dir : Bytes} {base : ℕ} {st : Stat} {type : FtwType}
    {r : ℤ} {w : W} : Placed sys level k dir base [.call k ⟨dir, st, type, level, base⟩ r w] := by
  intro depth c r' w' hmem
  cases List.mem_singleton.mp hmem
  exact ⟨by simp, Or.inl ⟨rfl, rfl, rfl⟩⟩

/-- INTERNAL: the path of an entry, of whatever length its name is.
SOURCE: dietlibc-ftw.patch:220 -/
theorem strncpy_front (path p name : Bytes) (h : PathBuffer path p) (hp : (0 : UInt8) ∉ p) :
    PathBuffer (strncpy path (p.length + 1) name) p ∧
      ∃ rest, cstr (strncpy path (p.length + 1) name) = p ++ 47 :: rest ∧ (NameFits name → rest = name) := by
  have hcstr : cstr (strncpy path (p.length + 1) name) =
      p ++ 47 :: cstr (padded name ++ path.drop (p.length + 1 + NAME_MAX)) := by
    rw [strncpy_eq path p name h]
    unfold cstr
    rw [List.takeWhile_append_of_pos]
    · rfl
    · intro b hb
      rw [decide_eq_true_eq]
      rintro rfl
      exact hp hb
  refine ⟨h.strncpy name, _, hcstr, fun hname => ?_⟩
  have hchild := (strncpy_cstr path p name h hp hname).1
  rw [hcstr] at hchild
  exact (List.cons.inj (List.append_cancel_left hchild)).2

/-- INTERNAL: the callback before the entries is that of the file. -/
theorem before_placed {fn : Callback W} {flags : Flags} {depth : ℕ} {dir : Bytes} {st : Stat} {type : FtwType}
    {s : State W} {pre : List (Item W)} {r : ℤ} {s₁ : State W} (sys : System W D)
    (h : before fn flags depth dir st type s = .give pre (r, s₁)) : Placed sys s.level depth dir s.base pre := by
  rcases before_cases h with ⟨-, rfl, -⟩ | ⟨-, rfl, -⟩
  · exact placed_nil
  · exact placed_call

/-- INTERNAL: and so is the one at the end. -/
theorem finish_placed {sys : System W D} {fn : Callback W} {flags : Flags} {depth : ℕ} {dir : Bytes} {st : Stat}
    {type : FtwType} {dh : Option D} {retval : ℤ} {s : State W} {post : List (Item W)} {r : ℤ} {s₁ : State W}
    (h : finish sys fn flags depth dir st type dh retval s = .give post (r, s₁)) :
    Placed sys s.level depth dir s.base post := by
  rcases finish_cases h with ⟨rfl, -⟩ | ⟨-, type', s₂, rfl, -⟩
  · exact placed_nil
  · exact placed_call

/-- INTERNAL: the callback behind the entries, if the level has been taken back.
SOURCE: dietlibc-ftw.patch:244-268 -/
theorem leaveDir_placed {sys : System W D} {fn : Callback W} {flags : Flags} {dir : Bytes} {st : Stat}
    {type : FtwType} {last : List Data} {base : ℕ} {e : LoopEnd D} {s : State W} {post : List (Item W)} {r : ℤ}
    {s₁ : State W} (h : leaveDir sys fn flags dir st type last base (e, s) = .give post (r, s₁)) (level : ℤ)
    (hlevel : s.level = level + 1) : Placed sys level last.length dir base post := by
  rcases leaveDir_cases h with ⟨-, rfl, -⟩ | ⟨dh, s₂, -, -, rfl, -⟩ | ⟨dh, retval, s₂, -, hback, hfinish⟩
  · exact placed_nil
  · exact placed_fault
  · have hplaced := finish_placed hfinish
    have hsame : s₂.level - 1 = level := by
      rw [(keeps_goBack hback).level, hlevel]
      omega
    dsimp only at hplaced
    rwa [hsame] at hplaced

/-- What callbacks are told in a run without failures behind which the fields are not restored. -/
def ToldRight (sys : System W D) (piece : Piece D) (s : State W) (items : List (Item W)) : Prop :=
  match piece with
  | .walk dir _ last => (0 : UInt8) ∉ dir → Placed sys s.level last.length dir s.base items
  | .loop _ n _ last _ _ path => ∀ p level, (0 : UInt8) ∉ p → n = p.length + 1 → PathBuffer path p → s.base = n →
      s.level = level + 1 → PlacedBelow sys level last.length items

section Arrived

variable {sys : System W D} {fn : Callback W} {conf : Conf} {dir : Bytes} {last : List Data} {s s' s₁ : State W}
  {type : FtwType} {st : Stat} {dh : Option D} {pre : List (Item W)} {r : ℤ}

/-- INTERNAL: arriving at a file and reporting it leaves the level. -/
theorem arrived_level (h : arrive sys conf dir s = some (.present type st dh, s'))
    (hbefore : before fn conf.flags last.length dir st type s' = .give pre (r, s₁)) : s₁.level = s.level := by
  have hlevel := (before_shifts hbefore).2.level
  have hkeeps := (keeps_arrive sys conf _ _ _ _ h).level
  omega

/-- INTERNAL: and the base. -/
theorem arrived_base (h : arrive sys conf dir s = some (.present type st dh, s'))
    (hbefore : before fn conf.flags last.length dir st type s' = .give pre (r, s₁)) : s₁.base = s.base :=
  ((before_shifts hbefore).2.base rfl).trans (keeps_arrive sys conf _ _ _ _ h).base

/-- INTERNAL: the report is that of the file. -/
theorem arrived_placed (h : arrive sys conf dir s = some (.present type st dh, s'))
    (hbefore : before fn conf.flags last.length dir st type s' = .give pre (r, s₁)) :
    Placed sys s.level last.length dir s.base pre := by
  rw [← (keeps_arrive sys conf _ _ _ _ h).level, ← (keeps_arrive sys conf _ _ _ _ h).base]
  exact before_placed sys hbefore

/-- INTERNAL: a file without entries, and a directory that is stopped before its entries.
SOURCE: dietlibc-ftw.patch:168-171, 259-268 -/
theorem ends_placed {post : List (Item W)} {r' : ℤ} {s₂ : State W}
    (h : arrive sys conf dir s = some (.present type st dh, s'))
    (hbefore : before fn conf.flags last.length dir st type s' = .give pre (r, s₁))
    (hfinish : finish sys fn conf.flags last.length dir st type dh r s₁ = .give post (r', s₂)) :
    Placed sys s.level last.length dir s.base (pre ++ post) := by
  have hplaced := finish_placed hfinish
  rw [arrived_level h hbefore, arrived_base h hbefore] at hplaced
  exact (arrived_placed h hbefore).append hplaced

end Arrived

/-- INTERNAL: the call for an entry.
SOURCE: dietlibc-ftw.patch:220-230 -/
theorem entry_below {sys : System W D} {nopenfd : ℤ} {last : List Data} {dh dh' : D} {data : Data} {path p : Bytes}
    {s : State W} {de : Dirent} {w : W} {items : List (Item W)} {level : ℤ}
    (hread : sys.readdir dh s.world = (some de, dh', w)) (hp : (0 : UInt8) ∉ p) (hpath : PathBuffer path p)
    (hbase : s.base = p.length + 1) (hlevel : s.level = level + 1)
    (hcall : ToldRight sys
      (.walk (cstr (strncpy path (p.length + 1) de.dName)) (nopenfd - 1) (duringCall nopenfd data :: last))
      (beforeCall sys nopenfd dh' { s with world := w }) items) :
    PathBuffer (strncpy path (p.length + 1) de.dName) p ∧ PlacedBelow sys level last.length items := by
  have hkeeps := (keeps_world sys s w).trans (keeps_beforeCall sys nopenfd dh' { s with world := w })
  obtain ⟨hbuffer, rest, hcstr, hname⟩ := strncpy_front path p de.dName hpath hp
  have hplaced := hcall (zero_notMem_cstr _)
  rw [hkeeps.level, hkeeps.base, hcstr, hlevel, hbase] at hplaced
  refine ⟨hbuffer, Placed.below hplaced ?_⟩
  intro hnames
  rw [hname (hnames _ _ _ _ _ hread)]
  exact (hnames _ _ _ _ _ hread).noSlash

/-- INTERNAL: the call for an entry restores the level and the base, but for its leaps. -/
theorem entry_restores {sys : System W D} {fn : Callback W} {conf : Conf} {nopenfd nopenfd' : ℤ} {last : List Data}
    {dh : D} {dir : Bytes} {s s₁ : State W} {w : W} {items : List (Item W)} {r : ℤ}
    (hcall : Runs sys fn conf (.walk dir nopenfd' last) (beforeCall sys nopenfd dh { s with world := w }) items
      (.returned r) s₁) (hleaps : leaps items = 0) : s₁.level = s.level ∧ s₁.base = s.base := by
  have hkeeps := (keeps_world sys s w).trans (keeps_beforeCall sys nopenfd dh { s with world := w })
  have hshifts := (runs_shifts hcall).behind hkeeps
  have hlevel := hshifts.level
  rw [hleaps, pending_returned] at hlevel
  exact ⟨by omega, hshifts.base hleaps⟩

/-- INTERNAL: **every callback gets its depth and the offset of the name**, if no failure leaves the two fields
as they are.
SOURCE: dietlibc-ftw.patch:101-269 -/
theorem runs_toldRight {sys : System W D} {fn : Callback W} {conf : Conf} {piece : Piece D} {s s' : State W}
    {items : List (Item W)} {out : Outcome D} (h : Runs sys fn conf piece s items out s') (hleaps : leaps items = 0) :
    ToldRight sys piece s items := by
  induction h with
  | gone h =>
    intro _ depth c r w hmem
    cases List.mem_singleton.mp hmem
  | visited h => exact fun _ => placed_nil
  | failed h => exact fun _ => placed_fault
  | refused h _ => exact fun _ => placed_nil
  | leaf h _ hbefore hfinish => exact fun _ => ends_placed h hbefore hfinish
  | stopped h _ hbefore _ hfinish => exact fun _ => ends_placed h hbefore hfinish
  | mount h _ hbefore _ => exact fun _ => arrived_placed h hbefore
  | downFails h _ hbefore _ hdown => exact fun _ => (arrived_placed h hbefore).append placed_fault
  | @directory dir nopenfd last s type st d s' pre s₁ len s₂ items e s₃ post r s₄ h _ hbefore _ hdown hloop hleave ih =>
    intro hdir
    rw [leaps_append, leaps_append, leaps_append] at hleaps
    have hlevel : s₂.level = s.level := by
      rw [(keeps_goDown hdown).level]
      exact arrived_level h hbefore
    have hbase : s₂.base = s.base := by
      rw [(keeps_goDown hdown).base]
      exact arrived_base h hbefore
    have hbelow : PlacedBelow sys s.level last.length items :=
      ih (by omega) dir s.level hdir rfl (pathBuffer_pathBuffer _ dir) rfl (congrArg (· + (1 : ℤ)) hlevel)
    have hend : s₃.level = s.level + 1 := by
      have hshifts := (runs_shifts hloop).level
      have hpending := (runs_shifts hloop).le
      have hentered : (entered dir st s₂).level = s.level + 1 := congrArg (· + (1 : ℤ)) hlevel
      omega
    exact (arrived_placed h hbefore).append
      (placed_into.append ((hbelow.placed dir s.base).append (hbase ▸ leaveDir_placed hleave s.level hend)))
  | atEnd _ =>
    intro p level _ _ _ _ _ depth c r w hmem
    cases hmem
  | dots _ _ _ ih => exact fun p level hp hn hpath hbase hlevel => ih hleaps p level hp hn hpath hbase hlevel
  | entryStops hread _ hcall _ ih =>
    intro p level hp hn hpath hbase hlevel
    subst hn
    exact (entry_below hread hp hpath hbase hlevel (ih hleaps)).2
  | next hread _ hcall _ _ ihcall ihrest =>
    intro p level hp hn hpath hbase hlevel
    subst hn
    rw [leaps_append] at hleaps
    obtain ⟨hbuffer, hbelow⟩ := entry_below hread hp hpath hbase hlevel (ihcall (by omega))
    obtain ⟨hlevel₁, hbase₁⟩ := entry_restores hcall (by omega)
    exact hbelow.append (ihrest (by omega) p level hp rfl hbuffer (hbase₁.trans hbase) (hlevel₁.trans hlevel))
  | reopened hread _ hcall _ hopen _ ihcall ihrest =>
    intro p level hp hn hpath hbase hlevel
    subst hn
    rw [leaps_append] at hleaps
    obtain ⟨hbuffer, hbelow⟩ := entry_below hread hp hpath hbase hlevel (ihcall (by omega))
    obtain ⟨hlevel₁, hbase₁⟩ := entry_restores hcall (by omega)
    have hopened := keeps_openStream hopen
    exact hbelow.append (ihrest (by omega) p level hp rfl hbuffer (hopened.base.trans (hbase₁.trans hbase))
      (hopened.level.trans (hlevel₁.trans hlevel)))
  | reopenFails _ _ _ _ _ _ =>
    rw [leaps_append, leaps_reopen] at hleaps
    omega

/-- **`walker` restores the level and the base exactly if no directory fails to be opened again or to be left.**
Then every callback of the call gets the level of its depth, and as base the offset of the name in its path.
SOURCE: dietlibc-ftw.patch:171-269 -/
theorem fields_restored_iff (sys : System W D) (fn : Callback W) (conf : Conf) (fuel : ℕ) (dir : Bytes)
    (hdir : (0 : UInt8) ∉ dir) (nopenfd : ℤ) (last : List Data) (s : State W) (r : ℤ) (s' : State W)
    (h : walker sys fn conf fuel dir nopenfd last s = some (r, s')) :
    ((s'.level = s.level ∧ s'.base = s.base) ∧
      Placed sys s.level last.length dir s.base (traceWalker sys fn conf fuel dir nopenfd last s).items) ↔
      .fault .reopen ∉ (traceWalker sys fn conf fuel dir nopenfd last s).items ∧
        .fault .back ∉ (traceWalker sys fn conf fuel dir nopenfd last s).items := by
  rw [← traceWalker_result] at h
  have hruns := runs_of_result sys fn conf fuel dir nopenfd last s r s' h
  have hshifts := runs_shifts hruns
  have hlevel := hshifts.level
  rw [pending_returned] at hlevel
  rw [← leaps_eq_zero]
  constructor
  · rintro ⟨⟨hsame, -⟩, -⟩
    omega
  · intro hleaps
    exact ⟨⟨by omega, hshifts.base hleaps⟩, runs_toldRight hruns hleaps hdir⟩

/-- A walk of `d` in which so many streams can be opened. -/
def reopenWalk (streams : ℕ) : Traced (Item (ℕ × ℕ)) (ℤ × State (ℕ × ℕ)) :=
  traceWalker (scarceSystem 9 streams) (valueAtF 0) ⟨⟨false, false, false, false⟩, 0⟩ 5 (ascii ['d']) 2 []
    ⟨(0, 0), 0, 0, .empty, [], []⟩

/-- **A directory that cannot be opened again shifts the level**: `e` is closed for `x` and not opened again, its
brother `f` gets level 2 and base 4, and the walk of `d` ends with level 1. -/
theorem failed_reopen_shifts_fields :
    ∃ s', walker (scarceSystem 9 2) (valueAtF 0) ⟨⟨false, false, false, false⟩, 0⟩ 5 (ascii ['d']) 2 []
        ⟨(0, 0), 0, 0, .empty, [], []⟩ = some (0, s') ∧ s'.level = 1 ∧
      ⟨ascii ['d', '/', 'f'], ⟨⟨4, 1⟩, .other⟩, .F, 2, 4⟩ ∈ calls s'.events := by
  have hrun : (reopenWalk 2).result.map (fun p => (p.1, p.2.level,
      decide (⟨ascii ['d', '/', 'f'], ⟨⟨4, 1⟩, .other⟩, .F, 2, 4⟩ ∈ calls p.2.events))) = some (0, 1, true) := by
    decide +kernel
  obtain ⟨⟨r, s'⟩, hwalk, hvalues⟩ := Option.map_eq_some_iff.mp hrun
  obtain ⟨rfl, hrest⟩ := Prod.mk.inj hvalues
  obtain ⟨hlevel, hcall⟩ := Prod.mk.inj hrest
  rw [reopenWalk, traceWalker_result] at hwalk
  exact ⟨s', hwalk, hlevel, of_decide_eq_true hcall⟩

/-- **With enough streams the fields are restored.** -/
theorem fields_restored_iff_reopened :
    ∃ r s', walker (scarceSystem 9 9) (valueAtF 0) ⟨⟨false, false, false, false⟩, 0⟩ 5 (ascii ['d']) 2 []
        ⟨(0, 0), 0, 0, .empty, [], []⟩ = some (r, s') ∧ s'.level = 0 ∧ s'.base = 0 := by
  have hsome : (reopenWalk 9).result.isSome = true := by decide +kernel
  have hfaults : .fault .reopen ∉ (reopenWalk 9).items ∧ .fault .back ∉ (reopenWalk 9).items := by decide +kernel
  obtain ⟨⟨r, s'⟩, hwalk⟩ := Option.isSome_iff_exists.mp hsome
  rw [reopenWalk, traceWalker_result] at hwalk
  have hiff := fields_restored_iff (scarceSystem 9 9) (valueAtF 0) ⟨⟨false, false, false, false⟩, 0⟩ 5 (ascii ['d'])
    (by decide) 2 [] ⟨(0, 0), 0, 0, .empty, [], []⟩ r s' hwalk
  exact ⟨r, s', hwalk, (hiff.mpr hfaults).1⟩

end TTLinux.Analysis.FtwFaults
