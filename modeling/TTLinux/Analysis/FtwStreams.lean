import TTLinux.Lib.Resources
import TTLinux.Analysis.FtwTable

/-!
# The directory streams of a walk

How many streams `nftw` holds open and which of them it closes. The first part says what each part
of `walker` does to the streams; a run of `walker` is then compared with the same run in which a
call that turns back at a mount point is refused. The two agree, and the streams are in order, or
the refused call has left a stream open, and nothing later makes up for it.
-/

set_option autoImplicit false

namespace TTLinux.Analysis.FtwStreams

open TTLinux.Lib
open TTLinux.Model.Ftw
open TTLinux.Analysis.FtwVisited (destroy_eq)
open TTLinux.Analysis.FtwWalk
open TTLinux.Analysis.FtwTable

variable {W D : Type}

/-! ## Streams in the log -/

/-- The streams that the events open and close, by descriptor. -/
def streams : Ledger Event ℕ where
  acquired
    | .opened fd => some fd
    | _ => none
  released
    | .closed fd => some fd
    | _ => none

/-- Reading and seeking do not change the descriptor of a stream. -/
structure KeepsFd (sys : System W D) : Prop where
  readdir : ∀ dh w, sys.fd (sys.readdir dh w).2.1 = sys.fd dh
  seekdir : ∀ dh offset, sys.fd (sys.seekdir dh offset) = sys.fd dh

/-- The stream that a pointer stands for, as a gain. -/
def own (sys : System W D) : Option D → ℕ → ℤ
  | some dh => Ledger.unit (sys.fd dh)
  | none => 0

def ownCount : Option D → ℤ
  | some _ => 1
  | none => 0

/-- INTERNAL: a null pointer owns no stream. -/
@[simp] theorem own_none (sys : System W D) : own sys none = 0 := rfl

/-- INTERNAL: a stream is one. -/
@[simp] theorem ownCount_some (dh : D) : ownCount (some dh) = 1 := rfl

/-- INTERNAL: a null pointer is none. -/
@[simp] theorem ownCount_none : ownCount (none : Option D) = 0 := rfl

/-- INTERNAL: opening a stream adds it, if there is room for one more. -/
theorem openStream_flow (sys : System W D) (path : Bytes) (s s' : State W) (dh : Option D)
    (h : openStream sys path s = (dh, s')) (B : ℤ) (hB : streams.total s.events + 1 ≤ B) :
    streams.Flow B (own sys dh) (ownCount dh) s.events s'.events := by
  rcases hopen : sys.opendir path s.world with ⟨_ | d, w⟩
  · simp only [openStream, hopen, Prod.mk.injEq] at h
    obtain ⟨rfl, rfl⟩ := h
    exact Ledger.Flow.refl B s.events (by omega)
  · simp only [openStream, hopen, Prod.mk.injEq] at h
    obtain ⟨rfl, rfl⟩ := h
    exact Ledger.Flow.acquire B s.events _ (sys.fd d) rfl rfl hB

/-- INTERNAL: closing a stream takes it away. -/
theorem closeStream_flow (sys : System W D) (dh : D) (s : State W) (B : ℤ) (hB : streams.total s.events ≤ B) :
    streams.Flow B (-own sys (some dh)) (-1) s.events (closeStream sys dh s).events :=
  Ledger.Flow.release B s.events _ (sys.fd dh) rfl rfl hB

/-- INTERNAL: so does `cleanup`, if there is a stream. -/
theorem cleanup_flow (sys : System W D) (dh : Option D) (s : State W) (B : ℤ)
    (hB : streams.total s.events ≤ B) :
    streams.Flow B (-own sys dh) (-ownCount dh) s.events (cleanup sys dh s).events := by
  cases dh with
  | some dh => exact closeStream_flow sys dh s B hB
  | none => exact (Ledger.Flow.refl B s.events hB).congr (by simp [own]) (by simp [ownCount])

/-- INTERNAL: a callback opens and closes nothing. -/
theorem callback_flow (fn : Callback W) (dir : Bytes) (st : Stat) (type : FtwType) (s : State W) (B : ℤ)
    (hB : streams.total s.events ≤ B) :
    streams.Flow B 0 0 s.events (callback fn dir st type s).2.events :=
  Ledger.Flow.neutral B s.events _ rfl rfl hB

/-- INTERNAL: neither does the way into a directory. -/
theorem goDown_events (sys : System W D) (flags : Flags) (here : Bytes) (last : List Data) (s s' : State W)
    (len : Option ℕ) (h : goDown sys flags here last s = (len, s')) : s'.events = s.events := by
  unfold goDown at h
  split_ifs at h
  · rcases hchdir : sys.chdir here s.world with ⟨_ | _, w⟩
    · simp only [hchdir, Prod.mk.injEq] at h
      rw [← h.2]
    · simp only [hchdir] at h
      split_ifs at h
      · rw [← (Prod.mk.inj h).2]
      · rw [← (Prod.mk.inj h).2]
  · rw [← (Prod.mk.inj h).2]

/-- INTERNAL: nor the way back. -/
theorem goBack_events (sys : System W D) (flags : Flags) (last : List Data) (s s' : State W) (ok : Bool)
    (h : goBack sys flags last s = (ok, s')) : s'.events = s.events := by
  unfold goBack at h
  split at h
  · rw [← (Prod.mk.inj h).2]
  · rw [← (Prod.mk.inj h).2]

/-- INTERNAL: a node that is added changes the world and the list of nodes.
SOURCE: dietlibc-ftw.patch:66-81 -/
theorem addNode_state (sys : System W D) (st : Stat) (s s' : State W) (ok : Bool)
    (h : addNode sys st s = some (ok, s')) : ∃ w m, s' = { s with world := w, ftwList := m } := by
  unfold addNode at h
  rcases sys.malloc s.world with ⟨node, w⟩
  rcases sys.calloc s.ftwList w with ⟨cell, w'⟩
  dsimp only at h
  split_ifs at h
  · obtain ⟨r, -, hr⟩ := Option.map_eq_some_iff.mp h
    exact ⟨_, _, (Prod.mk.inj hr).2.symm⟩
  · exact ⟨_, _, (Prod.mk.inj (Option.some.inj h)).2.symm⟩

/-- INTERNAL: nor `add_node` -/
theorem addNode_events (sys : System W D) (st : Stat) (s s' : State W) (ok : Bool)
    (h : addNode sys st s = some (ok, s')) : s'.events = s.events := by
  obtain ⟨w, m, rfl⟩ := addNode_state sys st s s' ok h
  rfl

/-! ## A run beside the run with refused calls -/

/-- From the log `a` to the log `b` the streams change by `gain`, `n` in all, with room for `need`
more than at the start. -/
def Passes (need n : ℤ) (gain : ℕ → ℤ) (a b : List Event) : Prop :=
  ∀ B, streams.total a + need ≤ B → streams.Flow B gain n a b

/-- All is well, and the streams change as they should; or a call was refused, and more streams are
left than `n` says. -/
def Settles (need n : ℤ) (gain : ℕ → ℤ) (a b : List Event) (well refused : Prop) : Prop :=
  (well ∧ Passes need n gain a b) ∨ (refused ∧ streams.total a + n < streams.total b)

section Compose

variable {need need' n n' : ℤ} {gain gain' : ℕ → ℤ} {a b c : List Event}
variable {well refused well' refused' : Prop}

/-- INTERNAL: two parts of a log, with room for both. -/
theorem Passes.trans (h : Passes need n gain a b) (h' : Passes need' n' gain' b c) (N : ℤ) (hneed : need ≤ N)
    (hneed' : n + need' ≤ N) : Passes N (n + n') (gain + gain') a c := by
  intro B hB
  have htotal := (h _ le_rfl).total
  exact (h B (by omega)).trans (h' B (by omega))

/-- INTERNAL: the gain of a part, written in another way. -/
theorem Passes.congr (h : Passes need n gain a b) (hgain : gain = gain') (hn : n = n') :
    Passes need n' gain' a b := hgain ▸ hn ▸ h

/-- INTERNAL: whether a call was refused or not, at least `n` streams more are open. -/
theorem Settles.total_le (h : Settles need n gain a b well refused) :
    streams.total a + n ≤ streams.total b := by
  rcases h with ⟨-, hflow⟩ | ⟨-, hlt⟩
  · exact (hflow _ le_rfl).total.ge
  · exact hlt.le

/-- INTERNAL: **one part after another**, each with its own calls. -/
theorem Settles.trans (h : Settles need n gain a b well refused)
    (h' : Settles need' n' gain' b c well' refused') (N : ℤ) (hneed : need ≤ N) (hneed' : n + need' ≤ N) :
    Settles N (n + n') (gain + gain') a c (well ∧ well') (refused ∨ well ∧ refused') := by
  have hle' := h'.total_le
  rcases h with ⟨hw, hflow⟩ | ⟨hr, hlt⟩
  · have htotal := (hflow _ le_rfl).total
    rcases h' with ⟨hw', hflow'⟩ | ⟨hr', hlt'⟩
    · exact Or.inl ⟨⟨hw, hw'⟩, hflow.trans hflow' N hneed hneed'⟩
    · exact Or.inr ⟨Or.inr ⟨hw, hr'⟩, by omega⟩
  · exact Or.inr ⟨Or.inl hr, by omega⟩

/-- INTERNAL: what is well, and what counts as refused, may be said more weakly. -/
theorem Settles.imp (h : Settles need n gain a b well refused) (hwell : well → well')
    (hrefused : refused → refused') : Settles need n gain a b well' refused' :=
  Or.imp (fun hw => ⟨hwell hw.1, hw.2⟩) (fun hr => ⟨hrefused hr.1, hr.2⟩) h

/-- INTERNAL: the gain of a call, written in another way. -/
theorem Settles.congr (h : Settles need n gain a b well refused) (hgain : gain = gain') (hn : n = n') :
    Settles need n' gain' a b well refused := hgain ▸ hn ▸ h

/-- INTERNAL: calls behind a part that makes none. -/
theorem Passes.before (h : Passes need n gain a b) (h' : Settles need' n' gain' b c well refused) (N : ℤ)
    (hneed : need ≤ N) (hneed' : n + need' ≤ N) : Settles N (n + n') (gain + gain') a c well refused := by
  have hfirst : Settles need n gain a b True False := Or.inl ⟨trivial, h⟩
  exact (hfirst.trans h' N hneed hneed').imp (fun hw => hw.2) (fun hr => hr.elim False.elim fun hr => hr.2)

/-- INTERNAL: calls before a part that makes none. -/
theorem Settles.andThen (h : Settles need n gain a b well refused) (h' : Passes need' n' gain' b c) (N : ℤ)
    (hneed : need ≤ N) (hneed' : n + need' ≤ N) : Settles N (n + n') (gain + gain') a c well refused := by
  have hsecond : Settles need' n' gain' b c True False := Or.inl ⟨trivial, h'⟩
  exact (h.trans hsecond N hneed hneed').imp (fun hw => hw.1) (fun hr => hr.elim id fun hr => hr.2.elim)

end Compose

/-- A call of `walk`, beside `g` that refuses some calls. -/
def Tracks (walk g : Bytes → ℤ → List Data → State W → Option (ℤ × State W)) : Prop :=
  ∀ dir nopenfd last s r s', walk dir nopenfd last s = some (r, s') →
    Settles (max 1 nopenfd) 0 0 s.events s'.events (g dir nopenfd last s = some (r, s'))
      (g dir nopenfd last s = none)

/-! ## The loop over the entries -/

/-- The stream at the end of the loop. -/
def endStream : LoopEnd D → Option D
  | .done dh _ => dh
  | .error => none

/-- INTERNAL: the stream of a loop that has come to its end. -/
@[simp] theorem endStream_done (dh : Option D) (retval : ℤ) : endStream (.done dh retval) = dh := rfl

/-- INTERNAL: after an error in the loop its stream is gone. -/
@[simp] theorem endStream_error : endStream (.error : LoopEnd D) = none := rfl

/-- A round of the loop behind the call for the entry. `dh` is the stream, if it was not closed for
the call, and `reopen` the path that it is opened again with.
SOURCE: dietlibc-ftw.patch:227-238 -/
def resume (sys : System W D) (loop : D → Data → State W → Option (LoopEnd D × State W)) (reopen : Bytes)
    (offset : ℤ) (dh : Option D) (data : Data) (r : ℤ) (s : State W) : Option (LoopEnd D × State W) :=
  if r ≠ 0 then some (.done dh r, s)
  else
    match dh with
    | some dh => loop dh data s
    | none =>
      match openStream sys reopen s with
      | (some dh, s) => loop (sys.seekdir dh offset) { data with fd := sys.fd dh } s
      | (none, s) => some (.error, s)

section ReadLoop

variable (sys : System W D) (hfds : NeverZero sys) (hkeeps : KeepsFd sys) (flags : Flags) (here : Bytes)
variable (n : ℕ) (nopenfd : ℤ) (last : List Data)

/-- INTERNAL: one round of the loop: the call for the entry, and the rest. -/
theorem readLoop_round (walk : Bytes → ℤ → List Data → State W → Option (ℤ × State W)) (fuel : ℕ) (dh dh₁ : D)
    (data : Data) (hdata : data.fd ≠ 0) (path : Bytes) (s : State W) (w : W) (de : Dirent)
    (hread : sys.readdir dh s.world = (some de, dh₁, w)) (hdots : isDots de.dName = false) :
    readLoop sys flags here n nopenfd last walk (fuel + 1) dh data path s =
      (walk (cstr (strncpy path n de.dName)) (nopenfd - 1)
        ((if nopenfd ≤ 1 then { data with fd := 0 } else data) :: last)
        (if nopenfd ≤ 1 then closeStream sys dh₁ { s with world := w } else { s with world := w })).bind
        fun p => resume sys (fun dh data s => readLoop sys flags here n nopenfd last walk fuel dh data
          (strncpy path n de.dName) s) (if flags.chdir then [46] else here) de.dOff
          (if nopenfd ≤ 1 then none else some dh₁) data p.1 p.2 := by
  rw [readLoop]
  simp only [hread, hdots, Bool.false_eq_true, if_false]
  by_cases hfull : nopenfd ≤ 1
  · simp only [decide_eq_true hfull, if_pos hfull, if_true]
    cases walk (cstr (strncpy path n de.dName)) (nopenfd - 1) ({ data with fd := 0 } :: last)
      (closeStream sys dh₁ { s with world := w }) with
    | none => rfl
    | some p => rfl
  · simp only [decide_eq_false hfull, if_neg hfull, Bool.false_eq_true, if_false, if_neg hdata]
    cases walk (cstr (strncpy path n de.dName)) (nopenfd - 1) (data :: last) { s with world := w } with
    | none => rfl
    | some p => rfl

include hfds hkeeps in
/-- INTERNAL: the part behind the call, if the rest of the loop does as it should. -/
theorem resume_settles (loop loopg : D → Data → State W → Option (LoopEnd D × State W)) (need : ℤ)
    (hneed : 0 ≤ need)
    (hloop : ∀ dh data s e s', data.fd ≠ 0 → loop dh data s = some (e, s') →
      Settles need (ownCount (endStream e) - 1) (own sys (endStream e) - own sys (some dh)) s.events s'.events
        (loopg dh data s = some (e, s')) (loopg dh data s = none))
    (reopen : Bytes) (offset : ℤ) (dh : Option D) (data : Data) (hdata : data.fd ≠ 0) (r : ℤ) (s s' : State W)
    (e : LoopEnd D) (h : resume sys loop reopen offset dh data r s = some (e, s')) :
    Settles (need + 1 - ownCount dh) (ownCount (endStream e) - ownCount dh)
      (own sys (endStream e) - own sys dh) s.events s'.events
      (resume sys loopg reopen offset dh data r s = some (e, s'))
      (resume sys loopg reopen offset dh data r s = none) := by
  unfold resume at h ⊢
  by_cases hr : r = 0
  · simp only [hr, ne_eq, not_true_eq_false, if_false] at h ⊢
    cases dh with
    | some dh =>
      have hrest := hloop dh data s e s' hdata h
      simpa using hrest
    | none =>
      rcases hopen : openStream sys reopen s with ⟨_ | dh₂, s₂⟩
      · have hreopen : Passes 1 0 0 s.events s₂.events := openStream_flow sys _ s s₂ none hopen
        simp only [hopen, Option.some.injEq, Prod.mk.injEq] at h ⊢
        obtain ⟨rfl, rfl⟩ := h
        refine Or.inl ⟨⟨rfl, rfl⟩, fun B hB => ?_⟩
        exact (hreopen B (by simp at hB; omega)).congr (by simp) (by simp)
      · have hreopen : Passes 1 1 (own sys (some dh₂)) s.events s₂.events :=
          openStream_flow sys _ s s₂ (some dh₂) hopen
        have hown : own sys (some (sys.seekdir dh₂ offset)) = own sys (some dh₂) := by
          simp only [own, hkeeps.seekdir]
        simp only [hopen] at h ⊢
        have hrest := hreopen.before (hloop _ _ _ e s' (hfds dh₂) h) (need + 1) (by omega) (by omega)
        have hzero : need + 1 - ownCount (none : Option D) = need + 1 := by simp
        rw [hzero]
        exact hrest.congr (by rw [hown]; simp) (by simp)
  · simp only [ne_eq, hr, not_false_eq_true, if_true, Option.some.injEq, Prod.mk.injEq] at h ⊢
    obtain ⟨rfl, rfl⟩ := h
    refine Or.inl ⟨⟨rfl, rfl⟩, fun B hB => ?_⟩
    have hbound : ownCount dh ≤ 1 := by cases dh <;> simp
    exact (Ledger.Flow.refl B s.events (by omega)).congr (by simp) (by simp)

variable (walk g : Bytes → ℤ → List Data → State W → Option (ℤ × State W)) (htracks : Tracks walk g)

include htracks in
/-- INTERNAL: the call for an entry: the stream is closed before it if there is no room for another. -/
theorem call_settles (dh : D) (path : Bytes) (data : Data) (s s₁ : State W) (r : ℤ)
    (h : walk path (nopenfd - 1) ((if nopenfd ≤ 1 then { data with fd := 0 } else data) :: last)
      (if nopenfd ≤ 1 then closeStream sys dh s else s) = some (r, s₁)) :
    Settles (max 1 nopenfd - 1) (ownCount (if nopenfd ≤ 1 then none else some dh) - 1)
      (own sys (if nopenfd ≤ 1 then none else some dh) - own sys (some dh)) s.events s₁.events
      (g path (nopenfd - 1) ((if nopenfd ≤ 1 then { data with fd := 0 } else data) :: last)
        (if nopenfd ≤ 1 then closeStream sys dh s else s) = some (r, s₁))
      (g path (nopenfd - 1) ((if nopenfd ≤ 1 then { data with fd := 0 } else data) :: last)
        (if nopenfd ≤ 1 then closeStream sys dh s else s) = none) := by
  have hcall := htracks _ _ _ _ _ _ h
  by_cases hfull : nopenfd ≤ 1
  · simp only [if_pos hfull] at hcall ⊢
    have hclose : Passes 0 (-1) (-own sys (some dh)) s.events (closeStream sys dh s).events :=
      fun B hB => closeStream_flow sys dh s B (by omega)
    have hall := hclose.before hcall (max 1 nopenfd - 1) (by omega) (by omega)
    exact hall.congr (by simp) (by simp)
  · have hmax : max 1 (nopenfd - 1) = max 1 nopenfd - 1 := by omega
    simp only [if_neg hfull] at hcall ⊢
    rw [hmax] at hcall
    exact hcall.congr (by simp) (by simp)

include hfds hkeeps htracks in
/-- INTERNAL: **the loop** takes over one stream and ends with at most one. -/
theorem readLoop_settles (fuel : ℕ) (dh : D) (data : Data) (hdata : data.fd ≠ 0) (path : Bytes)
    (s s' : State W) (e : LoopEnd D)
    (h : readLoop sys flags here n nopenfd last walk fuel dh data path s = some (e, s')) :
    Settles (max 1 nopenfd - 1) (ownCount (endStream e) - 1) (own sys (endStream e) - own sys (some dh))
      s.events s'.events
      (readLoop sys flags here n nopenfd last g fuel dh data path s = some (e, s'))
      (readLoop sys flags here n nopenfd last g fuel dh data path s = none) := by
  induction fuel generalizing dh data path s e s' with
  | zero => simp [readLoop] at h
  | succ fuel ih =>
    have hfd := hkeeps.readdir dh s.world
    rcases hread : sys.readdir dh s.world with ⟨_ | de, dh₁, w⟩
    · rw [hread] at hfd
      rw [readLoop] at h ⊢
      simp only [hread, Option.some.injEq, Prod.mk.injEq] at h ⊢
      obtain ⟨rfl, rfl⟩ := h
      refine Or.inl ⟨⟨rfl, rfl⟩, fun B hB => ?_⟩
      exact (Ledger.Flow.refl B s.events (by omega)).congr (by simp [own, hfd]) (by simp)
    rw [hread] at hfd
    have hown : own sys (some dh₁) = own sys (some dh) := by simp only [own, hfd]
    rw [← hown]
    cases hdots : isDots de.dName with
    | true =>
      rw [readLoop] at h ⊢
      simp only [hread, hdots, if_true] at h ⊢
      exact ih dh₁ data hdata path _ s' e h
    | false =>
      rw [readLoop_round sys flags here n nopenfd last walk fuel dh dh₁ data hdata path s w de hread hdots] at h
      rw [readLoop_round sys flags here n nopenfd last g fuel dh dh₁ data hdata path s w de hread hdots]
      obtain ⟨⟨r, s₁⟩, hwalk, hresume⟩ := Option.bind_eq_some_iff.mp h
      have hcall := call_settles sys nopenfd last walk g htracks dh₁ _ data { s with world := w } s₁ r hwalk
      have hrest := resume_settles sys hfds hkeeps _
        (fun dh data s => readLoop sys flags here n nopenfd last g fuel dh data (strncpy path n de.dName) s)
        (max 1 nopenfd - 1) (by omega) (fun dh data s e s' hd hl => ih dh data hd _ s s' e hl) _ _ _ data hdata r
        s₁ s' e hresume
      have hall := hcall.trans hrest (max 1 nopenfd - 1) le_rfl (by omega)
      refine (hall.imp ?_ ?_).congr (by abel) (by ring)
      · rintro ⟨hg, hl⟩
        rw [hg]
        exact hl
      · rintro (hg | ⟨hg, hl⟩)
        · rw [hg]
          rfl
        · rw [hg]
          exact hl

end ReadLoop

/-! ## The parts of `walker` -/

/-- The stream at the end of the part for the entries. -/
def leftStream : Descended D → Option D
  | .leave => none
  | .error dh _ => dh
  | .done dh _ => dh

/-- INTERNAL: the stream that an error leaves. -/
@[simp] theorem leftStream_error (dh : Option D) (retval : ℤ) : leftStream (.error dh retval) = dh := rfl

/-- INTERNAL: and the one that is left behind the entries. -/
@[simp] theorem leftStream_done (dh : Option D) (retval : ℤ) : leftStream (.done dh retval) = dh := rfl

section Parts

variable (sys : System W D) (hfds : NeverZero sys) (hkeeps : KeepsFd sys) (fn : Callback W) (conf : Conf)
variable (dir here : Bytes) (nopenfd : ℤ) (last : List Data) (fuel : ℕ)
variable (walk g : Bytes → ℤ → List Data → State W → Option (ℤ × State W)) (htracks : Tracks walk g)

include hfds hkeeps htracks in
/-- INTERNAL: the entries of a directory that is not left at once. -/
theorem descend_settles (st : Stat) (hstay : ¬ (conf.flags.mount = true ∧ conf.basedev ≠ st.node.dev))
    (dh : D) (s s' : State W) (d : Descended D)
    (h : descend sys conf dir here st nopenfd last walk fuel dh s = some (d, s')) :
    Settles (max 1 nopenfd - 1) (ownCount (leftStream d) - 1) (own sys (leftStream d) - own sys (some dh))
      s.events s'.events
      (descend sys conf dir here st nopenfd last g fuel dh s = some (d, s'))
      (descend sys conf dir here st nopenfd last g fuel dh s = none) := by
  rw [descend, if_neg hstay] at h ⊢
  rcases hdown : goDown sys conf.flags here last s with ⟨_ | len, s₁⟩
  · have hevents := goDown_events sys conf.flags here last s s₁ none hdown
    simp only [hdown, Option.some.injEq, Prod.mk.injEq] at h ⊢
    obtain ⟨rfl, rfl⟩ := h
    refine Or.inl ⟨⟨rfl, rfl⟩, fun B hB => ?_⟩
    rw [hevents]
    exact (Ledger.Flow.refl B s.events (by omega)).congr (by simp) (by simp)
  have hevents := goDown_events sys conf.flags here last s s₁ (some len) hdown
  simp only [hdown] at h ⊢
  generalize hstart :
    ({ s₁ with level := s₁.level + 1, base := dir.length + 1 } : State W).log (.entered st.node) = s₂ at h ⊢
  have henter : Passes 0 0 0 s.events s₂.events := by
    intro B hB
    rw [← hstart, ← hevents]
    exact Ledger.Flow.neutral B s₁.events _ rfl rfl (by rw [hevents]; omega)
  rcases hloop : readLoop sys conf.flags here (dir.length + 1) nopenfd last walk fuel dh
      ⟨st.node, sys.fd dh, len⟩ (pathBuffer (sys.stack s₁.world) dir) s₂ with _ | ⟨e, s₃⟩
  · simp [hloop] at h
  have hsettles := readLoop_settles sys hfds hkeeps conf.flags here _ nopenfd last walk g htracks fuel dh
    _ (hfds dh) _ s₂ s₃ e hloop
  have hread := henter.before hsettles (max 1 nopenfd - 1) (by omega) (by omega)
  simp only [hloop] at h
  cases e with
  | error =>
    simp only [Option.some.injEq, Prod.mk.injEq] at h
    obtain ⟨rfl, rfl⟩ := h
    refine (hread.imp ?_ ?_).congr (by simp) (by simp)
    · intro hg
      simp only [hg]
    · intro hg
      simp only [hg]
  | done dh' retval =>
    rcases hback : goBack sys conf.flags last s₃ with ⟨ok, s₄⟩
    have hevents' := goBack_events sys conf.flags last s₃ s₄ ok hback
    cases ok with
    | false =>
      simp only [hback, Option.some.injEq, Prod.mk.injEq] at h
      obtain ⟨rfl, rfl⟩ := h
      rw [hevents']
      refine (hread.imp ?_ ?_).congr (by simp) (by simp)
      · intro hg
        simp only [hg, hback]
      · intro hg
        simp only [hg]
    | true =>
      simp only [hback, Option.some.injEq, Prod.mk.injEq] at h
      obtain ⟨rfl, rfl⟩ := h
      rw [← hevents'] at hread
      refine (hread.imp ?_ ?_).congr (by simp) (by simp)
      · intro hg
        simp only [hg, hback]
      · intro hg
        simp only [hg]

/-- INTERNAL: only with `FTW_MOUNT`, on another device, a directory is left at once. -/
theorem leave_mount (st : Stat) (dh : D) (s s' : State W)
    (h : descend sys conf dir here st nopenfd last walk fuel dh s = some (.leave, s')) :
    conf.flags.mount = true ∧ conf.basedev ≠ st.node.dev := by
  by_contra hstay
  rw [descend, if_neg hstay] at h
  split at h
  · simp at h
  · dsimp only at h
    split at h
    · simp at h
    · simp at h
    · split at h <;> simp at h

/-- INTERNAL: the end of `walker` closes the stream. -/
theorem conclude_passes (type : FtwType) (st : Stat) (dh : Option D) (retval : ℤ) (s : State W) :
    Passes 0 (-ownCount dh) (-own sys dh) s.events
      (conclude sys fn conf.flags dir st type dh retval s).2.events := by
  intro B hB
  have hB' : streams.total s.events ≤ B := by omega
  generalize htype : (if type = .D then .DP else type : FtwType) = type'
  rw [conclude, htype]
  split_ifs
  · have hcall := callback_flow fn dir st type' s B hB'
    have hclean := cleanup_flow sys dh (callback fn dir st type' s).2 B
      (hcall.bound _ hcall.grows List.prefix_rfl)
    exact (hcall.trans hclean).congr (zero_add _) (zero_add _)
  · exact cleanup_flow sys dh s B hB'

/-- The call of `walker` is about to turn back at a mount point: it has opened a directory on
another device, and neither the check for loops nor the callback keeps it from the entries. -/
def AtMount (st : Stat) (dh : Option D) (s : State W) : Prop :=
  conf.flags.mount = true ∧ conf.basedev ≠ st.node.dev ∧ dh.isSome ∧
    isAncestor conf.flags st last = false ∧
    (conf.flags.depth = true ∨ (callback fn dir st .D s).1 = 0)

include hfds hkeeps htracks in
/-- INTERNAL: `visit` gives back the stream that it takes over, unless it turns back. -/
theorem visit_settles (type : FtwType) (st : Stat) (dh : Option D) (s s' : State W) (r : ℤ)
    (htype : dh.isSome → type = .D) (hstay : ¬ AtMount fn conf dir last st dh s)
    (h : visit sys fn conf dir here type st nopenfd last walk fuel dh s = some (r, s')) :
    Settles (max 1 nopenfd - ownCount dh) (-ownCount dh) (-own sys dh) s.events s'.events
      (visit sys fn conf dir here type st nopenfd last g fuel dh s = some (r, s'))
      (visit sys fn conf dir here type st nopenfd last g fuel dh s = none) := by
  have hcount : 0 ≤ max 1 nopenfd - ownCount dh := by
    cases dh <;> simp only [ownCount_none, ownCount_some] <;> omega
  rw [visit] at h ⊢
  by_cases hanc : isAncestor conf.flags st last = true
  · simp only [hanc, if_true, Option.some.injEq, Prod.mk.injEq] at h ⊢
    obtain ⟨rfl, rfl⟩ := h
    refine Or.inl ⟨⟨rfl, rfl⟩, fun B hB => ?_⟩
    split_ifs
    · have hlog := Ledger.Flow.neutral (L := streams) B s.events (.refused st.node) rfl rfl (by omega)
      have hclean := cleanup_flow sys dh (s.log (.refused st.node)) B
        (hlog.bound _ hlog.grows List.prefix_rfl)
      exact (hlog.trans hclean).congr (zero_add _) (zero_add _)
    · exact cleanup_flow sys dh s B (by omega)
  simp only [hanc, Bool.false_eq_true, if_false] at h ⊢
  -- the callback before the entries
  generalize hpre : (if conf.flags.depth = true then ((0 : ℤ), s) else callback fn dir st type s) = pre at h ⊢
  obtain ⟨retval, s₁⟩ := pre
  have hcall : Passes 0 0 0 s.events s₁.events := by
    intro B hB
    split_ifs at hpre
    · obtain ⟨-, rfl⟩ := Prod.mk.inj hpre
      exact Ledger.Flow.refl B s.events (by omega)
    · have hflow := callback_flow fn dir st type s B (by omega)
      rwa [hpre] at hflow
  -- what is left when the entries are not looked at
  have hend : ∀ s' r, conclude sys fn conf.flags dir st type dh retval s₁ = (r, s') →
      Passes (max 1 nopenfd - ownCount dh) (-ownCount dh) (-own sys dh) s.events s'.events := by
    intro s' r hc
    have hpass := conclude_passes sys fn conf dir type st dh retval s₁
    rw [hc] at hpass
    exact (hcall.trans hpass (max 1 nopenfd - ownCount dh) hcount (by omega)).congr (zero_add _) (zero_add _)
  dsimp only at h ⊢
  cases dh with
  | none => exact Or.inl ⟨h, hend s' r (Option.some.inj h)⟩
  | some d =>
    dsimp only at h ⊢
    by_cases hret : retval = 0
    · rw [if_pos hret] at h ⊢
      have hstay' : ¬ (conf.flags.mount = true ∧ conf.basedev ≠ st.node.dev) := by
        rintro ⟨hmount, hdev⟩
        apply hstay
        refine ⟨hmount, hdev, rfl, by simpa using hanc, ?_⟩
        split_ifs at hpre with hdepth
        · exact Or.inl hdepth
        · rw [htype rfl] at hpre
          exact Or.inr (by rw [hpre]; exact hret)
      rcases hdesc : descend sys conf dir here st nopenfd last walk fuel d s₁ with _ | ⟨e, s₂⟩
      · simp [hdesc] at h
      have hdown := hcall.before
        (descend_settles sys hfds hkeeps conf dir here nopenfd last fuel walk g htracks st hstay' d s₁ s₂ e hdesc)
        (max 1 nopenfd - ownCount (some d)) hcount (by simp)
      simp only [hdesc] at h
      cases e with
      | leave =>
        exact absurd (leave_mount sys conf dir here nopenfd last fuel walk st d s₁ s₂ hdesc) hstay'
      | error dh' retval' =>
        obtain ⟨rfl, rfl⟩ := Prod.mk.inj (Option.some.inj h)
        have hclean : Passes 0 (-ownCount dh') (-own sys dh') s₂.events (cleanup sys dh' s₂).events :=
          fun B hB => cleanup_flow sys dh' s₂ B (by omega)
        have hall := hdown.andThen hclean (max 1 nopenfd - ownCount (some d)) le_rfl (by
          have hle : ownCount dh' ≤ 1 := by cases dh' <;> simp
          simp only [ownCount_some, leftStream_error] at hcount ⊢
          omega)
        refine (hall.imp ?_ ?_).congr (by simp only [leftStream_error]; abel)
          (by simp only [leftStream_error, ownCount_some]; ring)
        · intro hg
          simp only [hg]
        · intro hg
          simp only [hg]
      | done dh' retval' =>
        have hpass := conclude_passes sys fn conf dir type st dh' retval' s₂
        rw [Option.some.inj h] at hpass
        have hall := hdown.andThen hpass (max 1 nopenfd - ownCount (some d)) le_rfl (by
          have hle : ownCount dh' ≤ 1 := by cases dh' <;> simp
          simp only [ownCount_some, leftStream_done] at hcount ⊢
          omega)
        refine (hall.imp ?_ ?_).congr (by simp only [leftStream_done]; abel)
          (by simp only [leftStream_done, ownCount_some]; ring)
        · intro hg
          simp only [hg]
          exact h
        · intro hg
          simp only [hg]
    · rw [if_neg hret] at h ⊢
      exact Or.inl ⟨h, hend s' r (Option.some.inj h)⟩

end Parts

/-! ## A call of `walker` -/

/-- What a call of `walker` does, with the recursive call as a parameter. -/
def activation (sys : System W D) (fn : Callback W) (conf : Conf)
    (walk : Bytes → ℤ → List Data → State W → Option (ℤ × State W)) (fuel : ℕ) (dir : Bytes) (nopenfd : ℤ)
    (last : List Data) (s : State W) : Option (ℤ × State W) :=
  let here := if conf.flags.chdir then dir.drop s.base else dir
  match classify sys conf.flags here s.world with
  | (none, w) => some (-1, { s with world := w })
  | (some (.D, st), w) =>
    match prepare sys conf.flags here st { s with world := w } with
    | none => none
    | some (.visited, s) => some (0, s)
    | some (.failed, s) => some (0, s)
    | some (.ready dh, s) =>
      visit sys fn conf dir here (if dh.isSome then .D else .DNR) st nopenfd last walk fuel dh s
  | (some (type, st), w) =>
    visit sys fn conf dir here type st nopenfd last walk fuel none { s with world := w }

/-- INTERNAL: a call of `walker` is one activation over the calls below it. -/
theorem walker_succ (sys : System W D) (fn : Callback W) (conf : Conf) (fuel : ℕ) (dir : Bytes) (nopenfd : ℤ)
    (last : List Data) (s : State W) :
    walker sys fn conf (fuel + 1) dir nopenfd last s =
      activation sys fn conf (walker sys fn conf fuel) fuel dir nopenfd last s := rfl

/-- A call of `walker` that takes the way out for `FTW_MOUNT`: the file is a directory on another
device than the start, its stream could be opened, no directory above it is the same one, and
the callback, if there is one before the entries, has returned 0.
SOURCE: dietlibc-ftw.patch:138-175 -/
def TurnsBack (sys : System W D) (fn : Callback W) (conf : Conf) (dir : Bytes) (last : List Data)
    (s : State W) : Prop :=
  ∃ st w dh s₁,
    classify sys conf.flags (if conf.flags.chdir then dir.drop s.base else dir) s.world = (some (.D, st), w) ∧
      prepare sys conf.flags (if conf.flags.chdir then dir.drop s.base else dir) st { s with world := w } =
        some (.ready dh, s₁) ∧
      AtMount fn conf dir last st dh s₁

open Classical in
/-- `walker`, but a call that turns back at a mount point does not return. -/
noncomputable def staying (sys : System W D) (fn : Callback W) (conf : Conf) :
    ℕ → Bytes → ℤ → List Data → State W → Option (ℤ × State W)
  | 0, _, _, _, _ => none
  | fuel + 1, dir, nopenfd, last, s =>
    if TurnsBack sys fn conf dir last s then none
    else activation sys fn conf (staying sys fn conf fuel) fuel dir nopenfd last s

/-- The stream of a directory that was prepared. -/
def preparedStream : Prepared D → Option D
  | .ready dh => dh
  | _ => none

/-- INTERNAL: the part for a directory opens one stream at most. -/
theorem prepare_passes (sys : System W D) (flags : Flags) (here : Bytes) (st : Stat) (s s' : State W)
    (p : Prepared D) (h : prepare sys flags here st s = some (p, s')) :
    Passes 1 (ownCount (preparedStream p)) (own sys (preparedStream p)) s.events s'.events := by
  have hopens : ∀ s₁ : State W, s₁.events = s.events →
      some (.ready (openStream sys here s₁).1, (openStream sys here s₁).2) = some (p, s') →
      Passes 1 (ownCount (preparedStream p)) (own sys (preparedStream p)) s.events s'.events := by
    intro s₁ hevents heq
    obtain ⟨rfl, rfl⟩ := Prod.mk.inj (Option.some.inj heq)
    rw [← hevents]
    exact openStream_flow sys here s₁ _ _ rfl
  have hnone : ∀ s₁ : State W, s₁.events = s.events → s₁ = s' → preparedStream p = none →
      Passes 1 (ownCount (preparedStream p)) (own sys (preparedStream p)) s.events s'.events := by
    intro s₁ hevents heq hp B hB
    rw [hp, ← heq, hevents]
    exact Ledger.Flow.refl B s.events (by omega)
  unfold prepare at h
  split_ifs at h with hphys
  · exact hopens s rfl h
  · obtain ⟨found, -, h⟩ := Option.bind_eq_some_iff.mp h
    split_ifs at h with hfound
    · obtain ⟨rfl, rfl⟩ := Prod.mk.inj (Option.some.inj h)
      exact hnone s rfl rfl rfl
    · obtain ⟨⟨added, s₁⟩, hadd, h⟩ := Option.bind_eq_some_iff.mp h
      have hevents := addNode_events sys st s s₁ added hadd
      dsimp only at h
      split_ifs at h with hadded
      · exact hopens s₁ hevents h
      · obtain ⟨rfl, rfl⟩ := Prod.mk.inj (Option.some.inj h)
        exact hnone s₁ hevents rfl rfl

section Walker

variable (sys : System W D) (hfds : NeverZero sys) (hkeeps : KeepsFd sys) (fn : Callback W) (conf : Conf)

/-- INTERNAL: **the way out leaves the stream open.** -/
theorem activation_turnsBack (walk : Bytes → ℤ → List Data → State W → Option (ℤ × State W)) (fuel : ℕ)
    (dir : Bytes) (nopenfd : ℤ) (last : List Data) (s s' : State W) (r : ℤ)
    (hturns : TurnsBack sys fn conf dir last s)
    (h : activation sys fn conf walk fuel dir nopenfd last s = some (r, s')) :
    streams.total s.events < streams.total s'.events := by
  obtain ⟨st, w, dh, s₁, hclass, hprep, hmount, hdev, hdh, hanc, hpre⟩ := hturns
  obtain ⟨d, rfl⟩ := Option.isSome_iff_exists.mp hdh
  have hopened := (prepare_passes sys _ _ st { s with world := w } s₁ _ hprep _ le_rfl).total
  have hcount : ownCount (preparedStream (.ready (some d))) = 1 := rfl
  rw [hcount] at hopened
  have hdesc : ∀ s₂ : State W, descend sys conf dir (if conf.flags.chdir then dir.drop s.base else dir) st
      nopenfd last walk fuel d s₂ = some (.leave, s₂) := fun s₂ => if_pos ⟨hmount, hdev⟩
  -- the state in which the call returns has the events of `s₁` and at most a callback
  have hsame : streams.total s'.events = streams.total s₁.events := by
    simp only [activation, hclass, hprep, visit, hanc, Option.isSome_some, Bool.false_eq_true, if_true,
      if_false] at h
    rcases hpre with hdepth | hzero
    · simp only [hdepth, if_true, hdesc, Option.some.injEq, Prod.mk.injEq] at h
      rw [← h.2]
    · by_cases hdepth : conf.flags.depth = true
      · simp only [hdepth, if_true, hdesc, Option.some.injEq, Prod.mk.injEq] at h
        rw [← h.2]
      · have hflow := callback_flow fn dir st .D s₁ _ le_rfl
        simp only [hdepth, Bool.false_eq_true, if_false, hzero, if_true, hdesc, Option.some.injEq,
          Prod.mk.injEq] at h
        rw [← h.2, hflow.total, add_zero]
  have hbefore : streams.total ({ s with world := w } : State W).events = streams.total s.events := rfl
  omega

include hfds hkeeps in
/-- INTERNAL: a call that does not turn back gives back every stream, as far as its own calls do. -/
theorem activation_settles (walk g : Bytes → ℤ → List Data → State W → Option (ℤ × State W))
    (htracks : Tracks walk g) (fuel : ℕ) (dir : Bytes) (nopenfd : ℤ) (last : List Data) (s s' : State W) (r : ℤ)
    (hstay : ¬ TurnsBack sys fn conf dir last s)
    (h : activation sys fn conf walk fuel dir nopenfd last s = some (r, s')) :
    Settles (max 1 nopenfd) 0 0 s.events s'.events
      (activation sys fn conf g fuel dir nopenfd last s = some (r, s'))
      (activation sys fn conf g fuel dir nopenfd last s = none) := by
  rcases hclass : classify sys conf.flags (if conf.flags.chdir then dir.drop s.base else dir) s.world with
    ⟨_ | ⟨type, st⟩, w⟩
  · simp only [activation, hclass, Option.some.injEq, Prod.mk.injEq] at h ⊢
    obtain ⟨rfl, rfl⟩ := h
    exact Or.inl ⟨⟨rfl, rfl⟩, fun B hB => Ledger.Flow.refl B s.events (by omega)⟩
  by_cases hdir : type = .D
  · subst hdir
    simp only [activation, hclass] at h ⊢
    rcases hprep : prepare sys conf.flags (if conf.flags.chdir then dir.drop s.base else dir) st
        { s with world := w } with _ | ⟨p, s₁⟩
    · simp [hprep] at h
    have hpass : Passes 1 (ownCount (preparedStream p)) (own sys (preparedStream p)) s.events s₁.events :=
      prepare_passes sys _ _ st { s with world := w } s₁ p hprep
    cases p with
    | visited =>
      simp only [hprep, Option.some.injEq, Prod.mk.injEq] at h ⊢
      obtain ⟨rfl, rfl⟩ := h
      exact Or.inl ⟨⟨rfl, rfl⟩, fun B hB => hpass B (by omega)⟩
    | failed =>
      simp only [hprep, Option.some.injEq, Prod.mk.injEq] at h ⊢
      obtain ⟨rfl, rfl⟩ := h
      exact Or.inl ⟨⟨rfl, rfl⟩, fun B hB => hpass B (by omega)⟩
    | ready dh =>
      simp only [hprep] at h ⊢
      have hnot : ¬ AtMount fn conf dir last st dh s₁ := fun hat => hstay ⟨st, w, dh, s₁, hclass, hprep, hat⟩
      have hvisit := visit_settles sys hfds hkeeps fn conf dir _ nopenfd last fuel walk g htracks _ st dh s₁ s' r
        (fun hsome => if_pos hsome) hnot h
      have hall := hpass.before hvisit (max 1 nopenfd) (by omega) (by simp [preparedStream])
      exact hall.congr (by simp [preparedStream]) (by simp [preparedStream])
  · -- a file that is no directory has no stream
    have hnot : ¬ AtMount fn conf dir last st (none : Option D) { s with world := w } := fun hat => by
      simpa using hat.2.2.1
    have hvisit : ∀ walk, activation sys fn conf walk fuel dir nopenfd last s =
        visit sys fn conf dir (if conf.flags.chdir then dir.drop s.base else dir) type st nopenfd last walk
          fuel none { s with world := w } := by
      intro walk
      unfold activation
      dsimp only
      rw [hclass]
      cases type <;> first | rfl | exact absurd rfl hdir
    rw [hvisit] at h ⊢
    have hsettles := visit_settles sys hfds hkeeps fn conf dir _ nopenfd last fuel walk g htracks type st none
      { s with world := w } s' r (fun hsome => by simp at hsome) hnot h
    simpa using hsettles

include hfds hkeeps in
/-- INTERNAL: **every call of `walker`**: it gives back what it has opened, or some call below it
has turned back. -/
theorem walker_tracks (fuel : ℕ) : Tracks (walker sys fn conf fuel) (staying sys fn conf fuel) := by
  induction fuel with
  | zero =>
    intro dir nopenfd last s r s' h
    simp [walker] at h
  | succ fuel ih =>
    intro dir nopenfd last s r s' h
    rw [walker_succ] at h
    rw [staying]
    by_cases hturns : TurnsBack sys fn conf dir last s
    · have hleak := activation_turnsBack sys fn conf _ fuel dir nopenfd last s s' r hturns h
      exact Or.inr ⟨if_pos hturns, by omega⟩
    · rw [if_neg hturns]
      exact activation_settles sys hfds hkeeps fn conf _ _ ih fuel dir nopenfd last s s' r hturns h

/-- INTERNAL: where no call turns back, the two walks are the same. -/
theorem staying_eq_walker (hnever : ∀ dir last s, ¬ TurnsBack sys fn conf dir last s) (fuel : ℕ) :
    staying sys fn conf fuel = walker sys fn conf fuel := by
  induction fuel with
  | zero => rfl
  | succ fuel ih =>
    funext dir nopenfd last s
    rw [walker_succ, staying, if_neg (hnever dir last s), ih]

end Walker

/-! ## The whole walk -/

/-- The configuration, the path and the state that `nftw` calls `walker` with, if it does.
SOURCE: dietlibc-ftw.patch:285-341 -/
def walkStart (sys : System W D) (dir : Bytes) (flags : Flags) (w : W) : Option (Conf × Bytes × State W) :=
  let (buf, len) := trimSlashes (dir ++ [0]) dir.length
  let path := cstr buf
  match sys.stat dir w with
  | (.error _, _) => none
  | (.ok st, w) =>
    let conf : Conf := ⟨flags, if flags.mount then st.node.dev else 0⟩
    let slash := if len ≠ 0 then strrchr path else none
    let s : State W := ⟨w, 0, startBase slash, .empty, [], []⟩
    if flags.chdir then
      match saveCwd sys path slash w with
      | (none, _) => none
      | (some (_, fullpath), w) =>
        some (conf, path,
          { s with world := w, fullpath := fullpath ++ List.replicate (PATH_MAX - fullpath.length) 0 })
    else some (conf, path, s)

/-- No call of `walker` in the walk turns back at a mount point. -/
def NeverTurnsBack (sys : System W D) (fn : Callback W) (fuel : ℕ) (dir : Bytes) (nopenfd : ℤ) (flags : Flags)
    (w : W) : Prop :=
  ∀ conf path s, walkStart sys dir flags w = some (conf, path, s) →
    (staying sys fn conf fuel path nopenfd [] s).isSome

/-- INTERNAL: freeing the list of visited directories opens and closes nothing. -/
theorem destroy_events (rc rc' : ℤ) (s s' : State W) (h : nftw.destroy rc s = some (rc', s')) :
    s'.events = s.events := by
  obtain ⟨-, m, rfl⟩ := destroy_eq h
  rfl

/-- INTERNAL: the events of `nftw` are those of its call of `walker`, if there is one. -/
theorem nftw_events (sys : System W D) (fn : Callback W) (fuel : ℕ) (dir : Bytes) (nopenfd : ℤ)
    (flags : Flags) (w : W) (rc : ℤ) (s' : State W) (h : nftw sys fn fuel dir nopenfd flags w = some (rc, s')) :
    walkStart sys dir flags w = none ∧ s'.events = [] ∨
      ∃ conf path s r s₁, walkStart sys dir flags w = some (conf, path, s) ∧ s.events = [] ∧
        walker sys fn conf fuel path nopenfd [] s = some (r, s₁) ∧ s'.events = s₁.events := by
  unfold nftw at h
  unfold walkStart
  rcases htrim : trimSlashes (dir ++ [0]) dir.length with ⟨buf, len⟩
  simp only [htrim] at h ⊢
  rcases hstat : sys.stat dir w with ⟨_ | st, w₁⟩
  · simp only [hstat] at h ⊢
    refine Or.inl ⟨trivial, ?_⟩
    rw [← (Prod.mk.inj (Option.some.inj h)).2]
  simp only [hstat] at h ⊢
  cases hchdir : flags.chdir with
  | true =>
    simp only [hchdir, if_true] at h ⊢
    rcases hsave : saveCwd sys (cstr buf) (if len ≠ 0 then strrchr (cstr buf) else none) w₁ with
      ⟨_ | ⟨cwd, fullpath⟩, w₂⟩
    · simp only [hsave] at h ⊢
      refine Or.inl ⟨trivial, ?_⟩
      rw [← (Prod.mk.inj (Option.some.inj h)).2]
    · simp only [hsave] at h ⊢
      obtain ⟨⟨r, s₁⟩, hwalk, hend⟩ := Option.bind_eq_some_iff.mp h
      have hdestroy := destroy_events _ _ _ _ hend
      exact Or.inr ⟨_, _, _, r, s₁, rfl, rfl, hwalk, hdestroy⟩
  | false =>
    simp only [hchdir, Bool.false_eq_true, if_false] at h ⊢
    obtain ⟨⟨r, s₁⟩, hwalk, hend⟩ := Option.bind_eq_some_iff.mp h
    have hdestroy := destroy_events _ _ _ _ hend
    exact Or.inr ⟨_, _, _, r, s₁, rfl, rfl, hwalk, hdestroy⟩

/-- INTERNAL: `walker` gets the flags of `nftw` -/
theorem walkStart_flags (sys : System W D) (dir : Bytes) (flags : Flags) (w : W) (conf : Conf) (path : Bytes)
    (s : State W) (h : walkStart sys dir flags w = some (conf, path, s)) : conf.flags = flags := by
  unfold walkStart at h
  dsimp only at h
  split at h
  · contradiction
  by_cases hchdir : flags.chdir = true
  · rw [if_pos hchdir] at h
    split at h
    · contradiction
    · rw [← (Prod.mk.inj (Option.some.inj h)).1]
  · rw [if_neg hchdir] at h
    rw [← (Prod.mk.inj (Option.some.inj h)).1]

/-- INTERNAL: **without `FTW_MOUNT`** no call turns back. -/
theorem neverTurnsBack_of_not_mount (sys : System W D) (fn : Callback W) (fuel : ℕ) (dir : Bytes)
    (nopenfd : ℤ) (flags : Flags) (hmount : flags.mount = false) (w : W) (rc : ℤ) (s' : State W)
    (h : nftw sys fn fuel dir nopenfd flags w = some (rc, s')) :
    NeverTurnsBack sys fn fuel dir nopenfd flags w := by
  intro conf path s hstart
  have hflags := walkStart_flags sys dir flags w conf path s hstart
  have hnever : ∀ dir last s, ¬ TurnsBack sys fn conf dir last s := by
    rintro dir last s ⟨st, w, dh, s₁, -, -, hat, -⟩
    rw [hflags, hmount] at hat
    contradiction
  rw [staying_eq_walker sys fn conf hnever]
  rcases nftw_events sys fn fuel dir nopenfd flags w rc s' h with ⟨hnone, -⟩ | ⟨c, q, s₀, r, s₁, hs, -, hw, -⟩
  · rw [hstart] at hnone
    contradiction
  · rw [hstart] at hs
    obtain ⟨rfl, rfl, rfl⟩ : conf = c ∧ path = q ∧ s = s₀ := by simpa using hs
    rw [hw]
    rfl

/-- The streams of a walk are in order: there are never more open ones than `nopenfd` allows, and all
are closed at the end. -/
def StreamsInOrder (nopenfd : ℤ) (events : List Event) : Prop :=
  (∀ p, p <+: events → streams.total p ≤ max 1 nopenfd) ∧ streams.Settled events

/-- **The streams of a walk.** Whatever the kernel answers and the callback returns, as long as no
descriptor is 0: when `nftw` returns, it has never held more than `max(1, nopenfd)` streams open and
has closed them all exactly if no call of `walker` has turned back at a mount point.
SOURCE: dietlibc-ftw.patch:101-269 -/
theorem nftw_streams_iff (sys : System W D) (hfds : NeverZero sys) (hkeeps : KeepsFd sys) (fn : Callback W)
    (fuel : ℕ) (dir : Bytes) (nopenfd : ℤ) (flags : Flags) (w : W) (rc : ℤ) (s' : State W)
    (h : nftw sys fn fuel dir nopenfd flags w = some (rc, s')) :
    StreamsInOrder nopenfd s'.events ↔ NeverTurnsBack sys fn fuel dir nopenfd flags w := by
  have hzero : streams.total ([] : List Event) = 0 := rfl
  rcases nftw_events sys fn fuel dir nopenfd flags w rc s' h with ⟨hnone, hevents⟩ | hwalks
  · apply iff_of_true
    · rw [hevents]
      refine ⟨fun p hp => ?_, List.Perm.refl _⟩
      rw [List.prefix_nil.mp hp, hzero]
      omega
    · intro conf path s hstart
      rw [hnone] at hstart
      contradiction
  obtain ⟨conf, path, s, r, s₁, hstart, hempty, hwalk, hevents⟩ := hwalks
  have htracks := walker_tracks sys hfds hkeeps fn conf fuel path nopenfd [] s r s₁ hwalk
  have hcond : NeverTurnsBack sys fn fuel dir nopenfd flags w ↔
      (staying sys fn conf fuel path nopenfd [] s).isSome := by
    constructor
    · intro hnever
      exact hnever conf path s hstart
    · intro hsome conf' path' s₀ hstart'
      rw [hstart] at hstart'
      obtain ⟨rfl, rfl, rfl⟩ : conf = conf' ∧ path = path' ∧ s = s₀ := by simpa using hstart'
      exact hsome
  rw [hcond, hevents]
  rcases htracks with ⟨hwell, hpass⟩ | ⟨hrefused, hleak⟩
  · have hflow := hpass (max 1 nopenfd) (by rw [hempty, hzero, zero_add])
    rw [hempty] at hflow
    apply iff_of_true
    · refine ⟨fun p hp => hflow.bound p List.nil_prefix hp, streams.settled_of_held _ fun fd => ?_⟩
      rw [hflow.held]
      rfl
    · rw [hwell]
      rfl
  · apply iff_of_false
    · rintro ⟨-, hsettled⟩
      have htotal := streams.total_of_settled _ hsettled
      rw [hempty, hzero] at hleak
      omega
    · rw [hrefused]
      simp

/-! ## A mount point -/

/-- A directory `d` with a file, and with a directory `m` that is on another device. -/
def mountStat (p : Bytes) : Except ℕ Stat :=
  if p = ascii ['d'] then .ok ⟨⟨1, 1⟩, .dir⟩
  else if p = ascii ['d', '/', 'm'] then .ok ⟨⟨1, 2⟩, .dir⟩
  else if p = ascii ['d', '/', 'f'] then .ok ⟨⟨2, 1⟩, .other⟩
  else .error ENOENT

def mountNames (p : Bytes) : Option (List Bytes) :=
  if p = ascii ['d'] then some [ascii ['m'], ascii ['f']]
  else if p = ascii ['d', '/', 'm'] then some []
  else none

def mountSystem : System Unit (List Dirent × ℕ) := tableSystem mountStat mountStat mountNames []

/-- The walk of `d` with one stream and `FTW_PHYS`. -/
def mountWalk (mount : Bool) : Option (ℤ × State Unit) :=
  nftw mountSystem (fun _ w => (0, w)) 10 (ascii ['d']) 1 ⟨true, mount, false, false⟩ ()

/-- INTERNAL: the streams of the example keep their descriptors. -/
theorem keepsFd_mountSystem : KeepsFd mountSystem := ⟨fun _ _ => rfl, fun _ _ => rfl⟩

/-- **A mount point leaks a stream.** In the walk with `FTW_MOUNT` and `nopenfd` 1 two streams are open
when the second entry is read, and one is left when `nftw` returns 0. -/
theorem nftw_leaks_stream_at_mount :
    NeverZero mountSystem ∧ ∃ s', mountWalk true = some (0, s') ∧
      (¬ ∀ p, p <+: s'.events → streams.total p ≤ max 1 1) ∧ ¬ streams.Settled s'.events := by
  have htotals : (mountWalk true).map
      (fun p => (p.1, streams.total (p.2.events.take 7), streams.total p.2.events)) = some (0, 2, 1) := by
    decide +kernel
  obtain ⟨⟨rc, s'⟩, hwalk, htotal⟩ := Option.map_eq_some_iff.mp htotals
  obtain ⟨rfl, htwo, hone⟩ : rc = 0 ∧ streams.total (s'.events.take 7) = 2 ∧ streams.total s'.events = 1 := by
    simpa using htotal
  refine ⟨fun _ => Nat.succ_ne_zero 2, s', hwalk, fun hbound => ?_, fun hsettled => ?_⟩
  · have hle := hbound _ (List.take_prefix 7 s'.events)
    rw [htwo] at hle
    exact absurd hle (by decide)
  · rw [streams.total_of_settled _ hsettled] at hone
    exact absurd hone (by decide)

/-- **The same walk without `FTW_MOUNT`** turns back nowhere, and its streams are in order. -/
theorem nftw_streams_iff_without_mount :
    ∃ rc s', mountWalk false = some (rc, s') ∧ StreamsInOrder 1 s'.events := by
  have hsome : (mountWalk false).isSome = true := by decide +kernel
  obtain ⟨⟨rc, s'⟩, hwalk⟩ := Option.isSome_iff_exists.mp hsome
  have hnever := neverTurnsBack_of_not_mount mountSystem (fun _ w => (0, w)) 10 (ascii ['d']) 1
    ⟨true, false, false, false⟩ rfl () rc s' hwalk
  have hiff := nftw_streams_iff mountSystem (fun _ => Nat.succ_ne_zero 2) keepsFd_mountSystem
    (fun _ w => (0, w)) 10 (ascii ['d']) 1 ⟨true, false, false, false⟩ () rc s' hwalk
  exact ⟨rc, s', hwalk, hiff.mpr hnever⟩

end TTLinux.Analysis.FtwStreams
