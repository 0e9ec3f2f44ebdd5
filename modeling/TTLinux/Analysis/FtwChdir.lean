import TTLinux.Analysis.FtwFaults
import TTLinux.Analysis.FtwStart

/-!
# A walk that changes its working directory

With `FTW_CHDIR` every callback should be made in the directory that contains the file it reports. `walker` goes
into a directory by the name of the directory, and back by the descriptor of the one above it, or by the
full path where that one has been closed.
-/

set_option autoImplicit false

namespace TTLinux.Analysis.FtwChdir

open TTLinux.Lib
open TTLinux.Model.Ftw
open TTLinux.Analysis.FtwCalls (NameFits PathBuffer child pathBuffer_pathBuffer strncpy_cstr)
open TTLinux.Analysis.FtwFaults
open TTLinux.Analysis.FtwKernel
open TTLinux.Analysis.FtwStart
open TTLinux.Analysis.FtwStreams (walkStart)
open TTLinux.Analysis.FtwTrace
open TTLinux.Analysis.FtwTree (nameOffset nameOffset_child nameOffset_name slash_offset)
open TTLinux.Analysis.FtwTable (direntsOf)

variable {W D N : Type}

section Steps

variable {sys : System W D} {ns : Namespace N} (view : View sys ns)

/-! ## Single steps -/

/-- What the streams of a walk are like: none has descriptor 0, which `walker` takes for a closed stream, and the names
that they deliver fit into the path buffer. -/
structure Streams (sys : System W D) where
  good : D → Prop
  opendir : ∀ p w dh w', sys.opendir p w = (some dh, w') → good dh
  readdir : ∀ dh w, good dh → good (sys.readdir dh w).2.1
  seekdir : ∀ dh off, good dh → good (sys.seekdir dh off)
  fd : ∀ dh, good dh → sys.fd dh ≠ 0
  names : ∀ dh w de dh' w', good dh → sys.readdir dh w = (some de, dh', w') → NameFits de.dName ∧ de.dName ≠ []

/-- The working directory, the descriptors and the full path stay as they are. -/
structure Unmoved (s s' : State W) : Prop where
  cwd : view.cwd s'.world = view.cwd s.world
  opened : view.opened s'.world = view.opened s.world
  path : s'.fullpath = s.fullpath

/-- A stream is opened, and nothing else changes. -/
structure Opens (p : Bytes) (dh : D) (s s' : State W) : Prop where
  cwd : view.cwd s'.world = view.cwd s.world
  path : s'.fullpath = s.fullpath
  fresh : view.opened s.world (sys.fd dh) = none
  own : view.opened s'.world (sys.fd dh) = ns.locate (view.cwd s.world) p
  others : ∀ k, k ≠ sys.fd dh → view.opened s'.world k = view.opened s.world k
  handed : ∃ w w', sys.opendir p w = (some dh, w')

/-- A stream is opened, or not. -/
def MayOpen (p : Bytes) (dh : Option D) (s s' : State W) : Prop :=
  match dh with
  | some dh => Opens view p dh s s'
  | none => Unmoved view s s'

variable {view}

/-- INTERNAL: a step that does nothing. -/
theorem Unmoved.refl (s : State W) : Unmoved view s s := ⟨rfl, rfl, rfl⟩

/-- INTERNAL: two steps that leave everything as it is. -/
theorem Unmoved.trans {s s₁ s₂ : State W} (h : Unmoved view s s₁) (h' : Unmoved view s₁ s₂) : Unmoved view s s₂ :=
  ⟨h'.cwd.trans h.cwd, h'.opened.trans h.opened, h'.path.trans h.path⟩

/-- INTERNAL: a stream that is opened after such a step. -/
theorem MayOpen.after {p : Bytes} {dh : Option D} {s s₁ s₂ : State W} (h : Unmoved view s s₁)
    (h' : MayOpen view p dh s₁ s₂) : MayOpen view p dh s s₂ := by
  cases dh with
  | none => exact h.trans h'
  | some dh =>
    obtain ⟨hcwd, hpath, hfresh, hown, hothers, hhanded⟩ := h'
    rw [h.cwd] at hcwd hown
    rw [h.opened] at hfresh
    exact ⟨hcwd, hpath.trans h.path, hfresh, hown, fun k hk => (hothers k hk).trans (congrFun h.opened k), hhanded⟩

/-- INTERNAL: `stat` changes nothing. -/
theorem classify_unmoved (flags : Flags) (here : Bytes) (s : State W) :
    Unmoved view s { s with world := (classify sys flags here s.world).2 } := by
  have hfirst : view.cwd (if flags.phys then sys.lstat here s.world else sys.stat here s.world).2 = view.cwd s.world ∧
      view.opened (if flags.phys then sys.lstat here s.world else sys.stat here s.world).2 =
        view.opened s.world := by
    split_ifs
    · exact view.lstat here s.world
    · exact view.stat here s.world
  unfold classify
  rcases hcall : (if flags.phys then sys.lstat here s.world else sys.stat here s.world) with ⟨err | st, w⟩
  · rw [hcall] at hfirst
    dsimp only
    split_ifs
    · have hsecond := view.lstat here w
      rcases hagain : sys.lstat here w with ⟨_ | st, w'⟩
      · rw [hagain] at hsecond
        exact ⟨hsecond.1.trans hfirst.1, hsecond.2.trans hfirst.2, rfl⟩
      · rw [hagain] at hsecond
        exact ⟨hsecond.1.trans hfirst.1, hsecond.2.trans hfirst.2, rfl⟩
    · exact ⟨hfirst.1, hfirst.2, rfl⟩
  · rw [hcall] at hfirst
    exact ⟨hfirst.1, hfirst.2, rfl⟩

/-- INTERNAL: `opendir` opens the stream of its path. -/
theorem openStream_mayOpen {p : Bytes} {s s' : State W} {dh : Option D} (h : openStream sys p s = (dh, s')) :
    MayOpen view p dh s s' := by
  unfold openStream at h
  have hcwd := view.opendir_cwd p s.world
  rcases hopen : sys.opendir p s.world with ⟨_ | d, w⟩
  · rw [hopen] at h hcwd
    cases h
    exact ⟨hcwd, view.opendir_fails p s.world w hopen, rfl⟩
  · rw [hopen] at h hcwd
    cases h
    obtain ⟨hfresh, hown, hothers⟩ := view.opendir p s.world d w hopen
    exact ⟨hcwd, rfl, hfresh, hown, hothers, s.world, w, hopen⟩

/-- INTERNAL: `add_node` works on the list of visited directories. -/
theorem addNode_unmoved {st : Stat} {s s' : State W} {ok : Bool} (h : addNode sys st s = some (ok, s')) :
    Unmoved view s s' := by
  unfold addNode at h
  have hmalloc := view.malloc s.world
  rcases hnode : sys.malloc s.world with ⟨node, w⟩
  rw [hnode] at h hmalloc
  dsimp only at h
  split_ifs at h
  · have hcalloc := view.calloc s.ftwList w
    obtain ⟨r, -, hr⟩ := Option.map_eq_some_iff.mp h
    rw [← (Prod.mk.inj hr).2]
    exact ⟨hcalloc.1.trans hmalloc.1, hcalloc.2.trans hmalloc.2, rfl⟩
  · cases h
    exact ⟨hmalloc.1, hmalloc.2, rfl⟩

/-- The stream that a call of `walker` begins with. -/
def arrivalStream : Arrival D → Option D
  | .present _ _ dh => dh
  | _ => none

/-- The stream that the part for a directory leaves. -/
def preparedStream : Prepared D → Option D
  | .ready dh => dh
  | _ => none

/-- INTERNAL: preparing a file opens the stream that is handed on. -/
theorem prepare_mayOpen {flags : Flags} {here : Bytes} {st : Stat} {s s' : State W} {p : Prepared D}
    (h : prepare sys flags here st s = some (p, s')) : MayOpen view here (preparedStream p) s s' := by
  unfold prepare at h
  split_ifs at h with hphys
  · cases h
    exact openStream_mayOpen rfl
  · obtain ⟨found, -, h⟩ := Option.bind_eq_some_iff.mp h
    split_ifs at h with hfound
    · cases h
      exact Unmoved.refl s
    · obtain ⟨⟨added, s₁⟩, hadd, h⟩ := Option.bind_eq_some_iff.mp h
      have hunmoved : Unmoved view s s₁ := addNode_unmoved hadd
      dsimp only at h
      split_ifs at h with hadded
      · cases h
        exact MayOpen.after hunmoved (openStream_mayOpen rfl)
      · cases h
        exact hunmoved

/-- INTERNAL: the beginning of `walker` opens a stream at most.
SOURCE: dietlibc-ftw.patch:116-154 -/
theorem arrive_mayOpen {conf : Conf} {dir : Bytes} {s s' : State W} {a : Arrival D}
    (h : arrive sys conf dir s = some (a, s')) : MayOpen view (hereOf conf dir s) (arrivalStream a) s s' := by
  unfold arrive at h
  have hclassify : Unmoved view s { s with world := (classify sys conf.flags (hereOf conf dir s) s.world).2 } :=
    classify_unmoved conf.flags (hereOf conf dir s) s
  rcases hclass : classify sys conf.flags (hereOf conf dir s) s.world with ⟨_ | ⟨type, st⟩, w⟩
  · rw [hclass] at h hclassify
    cases h
    exact hclassify
  · rw [hclass] at h hclassify
    dsimp only at h
    split_ifs at h with htype
    · rcases hprep : prepare sys conf.flags (hereOf conf dir s) st { s with world := w } with _ | ⟨p, s₁⟩
      · rw [hprep] at h
        cases h
      · have hopens := MayOpen.after hclassify (prepare_mayOpen hprep)
        rw [hprep] at h
        cases p <;> cases h <;> exact hopens
    · cases h
      exact hclassify

/-- The length of the full path up to the directory that contains a file.
SOURCE: dietlibc-ftw.patch:186 -/
def baseLength (last : List Data) (fullpath : Bytes) : ℕ :=
  match last with
  | d :: _ => d.len
  | [] => (cstr fullpath).length

/-- The way into a directory behind so many bytes of the full path.
SOURCE: dietlibc-ftw.patch:185-199 -/
def goDownFrom (sys : System W D) (here : Bytes) (b : ℕ) (s : State W) : Option ℕ × State W :=
  match sys.chdir here s.world with
  | (false, w) => (none, { s with world := w })
  | (true, w) =>
    if PATH_MAX ≤ b + 1 + here.length then (none, { s with world := w, fullpath := store s.fullpath b [47] })
    else
      (some (b + 1 + here.length),
        { s with world := w, fullpath := store (store s.fullpath b [47]) (b + 1) (here ++ [0]) })

/-- INTERNAL: with `FTW_CHDIR`, the way down starts at the base of the directory's path. -/
theorem goDown_eq {flags : Flags} (hchdir : flags.chdir = true) (here : Bytes) (last : List Data) (s : State W) :
    goDown sys flags here last s = goDownFrom sys here (baseLength last s.fullpath) s := by
  unfold goDown
  rw [if_pos hchdir]
  cases last <;> rfl

variable (view)

/-- INTERNAL: **the way into a directory**: the working directory is the one that the name leads to, and the full
path goes on by the name.
SOURCE: dietlibc-ftw.patch:185-199 -/
theorem goDown_moves {flags : Flags} (hchdir : flags.chdir = true) {here : Bytes} {last : List Data} {s s' : State W}
    {len : ℕ} (h : goDown sys flags here last s = (some len, s')) :
    ns.locate (view.cwd s.world) here = some (view.cwd s'.world) ∧ view.opened s'.world = view.opened s.world ∧
      len = baseLength last s.fullpath + 1 + here.length ∧ len < PATH_MAX ∧
      (PATH_MAX ≤ s.fullpath.length → s'.fullpath.length = s.fullpath.length ∧
        s'.fullpath.take len = s.fullpath.take (baseLength last s.fullpath) ++ slash :: here) := by
  rw [goDown_eq hchdir] at h
  generalize baseLength last s.fullpath = b at h ⊢
  unfold goDownFrom at h
  have hopened := view.chdir_opened here s.world
  rcases hmove : sys.chdir here s.world with ⟨_ | _, w⟩
  · rw [hmove] at h
    cases h
  · rw [hmove] at h hopened
    dsimp only at h
    by_cases hlong : PATH_MAX ≤ b + 1 + here.length
    · rw [if_pos hlong] at h
      cases h
    rw [if_neg hlong] at h
    cases h
    refine ⟨view.chdir here s.world w hmove, hopened, rfl, by omega, ?_⟩
    intro hroom
    have hfirst : (store s.fullpath b [47]).length = s.fullpath.length :=
      store_length _ _ _ (by rw [List.length_singleton]; omega)
    have hcut : (store s.fullpath b [47]).take (b + 1) = s.fullpath.take b ++ [47] :=
      store_take_all s.fullpath b [47] (by omega)
    refine ⟨?_, ?_⟩
    · dsimp only
      rw [store_length _ _ _ (by rw [List.length_append, List.length_singleton]; omega), hfirst]
    · have hall := store_take_all (store s.fullpath b [47]) (b + 1) (here ++ [0]) (by omega)
      have hpart := congrArg (List.take (b + 1 + here.length)) hall
      have hfront : (s.fullpath.take b ++ [47] ++ here).length = b + 1 + here.length := by
        simp only [List.length_append, List.length_take, List.length_singleton]
        omega
      rw [List.take_take, hcut, List.length_append, List.length_singleton, Nat.min_eq_left (by omega),
        ← List.append_assoc, ← hfront, List.take_left, hfront] at hpart
      rw [hpart, List.append_assoc]
      rfl

/-- INTERNAL: **the way back out of a directory**: by the descriptor of the directory above it, or by the full path.
SOURCE: dietlibc-ftw.patch:244-253 -/
theorem goBack_moves {flags : Flags} (hchdir : flags.chdir = true) {d : Data} {rest : List Data} {s s' : State W}
    (h : goBack sys flags (d :: rest) s = (true, s')) :
    view.opened s'.world = view.opened s.world ∧ s'.fullpath = store s.fullpath d.len [0] ∧
      (d.fd ≠ 0 → view.opened s.world d.fd = some (view.cwd s'.world)) ∧
      (d.fd = 0 → ns.locate (view.cwd s.world) (cstr (store s.fullpath d.len [0])) = some (view.cwd s'.world)) := by
  unfold goBack at h
  rw [hchdir] at h
  dsimp only at h
  by_cases hfd : d.fd = 0
  · rw [if_neg (not_not.mpr hfd)] at h
    have hopened := view.chdir_opened (cstr (store s.fullpath d.len [0])) s.world
    rcases hmove : sys.chdir (cstr (store s.fullpath d.len [0])) s.world with ⟨ok, w⟩
    rw [hmove] at h hopened
    cases h
    exact ⟨hopened, rfl, fun hne => absurd hfd hne, fun _ => view.chdir _ _ _ hmove⟩
  · rw [if_pos hfd] at h
    have hopened := view.fchdir_opened d.fd s.world
    rcases hmove : sys.fchdir d.fd s.world with ⟨ok, w⟩
    rw [hmove] at h hopened
    cases h
    exact ⟨hopened, rfl, fun _ => view.fchdir _ _ _ hmove, fun hzero => absurd hzero hfd⟩

end Steps

/-! ## What holds at a call -/

section Walk

variable {sys : System W D} {ns : Namespace N} (view : View sys ns) (d₀ : N)

/-- The callback neither changes the working directory nor opens or closes streams of the walk. -/
def Polite (fn : Callback W) : Prop :=
  ∀ c w, view.cwd (fn c w).2 = view.cwd w ∧ view.opened (fn c w).2 = view.opened w

/-- **A callback is in place**: the working directory contains the file that it reports, and the name from the base
on names the file there. `d₀` is the working directory at the call of `nftw`. -/
def InPlace (c : Call) (w : W) : Prop :=
  ns.container d₀ c.path = some (view.cwd w) ∧
    ∀ follow, ns.resolve follow (view.cwd w) (c.path.drop c.base) = ns.resolve follow d₀ c.path

/-- All callbacks are in place. -/
def AllInPlace (items : List (Item W)) : Prop :=
  ∀ depth c r w, .call depth c r w ∈ items → InPlace view d₀ c w

variable {view} {d₀} {streams : Streams sys}

/-- INTERNAL: no callback is out of place where there is none. -/
theorem allInPlace_nil : AllInPlace view d₀ [] := by
  intro depth c r w hmem
  cases hmem

/-- INTERNAL: and neither is an item of another kind. -/
theorem allInPlace_of_ne {e : Item W} (h : ∀ depth c r w, e ≠ .call depth c r w) : AllInPlace view d₀ [e] := by
  intro depth c r w hmem
  exact absurd (List.mem_singleton.mp hmem).symm (h depth c r w)

/-- INTERNAL: callbacks in place, and others behind them. -/
theorem AllInPlace.append {a b : List (Item W)} (h : AllInPlace view d₀ a) (h' : AllInPlace view d₀ b) :
    AllInPlace view d₀ (a ++ b) := by
  intro depth c r w hmem
  rcases List.mem_append.mp hmem with hmem | hmem
  · exact h depth c r w hmem
  · exact h' depth c r w hmem

/-- A path and the offset of its last component, and the directory that contains the file. -/
structure Named (ns : Namespace N) (d₀ : N) (dir : Bytes) (base : ℕ) (C : N) : Prop where
  nonempty : dir ≠ []
  noEnd : dir.getLast? ≠ some slash
  component : IsComponent (dir.drop base)
  last : (components dir).getLast? = some (dir.drop base)
  container : ns.container d₀ dir = some C

/-- INTERNAL: a callback is in place when the working directory is the one that contains its file. -/
theorem Named.inPlace {dir : Bytes} {base : ℕ} {C : N} (h : Named ns d₀ dir base C) {w : W} (hw : view.cwd w = C)
    (st : Stat) (type : FtwType) (level : ℤ) : InPlace view d₀ ⟨dir, st, type, level, base⟩ w := by
  subst hw
  refine ⟨h.container, fun follow => ?_⟩
  rw [ns.resolve_of_container follow d₀ _ dir _ h.noEnd h.last h.container]
  exact ns.resolve_component follow _ _ h.component

/-- INTERNAL: the file of a path is entered from that directory by its name. -/
theorem Named.locate {dir : Bytes} {base : ℕ} {C : N} (h : Named ns d₀ dir base C) :
    ns.locate d₀ dir = ns.enter C (dir.drop base) := ns.locate_of_container d₀ C dir _ h.nonempty h.last h.container

/-- INTERNAL: an entry of a directory. -/
theorem named_child {dir name : Bytes} {E : N} (hdir : dir ≠ []) (hname : IsComponent name)
    (hE : ns.locate d₀ dir = some E) : Named ns d₀ (child dir name) (dir.length + 1) E := by
  have hdrop : (child dir name).drop (dir.length + 1) = name := by
    unfold child
    rw [List.drop_append]
    simp
  have hlast : (child dir name).getLast? = name.getLast? := by
    unfold child
    rw [List.getLast?_append_of_ne_nil _ (by simp), List.getLast?_cons_of_ne_nil hname.nonempty]
  refine ⟨by simp [child], ?_, ?_, ?_, ?_⟩
  · rw [hlast]
    exact Namespace.getLast_component name hname
  · rw [hdrop]
    exact hname
  · have hcomponents : components (child dir name) = components dir ++ [name] := components_child dir name hname
    rw [hdrop, hcomponents, List.getLast?_concat]
  · exact (ns.container_child d₀ dir name hdir hname).trans hE

/-- The first bytes of the full path are the path of a directory. -/
structure Leads (ns : Namespace N) (buf : Bytes) (len : ℕ) (C : N) : Prop where
  noZero : (0 : UInt8) ∉ buf.take len
  absolute : (buf.take len).head? = some slash
  leads : ns.locate C (buf.take len) = some C

/-- The full path goes on to a file in the directory `C`. -/
structure GoesOn (ns : Namespace N) (buf : Bytes) (len : ℕ) (C : N) (name : Bytes) : Prop where
  noZero : (0 : UInt8) ∉ buf.take len
  absolute : (buf.take len).head? = some slash
  leads : ns.locate C (buf.take len ++ slash :: name) = ns.enter C name

/-- INTERNAL: a name behind the path of a directory. -/
theorem Leads.goesOn {buf : Bytes} {len : ℕ} {C : N} (h : Leads ns buf len C) {name : Bytes}
    (hname : IsComponent name) : GoesOn ns buf len C name := by
  refine ⟨h.noZero, h.absolute, ?_⟩
  have hne : buf.take len ≠ [] := by
    intro hnil
    have habsolute := h.absolute
    rw [hnil] at habsolute
    cases habsolute
  rw [ns.locate_child C _ name hne hname, h.leads]
  rfl

/-- INTERNAL: the full path of the directory that is entered. -/
theorem GoesOn.leads_child {buf buf' : Bytes} {len len' : ℕ} {C E : N} {name : Bytes} (h : GoesOn ns buf len C name)
    (hbuf : buf'.take len' = buf.take len ++ slash :: name) (hzero : (0 : UInt8) ∉ name)
    (hE : ns.enter C name = some E) : Leads ns buf' len' E := by
  have hhead : (buf.take len ++ slash :: name).head? = some slash := by
    rw [List.head?_append, h.absolute]
    rfl
  refine ⟨?_, ?_, ?_⟩
  · rw [hbuf, List.mem_append, List.mem_cons, not_or, not_or]
    exact ⟨h.noZero, by decide, hzero⟩
  · rw [hbuf]
    exact hhead
  · rw [hbuf, ns.locate_absolute E C _ hhead, h.leads, hE]

/-- The state at a call of `walker` for a file in the directory `C`: the working directory is `C`, the descriptor
of `C` is open or `nopenfd` is used up, and if `right` the full path leads to `C`. -/
structure Stand (view : View sys ns) (right : Prop) (nopenfd : ℤ) (last : List Data) (s : State W) (C : N) : Prop where
  cwd : view.cwd s.world = C
  fd : ∀ d rest, last = d :: rest → d.fd ≠ 0 → view.opened s.world d.fd = some C
  closed : ∀ d rest, last = d :: rest → d.fd = 0 → nopenfd ≤ 0
  path : ∀ d rest, last = d :: rest → right → Leads ns s.fullpath d.len C
  len : ∀ d rest, last = d :: rest → d.len < PATH_MAX
  room : PATH_MAX ≤ s.fullpath.length

/-- INTERNAL: the call of `walker` that `nftw` makes. -/
theorem stand_nil (right : Prop) (nopenfd : ℤ) (s : State W) (hroom : PATH_MAX ≤ s.fullpath.length) :
    Stand view right nopenfd [] s (view.cwd s.world) := by
  refine ⟨rfl, ?_, ?_, ?_, ?_, hroom⟩ <;> intro d rest hlast <;> cases hlast

/-- What a call of `walker` leaves: descriptors that were open before, and the full path of the directory. -/
structure Leaves (view : View sys ns) (last : List Data) (s s' : State W) : Prop where
  fds : ∀ k n, view.opened s.world k = some n → view.opened s'.world k = some n
  path : ∀ d rest, last = d :: rest → s'.fullpath.take d.len = s.fullpath.take d.len
  room : s'.fullpath.length = s.fullpath.length

/-- INTERNAL: a step that changes nothing leaves what a call leaves. -/
theorem Unmoved.leaves {s s' : State W} (h : Unmoved view s s') (last : List Data) : Leaves view last s s' where
  fds := fun k n hk => (congrFun h.opened k).trans hk
  path := fun d rest _ => by rw [h.path]
  room := by rw [h.path]

/-- INTERNAL: so does the opening of a stream. -/
theorem Opens.leaves {p : Bytes} {dh : D} {s s' : State W} (h : Opens view p dh s s') (last : List Data) :
    Leaves view last s s' where
  fds := by
    intro k n hk
    have hne : k ≠ sys.fd dh := by
      rintro rfl
      rw [h.fresh] at hk
      cases hk
    exact (h.others k hne).trans hk
  path := fun d rest _ => by rw [h.path]
  room := by rw [h.path]

/-- INTERNAL: and a step that may open one. -/
theorem MayOpen.leaves {p : Bytes} {dh : Option D} {s s' : State W} (h : MayOpen view p dh s s') (last : List Data) :
    Leaves view last s s' := by
  cases dh with
  | none => exact Unmoved.leaves h last
  | some dh => exact Opens.leaves h last

/-- INTERNAL: the working directory stays when a stream is opened. -/
theorem MayOpen.cwd {p : Bytes} {dh : Option D} {s s' : State W} (h : MayOpen view p dh s s') :
    view.cwd s'.world = view.cwd s.world := by
  cases dh with
  | none => exact Unmoved.cwd h
  | some dh => exact Opens.cwd h

/-- INTERNAL: what two calls leave, one after the other. -/
theorem Leaves.trans {last : List Data} {s s₁ s₂ : State W} (h : Leaves view last s s₁)
    (h' : Leaves view last s₁ s₂) : Leaves view last s s₂ where
  fds := fun k n hk => h'.fds k n (h.fds k n hk)
  path := fun d rest heq => (h'.path d rest heq).trans (h.path d rest heq)
  room := h'.room.trans h.room

/-- A stream is closed, if there is one, and nothing else changes. -/
structure Closes (view : View sys ns) (dh : Option D) (s s' : State W) : Prop where
  cwd : view.cwd s'.world = view.cwd s.world
  path : s'.fullpath = s.fullpath
  others : ∀ k, (∀ d, dh = some d → k ≠ sys.fd d) → view.opened s'.world k = view.opened s.world k

/-- INTERNAL: a stream that is closed after a step that changes nothing. -/
theorem Closes.after {dh : Option D} {s s₁ s₂ : State W} (h : Unmoved view s s₁) (h' : Closes view dh s₁ s₂) :
    Closes view dh s s₂ where
  cwd := h'.cwd.trans h.cwd
  path := h'.path.trans h.path
  others := fun k hk => (h'.others k hk).trans (congrFun h.opened k)

/-- INTERNAL: the other streams stay open. -/
theorem Closes.keeps {dh : D} {s s₀ : State W} (h : Closes view (some dh) s s₀) {k : ℕ} {m : N} (hk : k ≠ sys.fd dh)
    (hm : view.opened s.world k = some m) : view.opened s₀.world k = some m := by
  rw [h.others k ?_]
  · exact hm
  intro d hd
  cases hd
  exact hk

/-- INTERNAL: `cleanup` closes the stream of the directory. -/
theorem cleanup_closes (dh : Option D) (s : State W) : Closes view dh s (cleanup sys dh s) := by
  cases dh with
  | none => exact ⟨rfl, rfl, fun _ _ => rfl⟩
  | some d => exact ⟨view.closedir_cwd d s.world, rfl, fun k hk => view.closedir d s.world k (hk d rfl)⟩

/-- INTERNAL: a stream that is opened and closed again. -/
theorem MayOpen.leaves_closed {p : Bytes} {dh : Option D} {s s₁ s₂ : State W} (h : MayOpen view p dh s s₁)
    (h' : Closes view dh s₁ s₂) (last : List Data) : Leaves view last s s₂ := by
  have hleaves := h.leaves last
  refine ⟨?_, ?_, ?_⟩
  · intro k n hk
    rw [h'.others k ?_]
    · exact hleaves.fds k n hk
    rintro d rfl rfl
    have hfresh := Opens.fresh h
    rw [hfresh] at hk
    cases hk
  · intro d rest heq
    rw [h'.path]
    exact hleaves.path d rest heq
  · rw [h'.path]
    exact hleaves.room

/-- INTERNAL: a callback leaves the walk as it is. -/
theorem callback_unmoved {fn : Callback W} (hfn : Polite view fn) {dir : Bytes} {st : Stat} {type : FtwType}
    {s s₁ : State W} {r : ℤ} (h : callback fn dir st type s = (r, s₁)) : Unmoved view s s₁ := by
  unfold callback at h
  cases h
  exact ⟨(hfn _ _).1, (hfn _ _).2, rfl⟩

/-- INTERNAL: so do the reports before the entries. -/
theorem before_unmoved {fn : Callback W} (hfn : Polite view fn) {flags : Flags} {depth : ℕ} {dir : Bytes}
    {st : Stat} {type : FtwType} {s : State W} {pre : List (Item W)} {r : ℤ} {s₁ : State W}
    (h : before fn flags depth dir st type s = .give pre (r, s₁)) : Unmoved view s s₁ := by
  rcases before_cases h with ⟨-, -, -, rfl⟩ | ⟨-, -, hcall⟩
  · exact Unmoved.refl s₁
  · exact callback_unmoved hfn hcall

/-- INTERNAL: the end of a call closes the stream. -/
theorem finish_closes {fn : Callback W} (hfn : Polite view fn) {flags : Flags} {depth : ℕ} {dir : Bytes} {st : Stat}
    {type : FtwType} {dh : Option D} {retval : ℤ} {s : State W} {post : List (Item W)} {r : ℤ} {s₁ : State W}
    (h : finish sys fn flags depth dir st type dh retval s = .give post (r, s₁)) : Closes view dh s s₁ := by
  rcases finish_cases h with ⟨-, -, rfl⟩ | ⟨-, type', s₂, -, hcall, rfl⟩
  · exact cleanup_closes dh s
  · exact Closes.after (callback_unmoved hfn hcall) (cleanup_closes dh s₂)

/-- INTERNAL: the only callback of a file is in place. -/
theorem Named.call {dir : Bytes} {base : ℕ} {C : N} (h : Named ns d₀ dir base C) {w : W} (hw : view.cwd w = C)
    (depth : ℕ) (st : Stat) (type : FtwType) (level r : ℤ) :
    AllInPlace view d₀ [.call depth ⟨dir, st, type, level, base⟩ r w] := by
  intro depth' c r' w' hmem
  cases List.mem_singleton.mp hmem
  exact h.inPlace hw st type level

/-- INTERNAL: the callback before the entries is in place. -/
theorem before_inPlace {fn : Callback W} {flags : Flags} {depth : ℕ} {dir : Bytes} {st : Stat} {type : FtwType}
    {s : State W} {pre : List (Item W)} {r : ℤ} {s₁ : State W} {C : N}
    (h : before fn flags depth dir st type s = .give pre (r, s₁)) (hnamed : Named ns d₀ dir s.base C)
    (hcwd : view.cwd s.world = C) : AllInPlace view d₀ pre := by
  rcases before_cases h with ⟨-, rfl, -⟩ | ⟨-, rfl, -⟩
  · exact allInPlace_nil
  · exact hnamed.call hcwd depth st type s.level r

/-- INTERNAL: the callback behind the entries is made with `FTW_DEPTH` only.
SOURCE: dietlibc-ftw.patch:259-263 -/
theorem finish_inPlace {fn : Callback W} {flags : Flags} {depth : ℕ} {dir : Bytes} {st : Stat} {type : FtwType}
    {dh : Option D} {retval : ℤ} {s : State W} {post : List (Item W)} {r : ℤ} {s₁ : State W} {C : N}
    (h : finish sys fn flags depth dir st type dh retval s = .give post (r, s₁)) (hnamed : Named ns d₀ dir s.base C)
    (hcwd : flags.depth = true → view.cwd s.world = C) : AllInPlace view d₀ post := by
  cases hdepth : flags.depth with
  | false =>
    have hpost : post = [] := by
      unfold finish at h
      rw [hdepth, if_neg (fun hcond => Bool.false_ne_true hcond.2)] at h
      exact (congrArg Traced.items h).symm
    rw [hpost]
    exact allInPlace_nil
  | true =>
    rcases finish_cases h with ⟨rfl, -⟩ | ⟨-, type', s₂, rfl, -⟩
    · exact allInPlace_nil
    · exact hnamed.call (hcwd hdepth) depth st type' s.level r

/-! ## The entries of a directory -/

/-- The state in a round of the loop of the directory `E`. -/
structure Reading (view : View sys ns) (streams : Streams sys) (d₀ : N) (right : Prop) (dir : Bytes) (n : ℕ) (E : N) (dh : D) (data : Data)
    (path : Bytes) (s : State W) : Prop where
  noZero : (0 : UInt8) ∉ dir
  nonempty : dir ≠ []
  offset : n = dir.length + 1
  buffer : PathBuffer path dir
  base : s.base = n
  names : ns.locate d₀ dir = some E
  isDir : ns.isDir E = true
  cwd : view.cwd s.world = E
  own : view.opened s.world (sys.fd dh) = some E
  good : streams.good dh
  fd : data.fd = sys.fd dh
  leads : right → Leads ns s.fullpath data.len E
  len : data.len < PATH_MAX
  room : PATH_MAX ≤ s.fullpath.length

/-- What the loop of the directory `E` leaves: the working directory, the descriptors that are not its own, and the
full path of the directory. -/
structure Done (view : View sys ns) (E : N) (own len : ℕ) (e : LoopEnd D) (s s' : State W) : Prop where
  ended : e ≠ .error
  cwd : view.cwd s'.world = E
  fds : ∀ k n, k ≠ own → view.opened s.world k = some n →
    view.opened s'.world k = some n ∧ ∀ dh r, e = .done (some dh) r → k ≠ sys.fd dh
  path : s'.fullpath.take len = s.fullpath.take len
  room : s'.fullpath.length = s.fullpath.length

/-- INTERNAL: the length of a path is not changed while its entries are walked. -/
theorem duringCall_len (nopenfd : ℤ) (data : Data) : (duringCall nopenfd data).len = data.len := by
  unfold duringCall
  split_ifs <;> rfl

/-- INTERNAL: at most the stream of the directory is closed before an entry is walked. -/
theorem beforeCall_closes (nopenfd : ℤ) (dh : D) (s : State W) :
    Closes view (some dh) s (beforeCall sys nopenfd dh s) := by
  unfold beforeCall
  split_ifs
  · exact cleanup_closes (some dh) s
  · exact ⟨rfl, rfl, fun _ _ => rfl⟩

/-- INTERNAL: `readdir` changes nothing. -/
theorem readdir_unmoved {dh dh' : D} {s : State W} {de : Option Dirent} {w : W}
    (h : sys.readdir dh s.world = (de, dh', w)) : Unmoved view s { s with world := w } ∧ sys.fd dh' = sys.fd dh := by
  have hsame := view.readdir dh s.world
  have hfd := view.readdir_fd dh s.world
  rw [h] at hsame hfd
  exact ⟨⟨hsame.1, hsame.2, rfl⟩, hfd⟩

/-- INTERNAL: a stream that `readdir` returns is still good. -/
theorem readdir_good {dh dh' : D} {w w' : W} {de : Option Dirent} (h : sys.readdir dh w = (de, dh', w'))
    (hgood : streams.good dh) : streams.good dh' := by
  have hnext := streams.readdir dh w hgood
  rwa [h] at hnext

section Entry

variable {right : Prop} {dir path : Bytes} {n : ℕ} {E : N} {dh dh' : D} {data : Data} {s : State W} {de : Dirent}
  {w : W}

/-- INTERNAL: in front of the call for an entry.
SOURCE: dietlibc-ftw.patch:220-227 -/
theorem entry_closes (nopenfd : ℤ) (hread : sys.readdir dh s.world = (some de, dh', w)) :
    Closes view (some dh) s (beforeCall sys nopenfd dh' { s with world := w }) := by
  have hstep : Unmoved view s { s with world := w } ∧ sys.fd dh' = sys.fd dh := readdir_unmoved hread
  have hcloses := Closes.after hstep.1 (beforeCall_closes nopenfd dh' { s with world := w })
  refine ⟨hcloses.cwd, hcloses.path, fun k hk => hcloses.others k ?_⟩
  intro d hd
  cases hd
  rw [hstep.2]
  exact hk dh rfl

/-- INTERNAL: the call for an entry is made in the directory, whose descriptor is open or `nopenfd` is used up.
SOURCE: dietlibc-ftw.patch:220-230 -/
theorem Reading.stand (h : Reading view streams d₀ right dir n E dh data path s)
    (hread : sys.readdir dh s.world = (some de, dh', w)) (nopenfd : ℤ) (last : List Data) :
    Stand view right (nopenfd - 1) (duringCall nopenfd data :: last)
      (beforeCall sys nopenfd dh' { s with world := w }) E := by
  have hcloses : Closes view (some dh) s (beforeCall sys nopenfd dh' { s with world := w }) :=
    entry_closes nopenfd hread
  refine ⟨hcloses.cwd.trans h.cwd, ?_, ?_, ?_, ?_, ?_⟩
  · rintro d rest heq hne
    cases heq
    by_cases hfull : nopenfd ≤ 1
    · exact absurd (by unfold duringCall; rw [if_pos hfull]) hne
    · have hstep : Unmoved view s { s with world := w } ∧ sys.fd dh' = sys.fd dh := readdir_unmoved hread
      unfold duringCall beforeCall
      rw [if_neg hfull, if_neg hfull, h.fd, congrFun hstep.1.opened]
      exact h.own
  · rintro d rest heq hzero
    cases heq
    by_cases hfull : nopenfd ≤ 1
    · omega
    · unfold duringCall at hzero
      rw [if_neg hfull, h.fd] at hzero
      exact absurd hzero (streams.fd dh h.good)
  · rintro d rest heq hright
    cases heq
    rw [duringCall_len, hcloses.path]
    exact h.leads hright
  · rintro d rest heq
    cases heq
    rw [duringCall_len]
    exact h.len
  · rw [hcloses.path]
    exact h.room

/-- INTERNAL: the path of an entry.
SOURCE: dietlibc-ftw.patch:220 -/
theorem Reading.named (h : Reading view streams d₀ right dir n E dh data path s) (hname : NameFits de.dName)
    (hempty : de.dName ≠ []) (nopenfd : ℤ) :
    PathBuffer (strncpy path n de.dName) dir ∧
      Named ns d₀ (cstr (strncpy path n de.dName)) (beforeCall sys nopenfd dh' { s with world := w }).base E := by
  have hbase := ((keeps_world sys s w).trans (keeps_beforeCall sys nopenfd dh' { s with world := w })).base
  rw [hbase, h.base, h.offset]
  obtain ⟨hcstr, hbuffer⟩ := strncpy_cstr path dir de.dName h.buffer h.noZero hname
  rw [hcstr]
  exact ⟨hbuffer, named_child h.nonempty ⟨hempty, hname.noSlash⟩ h.names⟩

/-- INTERNAL: the loop behind the call for an entry, with another stream or the same one.
SOURCE: dietlibc-ftw.patch:229-239 -/
theorem Reading.goOn (h : Reading view streams d₀ right dir n E dh data path s) {name : Bytes} {nopenfd : ℤ}
    {last : List Data} {s₀ s₁ : State W} (hpath : s₀.fullpath = s.fullpath)
    (hleaves : Leaves view (duringCall nopenfd data :: last) s₀ s₁) (hbuffer : PathBuffer name dir)
    {dh₂ : D} {data₂ : Data} {s₂ : State W} (hbase : s₂.base = n) (hcwd : view.cwd s₂.world = E)
    (hown : view.opened s₂.world (sys.fd dh₂) = some E) (hgood : streams.good dh₂) (hfd : data₂.fd = sys.fd dh₂) (hlen : data₂.len = data.len)
    (hsame : s₂.fullpath = s₁.fullpath) : Reading view streams d₀ right dir n E dh₂ data₂ name s₂ := by
  have hfront := hleaves.path _ _ rfl
  rw [duringCall_len, hpath] at hfront
  refine ⟨h.noZero, h.nonempty, h.offset, hbuffer, hbase, h.names, h.isDir, hcwd, hown, hgood, hfd,
    ?_, hlen ▸ h.len, ?_⟩
  · intro hright
    obtain ⟨hzero, habsolute, hleads⟩ := h.leads hright
    rw [← hfront] at hzero habsolute hleads
    rw [hlen, hsame]
    exact ⟨hzero, habsolute, hleads⟩
  · rw [hsame, hleaves.room, hpath]
    exact h.room

/-- INTERNAL: the rest of the loop behind the call for an entry.
SOURCE: dietlibc-ftw.patch:229-239 -/
theorem Done.behind {nopenfd : ℤ} {last : List Data} {s₀ s₁ s₂ s₃ : State W} {e : LoopEnd D} {own' : ℕ}
    (hcloses : Closes view (some dh) s s₀) (hleaves : Leaves view (duringCall nopenfd data :: last) s₀ s₁)
    (hsame : s₂.fullpath = s₁.fullpath)
    (hfds : ∀ k m, k ≠ sys.fd dh → view.opened s₁.world k = some m → k ≠ own' ∧ view.opened s₂.world k = some m)
    (hdone : Done view E own' data.len e s₂ s₃) : Done view E (sys.fd dh) data.len e s s₃ where
  ended := hdone.ended
  cwd := hdone.cwd
  fds := by
    intro k m hk hm
    obtain ⟨hown, hopen⟩ := hfds k m hk (hleaves.fds k m (hcloses.keeps hk hm))
    exact hdone.fds k m hown hopen
  path := by
    have hfront := hleaves.path _ _ rfl
    rw [duringCall_len, hcloses.path] at hfront
    rw [hdone.path, hsame, hfront]
  room := by rw [hdone.room, hsame, hleaves.room, hcloses.path]

/-- INTERNAL: an entry that is passed over.
SOURCE: dietlibc-ftw.patch:212-218 -/
theorem Reading.dots (h : Reading view streams d₀ right dir n E dh data path s)
    (hread : sys.readdir dh s.world = (some de, dh', w)) :
    Reading view streams d₀ right dir n E dh' data path { s with world := w } := by
  have hstep : Unmoved view s { s with world := w } ∧ sys.fd dh' = sys.fd dh := readdir_unmoved hread
  refine ⟨h.noZero, h.nonempty, h.offset, h.buffer, h.base, h.names, h.isDir, hstep.1.cwd.trans h.cwd, ?_,
    readdir_good hread h.good, h.fd.trans hstep.2.symm, h.leads, h.len, h.room⟩
  rw [hstep.2, congrFun hstep.1.opened]
  exact h.own

/-- INTERNAL: what the loop leaves does not depend on an entry that is passed over. -/
theorem Done.dots {e : LoopEnd D} {s' : State W} (hread : sys.readdir dh s.world = (some de, dh', w))
    (h : Done view E (sys.fd dh') data.len e { s with world := w } s') : Done view E (sys.fd dh) data.len e s s' := by
  have hstep : Unmoved view s { s with world := w } ∧ sys.fd dh' = sys.fd dh := readdir_unmoved hread
  refine ⟨h.ended, h.cwd, ?_, h.path, h.room⟩
  intro k m hk hm
  exact h.fds k m (hstep.2 ▸ hk) ((congrFun hstep.1.opened k).trans hm)

/-- INTERNAL: the loop goes on with the same stream, if it was not closed for the call.
SOURCE: dietlibc-ftw.patch:220-230 -/
theorem Reading.next (h : Reading view streams d₀ right dir n E dh data path s)
    (hread : sys.readdir dh s.world = (some de, dh', w)) {nopenfd : ℤ} (hopen : ¬ nopenfd ≤ 1) {last : List Data}
    {name : Bytes} {s₁ : State W}
    (hleaves : Leaves view (duringCall nopenfd data :: last) (beforeCall sys nopenfd dh' { s with world := w }) s₁)
    (hbuffer : PathBuffer name dir) (hbase : s₁.base = n) (hcwd : view.cwd s₁.world = E) :
    Reading view streams d₀ right dir n E dh' (duringCall nopenfd data) name s₁ := by
  have hcloses : Closes view (some dh) s (beforeCall sys nopenfd dh' { s with world := w }) := entry_closes nopenfd hread
  have hstep : Unmoved view s { s with world := w } ∧ sys.fd dh' = sys.fd dh := readdir_unmoved hread
  have hdata : duringCall nopenfd data = data := if_neg hopen
  have hown : view.opened s₁.world (sys.fd dh') = some E := by
    apply hleaves.fds
    unfold beforeCall
    rw [if_neg hopen, hstep.2, congrFun hstep.1.opened]
    exact h.own
  exact h.goOn hcloses.path hleaves hbuffer hbase hcwd hown (readdir_good hread h.good) (by rw [hdata, h.fd, hstep.2])
    (duringCall_len nopenfd data) rfl

/-- INTERNAL: the loop goes on with the stream that was opened again.
SOURCE: dietlibc-ftw.patch:232-239 -/
theorem Reading.reopened (h : Reading view streams d₀ right dir n E dh data path s) {nopenfd : ℤ} {last : List Data}
    {name : Bytes} {s₀ s₁ s₂ : State W} {dh₂ : D} (offset : ℤ) (hpath : s₀.fullpath = s.fullpath)
    (hleaves : Leaves view (duringCall nopenfd data :: last) s₀ s₁) (hbuffer : PathBuffer name dir) (hbase : s₂.base = n)
    (hcwd : view.cwd s₁.world = E) (hopens : Opens view [46] dh₂ s₁ s₂) :
    Reading view streams d₀ right dir n E (sys.seekdir dh₂ offset) { duringCall nopenfd data with fd := sys.fd dh₂ } name
      s₂ := by
  obtain ⟨w₁, w₂, hhanded⟩ := hopens.handed
  have hgood : streams.good dh₂ := streams.opendir _ _ _ _ hhanded
  have hseek : sys.fd (sys.seekdir dh₂ offset) = sys.fd dh₂ := view.seekdir_fd _ _
  have hisDir : ns.isDir (view.cwd s₁.world) = true := hcwd ▸ h.isDir
  have hown : view.opened s₂.world (sys.fd dh₂) = some E := by
    rw [hopens.own, view.dot _ hisDir, hcwd]
  exact h.goOn hpath hleaves hbuffer hbase (hopens.cwd.trans hcwd) (hseek.symm ▸ hown) (streams.seekdir _ _ hgood)
    hseek.symm (duringCall_len nopenfd data) hopens.path

/-- INTERNAL: the loop ends behind the call for an entry.
SOURCE: dietlibc-ftw.patch:229-230 -/
theorem Done.stops (hread : sys.readdir dh s.world = (some de, dh', w)) {nopenfd : ℤ} {last : List Data} {s₁ : State W}
    (hleaves : Leaves view (duringCall nopenfd data :: last) (beforeCall sys nopenfd dh' { s with world := w }) s₁)
    (hcwd : view.cwd s₁.world = E) (r : ℤ) :
    Done view E (sys.fd dh) data.len (.done (heldStream nopenfd dh') r) s s₁ := by
  have hcloses : Closes view (some dh) s (beforeCall sys nopenfd dh' { s with world := w }) := entry_closes nopenfd hread
  have hstep : Unmoved view s { s with world := w } ∧ sys.fd dh' = sys.fd dh := readdir_unmoved hread
  refine ⟨by simp, hcwd, ?_, ?_, ?_⟩
  · intro k m hk hm
    refine ⟨hleaves.fds k m (hcloses.keeps hk hm), ?_⟩
    intro dh₂ r' heq
    unfold heldStream at heq
    by_cases hfull : nopenfd ≤ 1
    · rw [if_pos hfull] at heq
      cases heq
    · rw [if_neg hfull] at heq
      cases heq
      rw [hstep.2]
      exact hk
  · have hfront := hleaves.path _ _ rfl
    rwa [duringCall_len, hcloses.path] at hfront
  · rw [hleaves.room, hcloses.path]

end Entry

/-! ## A directory -/

/-- INTERNAL: the way back by the full path.
SOURCE: dietlibc-ftw.patch:245-250 -/
theorem Leads.cstr_store {buf : Bytes} {len : ℕ} {C : N} (h : Leads ns buf len C) :
    cstr (store buf len [0]) = buf.take len := by
  unfold store
  rw [List.append_assoc, List.singleton_append, cstr_append, cstr_eq_self _ h.noZero]

/-- INTERNAL: **the way back leads to the directory that contains the one that is left**, by its descriptor or by a
full path that leads there.
SOURCE: dietlibc-ftw.patch:244-253 -/
theorem goBack_returns {flags : Flags} (hchdir : flags.chdir = true) {d : Data} {rest : List Data} {s s' : State W}
    {C : N} (h : goBack sys flags (d :: rest) s = (true, s'))
    (hfd : d.fd ≠ 0 → view.opened s.world d.fd = some C) (hpath : d.fd = 0 → Leads ns s.fullpath d.len C)
    (hlen : d.len < s.fullpath.length) :
    view.cwd s'.world = C ∧ view.opened s'.world = view.opened s.world ∧
      s'.fullpath.take d.len = s.fullpath.take d.len ∧ s'.fullpath.length = s.fullpath.length := by
  obtain ⟨hopened, hbuf, hby, hfull⟩ := goBack_moves view hchdir h
  refine ⟨?_, hopened, ?_, ?_⟩
  · by_cases hzero : d.fd = 0
    · have hleads := hpath hzero
      have hmoved := hfull hzero
      rw [hleads.cstr_store, ns.locate_absolute _ C _ hleads.absolute, hleads.leads] at hmoved
      exact (Option.some.inj hmoved).symm
    · have hmoved := hby hzero
      rw [hfd hzero] at hmoved
      exact (Option.some.inj hmoved).symm
  · rw [hbuf, store_take _ _ _ (by omega)]
  · rw [hbuf, store_length _ _ _ (by rw [List.length_singleton]; omega)]

section Directory

variable {fn : Callback W} {conf : Conf} {dir : Bytes} {nopenfd : ℤ} {last : List Data} {s s' s₁ s₂ : State W}
  {type : FtwType} {st : Stat} {d : D} {pre : List (Item W)} {len : ℕ} {C : N} {right : Prop}

/-- What the way into a directory leaves. -/
structure Into (view : View sys ns) (last : List Data) (d : D) (len : ℕ) (s s₂ : State W) : Prop where
  fds : ∀ k n, view.opened s.world k = some n → k ≠ sys.fd d ∧ view.opened s₂.world k = some n
  path : ∀ a rest, last = a :: rest → a.len ≤ len ∧ s₂.fullpath.take a.len = s.fullpath.take a.len
  room : s₂.fullpath.length = s.fullpath.length

/-- INTERNAL: **the way into a directory**: the loop begins in the directory, with its own stream.
SOURCE: dietlibc-ftw.patch:116-207 -/
theorem directory_begins (hfn : Polite view fn) (hchdir : conf.flags.chdir = true)
    (h : arrive sys conf dir s = some (.present type st (some d), s'))
    (hbefore : before fn conf.flags last.length dir st type s' = .give pre (0, s₁))
    (hdown : goDown sys conf.flags (hereOf conf dir s) last s₁ = (some len, s₂)) (hzero : (0 : UInt8) ∉ dir)
    (hnamed : Named ns d₀ dir s.base C) (hstand : Stand view right nopenfd last s C)
    (hfirst : last = [] → right → GoesOn ns s.fullpath (baseLength [] s.fullpath) C (dir.drop s.base)) :
    Reading view streams d₀ right dir (dir.length + 1) (view.cwd s₂.world) d ⟨st.node, sys.fd d, len⟩
        (pathBuffer (sys.stack s₂.world) dir) (entered dir st s₂) ∧
      Into view last d len s s₂ ∧ ns.enter C (dir.drop s.base) = some (view.cwd s₂.world) := by
  have hhere : hereOf conf dir s = dir.drop s.base := by
    unfold hereOf
    rw [if_pos hchdir]
  have hopens : Opens view (hereOf conf dir s) d s s' := arrive_mayOpen h
  have hunmoved : Unmoved view s' s₁ := before_unmoved hfn hbefore
  have hpath : s₁.fullpath = s.fullpath := hunmoved.path.trans hopens.path
  obtain ⟨hmoved, hopened, hlen, hshort, hbuf⟩ := goDown_moves view hchdir hdown
  rw [hunmoved.cwd, hopens.cwd, hstand.cwd, hhere, ns.locate_component C _ hnamed.component] at hmoved
  obtain ⟨hroom, hfront⟩ := hbuf (hpath ▸ hstand.room)
  rw [hpath] at hlen hroom hfront
  rw [hhere] at hlen hfront
  have hfds : ∀ k n, view.opened s.world k = some n → k ≠ sys.fd d ∧ view.opened s₂.world k = some n := by
    intro k n hk
    have hne : k ≠ sys.fd d := by
      rintro rfl
      rw [hopens.fresh] at hk
      cases hk
    refine ⟨hne, ?_⟩
    rw [hopened, hunmoved.opened, hopens.others k hne]
    exact hk
  have hown : view.opened s₂.world (sys.fd d) = some (view.cwd s₂.world) := by
    rw [hopened, hunmoved.opened, hopens.own, hstand.cwd, hhere, ns.locate_component C _ hnamed.component]
    exact hmoved
  have hgood : streams.good d := by
    obtain ⟨w, w', hhanded⟩ := hopens.handed
    exact streams.opendir _ _ _ _ hhanded
  have hgoes : right → GoesOn ns s.fullpath (baseLength last s.fullpath) C (dir.drop s.base) := by
    intro hright
    cases last with
    | nil => exact hfirst rfl hright
    | cons a rest => exact (hstand.path a rest rfl hright).goesOn hnamed.component
  have hname : (0 : UInt8) ∉ dir.drop s.base := fun hmem => hzero (List.mem_of_mem_drop hmem)
  refine ⟨?_, ⟨hfds, ?_, hroom⟩, hmoved⟩
  · refine ⟨hzero, hnamed.nonempty, rfl, pathBuffer_pathBuffer _ dir, rfl, hnamed.locate.trans hmoved,
      ns.isDir_of_enter hmoved, rfl, hown, hgood, rfl, ?_, hshort, ?_⟩
    · intro hright
      exact (hgoes hright).leads_child hfront hname hmoved
    · exact hroom ▸ hstand.room
  · intro a rest heq
    subst heq
    have hle : a.len ≤ len := by
      rw [hlen]
      exact Nat.le_trans (Nat.le_succ _) (Nat.le_add_right _ _)
    refine ⟨hle, ?_⟩
    have hcut := congrArg (List.take a.len) hfront
    have htake : (s.fullpath.take a.len).length = a.len := by
      rw [List.length_take]
      have hroom' := hstand.room
      have hshort' := hstand.len a rest rfl
      omega
    rw [List.take_take, Nat.min_eq_left hle] at hcut
    rw [hcut]
    change List.take a.len (s.fullpath.take a.len ++ _) = _
    rw [List.take_append_of_le_length (Nat.le_of_eq htake.symm), List.take_take, Nat.min_self]

/-- INTERNAL: **the end of a directory**: the callback behind the entries is made in the directory that contains it,
if the way back leads there.
SOURCE: dietlibc-ftw.patch:244-268 -/
theorem directory_ends (hfn : Polite view fn) (hchdir : conf.flags.chdir = true) {E : N} {e : LoopEnd D}
    {s₃ s₄ : State W} {post : List (Item W)} {r : ℤ} (hinto : Into view last d len s s₂)
    (hdone : Done view E (sys.fd d) len e (entered dir st s₂) s₃)
    (hleave : leaveDir sys fn conf.flags dir st type last s.base (e, s₃) = .give post (r, s₄))
    (hfault : .fault .back ∉ post) (hnamed : Named ns d₀ dir s.base C) (hstand : Stand view right nopenfd last s C)
    (hright : ∀ a rest, last = a :: rest → a.fd = 0 → right)
    (hstart : last = [] → conf.flags.depth = true → E = C) :
    AllInPlace view d₀ post ∧ Leaves view last s s₄ ∧ (last ≠ [] → view.cwd s₄.world = C) := by
  rcases leaveDir_cases hleave with ⟨rfl, -⟩ | ⟨dh, s₅, -, -, rfl, -⟩ | ⟨dh, retval, s₅, rfl, hback, hfinish⟩
  · exact absurd rfl hdone.ended
  · exact absurd (List.mem_singleton.mpr rfl) hfault
  have hcloses : Closes view dh { s₅ with base := s.base, level := s₅.level - 1 } s₄ := finish_closes hfn hfinish
  have hkept : ∀ k n, view.opened s.world k = some n →
      view.opened s₃.world k = some n ∧ ∀ a, dh = some a → k ≠ sys.fd a := by
    intro k n hk
    obtain ⟨hne, hopen⟩ := hinto.fds k n hk
    obtain ⟨hopen₃, hown⟩ := hdone.fds k n hne hopen
    refine ⟨hopen₃, ?_⟩
    rintro a rfl
    exact hown a retval rfl
  have hroom : s₃.fullpath.length = s.fullpath.length := hdone.room.trans hinto.room
  have hfds : view.opened s₅.world = view.opened s₃.world → ∀ k n, view.opened s.world k = some n →
      view.opened s₄.world k = some n := by
    intro hsame k n hk
    obtain ⟨hopen, hown⟩ := hkept k n hk
    rw [hcloses.others k hown]
    exact (congrFun hsame k).trans hopen
  cases last with
  | nil =>
    have hsame : s₅ = s₃ := by
      unfold goBack at hback
      rw [hchdir] at hback
      exact (Prod.mk.inj hback).2.symm
    subst hsame
    refine ⟨finish_inPlace hfinish hnamed ?_, ⟨hfds rfl, ?_, ?_⟩, fun hne => absurd rfl hne⟩
    · intro hdepth
      exact hdone.cwd.trans (hstart rfl hdepth)
    · intro a rest heq
      cases heq
    · rw [hcloses.path]
      exact hroom
  | cons a rest =>
    obtain ⟨hle, hfront⟩ := hinto.path a rest rfl
    have hpath : s₃.fullpath.take a.len = s.fullpath.take a.len := by
      have hcut := congrArg (List.take a.len) hdone.path
      rw [List.take_take, List.take_take, Nat.min_eq_left hle] at hcut
      exact hcut.trans hfront
    have hleads : a.fd = 0 → Leads ns s₃.fullpath a.len C := by
      intro hzero
      obtain ⟨hnozero, habsolute, hlead⟩ := hstand.path a rest rfl (hright a rest rfl hzero)
      rw [← hpath] at hnozero habsolute hlead
      exact ⟨hnozero, habsolute, hlead⟩
    have hlen : a.len < s₃.fullpath.length := by
      have hshort := hstand.len a rest rfl
      have hlong := hstand.room
      omega
    obtain ⟨hcwd, hopened, htake, hlength⟩ := goBack_returns hchdir hback
      (fun hne => (hkept _ _ (hstand.fd a rest rfl hne)).1) hleads hlen
    refine ⟨finish_inPlace hfinish hnamed fun _ => hcwd, ⟨hfds hopened, ?_, ?_⟩, fun _ => hcloses.cwd.trans hcwd⟩
    · intro a' rest' heq
      cases heq
      rw [hcloses.path]
      exact htake.trans hpath
    · rw [hcloses.path]
      exact hlength.trans hroom

end Directory

/-! ## The walk -/

/-- No failure but that of `add_node`, and every directory below the start is left by its parent's descriptor,
which `n₀` streams reach, or by a full path that is right. -/
structure Fair (right : Prop) (n₀ : ℤ) (items : List (Item W)) : Prop where
  calm : ∀ f, f ≠ .node → .fault f ∉ items
  back : ∀ k : ℕ, .into k ∈ items → 0 < k → right ∨ (k : ℤ) < n₀

/-- INTERNAL: a part of a run that is fair. -/
theorem Fair.of_subset {right : Prop} {n₀ : ℤ} {items sub : List (Item W)} (h : Fair right n₀ items)
    (hsub : sub ⊆ items) : Fair right n₀ sub where
  calm := fun f hf hmem => h.calm f hf (hsub hmem)
  back := fun k hk hpos => h.back k (hsub hk) hpos

/-- What holds for a call of `walker` for a file in `C`, and for the loop of a directory `E`. -/
def Sound (view : View sys ns) (streams : Streams sys) (d₀ : N) (right : Prop) (n₀ : ℤ) (flags : Flags) (piece : Piece D) (s : State W)
    (items : List (Item W)) (out : Outcome D) (s' : State W) : Prop :=
  match piece with
  | .walk dir nopenfd last => ∀ C, (0 : UInt8) ∉ dir → Named ns d₀ dir s.base C → Stand view right nopenfd last s C →
      nopenfd + last.length = n₀ →
      (last = [] → right → GoesOn ns s.fullpath (baseLength [] s.fullpath) C (dir.drop s.base)) →
      (last = [] → flags.depth = true → .into 0 ∈ items → ns.enter C (dir.drop s.base) = some C) →
      AllInPlace view d₀ items ∧ Leaves view last s s' ∧ (last ≠ [] → view.cwd s'.world = C)
  | .loop _ n nopenfd last dh data path => ∀ E dir e, Reading view streams d₀ right dir n E dh data path s →
      nopenfd + last.length = n₀ → out = .ended e →
      AllInPlace view d₀ items ∧ Done view E (sys.fd dh) data.len e s s'

/-- INTERNAL: no level is left out in such a run. -/
theorem leaps_eq_zero_of_fair {right : Prop} {n₀ : ℤ} {items : List (Item W)} (h : Fair right n₀ items) :
    leaps items = 0 :=
  (leaps_eq_zero items).mpr ⟨h.calm .reopen (by decide), h.calm .back (by decide)⟩

/-- INTERNAL: the callback in front of the entries.
SOURCE: dietlibc-ftw.patch:116-169 -/
theorem arrived_inPlace {fn : Callback W} {conf : Conf} {dir : Bytes} {last : List Data} {s s' s₁ : State W}
    {type : FtwType} {st : Stat} {dh : Option D} {pre : List (Item W)} {r : ℤ} {C : N}
    (h : arrive sys conf dir s = some (.present type st dh, s'))
    (hbefore : before fn conf.flags last.length dir st type s' = .give pre (r, s₁))
    (hnamed : Named ns d₀ dir s.base C) (hcwd : view.cwd s.world = C) : AllInPlace view d₀ pre := by
  have hopens : MayOpen view (hereOf conf dir s) dh s s' := arrive_mayOpen h
  have hbase : s'.base = s.base := (keeps_arrive sys conf _ _ _ _ h).base
  exact before_inPlace hbefore (hbase ▸ hnamed) (hopens.cwd.trans hcwd)

/-- INTERNAL: a file that is reported and not entered.
SOURCE: dietlibc-ftw.patch:116-169, 259-268 -/
theorem report_sound {fn : Callback W} {conf : Conf} (hfn : Polite view fn) {dir : Bytes} {last : List Data}
    {s s' s₁ s₂ : State W} {type : FtwType} {st : Stat} {dh : Option D} {pre post : List (Item W)} {r r' : ℤ} {C : N}
    (h : arrive sys conf dir s = some (.present type st dh, s'))
    (hbefore : before fn conf.flags last.length dir st type s' = .give pre (r, s₁))
    (hfinish : finish sys fn conf.flags last.length dir st type dh r s₁ = .give post (r', s₂))
    (hnamed : Named ns d₀ dir s.base C) (hcwd : view.cwd s.world = C) :
    AllInPlace view d₀ (pre ++ post) ∧ Leaves view last s s₂ ∧ view.cwd s₂.world = C := by
  have hopens : MayOpen view (hereOf conf dir s) dh s s' := arrive_mayOpen h
  have hunmoved : Unmoved view s' s₁ := before_unmoved hfn hbefore
  have hcloses : Closes view dh s₁ s₂ := finish_closes hfn hfinish
  have hcwd' : view.cwd s'.world = C := hopens.cwd.trans hcwd
  have hpre : AllInPlace view d₀ pre := arrived_inPlace h hbefore hnamed hcwd
  have hpost : AllInPlace view d₀ post :=
    finish_inPlace hfinish ((arrived_base h hbefore).symm ▸ hnamed) fun _ => hunmoved.cwd.trans hcwd'
  exact ⟨hpre.append hpost, hopens.leaves_closed (Closes.after hunmoved hcloses) last,
    hcloses.cwd.trans (hunmoved.cwd.trans hcwd')⟩

/-- INTERNAL: the call for an entry.
SOURCE: dietlibc-ftw.patch:220-230 -/
theorem Reading.entry {right : Prop} {n₀ : ℤ} {flags : Flags} {dir path : Bytes} {n : ℕ} {E : N} {dh dh' : D}
    {data : Data} {s s₁ : State W} {de : Dirent} {w : W} {nopenfd : ℤ} {last : List Data} {items : List (Item W)}
    {out : Outcome D} (h : Reading view streams d₀ right dir n E dh data path s)
    (hread : sys.readdir dh s.world = (some de, dh', w)) (hn₀ : nopenfd + last.length = n₀)
    (hcall : Sound view streams d₀ right n₀ flags
      (.walk (cstr (strncpy path n de.dName)) (nopenfd - 1) (duringCall nopenfd data :: last))
      (beforeCall sys nopenfd dh' { s with world := w }) items out s₁) :
    AllInPlace view d₀ items ∧
      Leaves view (duringCall nopenfd data :: last) (beforeCall sys nopenfd dh' { s with world := w }) s₁ ∧
      view.cwd s₁.world = E ∧ PathBuffer (strncpy path n de.dName) dir := by
  have hlevel : nopenfd - 1 + (duringCall nopenfd data :: last).length = n₀ := by
    rw [List.length_cons]
    push_cast
    omega
  obtain ⟨hname, hempty⟩ := streams.names _ _ _ _ _ h.good hread
  obtain ⟨hbuffer, hnamed⟩ := h.named hname hempty nopenfd
  obtain ⟨hplace, hleaves, hcwd⟩ := hcall E (zero_notMem_cstr _) hnamed (h.stand hread nopenfd last) hlevel
    nofun nofun
  exact ⟨hplace, hleaves, hcwd (List.cons_ne_nil _ _), hbuffer⟩

/-- INTERNAL: **every callback of a run is in place.**
SOURCE: dietlibc-ftw.patch:101-269 -/
theorem runs_sound {fn : Callback W} {conf : Conf} (hfn : Polite view fn)
    (hchdir : conf.flags.chdir = true) {right : Prop} {n₀ : ℤ} {piece : Piece D} {s s' : State W}
    {items : List (Item W)} {out : Outcome D} (h : Runs sys fn conf piece s items out s')
    (hfair : Fair right n₀ items) : Sound view streams d₀ right n₀ conf.flags piece s items out s' := by
  induction h with
  | gone h =>
    intro C _ hnamed hstand _ _ _
    have hopens : Unmoved view _ _ := arrive_mayOpen h
    exact ⟨allInPlace_of_ne (by simp), hopens.leaves _, fun _ => hopens.cwd.trans hstand.cwd⟩
  | visited h =>
    intro C _ hnamed hstand _ _ _
    have hopens : Unmoved view _ _ := arrive_mayOpen h
    exact ⟨allInPlace_nil, hopens.leaves _, fun _ => hopens.cwd.trans hstand.cwd⟩
  | failed h =>
    intro C _ hnamed hstand _ _ _
    have hopens : Unmoved view _ _ := arrive_mayOpen h
    exact ⟨allInPlace_of_ne (by simp), hopens.leaves _, fun _ => hopens.cwd.trans hstand.cwd⟩
  | @refused dir nopenfd last s type st dh s' h _ =>
    intro C _ hnamed hstand _ _ _
    have hopens : MayOpen view (hereOf conf dir s) dh s s' := arrive_mayOpen h
    have hlog : Unmoved view s' (if type = .D ∨ type = .DNR then s'.log (.refused st.node) else s') := by
      split_ifs
      · exact ⟨rfl, rfl, rfl⟩
      · exact Unmoved.refl s'
    have hcloses := Closes.after hlog (cleanup_closes dh _)
    exact ⟨allInPlace_nil, hopens.leaves_closed hcloses last,
      fun _ => hcloses.cwd.trans (hopens.cwd.trans hstand.cwd)⟩
  | leaf h _ hbefore hfinish =>
    intro C _ hnamed hstand _ _ _
    obtain ⟨hplace, hleaves, hcwd⟩ := report_sound hfn h hbefore hfinish hnamed hstand.cwd
    exact ⟨hplace, hleaves, fun _ => hcwd⟩
  | stopped h _ hbefore _ hfinish =>
    intro C _ hnamed hstand _ _ _
    obtain ⟨hplace, hleaves, hcwd⟩ := report_sound hfn h hbefore hfinish hnamed hstand.cwd
    exact ⟨hplace, hleaves, fun _ => hcwd⟩
  | @mount dir nopenfd last s type st d s' pre s₁ h _ hbefore _ =>
    intro C _ hnamed hstand _ _ _
    have hopens : Opens view (hereOf conf dir s) d s s' := arrive_mayOpen h
    have hunmoved : Unmoved view s' s₁ := before_unmoved hfn hbefore
    exact ⟨arrived_inPlace h hbefore hnamed hstand.cwd, (hopens.leaves last).trans (hunmoved.leaves last),
      fun _ => hunmoved.cwd.trans (hopens.cwd.trans hstand.cwd)⟩
  | downFails _ _ _ _ _ => exact absurd (by simp) (hfair.calm .down (by decide))
  | @directory dir nopenfd last s type st d s' pre s₁ len s₂ items e s₃ post r s₄ h _ hbefore _ hdown hloop hleave ih =>
    intro C hzero hnamed hstand hn₀ hfirst hstart
    have hfairLoop : Fair right n₀ items := hfair.of_subset (by intro x hx; simp [hx])
    have hback : Fault.back ≠ .node := by decide
    have hfault : .fault .back ∉ post := fun hmem => hfair.calm .back hback (by simp [hmem])
    obtain ⟨hreading, hinto, henter⟩ := directory_begins hfn hchdir h hbefore hdown hzero hnamed hstand hfirst
    obtain ⟨hinside, hdone⟩ := ih hfairLoop (view.cwd s₂.world) dir e hreading hn₀ rfl
    have hbase : s₂.base = s.base := (keeps_goDown hdown).base.trans (arrived_base h hbefore)
    rw [hbase] at hleave
    have hright : ∀ a rest, last = a :: rest → a.fd = 0 → right := by
      intro a rest heq hclosed
      have hused := hstand.closed a rest heq hclosed
      have hpos : 0 < last.length := by rw [heq]; exact Nat.succ_pos _
      rcases hfair.back last.length (by simp) hpos with hright | hlt
      · exact hright
      · omega
    have hsame : last = [] → conf.flags.depth = true → view.cwd s₂.world = C := by
      intro hnil hdepth
      subst hnil
      have hself := hstart rfl hdepth (by simp)
      rw [henter] at hself
      exact Option.some.inj hself
    obtain ⟨hpost, hleaves, hcwd⟩ := directory_ends hfn hchdir hinto hdone hleave hfault hnamed hstand hright hsame
    have hpre : AllInPlace view d₀ pre := arrived_inPlace h hbefore hnamed hstand.cwd
    have hinto' : AllInPlace view d₀ [.into last.length] := allInPlace_of_ne (by simp)
    exact ⟨hpre.append (hinto'.append (hinside.append hpost)), hleaves, hcwd⟩
  | @atEnd here n nopenfd last dh data path s dh' w hread =>
    intro E dir e hreading _ hout
    cases hout
    have hstep : Unmoved view s { s with world := w } ∧ sys.fd dh' = sys.fd dh := readdir_unmoved hread
    refine ⟨allInPlace_nil, ⟨by simp, hstep.1.cwd.trans hreading.cwd, ?_, rfl, rfl⟩⟩
    intro k m hk hm
    refine ⟨(congrFun hstep.1.opened k).trans hm, ?_⟩
    intro dh₂ r heq
    cases heq
    rw [hstep.2]
    exact hk
  | dots hread _ _ ih =>
    intro E dir e hreading hn₀ hout
    obtain ⟨hplace, hdone⟩ := ih hfair E dir e (hreading.dots hread) hn₀ hout
    exact ⟨hplace, hdone.dots hread⟩
  | entryStops hread _ hcall _ ih =>
    intro E dir e hreading hn₀ hout
    cases hout
    obtain ⟨hplace, hleaves, hcwd, -⟩ := hreading.entry hread hn₀ (ih hfair)
    exact ⟨hplace, Done.stops hread hleaves hcwd _⟩
  | @next here n nopenfd last dh data path s de dh' w items s₁ rest out s₂ hread _ hcall hfd _ ihcall ihrest =>
    intro E dir e hreading hn₀ hout
    have hfairCall : Fair right n₀ items := hfair.of_subset (List.subset_append_left _ _)
    have hfairRest : Fair right n₀ rest := hfair.of_subset (List.subset_append_right _ _)
    obtain ⟨hplace, hleaves, hcwd, hbuffer⟩ := hreading.entry hread hn₀ (ihcall hfairCall)
    have hbase := (entry_restores hcall (leaps_eq_zero_of_fair hfairCall)).2.trans hreading.base
    -- the descriptor was not closed, so the stream is the same one
    have hopen : ¬nopenfd ≤ 1 := fun hfull => hfd (by unfold duringCall; rw [if_pos hfull])
    have hnext := hreading.next hread hopen hleaves hbuffer hbase hcwd
    obtain ⟨hplace', hdone⟩ := ihrest hfairRest E dir e hnext hn₀ hout
    have hstep : Unmoved view s { s with world := w } ∧ sys.fd dh' = sys.fd dh := readdir_unmoved hread
    rw [duringCall_len, hstep.2] at hdone
    exact ⟨hplace.append hplace',
      Done.behind (entry_closes nopenfd hread) hleaves rfl (fun k m hk hm => ⟨hk, hm⟩) hdone⟩
  | @reopened here n nopenfd last dh data path s de dh' w items s₁ dh₂ s₂ rest out s₃ hread _ hcall hfd hopen _
      ihcall ihrest =>
    intro E dir e hreading hn₀ hout
    have hfairCall : Fair right n₀ items := hfair.of_subset (List.subset_append_left _ _)
    have hfairRest : Fair right n₀ rest := hfair.of_subset (List.subset_append_right _ _)
    have hcloses : Closes view (some dh) s (beforeCall sys nopenfd dh' { s with world := w }) :=
      entry_closes nopenfd hread
    obtain ⟨hplace, hleaves, hcwd, hbuffer⟩ := hreading.entry hread hn₀ (ihcall hfairCall)
    have hbase := (entry_restores hcall (leaps_eq_zero_of_fair hfairCall)).2.trans hreading.base
    rw [if_pos hchdir] at hopen
    have hopens : Opens view [46] dh₂ s₁ s₂ := openStream_mayOpen hopen
    have hnext := hreading.reopened (if nopenfd ≤ 1 then de.dOff else 0) hcloses.path hleaves hbuffer
      ((keeps_openStream hopen).base.trans hbase) hcwd hopens
    obtain ⟨hplace', hdone⟩ := ihrest hfairRest E dir e hnext hn₀ hout
    rw [view.seekdir_fd] at hdone
    dsimp only at hdone
    rw [duringCall_len] at hdone
    refine ⟨hplace.append hplace', Done.behind hcloses hleaves hopens.path ?_ hdone⟩
    intro k m _ hm
    have hne : k ≠ sys.fd dh₂ := by
      rintro rfl
      rw [hopens.fresh] at hm
      cases hm
    exact ⟨hne, (hopens.others k hne).trans hm⟩
  | reopenFails _ _ _ _ _ _ => exact absurd (by simp) (hfair.calm .reopen (by decide))

end Walk

/-! ## `nftw` -/

/-- The path that `nftw` changes to: the start up to its last slash.
SOURCE: dietlibc-ftw.patch:325-328 -/
def cutOf (p : Bytes) : Bytes := if nameOffset p = 0 then p else p.take (nameOffset p - 1)

/-- **The full path is right**: the start has a slash in front, or its last component leads from the first working
directory where the start leads.
SOURCE: dietlibc-ftw.patch:331-334 -/
def PathRight (ns : Namespace N) (d₀ : N) (p : Bytes) : Prop :=
  (cutOf p).head? = some slash ∨ ns.locate d₀ (p.drop (nameOffset p)) = ns.locate d₀ p

/-- **The walk finds back out of a directory** that has `k` directories above it: there is a way back for the start
only if it is its own container, and for other directories if a descriptor is left for the one above or the full
path is right.
SOURCE: dietlibc-ftw.patch:244-253 -/
def FindsBack (ns : Namespace N) (d₀ : N) (p : Bytes) (nopenfd : ℤ) (flags : Flags) (k : ℕ) : Prop :=
  (k = 0 → flags.depth = true → ns.locate d₀ p = ns.container d₀ p) ∧ (0 < k → PathRight ns d₀ p ∨ (k : ℤ) < nopenfd)

section Nftw

variable {sys : System W D} {ns : Namespace N} (view : View sys ns)

/-- `FTW_CHDIR` at the start, for a given path to change to.
SOURCE: dietlibc-ftw.patch:319-339 -/
def saveCwdAt (sys : System W D) (cut : Bytes) (w : W) : Option (Bytes × Bytes) × W :=
  match sys.malloc w with
  | (false, w) => (none, w)
  | (true, w) =>
    match sys.getcwd w with
    | (none, w) => (none, w)
    | (some cwd, w) =>
      match sys.chdir cut w with
      | (false, w) => (none, w)
      | (true, w) => (some (cwd, if cut.head? = some 47 then cut else cwd), w)

/-- INTERNAL: the working directory is saved at the name of the start. -/
theorem saveCwd_eq (p : Bytes) (last : Option ℕ) (hbase : startBase last = nameOffset p) (w : W) :
    saveCwd sys p last w = saveCwdAt sys (cutOf p) w := by
  unfold cutOf
  rw [← hbase]
  cases last <;> rfl

/-- INTERNAL: **the beginning of a walk**: the path of the first working directory is saved, and the new one is
where the start leads up to its last slash.
SOURCE: dietlibc-ftw.patch:319-339 -/
theorem saveCwdAt_moves {cut : Bytes} {w w' : W} (hdir : ns.isDir (view.cwd w) = true)
    {saved : Option (Bytes × Bytes)} (h : saveCwdAt sys cut w = (saved, w')) :
    saved = none ∧ view.cwd w' = view.cwd w ∨
      ∃ cwd, saved = some (cwd, if cut.head? = some slash then cut else cwd) ∧
        (cwd.head? = some slash ∧ (0 : UInt8) ∉ cwd ∧ ns.locate (view.cwd w) cwd = some (view.cwd w)) ∧
        ns.locate (view.cwd w) cut = some (view.cwd w') := by
  unfold saveCwdAt at h
  have hmalloc := (view.malloc w).1
  rcases hnode : sys.malloc w with ⟨_ | _, w₁⟩
  · rw [hnode] at h hmalloc
    cases h
    exact Or.inl ⟨rfl, hmalloc⟩
  rw [hnode] at h hmalloc
  dsimp only at h hmalloc
  have hget := (view.getcwd_same w₁).1
  rcases hcwd : sys.getcwd w₁ with ⟨_ | cwd, w₂⟩
  · rw [hcwd] at h hget
    cases h
    exact Or.inl ⟨rfl, hget.trans hmalloc⟩
  have hpath := view.getcwd w₁ cwd w₂ (hmalloc.symm ▸ hdir) hcwd
  rw [hcwd] at h hget
  dsimp only at h hget
  rcases hmove : sys.chdir cut w₂ with ⟨_ | _, w₃⟩
  · rw [hmove] at h
    cases h
    exact Or.inl ⟨rfl, (view.chdir_fails _ _ _ hmove).trans (hget.trans hmalloc)⟩
  · rw [hmove] at h
    cases h
    have hmoved := view.chdir _ _ _ hmove
    rw [hget, hmalloc] at hmoved
    rw [hmalloc] at hpath
    exact Or.inr ⟨cwd, rfl, hpath, hmoved⟩

/-- INTERNAL: the end of `nftw` leads back to the first working directory.
SOURCE: dietlibc-ftw.patch:349-357 -/
theorem traceEnd_moves {cwd : Bytes} {d₀ : N} {r rc : ℤ} {s s' : State W} {items : List (Item W)}
    (habsolute : cwd.head? = some slash) (hcwd : ns.locate d₀ cwd = some d₀)
    (h : traceEnd sys (some cwd) (r, s) = .give items (rc, s')) (hlost : .lost ∉ items) :
    items = [] ∧ view.cwd s'.world = d₀ := by
  rcases traceEnd_value sys (some cwd) r s items rc s' h with ⟨rfl, -, hback⟩ | ⟨rfl, -⟩
  · have hmoved := view.chdir _ _ _ (hback cwd rfl)
    rw [ns.locate_absolute _ d₀ _ habsolute, hcwd] at hmoved
    exact ⟨rfl, (Option.some.inj hmoved).symm⟩
  · exact absurd (List.mem_singleton.mpr rfl) hlost

/-- INTERNAL: the last component of the start. -/
theorem start_named (ns : Namespace N) (d₀ C : N) (p : Bytes) (hp : p ≠ []) (hend : p.getLast? ≠ some slash)
    (hC : ns.container d₀ p = some C) : Named ns d₀ p (nameOffset p) C := by
  obtain ⟨name, hname, rfl | ⟨q, rfl⟩⟩ := last_component p hp hend
  · rw [nameOffset_name p hname.noSlash]
    refine ⟨hp, hend, hname, ?_, hC⟩
    rw [components_of_component p hname]
    rfl
  · have hoffset : nameOffset (q ++ slash :: name) = q.length + 1 := nameOffset_child q name hname.noSlash
    have hdrop : (q ++ slash :: name).drop (q.length + 1) = name := by
      rw [List.drop_append]
      simp
    rw [hoffset]
    refine ⟨hp, hend, hdrop.symm ▸ hname, ?_, hC⟩
    rw [hdrop, components_child q name hname, List.getLast?_concat]

/-- INTERNAL: `nftw` with `FTW_CHDIR` returns -1 without a walk, or it is a walk from the directory that the start
leads to up to its last slash.
SOURCE: dietlibc-ftw.patch:271-358 -/
theorem nftwTrace_chdir (fn : Callback W) (fuel : ℕ) (dir : Bytes) (hzero : (0 : UInt8) ∉ dir) (nopenfd : ℤ)
    (flags : Flags) (hchdir : flags.chdir = true) (w : W) (hdir : ns.isDir (view.cwd w) = true) :
    (∃ s, nftwTrace sys fn fuel dir nopenfd flags w = .give [] (-1, s) ∧ view.cwd s.world = view.cwd w) ∨
      ∃ conf cwd s, conf.flags = flags ∧ s.base = nameOffset (trimmed dir) ∧
        s.fullpath = (if (cutOf (trimmed dir)).head? = some slash then cutOf (trimmed dir) else cwd) ++
          List.replicate (PATH_MAX -
            (if (cutOf (trimmed dir)).head? = some slash then cutOf (trimmed dir) else cwd).length) 0 ∧
        (cwd.head? = some slash ∧ (0 : UInt8) ∉ cwd ∧ ns.locate (view.cwd w) cwd = some (view.cwd w)) ∧
        ns.locate (view.cwd w) (cutOf (trimmed dir)) = some (view.cwd s.world) ∧
        nftwTrace sys fn fuel dir nopenfd flags w =
          (traceWalker sys fn conf fuel (trimmed dir) nopenfd [] s).bind (traceEnd sys (some cwd)) := by
  obtain ⟨buf, hbuf, hcstr⟩ := trimSlashes_cstr dir hzero
  have hbase := slash_offset (trimmed dir) (trimmed_getLast dir)
  unfold nftwTrace
  simp only [hbuf, hcstr, hchdir, if_true]
  generalize (if (trimmed dir).length - 1 ≠ 0 then strrchr (trimmed dir) else none) = last at hbase ⊢
  have hsame := (view.stat dir w).1
  rcases hstat : sys.stat dir w with ⟨err | st, w₁⟩
  · rw [hstat] at hsame
    exact Or.inl ⟨_, rfl, hsame⟩
  rw [hstat] at hsame
  dsimp only at hsame ⊢
  rw [saveCwd_eq (trimmed dir) last hbase w₁]
  rcases hsave : saveCwdAt sys (cutOf (trimmed dir)) w₁ with ⟨saved, w₂⟩
  rcases saveCwdAt_moves view (hsame.symm ▸ hdir) hsave with ⟨rfl, hstay⟩ | ⟨cwd, rfl, hcwd, hmoved⟩
  · exact Or.inl ⟨_, rfl, hstay.trans hsame⟩
  · rw [hsame] at hcwd hmoved
    exact Or.inr ⟨_, cwd, _, rfl, hbase, rfl, hcwd, hmoved, rfl⟩

/-- INTERNAL: the full path at the beginning of a walk goes on to the start, if it is right.
SOURCE: dietlibc-ftw.patch:331-334 -/
theorem start_goesOn {d₀ C : N} {p cwd front : Bytes} (hzero : (0 : UInt8) ∉ p) (hnamed : Named ns d₀ p (nameOffset p) C)
    (hcwd : cwd.head? = some slash ∧ (0 : UInt8) ∉ cwd ∧ ns.locate d₀ cwd = some d₀)
    (hcut : ns.locate d₀ (cutOf p) = some C)
    (hfront : front = if (cutOf p).head? = some slash then cutOf p else cwd) (hright : PathRight ns d₀ p) (k : ℕ) :
    GoesOn ns (front ++ List.replicate k 0) (baseLength [] (front ++ List.replicate k 0)) C (p.drop (nameOffset p)) := by
  have hcutZero : (0 : UInt8) ∉ cutOf p := by
    unfold cutOf
    split_ifs
    · exact hzero
    · exact fun hmem => hzero (List.mem_of_mem_take hmem)
  have hnoZero : (0 : UInt8) ∉ front := by
    rw [hfront]
    split_ifs
    · exact hcutZero
    · exact hcwd.2.1
  have habsolute : front.head? = some slash := by
    rw [hfront]
    split_ifs with hslash
    · exact hslash
    · exact hcwd.1
  have hne : front ≠ [] := by
    rintro rfl
    cases habsolute
  have hlength : baseLength [] (front ++ List.replicate k 0) = front.length := by
    unfold baseLength
    dsimp only
    cases k with
    | zero => rw [List.replicate_zero, List.append_nil, cstr_eq_self _ hnoZero]
    | succ k => rw [List.replicate_succ, cstr_append, cstr_eq_self _ hnoZero]
  rw [hlength]
  have htake : (front ++ List.replicate k 0).take front.length = front := List.take_left
  refine ⟨htake.symm ▸ hnoZero, htake.symm ▸ habsolute, ?_⟩
  rw [htake, ns.locate_child C front _ hne hnamed.component, ns.locate_absolute C d₀ front habsolute]
  by_cases hslash : (cutOf p).head? = some slash
  · rw [hfront, if_pos hslash, hcut]
    rfl
  · have hsame := hright.resolve_left hslash
    rw [hnamed.locate, ns.locate_component d₀ _ hnamed.component] at hsame
    rw [hfront, if_neg hslash, hcwd.2.2]
    exact hsame

/-- **With `FTW_CHDIR` every callback is made in the directory that contains the file it reports, and `nftw` returns
to the first working directory**, if no failure hinders it, the start leads up to its last slash to the directory
that contains it, and the walk finds back out of every directory it enters.
SOURCE: dietlibc-ftw.patch:101-358 -/
theorem callbacks_in_place (streams : Streams sys) (fn : Callback W)
    (hfn : Polite view fn) (fuel : ℕ) (dir : Bytes) (hzero : (0 : UInt8) ∉ dir) (nopenfd : ℤ) (flags : Flags)
    (hchdir : flags.chdir = true) (w : W) (hdir : ns.isDir (view.cwd w) = true) (rc : ℤ) (s' : State W)
    (h : nftw sys fn fuel dir nopenfd flags w = some (rc, s'))
    (hlost : .lost ∉ (nftwTrace sys fn fuel dir nopenfd flags w).items)
    (hcalm : ∀ f, f ≠ .node → .fault f ∉ (nftwTrace sys fn fuel dir nopenfd flags w).items)
    (hstart : ns.locate (view.cwd w) (cutOf (trimmed dir)) = ns.container (view.cwd w) (trimmed dir))
    (hback : ∀ k, .into k ∈ (nftwTrace sys fn fuel dir nopenfd flags w).items →
      FindsBack ns (view.cwd w) (trimmed dir) nopenfd flags k) :
    AllInPlace view (view.cwd w) (nftwTrace sys fn fuel dir nopenfd flags w).items ∧
      view.cwd s'.world = view.cwd w := by
  rw [← nftwTrace_result] at h
  rcases nftwTrace_chdir view fn fuel dir hzero nopenfd flags hchdir w hdir with
    ⟨s, htrace, hcwd⟩ | ⟨conf, cwd, s, rfl, hbase, hfull, hcwd, hmoved, htrace⟩
  · rw [htrace] at h ⊢
    cases h
    exact ⟨allInPlace_nil, hcwd⟩
  have hgive : (traceWalker sys fn conf fuel (trimmed dir) nopenfd [] s).bind (traceEnd sys (some cwd)) =
      .give (nftwTrace sys fn fuel dir nopenfd conf.flags w).items (rc, s') := by
    rw [← htrace, Traced.give, ← h]
  obtain ⟨items, ⟨r, s₁⟩, rest, hwalk, hend, hitems⟩ := Traced.bind_eq_give hgive
  rw [hitems] at hlost hcalm hback ⊢
  obtain ⟨rfl, hreturned⟩ := traceEnd_moves view hcwd.1 hcwd.2.2 hend
    (fun hmem => hlost (List.mem_append_right _ hmem))
  rw [List.append_nil] at hcalm hback ⊢
  refine ⟨?_, hreturned⟩
  have hruns := traceWalker_runs sys fn conf fuel (trimmed dir) nopenfd [] s items r s₁ hwalk
  have hne : trimmed dir ≠ [] := by
    intro hnil
    rw [hnil] at hmoved
    cases hmoved
  have htrim := zero_notMem_trimmed dir hzero
  have hnamed : Named ns (view.cwd w) (trimmed dir) (nameOffset (trimmed dir)) (view.cwd s.world) :=
    start_named ns _ _ _ hne (trimmed_getLast dir) (hstart.symm.trans hmoved)
  have hfair : Fair (PathRight ns (view.cwd w) (trimmed dir)) nopenfd items :=
    ⟨hcalm, fun k hk hpos => (hback k hk).2 hpos⟩
  have hroom : PATH_MAX ≤ s.fullpath.length := by
    rw [hfull, List.length_append, List.length_replicate]
    omega
  have hsound : Sound view streams (view.cwd w) _ nopenfd conf.flags (.walk (trimmed dir) nopenfd []) s items
      (.returned r) s₁ := runs_sound hfn hchdir hruns hfair
  have hplace := hsound (view.cwd s.world) htrim (hbase.symm ▸ hnamed)
    (stand_nil _ nopenfd s hroom) (by simp)
  refine (hplace ?_ ?_).1
  · intro _ hright
    rw [hbase, hfull]
    exact start_goesOn htrim hnamed hcwd hmoved rfl hright _
  · intro _ hdepth hinto
    have hself := (hback 0 hinto).1 rfl hdepth
    rw [hbase, ← hnamed.locate, hself]
    exact hnamed.container

end Nftw

/-- The streams of the kernel for a few files. -/
def placesStreams : Streams placesKernel where
  good dh := dh.fd ≠ 0 ∧ ∀ de ∈ dh.entries, NameFits de.dName ∧ de.dName ≠ []
  opendir p w dh w' h := by
    have hnames : ∀ n : Place, ∀ de ∈ direntsOf n.names, NameFits de.dName ∧ de.dName ≠ [] := by
      intro n de hde
      cases n with
      | root =>
        cases List.mem_singleton.mp hde
        exact ⟨⟨⟨by decide, by decide⟩, by decide⟩, by decide⟩
      | a =>
        cases List.mem_singleton.mp hde
        exact ⟨⟨⟨by decide, by decide⟩, by decide⟩, by decide⟩
      | d =>
        cases List.mem_singleton.mp hde
        exact ⟨⟨⟨by decide, by decide⟩, by decide⟩, by decide⟩
      | x => cases hde
    rcases hn : places.locate w.cwd p with _ | n
    · simp only [placesKernel, kernelOf, hn] at h
      cases h
    · simp only [placesKernel, kernelOf, hn] at h
      cases h
      exact ⟨Nat.succ_ne_zero _, hnames n⟩
  readdir _ _ h := h
  seekdir _ _ h := h
  fd _ h := h.1
  names dh w de dh' w' h hread := by
    have hget : dh.entries[dh.next]? = some de := congrArg Prod.fst hread
    exact h.2 de (List.mem_of_getElem? hget)

/-- A walk of `/a/d` from the root. -/
def placesWalk (depth : Bool) : Traced (Item (Process Place)) (ℤ × State (Process Place)) :=
  nftwTrace placesKernel (fun _ w => (0, w)) 9 (ascii ['/', 'a', '/', 'd']) 2 ⟨false, false, true, depth⟩ ⟨.root, []⟩

/-- **With `FTW_DEPTH` the start is reported from within**: no call fails, and the callback for `/a/d` behind its
entries is made in `/a/d`, which does not contain a `d`. -/
theorem start_reported_inside :
    ∃ s', nftw placesKernel (fun _ w => (0, w)) 9 (ascii ['/', 'a', '/', 'd']) 2 ⟨false, false, true, true⟩
        ⟨.root, []⟩ = some (0, s') ∧
      (.lost ∉ (placesWalk true).items ∧ ∀ f, .fault f ∉ (placesWalk true).items) ∧
      ¬AllInPlace placesView .root (placesWalk true).items := by
  have hitems : (placesWalk true).items = [.into 0,
      .call 1 ⟨ascii ['/', 'a', '/', 'd', '/', 'x'], Place.x.attributes, .F, 1, 5⟩ 0 ⟨.d, [(3, .d)]⟩,
      .call 0 ⟨ascii ['/', 'a', '/', 'd'], Place.d.attributes, .DP, 0, 3⟩ 0 ⟨.d, [(3, .d)]⟩] := by
    decide +kernel
  have hrun : (placesWalk true).result.map Prod.fst = some 0 := by decide +kernel
  obtain ⟨⟨rc, s'⟩, hwalk, rfl⟩ := Option.map_eq_some_iff.mp hrun
  rw [placesWalk, nftwTrace_result] at hwalk
  refine ⟨s', hwalk, ?_, ?_⟩
  · rw [hitems]
    simp
  · intro hall
    have hplace := (hall 0 ⟨ascii ['/', 'a', '/', 'd'], Place.d.attributes, .DP, 0, 3⟩ 0 ⟨.d, [(3, .d)]⟩
      (by rw [hitems]; simp)).1
    exact absurd hplace (by decide +kernel)

/-- **Without `FTW_DEPTH` the walk of `/a/d` is in place.** -/
theorem callbacks_in_place_in_preorder :
    ∃ rc s', nftw placesKernel (fun _ w => (0, w)) 9 (ascii ['/', 'a', '/', 'd']) 2 ⟨false, false, true, false⟩
        ⟨.root, []⟩ = some (rc, s') ∧
      AllInPlace placesView .root (placesWalk false).items ∧ s'.world.cwd = .root ∧
      (callsOf (placesWalk false).items).length = 2 := by
  have hitems : (placesWalk false).items = [
      .call 0 ⟨ascii ['/', 'a', '/', 'd'], Place.d.attributes, .D, 0, 3⟩ 0 ⟨.a, [(3, .d)]⟩, .into 0,
      .call 1 ⟨ascii ['/', 'a', '/', 'd', '/', 'x'], Place.x.attributes, .F, 1, 5⟩ 0 ⟨.d, [(3, .d)]⟩] := by
    decide +kernel
  have hsome : (placesWalk false).result.isSome = true := by decide +kernel
  obtain ⟨⟨rc, s'⟩, hwalk⟩ := Option.isSome_iff_exists.mp hsome
  rw [placesWalk, nftwTrace_result] at hwalk
  have hlost : .lost ∉ (placesWalk false).items := by
    rw [hitems]
    simp
  have hcalm : ∀ f, f ≠ .node → .fault f ∉ (placesWalk false).items := by
    intro f _
    rw [hitems]
    simp
  have hback : ∀ k, .into k ∈ (placesWalk false).items → FindsBack places .root (trimmed (ascii ['/', 'a', '/', 'd'])) 2
      ⟨false, false, true, false⟩ k := by
    intro k hk
    rw [hitems] at hk
    simp only [List.mem_cons, reduceCtorEq, Item.into.injEq, List.not_mem_nil, or_false, false_or] at hk
    subst hk
    exact ⟨fun _ hdepth => absurd hdepth Bool.false_ne_true, fun hpos => absurd hpos (Nat.lt_irrefl 0)⟩
  have hplace := callbacks_in_place placesView placesStreams (fun _ w => (0, w)) (fun _ _ => ⟨rfl, rfl⟩) 9
    (ascii ['/', 'a', '/', 'd']) (by decide) 2 ⟨false, false, true, false⟩ rfl ⟨.root, []⟩ (by decide) rc s' hwalk hlost
    hcalm (by decide +kernel) hback
  exact ⟨rc, s', hwalk, hplace.1, hplace.2, by rw [hitems]; rfl⟩

end TTLinux.Analysis.FtwChdir
