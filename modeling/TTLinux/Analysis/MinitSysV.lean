import Mathlib.Algebra.Group.Nat.Even
import Mathlib.Data.List.Basic
import TTLinux.Model.Minit

/-!
# Starting and stopping sysV services

Whether the run script of a service is called with `start` or with `stop` depends on its `pid` alone. The
command `V` does not look at it, and it clears the `pid` of a running service also if `fork` failed and the
script was not called. A run of commands calls each script with `start` and `stop` in turn as long as every
script is called while its `pid` is right, and by `V` only for a service that is running, and only then.
-/

set_option autoImplicit false

namespace TTLinux.Analysis.MinitSysV

open TTLinux.Lib (Bytes)
open TTLinux.Model.Minit

/-! ## The calls of a script -/

/-- The arguments of the calls of the script of a service. -/
def argumentsOf (service : Bytes) (log : List Invocation) : List Argument :=
  (log.filter fun i => i.service = service).map Invocation.argument

/-- The argument of the call number `k`, if they alternate. -/
def argumentAt (k : ℕ) : Argument := if Even k then .start else .stop

/-- The arguments are `start`, `stop`, `start` and so on. -/
def Alternates (args : List Argument) : Prop := args = (List.range args.length).map argumentAt

/-- The scripts are called in turn, and `V` does not call one with `start`. -/
structure Orderly (log : List Invocation) : Prop where
  alternates : ∀ service, Alternates (argumentsOf service log)
  stops : ∀ i ∈ log, i.byShutdown = true → i.argument = .stop

/-- INTERNAL: a call of the script of a service. -/
theorem argumentsOf_append_self (i : Invocation) (log : List Invocation) :
    argumentsOf i.service (log ++ [i]) = argumentsOf i.service log ++ [i.argument] := by
  simp [argumentsOf]

/-- INTERNAL: a call of another script. -/
theorem argumentsOf_append_of_ne (service : Bytes) (i : Invocation) (h : i.service ≠ service) (log : List Invocation) :
    argumentsOf service (log ++ [i]) = argumentsOf service log := by
  simp [argumentsOf, h]

/-- INTERNAL: the arguments still alternate after a call exactly if the argument is the next one. -/
theorem alternates_append_iff (args : List Argument) (arg : Argument) (h : Alternates args) :
    Alternates (args ++ [arg]) ↔ arg = argumentAt args.length := by
  unfold Alternates at h ⊢
  rw [List.length_append, List.length_singleton, List.range_succ, List.map_append, ← h, List.map_singleton,
    List.append_cancel_left_eq, List.cons.injEq]
  exact and_iff_left rfl

/-- INTERNAL: the first calls of a script alternate if all of them do. -/
theorem Alternates.of_append (args rest : List Argument) (h : Alternates (args ++ rest)) : Alternates args := by
  unfold Alternates at h ⊢
  rw [List.length_append, List.range_add, List.map_append] at h
  exact (List.append_inj h (by rw [List.length_map, List.length_range])).1

/-- INTERNAL: the first calls are orderly if all of them are. -/
theorem Orderly.of_prefix {log log' : List Invocation} (h : Orderly log') (hfront : log <+: log') : Orderly log := by
  obtain ⟨rest, rfl⟩ := hfront
  refine ⟨fun service => ?_, fun i hi => h.stops i (List.mem_append_left _ hi)⟩
  have halt := h.alternates service
  unfold argumentsOf at halt ⊢
  rw [List.filter_append, List.map_append] at halt
  exact halt.of_append

/-- INTERNAL: **one call more** keeps the log orderly exactly if its argument is the next one and `V` does not
pass `start`. -/
theorem orderly_append_iff (log : List Invocation) (i : Invocation) (h : Orderly log) :
    Orderly (log ++ [i]) ↔
      i.argument = argumentAt (argumentsOf i.service log).length ∧ (i.byShutdown = true → i.argument = .stop) := by
  constructor
  · intro horderly
    refine ⟨?_, horderly.stops i (List.mem_append_right _ List.mem_cons_self)⟩
    have halt := horderly.alternates i.service
    rw [argumentsOf_append_self] at halt
    exact (alternates_append_iff _ _ (h.alternates i.service)).mp halt
  · rintro ⟨harg, hstop⟩
    refine ⟨fun service => ?_, fun j hj => ?_⟩
    · by_cases hservice : i.service = service
      · rw [← hservice, argumentsOf_append_self]
        exact (alternates_append_iff _ _ (h.alternates i.service)).mpr harg
      · rw [argumentsOf_append_of_ne service i hservice]
        exact h.alternates service
    · rcases List.mem_append.mp hj with hold | hnew
      · exact h.stops j hold
      · rw [List.mem_singleton.mp hnew]
        exact hstop

/-! ## Turns -/

/-- A service that a command comes to: by `V` or by `s`, with the answer of `fork`. -/
structure Turn where
  files : Files
  byShutdown : Bool
  service : Bytes
  fork : Fork

/-- The services that a command comes to, one after the other. -/
def turns (c : Files × Command) : List Turn :=
  match c.2 with
  | .start services => services.map fun service => ⟨c.1, false, service.1, service.2⟩
  | .shutdown service fork => [⟨c.1, true, service, fork⟩]

/-- What the command does for one of the services that it comes to. -/
def take (s : State) (t : Turn) : State :=
  if t.byShutdown then (shutdownCommand t.files t.fork t.service s).2 else startOne t.files s (t.service, t.fork)

/-- INTERNAL: a command takes its turns. -/
theorem step_eq_foldl_take (s : State) (c : Files × Command) : step s c = (turns c).foldl take s := by
  obtain ⟨files, command⟩ := c
  cases command with
  | start services =>
    show services.foldl (startOne files) s = (services.map _).foldl take s
    rw [List.foldl_map]
    rfl
  | shutdown service fork => rfl

/-- INTERNAL: a run takes the turns of its commands. -/
theorem run_eq_foldl_take (s : State) (cs : List (Files × Command)) :
    cs.foldl step s = (cs.flatMap turns).foldl take s := by
  induction cs generalizing s with
  | nil => rfl
  | cons c cs ih => rw [List.foldl_cons, List.flatMap_cons, List.foldl_append, ← step_eq_foldl_take, ih]

/-- The service that `forkandexec` is called for, in the state in which it is: `V` wants a sysV service with a
directory that it can enter, `s` one whose `pid` is 0.
SOURCE: minit-0.10-sysV.patch:101-108, 132-148 -/
def reached (s : State) (t : Turn) : Option Process :=
  match loadservice t.files t.service s with
  | (none, _) => none
  | (some idx, s) =>
    s.root[idx]?.filter fun srv => if t.byShutdown then srv.sysV && t.files.enter srv.name else srv.pid = 0

/-- The `pid` of the service afterwards. -/
def pidAfter (t : Turn) : ℤ :=
  if t.byShutdown then 0 else if t.fork.isSome then 1 else t.files.refused

/-- The calls of scripts afterwards. -/
def logAfter (t : Turn) (srv : Process) (log : List Invocation) : List Invocation :=
  if t.fork.isSome then log ++ [⟨t.byShutdown, srv.name, if srv.pid = 0 then .start else .stop⟩] else log

/-- The services whose `pid` is the wrong way round: an odd number of failed `fork`s changed whether it is 0. A
`V` whose `fork` fails does so for a service that is running. -/
def wrongAfter (s : State) (wrong : Bytes → Bool) (t : Turn) : Bytes → Bool :=
  match reached s t, t.fork with
  | some srv, none =>
    if srv.pid = 0 ↔ pidAfter t = 0 then wrong else Function.update wrong srv.name !wrong srv.name
  | _, _ => wrong

/-- A turn that calls a script does so for a service whose `pid` is not the wrong way round, and by `V` for one
whose `pid` is not 0. -/
def Rightful (s : State) (wrong : Bytes → Bool) (t : Turn) : Prop :=
  ∀ srv, reached s t = some srv → t.fork.isSome = true →
    wrong srv.name = false ∧ (t.byShutdown = true → srv.pid ≠ 0)

/-- Every turn is, in the state in which it is taken. -/
def AllRightful : State → (Bytes → Bool) → List Turn → Prop
  | _, _, [] => True
  | s, wrong, t :: ts => Rightful s wrong t ∧ AllRightful (take s t) (wrongAfter s wrong t) ts

/-! ## The invariant -/

/-- The services are sysV services without parameters. -/
structure AllSysV (files : Files) : Prop where
  sysV : ∀ service, files.sysV service = true
  params : ∀ service, files.params service = false

/-- What holds between two turns: a service is running exactly if its script was called with `start` last,
or the other way round for those whose `pid` is wrong, and only scripts of services in the table were called. -/
structure Inv (s : State) (wrong : Bytes → Bool) : Prop where
  sysV : ∀ srv ∈ s.root, srv.sysV = true
  pid : ∀ srv ∈ s.root, srv.pid = 0 ↔ (Even (argumentsOf srv.name s.log).length ↔ wrong srv.name = false)
  names : (s.root.map Process.name).Nodup
  known : ∀ i ∈ s.log, i.service ∈ s.root.map Process.name
  fresh : ∀ service, service ∉ s.root.map Process.name → wrong service = false
  orderly : Orderly s.log

/-- INTERNAL: at first there are no services. -/
theorem inv_empty : Inv ⟨[], []⟩ fun _ => false where
  sysV := by simp
  pid := by simp
  names := List.nodup_nil
  known := by simp
  fresh := fun _ _ => rfl
  orderly := ⟨fun _ => rfl, by simp⟩

/-- INTERNAL: a service in the table after a change of one of them. -/
theorem mem_modify (root : List Process) (idx : ℕ) (f : Process → Process) (srv' : Process)
    (h : srv' ∈ root.modify idx f) :
    ∃ j srv, root[j]? = some srv ∧ (idx = j ∧ srv' = f srv ∨ idx ≠ j ∧ srv' = srv) := by
  obtain ⟨j, hj⟩ := List.mem_iff_getElem?.mp h
  rw [List.getElem?_modify] at hj
  obtain ⟨srv, hsrv, heq⟩ := Option.map_eq_some_iff.mp hj
  refine ⟨j, srv, hsrv, ?_⟩
  by_cases hidx : idx = j
  · exact Or.inl ⟨hidx, by simpa [hidx] using heq.symm⟩
  · exact Or.inr ⟨hidx, by simpa [hidx] using heq.symm⟩

/-- INTERNAL: the names stay if one of the services changes. -/
theorem map_name_modify (root : List Process) (idx : ℕ) (f : Process → Process) (hf : ∀ srv, (f srv).name = srv.name) :
    (root.modify idx f).map Process.name = root.map Process.name := by
  apply List.ext_getElem?
  intro j
  simp only [List.getElem?_map, List.getElem?_modify]
  cases root[j]? with
  | none => rfl
  | some srv => by_cases hidx : idx = j <;> simp [hidx, hf]

/-- INTERNAL: the names stay if a `pid` is stored. -/
theorem map_name_setPid (idx : ℕ) (pid : ℤ) (s : State) :
    (setPid idx pid s).root.map Process.name = s.root.map Process.name :=
  map_name_modify s.root idx (fun srv => { srv with pid := pid }) fun _ => rfl

/-- INTERNAL: two places of the table have different names. -/
theorem name_ne_of_ne {root : List Process} (hnames : (root.map Process.name).Nodup) {i j : ℕ} {a b : Process}
    (ha : root[i]? = some a) (hb : root[j]? = some b) (hne : i ≠ j) : a.name ≠ b.name := by
  intro heq
  apply hne
  have hlt : i < (root.map Process.name).length := by
    rw [List.length_map]
    exact (List.getElem?_eq_some_iff.mp ha).1
  apply (List.getElem?_inj hlt hnames).mp
  rw [List.getElem?_map, List.getElem?_map, ha, hb, Option.map_some, Option.map_some, heq]

/-- INTERNAL: the argument of a call is the next one exactly if the `pid` is not the wrong way round. -/
theorem Inv.argument_eq_iff {s : State} {wrong : Bytes → Bool} (h : Inv s wrong) (srv : Process)
    (hsrv : srv ∈ s.root) :
    (if srv.pid = 0 then Argument.start else .stop) = argumentAt (argumentsOf srv.name s.log).length ↔
      wrong srv.name = false := by
  have hpid := h.pid srv hsrv
  unfold argumentAt
  by_cases hzero : srv.pid = 0
  · rw [if_pos hzero]
    have hiff := hpid.mp hzero
    by_cases heven : Even (argumentsOf srv.name s.log).length
    · rw [if_pos heven]
      exact iff_of_true rfl (hiff.mp heven)
    · rw [if_neg heven]
      exact iff_of_false (by decide) fun hwrong => heven (hiff.mpr hwrong)
  · rw [if_neg hzero]
    have hiff := fun h => hzero (hpid.mpr h)
    by_cases heven : Even (argumentsOf srv.name s.log).length
    · rw [if_pos heven]
      exact iff_of_false (by decide) fun hwrong => hiff (iff_of_true heven hwrong)
    · rw [if_neg heven]
      refine iff_of_true rfl (by_contra fun hwrong => hiff (iff_of_false heven hwrong))

/-- INTERNAL: **a call of `forkandexec`**, with or without a child, and the change of the state. The call counts
for the script only if there is a child.
SOURCE: minit-0.10-sysV.patch:66-79, 107-108 -/
theorem Inv.call {s : State} {wrong : Bytes → Bool} (h : Inv s wrong) (idx : ℕ) (srv : Process)
    (hsrv : s.root[idx]? = some srv) (log : List Invocation) (pid : ℤ) (wrong' : Bytes → Bool)
    (hothers : ∀ service, service ≠ srv.name → argumentsOf service log = argumentsOf service s.log)
    (hwrongs : ∀ service, service ≠ srv.name → wrong' service = wrong service)
    (hpid : pid = 0 ↔ (Even (argumentsOf srv.name log).length ↔ wrong' srv.name = false))
    (hknown : ∀ i ∈ log, i ∈ s.log ∨ i.service = srv.name) (horderly : Orderly log) :
    Inv (setPid idx pid { s with log := log }) wrong' := by
  have hmem : srv ∈ s.root := List.mem_of_getElem? hsrv
  have hnames : (setPid idx pid { s with log := log }).root.map Process.name = s.root.map Process.name :=
    map_name_setPid idx pid s
  refine ⟨?_, ?_, hnames ▸ h.names, ?_, ?_, horderly⟩
  · intro srv' hsrv'
    obtain ⟨j, old, hold, ⟨-, rfl⟩ | ⟨-, rfl⟩⟩ := mem_modify _ _ _ _ hsrv'
    · exact h.sysV old (List.mem_of_getElem? hold)
    · exact h.sysV _ (List.mem_of_getElem? hold)
  · intro srv' hsrv'
    obtain ⟨j, old, hold, ⟨rfl, rfl⟩ | ⟨hj, rfl⟩⟩ := mem_modify _ _ _ _ hsrv'
    · obtain rfl : srv = old := Option.some.inj (hsrv.symm.trans hold)
      exact hpid
    · have hne : srv'.name ≠ srv.name := (name_ne_of_ne h.names hsrv hold hj).symm
      show srv'.pid = 0 ↔ (Even (argumentsOf srv'.name log).length ↔ wrong' srv'.name = false)
      rw [hothers srv'.name hne, hwrongs srv'.name hne]
      exact h.pid srv' (List.mem_of_getElem? hold)
  · intro i hi
    rw [hnames]
    rcases hknown i hi with hold | hservice
    · exact h.known i hold
    · rw [hservice]
      exact List.mem_map_of_mem hmem
  · intro service hservice
    rw [hnames] at hservice
    rw [hwrongs service fun heq => hservice (heq ▸ List.mem_map_of_mem hmem)]
    exact h.fresh service hservice

/-- INTERNAL: `checkopts` keeps the name. -/
theorem checkopts_name (files : Files) (srv : Process) (ret : Bool) : (checkopts files srv ret).name = srv.name := by
  unfold checkopts
  split_ifs <;> rfl

/-- INTERNAL: `checkopts` keeps the `pid`. -/
theorem checkopts_pid (files : Files) (srv : Process) (ret : Bool) : (checkopts files srv ret).pid = srv.pid := by
  unfold checkopts
  split_ifs <;> rfl

/-- INTERNAL: the service is still a sysV service.
SOURCE: minit-0.10-sysV.patch:22-28 -/
theorem checkopts_sysV (files : Files) (hfiles : AllSysV files) (srv : Process) (ret : Bool)
    (h : ret = true → srv.sysV = true) : (checkopts files srv ret).sysV = true := by
  unfold checkopts
  split_ifs with hcond
  · apply h
    rw [Bool.and_eq_true] at hcond
    exact hcond.1
  · exact hfiles.sysV srv.name

/-- INTERNAL: a service that was not called yet has no calls. -/
theorem Inv.argumentsOf_eq_nil {s : State} {wrong : Bytes → Bool} (h : Inv s wrong) (service : Bytes)
    (hnew : service ∉ s.root.map Process.name) : argumentsOf service s.log = [] := by
  rw [argumentsOf, List.map_eq_nil_iff, List.filter_eq_nil_iff]
  intro i hi hservice
  apply hnew
  rw [← of_decide_eq_true hservice]
  exact h.known i hi

/-- INTERNAL: loading a service calls no script.
SOURCE: minit-0.10-sysV.patch:34-58 -/
theorem loadservice_log (files : Files) (service : Bytes) (s : State) : (loadservice files service s).2.log = s.log := by
  unfold loadservice
  by_cases hempty : service = []
  · rw [if_pos hempty]
  · rw [if_neg hempty]
    split
    · rfl
    · split_ifs <;> rfl

/-- INTERNAL: loading a service keeps the invariant. -/
theorem Inv.loadservice {s : State} {wrong : Bytes → Bool} (h : Inv s wrong) (files : Files) (hfiles : AllSysV files)
    (service : Bytes) : Inv (loadservice files service s).2 wrong := by
  unfold TTLinux.Model.Minit.loadservice
  by_cases hempty : service = []
  · rw [if_pos hempty]
    exact h
  rw [if_neg hempty]
  rcases hfind : findservice service s with _ | fd
  · dsimp only
    split_ifs with henter
    · have hnew : service ∉ s.root.map Process.name := by
        intro hmem
        obtain ⟨srv, hsrv, hname⟩ := List.mem_map.mp hmem
        have hnone := List.findIdx?_eq_none_iff.mp hfind srv hsrv
        exact of_decide_eq_false hnone hname
      have hname := checkopts_name files ⟨service, 0, false, false⟩ false
      refine ⟨?_, ?_, ?_, ?_, ?_, h.orderly⟩
      · intro srv hsrv
        rcases List.mem_append.mp hsrv with hold | hadded
        · exact h.sysV srv hold
        · rw [List.mem_singleton.mp hadded]
          apply checkopts_sysV files hfiles
          intro hret
          cases hret
      · intro srv hsrv
        rcases List.mem_append.mp hsrv with hold | hadded
        · exact h.pid srv hold
        · rw [List.mem_singleton.mp hadded, hname, checkopts_pid, h.argumentsOf_eq_nil service hnew,
            h.fresh service hnew]
          exact iff_of_true rfl (iff_of_true Even.zero rfl)
      · rw [List.map_append, List.nodup_append]
        refine ⟨h.names, by simp, ?_⟩
        intro a ha b hb hab
        rw [List.map_singleton, List.mem_singleton, hname] at hb
        rw [hab, hb] at ha
        exact hnew ha
      · intro i hi
        rw [List.map_append]
        exact List.mem_append_left _ (h.known i hi)
      · intro other hother
        apply h.fresh other
        intro hmem
        apply hother
        rw [List.map_append]
        exact List.mem_append_left _ hmem
    · exact h
  · have hnames := map_name_modify s.root fd (fun srv => checkopts files srv true)
      fun srv => checkopts_name files srv true
    refine ⟨?_, ?_, hnames ▸ h.names, fun i hi => hnames ▸ h.known i hi, fun service => ?_, h.orderly⟩
    · intro srv' hsrv'
      obtain ⟨j, old, hold, ⟨-, rfl⟩ | ⟨-, rfl⟩⟩ := mem_modify _ _ _ _ hsrv'
      · exact checkopts_sysV files hfiles old true fun _ => h.sysV old (List.mem_of_getElem? hold)
      · exact h.sysV _ (List.mem_of_getElem? hold)
    · intro srv' hsrv'
      obtain ⟨j, old, hold, ⟨-, rfl⟩ | ⟨-, rfl⟩⟩ := mem_modify _ _ _ _ hsrv'
      · rw [checkopts_name, checkopts_pid]
        exact h.pid old (List.mem_of_getElem? hold)
      · exact h.pid _ (List.mem_of_getElem? hold)
    · dsimp only
      rw [hnames]
      exact h.fresh service

/-! ## One turn -/

/-- INTERNAL: the call for a sysV service without parameters.
SOURCE: minit-0.10-sysV.patch:66-96 -/
theorem forkandexec_sysV (t : Turn) (hfiles : AllSysV t.files) (srv : Process) (hsysV : srv.sysV = true) (s : State) :
    forkandexec t.files t.fork t.byShutdown srv s =
      (if t.fork.isSome then 1 else t.files.refused, { s with log := logAfter t srv s.log }) := by
  unfold forkandexec logAfter
  cases t.fork with
  | none => rfl
  | some child =>
    simp only [argument, hfiles.params, hsysV, Bool.false_eq_true, if_true, if_false, ite_self, Option.isSome_some]

/-- INTERNAL: nothing but loading the service happens if `forkandexec` is not called. -/
theorem take_of_reached_eq_none (s : State) (t : Turn) (h : reached s t = none) :
    take s t = (loadservice t.files t.service s).2 := by
  unfold reached at h
  unfold take shutdownCommand startOne
  rcases hloaded : loadservice t.files t.service s with ⟨_ | idx, s₁⟩
  · exact ite_self s₁
  · rw [hloaded] at h
    dsimp only at h ⊢
    unfold shutdownsysV startnodep
    rcases hsrv : s₁.root[idx]? with _ | srv
    · dsimp only [Option.map_none, Option.getD_none]
      split_ifs <;> rfl
    · rw [hsrv, Option.filter_eq_none_iff] at h
      have hcond := h srv rfl
      cases hby : t.byShutdown with
      | false =>
        rw [hby] at hcond
        have hpid : srv.pid ≠ 0 := by simpa using hcond
        simp [hpid]
      | true =>
        rw [hby] at hcond
        cases hsysV : srv.sysV with
        | false => simp [hsysV]
        | true =>
          have henter : t.files.enter srv.name = false := by simpa [hsysV] using hcond
          simp [hsysV, henter]

/-- INTERNAL: the call of `forkandexec` and what is stored afterwards.
SOURCE: minit-0.10-sysV.patch:101-113, 132-148 -/
theorem take_of_reached_eq_some (s : State) (t : Turn) (hfiles : AllSysV t.files)
    (hsysV : ∀ srv ∈ (loadservice t.files t.service s).2.root, srv.sysV = true) (srv : Process)
    (h : reached s t = some srv) :
    ∃ idx, (loadservice t.files t.service s).2.root[idx]? = some srv ∧
      take s t = setPid idx (pidAfter t) { (loadservice t.files t.service s).2 with log := logAfter t srv s.log } := by
  have hlog := loadservice_log t.files t.service s
  unfold reached at h
  unfold take shutdownCommand startOne
  rcases hloaded : loadservice t.files t.service s with ⟨_ | idx, s₁⟩
  · rw [hloaded] at h
    cases h
  · rw [hloaded] at h hlog hsysV
    dsimp only at h hlog hsysV ⊢
    obtain ⟨hsrv, hcond⟩ := Option.filter_eq_some_iff.mp h
    have hsrvSysV := hsysV srv (List.mem_of_getElem? hsrv)
    refine ⟨idx, hsrv, ?_⟩
    unfold shutdownsysV startnodep pidAfter
    rw [hsrv]
    cases hby : t.byShutdown with
    | false =>
      rw [hby] at hcond
      have hpid : srv.pid = 0 := by simpa using hcond
      have hcall := forkandexec_sysV t hfiles srv hsrvSysV s₁
      rw [hby] at hcall
      simp [hpid, hcall, hlog]
    | true =>
      rw [hby] at hcond
      have henter : t.files.enter srv.name = true := by simpa [hsrvSysV] using hcond
      have hcall := forkandexec_sysV t hfiles srv hsrvSysV s₁
      rw [hby] at hcall
      simp [hsrvSysV, henter, hcall, hlog]

/-- INTERNAL: **the calls stay orderly** in a turn exactly if it is rightful. -/
theorem Inv.orderly_take_iff {s : State} {wrong : Bytes → Bool} (h : Inv s wrong) (t : Turn) (hfiles : AllSysV t.files) :
    Orderly (take s t).log ↔ Rightful s wrong t := by
  have hload := h.loadservice t.files hfiles t.service
  have hlog := loadservice_log t.files t.service s
  unfold Rightful
  cases hreached : reached s t with
  | none =>
    rw [take_of_reached_eq_none s t hreached, hlog]
    exact iff_of_true h.orderly (by simp)
  | some srv =>
    obtain ⟨idx, hsrv, htake⟩ := take_of_reached_eq_some s t hfiles hload.sysV srv hreached
    have harg := hload.argument_eq_iff srv (List.mem_of_getElem? hsrv)
    rw [hlog] at harg
    rw [htake]
    show Orderly (logAfter t srv s.log) ↔ _
    unfold logAfter
    cases hfork : t.fork.isSome with
    | false => exact iff_of_true h.orderly (by simp)
    | true =>
      rw [if_pos rfl, orderly_append_iff _ _ h.orderly, harg]
      constructor
      · rintro ⟨hwrong, hstop⟩ srv' hsrv' -
        obtain rfl : srv = srv' := Option.some.inj hsrv'
        refine ⟨hwrong, fun hby hpid => ?_⟩
        have hargument := hstop hby
        dsimp only at hargument
        rw [if_pos hpid] at hargument
        cases hargument
      · intro hright
        obtain ⟨hwrong, hpid⟩ := hright srv rfl rfl
        exact ⟨hwrong, fun hby => if_neg (hpid hby)⟩

/-- INTERNAL: whether the `pid` is the wrong way round after a call that `fork` failed in. The number of calls
stays, and so the mark changes exactly if it changes whether the `pid` is 0. -/
theorem pidAfter_eq_zero_iff (pid pid' : ℤ) (even : Prop) (wrong : Bool) (h : pid = 0 ↔ (even ↔ wrong = false)) :
    pid' = 0 ↔ (even ↔ (if pid = 0 ↔ pid' = 0 then wrong else !wrong) = false) := by
  by_cases hsame : pid = 0 ↔ pid' = 0
  · rw [if_pos hsame, ← h]
    exact hsame.symm
  · rw [if_neg hsame, Bool.not_eq_false']
    have hnot : (wrong = true) = ¬wrong = false := by rw [Bool.not_eq_false]
    rw [hnot]
    tauto

/-- INTERNAL: the number of calls after a turn with a child, and what is stored. -/
theorem pidAfter_eq_zero_iff_of_child (t : Turn) (hfork : t.fork.isSome = true) (pid : ℤ) (calls : ℕ)
    (h : pid = 0 ↔ Even calls) (hpid : if t.byShutdown then pid ≠ 0 else pid = 0) :
    pidAfter t = 0 ↔ Even (calls + 1) := by
  unfold pidAfter
  rw [Nat.even_add_one, ← h]
  cases hby : t.byShutdown with
  | false =>
    rw [hby] at hpid
    rw [hfork]
    exact iff_of_false Int.one_ne_zero (not_not.mpr hpid)
  | true =>
    rw [hby] at hpid
    exact iff_of_true rfl hpid

/-- INTERNAL: `s` comes to services whose `pid` is 0. -/
theorem pid_of_reached (s : State) (t : Turn) (hby : t.byShutdown = false) (srv : Process)
    (h : reached s t = some srv) : srv.pid = 0 := by
  unfold reached at h
  rcases hloaded : loadservice t.files t.service s with ⟨_ | idx, s₁⟩
  · rw [hloaded] at h
    cases h
  · rw [hloaded] at h
    have hcond := (Option.filter_eq_some_iff.mp h).2
    rw [hby] at hcond
    simpa using hcond

/-- INTERNAL: **a rightful turn** keeps the invariant. -/
theorem Inv.take {s : State} {wrong : Bytes → Bool} (h : Inv s wrong) (t : Turn) (hfiles : AllSysV t.files)
    (hright : Rightful s wrong t) : Inv (take s t) (wrongAfter s wrong t) := by
  have hload := h.loadservice t.files hfiles t.service
  have hlog := loadservice_log t.files t.service s
  have horderly := (h.orderly_take_iff t hfiles).mpr hright
  cases hreached : reached s t with
  | none =>
    rw [take_of_reached_eq_none s t hreached, wrongAfter, hreached]
    exact hload
  | some srv =>
    obtain ⟨idx, hsrv, htake⟩ := take_of_reached_eq_some s t hfiles hload.sysV srv hreached
    have hpid := hload.pid srv (List.mem_of_getElem? hsrv)
    rw [hlog] at hpid
    rw [htake] at horderly ⊢
    unfold wrongAfter
    rw [hreached]
    cases hfork : t.fork with
    | none =>
      have hsame : logAfter t srv s.log = s.log := by
        rw [logAfter, hfork]
        rfl
      rw [hsame] at horderly ⊢
      dsimp only
      apply hload.call idx srv hsrv
      · exact fun service _ => by rw [hlog]
      · intro service hservice
        split_ifs
        · rfl
        · exact Function.update_of_ne hservice _ _
      · have hafter := pidAfter_eq_zero_iff srv.pid (pidAfter t) _ _ hpid
        split_ifs at hafter ⊢
        · exact hafter
        · rw [Function.update_self]
          exact hafter
      · exact fun i hi => Or.inl (hlog ▸ hi)
      · exact horderly
    | some child =>
      have hsome : t.fork.isSome = true := by rw [hfork, Option.isSome_some]
      have hadded : logAfter t srv s.log =
          s.log ++ [⟨t.byShutdown, srv.name, if srv.pid = 0 then .start else .stop⟩] := by
        rw [logAfter, if_pos hsome]
      have hself := argumentsOf_append_self ⟨t.byShutdown, srv.name, if srv.pid = 0 then .start else .stop⟩ s.log
      dsimp only at hself
      obtain ⟨hwrong, hstop⟩ := hright srv hreached hsome
      have hturn : if t.byShutdown then srv.pid ≠ 0 else srv.pid = 0 := by
        cases hby : t.byShutdown with
        | false => exact pid_of_reached s t hby srv hreached
        | true => exact hstop hby
      rw [hadded] at horderly ⊢
      apply hload.call idx srv hsrv
      · intro service hservice
        rw [hlog]
        exact argumentsOf_append_of_ne service ⟨t.byShutdown, srv.name, _⟩ hservice.symm s.log
      · exact fun service _ => rfl
      · rw [hself, List.length_append, List.length_singleton]
        dsimp only
        rw [hwrong] at hpid ⊢
        simp only [iff_true] at hpid ⊢
        exact pidAfter_eq_zero_iff_of_child t hsome srv.pid _ hpid hturn
      · intro i hi
        rcases List.mem_append.mp hi with hold | hnew
        · exact Or.inl (hlog ▸ hold)
        · exact Or.inr (by rw [List.mem_singleton.mp hnew])
      · exact horderly

/-! ## Runs -/

/-- INTERNAL: no call of a script is taken back by `forkandexec`. -/
theorem forkandexec_log (files : Files) (fork : Fork) (byShutdown : Bool) (srv : Process) (s : State) :
    s.log <+: (forkandexec files fork byShutdown srv s).2.log := by
  cases fork with
  | none => exact List.prefix_rfl
  | some child => exact List.prefix_append _ _

/-- INTERNAL: no call of a script is taken back. -/
theorem take_log (s : State) (t : Turn) : s.log <+: (take s t).log := by
  have hlog := loadservice_log t.files t.service s
  unfold take shutdownCommand startOne
  rcases hloaded : loadservice t.files t.service s with ⟨_ | idx, s₁⟩
  · rw [hloaded] at hlog
    dsimp only at hlog ⊢
    rw [ite_self, hlog]
  · rw [hloaded] at hlog
    dsimp only at hlog ⊢
    rw [← hlog]
    unfold shutdownsysV startnodep
    rcases hsrv : s₁.root[idx]? with _ | srv
    · dsimp only [Option.map_none, Option.getD_none]
      split_ifs <;> exact List.prefix_rfl
    · dsimp only [Option.map_some, Option.getD_some]
      split_ifs
      · exact forkandexec_log t.files t.fork true srv s₁
      · exact forkandexec_log t.files t.fork true srv s₁
      · exact List.prefix_rfl
      · exact List.prefix_rfl
      · exact List.prefix_rfl
      · exact List.prefix_rfl
      · exact forkandexec_log t.files t.fork false srv s₁

/-- INTERNAL: no call of a script is taken back in a run. -/
theorem foldl_take_log (ts : List Turn) (s : State) : s.log <+: (ts.foldl take s).log := by
  induction ts generalizing s with
  | nil => exact List.prefix_rfl
  | cons t ts ih => exact (take_log s t).trans (ih _)

/-- INTERNAL: turns from any state between two of them. -/
theorem Inv.orderly_iff {s : State} {wrong : Bytes → Bool} (h : Inv s wrong) (ts : List Turn)
    (hfiles : ∀ t ∈ ts, AllSysV t.files) : Orderly (ts.foldl TTLinux.Analysis.MinitSysV.take s).log ↔ AllRightful s wrong ts := by
  induction ts generalizing s wrong with
  | nil => exact iff_of_true h.orderly trivial
  | cons t ts ih =>
    have hhead := hfiles t List.mem_cons_self
    have htail : ∀ t ∈ ts, AllSysV t.files := fun t ht => hfiles t (List.mem_cons_of_mem _ ht)
    rw [List.foldl_cons, AllRightful]
    by_cases hright : Rightful s wrong t
    · rw [ih (h.take t hhead hright) htail]
      exact (and_iff_right hright).symm
    · refine iff_of_false (fun horderly => hright ?_) fun hall => hright hall.1
      exact (h.orderly_take_iff t hhead).mp (horderly.of_prefix (foldl_take_log ts _))

/-- INTERNAL: the turns of a command are in its directories. -/
theorem allSysV_of_mem_turns (cs : List (Files × Command)) (hfiles : ∀ c ∈ cs, AllSysV c.1) (t : Turn)
    (ht : t ∈ cs.flatMap turns) : AllSysV t.files := by
  obtain ⟨⟨files, command⟩, hc, htc⟩ := List.mem_flatMap.mp ht
  have hsysV := hfiles _ hc
  cases command with
  | start services =>
    obtain ⟨service, -, rfl⟩ := List.mem_map.mp htc
    exact hsysV
  | shutdown service fork =>
    rw [List.mem_singleton.mp htc]
    exact hsysV

/-- **The scripts of sysV services.** For every sequence of commands `s` and `V` over sysV services without
parameters, and whatever `fork` answers, the script of each service is called with `start` and `stop` in
turn, and `V` calls none with `start`, if and only if each call of a script is for a service whose `pid` is
not the wrong way round after a failed `fork`, and by `V` for one whose `pid` is not 0.
SOURCE: minit-0.10-sysV.patch:64-113, 118-148 -/
theorem minit_orderly_iff (cs : List (Files × Command)) (hfiles : ∀ c ∈ cs, AllSysV c.1) :
    Orderly (cs.foldl step ⟨[], []⟩).log ↔ AllRightful ⟨[], []⟩ (fun _ => false) (cs.flatMap turns) := by
  rw [run_eq_foldl_take]
  exact inv_empty.orderly_iff _ (allSysV_of_mem_turns cs hfiles)

/-- Directories of sysV services without parameters. -/
def sysVFiles : Files :=
  ⟨fun _ => true, fun _ => true, fun _ => false, fun _ => true, fun _ => false, fun _ => false, 0⟩

/-- INTERNAL: they are. -/
theorem allSysV_sysVFiles : AllSysV sysVFiles := ⟨fun _ => rfl, fun _ => rfl⟩

/-- A service is started, stopped and started again. The `fork` fails once when it is not running. -/
theorem minit_orderly_iff_restart :
    Orderly (([.start [([110], none)], .start [([110], some 77)], .shutdown [110] (some 78), .shutdown [110] none,
      .start [([110], some 79)]].map fun c => (sysVFiles, c)).foldl step ⟨[], []⟩).log := by
  apply (minit_orderly_iff _ _).mpr
  · have hfirst : ∀ (s : State) (wrong : Bytes → Bool) (t : Turn), t.fork = none → Rightful s wrong t :=
      fun s wrong t hfork srv hsrv hsome => by simp [hfork] at hsome
    refine ⟨hfirst _ _ _ rfl, ?_, ?_, hfirst _ _ _ rfl, ?_, trivial⟩
    all_goals
      intro srv hsrv _
      obtain rfl := Option.some.inj hsrv
      decide
  · intro c hc
    obtain ⟨command, -, rfl⟩ := List.mem_map.mp hc
    exact allSysV_sysVFiles

/-- **`V` starts a service that is not running.** Its script is called with `start` although the service was
never started, and once more by the command `s`. -/
theorem shutdown_starts_service :
    (([.shutdown [110] (some 77), .start [([110], some 78)]].map fun c => (sysVFiles, c)).foldl step ⟨[], []⟩).log =
      [⟨true, [110], .start⟩, ⟨false, [110], .start⟩] ∧
    ¬Orderly (([.shutdown [110] (some 77), .start [([110], some 78)]].map fun c => (sysVFiles, c)).foldl step
      ⟨[], []⟩).log := by
  have hlog : (([.shutdown [110] (some 77), .start [([110], some 78)]].map fun c => (sysVFiles, c)).foldl step
      ⟨[], []⟩).log = [⟨true, [110], .start⟩, ⟨false, [110], .start⟩] := by
    decide
  refine ⟨hlog, fun horderly => ?_⟩
  rw [hlog] at horderly
  cases horderly.stops ⟨true, [110], .start⟩ List.mem_cons_self rfl

/-- **A `V` whose `fork` fails forgets a running service.** The script is then called with `start` twice in a
row. -/
example :
    (([.start [([110], some 77)], .shutdown [110] none, .start [([110], some 78)]].map fun c =>
      (sysVFiles, c)).foldl step ⟨[], []⟩).log = [⟨false, [110], .start⟩, ⟨false, [110], .start⟩] := by
  decide

end TTLinux.Analysis.MinitSysV
