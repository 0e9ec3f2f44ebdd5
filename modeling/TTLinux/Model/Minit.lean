import Mathlib.Data.Int.Notation
import TTLinux.Lib.Bytes

/-!
# The sysV services of minit

The part of minit that the patch for sysV services changes (base/minit/minit-0.10-sysV.patch): the options
of a service, its run script and the command that shuts it down. `startservice` itself is not in the
patch: which services it comes to, with those that a service depends on, is part of the command, and
for each of them `forkandexec` is called if its `pid` is 0. What `fork` answers is part of the command as
well. The patch does not show what `forkandexec` does after a `fork` that failed, so the value it then returns
is a parameter.
-/

set_option autoImplicit false

namespace TTLinux.Model.Minit

open TTLinux.Lib (Bytes)

/-- `struct process`, as far as it is used.
SOURCE: minit-0.10-sysV.patch:189-197 -/
structure Process where
  name : Bytes
  pid : ℤ
  respawn : Bool
  sysV : Bool
deriving DecidableEq

/-- What is in the directories of the services, and what the kernel answers. -/
structure Files where
  /-- `chdir(MINITROOT)` and `chdir` to the service succeed. -/
  enter : Bytes → Bool
  strdup : Bytes → Bool
  respawn : Bytes → Bool
  sysV : Bytes → Bool
  params : Bytes → Bool
  sync : Bytes → Bool
  /-- What `forkandexec` returns if it got no child.
  SOURCE: minit-0.10-sysV.patch:66-68 -/
  refused : ℤ

/-- The first argument of a run script. -/
inductive Argument where
  | params
  | start
  | stop
  | nothing
deriving DecidableEq

/-- The answer of `fork`, after the attempts that `forkandexec` makes: the process of the child, or none. -/
abbrev Fork := Option ℤ

/-- The commands of the pipe, with the answers of `fork`: `s` with the services that `startservice` comes
to, and `V`. -/
inductive Command where
  | start (services : List (Bytes × Fork))
  | shutdown (service : Bytes) (fork : Fork)
deriving DecidableEq

/-- A call of a run script. -/
structure Invocation where
  /-- The command was `V`. -/
  byShutdown : Bool
  service : Bytes
  argument : Argument
deriving DecidableEq

/-- The services and the run scripts that were called. -/
structure State where
  root : List Process
  log : List Invocation

/-- `checkopts`.
SOURCE: minit-0.10-sysV.patch:7-32 -/
def checkopts (files : Files) (srv : Process) (ret : Bool) : Process :=
  if ret && !files.enter srv.name then srv
  else { srv with
    respawn := files.respawn srv.name && !files.sysV srv.name
    sysV := files.sysV srv.name }

/-- `findservice`. -/
def findservice (service : Bytes) (s : State) : Option ℕ := s.root.findIdx? fun p => p.name = service

/-- `loadservice`: the index of the service, or none.
SOURCE: minit-0.10-sysV.patch:34-58 -/
def loadservice (files : Files) (service : Bytes) (s : State) : Option ℕ × State :=
  if service = [] then (none, s)
  else
    match findservice service s with
    | some fd => (some fd, { s with root := s.root.modify fd fun srv => checkopts files srv true })
    | none =>
      if files.enter service && files.strdup service then
        (some s.root.length, { s with root := s.root ++ [checkopts files ⟨service, 0, false, false⟩ false] })
      else (none, s)

/-- The first argument of the run script.
SOURCE: minit-0.10-sysV.patch:67-79 -/
def argument (files : Files) (srv : Process) : Argument :=
  if files.params srv.name then .params
  else if srv.sysV then if srv.pid = 0 then .start else .stop
  else .nothing

/-- `forkandexec`: the child runs the script, and the parent returns its process or a dummy. Without a child
no script is run.
SOURCE: minit-0.10-sysV.patch:59-96 -/
def forkandexec (files : Files) (fork : Fork) (byShutdown : Bool) (srv : Process) (s : State) : ℤ × State :=
  match fork with
  | none => (files.refused, s)
  | some child =>
    (if files.sync srv.name then 1 else if srv.sysV then 1 else child,
      { s with log := s.log ++ [⟨byShutdown, srv.name, argument files srv⟩] })

/-- Store `pid` of a service. -/
def setPid (service : ℕ) (pid : ℤ) (s : State) : State :=
  { s with root := s.root.modify service fun srv => { srv with pid := pid } }

/-- `shutdownsysV`: whatever `forkandexec` returns, the `pid` is cleared.
SOURCE: minit-0.10-sysV.patch:101-113 -/
def shutdownsysV (files : Files) (fork : Fork) (service : ℕ) (s : State) : ℤ × State :=
  match s.root[service]? with
  | none => (0, s)
  | some srv =>
    if files.enter srv.name then
      let (rc, s) := forkandexec files fork true srv s
      (rc, setPid service 0 s)
    else (-1, s)

/-- What `startservice` does for a service itself: it is started if it is not up. -/
def startnodep (files : Files) (fork : Fork) (service : ℕ) (s : State) : State :=
  match s.root[service]? with
  | none => s
  | some srv =>
    if srv.pid ≠ 0 then s
    else
      let (pid, s) := forkandexec files fork false srv s
      setPid service pid s

/-- A service that `startservice` comes to. -/
def startOne (files : Files) (s : State) (service : Bytes × Fork) : State :=
  match loadservice files service.1 s with
  | (none, s) => s
  | (some idx, s) => startnodep files service.2 idx s

/-- The command `V`: the answer and the state.
SOURCE: minit-0.10-sysV.patch:132-141 -/
def shutdownCommand (files : Files) (fork : Fork) (service : Bytes) (s : State) : Char × State :=
  match loadservice files service s with
  | (none, s) => ('0', s)
  | (some idx, s) =>
    if (s.root[idx]?.map Process.sysV).getD false then
      let (rc, s) := shutdownsysV files fork idx s
      (if rc = 1 then '1' else '0', s)
    else ('0', s)

/-- One round of the command loop. -/
def step (s : State) (c : Files × Command) : State :=
  match c.2 with
  | .start services => services.foldl (startOne c.1) s
  | .shutdown service fork => (shutdownCommand c.1 fork service s).2

end TTLinux.Model.Minit
