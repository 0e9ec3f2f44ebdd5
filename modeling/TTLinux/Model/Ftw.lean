import Mathlib.Data.Int.Notation
import TTLinux.Lib.Bytes
import TTLinux.Model.Search

/-!
# File tree walk

`nftw` of dietlibc (toolchain/patches/dietlibc-0.32/dietlibc-ftw.patch) with `walker` and
the list of visited directories. The kernel and the callback are parameters: every
system call may change the state `W` of the world, and may fail in any state. A
directory stream is a value of `D`.

`alloca` returns what the stack holds: the bytes of the block and what lies behind it up
to a zero byte. The recursion and the `readdir` loop are bounded by the first argument;
a walk that needs more has no result. `int` is not bounded, and `path` and `cwd` of
`nftw` take any path that the kernel takes.
-/

set_option autoImplicit false

namespace TTLinux.Model.Ftw

open TTLinux.Lib
open TTLinux.Model.Search (Mem)

/-! ## Files and the kernel -/

/-- `st_mode & S_IFMT`, as far as `walker` tells it apart. -/
inductive Kind where
  | dir
  | lnk
  | other
  deriving DecidableEq

/-- `struct ftw_node`.
SOURCE: dietlibc-ftw.patch:44-47 -/
structure FtwNode where
  ino : ℕ
  dev : ℕ
  deriving DecidableEq

/-- The part of `struct stat` that is used. -/
structure Stat where
  node : FtwNode
  kind : Kind
  deriving DecidableEq

/-- `memset(&st, 0, sizeof(st))`. -/
def Stat.zero : Stat := ⟨⟨0, 0⟩, .other⟩

/-- The part of `struct dirent` that is used. -/
structure Dirent where
  dName : Bytes
  dOff : ℤ
  deriving DecidableEq

/-- What a callback is told about a file. -/
inductive FtwType where
  | F
  | D
  | DNR
  | NS
  | SL
  | DP
  | SLN
  deriving DecidableEq

/-- One call of the callback. -/
structure Call where
  path : Bytes
  st : Stat
  type : FtwType
  level : ℤ
  base : ℕ
  deriving DecidableEq

def ENOENT : ℕ := 2
def NAME_MAX : ℕ := 255
def PATH_MAX : ℕ := 4096

/-- The kernel and the C library below `nftw`. -/
structure System (W D : Type) where
  stat : Bytes → W → Except ℕ Stat × W
  lstat : Bytes → W → Except ℕ Stat × W
  opendir : Bytes → W → Option D × W
  /-- `dh->fd`. -/
  fd : D → ℕ
  readdir : D → W → Option Dirent × D × W
  seekdir : D → ℤ → D
  closedir : D → W → W
  chdir : Bytes → W → Bool × W
  fchdir : ℕ → W → Bool × W
  getcwd : W → Option Bytes × W
  malloc : W → Bool × W
  /-- `calloc` of a node for `tsearch`. -/
  calloc : Mem FtwNode → W → Option Addr × W
  /-- The bytes from the top of the stack on. -/
  stack : W → Bytes

/-- `__nftw_func_t`. -/
abbrev Callback (W : Type) := Call → W → ℤ × W

/-! ## The state of a walk -/

structure Flags where
  phys : Bool
  mount : Bool
  chdir : Bool
  depth : Bool
  deriving DecidableEq

/-- What a walk does, in order: callbacks, streams that are opened and closed, directories
that are descended into, and directories that the check for loops refuses. -/
inductive Event where
  | call (c : Call)
  | opened (fd : ℕ)
  | closed (fd : ℕ)
  | entered (node : FtwNode)
  | refused (node : FtwNode)
  deriving DecidableEq

/-- `struct ftw_conf` as far as it changes, the world, and what has happened.
SOURCE: dietlibc-ftw.patch:49-57 -/
structure State (W : Type) where
  world : W
  level : ℤ
  base : ℕ
  ftwList : Mem FtwNode
  fullpath : Bytes
  events : List Event

/-- The rest of `struct ftw_conf`; `statfunc` follows from the flags.
SOURCE: dietlibc-ftw.patch:49-57 -/
structure Conf where
  flags : Flags
  basedev : ℕ

/-- `struct ftw_data`; the field `last` is the rest of the list.
SOURCE: dietlibc-ftw.patch:59-64 -/
structure Data where
  node : FtwNode
  fd : ℕ
  len : ℕ

variable {W D : Type}

/-- Something has happened. -/
def State.log (s : State W) (e : Event) : State W := { s with events := s.events ++ [e] }

/-! ## Visited directories -/

/-- `nodecmp`.
SOURCE: dietlibc-ftw.patch:66-70 -/
def nodecmp (n1 n2 : FtwNode) : ℤ := if n1.ino = n2.ino ∧ n1.dev = n2.dev then 0 else 1

/-- `add_node`; the result is whether it returned 0.
SOURCE: dietlibc-ftw.patch:73-81 -/
def addNode (sys : System W D) (st : Stat) (s : State W) : Option (Bool × State W) :=
  let (node, w) := sys.malloc s.world
  if node then
    let (cell, w) := sys.calloc s.ftwList w
    (Search.tsearch nodecmp st.node (some .root) cell s.ftwList).map fun (p, m) =>
      (p.isSome, { s with world := w, ftwList := m })
  else some (false, { s with world := w })

/-- `find_node`.
SOURCE: dietlibc-ftw.patch:83-89 -/
def findNode (st : Stat) (s : State W) : Option Bool :=
  (Search.tfind nodecmp st.node (some .root) s.ftwList).map Option.isSome

/-- `tdestroy_recurse`; the first argument bounds its depth.
SOURCE: dietlibc-ftw.patch:91-99 -/
def tdestroyRecurse : ℕ → Addr → Mem FtwNode → Option (Mem FtwNode)
  | 0, _, _ => none
  | fuel + 1, root, m => do
    let n ← m.node root
    let m ← match n.left with
      | some l => tdestroyRecurse fuel l m
      | none => some m
    let n ← m.node root
    let m ← match n.right with
      | some r => tdestroyRecurse fuel r m
      | none => some m
    let _ ← m.node root
    some (m.free root)

/-! ## Strings -/

/-- `strncpy(path+n, name, NAME_MAX)`: the name, padded with zeros. -/
def strncpy (path : Bytes) (n : ℕ) (name : Bytes) : Bytes :=
  store path n (name.take NAME_MAX ++ List.replicate (NAME_MAX - name.length) 0)

/-- The path buffer: `alloca`, `strcpy` and the slash behind the name of the directory.
SOURCE: dietlibc-ftw.patch:201-203 -/
def pathBuffer (stack dir : Bytes) : Bytes :=
  let n := dir.length
  let path := stack ++ List.replicate (n + NAME_MAX + 2 - stack.length) 0
  store (store path 0 (dir ++ [0])) n [47]

/-- `.` and `..`.
SOURCE: dietlibc-ftw.patch:215-218 -/
def isDots (name : Bytes) : Bool := name = [46] || name = [46, 46]

/-- `strrchr(path, '/')`: the offset of the last slash. -/
def strrchr (path : Bytes) : Option ℕ :=
  (path.reverse.findIdx? (· = 47)).map fun i => path.length - 1 - i

/-! ## `walker` -/

/-- The type of a file and its `struct stat`; none is `return -1`.
SOURCE: dietlibc-ftw.patch:116-136 -/
def classify (sys : System W D) (flags : Flags) (here : Bytes) (w : W) : Option (FtwType × Stat) × W :=
  match if flags.phys then sys.lstat here w else sys.stat here w with
  | (.ok st, w) =>
    (some (match st.kind with
      | .dir => .D
      | .lnk => .SL
      | .other => .F, st), w)
  | (.error err, w) =>
    if err = ENOENT then
      match sys.lstat here w with
      | (.ok st, w) => (if st.kind = .lnk then some (.SLN, st) else none, w)
      | (.error _, w) => (none, w)
    else (some (.NS, .zero), w)

/-- `opendir`. -/
def openStream (sys : System W D) (path : Bytes) (s : State W) : Option D × State W :=
  match sys.opendir path s.world with
  | (some dh, w) => (some dh, { s with world := w }.log (.opened (sys.fd dh)))
  | (none, w) => (none, { s with world := w })

/-- `closedir`. -/
def closeStream (sys : System W D) (dh : D) (s : State W) : State W :=
  { s with world := sys.closedir dh s.world }.log (.closed (sys.fd dh))

/-- `if (dh) closedir(dh)`.
SOURCE: dietlibc-ftw.patch:265-267 -/
def cleanup (sys : System W D) (dh : Option D) (s : State W) : State W :=
  match dh with
  | some dh => closeStream sys dh s
  | none => s

/-- How the part for a directory ends: the directory was visited before, it cannot be added
to the list, or its stream is open, or not. -/
inductive Prepared (D : Type) where
  | visited
  | failed
  | ready (dh : Option D)

/-- The part for a directory: the list of visited ones, and `opendir`.
SOURCE: dietlibc-ftw.patch:138-154 -/
def prepare (sys : System W D) (flags : Flags) (here : Bytes) (st : Stat) (s : State W) :
    Option (Prepared D × State W) := do
  if flags.phys then
    let (dh, s) := openStream sys here s
    some (.ready dh, s)
  else if ← findNode st s then some (.visited, s)
  else
    let (added, s) ← addNode sys st s
    if added then
      let (dh, s) := openStream sys here s
      some (.ready dh, s)
    else some (.failed, s)

/-- The check for loops finds the file among the directories above it.
SOURCE: dietlibc-ftw.patch:159-166 -/
def isAncestor (flags : Flags) (st : Stat) (last : List Data) : Bool :=
  !flags.phys && last.any fun d => d.node = st.node

/-- A call of the callback.
SOURCE: dietlibc-ftw.patch:169, 262 -/
def callback (fn : Callback W) (dir : Bytes) (st : Stat) (type : FtwType) (s : State W) : ℤ × State W :=
  let c : Call := ⟨dir, st, type, s.level, s.base⟩
  let (r, w) := fn c s.world
  (r, { s with world := w }.log (.call c))

/-- How the `readdir` loop ends: with the stream and the return value, or in `goto error`. -/
inductive LoopEnd (D : Type) where
  | done (dh : Option D) (retval : ℤ)
  | error

/-- The `readdir` loop of a directory. `walk` is the recursive call, `n` the offset behind the
slash in the path buffer.
SOURCE: dietlibc-ftw.patch:212-239 -/
def readLoop (sys : System W D) (flags : Flags) (here : Bytes) (n : ℕ) (nopenfd : ℤ) (last : List Data)
    (walk : Bytes → ℤ → List Data → State W → Option (ℤ × State W)) :
    ℕ → D → Data → Bytes → State W → Option (LoopEnd D × State W)
  | 0, _, _, _, _ => none
  | fuel + 1, dh, data, path, s =>
    match sys.readdir dh s.world with
    | (none, dh, w) => some (.done (some dh) 0, { s with world := w })
    | (some de, dh, w) =>
      let s := { s with world := w }
      if isDots de.dName then
        readLoop sys flags here n nopenfd last walk fuel dh data path s
      else
        let path := strncpy path n de.dName
        let full := decide (nopenfd ≤ 1)
        let offset := if full then de.dOff else 0
        let data := if full then { data with fd := 0 } else data
        let s := if full then closeStream sys dh s else s
        match walk (cstr path) (nopenfd - 1) (data :: last) s with
        | none => none
        | some (retval, s) =>
          if retval ≠ 0 then some (.done (if full then none else some dh) retval, s)
          else if data.fd = 0 then
            match openStream sys (if flags.chdir then [46] else here) s with
            | (some dh, s) =>
              readLoop sys flags here n nopenfd last walk fuel (sys.seekdir dh offset)
                { data with fd := sys.fd dh } path s
            | (none, s) => some (.error, s)
          else readLoop sys flags here n nopenfd last walk fuel dh data path s

/-- `FTW_CHDIR` before the loop: the new `fullpath` and its length; none is `goto error`.
SOURCE: dietlibc-ftw.patch:185-199 -/
def goDown (sys : System W D) (flags : Flags) (here : Bytes) (last : List Data) (s : State W) :
    Option ℕ × State W :=
  if flags.chdir then
    let baselen := match last with
      | d :: _ => d.len
      | [] => (cstr s.fullpath).length
    let complen := here.length
    match sys.chdir here s.world with
    | (false, w) => (none, { s with world := w })
    | (true, w) =>
      let s := { s with world := w, fullpath := store s.fullpath baselen [47] }
      let baselen := baselen + 1
      if PATH_MAX ≤ baselen + complen then (none, s)
      else
        (some (baselen + complen), { s with fullpath := store s.fullpath baselen (here ++ [0]) })
  else (some 0, s)

/-- `FTW_CHDIR` behind the loop; false is `goto error`.
SOURCE: dietlibc-ftw.patch:244-253 -/
def goBack (sys : System W D) (flags : Flags) (last : List Data) (s : State W) : Bool × State W :=
  match flags.chdir, last with
  | true, d :: _ =>
    let s := { s with fullpath := store s.fullpath d.len [0] }
    let (ok, w) := if d.fd ≠ 0 then sys.fchdir d.fd s.world else sys.chdir (cstr s.fullpath) s.world
    (ok, { s with world := w })
  | _, _ => (true, s)

/-- How the part for the entries of a directory ends: in `return 0`, in `goto error`, or with the
stream and the return value. -/
inductive Descended (D : Type) where
  | leave
  | error (dh : Option D) (retval : ℤ)
  | done (dh : Option D) (retval : ℤ)

/-- The part for the entries of a directory.
SOURCE: dietlibc-ftw.patch:171-257 -/
def descend (sys : System W D) (conf : Conf) (dir here : Bytes) (st : Stat) (nopenfd : ℤ)
    (last : List Data) (walk : Bytes → ℤ → List Data → State W → Option (ℤ × State W)) (fuel : ℕ) (dh : D)
    (s : State W) : Option (Descended D × State W) :=
  if conf.flags.mount ∧ conf.basedev ≠ st.node.dev then some (.leave, s)
  else
    match goDown sys conf.flags here last s with
    | (none, s) => some (.error (some dh) 0, s)
    | (some len, s) =>
      let path := pathBuffer (sys.stack s.world) dir
      let n := dir.length + 1
      let base := s.base
      let s := { s with level := s.level + 1, base := n }.log (.entered st.node)
      match readLoop sys conf.flags here n nopenfd last walk fuel dh ⟨st.node, sys.fd dh, len⟩ path s with
      | none => none
      | some (.error, s) => some (.error none 0, s)
      | some (.done dh retval, s) =>
        match goBack sys conf.flags last s with
        | (false, s) => some (.error dh retval, s)
        | (true, s) => some (.done dh retval, { s with base := base, level := s.level - 1 })

/-- The end of `walker`: the callback with `FTW_DEPTH`, and the stream.
SOURCE: dietlibc-ftw.patch:259-268 -/
def conclude (sys : System W D) (fn : Callback W) (flags : Flags) (dir : Bytes) (st : Stat) (type : FtwType)
    (dh : Option D) (retval : ℤ) (s : State W) : ℤ × State W :=
  if retval = 0 ∧ flags.depth then
    let (retval, s) := callback fn dir st (if type = .D then .DP else type) s
    (retval, cleanup sys dh s)
  else (retval, cleanup sys dh s)

/-- `walker` from the check for loops on.
SOURCE: dietlibc-ftw.patch:156-268 -/
def visit (sys : System W D) (fn : Callback W) (conf : Conf) (dir here : Bytes) (type : FtwType) (st : Stat)
    (nopenfd : ℤ) (last : List Data) (walk : Bytes → ℤ → List Data → State W → Option (ℤ × State W))
    (fuel : ℕ) (dh : Option D) (s : State W) : Option (ℤ × State W) :=
  if isAncestor conf.flags st last then
    let s := if type = .D ∨ type = .DNR then s.log (.refused st.node) else s
    some (0, cleanup sys dh s)
  else
    let (retval, s) := if conf.flags.depth then (0, s) else callback fn dir st type s
    match dh with
    | some d =>
      if retval = 0 then
        match descend sys conf dir here st nopenfd last walk fuel d s with
        | none => none
        | some (.leave, s) => some (0, s)
        | some (.error dh retval, s) => some (retval, cleanup sys dh s)
        | some (.done dh retval, s) => some (conclude sys fn conf.flags dir st type dh retval s)
      else some (conclude sys fn conf.flags dir st type dh retval s)
    | none => some (conclude sys fn conf.flags dir st type none retval s)

/-- `walker`.
SOURCE: dietlibc-ftw.patch:101-269 -/
def walker (sys : System W D) (fn : Callback W) (conf : Conf) :
    ℕ → Bytes → ℤ → List Data → State W → Option (ℤ × State W)
  | 0, _, _, _, _ => none
  | fuel + 1, dir, nopenfd, last, s =>
    let here := if conf.flags.chdir then dir.drop s.base else dir
    let walk := walker sys fn conf fuel
    match classify sys conf.flags here s.world with
    | (none, w) => some (-1, { s with world := w })
    | (some (.D, st), w) =>
      match prepare sys conf.flags here st { s with world := w } with
      | none => none
      | some (.visited, s) => some (0, s)
      | some (.failed, s) => some (0, s)
      | some (.ready dh, s) =>
        visit sys fn conf dir here (if dh.isSome then .D else .DNR) st nopenfd last walk fuel dh s
    | (some (type, st), w) =>
      visit sys fn conf dir here type st nopenfd last walk fuel none { s with world := w }

/-! ## `nftw` -/

/-- `while (len && path[--len] == '/') path[len] = 0`: the buffer and `len`.
SOURCE: dietlibc-ftw.patch:289-291 -/
def trimSlashes (path : Bytes) : ℕ → Bytes × ℕ
  | 0 => (path, 0)
  | len + 1 => if path[len]? = some 47 then trimSlashes (path.set len 0) len else (path, len)

/-- `conf.ftw.base` at the start.
SOURCE: dietlibc-ftw.patch:283, 312-313 -/
def startBase (slash : Option ℕ) : ℕ :=
  match slash with
  | some i => i + 1
  | none => 0

/-- `FTW_CHDIR` at the start: the working directory to return to and `fullpath`; none is `goto err`.
SOURCE: dietlibc-ftw.patch:319-339 -/
def saveCwd (sys : System W D) (path : Bytes) (slash : Option ℕ) (w : W) : Option (Bytes × Bytes) × W :=
  match sys.malloc w with
  | (false, w) => (none, w)
  | (true, w) =>
    match sys.getcwd w with
    | (none, w) => (none, w)
    | (some cwd, w) =>
      let cut := match slash with
        | some i => path.take i
        | none => path
      match sys.chdir cut w with
      | (false, w) => (none, w)
      | (true, w) => (some (cwd, if cut.head? = some 47 then cut else cwd), w)

/-- `nftw`.
SOURCE: dietlibc-ftw.patch:271-358 -/
def nftw (sys : System W D) (fn : Callback W) (fuel : ℕ) (dir : Bytes) (nopenfd : ℤ) (flags : Flags)
    (w : W) : Option (ℤ × State W) := do
  let (buf, len) := trimSlashes (dir ++ [0]) dir.length
  let path := cstr buf
  let s : State W := ⟨w, 0, 0, .empty, [], []⟩
  match sys.stat dir w with
  | (.error _, w) => some (-1, { s with world := w })
  | (.ok st, w) =>
    let conf : Conf := ⟨flags, if flags.mount then st.node.dev else 0⟩
    let slash := if len ≠ 0 then strrchr path else none
    let s := { s with world := w, base := startBase slash }
    if flags.chdir then
      match saveCwd sys path slash w with
      | (none, w) => some (-1, { s with world := w })
      | (some (cwd, fullpath), w) =>
        let fullpath := fullpath ++ List.replicate (PATH_MAX - fullpath.length) 0
        let (rc, s) ← walker sys fn conf fuel path nopenfd [] { s with world := w, fullpath := fullpath }
        let (ok, w) := sys.chdir cwd s.world
        destroy (if ok then rc else -1) { s with world := w }
    else
      let (rc, s) ← walker sys fn conf fuel path nopenfd [] s
      destroy rc s
where
  /-- The end of `nftw`: the list of visited directories is freed. -/
  destroy (rc : ℤ) (s : State W) : Option (ℤ × State W) :=
    match s.ftwList.root with
    | none => some (rc, s)
    | some a => (tdestroyRecurse (s.ftwList.live + 1) a s.ftwList).map fun m =>
      (rc, { s with ftwList := m })

end TTLinux.Model.Ftw
