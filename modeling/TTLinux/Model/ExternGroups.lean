import Mathlib.Data.Int.Notation
import TTLinux.Lib.Bytes

/-!
# External groups of the network session manager

The two functions that the `WITH_TINYAD` build adds to authorization.c
(apps/crap/nsm/externgroups.patch): `get_external_groups` fetches the groups of a user
from the directory daemon, `check_external_group_permissions` evaluates the address
file of each group, and the block of `check_and_get_addr` merges the outcome with the
result of the user's own permissions. Address files and their evaluation belong to
code that the patch only calls; they are parameters. Logging is left out.
-/

set_option autoImplicit false

namespace TTLinux.Model.ExternGroups

open TTLinux.Lib

/-! ## Talking to the daemon -/

/-- What the pair of `select` and `read` meets: bytes that have arrived (none of them
when the connection is closed), a failing `read`, or ten seconds of silence. -/
inductive Event where
  | data (bytes : Bytes)
  | failed
  | timeout
  deriving DecidableEq

/-- The system as `get_external_groups` sees it. -/
structure System where
  /-- `socket` returns a descriptor. -/
  socket : Bool
  /-- The return value of `connect`. -/
  connect : ℤ
  /-- The socket becomes writable in time. -/
  writable : Bool
  /-- `realloc` to a given size succeeds. -/
  realloc : ℕ → Bool
  /-- What `realloc` leaves at an index it has added. -/
  junk : ℕ → UInt8
  /-- What arrives after a request; silence follows the last event. -/
  daemon : Bytes → List Event

/-- How a call ends: it returns, and has stored `*err`, or it touches memory outside
the buffer. -/
inductive Outcome where
  | returned (buf : Option Bytes) (err : Bool)
  | fault
  deriving DecidableEq

/-- The request, with the zero byte that is sent along.
SOURCE: externgroups.patch:303-305 -/
def request (login : Bytes) : Bytes :=
  ascii ['u', 'g', 'r', 'o', 'u', 'p', 's', ' '] ++ cstr login ++ ascii ['\r', '\n'] ++ [0]

/-- The last line of a complete reply. -/
def gadsend : Bytes := ascii ['G', 'A', 'D', 'S', 'E', 'N', 'D', '\n']

/-- The last line of a refused request. -/
def gadserror : Bytes := ascii ['G', 'A', 'D', 'S', 'E', 'R', 'R', 'O', 'R', '\n']

/-- `s >= n && !strncmp(buf+s-n, word, n)` for a word of `n` bytes. -/
def endsWith (buf : Bytes) (s : ℕ) (word : Bytes) : Bool :=
  decide (word.length ≤ s) && ((buf.drop (s - word.length)).take word.length == word)

/-- The end of a reply: the last line is erased, and the byte before it, which is
outside of the buffer when there is none, becomes a newline.
SOURCE: externgroups.patch:334-346 -/
def finish (buf : Bytes) (s : ℕ) : Outcome :=
  if s < 9 then .fault
  else .returned (some (store (store buf (s - 8) (List.replicate 8 0)) (s - 9) [newline])) false

/-- The bytes that `realloc` adds when a buffer grows to twice its size. -/
def grown (junk : ℕ → UInt8) (len : ℕ) : Bytes :=
  (List.range len).map fun i => junk (len + i)

/-- The number of reads that a list of events can still answer. -/
def pending : List Event → ℕ
  | [] => 0
  | .data bytes :: es => bytes.length + 1 + pending es
  | _ :: es => 1 + pending es

/-- The read loop; `len` is the length of `buf`. Bytes that `read` did not take stay in
the socket. The assignment in `if (s=len)` moves `s` to the end of the buffer and lets
the buffer grow after every read that did not end the reply.
SOURCE: externgroups.patch:322-377 -/
def receive (sys : System) (buf : Bytes) (s : ℕ) (events : List Event) : Outcome :=
  match events with
  | [] => .returned none true
  | .timeout :: _ => .returned none true
  | .failed :: _ => .returned none true
  | .data bytes :: rest =>
    let chunk := bytes.take (buf.length - s)
    if chunk = [] then .returned none true
    else
      let buf' := store buf s chunk
      let s' := s + chunk.length
      if endsWith buf' s' gadsend then finish buf' s'
      else if endsWith buf' s' gadserror then .returned none true
      else if sys.realloc (2 * buf'.length) then
        let left := bytes.drop (buf.length - s)
        receive sys (buf' ++ grown sys.junk buf'.length) buf'.length
          (if left = [] then rest else .data left :: rest)
      -- the next read gets a null pointer and fails
      else .returned none true
termination_by pending events
decreasing_by
  rename_i hne _ _ _
  have htake : 0 < min (buf.length - s) bytes.length := by
    rw [← List.length_take]
    exact List.length_pos_of_ne_nil hne
  split
  · simp only [pending]
    omega
  · simp only [pending, List.length_drop]
    omega

/-- `get_external_groups`. A failing `connect` returns -1, which the test misses.
SOURCE: externgroups.patch:267-378 -/
def getExternalGroups (sys : System) (login : Bytes) : Outcome :=
  if !sys.socket then .returned none true
  else if 0 < sys.connect then .returned none true
  else if !sys.writable then .returned none true
  else if !sys.realloc 27 then .returned none true
  else receive sys (List.replicate 27 0) 0 (sys.daemon (request login))

/-! ## Evaluating the groups -/

/-- The result codes; the ones that the patch does not name are `other`. -/
inductive Result where
  | authorized
  | unauthorizedService
  | errorNotFound
  | error
  | other (code : ℤ)
  deriving DecidableEq

section

variable {F : Type} (addr_open : Bytes → Option F) (check_and_get_addr_loop : F → Result × Bool)

/-- The loop over the lines of the group buffer; `check_and_get_addr_loop` returns its
result and whether it met a syntax error.
SOURCE: externgroups.patch:198-260 -/
def groupLoop (result : Result) (group : Bytes) : Result :=
  match _hcut : cutLine group with
  | none => result
  | some (name, tmp) =>
    match addr_open name with
    | some addr_file =>
      let (res_tmp, err) := check_and_get_addr_loop addr_file
      if err then .error
      else if res_tmp = .authorized then .authorized
      else if result ≠ .authorized then groupLoop res_tmp tmp
      else groupLoop result tmp
    | none => groupLoop .errorNotFound tmp
termination_by group.length
decreasing_by all_goals exact cutLine_length group name tmp _hcut

/-- `check_external_group_permissions`, from what `get_external_groups` returned on.
SOURCE: externgroups.patch:170-263 -/
def checkExternalGroupPermissions (group : Option Bytes) : Result :=
  match group with
  | none => .errorNotFound
  | some buf => groupLoop addr_open check_and_get_addr_loop .unauthorizedService buf

/-- The value of `result` that `check_and_get_addr` holds after the external groups.
SOURCE: externgroups.patch:67-97 -/
def mergeExternalGroups (result : Result) (group : Option Bytes) : Result :=
  let res_tmp := checkExternalGroupPermissions addr_open check_and_get_addr_loop group
  if res_tmp ≠ .errorNotFound then res_tmp else result

/-- The block of `check_and_get_addr` with the groups fetched from the daemon, unless
the fetch left its buffer.
SOURCE: externgroups.patch:67-97 -/
def checkExternalGroups (sys : System) (login : Bytes) (result : Result) : Option Result :=
  match getExternalGroups sys login with
  | .returned group _ => some (mergeExternalGroups addr_open check_and_get_addr_loop result group)
  | .fault => none

end

end TTLinux.Model.ExternGroups
