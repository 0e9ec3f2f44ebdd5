import Mathlib.Data.Int.Notation
import TTLinux.Lib.Memory
import TTLinux.Lib.Rounds

/-!
# The group helper of squid

`sambagroups_listener` (apps/net/samba/samba-sambagroups.patch) answers squid's question
whether a user is in a group, one request line at a time. What winbindd answers while a
request is processed is the parameter `Winbindd`; a request makes at most one call of each
kind. Writes to the output descriptor are complete.
-/

set_option autoImplicit false

namespace TTLinux.Model.SambaGroups

open TTLinux.Lib
open TTLinux.Lib.Memory (Mem write)

/-- `READSIZ`.
SOURCE: samba-sambagroups.patch:39 -/
def READSIZ : ℕ := 1024

/-- `domainsep`.
SOURCE: samba-sambagroups.patch:45 -/
def domainsep : UInt8 := 0x2B

/-- `hex2int`.
SOURCE: samba-sambagroups.patch:47-56 -/
def hex2int (c : UInt8) : ℤ :=
  if 0x30 ≤ c ∧ c ≤ 0x39 then c.toNat - 0x30
  else if 0x41 ≤ c ∧ c ≤ 0x46 then c.toNat - 0x41 + 10
  else if 0x61 ≤ c ∧ c ≤ 0x66 then c.toNat - 0x61 + 10
  else -1

/-- `urldecode` on the bytes of a string. Of the two bytes behind a `%` the second one
counts only if the first one is a digit, so that no byte behind the terminator counts.
SOURCE: samba-sambagroups.patch:58-78 -/
def urldecode : Bytes → Bytes
  | c :: x :: y :: s =>
    if c = 0x25 ∧ 0 ≤ hex2int x ∧ 0 ≤ hex2int y then
      (hex2int x * 16 + hex2int y).toNat.toUInt8 :: urldecode s
    else c :: urldecode (x :: y :: s)
  | c :: s => c :: urldecode s
  | [] => []

/-- The memory and the two pointers of `urldecode`. -/
structure Cursors where
  mem : Mem
  s : ℕ
  tmp : ℕ

/-- One round of the loop of `urldecode` up to `fin`, and the terminator behind the last one.
SOURCE: samba-sambagroups.patch:63-76 -/
def decodeRound (fin : ℕ) (c : Cursors) : Mem ⊕ Cursors :=
  if c.s < fin then
    let a := hex2int (c.mem (c.s + 1))
    let b := hex2int (c.mem (c.s + 2))
    if c.mem c.s = 0x25 ∧ 0 ≤ a ∧ 0 ≤ b then
      .inr ⟨write c.mem c.tmp [(a * 16 + b).toNat.toUInt8], c.s + 3, c.tmp + 1⟩
    else .inr ⟨write c.mem c.tmp [c.mem c.s], c.s + 1, c.tmp + 1⟩
  else .inl (write c.mem c.tmp [0])

/-- `urldecode` in the memory, where `len` is `strlen(s)`. Every round moves `s` on.
SOURCE: samba-sambagroups.patch:58-78 -/
def urldecodeInPlace (m : Mem) (s len : ℕ) : Option Mem :=
  if s ≠ 0 then Rounds.run (decodeRound (s + len)) (len + 1) ⟨m, s, s⟩ else some m

/-- What winbindd answers during one request, if it answers at all. -/
structure Winbindd where
  /-- `WINBINDD_LOOKUPNAME` of a domain and a name: a SID. -/
  lookupname : Bytes → Bytes → Option Bytes
  /-- `WINBINDD_SID_TO_GID`. -/
  sidToGid : Bytes → Option UInt32
  /-- `WINBINDD_GETGROUPS` of a user: the list of gids. -/
  getgroups : Bytes → Option (List UInt32)

/-- `fstrcpy`: what an `fstring` of 256 bytes can hold of a string. -/
def fstrcpy (s : Bytes) : Bytes := s.take 255

/-- The `dom_name` of the first request: what stands before the separator, if there is one.
SOURCE: samba-sambagroups.patch:100-106 -/
def domain (user : Bytes) : Bytes :=
  if domainsep ∈ user then fstrcpy (user.takeWhile (· ≠ domainsep)) else []

/-- The messages of `sambagroups_lookup`. -/
inductive Message where
  | userMissing
  | groupMissing
  | groupSid
  | sidToGid
  | userGroups

/-- What is written for a message.
SOURCE: samba-sambagroups.patch:92, 96, 113, 123, 139 -/
def Message.text : Message → Bytes
  | .userMissing => ascii "ERROR: user missing\n".toList
  | .groupMissing => ascii "ERROR: group missing\n".toList
  | .groupSid => ascii "ERROR: cannot lookup group sid\n".toList
  | .sidToGid => ascii "ERROR: cannot convert sid to gid\n".toList
  | .userGroups => ascii "ERROR: cannot lookup user groups\n".toList

/-- `sambagroups_lookup`: the return value and what it has written.
SOURCE: samba-sambagroups.patch:80-152 -/
def sambagroupsLookup (wb : Winbindd) (user group : Option Bytes) : ℤ × Bytes :=
  match user, group with
  | none, _ => (-1, Message.userMissing.text)
  | some _, none => (-1, Message.groupMissing.text)
  | some user, some group =>
    match wb.lookupname (domain user) (fstrcpy group) with
    | none => (-1, Message.groupSid.text)
    | some sid =>
      match wb.sidToGid (fstrcpy sid) with
      | none => (-1, Message.sidToGid.text)
      | some gid =>
        match wb.getgroups (fstrcpy user) with
        | none => (-1, Message.userGroups.text)
        | some gids => if gid ∈ gids then (0, []) else (-1, [])

/-- The user field of a request line whose last byte has been overwritten. -/
def userField (line : Bytes) : Bytes :=
  (cstr line.dropLast).takeWhile (· ≠ 0x20)

/-- The group field, unless there is no blank. -/
def groupField (line : Bytes) : Option Bytes :=
  match (cstr line.dropLast).dropWhile (· ≠ 0x20) with
  | [] => none
  | _ :: group => some group

/-- What the listener writes for a group that the user is in; `%s` of a null pointer is not
reached.
SOURCE: samba-sambagroups.patch:185-187 -/
def okLine (group : Bytes) : Bytes :=
  (ascii "OK log=\"".toList ++ group ++ ascii "\"\n".toList).take (READSIZ - 2 - 1)

/-- What the listener writes after a lookup that fails. -/
def errLine : Bytes := ascii "ERR\n".toList

/-- One turn of the loop: what is written for one line.
SOURCE: samba-sambagroups.patch:167-188 -/
def respond (wb : Winbindd) (line : Bytes) : Bytes :=
  let user := cstr (urldecode (userField line))
  let group := (groupField line).map fun g => cstr (urldecode g)
  let (rc, written) := sambagroupsLookup wb (some user) group
  if rc = -1 then written ++ errLine else written ++ okLine (group.getD [])

/-- `sambagroups_listener`: everything that is written until a read fails or is empty. Each
read comes with what winbindd answers while its line is processed.
SOURCE: samba-sambagroups.patch:154-197 -/
def sambagroupsListener : List (Bytes × Winbindd) → Bytes
  | [] => []
  | (line, wb) :: reads => if line = [] then [] else respond wb line ++ sambagroupsListener reads

end TTLinux.Model.SambaGroups
