import Mathlib.Data.Int.Notation
import TTLinux.Lib.Hex
import TTLinux.Lib.KeyedTable

/-!
# The greylist database

The functions of greylisting-spp on its SQLite database
(apps/mail/greylisting-spp/greylisting-spp-sqlite3.patch). SQLite executes the statements, with
binary comparison of texts; a statement fails only for a second row under a primary key. The
two tables are created together, so that a file holds both or none. `time_t` has 64 bits, and
`now` is what `time` returns during a call.
-/

set_option autoImplicit false

namespace TTLinux.Model.Greylist

open TTLinux.Lib

/-- The intervals, in seconds. -/
structure Settings where
  minReject : ℕ
  maxWait : ℕ
  acceptGood : ℕ

/-- The primary key of `GL_GREYLIST`.
SOURCE: greylisting-spp-sqlite3.patch:228-234 -/
structure Triple where
  ip : Bytes
  sender : Bytes
  recipient : Bytes
deriving DecidableEq

/-- The other columns of `GL_GREYLIST`. -/
structure Entry where
  flag : UInt8
  timestamp : Bytes
deriving DecidableEq

/-- The flag `-` of a triple that was added. -/
def flagWaiting : UInt8 := 0x2D

/-- The flag `+` of a triple that was let through. -/
def flagGood : UInt8 := 0x2B

/-- A file that holds the tables: the two values of `GL_MGMT`, and `GL_GREYLIST`. -/
structure Database where
  version : Option Bytes
  lastCleanup : Option Bytes
  greylist : KeyedTable Triple Entry

/-- A pointer of the array `parameter`. -/
inductive Slot where
  | null
  | text (s : Bytes)
  /-- The buffer of a call that has returned. -/
  | dangling

/-- The process and its file. -/
structure State where
  /-- `db` is not null. -/
  db : Bool
  file : Option Database
  parameter : Fin 4 → Slot

/-- How a call ends. -/
inductive Outcome where
  | returned (v : ℤ)
  | exit
  /-- Stores before the start of a buffer. -/
  | overrun
deriving DecidableEq

/-! ## Times -/

/-- The loops of `timeAsString`, with `i + 1` bytes of the buffer still to be stored.
SOURCE: greylisting-spp-sqlite3.patch:99-110 -/
def timeAsStringLoop : ℕ → ℕ → Bytes → Option Bytes
  | 0, time, ts => if time = 0 then some ts else none
  | i + 1, time, ts =>
    if time = 0 then some (List.replicate (i + 1) 0x30 ++ ts)
    else timeAsStringLoop i (time / 16) (hexDigit (time % 16) :: ts)

/-- `timeAsString`. The digits of a negative time never end.
SOURCE: greylisting-spp-sqlite3.patch:96-111 -/
def timeAsString (time : ℤ) : Option Bytes :=
  if time < 0 then none else timeAsStringLoop 8 time.toNat []

/-- The loop of `parseTimeString` over the bytes that are left. -/
def parseTimeStringLoop : Bytes → ℤ → ℤ
  | [], ts => ts
  | c :: buf, ts =>
    if 0x30 ≤ c ∧ c ≤ 0x39 then parseTimeStringLoop buf (ts * 16 + (c.toNat - 0x30))
    else if 0x61 ≤ c ∧ c ≤ 0x66 then parseTimeStringLoop buf (ts * 16 + (c.toNat - 0x61 + 10))
    else -1

/-- `parseTimeString`. The terminator of a text that is too short is no digit.
SOURCE: greylisting-spp-sqlite3.patch:119-138 -/
def parseTimeString (buf : Bytes) : ℤ := parseTimeStringLoop ((buf ++ [0]).take 8) 0

/-! ## Statements -/

/-- `gl_parameter`, by the index into the array. There is no text behind a null pointer, and none
that could be relied on behind a dangling one.
SOURCE: greylisting-spp-sqlite3.patch:159-162 -/
def State.glParameter (s : State) (i : Fin 4) : Option Bytes :=
  match s.parameter i with
  | .text t => some t
  | _ => none

def State.setParameter (s : State) (i : Fin 4) (v : Slot) : State :=
  { s with parameter := Function.update s.parameter i v }

/-- The first three parameters as they are set for a triple.
SOURCE: greylisting-spp-sqlite3.patch:331-333, 392-394 -/
def State.setTriple (s : State) (t : Triple) : State :=
  ((s.setParameter 0 (.text t.ip)).setParameter 1 (.text t.sender)).setParameter 2 (.text t.recipient)

/-- The key in `WHERE IP = gl_parameter(1) AND Sender = gl_parameter(2) AND Recipient = gl_parameter(3)`. -/
def State.whereTriple (s : State) : Option Triple := do
  let ip ← s.glParameter 0
  let sender ← s.glParameter 1
  let recipient ← s.glParameter 2
  return ⟨ip, sender, recipient⟩

/-- `GL_GREYLIST`. A file without tables has no row. -/
def State.greylist (s : State) : KeyedTable Triple Entry :=
  match s.file with
  | some d => d.greylist
  | none => .empty

def State.setGreylist (s : State) (t : KeyedTable Triple Entry) : State :=
  { s with file := s.file.map fun d => { d with greylist := t } }

/-- `exit(1)` after `closedb`: the next process starts with null pointers. -/
def State.exit (s : State) : Outcome × State :=
  (.exit, { s with db := false, parameter := fun _ => .null })

/-- `DELETE FROM GL_GREYLIST WHERE Flag = flag AND Timestamp < limit`. -/
def deleteOlder (flag : UInt8) (limit : Bytes) (t : KeyedTable Triple Entry) : KeyedTable Triple Entry :=
  t.deleteWhere fun _ e => e.flag = flag ∧ e.timestamp < limit

/-! ## The functions -/

/-- The cleanup of `opendb` at the time `now`, on the tables.
SOURCE: greylisting-spp-sqlite3.patch:276-301 -/
def cleanup (cfg : Settings) (now : ℤ) (d : Database) : Option Database := do
  let limit ← timeAsString (now - cfg.maxWait)
  let t := deleteOlder flagWaiting limit d.greylist
  let limit ← timeAsString (now - cfg.acceptGood)
  let t := deleteOlder flagGood limit t
  let ts ← timeAsString now
  return { d with greylist := t, lastCleanup := d.lastCleanup.map fun _ => ts }

/-- The text of the version that `opendb` asks for.
SOURCE: greylisting-spp-sqlite3.patch:216, 246 -/
def dbVersion : Bytes := ascii "1.0".toList

/-- `opendb`. The first parameter is left with a pointer to its buffer where it stores a time.
SOURCE: greylisting-spp-sqlite3.patch:168-305 -/
def opendb (cfg : Settings) (now : ℤ) (s : State) : Outcome × State :=
  let s := { s with db := true }
  match s.file with
  | none =>
    match timeAsString now with
    | none => (.overrun, s)
    | some ts =>
      (.returned 0, { s with file := some ⟨some dbVersion, some ts, .empty⟩ }.setParameter 0 .dangling)
  | some d =>
    if d.version ≠ some dbVersion then s.exit
    else
      match d.lastCleanup with
      | none =>
        match timeAsString now with
        | none => (.overrun, s)
        | some ts =>
          (.returned 0, { s with file := some { d with lastCleanup := some ts } }.setParameter 0 .dangling)
      | some result_time =>
        -- an empty time is taken for a missing one, and there is already a row under the name
        if result_time.headD 0 = 0 then s.exit
        else if now - parseTimeString result_time > cfg.maxWait then
          match cleanup cfg now d with
          | none => (.overrun, s)
          | some d => (.returned 0, { s with file := some d }.setParameter 0 .dangling)
        else (.returned 0, s)

/-- `delete_entry`.
SOURCE: greylisting-spp-sqlite3.patch:376-385 -/
def deleteEntry (s : State) : Outcome × State :=
  if !s.db then s.exit
  else
    match s.whereTriple with
    | none => (.returned 0, s)
    | some t => (.returned 0, s.setGreylist (s.greylist.deleteWhere fun t' _ => t' = t))

/-- An entry that `find_entry` deletes.
SOURCE: greylisting-spp-sqlite3.patch:346-347 -/
def expired (cfg : Settings) (now : ℤ) (e : Entry) : Bool :=
  let age := now - parseTimeString e.timestamp
  (age > cfg.maxWait && e.flag = flagWaiting) || (age > cfg.acceptGood && e.flag = flagGood)

/-- `find_entry`.
SOURCE: greylisting-spp-sqlite3.patch:327-354 -/
def findEntry (cfg : Settings) (now : ℤ) (t : Triple) (s : State) : Outcome × State :=
  let s := s.setTriple t
  if !s.db then s.exit
  else
    match s.whereTriple.bind s.greylist.lookup with
    | none => (.returned (-1), s)
    | some e =>
      if e.timestamp.headD 0 = 0 then (.returned (-1), s)
      else if expired cfg now e then (.returned (-1), (deleteEntry s).2)
      else if e.flag = flagGood ∨ now - parseTimeString e.timestamp ≥ cfg.minReject then (.returned 1, s)
      else (.returned 0, s)

/-- `update_entry`.
SOURCE: greylisting-spp-sqlite3.patch:358-372 -/
def updateEntry (now : ℤ) (s : State) : Outcome × State :=
  match timeAsString now with
  | none => (.overrun, s)
  | some ts =>
    let s := s.setParameter 3 .dangling
    if !s.db then s.exit
    else
      match s.whereTriple with
      | none => (.returned 0, s)
      | some t => (.returned 0, s.setGreylist (s.greylist.modify t fun _ => ⟨flagGood, ts⟩))

/-- `add_entry`.
SOURCE: greylisting-spp-sqlite3.patch:388-407 -/
def addEntry (now : ℤ) (t : Triple) (s : State) : Outcome × State :=
  let s := s.setTriple t
  match timeAsString now with
  | none => (.overrun, s)
  | some ts =>
    let s := s.setParameter 3 .dangling
    if !s.db then s.exit
    else
      match s.greylist.insert t ⟨flagWaiting, ts⟩ with
      | none => s.exit
      | some greylist => (.returned 0, s.setGreylist greylist)

end TTLinux.Model.Greylist
