import TTLinux.Model.Greylist

/-!
# The stores of `timeAsString`

`timeAsString` of greylisting-spp (apps/mail/greylisting-spp/greylisting-spp-sqlite3.patch) as it
stores byte after byte, with an index that has no lower bound, and the times that the functions
of the database pass to it.
-/

set_option autoImplicit false

namespace TTLinux.Model.Greylist

open TTLinux.Lib

/-- A byte stored into the buffer `ts`. -/
structure Store where
  index : ℤ
  byte : UInt8
deriving DecidableEq

/-- The second loop, from the index `n - 1` down.
SOURCE: greylisting-spp-sqlite3.patch:110 -/
def zeroStores : ℕ → List Store
  | 0 => []
  | n + 1 => ⟨n, 0x30⟩ :: zeroStores n

/-- Both loops from the index `i` on, where the first one takes less than `fuel` rounds. The shift
of a negative time keeps its sign.
SOURCE: greylisting-spp-sqlite3.patch:99-110 -/
def timeStores : ℕ → ℤ → ℤ → Option (List Store)
  | 0, _, _ => none
  | fuel + 1, i, time =>
    if time = 0 then some (zeroStores (i + 1).toNat)
    else (timeStores fuel (i - 1) (time >>> (4 : ℕ))).map (⟨i, hexDigit (time % 16).toNat⟩ :: ·)

/-- `timeAsString`: its stores when it returns within so many rounds.
SOURCE: greylisting-spp-sqlite3.patch:96-111 -/
def timeAsStringStores (fuel : ℕ) (time : ℤ) : Option (List Store) := timeStores fuel 7 time

/-- The functions that call `timeAsString`. -/
inductive Caller where
  | opendb
  | addEntry
  | updateEntry
deriving DecidableEq

/-- The file has the version of the program and a time of the last cleanup that is more than
`max_wait` seconds in the past.
SOURCE: greylisting-spp-sqlite3.patch:240-278 -/
def CleanupDue (cfg : Settings) (now : ℤ) (s : State) : Prop :=
  ∃ d result_time, s.file = some d ∧ d.version = some dbVersion ∧ d.lastCleanup = some result_time ∧
    result_time.headD 0 ≠ 0 ∧ now - parseTimeString result_time > cfg.maxWait

/-- The times in the calls of `timeAsString` that `opendb` makes.
SOURCE: greylisting-spp-sqlite3.patch:200-305 -/
def opendbTimes (cfg : Settings) (now : ℤ) (s : State) : List ℤ :=
  match s.file with
  | none => [now]
  | some d =>
    if d.version ≠ some dbVersion then []
    else
      match d.lastCleanup with
      | none => [now]
      | some result_time =>
        if result_time.headD 0 = 0 then [now]
        else if now - parseTimeString result_time > cfg.maxWait then
          [now - cfg.maxWait, now - cfg.acceptGood, now]
        else []

/-- The times in the calls of `timeAsString` that a function makes.
SOURCE: greylisting-spp-sqlite3.patch:112-116, 200-305, 362, 397 -/
def Caller.times (cfg : Settings) (now : ℤ) (s : State) : Caller → List ℤ
  | .opendb => opendbTimes cfg now s
  | .addEntry => [now]
  | .updateEntry => [now]

end TTLinux.Model.Greylist
