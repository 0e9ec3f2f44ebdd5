import Mathlib.Data.Int.Notation
import TTLinux.Lib.Bytes

/-!
# Parsing a date of dietlibc

`strptime` as it stands after toolchain/patches/dietlibc-0.30/dietlibc-strptime.patch. Strings are their bytes without
the terminator. Lines that the patch does not show are in `Unseen`, together with the table `__spm` and `__isleap`. A
null pointer is `none`.
-/

set_option autoImplicit false

namespace TTLinux.Model.Strptime

open TTLinux.Lib

/-- `struct tm` -/
structure Tm where
  tmSec : ℤ
  tmMin : ℤ
  tmHour : ℤ
  tmMday : ℤ
  tmMon : ℤ
  tmYear : ℤ
  tmWday : ℤ
  tmYday : ℤ
deriving DecidableEq

/-- What the patch only names. -/
structure Unseen where
  /-- `getint(&s, max)` -/
  getint : Bytes → ℕ → ℤ × Bytes
  /-- What is done for white space in the format. -/
  blank : Bytes → Bytes
  /-- The directives of which the patch does not show every line. -/
  directive : UInt8 → Bytes → Tm → Option (Bytes × Tm)
  /-- Whatever is read for an index, also outside of the table. -/
  __spm : ℤ → ℤ
  /-- 0 or 1. -/
  __isleap : ℤ → Bool

variable (U : Unseen)

/-- A number of at most `max` digits that is refused where `bad` says so. -/
def number (max : ℕ) (bad : ℤ → Bool) (set : ℤ → Tm → Tm) (s : Bytes) (tm : Tm) : Option (Bytes × Tm) :=
  let (i, s) := U.getint s max
  if bad i then none else some (s, set i tm)

/-- `case '%'`: the directive `c`. `%T` calls `strptime` itself.
SOURCE: dietlibc-strptime.patch:22-123 -/
def directive (time : Bytes → Tm → Option (Bytes × Tm)) (c : UInt8) (s : Bytes) (tm : Tm) : Option (Bytes × Tm) :=
  if c = 0x25 then if s.head? = some 0x25 then some (s.tail, tm) else none
  -- C
  else if c = 0x43 then
    number U 2 (· == -1) (fun i tm => { tm with tmYear := Int.tmod tm.tmYear 100 + i * 100 }) s tm
  -- d, e
  else if c = 0x64 ∨ c = 0x65 then number U 2 (fun i => i == -1 || 31 < i) (fun i tm => { tm with tmMday := i }) s tm
  -- H, k
  else if c = 0x48 ∨ c = 0x6B then number U 2 (fun i => i == -1 || 23 < i) (fun i tm => { tm with tmHour := i }) s tm
  -- I, l
  else if c = 0x49 ∨ c = 0x6C then
    number U 2 (fun i => i == -1 || 12 < i) (fun i tm => { tm with tmHour := Int.tdiv tm.tmHour 12 * 12 + i }) s tm
  -- m
  else if c = 0x6D then number U 2 (fun i => i ≤ 0 || 12 < i) (fun i tm => { tm with tmMon := i - 1 }) s tm
  -- M
  else if c = 0x4D then number U 2 (fun i => i == -1 || 59 < i) (fun i tm => { tm with tmMin := i }) s tm
  -- S
  else if c = 0x53 then number U 2 (fun i => i == -1 || 60 < i) (fun i tm => { tm with tmSec := i }) s tm
  -- T
  else if c = 0x54 then time s tm
  -- U, W
  else if c = 0x55 ∨ c = 0x57 then number U 2 (· == -1) (fun _ tm => tm) s tm
  -- w
  else if c = 0x77 then
    match s with
    | [] => none
    | b :: s => if b < 0x30 ∨ 0x36 < b then none else some (s, tm)
  -- y
  else if c = 0x79 then
    number U 2 (· < 0) (fun i tm => { tm with tmYear := if i < 69 then i + 100 else i }) s tm
  -- Y
  else if c = 0x59 then number U 4 (· == -1) (fun i tm => { tm with tmYear := i - 1900 }) s tm
  else U.directive c s tm

/-- The loop over the format. Behind a `%` at its end the code reads on behind the terminator; nothing is said of it.
SOURCE: dietlibc-strptime.patch:18-131 -/
def parse (time : Bytes → Tm → Option (Bytes × Tm)) : Bytes → Bytes → Tm → Option (Bytes × Tm)
  | [], s, tm => some (s, tm)
  | c :: format, s, tm =>
    if c = 0x20 ∨ c = 0x09 then parse time format (U.blank s) tm
    else if c = 0x25 then
      match format with
      | [] => none
      | d :: format =>
        match directive U time d s tm with
        | none => none
        | some (s, tm) => parse time format s tm
    else if s.head? ≠ some c then none
    else parse time format s.tail tm

/-- What is computed of the fields at the end. Both sides of the `&` are 0 or 1.
SOURCE: dietlibc-strptime.patch:133-135 -/
def complete (tm : Tm) : Tm :=
  let day := (tm.tmYear - 70) * 365 + Int.tdiv (tm.tmYear - 69) 4
  let tmYday := U.__spm tm.tmMon + tm.tmMday - 1 + if U.__isleap (tm.tmYear + 1900) && 1 < tm.tmMon then 1 else 0
  let day := day + tmYday
  { tm with
    tmYday := tmYday
    tmWday := Int.tmod (day + 4) 7 }

/-- `strptime` for a format without `%T`. -/
def strptimeFlat (s format : Bytes) (tm : Tm) : Option (Bytes × Tm) :=
  (parse U (fun _ _ => none) format s tm).map fun (s, tm) => (s, complete U tm)

/-- `%T`, which is `%H:%M:%S`. -/
def time (s : Bytes) (tm : Tm) : Option (Bytes × Tm) := strptimeFlat U s (ascii "%H:%M:%S".toList) tm

/-- `strptime`.
SOURCE: dietlibc-strptime.patch:14-138 -/
def strptime (s format : Bytes) (tm : Tm) : Option (Bytes × Tm) :=
  (parse U (time U) format s tm).map fun (s, tm) => (s, complete U tm)

end TTLinux.Model.Strptime
