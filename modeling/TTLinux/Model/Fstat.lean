import Mathlib.Data.Int.Notation
import TTLinux.Lib.Bytes

/-!
# fstat

The program TOOLS/fstat.c, where `long` and the fields of `struct stat` have 64 bits and products
wrap around. A buffer is the list of its bytes; a string that does not end in its buffer has no
length. Every `write` succeeds, so that what is written is a list of lines, each of one call of
`write1` or `write2`.
-/

set_option autoImplicit false

namespace TTLinux.Model.Fstat

open TTLinux.Lib

/-- `struct stat`, as far as it is used. -/
structure Stat where
  stSize : BitVec 64
  stBlksize : BitVec 64
  stBlocks : BitVec 64
  stAtime : BitVec 64
  stMtime : BitVec 64
  stCtime : BitVec 64

/-- The first loop of `fmt_ulong`: the number of digits.
SOURCE: fstat.c:8 -/
def countDigits (len tmp : ℕ) : ℕ := if tmp > 9 then countDigits (len + 1) (tmp / 10) else len
termination_by tmp
decreasing_by omega

/-- The second loop, with `len2` digits still to be stored before `dest + len2`.
SOURCE: fstat.c:10-11 -/
def putDigits : ℕ → ℕ → Bytes → Bytes
  | 0, _, dest => dest
  | len2 + 1, tmp, dest => putDigits len2 (tmp / 10) (dest.set len2 (tmp % 10 + 0x30).toUInt8)

/-- `fmt_ulong`: the number of digits, and the buffer with them.
SOURCE: fstat.c:6-13 -/
def fmtUlong (dest : Bytes) (i : ℕ) : ℕ × Bytes :=
  let len := countDigits 1 i
  (len, putDigits len i dest)

/-- The string in a buffer, where it ends there. -/
def string (buf : Bytes) : Option Bytes := if (0 : UInt8) ∈ buf then some (cstr buf) else none

/-- `write1` of a buffer.
SOURCE: fstat.c:26-30 -/
def write1 (a : Bytes) : Option Bytes := (string a).map fun a => a ++ [newline]

/-- `write2` of a literal and a buffer.
SOURCE: fstat.c:32-37 -/
def write2 (a b : Bytes) : Option Bytes := (string b).map fun b => a ++ b ++ [newline]

/-- What the program wrote to the descriptors 1 and 2, and its exit code. -/
structure Output where
  lines : List Bytes
  errors : Bytes
  code : ℕ

/-- `usage`, which writes 24 bytes of its text.
SOURCE: fstat.c:15-24 -/
def usage (msg : Option (Bytes × Bytes)) : Output where
  lines := []
  errors := (match msg with
    | some (msg, fname) => msg ++ fname ++ [newline]
    | none => []) ++ (ascii "Usage: fstat [a|c|m|r|s] <filename>\n".toList).take 24
  code := 1

/-- The field for an option.
SOURCE: fstat.c:56-73 -/
def fieldOf (option : Bytes) (st : Stat) : Option (BitVec 64) :=
  match (option.dropWhile (· = 0x2D)).headD 0 with
  | 0x61 => some st.stAtime
  | 0x63 => some st.stCtime
  | 0x6D => some st.stMtime
  | 0x72 => some (st.stBlksize * st.stBlocks)
  | 0x73 => some st.stSize
  | _ => none

/-- The fields that are written without an option, with their labels.
SOURCE: fstat.c:79-88 -/
def allFields (st : Stat) : List (Bytes × BitVec 64) :=
  [(ascii "size:     ".toList, st.stSize), (ascii "realsize: ".toList, st.stBlksize * st.stBlocks),
    (ascii "access:   ".toList, st.stAtime), (ascii "modify:   ".toList, st.stMtime),
    (ascii "change:   ".toList, st.stCtime)]

/-- The calls of `fmt_ulong` and `write2` for some fields, on one buffer.
SOURCE: fstat.c:79-88 -/
def writeFields : List (Bytes × BitVec 64) → Bytes → Option (List Bytes)
  | [], _ => some []
  | (label, n) :: fields, fmt =>
    let fmt := (fmtUlong fmt n.toNat).2
    match write2 label fmt with
    | none => none
    | some line => (writeFields fields fmt).map (line :: ·)

/-- The program behind `lstat` of a file, with an option or without.
SOURCE: fstat.c:52-89 -/
def report (option : Option Bytes) (st : Stat) (fmt : Bytes) : Option Output :=
  match option with
  | some option =>
    match fieldOf option st with
    | none => some (usage none)
    | some n => (write1 (fmtUlong fmt n.toNat).2).map fun line => ⟨[line], [], 0⟩
  | none => (writeFields (allFields st) fmt).map fun lines => ⟨lines, [], 0⟩

/-- `main`, with the uninitialised buffer `fmt`.
SOURCE: fstat.c:39-90 -/
def main (argv : List Bytes) (lstat : Bytes → Option Stat) (fmt : Bytes) : Option Output :=
  match argv with
  | [] => some (usage none)
  | [_] => some (usage none)
  | [_, option, fname] =>
    match lstat fname with
    | none => some (usage (some (ascii "can't lstat ".toList, fname)))
    | some st => report (some option) st fmt
  | _ :: fname :: _ =>
    match lstat fname with
    | none => some (usage (some (ascii "can't lstat ".toList, fname)))
    | some st => report none st fmt

end TTLinux.Model.Fstat
