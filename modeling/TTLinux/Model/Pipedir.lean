import Mathlib.Data.Int.Notation
import TTLinux.Lib.Bytes

/-!
# The directory of the pipes of minit

`buildpipedir` (base/minit/minit-0.10-roswitch.patch). `openreadclose` is the parameter `file`: a
buffer with the content of the file and a terminator, and the length of the content, or -1 with
the length unchanged. The bytes of a buffer are told by their distance from the pointer; what is
read elsewhere is whatever stands there, and what is stored elsewhere does not come back.
-/

set_option autoImplicit false

namespace TTLinux.Model.Pipedir

open TTLinux.Lib

/-- `MINITROOT`.
SOURCE: minit-0.10-roswitch.patch:4 -/
def MINITROOT : Bytes := ascii "/etc/minit".toList

/-- What the system answers in a call. -/
structure Environment where
  /-- The content of `MINITPIPEFILE`, if it can be read. -/
  file : Option Bytes
  strdup : Bool
  mallocIn : Bool
  mallocOut : Bool
  /-- The bytes outside of the buffer at `pipedir`. -/
  around : ℤ → UInt8

/-- The result of a call: its value, the strings at `*in` and `*out` (or null pointers), and the
accesses through `pipedir`. -/
structure Result where
  value : ℤ
  inPath : Option Bytes
  outPath : Option Bytes
  accesses : List ℤ

def peek (buf : Bytes) (around : ℤ → UInt8) (i : ℤ) : UInt8 :=
  if 0 ≤ i ∧ i < buf.length then buf.getD i.toNat 0 else around i

def poke (buf : Bytes) (i : ℤ) (b : UInt8) : Bytes :=
  if 0 ≤ i ∧ i < buf.length then buf.set i.toNat b else buf

/-- The accesses of `strlen` and `strcpy`: the bytes of the string and its terminator. -/
def stringAccesses (buf : Bytes) : List ℤ := (List.range ((cstr buf).length + 1)).map fun i : ℕ => (i : ℤ)

/-- `_buildpipedir`: the string that is built, and the accesses to `path`.
SOURCE: minit-0.10-roswitch.patch:79-93 -/
def _buildpipedir (path : Option Bytes) (fn : Bytes) (malloc : Bool) : Option Bytes × List ℤ :=
  match path with
  | none => (none, [])
  | some path =>
    if malloc then (some (cstr path ++ ascii ['/'] ++ fn), stringAccesses path ++ stringAccesses path)
    else (none, stringAccesses path)

/-- `pipedir` and `pipedirlen` before the newline is looked for.
SOURCE: minit-0.10-roswitch.patch:96-103 -/
def readPipedir (e : Environment) : Option Bytes × ℕ :=
  match e.file with
  | some content => (some (content ++ [0]), content.length)
  | none => (if e.strdup then some (MINITROOT ++ [0]) else none, 0)

/-- The newline at the end of the buffer, with the accesses. The length is unsigned, and the pointer
goes back by one for a length of 0.
SOURCE: minit-0.10-roswitch.patch:105-106 -/
def cutNewline (around : ℤ → UInt8) (pipedir : Option Bytes) (pipedirlen : ℕ) : Option Bytes × List ℤ :=
  match pipedir with
  | none => (none, [])
  | some buf =>
    let last : ℤ := (pipedirlen : ℤ) - 1
    if peek buf around last = newline then (some (poke buf last 0), [last, last]) else (some buf, [last])

/-- `buildpipedir`, where `inp` and `out` tell that the arguments are not null.
SOURCE: minit-0.10-roswitch.patch:95-112 -/
def buildpipedir (inp out : Bool) (e : Environment) : Result :=
  if !inp || !out then ⟨-1, none, none, []⟩
  else
    let (pipedir, pipedirlen) := readPipedir e
    let (pipedir, accesses) := cutNewline e.around pipedir pipedirlen
    let (inPath, inAccesses) := _buildpipedir pipedir (ascii "in".toList) e.mallocIn
    let (outPath, outAccesses) := _buildpipedir pipedir (ascii "out".toList) e.mallocOut
    ⟨0, inPath, outPath, accesses ++ inAccesses ++ outAccesses⟩

end TTLinux.Model.Pipedir
