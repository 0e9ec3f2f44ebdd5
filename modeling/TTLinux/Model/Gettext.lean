import Mathlib
import TTLinux.Lib.Bytes

/-!
# Message catalogs

The catalog lookup of dietlibc (toolchain/patches/dietlibc-0.32/dietlibc-gettext.patch): the
byte-swapping part of `catalog_open` and `dcngettext` on the bytes of a .mo file. The byte
order of the host is a parameter, and so is the width of `unsigned long`, in which hash
values are computed. Access outside of the bytes that were read is an outcome of its own;
the search for the file is left out, and so is the list of loaded domains: the functions
start at the bytes of the file and at the buffer of the domain.
-/

set_option autoImplicit false

namespace TTLinux.Model.Gettext

open TTLinux.Lib

/-! ## Words in memory -/

/-- The byte order of the host. -/
inductive Endian where
  | little
  | big
  deriving DecidableEq

/-- A word from its bytes, the most significant one first. -/
def word (b3 b2 b1 b0 : UInt8) : BitVec 32 :=
  b3.toBitVec ++ b2.toBitVec ++ b1.toBitVec ++ b0.toBitVec

/-- The byte of a word that starts at a bit. -/
def byteOf (x : BitVec 32) (bit : ℕ) : UInt8 := ⟨x.extractLsb' bit 8⟩

/-- Read a `uint32_t`. -/
def load32 (e : Endian) (img : Bytes) (off : ℕ) : Option (BitVec 32) :=
  match img.drop off with
  | a :: b :: c :: d :: _ =>
    match e with
    | .little => some (word d c b a)
    | .big => some (word a b c d)
  | _ => none

/-- Write a `uint32_t`. -/
def store32 (e : Endian) (img : Bytes) (off : ℕ) (x : BitVec 32) : Bytes :=
  match e with
  | .little => store img off [byteOf x 0, byteOf x 8, byteOf x 16, byteOf x 24]
  | .big => store img off [byteOf x 24, byteOf x 16, byteOf x 8, byteOf x 0]

/-- `__swap`.
SOURCE: dietlibc-gettext.patch:38-41 -/
def swap (x : BitVec 32) : BitVec 32 :=
  ((x &&& 0xff000000#32) >>> 24) ||| ((x &&& 0x00ff0000#32) >>> 8) |||
    ((x &&& 0x0000ff00#32) <<< 8) ||| ((x &&& 0x000000ff#32) <<< 24)

/-- `SWAP` of a word in memory. -/
def swapAt (e : Endian) (img : Bytes) (off : ℕ) : Option Bytes :=
  (load32 e img off).map fun x => store32 e img off (swap x)

/-! ## Loading a catalog -/

/-- `_MAGIC`. -/
def MAGIC : BitVec 32 := 0x950412de#32

/-- `_MAGIC_SWAPPED`. -/
def MAGIC_SWAPPED : BitVec 32 := 0xde120495#32

/-- The offsets of the members of `struct mo_file_header`.
SOURCE: dietlibc-gettext.patch:385-394 -/
def nstringsAt : ℕ := 8
def origTabAt : ℕ := 12
def transTabAt : ℕ := 16
def hashSizeAt : ℕ := 20
def hashTabAt : ℕ := 24

/-- `SWAP` of the two members of a `struct string_desc`. -/
def swapDesc (e : Endian) (img : Bytes) (off : ℕ) : Option Bytes := do
  let img ← swapAt e img off
  swapAt e img (off + 4)

/-- The swap of one slot of the hash table and of the descriptors it leads to.
SOURCE: dietlibc-gettext.patch:180-187 -/
def swapSlot (e : Endian) (otab ttab htab idx : ℕ) (img : Bytes) : Option Bytes := do
  let img ← swapAt e img (htab + 4 * idx)
  let n ← load32 e img (htab + 4 * idx)
  if n = 0#32 then some img
  else
    let n := (n - 1#32).toNat
    let img ← swapDesc e img (otab + 8 * n)
    swapDesc e img (ttab + 8 * n)

/-- The loop over the hash table; its bound `mo->nstrings` is read in every turn.
SOURCE: dietlibc-gettext.patch:179-188 -/
def swapLoop (e : Endian) (otab ttab htab idx : ℕ) (img : Bytes) : Option Bytes :=
  match load32 e img nstringsAt with
  | none => none
  | some nstrings =>
    if h : idx < nstrings.toNat then
      (swapSlot e otab ttab htab idx img).bind fun img => swapLoop e otab ttab htab (idx + 1) img
    else some img
termination_by 2 ^ 32 - idx
decreasing_by exact Nat.sub_lt_sub_left (h.trans nstrings.isLt) (Nat.lt_succ_self idx)

/-- The swap of the five members of the header that are used later.
SOURCE: dietlibc-gettext.patch:170-174 -/
def swapHeader (e : Endian) (img : Bytes) : Option Bytes := do
  let img ← swapAt e img nstringsAt
  let img ← swapAt e img origTabAt
  let img ← swapAt e img transTabAt
  let img ← swapAt e img hashSizeAt
  swapAt e img hashTabAt

/-- The byte-swap branch.
SOURCE: dietlibc-gettext.patch:169-189 -/
def swapCatalog (e : Endian) (img : Bytes) : Option Bytes := do
  let img ← swapHeader e img
  let nstrings ← load32 e img nstringsAt
  if nstrings = 0#32 then some img
  else
    let otab ← load32 e img origTabAt
    let ttab ← load32 e img transTabAt
    let htab ← load32 e img hashTabAt
    swapLoop e otab.toNat ttab.toNat htab.toNat 0 img

/-- `catalog_open` on the bytes of the file: the buffer that the domain gets, `some none` for
a file with another magic number.
SOURCE: dietlibc-gettext.patch:161-195 -/
def catalogOpen (e : Endian) (file : Bytes) : Option (Option Bytes) := do
  let magic ← load32 e file 0
  if magic = MAGIC_SWAPPED then (swapCatalog e file).map some
  else if magic = MAGIC then some (some file)
  else some none

/-! ## Looking up a message -/

/-- One character of `hashstring`.
SOURCE: dietlibc-gettext.patch:60-66 -/
def hashStep (w : ℕ) (hval : BitVec w) (c : UInt8) : BitVec w :=
  let hval := (hval <<< 4) + BitVec.ofNat w c.toNat
  let g := hval &&& (0xf#w <<< 28)
  if g ≠ 0#w then (hval ^^^ (g >>> 24)) ^^^ g else hval

/-- `hashstring`, with `unsigned long` of `w` bits.
SOURCE: dietlibc-gettext.patch:55-69 -/
def hashstring (w : ℕ) (str : Bytes) : BitVec w := str.foldl (hashStep w) 0#w

/-- `strcmp(msgid, p) == 0`, where `p` points at the given bytes of the image. -/
def strcmpEq : Bytes → Bytes → Option Bool
  | _, [] => none
  | [], b :: _ => some (b = 0)
  | c :: cs, b :: bs => if c = b then strcmpEq cs bs else some false

/-- `strchr(p, '\0')`: how far it is from `p` to the end of the string. -/
def strend : Bytes → Option ℕ
  | [] => none
  | b :: bs => if b = 0 then some 0 else (strend bs).map (· + 1)

/-- How the probe loop ends. -/
inductive Lookup where
  /-- An empty slot was met. -/
  | absent
  /-- The value of `act`. -/
  | found (n : BitVec 32)
  /-- Access outside of the image. -/
  | fault
  /-- The loop has not ended yet. -/
  | running
  deriving DecidableEq

section

variable (e : Endian) (data : Bytes) (otab htab : ℕ) (nstrings size : BitVec 32)

/-- The test of one entry.
SOURCE: dietlibc-gettext.patch:274 -/
def testEntry (msgid : Bytes) (n : BitVec 32) : Option Bool := do
  let length ← load32 e data (otab + 8 * n.toNat)
  if BitVec.ofNat 32 msgid.length ≤ length then
    let offset ← load32 e data (otab + 8 * n.toNat + 4)
    strcmpEq msgid (data.drop offset.toNat)
  else some false

/-- The probe loop; the first argument bounds the number of turns.
SOURCE: dietlibc-gettext.patch:265-283 -/
def probeLoop (msgid : Bytes) (inc : BitVec 32) : ℕ → BitVec 32 → Lookup
  | 0, _ => .running
  | fuel + 1, idx =>
    match load32 e data (htab + 4 * idx.toNat) with
    | none => .fault
    | some n =>
      if n = 0#32 then .absent
      else
        let n := n - 1#32
        match (if n < nstrings then testEntry e data otab msgid n else some false) with
        | none => .fault
        | some true => .found n
        | some false =>
          probeLoop msgid inc fuel
            (if size - inc ≤ idx then idx - (size - inc) else idx + inc)

end

/-- The string that `dcngettext` returns: one of its arguments or a place in the image. -/
inductive Text where
  | null
  | msgid
  | plural
  | data (off : ℕ)
  deriving DecidableEq

/-- How a call ends. -/
inductive Outcome where
  | returned (text : Text)
  | fault
  | running
  deriving DecidableEq

/-- The lookup in a loaded catalog, when `translated` is what an unknown message gives. The
remainder by zero is a fault.
SOURCE: dietlibc-gettext.patch:255-293 -/
def lookupCatalog (e : Endian) (w fuel : ℕ) (data : Bytes) (translated : Text) (msgid : Bytes)
    (n : ℕ) : Outcome :=
  match load32 e data origTabAt, load32 e data transTabAt, load32 e data hashTabAt,
    load32 e data hashSizeAt, load32 e data nstringsAt with
  | some otab, some ttab, some htab, some size, some nstrings =>
    if size = 0#32 ∨ size - 2#32 = 0#32 then .fault
    else
      let val := (hashstring w msgid).setWidth 32
      let inc := 1#32 + val % (size - 2#32)
      match probeLoop e data otab.toNat htab.toNat nstrings size msgid inc fuel (val % size) with
      | .running => .running
      | .fault => .fault
      | .absent => .returned translated
      | .found act =>
        if act.toInt ≠ -1 ∧ act.toInt < nstrings.toInt then
          let addr := (ttab.toNat : ℤ) + 8 * act.toInt + 4
          if addr < 0 then .fault
          else
            match load32 e data addr.toNat with
            | none => .fault
            | some off =>
              if n = 1 then .returned (.data off.toNat)
              else
                match strend (data.drop off.toNat) with
                | none => .fault
                | some k => .returned (.data (off.toNat + k + 1))
        else .returned translated
  | _, _, _, _, _ => .fault

/-- `dcngettext` for a domain whose buffer is `buf`, null when no catalog could be loaded. The
two messages are C strings or null; a null `msgid` is not checked before it is hashed.
SOURCE: dietlibc-gettext.patch:235-295 -/
def dcngettext (e : Endian) (w fuel : ℕ) (buf : Option Bytes) (msgid msgid_plural : Option Bytes)
    (n : ℕ) : Outcome :=
  let translated := if n = 1 then msgid else msgid_plural
  let text := if n = 1 then Text.msgid else Text.plural
  match translated with
  | none => .returned .null
  | some t =>
    if t = [] then .returned text
    else
      match buf with
      | none => .returned text
      | some data =>
        match msgid with
        | none => .fault
        | some msgid => lookupCatalog e w fuel data text msgid n

end TTLinux.Model.Gettext
