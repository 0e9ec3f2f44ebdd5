import Mathlib.Data.Int.Notation
import TTLinux.Lib.Bytes

/-!
# The URL filter of squid

`urlFilter` and `doquery` of the squid module
(apps/internet/squid/patches/squid-2.6.STABLE2-urlfilter.patch). The filter asks a daemon for the
categories of an URI, 128 bits as 32 hexadecimal digits, and redirects the request if one of
them is to be blocked. What the system calls of a query return is the parameter `Daemon`; the
white list is the parameter `patfileMatch`.
-/

set_option autoImplicit false

namespace TTLinux.Model.UrlFilter

open TTLinux.Lib

/-- `struct _urlfilter_config`, as far as the filter reads it.
SOURCE: squid-2.6.STABLE2-urlfilter.patch:50-59 -/
structure Config where
  targeturl : Bytes
  categories : Bytes
  blockunknown : ℤ

/-- The size of the static `rejectbuf`.
SOURCE: squid-2.6.STABLE2-urlfilter.patch:48 -/
def rejectbufSize : ℕ := 512

/-- `hex2int`.
SOURCE: squid-2.6.STABLE2-urlfilter.patch:162-173 -/
def hex2int (c : UInt8) : BitVec 32 :=
  if 0x30 ≤ c ∧ c ≤ 0x39 then BitVec.ofNat 32 (c.toNat - 0x30)
  else
    let c := c ||| 0x20
    if 0x61 ≤ c ∧ c ≤ 0x66 then BitVec.ofNat 32 (c.toNat - 0x61 + 10) else -1

/-- What the system calls of one query return. -/
structure Daemon where
  /-- `socket` does not fail. -/
  socket : Bool
  /-- `connect` does not fail. -/
  connect : Bool
  /-- What `write` returns for the bytes of the request. -/
  write : List (Option UInt8) → ℤ
  /-- What `read` finds, if it does not fail; nothing at the end of the stream. -/
  reply : Option Bytes

/-- What is left of a query: the value of `len` that is returned, the buffer, and what was written
to the socket. A byte that was never stored is `none`. -/
structure Query where
  len : ℤ
  buf : Bytes
  sent : List (List (Option UInt8))

/-- The array `querybuf` behind `snprintf(querybuf, buflen, "MATCH %s", uri)`.
SOURCE: squid-2.6.STABLE2-urlfilter.patch:181, 197 -/
def querybuf (uri : Bytes) (buflen : ℕ) : List (Option UInt8) :=
  let stored := if buflen = 0 then [] else (ascii "MATCH ".toList ++ uri).take (buflen - 1) ++ [0]
  stored.map some ++ List.replicate (uri.length + 7 - stored.length) none

/-- `doquery`. A null `uri` is `none`. The byte that ends the reply may stand behind the buffer,
which is longer then.
SOURCE: squid-2.6.STABLE2-urlfilter.patch:175-217 -/
def doquery (d : Daemon) (uri : Option Bytes) (buf : Bytes) (buflen : ℕ) : Query :=
  match uri with
  | none => ⟨-1, buf, []⟩
  | some uri =>
    if !d.socket then ⟨-1, buf, []⟩
    else if !d.connect then ⟨-1, buf, []⟩
    else
      let len := uri.length + 6
      let request := (querybuf uri buflen).take len
      if d.write request ≤ 0 then ⟨len, buf, [request]⟩
      else
        match d.reply with
        | none => ⟨-1, buf, [request]⟩
        | some reply =>
          let read := reply.take buflen
          if read.length ≤ 0 then ⟨read.length, buf, [request]⟩
          else
            ⟨read.length, store (store buf 0 read) read.length [0],
              [request, (ascii "QUIT".toList).map some]⟩

/-- The answer for a resource that the daemon does not know.
SOURCE: squid-2.6.STABLE2-urlfilter.patch:242 -/
def unknownMarker : Bytes := ascii "00000000FFFFFFFFFFFFFFFFFFFFFFFF".toList

/-- The digit that replaces a digit of the reply.
SOURCE: squid-2.6.STABLE2-urlfilter.patch:258 -/
def matchDigit (a : BitVec 32) : UInt8 :=
  (if a.slt 10 then a + 0x30 else a - 10 + 0x61).toNat.toUInt8

/-- The rounds of the loop that are left, with `buf` and `match`. An invalid digit ends it.
SOURCE: squid-2.6.STABLE2-urlfilter.patch:250-259 -/
def matchLoop (categories : Bytes) : ℕ → Bytes → BitVec 32 → Option (Bytes × BitVec 32)
  | 0, buf, m => some (buf, m)
  | n + 1, buf, m =>
    let i := 31 - n
    let a := hex2int (buf.getD i 0)
    if a.slt 0 then none
    else
      let a := a &&& hex2int (categories.getD i 0)
      matchLoop categories n (store buf i [matchDigit a]) (m ||| a)

/-- `buf` and `match` when the answer is decided, unless the filter has returned.
SOURCE: squid-2.6.STABLE2-urlfilter.patch:240-263 -/
def decideMatch (cf : Config) (q : Query) : Option (Bytes × BitVec 32) :=
  if q.len = 32 then
    if cstr q.buf = unknownMarker then
      some (q.buf, if cf.blockunknown ≠ 0 then 1 else 0)
    else matchLoop cf.categories 32 q.buf 0
  else some (q.buf, 0)

/-- `urlFilter` with a buffer of `bufsiz` bytes that holds `buf` at first. `none` is a null pointer.
SOURCE: squid-2.6.STABLE2-urlfilter.patch:225-271 -/
def urlFilter (patfileMatch : Bytes → Option Bytes) (d : Daemon) (cf : Config) (bufsiz : ℕ) (buf : Bytes)
    (uri : Bytes) : Option Bytes :=
  match patfileMatch uri with
  | some _ => none
  | none =>
    match decideMatch cf (doquery d (some uri) buf bufsiz) with
    | none => none
    | some (buf, m) =>
      if m ≠ 0 then
        some ((cf.targeturl ++ ascii "?match=".toList ++ cstr buf).take (rejectbufSize - 1))
      else none

end TTLinux.Model.UrlFilter
