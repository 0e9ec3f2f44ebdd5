import Mathlib.Data.Int.Notation
import Mathlib.Logic.Function.Basic
import TTLinux.Lib.Bytes

/-!
# The config file of the URL filter

`keyvalue` and `checkconfig` of the squid module
(apps/internet/squid/patches/squid-2.6.STABLE2-urlfilter.patch). Strings on the heap have an address each, which lives
until it is freed. An access behind the array of a line is `none`. The character classes are those of the C locale.
-/

set_option autoImplicit false

namespace TTLinux.Model.UrlFilterConfig

open TTLinux.Lib

/-! ## One line -/

def isspace (c : UInt8) : Bool := c = 0x20 || (0x09 ≤ c && c ≤ 0x0D)

def isalpha (c : UInt8) : Bool := (0x41 ≤ c && c ≤ 0x5A) || (0x61 ≤ c && c ≤ 0x7A)

/-- `goodchars`.
SOURCE: squid-2.6.STABLE2-urlfilter.patch:66 -/
def goodchars : Bytes := ascii "0123456789+-_.:/?%".toList

/-- `strchr(goodchars, c)` is not null. The search comes to the terminator as well. -/
def strchrGoodchars (c : UInt8) : Bool := c = 0 || goodchars.contains c

/-- `while (p(*tmp)) tmp++;` -/
def skip (p : UInt8 → Bool) : Bytes → ℕ → Option ℕ
  | [], _ => none
  | c :: buf, tmp => if p c then skip p buf (tmp + 1) else some tmp

/-- What `keyvalue` leaves: its value, the two pointers as indices if they are set, the array, and how many bytes of the
array it has come over. -/
structure Parsed where
  rc : ℤ
  key : Option ℕ
  value : Option ℕ
  buf : Bytes
  touched : ℕ
deriving DecidableEq

/-- `keyvalue`.
SOURCE: squid-2.6.STABLE2-urlfilter.patch:63-90 -/
def keyvalue (buf : Bytes) : Option Parsed :=
  match buf with
  | [] => none
  | c :: _ =>
    if isspace c || c = 0x23 then some ⟨-1, none, none, buf, 1⟩
    else
      (skip isalpha buf 0).bind fun tmp =>
        if !isspace (buf.getD tmp 0) then some ⟨-1, some 0, none, buf, tmp + 1⟩
        else
          let buf := buf.set tmp 0
          (skip isspace (buf.drop (tmp + 1)) (tmp + 1)).bind fun value =>
            (skip (fun c => isalpha c || strchrGoodchars c) (buf.drop value) value).map fun tmp =>
              let buf := buf.set tmp 0
              ⟨if buf.getD value 0 = 0 then -1 else 0, some 0, some value, buf, tmp + 1⟩

/-! ## The file -/

/-- The strings on the heap by their addresses, and the address of the next one. -/
structure Heap where
  string : ℕ → Option Bytes
  fresh : ℕ

def Heap.xstrdup (h : Heap) (s : Bytes) : ℕ × Heap :=
  (h.fresh, ⟨Function.update h.string h.fresh (some s), h.fresh + 1⟩)

def Heap.xfree (h : Heap) (p : ℕ) : Heap := { h with string := Function.update h.string p none }

/-- `if (p) xfree(p);` -/
def Heap.xfreeIf (h : Heap) : Option ℕ → Heap
  | none => h
  | some p => h.xfree p

/-- `struct _urlfilter_config`. Pointers are addresses; a null pointer is `none`.
SOURCE: squid-2.6.STABLE2-urlfilter.patch:50-59 -/
structure Config where
  targeturl : Option ℕ
  categories : Option ℕ
  targetlength : ℤ
  blockunknown : ℤ
  allowbypassing : ℤ
  mtime : ℤ

/-- What `xcalloc` gives. -/
def Config.zeroed : Config := ⟨none, none, 0, 0, 0, 0⟩

/-- `atoi`, for a number that is an `int`. -/
def atoi (s : Bytes) : ℤ :=
  let s := s.dropWhile isspace
  let digits (s : Bytes) : ℤ :=
    (s.takeWhile fun c => 0x30 ≤ c && c ≤ 0x39).foldl (fun n c => n * 10 + ((c.toNat : ℤ) - 0x30)) 0
  match s with
  | [] => 0
  | c :: s' => if c = 0x2D then -digits s' else if c = 0x2B then digits s' else digits s

/-- The keys.
SOURCE: squid-2.6.STABLE2-urlfilter.patch:126, 129, 136, 138 -/
def targeturlKey : Bytes := ascii "targeturl".toList

def categoriesKey : Bytes := ascii "categories".toList

def blockunknownKey : Bytes := ascii "blockunknown".toList

def allowbypassingKey : Bytes := ascii "allowbypassing".toList

/-- What a key and a value do to the config; `none` is `goto error`.
SOURCE: squid-2.6.STABLE2-urlfilter.patch:126-142 -/
def assign (key value : Bytes) (cf : Config) (h : Heap) : Option (Config × Heap) :=
  if key = targeturlKey then
    let (p, h) := h.xstrdup value
    some ({ cf with targeturl := some p, targetlength := value.length }, h)
  else if key = categoriesKey then
    if value.length = 32 then
      let (p, h) := h.xstrdup value
      some ({ cf with categories := some p }, h)
    else none
  else if key = blockunknownKey then some ({ cf with blockunknown := atoi value }, h)
  else if key = allowbypassingKey then some ({ cf with allowbypassing := atoi value }, h)
  else some (cf, h)

/-- `sizeof(buf)`.
SOURCE: squid-2.6.STABLE2-urlfilter.patch:104 -/
def bufSize : ℕ := 1024

/-- What one `fgets` takes of a file, and what it leaves: a line with its newline, but not more than `n` bytes. -/
def fgets : ℕ → Bytes → Bytes × Bytes
  | 0, file => ([], file)
  | _ + 1, [] => ([], [])
  | n + 1, c :: file => if c = newline then ([c], file) else ((c :: (fgets n file).1), (fgets n file).2)

/-- All that the `fgets` of a loop take, in at most `fuel` rounds. -/
def piecesFrom (n : ℕ) : ℕ → Bytes → List Bytes
  | 0, _ => []
  | fuel + 1, file => if file = [] then [] else (fgets n file).1 :: piecesFrom n fuel (fgets n file).2

/-- The pieces of the file that come into the buffer one after the other. -/
def pieces (file : Bytes) : List Bytes := piecesFrom (bufSize - 1) file.length file

/-- How the loop over the pieces ends. -/
inductive LoopEnd where
  | eof (cf : Config) (h : Heap)
  /-- `goto error` -/
  | error (cf : Config) (h : Heap)

/-- The loop of `checkconfig`, with the array that the pieces are read into.
SOURCE: squid-2.6.STABLE2-urlfilter.patch:119-144 -/
def readLoop : List Bytes → Bytes → Config → Heap → Option LoopEnd
  | [], _, cf, h => some (.eof cf h)
  | piece :: pieces, buf, cf, h =>
    (keyvalue (store buf 0 (piece ++ [0]))).bind fun r =>
      if r.rc = -1 then readLoop pieces r.buf cf h
      else
        match assign (cstr (r.buf.drop (r.key.getD 0))) (cstr (r.buf.drop (r.value.getD 0))) cf h with
        | none => some (.error cf h)
        | some (cf, h) => readLoop pieces r.buf cf h

/-- `error:`
SOURCE: squid-2.6.STABLE2-urlfilter.patch:157-160 -/
def fail (cf : Config) (h : Heap) : ℤ × Config × Heap := (-1, cf, (h.xfreeIf cf.categories).xfreeIf cf.targeturl)

/-- What follows the loop.
SOURCE: squid-2.6.STABLE2-urlfilter.patch:146-160 -/
def conclude : LoopEnd → ℤ × Config × Heap
  | .error cf h => fail cf h
  | .eof cf h =>
    if cf.targeturl = none then fail cf h
    else if cf.categories = none then fail cf h
    else (0, cf, h)

/-- What the system says of the file. -/
structure FileSystem where
  /-- `st_mtime`, if `stat` does not fail. -/
  stat : Option ℤ
  /-- What `fopen` opens. -/
  file : Option Bytes

/-- `checkconfig`, whose array holds `buf` at first.
SOURCE: squid-2.6.STABLE2-urlfilter.patch:100-161 -/
def checkconfig (fs : FileSystem) (buf : Bytes) (cf : Config) (h : Heap) : Option (ℤ × Config × Heap) :=
  match fs.stat with
  | none => some (-1, cf, h)
  | some stMtime =>
    if stMtime = cf.mtime then some (0, cf, h)
    else
      match fs.file with
      | none => some (-1, cf, h)
      | some file =>
        (readLoop (pieces file) buf cf h).map conclude

end TTLinux.Model.UrlFilterConfig
