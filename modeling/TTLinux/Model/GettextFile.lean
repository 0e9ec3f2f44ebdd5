import TTLinux.Lib.Bytes
import TTLinux.Lib.Traced

/-!
# The file of a catalog

The first part of `catalog_open` of dietlibc (toolchain/patches/dietlibc-0.32/dietlibc-gettext.patch): the path of the
.mo file is built for the locale of the messages, and for shorter names of it while there is no such file. `open` is a
parameter. The path is built in a block from `alloca`, which holds what the stack held; a write outside of it is an
outcome of its own. Every call of `open` is emitted with the block it gets.
-/

set_option autoImplicit false

namespace TTLinux.Model.GettextFile

open TTLinux.Lib

variable {W : Type}

def ENOENT : ℕ := 2
def PATH_MAX : ℕ := 4096

/-- Write bytes into a block; none is a write outside of it. -/
def writeAt (buf : Bytes) (i : ℕ) (bytes : Bytes) : Option Bytes :=
  if i + bytes.length ≤ buf.length then some (store buf i bytes) else none

/-- `strncpy(buf + i, src, n)`: the string, or its first `n` bytes, padded with zeros to `n` bytes. -/
def strncpy (buf : Bytes) (i : ℕ) (src : Bytes) (n : ℕ) : Option Bytes :=
  writeAt buf i (src.take n ++ List.replicate (n - src.length) 0)

/-- `strchr(s, c)` on the string that starts a buffer: the offset. -/
def strchr (s : Bytes) (c : UInt8) : Option ℕ := (cstr s).findIdx? (· = c)

/-- `/LC_MESSAGES/`. -/
def LC_MESSAGES : Bytes := ascii ['/', 'L', 'C', '_', 'M', 'E', 'S', 'S', 'A', 'G', 'E', 'S', '/']

/-- `.mo`. -/
def suffix : Bytes := ascii ['.', 'm', 'o']

/-- The path behind the directory, which is in the block with its slash.
SOURCE: dietlibc-gettext.patch:122-125 -/
def writeLocale (ldir : ℕ) (dom locale : Bytes) (lloc : ℕ) (path : Bytes) : Option Bytes := do
  let ldom := dom.length
  let path ← strncpy path ldir (cstr locale) lloc
  let path ← strncpy path (ldir + lloc) LC_MESSAGES 13
  let path ← strncpy path (ldir + lloc + 13) dom ldom
  strncpy path (ldir + lloc + ldom + 13) suffix 4

/-- Where the locale is cut.
SOURCE: dietlibc-gettext.patch:132-134 -/
def cutPoint (locale : Bytes) : Option ℕ :=
  (strchr locale 64).or ((strchr locale 46).or (strchr locale 95))

/-- How the search ends: the path is too long, a write is outside of the block, `open` fails otherwise than with
`ENOENT`, there is no file, or it is open. -/
inductive Search where
  | tooLong
  | outside
  | failed (errno : ℕ)
  | missing
  | opened (fd : ℕ)
  deriving DecidableEq

/-- The loop over the names of the locale.
SOURCE: dietlibc-gettext.patch:121-141 -/
def openLoop (open_ : Bytes → W → Except ℕ ℕ × W) (ldir : ℕ) (dom : Bytes) :
    ℕ → Bytes → ℕ → Bytes → W → Traced Bytes (Search × W)
  | 0, _, _, _, _ => .stuck
  | fuel + 1, locale, lloc, path, w =>
    match writeLocale ldir dom locale lloc path with
    | none => .give [] (.outside, w)
    | some path =>
      match open_ (cstr path) w with
      | (.ok fd, w) => .give [path] (.opened fd, w)
      | (.error errno, w) =>
        if errno ≠ ENOENT then .give [path] (.failed errno, w)
        else
          match cutPoint locale with
          | some i => .after [path] (openLoop open_ ldir dom fuel (store locale i [0]) i path w)
          | none => .give [path] (.missing, w)

/-- The size of the block: `sizeof("LC_MESSAGES///.mo ")` is 19.
SOURCE: dietlibc-gettext.patch:104 -/
def total (dir loc dom : Bytes) : ℕ := dir.length + dom.length + loc.length + 19

/-- The search for the file. `stack` is what the block holds.
SOURCE: dietlibc-gettext.patch:99-145 -/
def findCatalog (open_ : Bytes → W → Except ℕ ℕ × W) (stack : Bytes) (fuel : ℕ) (dir loc dom : Bytes) (w : W) :
    Traced Bytes (Search × W) :=
  if PATH_MAX < total dir loc dom then .give [] (.tooLong, w)
  else
    let path := (stack ++ List.replicate (total dir loc dom - stack.length) 0).take (total dir loc dom)
    match (strncpy path 0 dir dir.length).bind fun path => writeAt path dir.length [47] with
    | none => .give [] (.outside, w)
    | some path => openLoop open_ (dir.length + 1) dom fuel (loc ++ [0]) loc.length path w

end TTLinux.Model.GettextFile
