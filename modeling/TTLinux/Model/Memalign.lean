import TTLinux.Lib.Memory

/-!
# Aligned blocks of dietlibc

`posix_memalign` and what `free` makes of its blocks (toolchain/patches/dietlibc-0.32/dietlibc-memalign.patch, with
`WANT_POSIX_MEMALIGN`). Pointers and sizes are numbers below the size of the address space; `malloc` itself and the two
ways to give a block back are not part of the patch.
-/

set_option autoImplicit false

namespace TTLinux.Model.Memalign

open TTLinux.Lib.Memory

variable (W : Words)

/-- The number of values of a `size_t` and of a pointer. -/
def space : ℕ := 256 ^ W.w

/-! The fields of an `__alloc_t`: `start`, `__pad`, `next` and `size`. -/

/-- `sizeof(__alloc_t)` -/
def headerSize : ℕ := 4 * W.w

def startOffset : ℕ := 0

def sizeOffset : ℕ := 3 * W.w

/-- `BLOCK_START(b)`: the header in front of a block. -/
def BLOCK_START (b : ℕ) : ℕ := (b + space W - headerSize W) % space W

/-- `BLOCK_RET(b)`: the block behind a header. -/
def BLOCK_RET (b : ℕ) : ℕ := (b + headerSize W) % space W

/-- What `free` gives back, and to whom. -/
inductive Release where
  /-- `__small_free(ptr, size)` -/
  | small (ptr size : ℕ)
  /-- `munmap(BLOCK_START(ptr), size)` -/
  | large (ptr size : ℕ)
deriving DecidableEq

/-- The two branches at the end of `free`.
SOURCE: dietlibc-memalign.patch:27-30 -/
def release (maxSmall ptr size : ℕ) : Release := if size ≤ maxSmall then .small ptr size else .large ptr size

/-- `free`, which does nothing for a null pointer and for a header without a size.
SOURCE: dietlibc-memalign.patch:16-31 -/
def free (maxSmall : ℕ) (m : Mem) (ptr : ℕ) : Option Release :=
  if ptr = 0 then none
  else
    let size := load W m (BLOCK_START W ptr + sizeOffset W)
    if size = 0 then none
    else
      let tmp := load W m (BLOCK_START W ptr + startOffset)
      let ptr := if tmp ≠ 0 then tmp else ptr
      some (release maxSmall ptr size)

/-- How `posix_memalign` ends. -/
inductive Outcome where
  | einval
  /-- `malloc` has returned a null pointer. -/
  | noMemory
  /-- The remainder of a division by zero. -/
  | divisionByZero
  /-- 0, with the pointer in `*memptr`. -/
  | stored (ptr : ℕ)
deriving DecidableEq

/-- `__libc_posix_memalign`.
SOURCE: dietlibc-memalign.patch:42-63 -/
def posixMemalign (malloc : ℕ → Mem → Option ℕ × Mem) (m : Mem) (alignment _size : ℕ) : Outcome × Mem :=
  let size := (_size + alignment) % space W
  if alignment % W.w ≠ 0 ∨ size < _size then (.einval, m)
  else
    match malloc size m with
    | (none, m) => (.noMemory, m)
    | (some ptr, m) =>
      if alignment = 0 then (.divisionByZero, m)
      else if ptr % alignment ≠ 0 then
        let allignedptr := (ptr - ptr % alignment + alignment) % space W
        let tmp := BLOCK_START W allignedptr
        let m := move m tmp (BLOCK_START W ptr) (headerSize W)
        let m := storeWord W m (tmp + startOffset) ptr
        (.stored (BLOCK_RET W tmp), m)
      else (.stored ptr, m)

end TTLinux.Model.Memalign
