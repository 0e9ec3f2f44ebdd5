import TTLinux.Lib.Limbs

/-!
# The big integers of `dtoa`

The `Bigint`s of dtoa.c (toolchain/patches/dietlibc-0.32/dietlibc-printf.patch), with `Pack_32` and `ULLong`: words of 32
bits in blocks of `2^k` words. A block holds the words that have been written so far. Nothing is returned for a read of
a word that has not been written, a write behind the block, an index behind `freelist`, and a division by zero. Which
block is handed out is a matter of `Balloc` and `Bfree` of the pool; here a new block is an empty one.
-/

set_option autoImplicit false

namespace TTLinux.Model.DtoaBigint

open TTLinux.Lib.Limbs

/-- The words have 32 bits. -/
abbrev W : ℕ := 2 ^ 32

/-- `struct Bigint`: the words of the block that have been written, of which `wds` are the number.
SOURCE: dietlibc-printf.patch:895-899 -/
structure Bigint where
  k : ℕ
  sign : Bool
  wds : ℕ
  x : List ℕ
  deriving DecidableEq, Repr

/-- `Kmax`. -/
def Kmax : ℕ := 15

/-- `maxwds`. -/
def Bigint.maxwds (b : Bigint) : ℕ := 2 ^ b.k

/-- Read the first words. -/
def Bigint.read (b : Bigint) (n : ℕ) : Option (List ℕ) := if n ≤ b.x.length then some (b.x.take n) else none

/-- Write the block from its first word on. -/
def Bigint.fill (b : Bigint) (x : List ℕ) (wds : ℕ) : Option Bigint :=
  if x.length ≤ b.maxwds then some { b with x := x, wds := wds } else none

/-- `Balloc`: a block of the class `k`.
SOURCE: dietlibc-printf.patch:905-941 -/
def Balloc (k : ℕ) : Option Bigint := if k ≤ Kmax then some ⟨k, false, 0, []⟩ else none

/-- `Bcopy`. -/
def Bcopy (x y : Bigint) : Option Bigint := do
  let ws ← y.read y.wds
  { x with sign := y.sign }.fill ws y.wds

/-- A word more, in a bigger block if there is no room for it.
SOURCE: dietlibc-printf.patch:1007-1015 -/
def pushWord (b : Bigint) (w : ℕ) : Option Bigint := do
  let b ← (if b.wds ≥ b.maxwds then (Balloc (b.k + 1)).bind fun b1 => Bcopy b1 b else some b)
  b.fill (b.x.take b.wds ++ w :: b.x.drop (b.wds + 1)) (b.wds + 1)

/-- `multadd`: multiply by `m` and add `a`.
SOURCE: dietlibc-printf.patch:968-1018 -/
def multadd (b : Bigint) (m a : ℕ) : Option Bigint := do
  let ws ← b.read (max 1 b.wds)
  let r := mulAdd W m ws a
  let b := { b with x := r.1 ++ b.x.drop (max 1 b.wds) }
  if r.2 ≠ 0 then pushWord b r.2 else some b

/-- One test of `hi0bits`: shift by `n` if the bits of the mask are zero. -/
def hiStep (mask n : ℕ) (r : ℕ × ℕ) : ℕ × ℕ := if r.2 &&& mask = 0 then (r.1 + n, (r.2 <<< n) % W) else r

/-- `hi0bits`: the zeros in front of a word.
SOURCE: dietlibc-printf.patch:1061-1093 -/
def hi0bits (x : ℕ) : ℕ :=
  let r := hiStep 0xc0000000 2 (hiStep 0xf0000000 4 (hiStep 0xff000000 8 (hiStep 0xffff0000 16 (0, x))))
  if r.2 &&& 0x80000000 = 0 then if r.2 &&& 0x40000000 = 0 then 32 else r.1 + 1 else r.1

/-- One test of `lo0bits`. -/
def loStep (mask n : ℕ) (r : ℕ × ℕ) : ℕ × ℕ := if r.2 &&& mask = 0 then (r.1 + n, r.2 >>> n) else r

/-- `lo0bits`: the zeros at the end of a word, and the word without them.
SOURCE: dietlibc-printf.patch:1095-1138 -/
def lo0bits (y : ℕ) : ℕ × ℕ :=
  if y &&& 7 ≠ 0 then
    if y &&& 1 ≠ 0 then (0, y)
    else if y &&& 2 ≠ 0 then (1, y >>> 1)
    else (2, y >>> 2)
  else
    let r := loStep 0x3 2 (loStep 0xf 4 (loStep 0xff 8 (loStep 0xffff 16 (0, y))))
    if r.2 &&& 1 = 0 then if r.2 >>> 1 = 0 then (32, y) else (r.1 + 1, r.2 >>> 1) else r

/-- `i2b`.
SOURCE: dietlibc-printf.patch:1140-1153 -/
def i2b (i : ℕ) : Option Bigint := do (← Balloc 1).fill [i] 1

/-- The product of `a` and `b`, of which `a` is not the shorter: the rows are added to the zeros of the new block, whose
highest words that stay zero are left out.
SOURCE: dietlibc-printf.patch:1184-1265 -/
def product (a b : Bigint) : Option Bigint := do
  let wc := a.wds + b.wds
  let c ← Balloc (if wc > a.maxwds then a.k + 1 else a.k)
  let c ← c.fill (List.replicate wc 0) wc
  let xa ← a.read a.wds
  let xb ← b.read b.wds
  let xc ← mulRows W xa xb c.x
  c.fill xc (xc.rdropWhile (· = 0)).length

/-- `mult`.
SOURCE: dietlibc-printf.patch:1155-1267 -/
def mult (a b : Bigint) : Option Bigint := if a.wds < b.wds then product b a else product a b

/-- The loop of `pow5mult` behind the `Bigint` `p5` of `p5s`, of which the others follow.
SOURCE: dietlibc-printf.patch:1302-1327 -/
def pow5loop : ℕ → Bigint → List Bigint → Bigint → ℕ → Option (Bigint × List Bigint)
  | 0, _, _, _, _ => none
  | fuel + 1, p5, next, b, k => do
    let b ← (if k &&& 1 ≠ 0 then mult b p5 else some b)
    if k >>> 1 = 0 then some (b, next)
    else
      let p51 ← next.head?.or (mult p5 p5)
      let r ← pow5loop fuel p51 next.tail b (k >>> 1)
      some (r.1, p51 :: r.2)

/-- `pow5mult`: multiply by `5^k`. The list `p5s` of the powers that have been computed so far is extended.
SOURCE: dietlibc-printf.patch:1269-1330 -/
def pow5mult (p5s : List Bigint) (b : Bigint) (k : ℕ) : Option (Bigint × List Bigint) := do
  let p05 := [5, 25, 125]
  let i := k &&& 3
  let b ← (if i ≠ 0 then p05[i - 1]?.bind fun m => multadd b m 0 else some b)
  let k := k >>> 2
  if k = 0 then some (b, p5s)
  else
    let p5 ← p5s.head?.or (i2b 625)
    let r ← pow5loop k p5 p5s.tail b k
    some (r.1, p5 :: r.2)

/-- `for(i = b->maxwds; n1 > i; i <<= 1) k1++`. -/
def growClass (n1 : ℕ) : ℕ → ℕ → ℕ → ℕ
  | 0, _, k1 => k1
  | fuel + 1, i, k1 => if n1 > i then growClass n1 fuel (i <<< 1) (k1 + 1) else k1

/-- `lshift`.
SOURCE: dietlibc-printf.patch:1332-1396 -/
def lshift (b : Bigint) (k : ℕ) : Option Bigint := do
  let n := k >>> 5
  let n1 := n + b.wds + 1
  let b1 ← Balloc (growClass n1 n1 b.maxwds b.k)
  let x ← b.read (max 1 b.wds)
  let k := k &&& 0x1f
  if k ≠ 0 then
    let r := shiftBits 32 k x 0
    b1.fill (List.replicate n 0 ++ r.1 ++ [r.2]) (if r.2 ≠ 0 then n1 else n1 - 1)
  else b1.fill (List.replicate n 0 ++ x) (n1 - 1)

/-- `cmp`: negative, zero or positive, as `a` is less than, equal to or greater than `b`.
SOURCE: dietlibc-printf.patch:1398-1430 -/
def cmp (a b : Bigint) : Option ℤ :=
  if a.wds ≠ b.wds then some ((a.wds : ℤ) - b.wds)
  else do
    let xa ← a.read a.wds
    let xb ← b.read b.wds
    some (compareTop xa.reverse xb.reverse)

/-- The difference of `a` and `b`, of which `a` is the greater.
SOURCE: dietlibc-printf.patch:1463-1508 -/
def difference (a b : Bigint) (sign : Bool) : Option Bigint := do
  let c ← Balloc a.k
  let xa ← a.read a.wds
  let xb ← b.read (max 1 b.wds)
  let xc := (subBorrow W xa xb 0).1
  { c with sign := sign }.fill xc (xc.rdropWhile (· = 0)).length

/-- `diff`: the distance of two numbers; `sign` is set if the second one is greater.
SOURCE: dietlibc-printf.patch:1432-1510 -/
def diff (a b : Bigint) : Option Bigint := do
  let i ← cmp a b
  if i = 0 then (← Balloc 0).fill [0] 1
  else if i < 0 then difference b a true
  else difference a b false

/-- `while(--bxe > bx && !*bxe) --n`, from the word `n` on, which is zero. -/
def trimTop (x : List ℕ) : ℕ → ℕ
  | 0 => 0
  | n + 1 => if 0 < n ∧ x[n]? = some 0 then trimTop x n else n + 1

/-- Subtract `q` times `S` and find the highest word that is left.
SOURCE: dietlibc-printf.patch:2857-2894, 2899-2932 -/
def subtractTimes (b S : Bigint) (q : ℕ) (n : ℕ) : Option Bigint := do
  let sx ← S.read (n + 1)
  let bx ← b.read (n + 1)
  let x := (mulSub W q sx bx 0 0).1 ++ b.x.drop (n + 1)
  some { b with x := x, wds := if x[n]? = some 0 then trimTop x n else b.wds }

/-- `quorem`: the quotient of `b` and `S`, and the remainder in the place of `b`.
SOURCE: dietlibc-printf.patch:2822-2935 -/
def quorem (b S : Bigint) : Option (ℕ × Bigint) :=
  if b.wds < S.wds then some (0, b)
  else do
    let n := S.wds - 1
    let bxe ← b.x[n]?
    let sxe ← S.x[n]?
    if (sxe + 1) % W = 0 then none
    else
      let q := bxe / ((sxe + 1) % W)
      let b ← (if q ≠ 0 then subtractTimes b S q n else some b)
      if (← cmp b S) ≥ 0 then some (q + 1, ← subtractTimes b S 1 n)
      else some (q, b)

end TTLinux.Model.DtoaBigint
