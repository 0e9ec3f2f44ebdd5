import Mathlib.Data.List.DropRight
import Mathlib.Data.Rat.Floor
import TTLinux.Lib.Bytes
import TTLinux.Lib.FloatFormat
import TTLinux.Model.DtoaBigint

/-!
# Converting a double to decimal digits

`dtoa` of dtoa.c (toolchain/patches/dietlibc-0.32/dietlibc-printf.patch), configured as the patch does: `IEEE_Arith` and
rounding to nearest, none of `Honor_FLT_ROUNDS`, `SET_INEXACT`, `Sudden_Underflow`, `ROUND_BIASED`. A double is its 64
bits or, in the steps that compute with it, its value; every operation on values is rounded to double precision, as the
source requires of the machine. `Long` has 32 bits, as on the i386. The powers of five that `pow5mult` keeps are passed
through. Digits are written into the block of `rv_alloc`: what does not fit ends the function without a result.
-/

set_option autoImplicit false

namespace TTLinux.Model.Dtoa

open TTLinux.Lib
open TTLinux.Model.DtoaBigint

/-! ## Doubles -/

/-- An operation on doubles rounds its result. -/
def fl (x : ℚ) : ℚ := binary64.round x

def word0 (u : BitVec 64) : ℕ := (u >>> 32).toNat

def word1 (u : BitVec 64) : ℕ := (u &&& 0xffffffff#64).toNat

/-- The double without its sign: `word0(d) &= ~Sign_bit`. -/
def clearSign (u : BitVec 64) : BitVec 64 := u &&& 0x7fffffffffffffff#64

/-- The value of a double that is finite and not negative, by its words. -/
def dval (w0 w1 : ℕ) : ℚ :=
  let e : ℕ := w0 >>> 20
  let m : ℕ := (w0 &&& 0xfffff) * 2 ^ 32 + w1
  if e = 0 then (m : ℚ) * 2 ^ (-1074 : ℤ) else ((2 ^ 52 + m : ℕ) : ℚ) * 2 ^ ((e : ℤ) - 1075)

/-- `tens`: powers of ten that doubles represent. -/
def tens (k : ℤ) : Option ℚ := if 0 ≤ k ∧ k ≤ 22 then some (10 ^ k.toNat) else none

/-- `bigtens`: the doubles next to these powers. -/
def bigtens : List ℚ := [fl (10 ^ 16), fl (10 ^ 32), fl (10 ^ 64), fl (10 ^ 128), fl (10 ^ 256)]

/-- The words of the mantissa without the zeros at its end, and how many these are.
SOURCE: dietlibc-printf.patch:1662-1687 -/
def d2bWords (z y : ℕ) : List ℕ × ℕ :=
  if y ≠ 0 then
    if (lo0bits y).1 ≠ 0 then
      ([(lo0bits y).2 ||| (z <<< (32 - (lo0bits y).1)) % W, z >>> (lo0bits y).1], (lo0bits y).1)
    else ([(lo0bits y).2, z], 0)
  else ([(lo0bits z).2], (lo0bits z).1 + 32)

/-- `d2b`: a double that is not zero is `b` times `2^e`; `bits` are those of `b`.
SOURCE: dietlibc-printf.patch:1624-1730 -/
def d2b (u : BitVec 64) : Option (Bigint × ℤ × ℤ) := do
  let z := word0 u &&& 0xfffff
  let de := (word0 u &&& 0x7fffffff) >>> 20
  let z := if de ≠ 0 then z ||| 0x100000 else z
  let b ← Balloc 1
  let (x, k) := d2bWords z (word1 u)
  let i := if x[1]?.getD 0 ≠ 0 then 2 else 1
  let b ← b.fill x i
  if de ≠ 0 then some (b, (de : ℤ) - 1023 - 52 + k, 53 - (k : ℤ))
  else do
    let top ← x[i - 1]?
    some (b, (de : ℤ) - 1023 - 52 + 1 + k, 32 * (i : ℤ) - hi0bits top)

/-! ## The estimate of the first place -/

/-- The cast of a double to an integer. -/
def truncate (x : ℚ) : ℤ := if x < 0 then ⌈x⌉ else ⌊x⌋

/-- `i`, the exponent of the highest bit, and `d2`, the double with its exponent set to zero; of a denormalized number
`d2` has the first 32 bits.
SOURCE: dietlibc-printf.patch:3150-3208 -/
def highestBit (u : BitVec 64) (be bbits : ℤ) : ℤ × ℚ :=
  let i := word0 u >>> 20 &&& 0x7ff
  if i ≠ 0 then ((i : ℤ) - 1023, dval (word0 u &&& 0xfffff ||| 0x3ff00000) (word1 u))
  else
    let i := bbits + be + (1023 + 52 - 1)
    let x := if i > 32 then (word0 u <<< (64 - i).toNat) % W ||| word1 u >>> (i - 32).toNat
      else (word1 u <<< (32 - i).toNat) % W
    (i - (1023 + 52 - 1 + 1), (x : ℚ) / 2 ^ 31)

/-- `k`, about the decimal logarithm: `(dval(d2)-1.5)*0.289529654602168 + 0.1760912590558 + i*0.301029995663981`, rounded
down. SOURCE: dietlibc-printf.patch:3209-3212 -/
def estimate (i : ℤ) (d2 : ℚ) : ℤ :=
  let ds := fl (fl (fl (fl (d2 - 1.5) * fl 0.289529654602168) + fl 0.1760912590558) + fl (i * fl 0.301029995663981))
  let k := truncate ds
  if ds < 0 ∧ ds ≠ k then k - 1 else k

/-- `k` and `k_check`: within the table of powers the estimate is checked at once.
SOURCE: dietlibc-printf.patch:3213-3218 -/
def firstPlace (d : ℚ) (k : ℤ) : ℤ × Bool :=
  if 0 ≤ k ∧ k ≤ 22 then (if d < 10 ^ k.toNat then k - 1 else k, false) else (k, true)

/-! ## The block of the result -/

/-- `for(k = 0; sizeof(Bigint) - sizeof(ULong) - sizeof(int) + j <= i; j <<= 1) k++`.
SOURCE: dietlibc-printf.patch:2951-2955 -/
def rvClass (i : ℕ) : ℕ → ℕ → ℕ → ℕ
  | 0, _, k => k
  | fuel + 1, j, k => if 16 + j ≤ i then rvClass i fuel (j <<< 1) (k + 1) else k

/-- `rv_alloc`: the digits for which there is room in front of the final zero.
SOURCE: dietlibc-printf.patch:2941-2967 -/
def rvAlloc (i : ℕ) : Option ℕ := do
  let b ← Balloc (rvClass i i 4 0)
  some (15 + 4 * b.maxwds)

/-! ## Digits -/

/-- A digit as it is written: `'0' + (int)L`. -/
def digit (n : ℤ) : UInt8 := (48 + n).toNat.toUInt8

/-- Round up what has been written: the nines at the end are taken back.
SOURCE: dietlibc-printf.patch:3424-3431, 3676-3683 -/
def roundoff (s : Bytes) (k : ℤ) : Bytes × ℤ :=
  match (s.rdropWhile (· = 0x39)).getLast? with
  | none => ([0x31], k + 1)
  | some c => ((s.rdropWhile (· = 0x39)).dropLast ++ [c + 1], k)

/-- `while(*--s == '0'); s++`: there is a digit that is not zero. -/
def trimzeros (s : Bytes) : Option Bytes :=
  if s.rdropWhile (· = 0x30) = [] then none else some (s.rdropWhile (· = 0x30))

/-! ## Floating point arithmetic only -/

/-- `for(; j; j >>= 1, i++) if (j & 1) ds *= bigtens[i]`, counting the roundings.
SOURCE: dietlibc-printf.patch:3304-3308, 3313-3317 -/
def scaleBig : List ℚ → ℕ → ℚ → ℕ → Option (ℚ × ℕ)
  | bs, j, ds, ieps =>
    match bs with
    | [] => if j = 0 then some (ds, ieps) else none
    | b :: bs =>
      if j = 0 then some (ds, ieps)
      else if j &&& 1 ≠ 0 then scaleBig bs (j >>> 1) (fl (ds * b)) (ieps + 1)
      else scaleBig bs (j >>> 1) ds ieps

/-- `d` divided by `10^k`, and the number of roundings.
SOURCE: dietlibc-printf.patch:3290-3318 -/
def quickScale (d : ℚ) (k : ℤ) : Option (ℚ × ℕ) :=
  if k > 0 then do
    let ds ← tens (k.toNat &&& 0xf : ℕ)
    let j := k.toNat >>> 4
    if j &&& 0x10 ≠ 0 then do
      -- prevent overflows
      let b ← bigtens[4]?
      let r ← scaleBig bigtens (j &&& 0xf) ds 3
      some (fl (fl (d / b) / r.1), r.2)
    else do
      let r ← scaleBig bigtens j ds 2
      some (fl (d / r.1), r.2)
  else if k ≠ 0 then do
    let t ← tens ((-k).toNat &&& 0xf : ℕ)
    scaleBig bigtens ((-k).toNat >>> 4) (fl (d * t)) 2
  else some (d, 2)

/-- What the attempt comes to. -/
inductive Quick where
  | failed
  | oneDigit
  | noDigits
  | ret1 (s : Bytes)
  | bumpUp (s : Bytes)

/-- The digits that tell the number from its neighbours.
SOURCE: dietlibc-printf.patch:3344-3358 -/
def quickShortest (ilim : ℤ) : ℕ → ℤ → ℚ → ℚ → Bytes → Option Quick
  | 0, _, _, _, _ => none
  | room + 1, i, d, eps, s =>
    let L := truncate d
    let d := fl (d - L)
    let s := s ++ [digit L]
    if d < eps then some (.ret1 s)
    else if fl (1 - d) < eps then some (.bumpUp s)
    else if i + 1 ≥ ilim then some .failed
    else quickShortest ilim room (i + 1) (fl (d * 10)) (fl (eps * 10)) s

/-- `ilim` digits.
SOURCE: dietlibc-printf.patch:3363-3379 -/
def quickDigits (eps : ℚ) : ℕ → ℤ → ℤ → ℚ → Bytes → Option Quick
  | 0, _, _, _, _ => none
  | room + 1, ilim, i, d, s =>
    let L := truncate d
    let d := fl (d - L)
    let ilim := if d = 0 then i else ilim
    let s := s ++ [digit L]
    if i = ilim then
      if d > fl (0.5 + eps) then some (.bumpUp s)
      else if d < fl (0.5 - eps) then (trimzeros s).map .ret1
      else some .failed
    else quickDigits eps room ilim (i + 1) (fl (d * 10)) s

/-- The digits of the number `d`, which has been divided by `10^k`, with the bound `eps` of its error.
SOURCE: dietlibc-printf.patch:3328-3387 -/
def quickRound (room : ℕ) (leftright : Bool) (d eps : ℚ) (ilim : ℤ) : Option Quick :=
  if ilim = 0 then
    let d := fl (d - 5)
    some (if d > eps then .oneDigit else if d < -eps then .noDigits else .failed)
  else do
    let t ← tens (ilim - 1)
    if leftright then quickShortest ilim room 0 d (fl (fl (0.5 / t) - eps)) []
    else quickDigits (fl (eps * t)) room ilim 1 d []

/-- `eps = ieps*d + 7; word0(eps) -= (P-1)*Exp_msk1`. -/
def quickError (ieps : ℕ) (d : ℚ) : ℚ := fl (fl (ieps * d) + 7) / 2 ^ 52

/-- Try to get by with floating-point arithmetic. Also returns `k`.
SOURCE: dietlibc-printf.patch:3281-3387 -/
def quick (room : ℕ) (leftright k_check : Bool) (d : ℚ) (k ilim ilim1 : ℤ) : Option (Quick × ℤ) := do
  let (d, ieps) ← quickScale d k
  if k_check ∧ d < 1 ∧ ilim > 0 then
    if ilim1 ≤ 0 then some (.failed, k)
    else do
      let d := fl (d * 10)
      let q ← quickRound room leftright d (quickError (ieps + 1) d) ilim1
      some (q, k - 1)
  else do
    let q ← quickRound room leftright d (quickError ieps d) ilim
    some (q, k)

/-! ## Small integers -/

/-- The digits of a small integer; true if it is to be rounded up.
SOURCE: dietlibc-printf.patch:3400-3435 -/
def integerDigits (ds : ℚ) (ilim : ℤ) : ℕ → ℤ → ℚ → Bytes → Option (Bool × Bytes)
  | 0, _, _, _ => none
  | room + 1, i, d, s =>
    let L := truncate (fl (d / ds))
    let d := fl (d - fl (L * ds))
    let s := s ++ [digit L]
    if d = 0 then some (false, s)
    else if i = ilim then
      let d := fl (d + d)
      some (decide (d > ds ∨ d = ds ∧ L % 2 ≠ 0), s)
    else integerDigits ds ilim room (i + 1) (fl (d * 10)) s

/-! ## Multiple-precision integers -/

/-- `!b->x[0] && b->wds <= 1`. -/
def isZero (b : Bigint) : Bool := b.x[0]? = some 0 && b.wds ≤ 1

/-- What the loop over the digits comes to: the digits are returned, they are rounded up, or the remainder decides. -/
inductive Digits where
  | ret (s : Bytes)
  | roundoff (s : Bytes)
  | last (s : Bytes) (dig : ℕ) (b : Bigint)

/-- The digits up to the limit, or to the last one that is not zero.
SOURCE: dietlibc-printf.patch:3646-3657 -/
def plainDigits (S : Bigint) (ilim : ℤ) : ℕ → ℤ → Bigint → Bytes → Option Digits
  | 0, _, _, _ => none
  | room + 1, i, b, s => do
    let (dig, b) ← quorem b S
    let s := s ++ [digit dig]
    if isZero b then some (.ret s)
    else if i ≥ ilim then some (.last s dig b)
    else do
      let b ← multadd b 10 0
      plainDigits S ilim room (i + 1) b s

/-- One digit of the shortest string that rounds to `d`, of which `b` is the remainder; none if more digits are needed.
SOURCE: dietlibc-printf.patch:3557-3631 -/
def shortestStep (S : Bigint) (mode : ℤ) (odd : Bool) (dig : ℕ) (b mlo mhi : Bigint) (s : Bytes) :
    Option (Option Digits) := do
  let j ← cmp b mlo
  let delta ← diff S mhi
  let j1 ← (if delta.sign then some 1 else cmp b delta)
  if j1 = 0 ∧ mode ≠ 1 ∧ odd = false then
    if dig = 9 then some (some (.roundoff (s ++ [digit 9])))
    else some (some (.ret (s ++ [digit (if j > 0 then dig + 1 else dig)])))
  else if j < 0 ∨ j = 0 ∧ mode ≠ 1 ∧ odd = false then
    if isZero b then some (some (.ret (s ++ [digit dig])))
    else if j1 > 0 then do
      let b ← lshift b 1
      let j1 ← cmp b S
      if j1 > 0 ∨ j1 = 0 ∧ dig &&& 1 ≠ 0 then
        if dig = 9 then some (some (.roundoff (s ++ [digit 9])))
        else some (some (.ret (s ++ [digit (dig + 1)])))
      else some (some (.ret (s ++ [digit dig])))
    else some (some (.ret (s ++ [digit dig])))
  else if j1 > 0 then
    if dig = 9 then some (some (.roundoff (s ++ [digit 9])))
    else some (some (.ret (s ++ [digit (dig + 1)])))
  else some none

/-- The digits of the shortest string. While `mlo` and `mhi` are the same they are one block.
SOURCE: dietlibc-printf.patch:3556-3643 -/
def shortestDigits (S : Bigint) (mode : ℤ) (odd : Bool) (ilim : ℤ) :
    ℕ → ℤ → Bigint → Bigint → Option Bigint → Bytes → Option Digits
  | 0, _, _, _, _, _ => none
  | room + 1, i, b, mlo, mhi, s => do
    let (dig, b) ← quorem b S
    match ← shortestStep S mode odd dig b mlo (mhi.getD mlo) s with
    | some r => some r
    | none =>
      let s := s ++ [digit dig]
      if i = ilim then some (.last s dig b)
      else do
        let b ← multadd b 10 0
        let mlo ← multadd mlo 10 0
        let mhi ← (match mhi with
          | some mhi => (multadd mhi 10 0).map some
          | none => some none)
        shortestDigits S mode odd ilim room (i + 1) b mlo mhi s

/-- What is returned, apart from the sign: the digits, and `k`. -/
abbrev Result := Bytes × ℤ

/-- `no_digits`: `k = -1 - ndigits`. -/
def noDigits (ndigits : ℤ) : Result := ([], -1 - ndigits)

/-- `one_digit`. -/
def oneDigit (k : ℤ) : Result := ([0x31], k + 1)

/-- The exponents of two and five of the number and of its scale.
SOURCE: dietlibc-printf.patch:3219-3238 -/
structure Scale where
  b2 : ℤ
  b5 : ℤ
  s2 : ℤ
  s5 : ℤ

def scale (j k : ℤ) : Scale :=
  let b2 := if j ≥ 0 then 0 else -j
  let s2 := if j ≥ 0 then j else 0
  if k ≥ 0 then ⟨b2, 0, s2 + k, k⟩ else ⟨b2 - k, -k, s2, 0⟩

/-- Multiply by a power of five if there is one. -/
def timesFives (p5s : List Bigint) (b : Bigint) (k : ℤ) : Option (Bigint × List Bigint) :=
  if k > 0 then pow5mult p5s b k.toNat else some (b, p5s)

/-- `mhi` and `b` with their powers of five; `m5` is `b5`.
SOURCE: dietlibc-printf.patch:3453, 3461-3474 -/
def multiples (p5s : List Bigint) (leftright : Bool) (b : Bigint) (b5 : ℤ) :
    Option (Option Bigint × Bigint × List Bigint) :=
  if leftright then do
    let one ← i2b 1
    let (mhi, p5s) ← timesFives p5s one b5
    let b ← (if b5 > 0 then mult mhi b else some b)
    some (some mhi, b, p5s)
  else do
    let (b, p5s) ← timesFives p5s b b5
    some (none, b, p5s)

/-- The bits by which all is shifted so that the divisor has four zero bits in front.
SOURCE: dietlibc-printf.patch:3499-3526 -/
def alignment (S : Bigint) (s2 s5 : ℤ) : Option ℤ := do
  let top ← (if s5 ≠ 0 then S.x[S.wds - 1]?.map fun x => 32 - (hi0bits x : ℤ) else some 1)
  let i := (top + s2) % 32
  let i := if i ≠ 0 then 32 - i else i
  some (if i > 4 then i - 4 else if i < 4 then i + 28 else 0)

/-- Shift if there is anything to shift by. -/
def shifted (b : Bigint) (n : ℤ) : Option Bigint := if n > 0 then lshift b n.toNat else some b

/-- Round the last digit by what is left.
SOURCE: dietlibc-printf.patch:3659-3688 -/
def roundLast (S : Bigint) (k : ℤ) : Digits → Option Result
  | .ret s => some (s, k)
  | .roundoff s => some (roundoff s k)
  | .last s dig b => do
    let b ← lshift b 1
    let j ← cmp b S
    if j > 0 ∨ j = 0 ∧ dig &&& 1 ≠ 0 then some (roundoff s k)
    else (trimzeros s).map fun s => (s, k)

/-- The digits of `b/S`. With `mhi` they stop as soon as they tell the number from its neighbours.
SOURCE: dietlibc-printf.patch:3530-3688 -/
def digitsOf (u : BitVec 64) (room : ℕ) (mode ndigits : ℤ) (spec_case : Bool) (b S : Bigint) (mhi : Option Bigint) (m2 : ℤ)
    (k ilim : ℤ) : Option Result :=
  if ilim ≤ 0 ∧ (mode = 3 ∨ mode = 5) then
    if ilim < 0 then some (noDigits ndigits)
    else do
      let S ← multadd S 5 0
      let j ← cmp b S
      some (if j ≤ 0 then noDigits ndigits else oneDigit k)
  else
    match mhi with
    | none => do
      let r ← plainDigits S ilim room 1 b []
      roundLast S k r
    | some mhi => do
      let mlo ← shifted mhi m2
      let mhi ← (if spec_case then (Balloc mlo.k).bind fun mhi => (Bcopy mhi mlo).bind fun mhi => (lshift mhi 1).map some
        else some none)
      let r ← shortestDigits S mode (word1 u &&& 1 ≠ 0) ilim room 1 b mlo mhi []
      roundLast S k r

/-- The conversion with multiple-precision integers.
SOURCE: dietlibc-printf.patch:3439-3688 -/
def long (p5s : List Bigint) (u : BitVec 64) (room : ℕ) (b : Bigint) (be bbits : ℤ) (denorm : Bool) (mode ndigits : ℤ)
    (leftright k_check : Bool) (j k ilim ilim1 : ℤ) : Option (Result × List Bigint) := do
  let c := scale j k
  let i := if leftright then if denorm then be + (1023 + 52 - 1 + 1) else 1 + 53 - bbits else 0
  let common := if c.b2 > 0 ∧ c.s2 + i > 0 then min c.b2 (c.s2 + i) else 0
  let (mhi, b, p5s) ← multiples p5s leftright b c.b5
  let one ← i2b 1
  let (S, p5s) ← timesFives p5s one c.s5
  -- d is a normalized power of 2
  let spec_case : Bool := leftright ∧ word1 u = 0 ∧ word0 u &&& 0xfffff = 0 ∧ word0 u &&& 0x7fe00000 ≠ 0
  let two := if spec_case then 1 else 0
  let b2 := c.b2 + i - common + two
  let s2 := c.s2 + i - common + two
  let shift ← alignment S s2 c.s5
  let b ← shifted b (b2 + shift)
  let S ← shifted S (s2 + shift)
  let m2 := c.b2 - common + shift
  let less ← (if k_check then (cmp b S).map fun j => decide (j < 0) else some false)
  if less then do
    -- the estimate was too great
    let b ← multadd b 10 0
    let mhi ← (match mhi with
      | some mhi => (multadd mhi 10 0).map some
      | none => some none)
    let r ← digitsOf u room mode ndigits spec_case b S mhi m2 (k - 1) ilim1
    some (r, p5s)
  else do
    let r ← digitsOf u room mode ndigits spec_case b S mhi m2 k ilim
    some (r, p5s)

/-- The limits of the digits: `ilim`, `ilim1`, `i` and `ndigits`.
SOURCE: dietlibc-printf.patch:3250-3275 -/
def limits (mode ndigits k : ℤ) : ℤ × ℤ × ℤ × ℤ :=
  if mode ≤ 1 then (-1, -1, 18, 0)
  else if mode = 2 ∨ mode = 4 then
    let ndigits := if ndigits ≤ 0 then 1 else ndigits
    (ndigits, ndigits, ndigits, ndigits)
  else
    let i := ndigits + k + 1
    (i, i - 1, if i ≤ 0 then 1 else i, ndigits)

/-- `dtoa` of a double that is finite and not zero: the digits, and `k`.
SOURCE: dietlibc-printf.patch:3139-3688 -/
def convert (p5s : List Bigint) (u : BitVec 64) (mode ndigits : ℤ) : Option (Result × List Bigint) := do
  let (b, be, bbits) ← d2b u
  let denorm : Bool := word0 u >>> 20 &&& 0x7ff = 0
  let (i, d2) := highestBit u be bbits
  let d := dval (word0 u) (word1 u)
  let (k, k_check) := firstPlace d (estimate i d2)
  let j := bbits - i - 1
  let mode := if mode < 0 ∨ mode > 9 then 0 else mode
  let try_quick : Bool := mode ≤ 5
  let mode := if mode > 5 then mode - 4 else mode
  let leftright : Bool := ¬ (mode = 2 ∨ mode = 3)
  let (ilim, ilim1, i, ndigits) := limits mode ndigits k
  let room ← rvAlloc i.toNat
  let q ← (if ilim ≥ 0 ∧ ilim ≤ 14 ∧ try_quick then quick room leftright k_check d k ilim ilim1 else some (.failed, k))
  match q with
  | (.oneDigit, k) => some (oneDigit k, p5s)
  | (.noDigits, _) => some (noDigits ndigits, p5s)
  | (.ret1 s, k) => some ((s, k), p5s)
  | (.bumpUp s, k) => some (roundoff s k, p5s)
  | (.failed, _) =>
    if be ≥ 0 ∧ k ≤ 14 then do
      let ds ← tens k
      if ndigits < 0 ∧ ilim ≤ 0 then
        if ilim < 0 ∨ d ≤ fl (5 * ds) then some (noDigits ndigits, p5s) else some (oneDigit k, p5s)
      else do
        let (up, s) ← integerDigits ds ilim room 1 d []
        some (if up then roundoff s k else (s, k), p5s)
    else long p5s u room b be bbits denorm mode ndigits leftright k_check j k ilim ilim1

/-- What `dtoa` returns: the digits, and where the decimal point and the sign are stored. -/
structure Answer where
  digits : Bytes
  decpt : ℤ
  sign : Bool

/-- `dtoa`.
SOURCE: dietlibc-printf.patch:3030-3715 -/
def dtoa (p5s : List Bigint) (u : BitVec 64) (mode ndigits : ℤ) : Option (Answer × List Bigint) :=
  let sign : Bool := word0 u &&& 0x80000000 ≠ 0
  let u := clearSign u
  if word0 u &&& 0x7ff00000 = 0x7ff00000 then
    let text := if word1 u = 0 ∧ word0 u &&& 0xfffff = 0 then ascii "Infinity".toList else ascii "NaN".toList
    some (⟨text, 9999, sign⟩, p5s)
  else if dval (word0 u) (word1 u) = 0 then some (⟨[0x30], 1, sign⟩, p5s)
  else (convert p5s u mode ndigits).map fun r => (⟨r.1.1, r.1.2 + 1, sign⟩, r.2)

end TTLinux.Model.Dtoa
