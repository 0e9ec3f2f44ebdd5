import Mathlib.Data.Int.Notation
import TTLinux.Lib.Bytes

/-!
# Printing floating point numbers

`__dtostr` and the floating point branch of `__v_printf`
(toolchain/patches/dietlibc-0.32/dietlibc-printf.patch), with `WANT_A_PRINTF` and
`WANT_MALLOC_IN_PRINTF`. A double is its 64 bits. `dtoa`, which comes from netlib, is a
parameter: it returns the digits and the position of the decimal point. Access outside of
the buffer and a counter that is decremented below zero end the function without a
result. `int` is not bounded: no precision that a program can afford comes near to the
bound.
-/

set_option autoImplicit false

namespace TTLinux.Model.Printf

open TTLinux.Lib

/-! ## Conversions -/

/-- The conversion specifiers of the branch. -/
inductive Spec where
  | a
  | A
  | e
  | E
  | f
  | F
  | g
  | G
  deriving DecidableEq

/-- `info->spec>='A' && info->spec<='G'`. -/
def Spec.upcase : Spec → Bool
  | .A | .E | .F | .G => true
  | _ => false

/-- The part of `struct printf_info` that the branch uses.
SOURCE: dietlibc-printf.patch:4131-4149 -/
structure Info where
  /-- The precision; none stands for `INT_MIN`, an omitted precision. -/
  prec : Option ℕ
  spec : Spec
  alt : Bool
  showsign : Bool
  space : Bool

/-- `dtoa(d, mode, ndigits)`: the digits and the position of the decimal point. -/
abbrev Dtoa := BitVec 64 → ℕ → ℤ → Bytes × ℤ

def SIGNMASK : BitVec 64 := 0x8000000000000000#64
def EXPOMASK : BitVec 64 := 0x7ff0000000000000#64
def MANTMASK : BitVec 64 := 0x000fffffffffffff#64

/-- The character of an ASCII code. -/
def chr (c : Char) : UInt8 := c.toNat.toUInt8

/-- A letter in the case of the conversion: `c+upcase`. -/
def cased (upcase : Bool) (c : Char) : UInt8 := chr (if upcase then c.toUpper else c)

/-- The digit `n+'0'`. -/
def digitChar (n : ℕ) : UInt8 := (n + 48).toUInt8

/-! ## The output buffer -/

/-- The buffer of `__dtostr` and its counter. -/
structure Out where
  buf : Bytes
  retval : ℕ

/-- `__put`.
SOURCE: dietlibc-printf.patch:3754 -/
def Out.put (o : Out) (c : UInt8) : Out :=
  ⟨if o.retval < o.buf.length then o.buf.set o.retval c else o.buf, o.retval + 1⟩

/-- A row of `__put`s. -/
def Out.puts (o : Out) (cs : Bytes) : Out := cs.foldl Out.put o

/-- A write that is not checked. -/
def Out.poke (o : Out) (i : ℕ) (c : UInt8) : Option Out :=
  if i < o.buf.length then some ⟨o.buf.set i c, o.retval⟩ else none

/-- `buf[retval++]=c`. -/
def Out.push (o : Out) (c : UInt8) : Option Out :=
  (o.poke o.retval c).map fun o => ⟨o.buf, o.retval + 1⟩

/-- Remove the dot if no digit follows.
SOURCE: dietlibc-printf.patch:3965-3966, 4057-4058 -/
def Out.removeDot (o : Out) : Option Out :=
  if o.retval ≤ o.buf.length then
    (o.buf[o.retval - 1]?).map fun c => if c = chr '.' then ⟨o.buf, o.retval - 1⟩ else o
  else some o

/-- `while (preci--) __put('0')`. -/
def Out.zeros (o : Out) (preci : ℤ) : Option Out :=
  if preci < 0 then none else some (o.puts (List.replicate preci.toNat (chr '0')))

/-! ## Hexadecimal conversions -/

/-- `__lltostr` for base 16. -/
def lltostr (upcase : Bool) (i : ℕ) : Bytes :=
  (Nat.toDigits 16 i).map fun c => cased upcase c

/-- Remove the trailing zeros below an index.
SOURCE: dietlibc-printf.patch:3907 -/
def stripZeros (buf : Bytes) : ℕ → Option Out
  | 0 => some ⟨buf, 0⟩
  | n + 1 => do
    let c ← buf[n]?
    if c = chr '0' then stripZeros buf n else some ⟨buf, n + 1⟩

/-- Rounding up, from an index on towards the front.
SOURCE: dietlibc-printf.patch:3938-3958 -/
def roundUp (upcase : Bool) (o : Out) : ℕ → Option Out
  | 0 => some o
  | i + 1 => do
    let c ← o.buf[i + 1]?
    if c = chr '.' then roundUp upcase o i
    else if c = chr 'f' ∨ c = chr 'F' then
      let o ← o.poke (i + 1) (chr '0')
      roundUp upcase o i
    else if c = chr '9' then o.poke (i + 1) (cased upcase 'a')
    else o.poke (i + 1) (c + 1)

/-- The digits of an exponent below 10000.
SOURCE: dietlibc-printf.patch:3971-3981 -/
def hexExponent (exponent : ℕ) : Bytes :=
  if exponent = 0 then [chr '0']
  else ([1000, 100, 10, 1].dropWhile fun i => exponent < i).map fun i => digitChar (exponent / i % 10)

/-- The digits of `%a`: all of them without a precision, else that many, rounded.
SOURCE: dietlibc-printf.patch:3899-3961 -/
def hexDigits (upcase : Bool) (tmp : Bytes) (preci : Option ℕ) (o : Out) : Option Out :=
  match preci with
  | none =>
    let o := o.puts (List.replicate (13 - tmp.length) (chr '0') ++ tmp)
    stripZeros o.buf o.retval
  | some preci => do
    let lead := min (13 - tmp.length) preci
    let i := min tmp.length (preci - lead)
    let o := o.puts (List.replicate lead (chr '0') ++ tmp.take i)
    let o ← match tmp[i]? with
      | some c =>
        if chr '0' ≤ c ∧ c ≤ chr '7' then some o else roundUp upcase o (o.retval - 1)
      | none => some o
    o.zeros (preci - lead - i : ℕ)

/-- The conversions `a` and `A`.
SOURCE: dietlibc-printf.patch:3876-3986 -/
def formatHex (u : BitVec 64) (upcase : Bool) (preci : Option ℕ) (o : Out) : Option Out := do
  let mant := (u &&& MANTMASK).toNat
  let biased := ((u &&& EXPOMASK) >>> 52).toNat
  let exponent : ℤ := if biased ≠ 0 then biased - 1023 else if mant ≠ 0 then -1022 else 0
  let normal := if biased ≠ 0 then chr '1' else chr '0'
  let o := o.puts [chr '0', cased upcase 'x', normal, chr '.']
  let o ← hexDigits upcase (lltostr upcase mant) preci o
  let o ← o.removeDot
  some (o.puts (cased upcase 'p' :: (if exponent < 0 then chr '-' else chr '+') ::
    hexExponent exponent.natAbs))

/-! ## Decimal conversions -/

/-- What the `switch` decides: the mode of `dtoa`, the number of digits to ask for, whether
trailing zeros are kept, and the specifier that is stored in `info->spec`.
SOURCE: dietlibc-printf.patch:3873, 3988-4001 -/
def selectMode (spec : Spec) (preci : ℤ) : ℕ × ℤ × Bool × Spec :=
  match spec with
  | .F | .f => (3, preci, true, spec)
  | .G | .g => (2, preci, false, .g)
  | .E | .e => (2, preci + 1, true, .e)
  | .A | .a => (2, preci, true, spec)

/-- The digits up to the decimal point and the point; the number of digits used and the
precision that is left.
SOURCE: dietlibc-printf.patch:4019-4032 -/
def integerPart (ds : Bytes) (decpt preci : ℤ) : Bytes × ℕ × ℤ :=
  if decpt ≤ 0 then
    ([chr '0', chr '.'] ++ List.replicate (-decpt).toNat (chr '0'), 0, preci + decpt)
  else
    (ds.take decpt.toNat ++ List.replicate (decpt.toNat - ds.length) (chr '0') ++ [chr '.'],
      decpt.toNat, preci)

/-- The digits after the point, as many as the precision allows.
SOURCE: dietlibc-printf.patch:4034-4037 -/
def fractionDigits (ds : Bytes) (i : ℕ) (preci : ℤ) : Bytes :=
  if preci < 0 then ds.drop i else (ds.drop i).take preci.toNat

/-- The exponent of style `e`; `exponent` is the position of the decimal point.
SOURCE: dietlibc-printf.patch:4060-4075 -/
def exponentPart (upcase trailingzeros : Bool) (exponent : ℤ) : Bytes :=
  let n := if exponent ≤ 0 then (-exponent + 1).toNat else (exponent - 1).toNat
  if trailingzeros ∨ n ≠ 0 then
    [cased upcase 'e', if exponent ≤ 0 then chr '-' else chr '+'] ++
      (if 99 < n then [digitChar (n / 100)] else []) ++ [digitChar (n % 100 / 10), digitChar (n % 10)]
  else []

/-- Trailing zeros, as many as the precision that is left.
SOURCE: dietlibc-printf.patch:4053-4055 -/
def Out.trailingZeros (o : Out) (keep : Bool) (preci : ℤ) : Option Out :=
  if keep && preci ≠ 0 then o.zeros preci else some o

/-- Remove the dot, but not with the flag `#`.
SOURCE: dietlibc-printf.patch:4057-4058 -/
def Out.cutDot (o : Out) (alt : Bool) : Option Out := if alt then some o else o.removeDot

/-- The conversions `e`, `f` and `g`; the specifier is the new `info->spec`.
SOURCE: dietlibc-printf.patch:3873, 3988-4079 -/
def formatDecimal (dtoa : Dtoa) (u : BitVec 64) (upcase : Bool) (preci : ℤ) (info : Info) (o : Out) :
    Option (Out × Spec) := do
  let (method, digits, trailingzeros, spec) := selectMode info.spec preci
  let (ds, decpt) := dtoa u method digits
  let style := if spec = .g ∧ (decpt ≤ -4 ∨ preci < decpt) then .e else spec
  let preci := if spec = .g ∧ decpt ≤ preci then preci - decpt else preci
  let (front, i, preci) := integerPart ds (if style = .e then 1 else decpt) preci
  let fraction := fractionDigits ds i preci
  let o := (o.puts front).puts fraction
  let o ← o.trailingZeros (trailingzeros || info.alt) (preci - fraction.length)
  let o ← o.cutDot info.alt
  let o := if style = .e then o.puts (exponentPart upcase trailingzeros decpt) else o
  some (o, style)

/-- The sign check.
SOURCE: dietlibc-printf.patch:3816-3817 -/
def signCheck (u : BitVec 64) (buf : Bytes) : Option Out :=
  if u &&& SIGNMASK ≠ 0#64 then (Out.mk buf 0).push (chr '-') else some ⟨buf, 0⟩

/-- The letters of a text, written without a check. -/
def Out.pushes (o : Out) : Bytes → Option Out
  | [] => some o
  | c :: cs => (o.push c).bind fun o => o.pushes cs

/-- INF and NAN; the sign of a NAN is overwritten.
SOURCE: dietlibc-printf.patch:3819-3830 -/
def infNan (u : BitVec 64) (upcase : Bool) (o : Out) : Option Out :=
  if u &&& MANTMASK ≠ 0#64 then
    Out.pushes ⟨o.buf, 0⟩ [cased upcase 'n', cased upcase 'a', cased upcase 'n']
  else o.pushes [cased upcase 'i', cased upcase 'n', cased upcase 'f']

/-- `__dtostr`: the buffer, the return value, and what `info` is afterwards.
SOURCE: dietlibc-printf.patch:3761-4080 -/
def dtostr (dtoa : Dtoa) (u : BitVec 64) (buf : Bytes) (info : Info) : Option (Out × Info) := do
  let upcase := info.spec.upcase
  let o ← signCheck u buf
  if u &&& EXPOMASK = EXPOMASK then
    let o ← infNan u upcase o
    some (o, info)
  else if info.spec = .a ∨ info.spec = .A then
    let o ← formatHex u upcase info.prec o
    some (o, info)
  else
    let preci : ℤ := info.prec.getD 6
    let (o, spec) ← formatDecimal dtoa u upcase preci info o
    some (o, { info with spec := spec })

/-! ## The branch of `__v_printf` -/

/-- `PF_BUFSIZE`.
SOURCE: dietlibc-printf.patch:17 -/
def PF_BUFSIZE : ℕ := 128

/-- `d>=0`: not a NaN, and no sign or minus zero. -/
def nonneg (u : BitVec 64) : Bool :=
  !(u &&& EXPOMASK = EXPOMASK ∧ u &&& MANTMASK ≠ 0#64) &&
    (u &&& SIGNMASK = 0#64 || u &&& ~~~SIGNMASK = 0#64)

/-- The text that is handed to the output: the sign that the flags ask for and what
`__dtostr` has stored.
SOURCE: dietlibc-printf.patch:370-374 -/
def handedText (u : BitVec 64) (info : Info) (o : Out) : Bytes :=
  (if (info.showsign || info.space) && nonneg u then
    [if info.showsign then chr '+' else chr ' '] else []) ++ o.buf.take o.retval

/-- From `tryagain` on. `memory k n` is what the `n` bytes of the buffer behind its first byte
hold before the `k`-th call; the first argument bounds the number of calls.
SOURCE: dietlibc-printf.patch:323-374 -/
def tryagain (dtoa : Dtoa) (u : BitVec 64) (memory : ℕ → ℕ → UInt8) :
    ℕ → ℕ → ℕ → Info → Option Bytes
  | 0, _, _, _ => none
  | calls + 1, k, bufsiz, info => do
    let (o, info) ← dtostr dtoa u ((List.range (bufsiz - 1)).map (memory k)) info
    if bufsiz - 1 < o.retval then tryagain dtoa u memory calls (k + 1) (o.retval + 1) info
    else some (handedText u info o)

end TTLinux.Model.Printf
