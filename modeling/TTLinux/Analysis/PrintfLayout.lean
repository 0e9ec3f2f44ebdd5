import Mathlib.Data.List.GetD
import Mathlib.Algebra.Order.Group.Nat
import TTLinux.Model.Printf

/-!
# What a conversion prints

The text of a decimal conversion is a mantissa and an exponent; the size of the buffer
decides only how much of it is stored and whether the dot at the end of the mantissa is
seen and removed. One lemma per output function says that the buffer holds the
beginning of the text, and `dtostr_text` puts them together.
-/

set_option autoImplicit false

namespace TTLinux.Analysis.PrintfLayout

open TTLinux.Lib
open TTLinux.Model.Printf

/-! ## The buffer -/

/-- The buffer holds the beginning of a text and the counter is its length. -/
def Holds (o : Out) (size : ℕ) (t : Bytes) : Prop :=
  o.buf.length = size ∧ o.retval = t.length ∧ o.buf.take t.length = t.take size

/-- INTERNAL: an empty text is held from the start. -/
theorem holds_nil (buf : Bytes) : Holds ⟨buf, 0⟩ buf.length [] := by
  refine ⟨rfl, rfl, ?_⟩
  simp

/-- INTERNAL: `__put` appends one character.
SOURCE: dietlibc-printf.patch:3754 -/
theorem put_holds (o : Out) (size : ℕ) (t : Bytes) (c : UInt8) (h : Holds o size t) :
    Holds (o.put c) size (t ++ [c]) := by
  obtain ⟨hlen, hret, htake⟩ := h
  unfold Out.put
  by_cases hroom : o.retval < o.buf.length
  · rw [if_pos hroom]
    have ht : t.length < size := by omega
    rw [List.take_of_length_le (by omega : t.length ≤ size)] at htake
    refine ⟨by simpa using hlen, by simp [hret], ?_⟩
    have hset : (o.buf.set o.retval c).take (t.length + 1) = o.buf.take t.length ++ [c] := by
      rw [hret, List.take_add_one, List.take_set_of_le (le_refl _), List.getElem?_set_self (by omega)]
      rfl
    show (o.buf.set o.retval c).take (t ++ [c]).length = _
    rw [List.length_append, List.length_singleton, hset, htake, List.take_of_length_le]
    simp only [List.length_append, List.length_singleton]
    omega
  · rw [if_neg hroom]
    have ht : size ≤ t.length := by omega
    refine ⟨hlen, by simp [hret], ?_⟩
    show o.buf.take (t ++ [c]).length = _
    rw [List.take_append_of_le_length ht, ← htake, List.take_of_length_le (by simp; omega),
      List.take_of_length_le (by omega)]

/-- INTERNAL: a row of `__put`s appends a text. -/
theorem puts_holds (cs : Bytes) (o : Out) (size : ℕ) (t : Bytes) (h : Holds o size t) :
    Holds (o.puts cs) size (t ++ cs) := by
  induction cs generalizing o t with
  | nil => simpa [Out.puts] using h
  | cons c cs ih =>
    have hput := ih (o.put c) (t ++ [c]) (put_holds o size t c h)
    rw [List.append_assoc, List.singleton_append] at hput
    exact hput

/-- INTERNAL: an unchecked write into a buffer with room appends one character. -/
theorem push_holds (o : Out) (size : ℕ) (t : Bytes) (c : UInt8) (h : Holds o size t)
    (hroom : t.length < size) : ∃ o', o.push c = some o' ∧ Holds o' size (t ++ [c]) := by
  have hlt : o.retval < o.buf.length := by
    obtain ⟨hlen, hret, -⟩ := h
    omega
  refine ⟨o.put c, ?_, put_holds o size t c h⟩
  unfold Out.push Out.poke Out.put
  rw [if_pos hlt, if_pos hlt]
  rfl

/-- INTERNAL: zeros are appended as often as the precision asks for.
SOURCE: dietlibc-printf.patch:4053-4055 -/
theorem trailingZeros_holds (o : Out) (size : ℕ) (t : Bytes) (keep : Bool) (preci : ℤ)
    (h : Holds o size t) (hpreci : keep = true → 0 ≤ preci) :
    ∃ o', o.trailingZeros keep preci = some o' ∧
      Holds o' size (t ++ if keep then List.replicate preci.toNat (chr '0') else []) := by
  unfold Out.trailingZeros
  cases keep with
  | false =>
    refine ⟨o, rfl, ?_⟩
    simpa using h
  | true =>
    by_cases hzero : preci = 0
    · refine ⟨o, by simp [hzero], ?_⟩
      simpa [hzero] using h
    · refine ⟨o.puts (List.replicate preci.toNat (chr '0')), ?_, puts_holds _ o size t h⟩
      have hge := hpreci rfl
      unfold Out.zeros
      rw [if_pos (by simpa using hzero), if_neg (by omega)]

/-- A text without a dot at its end. -/
def withoutDot (t : Bytes) : Bytes := if t.getLast? = some (chr '.') then t.dropLast else t

/-- The mantissa after the dot was looked for in a buffer of some size: with the flag `#`, or
behind the end of the buffer, the dot stays. -/
def cutDot (alt : Bool) (size : ℕ) (t : Bytes) : Bytes :=
  if alt ∨ size < t.length then t else withoutDot t

/-- INTERNAL: the dot is removed if it was stored.
SOURCE: dietlibc-printf.patch:4057-4058 -/
theorem cutDot_holds (alt : Bool) (o : Out) (size : ℕ) (t : Bytes) (h : Holds o size t)
    (hne : t ≠ []) :
    ∃ o', o.cutDot alt = some o' ∧ Holds o' size (cutDot alt size t) := by
  obtain ⟨hlen, hret, htake⟩ := h
  have hpos : 0 < t.length := List.length_pos_iff.mpr hne
  unfold Out.cutDot cutDot Out.removeDot
  cases alt with
  | true => exact ⟨o, rfl, by simpa using ⟨hlen, hret, htake⟩⟩
  | false =>
    simp only [Bool.false_eq_true, if_false, false_or]
    by_cases hfit : size < t.length
    · rw [if_neg (by omega), if_pos hfit]
      exact ⟨o, rfl, hlen, hret, htake⟩
    · rw [if_pos (by omega), if_neg hfit]
      rw [List.take_of_length_le (by omega : t.length ≤ size)] at htake
      have hlast : o.buf[o.retval - 1]? = t.getLast? := by
        rw [List.getLast?_eq_getElem?, hret]
        conv_rhs => rw [← htake]
        rw [List.getElem?_take_of_lt]
        · simp [List.length_take, hlen]
          congr 1
          omega
        · simp only [List.length_take]
          omega
      obtain ⟨c, hc⟩ : ∃ c, t.getLast? = some c := ⟨_, List.getLast?_eq_some_getLast hne⟩
      rw [hlast, hc]
      unfold withoutDot
      by_cases hdot : c = chr '.'
      · refine ⟨⟨o.buf, o.retval - 1⟩, by simp [hdot], hlen, by simp [hc, hdot, hret], ?_⟩
        rw [hc, if_pos (by rw [hdot])]
        show o.buf.take t.dropLast.length = _
        have hbuf : o.buf.take t.dropLast.length = (o.buf.take t.length).dropLast := by
          rw [List.length_dropLast, List.dropLast_eq_take, List.take_take, List.length_take]
          congr 1
          omega
        rw [hbuf, htake, List.take_of_length_le]
        simp only [List.length_dropLast]
        omega
      · refine ⟨o, by simp [hdot], hlen, by simp [hc, hdot, hret], ?_⟩
        rw [hc, if_neg (by simpa using hdot), htake, List.take_of_length_le (by omega)]

/-- INTERNAL: the dot is removed if no digit follows. -/
theorem withoutDot_point (front digits : Bytes) (h : chr '.' ∉ digits) :
    withoutDot (front ++ chr '.' :: digits) = front ++ if digits = [] then [] else chr '.' :: digits := by
  unfold withoutDot
  rcases List.eq_nil_or_concat' digits with rfl | ⟨init, last, rfl⟩
  · simp
  · have hlast : last ≠ chr '.' := fun heq => h (heq ▸ List.mem_append_right _ List.mem_cons_self)
    have hend : (front ++ chr '.' :: (init ++ [last])).getLast? = some last := by
      rw [← List.cons_append, ← List.append_assoc, List.getLast?_concat]
    rw [hend]
    simp [hlast]

/-- INTERNAL: a text that fits stands at the beginning of the buffer. -/
theorem Holds.exists_append (o : Out) (size : ℕ) (t : Bytes) (h : Holds o size t) (hfit : t.length ≤ size) :
    ∃ rest, o = ⟨t ++ rest, t.length⟩ ∧ (t ++ rest).length = size := by
  obtain ⟨hlen, hret, htake⟩ := h
  obtain ⟨buf, retval⟩ := o
  dsimp only at hlen hret htake
  rw [List.take_of_length_le hfit] at htake
  have hbuf : t ++ buf.drop t.length = buf := by
    rw [← htake, List.length_take, Nat.min_eq_left (by omega), List.take_append_drop]
  exact ⟨buf.drop t.length, by rw [hbuf, hret], by rw [hbuf, hlen]⟩

/-- INTERNAL: a buffer that begins with a text holds it. -/
theorem holds_of_prefix (buf t : Bytes) (h : t <+: buf) : Holds ⟨buf, t.length⟩ buf.length t := by
  refine ⟨rfl, rfl, ?_⟩
  rw [List.take_of_length_le h.length_le]
  exact (List.prefix_iff_eq_take.mp h).symm

/-- **The complete output**: what `__dtostr` returns and stores in every buffer that is large enough.
SOURCE: dietlibc-printf.patch:3761-4080 -/
def Prints (dtoa : Dtoa) (u : BitVec 64) (info : Info) (t : Bytes) : Prop :=
  ∃ n₀, ∀ buf : Bytes, n₀ ≤ buf.length →
    ∃ o info', dtostr dtoa u buf info = some (o, info') ∧ o.retval = t.length ∧ o.buf.take o.retval = t

/-- INTERNAL: a call prints one text only. -/
theorem prints_unique (dtoa : Dtoa) (u : BitVec 64) (info : Info) (t₁ t₂ : Bytes) (h₁ : Prints dtoa u info t₁)
    (h₂ : Prints dtoa u info t₂) : t₁ = t₂ := by
  obtain ⟨n₁, h₁⟩ := h₁
  obtain ⟨n₂, h₂⟩ := h₂
  obtain ⟨o₁, i₁, hd₁, -, ht₁⟩ := h₁ (List.replicate (n₁ + n₂) 0) (by simp)
  obtain ⟨o₂, i₂, hd₂, -, ht₂⟩ := h₂ (List.replicate (n₁ + n₂) 0) (by simp)
  obtain ⟨rfl, -⟩ : o₁ = o₂ ∧ i₁ = i₂ := by simpa [hd₁] using hd₂
  exact ht₁.symm.trans ht₂

/-- INTERNAL: a text that is held by every buffer from some size on. -/
theorem prints_of_holds (dtoa : Dtoa) (u : BitVec 64) (info info' : Info) (t : Bytes) (n : ℕ)
    (h : ∀ buf : Bytes, n ≤ buf.length → ∃ o, dtostr dtoa u buf info = some (o, info') ∧ Holds o buf.length t) :
    Prints dtoa u info t := by
  refine ⟨n + t.length, ?_⟩
  intro buf hbuf
  obtain ⟨o, ho, hlen, hret, htake⟩ := h buf (by omega)
  refine ⟨o, info', ho, hret, ?_⟩
  rw [hret, htake, List.take_of_length_le (by omega)]

/-! ## Mantissa and exponent -/

/-- The precision of a decimal conversion.
SOURCE: dietlibc-printf.patch:3867-3871 -/
def precision (info : Info) : ℕ := info.prec.getD 6

/-- A finite double. -/
def IsFinite (u : BitVec 64) : Prop := u &&& EXPOMASK ≠ EXPOMASK

instance (u : BitVec 64) : Decidable (IsFinite u) := inferInstanceAs (Decidable (_ ≠ _))

/-- The sign of a number.
SOURCE: dietlibc-printf.patch:3816-3817 -/
def signText (u : BitVec 64) : Bytes := if u &&& SIGNMASK ≠ 0#64 then [chr '-'] else []

/-- INTERNAL: the sign is one character at most. -/
theorem signText_length (u : BitVec 64) : (signText u).length ≤ 1 := by
  unfold signText
  split_ifs <;> simp

/-- The precision that is left for zeros behind the digits. -/
def restAfter (ds : Bytes) (decpt preci : ℤ) : ℤ :=
  let (_, i, preci) := integerPart ds decpt preci
  preci - (fractionDigits ds i preci).length

/-- The mantissa with its dot.
SOURCE: dietlibc-printf.patch:4020-4055 -/
def mantissaText (ds : Bytes) (decpt preci : ℤ) (keep : Bool) : Bytes :=
  let (front, i, left) := integerPart ds decpt preci
  front ++ fractionDigits ds i left ++
    if keep then List.replicate (restAfter ds decpt preci).toNat (chr '0') else []

/-- What a conversion prints behind the sign. -/
structure Layout where
  mantissa : Bytes
  exponent : Bytes
  /-- The specifier that is left in `info->spec`. -/
  spec : Spec
  /-- Whether zeros are printed behind the digits. -/
  keep : Bool
  /-- The precision that is left for zeros. -/
  rest : ℤ

/-- The text of a decimal conversion, whatever the buffer.
SOURCE: dietlibc-printf.patch:3988-4075 -/
def layout (dtoa : Dtoa) (u : BitVec 64) (info : Info) : Layout :=
  let preci : ℤ := precision info
  let (method, digits, trailingzeros, spec) := selectMode info.spec preci
  let (ds, decpt) := dtoa u method digits
  let style := if spec = .g ∧ (decpt ≤ -4 ∨ preci < decpt) then .e else spec
  let preci := if spec = .g ∧ decpt ≤ preci then preci - decpt else preci
  let point := if style = .e then 1 else decpt
  { mantissa := mantissaText ds point preci (trailingzeros || info.alt)
    exponent := if style = .e then exponentPart info.spec.upcase trailingzeros decpt else []
    spec := style
    keep := trailingzeros || info.alt
    rest := restAfter ds point preci }

/-- The precision was enough for the digits, or no zeros are printed. -/
def Layout.Sound (l : Layout) : Prop := l.keep = true → 0 ≤ l.rest

/-- What is printed into a buffer of some size. -/
def textFor (dtoa : Dtoa) (u : BitVec 64) (info : Info) (size : ℕ) : Bytes :=
  cutDot info.alt size (signText u ++ (layout dtoa u info).mantissa) ++ (layout dtoa u info).exponent

/-- What is printed into a buffer that is large enough. -/
def fullText (dtoa : Dtoa) (u : BitVec 64) (info : Info) : Bytes :=
  cutDot info.alt (signText u ++ (layout dtoa u info).mantissa).length
    (signText u ++ (layout dtoa u info).mantissa) ++ (layout dtoa u info).exponent

/-- INTERNAL: a mantissa has a dot.
SOURCE: dietlibc-printf.patch:4020-4032 -/
theorem mantissaText_ne_nil (ds : Bytes) (decpt preci : ℤ) (keep : Bool) :
    mantissaText ds decpt preci keep ≠ [] := by
  unfold mantissaText integerPart
  split_ifs <;> simp

/-- INTERNAL: the decimal conversions print their layout.
SOURCE: dietlibc-printf.patch:3988-4079 -/
theorem formatDecimal_text (dtoa : Dtoa) (u : BitVec 64) (info : Info) (o : Out) (size : ℕ) (t : Bytes)
    (h : Holds o size t) (hsound : (layout dtoa u info).Sound) :
    ∃ o', formatDecimal dtoa u info.spec.upcase (precision info) info o =
        some (o', (layout dtoa u info).spec) ∧
      Holds o' size (cutDot info.alt size (t ++ (layout dtoa u info).mantissa) ++
        (layout dtoa u info).exponent) := by
  revert hsound
  unfold Layout.Sound layout formatDecimal
  dsimp only
  generalize selectMode info.spec (precision info : ℤ) = mode
  obtain ⟨method, digits, trailingzeros, spec⟩ := mode
  simp only
  generalize dtoa u method digits = result
  obtain ⟨ds, decpt⟩ := result
  simp only
  generalize (if spec = .g ∧ (decpt ≤ -4 ∨ (precision info : ℤ) < decpt) then .e else spec) = style
  generalize (if spec = .g ∧ decpt ≤ (precision info : ℤ) then (precision info : ℤ) - decpt
    else precision info) = preci
  generalize (if style = .e then 1 else decpt) = point
  have hne := mantissaText_ne_nil ds point preci (trailingzeros || info.alt)
  revert hne
  unfold mantissaText restAfter
  generalize integerPart ds point preci = parts
  obtain ⟨front, i, left⟩ := parts
  simp only
  intro hne hsound
  have hdigits := puts_holds (fractionDigits ds i left) _ size _ (puts_holds front o size t h)
  obtain ⟨o₁, ho₁, hzeros⟩ := trailingZeros_holds _ size _ (trailingzeros || info.alt)
    (left - (fractionDigits ds i left).length) hdigits hsound
  rw [List.append_assoc, List.append_assoc, ← List.append_assoc front] at hzeros
  obtain ⟨o₂, ho₂, hdot⟩ := cutDot_holds info.alt o₁ size _ hzeros (by
    intro hnil
    exact hne (List.append_eq_nil_iff.mp hnil).2)
  refine ⟨if style = .e then o₂.puts (exponentPart info.spec.upcase trailingzeros decpt) else o₂, ?_, ?_⟩
  · rw [ho₁, Option.bind_eq_bind, Option.bind_some, ho₂]
    rfl
  · by_cases he : style = .e
    · rw [if_pos he, if_pos he]
      exact puts_holds _ o₂ size _ hdot
    · rw [if_neg he, if_neg he, List.append_nil]
      exact hdot

/-- INTERNAL: the sign is stored, or nothing.
SOURCE: dietlibc-printf.patch:3816-3817 -/
theorem signCheck_holds (u : BitVec 64) (buf : Bytes) (hbuf : (signText u).length ≤ buf.length) :
    ∃ o, signCheck u buf = some o ∧ Holds o buf.length (signText u) := by
  unfold signText at hbuf
  unfold signCheck signText
  by_cases hneg : u &&& SIGNMASK ≠ 0#64
  · rw [if_pos hneg] at hbuf
    rw [if_pos hneg, if_pos hneg]
    exact push_holds _ _ [] (chr '-') (holds_nil buf) hbuf
  · rw [if_neg hneg, if_neg hneg]
    exact ⟨_, rfl, holds_nil buf⟩

/-- INTERNAL: **`__dtostr` prints the text of its conversion** and counts it, as much of it as
the buffer takes.
SOURCE: dietlibc-printf.patch:3761-4080 -/
theorem dtostr_text (dtoa : Dtoa) (u : BitVec 64) (info : Info) (buf : Bytes) (hfin : IsFinite u)
    (ha : info.spec ≠ .a) (hA : info.spec ≠ .A) (hsound : (layout dtoa u info).Sound)
    (hbuf : (signText u).length ≤ buf.length) :
    ∃ o, dtostr dtoa u buf info = some (o, { info with spec := (layout dtoa u info).spec }) ∧
      Holds o buf.length (textFor dtoa u info buf.length) := by
  have hfin' : ¬ u &&& EXPOMASK = EXPOMASK := hfin
  have hhex : ¬ (info.spec = .a ∨ info.spec = .A) := by simp [ha, hA]
  obtain ⟨o₁, ho₁, hsign⟩ := signCheck_holds u buf hbuf
  obtain ⟨o₂, ho₂, htext⟩ := formatDecimal_text dtoa u info o₁ buf.length _ hsign hsound
  refine ⟨o₂, ?_, htext⟩
  unfold precision at ho₂
  unfold dtostr
  simp only [if_neg hfin', if_neg hhex, ho₁, ho₂, Option.bind_eq_bind, Option.bind_some]

/-- INTERNAL: letters are stored where there is room. -/
theorem pushes_holds (cs : Bytes) (o : Out) (size : ℕ) (t : Bytes) (h : Holds o size t)
    (hroom : t.length + cs.length ≤ size) :
    ∃ o', o.pushes cs = some o' ∧ Holds o' size (t ++ cs) := by
  induction cs generalizing o t with
  | nil => exact ⟨o, rfl, by simpa using h⟩
  | cons c cs ih =>
    simp only [List.length_cons] at hroom
    obtain ⟨o₁, ho₁, h₁⟩ := push_holds o size t c h (by omega)
    obtain ⟨o₂, ho₂, h₂⟩ := ih o₁ (t ++ [c]) h₁ (by simp; omega)
    refine ⟨o₂, ?_, by simpa [List.append_assoc] using h₂⟩
    rw [Out.pushes, ho₁]
    exact ho₂

/-- The text of a number that is not finite. -/
def specialText (u : BitVec 64) (upcase : Bool) : Bytes :=
  if u &&& MANTMASK ≠ 0#64 then [cased upcase 'n', cased upcase 'a', cased upcase 'n']
  else signText u ++ [cased upcase 'i', cased upcase 'n', cased upcase 'f']

/-- INTERNAL: a number that is not finite takes at most four characters.
SOURCE: dietlibc-printf.patch:3819-3830 -/
theorem specialText_length (u : BitVec 64) (upcase : Bool) : (specialText u upcase).length ≤ 4 := by
  unfold specialText signText
  split_ifs <;> simp

/-- INTERNAL: the names of infinities and NaNs have three characters or more. -/
theorem three_le_specialText (u : BitVec 64) (upcase : Bool) : 3 ≤ (specialText u upcase).length := by
  unfold specialText
  split_ifs <;> simp

/-- INTERNAL: `__dtostr` on a number that is not finite.
SOURCE: dietlibc-printf.patch:3819-3830 -/
theorem dtostr_special (dtoa : Dtoa) (u : BitVec 64) (info : Info) (buf : Bytes) (hfin : ¬ IsFinite u)
    (hbuf : (specialText u info.spec.upcase).length ≤ buf.length) :
    ∃ o, dtostr dtoa u buf info = some (o, info) ∧
      Holds o buf.length (specialText u info.spec.upcase) := by
  have hfin' : u &&& EXPOMASK = EXPOMASK := not_not.mp hfin
  have hone := signText_length u
  have hthree := three_le_specialText u info.spec.upcase
  obtain ⟨o₁, ho₁, hsign⟩ := signCheck_holds u buf (by omega)
  obtain ⟨o₂, ho₂, h₂⟩ : ∃ o₂, infNan u info.spec.upcase o₁ = some o₂ ∧
      Holds o₂ buf.length (specialText u info.spec.upcase) := by
    unfold specialText at hbuf
    unfold infNan specialText
    by_cases hnan : u &&& MANTMASK ≠ 0#64
    · rw [if_pos hnan] at hbuf
      rw [if_pos hnan, if_pos hnan]
      have hstart : Holds ⟨o₁.buf, 0⟩ buf.length [] := hsign.1 ▸ holds_nil o₁.buf
      exact pushes_holds _ _ buf.length [] hstart (by rw [List.length_nil, Nat.zero_add]; exact hbuf)
    · rw [if_neg hnan, List.length_append] at hbuf
      rw [if_neg hnan, if_neg hnan]
      exact pushes_holds _ o₁ buf.length _ hsign hbuf
  refine ⟨o₂, ?_, h₂⟩
  unfold dtostr
  simp only [if_pos hfin', ho₁, ho₂, Option.bind_eq_bind, Option.bind_some]

/-! ## Texts and sizes -/

/-- INTERNAL: a point is cut off where the whole text has room. -/
theorem cutDot_of_le (alt : Bool) (size : ℕ) (t : Bytes) (h : t.length ≤ size) :
    cutDot alt size t = cutDot alt t.length t := by
  unfold cutDot
  simp only [Nat.not_lt.mpr h, lt_irrefl]

/-- INTERNAL: and not where it has none. -/
theorem cutDot_of_lt (alt : Bool) (size : ℕ) (t : Bytes) (h : size < t.length) : cutDot alt size t = t := by
  unfold cutDot
  rw [if_pos (Or.inr h)]

/-- INTERNAL: nothing is added. -/
theorem cutDot_length_le (alt : Bool) (size : ℕ) (t : Bytes) : (cutDot alt size t).length ≤ t.length := by
  unfold cutDot withoutDot
  split_ifs
  · exact le_refl _
  · rw [List.length_dropLast]
    omega
  · exact le_refl _

/-- INTERNAL: at most one character is removed. -/
theorem length_le_cutDot (alt : Bool) (size : ℕ) (t : Bytes) : t.length ≤ (cutDot alt size t).length + 1 := by
  unfold cutDot withoutDot
  split_ifs
  · omega
  · rw [List.length_dropLast]
    omega
  · omega

/-- INTERNAL: a text that fits is the whole text.
SOURCE: dietlibc-printf.patch:4057-4058 -/
theorem textFor_of_fits (dtoa : Dtoa) (u : BitVec 64) (info : Info) (size : ℕ)
    (h : (textFor dtoa u info size).length ≤ size) : textFor dtoa u info size = fullText dtoa u info := by
  unfold textFor at h ⊢
  unfold fullText
  rw [cutDot_of_le]
  by_contra hlt
  rw [cutDot_of_lt _ _ _ (by omega), List.length_append] at h
  omega

/-- INTERNAL: a text that was counted once fits into a buffer of that size.
SOURCE: dietlibc-printf.patch:342-348 -/
theorem textFor_retry (dtoa : Dtoa) (u : BitVec 64) (info : Info) (size : ℕ)
    (h : size < (textFor dtoa u info size).length) :
    textFor dtoa u info (textFor dtoa u info size).length = fullText dtoa u info ∧
      (fullText dtoa u info).length ≤ (textFor dtoa u info size).length := by
  generalize hn : (textFor dtoa u info size).length = n at h ⊢
  unfold textFor at hn
  unfold textFor fullText
  generalize signText u ++ (layout dtoa u info).mantissa = m at hn ⊢
  generalize (layout dtoa u info).exponent = x at hn ⊢
  by_cases hlt : size < m.length
  · rw [cutDot_of_lt _ _ _ hlt, List.length_append] at hn
    have hcut := cutDot_length_le info.alt m.length m
    rw [cutDot_of_le _ n m (by omega), List.length_append]
    exact ⟨rfl, by omega⟩
  · rw [cutDot_of_le _ _ _ (by omega : m.length ≤ size)] at hn
    rw [cutDot_of_le _ n m (by omega), hn]
    exact ⟨rfl, le_refl n⟩

end TTLinux.Analysis.PrintfLayout
