import Mathlib.Data.List.DropRight
import Mathlib.Data.Nat.Digits.Lemmas
import Mathlib.Tactic.Linarith
import Mathlib.Tactic.Ring

/-!
# Numbers of several words

A number in words of base `B`, the lowest first, is worth `Nat.ofDigits B`. The loops that programs compute with on such
numbers: multiply by a word and add one, accumulate a row of a product, subtract with a borrow, subtract a multiple, shift
by bits, and compare from the top. Every step is done in a double word, which is counted modulo `B * B`; that no step
exceeds it is part of the results.
-/

set_option autoImplicit false

namespace TTLinux.Lib.Limbs

open Nat (ofDigits)

variable (B : ℕ)

/-- The words are words. -/
def Words (ws : List ℕ) : Prop := ∀ w ∈ ws, w < B

variable {B}

/-- INTERNAL: no words. -/
@[simp] theorem words_nil : Words B [] := fun _ h => absurd h List.not_mem_nil

/-- INTERNAL: one more word. -/
@[simp] theorem words_cons (w : ℕ) (ws : List ℕ) : Words B (w :: ws) ↔ w < B ∧ Words B ws := List.forall_mem_cons

/-- INTERNAL: the words of two parts. -/
@[simp] theorem words_append (ws vs : List ℕ) : Words B (ws ++ vs) ↔ Words B ws ∧ Words B vs := List.forall_mem_append

/-- INTERNAL: the value of words is bounded by their number. -/
theorem Words.lt {ws : List ℕ} (h : Words B ws) (hB : 1 < B) : ofDigits B ws < B ^ ws.length :=
  Nat.ofDigits_lt_base_pow_length hB h

/-- INTERNAL: zeros are words. -/
theorem words_replicate_zero (n : ℕ) (hB : 0 < B) : Words B (List.replicate n 0) := by
  intro w hw
  rw [List.eq_of_mem_replicate hw]
  exact hB

/-- INTERNAL: a number whose highest word is not zero is at least that word in its place. -/
theorem pow_le_ofDigits (ws : List ℕ) (hne : ws ≠ []) (htop : ws.getLast hne ≠ 0) :
    B ^ (ws.length - 1) ≤ ofDigits B ws := by
  rw [← List.dropLast_append_getLast hne, Nat.ofDigits_append, Nat.ofDigits_singleton, List.length_append,
    List.length_singleton, Nat.add_sub_cancel]
  calc B ^ ws.dropLast.length ≤ B ^ ws.dropLast.length * ws.getLast hne :=
        Nat.le_mul_of_pos_right _ (Nat.pos_of_ne_zero htop)
    _ ≤ _ := Nat.le_add_left _ _

/-- INTERNAL: the highest words that are zero can be left out. -/
theorem rdropWhile_zero (ws : List ℕ) :
    ws.take (ws.rdropWhile (· = 0)).length = ws.rdropWhile (· = 0) ∧
      ofDigits B (ws.rdropWhile (· = 0)) = ofDigits B ws := by
  refine ⟨(List.prefix_iff_eq_take.mp (List.rdropWhile_prefix _ ws)).symm, ?_⟩
  induction ws using List.reverseRecOn with
  | nil => rfl
  | append_singleton ws w ih =>
    rw [List.rdropWhile_concat]
    split_ifs with hw
    · rw [decide_eq_true_eq] at hw
      rw [ih, hw, Nat.ofDigits_append_zero]
    · rfl

/-- INTERNAL: a double word holds a product of two words and two more words. -/
theorem wide_lt (x y c d : ℕ) (hx : x < B) (hy : y < B) (hc : c < B) (hd : d < B) : x * y + c + d < B * B := by
  obtain ⟨b, rfl⟩ : ∃ b, B = b + 1 := ⟨B - 1, by omega⟩
  have hmul : x * y ≤ b * b := Nat.mul_le_mul (by omega) (by omega)
  calc x * y + c + d ≤ b * b + b + b := by omega
    _ < (b + 1) * (b + 1) := by linarith [show (b + 1) * (b + 1) = b * b + b + b + 1 by ring]

/-! ## Multiplication by a word -/

variable (B) in
/-- `y = *x * m + carry; carry = y / B; *x++ = y % B`. -/
def mulAdd (m : ℕ) : List ℕ → ℕ → List ℕ × ℕ
  | [], carry => ([], carry)
  | x :: xs, carry =>
    let y := (x * m + carry) % (B * B)
    let r := mulAdd m xs (y / B)
    (y % B :: r.1, r.2)

/-- INTERNAL: multiplying keeps the number of words. -/
theorem mulAdd_length (m : ℕ) (xs : List ℕ) (carry : ℕ) : (mulAdd B m xs carry).1.length = xs.length := by
  induction xs generalizing carry with
  | nil => rfl
  | cons x xs ih => rw [mulAdd, List.length_cons, ih, List.length_cons]

/-- INTERNAL: and gives words. -/
theorem mulAdd_words (m : ℕ) (xs : List ℕ) (carry : ℕ) (hB : 0 < B) : Words B (mulAdd B m xs carry).1 := by
  induction xs generalizing carry with
  | nil => exact words_nil
  | cons x xs ih =>
    rw [mulAdd, words_cons]
    exact ⟨Nat.mod_lt _ hB, ih _⟩

/-- INTERNAL: **the words and the carry are the product and the word that is added.** -/
theorem mulAdd_value (m : ℕ) (xs : List ℕ) (carry : ℕ) (hm : m < B) (hxs : Words B xs) (hc : carry < B) :
    ofDigits B (mulAdd B m xs carry).1 + B ^ xs.length * (mulAdd B m xs carry).2 = m * ofDigits B xs + carry ∧
      (mulAdd B m xs carry).2 < B := by
  induction xs generalizing carry with
  | nil => exact ⟨by simp [mulAdd], hc⟩
  | cons x xs ih =>
    obtain ⟨hx, hxs⟩ := (words_cons x xs).mp hxs
    have hwide : (x * m + carry) % (B * B) = x * m + carry := by
      have h := wide_lt x m carry 0 hx hm hc (by omega)
      exact Nat.mod_eq_of_lt (by omega)
    have hcarry : (x * m + carry) / B < B := by
      rw [Nat.div_lt_iff_lt_mul (by omega)]
      have h := wide_lt x m carry 0 hx hm hc (by omega)
      omega
    obtain ⟨hvalue, hlt⟩ := ih ((x * m + carry) / B) hxs hcarry
    have hdiv := Nat.mod_add_div (x * m + carry) B
    simp only [mulAdd, hwide]
    refine ⟨?_, hlt⟩
    rw [Nat.ofDigits_cons, Nat.ofDigits_cons, List.length_cons, pow_succ]
    calc _ = (x * m + carry) % B + B * (ofDigits B (mulAdd B m xs ((x * m + carry) / B)).1 +
            B ^ xs.length * (mulAdd B m xs ((x * m + carry) / B)).2) := by ring
      _ = (x * m + carry) % B + B * ((x * m + carry) / B) + B * (m * ofDigits B xs) := by
          rw [hvalue]
          ring
      _ = _ := by
          rw [hdiv]
          ring

/-! ## A product -/

variable (B) in
/-- `z = *x++ * y + *xc + carry; carry = z / B; *xc++ = z % B` for all words, then `*xc = carry`. -/
def mulAcc (y : ℕ) : List ℕ → List ℕ → ℕ → Option (List ℕ)
  | [], [], _ => none
  | [], _ :: cs, carry => some (carry :: cs)
  | _ :: _, [], _ => none
  | x :: xs, c :: cs, carry =>
    let z := (x * y + c + carry) % (B * B)
    (mulAcc y xs cs (z / B)).map (z % B :: ·)

variable (B) in
/-- The rows of a product: one for every word that is not zero, each a word further up. -/
def mulRows (xs : List ℕ) : List ℕ → List ℕ → Option (List ℕ)
  | [], cs => some cs
  | y :: ys, cs =>
    match if y = 0 then some cs else mulAcc B y xs cs 0 with
    | some (c :: cs) => (mulRows xs ys cs).map (c :: ·)
    | _ => none

/-- INTERNAL: **a row adds its product**, if the word that takes the carry is still zero. -/
theorem mulAcc_value (y : ℕ) (xs cs : List ℕ) (carry : ℕ) (hy : y < B) (hxs : Words B xs) (hcs : Words B cs)
    (hc : carry < B) (hroom : xs.length < cs.length) (hfresh : ∀ c ∈ cs.drop xs.length, c = 0) :
    ∃ rs, mulAcc B y xs cs carry = some rs ∧ rs.length = cs.length ∧ Words B rs ∧
      ofDigits B rs = ofDigits B cs + y * ofDigits B xs + carry ∧ ∀ c ∈ rs.drop (xs.length + 1), c = 0 := by
  induction xs generalizing cs carry with
  | nil =>
    obtain _ | ⟨c, cs⟩ := cs
    · simp at hroom
    · obtain ⟨-, hcs⟩ := (words_cons c cs).mp hcs
      have hzero : c = 0 := hfresh c (by simp)
      refine ⟨carry :: cs, rfl, rfl, (words_cons _ _).mpr ⟨hc, hcs⟩, ?_, fun d hd => hfresh d ?_⟩
      · rw [Nat.ofDigits_cons, Nat.ofDigits_cons, hzero]
        simp [Nat.add_comm]
      · exact List.mem_cons_of_mem _ (by simpa using hd)
  | cons x xs ih =>
    obtain _ | ⟨c, cs⟩ := cs
    · simp at hroom
    · obtain ⟨hx, hxs⟩ := (words_cons x xs).mp hxs
      obtain ⟨hc', hcs⟩ := (words_cons c cs).mp hcs
      have hwide := wide_lt x y c carry hx hy hc' hc
      have hcarry : (x * y + c + carry) / B < B := (Nat.div_lt_iff_lt_mul (by omega)).mpr hwide
      obtain ⟨rs, hrs, hlength, hwords, hvalue, hrest⟩ := ih cs ((x * y + c + carry) / B) hxs hcs hcarry
        (by simpa using hroom) (by simpa using hfresh)
      have hdiv := Nat.mod_add_div (x * y + c + carry) B
      refine ⟨(x * y + c + carry) % B :: rs, ?_, by simp [hlength], ?_, ?_, by simpa using hrest⟩
      · simp only [mulAcc, Nat.mod_eq_of_lt hwide, hrs, Option.map_some]
      · exact (words_cons _ _).mpr ⟨Nat.mod_lt _ (by omega), hwords⟩
      · simp only [Nat.ofDigits_cons, hvalue]
        calc _ = (x * y + c + carry) % B + B * ((x * y + c + carry) / B) + B * (ofDigits B cs + y * ofDigits B xs) := by
              ring
          _ = _ := by
              rw [hdiv]
              ring

/-- INTERNAL: **the rows add up to the product**, and never leave the words that are there for it. -/
theorem mulRows_value (xs ys cs : List ℕ) (hxs : Words B xs) (hys : Words B ys) (hcs : Words B cs)
    (hlength : cs.length = xs.length + ys.length) (hfresh : ∀ c ∈ cs.drop xs.length, c = 0) :
    ∃ rs, mulRows B xs ys cs = some rs ∧ rs.length = cs.length ∧ Words B rs ∧
      ofDigits B rs = ofDigits B cs + ofDigits B xs * ofDigits B ys := by
  induction ys generalizing cs with
  | nil => exact ⟨cs, rfl, rfl, hcs, by simp⟩
  | cons y ys ih =>
    obtain ⟨hy, hys⟩ := (words_cons y ys).mp hys
    rw [List.length_cons] at hlength
    have hrow : ∃ rs, (if y = 0 then some cs else mulAcc B y xs cs 0) = some rs ∧ rs.length = cs.length ∧ Words B rs ∧
        ofDigits B rs = ofDigits B cs + y * ofDigits B xs ∧ ∀ c ∈ rs.drop (xs.length + 1), c = 0 := by
      split_ifs with hzero
      · refine ⟨cs, rfl, rfl, hcs, by rw [hzero]; ring, fun c hc => hfresh c ?_⟩
        rw [show cs.drop (xs.length + 1) = (cs.drop xs.length).drop 1 by rw [List.drop_drop]] at hc
        exact List.mem_of_mem_drop hc
      · simpa using mulAcc_value y xs cs 0 hy hxs hcs (by omega) (by omega) hfresh
    obtain ⟨rs, hrs, hrslength, hwords, hvalue, hrest⟩ := hrow
    obtain _ | ⟨r, rs⟩ := rs
    · simp at hrslength
      omega
    · obtain ⟨hr, hwords⟩ := (words_cons r rs).mp hwords
      obtain ⟨ts, hts, htslength, htswords, htsvalue⟩ := ih rs hys hwords
        (by rw [List.length_cons] at hrslength; omega) (by simpa using hrest)
      refine ⟨r :: ts, ?_, ?_, (words_cons _ _).mpr ⟨hr, htswords⟩, ?_⟩
      · simp only [mulRows, hrs, hts, Option.map_some]
      · rw [List.length_cons, htslength, ← hrslength, List.length_cons]
      · rw [Nat.ofDigits_cons, htsvalue, Nat.ofDigits_cons]
        rw [Nat.ofDigits_cons] at hvalue
        calc _ = (r + B * ofDigits B rs) + B * (ofDigits B xs * ofDigits B ys) := by ring
          _ = _ := by
              rw [hvalue]
              ring

/-! ## Subtraction -/

variable (B) in
/-- `ys = *sx++ * q + carry; carry = ys / B; y = *bx - ys % B - borrow; borrow = y / B & 1; *bx++ = y % B`: subtract a
multiple. The rest are the words, the carry and the borrow. -/
def mulSub (q : ℕ) : List ℕ → List ℕ → ℕ → ℕ → List ℕ × ℕ × ℕ
  | s :: ss, b :: bs, carry, borrow =>
    let ys := (s * q + carry) % (B * B)
    let y := (b + (B * B - (ys % B + borrow))) % (B * B)
    let r := mulSub q ss bs (ys / B) (y / B % 2)
    (y % B :: r.1, r.2)
  | _, _, carry, borrow => ([], carry, borrow)

variable (B) in
/-- `y = *xa++ - *xb++ - borrow; borrow = y / B & 1; *xc++ = y % B` for all words of the second number, then
`y = *xa++ - borrow` for the other words of the first. -/
def subBorrow : List ℕ → List ℕ → ℕ → List ℕ × ℕ
  | a :: xa, b :: xb, borrow =>
    let y := (a + (B * B - (b + borrow))) % (B * B)
    let r := subBorrow xa xb (y / B % 2)
    (y % B :: r.1, r.2)
  | a :: xa, [], borrow =>
    let y := (a + (B * B - borrow)) % (B * B)
    let r := subBorrow xa [] (y / B % 2)
    (y % B :: r.1, r.2)
  | [], _, borrow => ([], borrow)

/-- INTERNAL: the lower word of a difference in a double word, and the bit above it. -/
theorem borrow_spec (a b borrow : ℕ) (hB : 2 ∣ B) (ha : a < B) (hb : b < B) (hborrow : borrow ≤ 1) :
    (a + (B * B - (b + borrow))) % (B * B) % B + b + borrow =
        a + B * ((a + (B * B - (b + borrow))) % (B * B) / B % 2) ∧
      (a + (B * B - (b + borrow))) % (B * B) / B % 2 ≤ 1 := by
  refine ⟨?_, by omega⟩
  have hsquare : B + B ≤ B * B := by nlinarith [Nat.le_of_dvd (by omega) hB]
  by_cases hle : b + borrow ≤ a
  · have hwide : (a + (B * B - (b + borrow))) % (B * B) = a - (b + borrow) := by
      rw [show a + (B * B - (b + borrow)) = (a - (b + borrow)) + B * B by omega, Nat.add_mod_right]
      exact Nat.mod_eq_of_lt (by omega)
    rw [hwide, Nat.mod_eq_of_lt (show a - (b + borrow) < B by omega),
      Nat.div_eq_of_lt (show a - (b + borrow) < B by omega)]
    omega
  · have hwide : (a + (B * B - (b + borrow))) % (B * B) = B * (B - 1) + (B - (b + borrow - a)) := by
      rw [Nat.mod_eq_of_lt (by omega), Nat.mul_sub, Nat.mul_one]
      omega
    obtain ⟨h, hh⟩ := hB
    by_cases hfull : b + borrow - a = B
    · rw [hwide, hfull, Nat.sub_self, Nat.add_zero, Nat.mul_mod_right, Nat.mul_div_cancel_left _ (by omega)]
      rw [show (B - 1) % 2 = 1 by omega]
      omega
    · rw [hwide, Nat.mul_add_mod, Nat.mod_eq_of_lt (show B - (b + borrow - a) < B by omega),
        Nat.mul_add_div (by omega), Nat.div_eq_of_lt (show B - (b + borrow - a) < B by omega)]
      rw [show (B - 1 + 0) % 2 = 1 by omega]
      omega

/-- INTERNAL: so does subtracting a multiple. -/
theorem mulSub_length (q : ℕ) (ss bs : List ℕ) (carry borrow : ℕ) (hlength : ss.length = bs.length) :
    (mulSub B q ss bs carry borrow).1.length = bs.length := by
  induction ss generalizing bs carry borrow with
  | nil =>
    rw [List.length_nil] at hlength
    rw [mulSub, ← hlength, List.length_nil]
    simp
  | cons s ss ih =>
    obtain _ | ⟨b, bs⟩ := bs
    · simp at hlength
    · rw [mulSub, List.length_cons, ih bs _ _ (by simpa using hlength), List.length_cons]

/-- INTERNAL: which gives words as well. -/
theorem mulSub_words (q : ℕ) (ss bs : List ℕ) (carry borrow : ℕ) (hB : 0 < B) :
    Words B (mulSub B q ss bs carry borrow).1 := by
  induction ss generalizing bs carry borrow with
  | nil =>
    rw [mulSub]
    · exact words_nil
    · simp
  | cons s ss ih =>
    obtain _ | ⟨b, bs⟩ := bs
    · rw [mulSub]
      · exact words_nil
      · simp
    · rw [mulSub, words_cons]
      exact ⟨Nat.mod_lt _ hB, ih _ _ _⟩

/-- INTERNAL: **the words that are left, the multiple and what is carried out are the number.** -/
theorem mulSub_value (q : ℕ) (ss bs : List ℕ) (carry borrow : ℕ) (hB : 2 ∣ B) (hq : q < B) (hss : Words B ss)
    (hbs : Words B bs) (hlength : ss.length = bs.length) (hc : carry < B) (hborrow : borrow ≤ 1) :
    ofDigits B (mulSub B q ss bs carry borrow).1 + q * ofDigits B ss + carry + borrow =
      ofDigits B bs + B ^ bs.length *
        ((mulSub B q ss bs carry borrow).2.1 + (mulSub B q ss bs carry borrow).2.2) := by
  induction ss generalizing bs carry borrow with
  | nil =>
    obtain rfl : bs = [] := List.eq_nil_of_length_eq_zero hlength.symm
    simp [mulSub]
  | cons s ss ih =>
    obtain _ | ⟨b, bs⟩ := bs
    · simp at hlength
    · obtain ⟨hs, hss⟩ := (words_cons s ss).mp hss
      obtain ⟨hb, hbs⟩ := (words_cons b bs).mp hbs
      have hwide := wide_lt s q carry 0 hs hq hc (by omega)
      rw [Nat.add_zero] at hwide
      have hcarry : (s * q + carry) / B < B := (Nat.div_lt_iff_lt_mul (by omega)).mpr hwide
      obtain ⟨hstep, hnext⟩ := borrow_spec b ((s * q + carry) % B) borrow hB hb (Nat.mod_lt _ (by omega)) hborrow
      have hrest := ih bs ((s * q + carry) / B) _ hss hbs (by simpa using hlength) hcarry hnext
      have hdiv := Nat.mod_add_div (s * q + carry) B
      simp only [mulSub, Nat.mod_eq_of_lt hwide, Nat.ofDigits_cons, List.length_cons, pow_succ]
      generalize hy : (b + (B * B - ((s * q + carry) % B + borrow))) % (B * B) = y at hstep hrest ⊢
      generalize mulSub B q ss bs ((s * q + carry) / B) (y / B % 2) = r at hrest ⊢
      calc _ = (y % B + (s * q + carry) % B + borrow) + B * (ofDigits B r.1 + q * ofDigits B ss) +
              (s * q + carry - (s * q + carry) % B) := by
            have := Nat.mod_le (s * q + carry) B
            have hsplit : s * q + carry = (s * q + carry) % B + (s * q + carry - (s * q + carry) % B) := by omega
            linarith [Nat.mul_comm s q]
        _ = b + B * (ofDigits B r.1 + q * ofDigits B ss + (s * q + carry) / B + y / B % 2) := by
            rw [hstep, show s * q + carry - (s * q + carry) % B = B * ((s * q + carry) / B) by omega]
            ring
        _ = _ := by
            rw [hrest]
            ring

/-- INTERNAL: and subtracting. -/
theorem subBorrow_length (xa xb : List ℕ) (borrow : ℕ) : (subBorrow B xa xb borrow).1.length = xa.length := by
  induction xa generalizing xb borrow with
  | nil => rw [subBorrow]
  | cons a xa ih => cases xb <;> rw [subBorrow, List.length_cons, ih, List.length_cons]

/-- INTERNAL: which also gives words. -/
theorem subBorrow_words (xa xb : List ℕ) (borrow : ℕ) (hB : 0 < B) : Words B (subBorrow B xa xb borrow).1 := by
  induction xa generalizing xb borrow with
  | nil =>
    rw [subBorrow]
    exact words_nil
  | cons a xa ih =>
    cases xb <;>
    · rw [subBorrow, words_cons]
      exact ⟨Nat.mod_lt _ hB, ih _ _⟩

/-- INTERNAL: **the difference, the subtrahend and the borrow are the minuend.** -/
theorem subBorrow_value (xa xb : List ℕ) (borrow : ℕ) (hB : 2 ∣ B) (hxa : Words B xa) (hxb : Words B xb)
    (hlength : xb.length ≤ xa.length) (hborrow : borrow ≤ 1) :
    ofDigits B (subBorrow B xa xb borrow).1 + ofDigits B xb + borrow =
      ofDigits B xa + B ^ xa.length * (subBorrow B xa xb borrow).2 := by
  induction xa generalizing xb borrow with
  | nil =>
    obtain rfl : xb = [] := List.eq_nil_of_length_eq_zero (by simpa using hlength)
    simp [subBorrow]
  | cons a xa ih =>
    obtain ⟨ha, hxa⟩ := (words_cons a xa).mp hxa
    obtain _ | ⟨b, xb⟩ := xb
    · obtain ⟨hstep, hnext⟩ := borrow_spec a 0 borrow hB ha (by omega) hborrow
      have hrest := ih [] _ hxa words_nil (by simp) hnext
      rw [Nat.zero_add] at hstep hrest
      simp only [subBorrow, Nat.ofDigits_cons, Nat.ofDigits_nil, List.length_cons, pow_succ, Nat.add_zero] at hstep hrest ⊢
      generalize (a + (B * B - borrow)) % (B * B) = y at hstep hrest ⊢
      generalize subBorrow B xa [] (y / B % 2) = r at hrest ⊢
      calc _ = (y % B + borrow) + B * ofDigits B r.1 := by ring
        _ = a + B * (ofDigits B r.1 + y / B % 2) := by
            rw [hstep]
            ring
        _ = _ := by
            rw [hrest]
            ring
    · obtain ⟨hb, hxb⟩ := (words_cons b xb).mp hxb
      obtain ⟨hstep, hnext⟩ := borrow_spec a b borrow hB ha hb hborrow
      have hrest := ih xb _ hxa hxb (by simpa using hlength) hnext
      simp only [subBorrow, Nat.ofDigits_cons, List.length_cons, pow_succ]
      generalize (a + (B * B - (b + borrow))) % (B * B) = y at hstep hrest ⊢
      generalize subBorrow B xa xb (y / B % 2) = r at hrest ⊢
      calc _ = (y % B + b + borrow) + B * (ofDigits B r.1 + ofDigits B xb) := by ring
        _ = a + B * (ofDigits B r.1 + ofDigits B xb + y / B % 2) := by
            rw [hstep]
            ring
        _ = _ := by
            rw [hrest]
            ring

/-! ## Shifts -/

/-- `*x1++ = *x << k | z; z = *x++ >> (w - k)`, in words of `w` bits. -/
def shiftBits (w k : ℕ) : List ℕ → ℕ → List ℕ × ℕ
  | [], z => ([], z)
  | x :: xs, z =>
    let r := shiftBits w k xs (x >>> (w - k))
    (((x <<< k) % 2 ^ w ||| z) :: r.1, r.2)

/-- INTERNAL: and shifting. -/
theorem shiftBits_length (w k : ℕ) (xs : List ℕ) (z : ℕ) : (shiftBits w k xs z).1.length = xs.length := by
  induction xs generalizing z with
  | nil => rfl
  | cons x xs ih => rw [shiftBits, List.length_cons, ih, List.length_cons]

/-- INTERNAL: one word, shifted with the bits of the word below. -/
theorem shift_word (w k x z : ℕ) (hk : k ≤ w) (hz : z < 2 ^ k) :
    (x <<< k) % 2 ^ w ||| z = x % 2 ^ (w - k) * 2 ^ k + z := by
  have hmod : (x <<< k) % 2 ^ w = x % 2 ^ (w - k) * 2 ^ k := by
    rw [Nat.shiftLeft_eq, ← Nat.mul_mod_mul_right, ← pow_add, Nat.sub_add_cancel hk]
  rw [hmod, ← Nat.shiftLeft_eq, Nat.shiftLeft_add_eq_or_of_lt hz]

/-- INTERNAL: **a shift by bits multiplies by their power of two.** -/
theorem shiftBits_value (w k : ℕ) (xs : List ℕ) (z : ℕ) (hk : k ≤ w) (hxs : Words (2 ^ w) xs) (hz : z < 2 ^ k) :
    ofDigits (2 ^ w) (shiftBits w k xs z).1 + (2 ^ w) ^ xs.length * (shiftBits w k xs z).2 =
        2 ^ k * ofDigits (2 ^ w) xs + z ∧
      Words (2 ^ w) (shiftBits w k xs z).1 ∧ (shiftBits w k xs z).2 < 2 ^ k := by
  induction xs generalizing z with
  | nil => exact ⟨by simp [shiftBits], words_nil, hz⟩
  | cons x xs ih =>
    obtain ⟨hx, hxs⟩ := (words_cons x xs).mp hxs
    have hpow : 2 ^ w = 2 ^ (w - k) * 2 ^ k := by rw [← pow_add, Nat.sub_add_cancel hk]
    have hdiv := Nat.mod_add_div x (2 ^ (w - k))
    have hhigh : x >>> (w - k) < 2 ^ k := by
      rw [Nat.shiftRight_eq_div_pow]
      exact (Nat.div_lt_iff_lt_mul (by positivity)).mpr (by rw [Nat.mul_comm, ← hpow]; exact hx)
    obtain ⟨hvalue, hwords, hlt⟩ := ih (x >>> (w - k)) hxs hhigh
    have hword := shift_word w k x z hk hz
    refine ⟨?_, (words_cons _ _).mpr ⟨?_, hwords⟩, hlt⟩
    · simp only [shiftBits, hword, Nat.ofDigits_cons, List.length_cons, pow_succ]
      rw [Nat.shiftRight_eq_div_pow] at hvalue ⊢
      generalize shiftBits w k xs (x / 2 ^ (w - k)) = r at hvalue ⊢
      calc _ = x % 2 ^ (w - k) * 2 ^ k + z + 2 ^ w * (ofDigits (2 ^ w) r.1 + (2 ^ w) ^ xs.length * r.2) := by ring
        _ = 2 ^ k * (x % 2 ^ (w - k) + 2 ^ (w - k) * (x / 2 ^ (w - k))) + z + 2 ^ w * (2 ^ k * ofDigits (2 ^ w) xs) := by
            rw [hvalue, hpow]
            ring
        _ = _ := by
            rw [hdiv]
            ring
    · rw [hword, hpow]
      have hlow := Nat.mod_lt x (show 0 < 2 ^ (w - k) by positivity)
      nlinarith [show 0 < 2 ^ k by positivity]

/-! ## Comparison -/

/-- Compare from the highest word on: the lists have their highest words first. -/
def compareTop : List ℕ → List ℕ → ℤ
  | a :: xa, b :: xb => if a ≠ b then if a < b then -1 else 1 else compareTop xa xb
  | _, _ => 0

/-- INTERNAL: the words from the top on decide which number is greater. -/
theorem compareTop_spec (xa xb : List ℕ) (hlength : xa.length = xb.length) (hxa : Words B xa) (hxb : Words B xb)
    (hB : 1 < B) :
    (compareTop xa xb < 0 ↔ ofDigits B xa.reverse < ofDigits B xb.reverse) ∧
      (compareTop xa xb = 0 ↔ ofDigits B xa.reverse = ofDigits B xb.reverse) := by
  induction xa generalizing xb with
  | nil =>
    obtain rfl : xb = [] := List.eq_nil_of_length_eq_zero hlength.symm
    simp [compareTop]
  | cons a xa ih =>
    obtain _ | ⟨b, xb⟩ := xb
    · simp at hlength
    · obtain ⟨ha, hxa⟩ := (words_cons a xa).mp hxa
      obtain ⟨hb, hwb⟩ := (words_cons b xb).mp hxb
      have hlen : xa.length = xb.length := by simpa using hlength
      have hxa' : ofDigits B xa.reverse < B ^ xb.length := by
        have h := Words.lt (show Words _ xa.reverse from fun w hw => hxa w (by simpa using hw)) hB
        rwa [List.length_reverse, hlen] at h
      have hxb' : ofDigits B xb.reverse < B ^ xb.length := by
        have h := Words.lt (show Words _ xb.reverse from fun w hw => hwb w (by simpa using hw)) hB
        rwa [List.length_reverse] at h
      rw [compareTop, Nat.ofDigits_reverse_cons, Nat.ofDigits_reverse_cons, hlen]
      rcases lt_trichotomy a b with hab | rfl | hab
      · have hmul : B ^ xb.length * (a + 1) ≤ B ^ xb.length * b := Nat.mul_le_mul_left _ hab
        rw [if_pos hab.ne, if_pos hab]
        rw [Nat.mul_add, Nat.mul_one] at hmul
        omega
      · rw [if_neg (not_not_intro rfl), Nat.add_left_inj, Nat.add_lt_add_iff_right]
        exact ih xb hlen hxa hwb
      · have hmul : B ^ xb.length * (b + 1) ≤ B ^ xb.length * a := Nat.mul_le_mul_left _ hab
        rw [if_pos hab.ne', if_neg hab.not_gt]
        rw [Nat.mul_add, Nat.mul_one] at hmul
        omega

end TTLinux.Lib.Limbs
