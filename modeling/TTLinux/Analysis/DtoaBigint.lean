import TTLinux.Model.DtoaBigint

/-!
# The arithmetic of the big integers

`Holds b v` says that `b` is the number `v`: its words fit into their block, and the highest one is not zero unless the
number is. Every operation keeps this, returns the number that it should, and stays inside its block and inside
`freelist`, as long as the numbers have a block at all. The powers of five that `pow5mult` keeps from one call to the next
are what they are taken for after any calls.
-/

set_option autoImplicit false

namespace TTLinux.Analysis.DtoaBigint

open Nat (ofDigits)
open TTLinux.Lib.Limbs
open TTLinux.Model.DtoaBigint

/-- `b` is the number `v`. Zero may be left by `quorem` with no word or with one. -/
structure Holds (b : Bigint) (v : ℕ) : Prop where
  small : b.k ≤ Kmax
  room : b.x.length ≤ b.maxwds
  written : b.wds ≤ b.x.length
  words : Words W (b.x.take b.wds)
  value : ofDigits W (b.x.take b.wds) = v
  normal : v ≠ 0 → W ^ (b.wds - 1) ≤ v
  zero : v = 0 → b.wds ≤ 1 ∧ b.x[0]? = some 0

/-- Numbers below this bound have a block of a class that `freelist` has, with a word to spare. -/
def limit : ℕ := W ^ (2 ^ Kmax - 2)

/-- INTERNAL: how many values a word has, in decimal. -/
theorem W_eq : W = 4294967296 := rfl

/-- INTERNAL: a word has more than one value. -/
theorem one_lt_W : 1 < W := by norm_num

/-- INTERNAL: the number of its values is even. -/
theorem two_dvd_W : 2 ∣ W := by norm_num

namespace Holds

variable {b : Bigint} {v : ℕ}

/-- INTERNAL: the words of a number can be read. -/
theorem read_wds (h : Holds b v) : b.read b.wds = some (b.x.take b.wds) := if_pos h.written

/-- INTERNAL: a number is less than what its words can hold. -/
theorem lt_pow (h : Holds b v) : v < W ^ b.wds := by
  have hlt := h.words.lt one_lt_W
  rwa [h.value, List.length_take, min_eq_left h.written] at hlt

/-- INTERNAL: a number that is not zero has a word. -/
theorem wds_pos (h : Holds b v) (hv : v ≠ 0) : 0 < b.wds := by
  by_contra hzero
  have hlt := h.lt_pow
  rw [show b.wds = 0 by omega, pow_zero] at hlt
  omega

/-- INTERNAL: so that at least one word is no further demand. -/
theorem max_wds (h : Holds b v) (hv : v ≠ 0) : max 1 b.wds = b.wds := max_eq_right (h.wds_pos hv)

/-- INTERNAL: the number of words of a number below a power. -/
theorem wds_le (h : Holds b v) (hv : v ≠ 0) (n : ℕ) (hlt : v < W ^ n) : b.wds ≤ n := by
  have hpow : W ^ (b.wds - 1) < W ^ n := (h.normal hv).trans_lt hlt
  have hexp := (Nat.pow_lt_pow_iff_right one_lt_W).mp hpow
  omega

/-- INTERNAL: each of its words was written. -/
theorem top_mem (h : Holds b v) (n : ℕ) (hn : n < b.wds) : ∃ w, b.x[n]? = some w ∧ w < W := by
  have hlen : n < b.x.length := hn.trans_le h.written
  refine ⟨b.x[n], List.getElem?_eq_getElem hlen, h.words _ ?_⟩
  rw [List.mem_take_iff_getElem]
  exact ⟨n, by omega, rfl⟩

/-- INTERNAL: the words of two numbers tell them apart. -/
theorem wds_lt_of_lt {c : Bigint} {w : ℕ} (hb : Holds b v) (hc : Holds c w) (hw : w ≠ 0) (h : b.wds < c.wds) : v < w :=
  calc v < W ^ b.wds := hb.lt_pow
    _ ≤ W ^ (c.wds - 1) := Nat.pow_le_pow_right (by norm_num) (by omega)
    _ ≤ w := hc.normal hw

end Holds

/-- INTERNAL: what a block holds that is written from its first word on. -/
theorem holds_fill (b : Bigint) (x : List ℕ) (n v : ℕ) (hsmall : b.k ≤ Kmax) (hroom : x.length ≤ b.maxwds)
    (hn : n ≤ x.length) (hwords : Words W (x.take n)) (hvalue : ofDigits W (x.take n) = v)
    (hnormal : W ^ (n - 1) ≤ v) (hv : v ≠ 0) :
    b.fill x n = some { b with x := x, wds := n } ∧ Holds { b with x := x, wds := n } v :=
  ⟨if_pos hroom, ⟨hsmall, hroom, hn, hwords, hvalue, fun _ => hnormal, fun h => absurd h hv⟩⟩

/-- INTERNAL: an allocation up to the greatest size succeeds. -/
theorem balloc_eq (k : ℕ) (hk : k ≤ Kmax) : Balloc k = some ⟨k, false, 0, []⟩ := if_pos hk

/-! ## Multiplication by a word -/

/-- INTERNAL: a class with a word more is there if the words are not too many. -/
theorem class_succ_le (k n : ℕ) (hn : 2 ^ k < n) (hle : n ≤ 2 ^ Kmax) : k + 1 ≤ Kmax :=
  (Nat.pow_lt_pow_iff_right (by omega)).mp (hn.trans_le hle)

/-- INTERNAL: a word more on the words that are there.
SOURCE: dietlibc-printf.patch:1007-1015 -/
theorem pushWord_eq (b : Bigint) (w : ℕ) (hsmall : b.k ≤ Kmax) (hroom : b.x.length ≤ b.maxwds)
    (hwritten : b.wds ≤ b.x.length) (hfew : b.wds + 1 ≤ 2 ^ Kmax) :
    ∃ b', pushWord b w = some b' ∧ b'.k ≤ Kmax ∧ b'.x.length ≤ b'.maxwds ∧ b'.wds = b.wds + 1 ∧
      b'.wds ≤ b'.x.length ∧ b'.x.take (b.wds + 1) = b.x.take b.wds ++ [w] := by
  have htaken : (b.x.take b.wds).length = b.wds := by rw [List.length_take, min_eq_left hwritten]
  -- what is written, whichever block it is written to
  have hfill : ∀ (c : Bigint) (rest : List ℕ), c.k ≤ Kmax → b.wds + 1 + rest.length ≤ c.maxwds →
      ∃ b', c.fill (b.x.take b.wds ++ w :: rest) (b.wds + 1) = some b' ∧ b'.k ≤ Kmax ∧ b'.x.length ≤ b'.maxwds ∧
        b'.wds = b.wds + 1 ∧ b'.wds ≤ b'.x.length ∧ b'.x.take (b.wds + 1) = b.x.take b.wds ++ [w] := by
    intro c rest hc hfits
    have hlength : (b.x.take b.wds ++ w :: rest).length = b.wds + 1 + rest.length := by
      rw [List.length_append, List.length_cons, htaken]
      omega
    refine ⟨_, if_pos (by omega), hc, hlength.le.trans hfits, rfl, ?_, ?_⟩
    · simp only [hlength]
      omega
    · rw [show b.wds + 1 = (b.x.take b.wds).length + 1 by omega, List.take_length_add_append]
      rfl
  by_cases hfull : b.wds ≥ b.maxwds
  · have hclass : b.k + 1 ≤ Kmax := class_succ_le b.k (b.wds + 1) (by unfold Bigint.maxwds at hfull; omega) hfew
    have hmax : b.wds + 1 ≤ 2 ^ (b.k + 1) := by
      have hone := Nat.one_le_two_pow (n := b.k)
      unfold Bigint.maxwds at hroom
      rw [pow_succ]
      omega
    have hcopy : Bcopy ⟨b.k + 1, false, 0, []⟩ b = some ⟨b.k + 1, b.sign, b.wds, b.x.take b.wds⟩ := by
      unfold Bcopy Bigint.read Bigint.fill
      rw [if_pos hwritten]
      exact if_pos (htaken.le.trans (show b.wds ≤ 2 ^ (b.k + 1) by omega))
    have h := hfill ⟨b.k + 1, b.sign, b.wds, b.x.take b.wds⟩ [] hclass (by simpa [Bigint.maxwds] using hmax)
    simp only [pushWord, if_pos hfull, balloc_eq _ hclass, Option.bind_eq_bind, Option.bind_some, hcopy, List.take_take,
      min_self, List.drop_eq_nil_of_le (show (b.x.take b.wds).length ≤ b.wds + 1 by omega)]
    exact h
  · simp only [pushWord, if_neg hfull, Option.bind_eq_bind, Option.bind_some]
    refine hfill b _ hsmall ?_
    rw [List.length_drop]
    omega

/-- **`multadd` multiplies and adds.**
SOURCE: dietlibc-printf.patch:968-1018 -/
theorem multadd_holds (b : Bigint) (v m a : ℕ) (hb : Holds b v) (hv : v ≠ 0) (hm : 0 < m) (hm' : m < W) (ha : a < W)
    (hlimit : m * v + a < limit) : ∃ b', multadd b m a = some b' ∧ Holds b' (m * v + a) := by
  obtain ⟨hsum, hcarry⟩ := mulAdd_value m (b.x.take b.wds) a hm' hb.words ha
  have hwords := mulAdd_words m (b.x.take b.wds) a (by norm_num : 0 < W)
  have hlength := mulAdd_length (B := W) m (b.x.take b.wds) a
  rw [hb.value, List.length_take, min_eq_left hb.written] at hsum
  rw [List.length_take, min_eq_left hb.written] at hlength
  have hmv : v ≤ m * v + a := (Nat.le_mul_of_pos_left v hm).trans (Nat.le_add_right _ _)
  have hne : m * v + a ≠ 0 := by omega
  simp only [multadd, hb.max_wds hv, hb.read_wds, Option.bind_eq_bind, Option.bind_some]
  generalize mulAdd W m (b.x.take b.wds) a = r at hsum hcarry hwords hlength ⊢
  have htake : (r.1 ++ b.x.drop b.wds).take b.wds = r.1 := by rw [← hlength, List.take_left]
  have hlen : (r.1 ++ b.x.drop b.wds).length = b.x.length := by
    rw [List.length_append, List.length_drop, hlength, Nat.add_sub_cancel' hb.written]
  by_cases hzero : r.2 = 0
  · rw [if_neg (not_not_intro hzero)]
    rw [hzero, Nat.mul_zero, Nat.add_zero] at hsum
    refine ⟨_, rfl, ⟨hb.small, hlen ▸ hb.room, hlen ▸ hb.written, ?_, ?_, ?_, ?_⟩⟩
    · rw [htake]
      exact hwords
    · rw [htake]
      exact hsum
    · exact fun _ => (hb.normal hv).trans hmv
    · exact fun h => absurd h hne
  · have hge : W ^ b.wds ≤ m * v + a := by
      rw [← hsum]
      exact (Nat.le_mul_of_pos_right _ (Nat.pos_of_ne_zero hzero)).trans (Nat.le_add_left _ _)
    have hfew : b.wds < 2 ^ Kmax - 2 := (Nat.pow_lt_pow_iff_right one_lt_W).mp (hge.trans_lt hlimit)
    obtain ⟨b', hb', hsmall, hroom, hwds, hwritten, hwords'⟩ :=
      pushWord_eq { b with x := r.1 ++ b.x.drop b.wds } r.2 hb.small (hlen ▸ hb.room) (hlen ▸ hb.written) (by simp only; omega)
    rw [if_pos hzero]
    simp only [htake] at hwds hwords'
    refine ⟨b', hb', ⟨hsmall, hroom, hwritten, ?_, ?_, ?_, fun h => absurd h hne⟩⟩
    · rw [hwds, hwords', words_append, words_cons]
      exact ⟨hwords, hcarry, words_nil⟩
    · rw [hwds, hwords', Nat.ofDigits_append, Nat.ofDigits_singleton, hlength]
      exact hsum
    · intro _
      rw [hwds, Nat.add_sub_cancel]
      exact hge

/-! ## Products -/

/-- INTERNAL: words without the zeros on top of them, in a block of their own. -/
theorem holds_trimmed (c : Bigint) (xc : List ℕ) (v : ℕ) (hsmall : c.k ≤ Kmax) (hroom : xc.length ≤ c.maxwds)
    (hwords : Words W xc) (hvalue : ofDigits W xc = v) (hv : v ≠ 0) :
    ∃ c', c.fill xc (xc.rdropWhile (· = 0)).length = some c' ∧ Holds c' v ∧ c'.sign = c.sign := by
  obtain ⟨htake, hsame⟩ := rdropWhile_zero (B := W) xc
  have hne : xc.rdropWhile (· = 0) ≠ [] := by
    intro hnil
    rw [hnil, Nat.ofDigits_nil] at hsame
    omega
  have htop : (xc.rdropWhile (· = 0)).getLast hne ≠ 0 := by simpa using List.rdropWhile_last_not (· = 0) xc hne
  have hpow := pow_le_ofDigits (B := W) (xc.rdropWhile (· = 0)) hne htop
  have hfront := List.rdropWhile_prefix (· = 0) xc
  obtain ⟨hfill, hholds⟩ := holds_fill c xc (xc.rdropWhile (· = 0)).length v hsmall hroom hfront.length_le
    (by rw [htake]; exact fun w hw => hwords w (hfront.subset hw)) (by rw [htake, hsame, hvalue])
    (by rw [← hvalue, ← hsame]; exact hpow) hv
  exact ⟨_, hfill, hholds, rfl⟩

/-- INTERNAL: the words of two factors are not too many for a block. -/
theorem wds_add_le (a b : Bigint) (va vb : ℕ) (ha : Holds a va) (hb : Holds b vb) (hva : va ≠ 0) (hvb : vb ≠ 0)
    (hlimit : va * vb < limit) : a.wds + b.wds ≤ 2 ^ Kmax := by
  have hpow : W ^ (a.wds - 1 + (b.wds - 1)) < W ^ (2 ^ Kmax - 2) :=
    calc W ^ (a.wds - 1 + (b.wds - 1)) = W ^ (a.wds - 1) * W ^ (b.wds - 1) := pow_add _ _ _
      _ ≤ va * vb := Nat.mul_le_mul (ha.normal hva) (hb.normal hvb)
      _ < _ := hlimit
  have hexp := (Nat.pow_lt_pow_iff_right one_lt_W).mp hpow
  have hKmax : 2 ≤ 2 ^ Kmax := by decide
  omega

/-- INTERNAL: the product of two numbers, of which the first is the longer one. -/
theorem product_holds (a b : Bigint) (va vb : ℕ) (ha : Holds a va) (hb : Holds b vb) (hva : va ≠ 0) (hvb : vb ≠ 0)
    (hlimit : va * vb < limit) (hle : b.wds ≤ a.wds) : ∃ c, product a b = some c ∧ Holds c (va * vb) := by
  have hfew := wds_add_le a b va vb ha hb hva hvb hlimit
  have hawds : a.wds ≤ a.maxwds := ha.written.trans ha.room
  obtain ⟨k, hk, hkmax, hfits⟩ : ∃ k, (if a.wds + b.wds > a.maxwds then a.k + 1 else a.k) = k ∧ k ≤ Kmax ∧
      a.wds + b.wds ≤ 2 ^ k := by
    split_ifs with hfull
    · refine ⟨a.k + 1, rfl, class_succ_le a.k _ hfull hfew, ?_⟩
      unfold Bigint.maxwds at hawds
      rw [pow_succ]
      omega
    · exact ⟨a.k, rfl, ha.small, not_lt.mp hfull⟩
  have hxa : (a.x.take a.wds).length = a.wds := by rw [List.length_take, min_eq_left ha.written]
  have hxb : (b.x.take b.wds).length = b.wds := by rw [List.length_take, min_eq_left hb.written]
  obtain ⟨xc, hxc, hlength, hwords, hvalue⟩ := mulRows_value (B := W) (a.x.take a.wds) (b.x.take b.wds)
    (List.replicate (a.wds + b.wds) 0) ha.words hb.words (words_replicate_zero _ (by norm_num))
    (by rw [List.length_replicate, hxa, hxb]) (fun c hc => List.eq_of_mem_replicate (List.mem_of_mem_drop hc))
  rw [List.length_replicate] at hlength
  rw [Nat.ofDigits_replicate_zero, Nat.zero_add, ha.value, hb.value] at hvalue
  obtain ⟨c, hc, hholds, -⟩ := holds_trimmed ⟨k, false, a.wds + b.wds, List.replicate (a.wds + b.wds) 0⟩ xc (va * vb) hkmax
    (by rw [hlength]; exact hfits) hwords hvalue (Nat.mul_ne_zero hva hvb)
  have hzeros : (⟨k, false, 0, []⟩ : Bigint).fill (List.replicate (a.wds + b.wds) 0) (a.wds + b.wds) =
      some ⟨k, false, a.wds + b.wds, List.replicate (a.wds + b.wds) 0⟩ :=
    if_pos (by rw [List.length_replicate]; exact hfits)
  refine ⟨c, ?_, hholds⟩
  simp only [product, hk, balloc_eq k hkmax, Option.bind_eq_bind, Option.bind_some, hzeros, ha.read_wds, hb.read_wds, hxc]
  exact hc

/-- **`mult` multiplies.** Its rows stay inside the block, and no double word overflows.
SOURCE: dietlibc-printf.patch:1155-1267 -/
theorem mult_holds (a b : Bigint) (va vb : ℕ) (ha : Holds a va) (hb : Holds b vb) (hva : va ≠ 0) (hvb : vb ≠ 0)
    (hlimit : va * vb < limit) : ∃ c, mult a b = some c ∧ Holds c (va * vb) := by
  unfold mult
  split_ifs with hlt
  · rw [Nat.mul_comm] at hlimit ⊢
    exact product_holds b a vb va hb ha hvb hva hlimit hlt.le
  · exact product_holds a b va vb ha hb hva hvb hlimit (not_lt.mp hlt)

/-- INTERNAL: the number of one word. -/
theorem i2b_holds (i : ℕ) (hi : i < W) (hne : i ≠ 0) : ∃ b, i2b i = some b ∧ Holds b i := by
  obtain ⟨hfill, hholds⟩ := holds_fill ⟨1, false, 0, []⟩ [i] 1 i (by decide) (by simp [Bigint.maxwds]) (by simp)
    (by simpa using hi) (by simp) (Nat.one_le_iff_ne_zero.mpr hne) hne
  refine ⟨_, ?_, hholds⟩
  simp only [i2b, balloc_eq 1 (by decide), Option.bind_eq_bind, Option.bind_some]
  exact hfill

/-! ## Powers of five -/

/-- The powers that are kept: each is the square of the one in front of it, and the first is `625`. -/
inductive Powers : ℕ → List Bigint → Prop
  | nil (n : ℕ) : Powers n []
  | cons (n : ℕ) (p : Bigint) (ps : List Bigint) : Holds p n → Powers (n * n) ps → Powers n (p :: ps)

/-- **What `pow5mult` keeps from call to call.** -/
def Cache (p5s : List Bigint) : Prop := Powers 625 p5s

/-- INTERNAL: the empty list of powers of five is a cache. -/
theorem cache_nil : Cache [] := Powers.nil 625

/-- INTERNAL: the next power is kept, or computed from the one in front of it. -/
theorem Powers.next {n : ℕ} {ps : List Bigint} (h : Powers (n * n) ps) (p : Bigint) (hp : Holds p n) (hn : n ≠ 0)
    (hlimit : n * n < limit) :
    ∃ q, ps.head?.or (mult p p) = some q ∧ Holds q (n * n) ∧ Powers (n * n * (n * n)) ps.tail := by
  cases h with
  | nil =>
    obtain ⟨q, hq, hholds⟩ := mult_holds p p n n hp hp hn hn hlimit
    exact ⟨q, hq, hholds, Powers.nil _⟩
  | cons _ q qs hq hqs => exact ⟨q, rfl, hq, hqs⟩

/-- INTERNAL: **the loop multiplies by the powers that the bits of `k` say**, and what it keeps are powers again.
SOURCE: dietlibc-printf.patch:1302-1327 -/
theorem pow5loop_holds (fuel k n v : ℕ) (p5 b : Bigint) (next : List Bigint) (hfuel : k ≤ fuel) (hk : k ≠ 0)
    (hp5 : Holds p5 n) (hn : n ≠ 0) (hnext : Powers (n * n) next) (hb : Holds b v) (hv : v ≠ 0)
    (hlimit : v * n ^ k < limit) :
    ∃ b' next', pow5loop fuel p5 next b k = some (b', next') ∧ Holds b' (v * n ^ k) ∧ Powers (n * n) next' := by
  induction fuel generalizing k n v p5 b next with
  | zero => omega
  | succ fuel ih =>
    have hsplit : n ^ k = n ^ (k % 2) * (n * n) ^ (k / 2) := by
      rw [← pow_two, ← pow_mul, ← pow_add, Nat.mod_add_div]
    have hpos : ∀ m, 0 < n ^ m := fun m => Nat.pow_pos (Nat.pos_of_ne_zero hn)
    -- the factor of the lowest bit
    obtain ⟨b₁, hb₁, hholds⟩ : ∃ b₁, (if k &&& 1 ≠ 0 then mult b p5 else some b) = some b₁ ∧ Holds b₁ (v * n ^ (k % 2)) := by
      rw [Nat.and_one_is_mod]
      split_ifs with hodd
      · rw [show k % 2 = 1 by omega, pow_one]
        refine mult_holds b p5 v n hb hp5 hv hn ((Nat.mul_le_mul_left v ?_).trans_lt hlimit)
        exact Nat.le_self_pow hk n
      · rw [show k % 2 = 0 by omega, pow_zero, Nat.mul_one]
        exact ⟨b, rfl, hb⟩
    have hv₁ : v * n ^ (k % 2) ≠ 0 := Nat.mul_ne_zero hv (hpos _).ne'
    rw [hsplit, ← Nat.mul_assoc] at hlimit ⊢
    simp only [pow5loop, hb₁, Option.bind_eq_bind, Option.bind_some, Nat.shiftRight_eq_div_pow, pow_one]
    by_cases hhalf : k / 2 = 0
    · rw [if_pos hhalf, hhalf, pow_zero, Nat.mul_one]
      exact ⟨b₁, next, rfl, hholds, hnext⟩
    · have hsquare : n * n < limit :=
        calc n * n ≤ (n * n) ^ (k / 2) := Nat.le_self_pow hhalf _
          _ ≤ v * n ^ (k % 2) * (n * n) ^ (k / 2) := Nat.le_mul_of_pos_left _ (Nat.pos_of_ne_zero hv₁)
          _ < limit := hlimit
      obtain ⟨p51, hp51, hp51holds, hrest⟩ := hnext.next p5 hp5 hn hsquare
      obtain ⟨b', next', hloop, hb', hnext'⟩ := ih (k / 2) (n * n) (v * n ^ (k % 2)) p51 b₁ next.tail (by omega) hhalf
        hp51holds (Nat.mul_ne_zero hn hn) hrest hholds hv₁ hlimit
      refine ⟨b', p51 :: next', ?_, hb', Powers.cons _ _ _ hp51holds hnext'⟩
      rw [if_neg hhalf]
      simp only [hp51, Option.bind_some, hloop]

/-- **`pow5mult` multiplies by a power of five**, and what it keeps for the next call are the powers again.
SOURCE: dietlibc-printf.patch:1269-1330 -/
theorem pow5mult_holds (p5s : List Bigint) (b : Bigint) (v k : ℕ) (hcache : Cache p5s) (hb : Holds b v) (hv : v ≠ 0)
    (hlimit : v * 5 ^ k < limit) :
    ∃ b' p5s', pow5mult p5s b k = some (b', p5s') ∧ Holds b' (v * 5 ^ k) ∧ Cache p5s' := by
  have hsplit : 5 ^ k = 5 ^ (k % 4) * 625 ^ (k / 4) := by
    rw [show 625 = 5 ^ 4 from rfl, ← pow_mul, ← pow_add, Nat.mod_add_div]
  have hand : k &&& 3 = k % 4 := Nat.and_two_pow_sub_one_eq_mod k 2
  have hsmall : ∀ m, 0 < m → m < W → v * m < limit → ∃ b', multadd b m 0 = some b' ∧ Holds b' (v * m) := by
    intro m hm hm' hlt
    rw [Nat.mul_comm] at hlt ⊢
    exact multadd_holds b v m 0 hb hv hm hm' (by norm_num) hlt
  have hfirst : v * 5 ^ (k % 4) < limit := by
    refine lt_of_le_of_lt (Nat.mul_le_mul_left v ?_) hlimit
    exact Nat.pow_le_pow_right (by omega) (Nat.mod_le k 4)
  obtain ⟨b₁, hb₁, hholds⟩ : ∃ b₁, (if k % 4 ≠ 0 then
      ([5, 25, 125] : List ℕ)[k % 4 - 1]?.bind fun m => multadd b m 0 else some b) = some b₁ ∧ Holds b₁ (v * 5 ^ (k % 4)) := by
    have hlt := Nat.mod_lt k (show 0 < 4 by omega)
    rcases (show k % 4 = 0 ∨ k % 4 = 1 ∨ k % 4 = 2 ∨ k % 4 = 3 by omega) with h | h | h | h <;> rw [h] at hfirst ⊢
    · exact ⟨b, rfl, by simpa using hb⟩
    · exact hsmall 5 (by omega) (by norm_num) hfirst
    · exact hsmall 25 (by omega) (by norm_num) hfirst
    · exact hsmall 125 (by omega) (by norm_num) hfirst
  rw [hsplit, ← Nat.mul_assoc] at hlimit ⊢
  simp only [pow5mult, hand, Option.bind_eq_bind, hb₁, Option.bind_some, Nat.shiftRight_eq_div_pow]
  by_cases hrest : k / 2 ^ 2 = 0
  · rw [if_pos hrest, show k / 4 = 0 from hrest, pow_zero, Nat.mul_one]
    exact ⟨b₁, p5s, rfl, hholds, hcache⟩
  · have hv₁ : v * 5 ^ (k % 4) ≠ 0 := Nat.mul_ne_zero hv (by positivity)
    obtain ⟨p5, hp5, hp5holds, hnext⟩ : ∃ p5, p5s.head?.or (i2b 625) = some p5 ∧ Holds p5 625 ∧
        Powers (625 * 625) p5s.tail := by
      cases hcache with
      | nil =>
        obtain ⟨p5, hp5, hholds⟩ := i2b_holds 625 (by norm_num) (by omega)
        exact ⟨p5, hp5, hholds, Powers.nil _⟩
      | cons _ p ps hp hps => exact ⟨p, rfl, hp, hps⟩
    obtain ⟨b', next', hloop, hb', hnext'⟩ := pow5loop_holds (k / 2 ^ 2) (k / 2 ^ 2) 625 _ p5 b₁ p5s.tail le_rfl hrest
      hp5holds (by omega) hnext hholds hv₁ hlimit
    refine ⟨b', p5 :: next', ?_, hb', Powers.cons _ _ _ hp5holds hnext'⟩
    rw [if_neg hrest]
    simp only [hp5, Option.bind_some, hloop]

/-! ## Shifts -/

/-- INTERNAL: the class that `lshift` asks for is big enough, and no bigger than it has to be. -/
theorem growClass_spec (n1 fuel k : ℕ) (hfuel : n1 ≤ 2 ^ (k + fuel)) (hk : k ≤ Kmax) (hn1 : n1 ≤ 2 ^ Kmax) :
    growClass n1 fuel (2 ^ k) k ≤ Kmax ∧ n1 ≤ 2 ^ growClass n1 fuel (2 ^ k) k := by
  induction fuel generalizing k with
  | zero => exact ⟨hk, hfuel⟩
  | succ fuel ih =>
    rw [growClass]
    split_ifs with hgrow
    · rw [Nat.shiftLeft_eq, pow_one, ← pow_succ]
      exact ih (k + 1) (by rwa [Nat.add_right_comm, Nat.add_assoc]) (class_succ_le k n1 hgrow hn1)
    · exact ⟨hk, not_lt.mp hgrow⟩

/-- **`lshift` multiplies by a power of two.**
SOURCE: dietlibc-printf.patch:1332-1396 -/
theorem lshift_holds (b : Bigint) (v k : ℕ) (hb : Holds b v) (hv : v ≠ 0) (hlimit : v * 2 ^ k < limit) :
    ∃ b', lshift b k = some b' ∧ Holds b' (v * 2 ^ k) := by
  have hpos := hb.wds_pos hv
  have hne : v * 2 ^ k ≠ 0 := Nat.mul_ne_zero hv (by positivity)
  have hn : k >>> 5 = k / 32 := Nat.shiftRight_eq_div_pow k 5
  have hbits : k &&& 0x1f = k % 32 := Nat.and_two_pow_sub_one_eq_mod k 5
  have hpow : 2 ^ k = W ^ (k / 32) * 2 ^ (k % 32) := by rw [← pow_mul, ← pow_add, Nat.div_add_mod]
  have hlow : W ^ (k / 32 + (b.wds - 1)) ≤ v * 2 ^ k := by
    rw [pow_add, hpow, Nat.mul_comm (W ^ (k / 32))]
    exact Nat.mul_le_mul (hb.normal hv) (Nat.le_mul_of_pos_right _ (by positivity))
  have hexp := (Nat.pow_lt_pow_iff_right one_lt_W).mp (hlow.trans_lt hlimit)
  have hKmax : 2 ≤ 2 ^ Kmax := by decide
  obtain ⟨hclass, hroom⟩ := growClass_spec (k / 32 + b.wds + 1) (k / 32 + b.wds + 1) b.k
    ((Nat.lt_two_pow_self).le.trans (Nat.pow_le_pow_right (by omega) (by omega))) hb.small (by omega)
  have htaken : (b.x.take b.wds).length = b.wds := by rw [List.length_take, min_eq_left hb.written]
  simp only [lshift, hn, hbits, balloc_eq _ hclass, hb.max_wds hv, hb.read_wds, Option.bind_eq_bind, Option.bind_some,
    Bigint.maxwds]
  generalize growClass (k / 32 + b.wds + 1) (k / 32 + b.wds + 1) (2 ^ b.k) b.k = k1 at hclass hroom ⊢
  have hzeros := words_replicate_zero (B := W) (k / 32) (by norm_num)
  by_cases hk : k % 32 = 0
  · rw [if_neg (not_not_intro hk)]
    rw [hk, pow_zero, Nat.mul_one] at hpow
    have hlength : (List.replicate (k / 32) 0 ++ b.x.take b.wds).length = k / 32 + b.wds := by
      rw [List.length_append, List.length_replicate, htaken]
    have htake : (List.replicate (k / 32) 0 ++ b.x.take b.wds).take (k / 32 + b.wds + 1 - 1) =
        List.replicate (k / 32) 0 ++ b.x.take b.wds := List.take_of_length_le (by omega)
    obtain ⟨hfill, hholds⟩ := holds_fill ⟨k1, false, 0, []⟩ (List.replicate (k / 32) 0 ++ b.x.take b.wds)
      (k / 32 + b.wds + 1 - 1) (v * 2 ^ k) hclass (by simp only [hlength, Bigint.maxwds]; omega) (by omega)
      (by rw [htake, words_append]; exact ⟨hzeros, hb.words⟩)
      (by rw [htake, Nat.ofDigits_append, Nat.ofDigits_replicate_zero, List.length_replicate, hb.value, hpow]; ring)
      (by rw [show k / 32 + b.wds + 1 - 1 - 1 = k / 32 + (b.wds - 1) by omega]; exact hlow) hne
    exact ⟨_, hfill, hholds⟩
  · rw [if_pos hk]
    obtain ⟨hvalue, hwords, hcarry⟩ := shiftBits_value 32 (k % 32) (b.x.take b.wds) 0 (Nat.mod_lt _ (by omega)).le hb.words
      (by positivity)
    have hlength := shiftBits_length 32 (k % 32) (b.x.take b.wds) 0
    rw [htaken] at hlength hvalue
    rw [hb.value, Nat.add_zero] at hvalue
    generalize shiftBits 32 (k % 32) (b.x.take b.wds) 0 = r at hvalue hwords hcarry hlength ⊢
    have hlen : (List.replicate (k / 32) 0 ++ r.1).length = k / 32 + b.wds := by
      rw [List.length_append, List.length_replicate, hlength]
    have hsum : ofDigits W (List.replicate (k / 32) 0 ++ r.1) + W ^ (k / 32 + b.wds) * r.2 = v * 2 ^ k := by
      rw [Nat.ofDigits_append, Nat.ofDigits_replicate_zero, List.length_replicate, Nat.zero_add, pow_add, Nat.mul_assoc,
        ← Nat.mul_add, hvalue, hpow]
      ring
    have hwords' : Words W (List.replicate (k / 32) 0 ++ r.1) := (words_append _ _).mpr ⟨hzeros, hwords⟩
    have hfits : (List.replicate (k / 32) 0 ++ r.1 ++ [r.2]).length ≤ 2 ^ k1 := by
      rw [List.length_append, hlen, List.length_singleton]
      exact hroom
    have htop : r.2 < W := hcarry.trans_le (Nat.pow_le_pow_right (by omega) (Nat.mod_lt _ (by omega)).le)
    by_cases hzero : r.2 = 0
    · rw [if_neg (not_not_intro hzero)]
      rw [hzero, Nat.mul_zero, Nat.add_zero] at hsum
      have htake : (List.replicate (k / 32) 0 ++ r.1 ++ [r.2]).take (k / 32 + b.wds + 1 - 1) =
          List.replicate (k / 32) 0 ++ r.1 := by rw [Nat.add_sub_cancel, ← hlen, List.take_left]
      obtain ⟨hfill, hholds⟩ := holds_fill ⟨k1, false, 0, []⟩ (List.replicate (k / 32) 0 ++ r.1 ++ [r.2])
        (k / 32 + b.wds + 1 - 1) (v * 2 ^ k) hclass hfits (by rw [List.length_append, hlen]; omega)
        (by rw [htake]; exact hwords') (by rw [htake]; exact hsum)
        (by rw [show k / 32 + b.wds + 1 - 1 - 1 = k / 32 + (b.wds - 1) by omega]; exact hlow) hne
      exact ⟨_, hfill, hholds⟩
    · rw [if_pos hzero]
      have htake : (List.replicate (k / 32) 0 ++ r.1 ++ [r.2]).take (k / 32 + b.wds + 1) =
          List.replicate (k / 32) 0 ++ r.1 ++ [r.2] :=
        List.take_of_length_le (by rw [List.length_append, hlen, List.length_singleton])
      obtain ⟨hfill, hholds⟩ := holds_fill ⟨k1, false, 0, []⟩ (List.replicate (k / 32) 0 ++ r.1 ++ [r.2])
        (k / 32 + b.wds + 1) (v * 2 ^ k) hclass hfits (by rw [List.length_append, hlen, List.length_singleton])
        (by rw [htake, words_append, words_cons]; exact ⟨hwords', htop, words_nil⟩)
        (by rw [htake, Nat.ofDigits_append, Nat.ofDigits_singleton, hlen]; exact hsum)
        (by
          rw [Nat.add_sub_cancel, ← hsum]
          exact (Nat.le_mul_of_pos_right _ (Nat.pos_of_ne_zero hzero)).trans (Nat.le_add_left _ _)) hne
      exact ⟨_, hfill, hholds⟩

/-! ## Comparison and difference -/

/-- **`cmp` compares**, also a remainder that is zero with a number.
SOURCE: dietlibc-printf.patch:1398-1430 -/
theorem cmp_spec (a b : Bigint) (va vb : ℕ) (ha : Holds a va) (hb : Holds b vb) (hvb : vb ≠ 0) :
    ∃ i, cmp a b = some i ∧ (i < 0 ↔ va < vb) ∧ (i = 0 ↔ va = vb) := by
  unfold Model.DtoaBigint.cmp
  by_cases hwds : a.wds = b.wds
  · rw [if_neg (not_not_intro hwds)]
    have hlength : (a.x.take a.wds).reverse.length = (b.x.take b.wds).reverse.length := by
      rw [List.length_reverse, List.length_reverse, List.length_take, List.length_take, min_eq_left ha.written,
        min_eq_left hb.written, hwds]
    have hspec := compareTop_spec (B := W) _ _ hlength (fun w hw => ha.words w (List.mem_reverse.mp hw))
      (fun w hw => hb.words w (List.mem_reverse.mp hw)) one_lt_W
    rw [List.reverse_reverse, List.reverse_reverse, ha.value, hb.value] at hspec
    exact ⟨_, by simp only [ha.read_wds, hb.read_wds, Option.bind_eq_bind, Option.bind_some], hspec⟩
  · rw [if_pos hwds]
    refine ⟨_, rfl, ?_⟩
    rcases Nat.lt_or_gt_of_ne hwds with hlt | hgt
    · have := ha.wds_lt_of_lt hb hvb hlt
      omega
    · have hva : va ≠ 0 := by
        intro hzero
        have := (ha.zero hzero).1
        have := hb.wds_pos hvb
        omega
      have := hb.wds_lt_of_lt ha hva hgt
      omega

/-- INTERNAL: the difference of a greater and a smaller number, with its sign. -/
theorem difference_holds (a b : Bigint) (va vb : ℕ) (sign : Bool) (ha : Holds a va) (hb : Holds b vb) (hvb : vb ≠ 0)
    (hlt : vb < va) : ∃ c, difference a b sign = some c ∧ Holds c (va - vb) ∧ c.sign = sign := by
  have hva : va ≠ 0 := by omega
  have hle : b.wds ≤ a.wds := hb.wds_le hvb a.wds (hlt.trans ha.lt_pow)
  have hxa : (a.x.take a.wds).length = a.wds := by rw [List.length_take, min_eq_left ha.written]
  have hxb : (b.x.take b.wds).length = b.wds := by rw [List.length_take, min_eq_left hb.written]
  have hvalue := subBorrow_value (a.x.take a.wds) (b.x.take b.wds) 0 two_dvd_W ha.words hb.words (by omega) (by omega)
  have hwords := subBorrow_words (B := W) (a.x.take a.wds) (b.x.take b.wds) 0 (by norm_num)
  have hlength := subBorrow_length (B := W) (a.x.take a.wds) (b.x.take b.wds) 0
  have hbound := hwords.lt one_lt_W
  rw [hxa] at hvalue hlength
  rw [hlength] at hbound
  rw [ha.value, hb.value, Nat.add_zero] at hvalue
  generalize hr : subBorrow W (a.x.take a.wds) (b.x.take b.wds) 0 = r at hvalue hwords hlength hbound
  -- nothing is borrowed from behind the highest word
  have hborrow : r.2 = 0 := by
    by_contra hne
    have hone : W ^ a.wds ≤ W ^ a.wds * r.2 := Nat.le_mul_of_pos_right _ (Nat.pos_of_ne_zero hne)
    omega
  rw [hborrow, Nat.mul_zero, Nat.add_zero] at hvalue
  obtain ⟨c, hc, hholds, hsign⟩ := holds_trimmed ⟨a.k, sign, 0, []⟩ r.1 (va - vb) ha.small
    (by rw [hlength]; exact ha.written.trans ha.room) hwords (by omega) (by omega)
  refine ⟨c, ?_, hholds, hsign⟩
  simp only [difference, balloc_eq _ ha.small, ha.read_wds, hb.max_wds hvb, hb.read_wds, Option.bind_eq_bind,
    Option.bind_some, hr]
  exact hc

/-- **`diff` is the distance**, with the sign of the difference.
SOURCE: dietlibc-printf.patch:1432-1510 -/
theorem diff_holds (a b : Bigint) (va vb : ℕ) (ha : Holds a va) (hb : Holds b vb) (hva : va ≠ 0) (hvb : vb ≠ 0) :
    ∃ c, diff a b = some c ∧ Holds c (if va < vb then vb - va else va - vb) ∧ c.sign = decide (va < vb) ∧
      (va = vb → c.wds = 1) := by
  obtain ⟨i, hi, hneg, hzero⟩ := cmp_spec a b va vb ha hb hvb
  simp only [diff, hi, Option.bind_eq_bind, Option.bind_some]
  by_cases heq : va = vb
  · rw [if_pos (hzero.mpr heq), balloc_eq 0 (by decide), if_neg (by omega), heq, Nat.sub_self, Option.bind_some]
    refine ⟨⟨0, false, 1, [0]⟩, if_pos (by simp [Bigint.maxwds]), ?_, by simp, fun _ => rfl⟩
    exact ⟨by decide, by simp [Bigint.maxwds], by simp, by simp, by simp, fun h => absurd rfl h, fun _ => ⟨by simp, rfl⟩⟩
  · rw [if_neg fun h => heq (hzero.mp h)]
    by_cases hlt : va < vb
    · rw [if_pos (hneg.mpr hlt), if_pos hlt]
      obtain ⟨c, hc, hholds, hsign⟩ := difference_holds b a vb va true hb ha hva hlt
      exact ⟨c, hc, hholds, by rw [hsign, decide_eq_true hlt], fun h => absurd h heq⟩
    · rw [if_neg fun h => hlt (hneg.mp h), if_neg hlt]
      obtain ⟨c, hc, hholds, hsign⟩ := difference_holds a b va vb false ha hb hvb (by omega)
      exact ⟨c, hc, hholds, by rw [hsign, decide_eq_false hlt], fun h => absurd h heq⟩

/-! ## Quotients -/

/-- INTERNAL: the words up to one, and that one. -/
theorem take_top (x : List ℕ) (n w : ℕ) (hn : 0 < n) (hw : x[n - 1]? = some w) : x.take n = x.take (n - 1) ++ [w] := by
  obtain ⟨m, rfl⟩ : ∃ m, n = m + 1 := ⟨n - 1, by omega⟩
  rw [Nat.add_sub_cancel] at hw ⊢
  rw [List.take_add_one, hw, Option.toList_some]

/-- INTERNAL: where the words that `trimTop` leaves out begin. -/
theorem trimTop_spec (x : List ℕ) (n : ℕ) (hn : n < x.length) (hzero : x[n]? = some 0) :
    trimTop x n ≤ n ∧ ofDigits W (x.take (trimTop x n)) = ofDigits W (x.take (n + 1)) ∧
      (trimTop x n = 0 → n = 0) ∧ (1 < trimTop x n → x[trimTop x n - 1]? ≠ some 0) := by
  induction n with
  | zero =>
    have hstep : x.take 1 = [0] := take_top x 1 0 (by omega) hzero
    exact ⟨le_rfl, by rw [hstep]; rfl, fun _ => rfl, fun h => absurd h (by simp [trimTop])⟩
  | succ n ih =>
    have hstep : ofDigits W (x.take (n + 1 + 1)) = ofDigits W (x.take (n + 1)) := by
      rw [take_top x (n + 1 + 1) 0 (by omega) hzero, Nat.ofDigits_append_zero]
      rfl
    rw [trimTop]
    split_ifs with hnext
    · obtain ⟨hle, hvalue, hnil, htop⟩ := ih (by omega) hnext.2
      exact ⟨by omega, by rw [hvalue, hstep], fun h => absurd (hnil h) hnext.1.ne', htop⟩
    · exact ⟨le_rfl, hstep.symm, id, fun h hx => hnext ⟨Nat.lt_of_succ_lt_succ h, hx⟩⟩

/-- INTERNAL: a number whose words are counted from the top, as far as they are zero.
SOURCE: dietlibc-printf.patch:2889-2893, 2928-2932 -/
theorem holds_trimTop (b : Bigint) (n v : ℕ) (hsmall : b.k ≤ Kmax) (hroom : b.x.length ≤ b.maxwds) (hn : 0 < n)
    (hlength : n ≤ b.x.length) (hwords : Words W (b.x.take n)) (hvalue : ofDigits W (b.x.take n) = v) :
    Holds { b with wds := if b.x[n - 1]? = some 0 then trimTop b.x (n - 1) else n } v := by
  obtain ⟨m, hm, hle, hmvalue, hpos, htop⟩ : ∃ m, (if b.x[n - 1]? = some 0 then trimTop b.x (n - 1) else n) = m ∧ m ≤ n ∧
      ofDigits W (b.x.take m) = v ∧ (m = 0 → n = 1) ∧ (v ≠ 0 → b.x[m - 1]? ≠ some 0 ∨ m ≤ 1) := by
    split_ifs with hzero
    · obtain ⟨hle, hsame, hnil, htop⟩ := trimTop_spec b.x (n - 1) (by omega) hzero
      rw [Nat.sub_add_cancel hn, hvalue] at hsame
      refine ⟨_, rfl, by omega, hsame, fun h => by have := hnil h; omega, fun _ => ?_⟩
      rcases Nat.lt_or_ge 1 (trimTop b.x (n - 1)) with h | h
      · exact .inl (htop h)
      · exact .inr h
    · exact ⟨n, rfl, le_rfl, hvalue, fun h => by omega, fun _ => .inl hzero⟩
  rw [hm]
  refine ⟨hsmall, hroom, hle.trans hlength, ?_, hmvalue, ?_, ?_⟩
  · exact fun w hw => hwords w ((List.take_prefix_take_left hle).subset hw)
  · intro hv
    show W ^ (m - 1) ≤ v
    rcases htop hv with hne | hone
    · rcases Nat.eq_zero_or_pos m with rfl | hmpos
      · exact Nat.pos_of_ne_zero hv
      · have hget : b.x[m - 1]? = some b.x[m - 1] := List.getElem?_eq_getElem (by omega)
        rw [hget, Ne, Option.some_inj] at hne
        rw [← hmvalue, take_top b.x m _ hmpos hget, Nat.ofDigits_append, Nat.ofDigits_singleton, List.length_take, min_eq_left (by omega)]
        exact (Nat.le_mul_of_pos_right _ (Nat.pos_of_ne_zero hne)).trans (Nat.le_add_left _ _)
    · rw [show m - 1 = 0 by omega, pow_zero]
      exact Nat.pos_of_ne_zero hv
  · intro hv
    have hall : ∀ i < n, b.x[i]? = some 0 := by
      intro i hi
      have hsum := Nat.sum_le_ofDigits (p := W) (b.x.take n) (by norm_num)
      have hzeros := List.sum_eq_zero_iff_forall_eq_nat.mp (show (b.x.take n).sum = 0 by omega)
      have hmem : b.x[i] ∈ b.x.take n := List.mem_take_iff_getElem.mpr ⟨i, by omega, rfl⟩
      rw [List.getElem?_eq_getElem (show i < b.x.length by omega), hzeros _ hmem]
    refine ⟨?_, hall 0 hn⟩
    show m ≤ 1
    by_contra hm1
    split_ifs at hm with hzero
    · have hmtop := (trimTop_spec b.x (n - 1) (by omega) hzero).2.2.2
      rw [hm] at hmtop
      exact hmtop (by omega) (hall (m - 1) (by omega))
    · exact hzero (hall (n - 1) (by omega))

/-- INTERNAL: **a multiple that is not too great is subtracted**, and the highest word is found.
SOURCE: dietlibc-printf.patch:2857-2894, 2899-2932 -/
theorem subtractTimes_holds (b S : Bigint) (v s q : ℕ) (hb : Holds b v) (hS : Holds S s) (hs : s ≠ 0)
    (hwds : b.wds = S.wds) (hq : q < W) (hle : q * s ≤ v) :
    ∃ b', subtractTimes b S q (S.wds - 1) = some b' ∧ Holds b' (v - q * s) := by
  obtain ⟨k, sign, wds, x⟩ := b
  obtain rfl : wds = S.wds := hwds
  have hpos := hS.wds_pos hs
  have hn : S.wds - 1 + 1 = S.wds := by omega
  have hwritten : S.wds ≤ x.length := hb.written
  have hxs : (S.x.take S.wds).length = S.wds := by rw [List.length_take, min_eq_left hS.written]
  have hxb : (x.take S.wds).length = S.wds := by rw [List.length_take, min_eq_left hwritten]
  have hvalue := mulSub_value q (S.x.take S.wds) (x.take S.wds) 0 0 two_dvd_W hq hS.words hb.words (by omega)
    (by norm_num) (by omega)
  have hwords := mulSub_words (B := W) q (S.x.take S.wds) (x.take S.wds) 0 0 (by norm_num)
  have hlength := mulSub_length (B := W) q (S.x.take S.wds) (x.take S.wds) 0 0 (by omega)
  have hbound := hwords.lt one_lt_W
  have hbvalue : ofDigits W (x.take S.wds) = v := hb.value
  have hread : (⟨k, sign, S.wds, x⟩ : Bigint).read S.wds = some (x.take S.wds) := hb.read_wds
  rw [hxb] at hvalue hlength
  rw [hlength] at hbound
  rw [hS.value, hbvalue] at hvalue
  simp only [subtractTimes, hn, hS.read_wds, hread, Option.bind_eq_bind, Option.bind_some]
  generalize mulSub W q (S.x.take S.wds) (x.take S.wds) 0 0 = r at hvalue hwords hlength hbound ⊢
  -- nothing is carried out of the highest word
  have hout : r.2.1 + r.2.2 = 0 := by
    by_contra hne
    have hone : W ^ S.wds ≤ W ^ S.wds * (r.2.1 + r.2.2) := Nat.le_mul_of_pos_right _ (Nat.pos_of_ne_zero hne)
    omega
  rw [hout, Nat.mul_zero, Nat.add_zero] at hvalue
  have htake : (r.1 ++ x.drop S.wds).take S.wds = r.1 := by rw [← hlength, List.take_left]
  have hlen : (r.1 ++ x.drop S.wds).length = x.length := by
    rw [List.length_append, List.length_drop, hlength, Nat.add_sub_cancel' hwritten]
  refine ⟨_, rfl, holds_trimTop ⟨k, sign, S.wds, r.1 ++ x.drop S.wds⟩ S.wds (v - q * s) hb.small ?_ hpos ?_ ?_ ?_⟩
  · exact hlen.le.trans hb.room
  · exact hwritten.trans hlen.ge
  · show Words W ((r.1 ++ x.drop S.wds).take S.wds)
    rwa [htake]
  · show ofDigits W ((r.1 ++ x.drop S.wds).take S.wds) = v - q * s
    rw [htake]
    omega

/-- INTERNAL: the highest word of a number, and what is below it. -/
theorem top_word (S : Bigint) (s : ℕ) (hS : Holds S s) (hs : s ≠ 0) :
    ∃ t, S.x[S.wds - 1]? = some t ∧ t * W ^ (S.wds - 1) ≤ s ∧ s < (t + 1) * W ^ (S.wds - 1) := by
  have hpos := hS.wds_pos hs
  have hwritten := hS.written
  have hget : S.x[S.wds - 1]? = some S.x[S.wds - 1] := List.getElem?_eq_getElem (by omega)
  have hlength : (S.x.take (S.wds - 1)).length = S.wds - 1 := by rw [List.length_take, min_eq_left (by omega)]
  have hlow : ofDigits W (S.x.take (S.wds - 1)) < W ^ (S.wds - 1) := by
    have hwords : Words W (S.x.take (S.wds - 1)) :=
      fun w hw => hS.words w ((List.take_prefix_take_left (by omega)).subset hw)
    have hlt := hwords.lt one_lt_W
    rwa [hlength] at hlt
  have hvalue := hS.value
  rw [take_top S.x S.wds _ hpos hget, Nat.ofDigits_append, Nat.ofDigits_singleton, hlength, Nat.mul_comm] at hvalue
  refine ⟨_, hget, by omega, ?_⟩
  rw [Nat.add_mul, Nat.one_mul]
  omega

/-- INTERNAL: the estimate of the quotient by the highest words is at most one too small. -/
theorem estimate_quotient (P s t v u : ℕ) (hslow : t * P ≤ s) (hshigh : s < (t + 1) * P) (hvlow : u * P ≤ v)
    (hvhigh : v < (u + 1) * P) (ht : 10 ≤ t) (hlt : v < 10 * s) :
    u / (t + 1) < 10 ∧ u / (t + 1) * s ≤ v ∧ v < (u / (t + 1) + 2) * s := by
  have hP : 0 < P := by
    by_contra hzero
    rw [Nat.eq_zero_of_not_pos hzero] at hshigh
    omega
  have hu : u < 10 * (t + 1) := by
    have h : u * P < 10 * (t + 1) * P :=
      calc u * P ≤ v := hvlow
        _ < 10 * s := hlt
        _ ≤ 10 * ((t + 1) * P) := Nat.mul_le_mul_left 10 hshigh.le
        _ = 10 * (t + 1) * P := by ring
    exact Nat.lt_of_mul_lt_mul_right h
  have hq : u / (t + 1) < 10 := (Nat.div_lt_iff_lt_mul (by omega)).mpr hu
  have hdiv := Nat.div_mul_le_self u (t + 1)
  have hnext : u < (u / (t + 1) + 1) * (t + 1) := Nat.lt_mul_of_div_lt (Nat.lt_succ_self _) (by omega)
  generalize u / (t + 1) = q at hq hdiv hnext ⊢
  refine ⟨hq, ?_, ?_⟩
  · calc q * s ≤ q * ((t + 1) * P) := Nat.mul_le_mul_left q hshigh.le
      _ = q * (t + 1) * P := by ring
      _ ≤ u * P := Nat.mul_le_mul_right P hdiv
      _ ≤ v := hvlow
  · have hqt : (q + 1) * (t + 1) ≤ (q + 2) * t := by nlinarith
    calc v < (u + 1) * P := hvhigh
      _ ≤ (q + 1) * (t + 1) * P := Nat.mul_le_mul_right P hnext
      _ ≤ (q + 2) * t * P := Nat.mul_le_mul_right P hqt
      _ = (q + 2) * (t * P) := by ring
      _ ≤ (q + 2) * s := Nat.mul_le_mul_left _ hslow

/-- The highest word of the divisor has four zero bits in front of it. -/
def Aligned (S : Bigint) : Prop := ∃ t, S.x[S.wds - 1]? = some t ∧ 2 ^ 27 ≤ t ∧ t < 2 ^ 28

/-- **`quorem` divides**, a dividend below ten times the divisor by a divisor with four zero bits in front.
SOURCE: dietlibc-printf.patch:2822-2935 -/
theorem quorem_spec (b S : Bigint) (v s : ℕ) (hb : Holds b v) (hS : Holds S s) (hs : s ≠ 0) (hv : v ≠ 0)
    (haligned : Aligned S) (hlt : v < 10 * s) : ∃ b', quorem b S = some (v / s, b') ∧ Holds b' (v % s) := by
  unfold quorem
  by_cases hshort : b.wds < S.wds
  · have hless := hb.wds_lt_of_lt hS hs hshort
    rw [if_pos hshort, Nat.div_eq_of_lt hless, Nat.mod_eq_of_lt hless]
    exact ⟨b, rfl, hb⟩
  · obtain ⟨t, ht, htlow, hthigh⟩ := haligned
    obtain ⟨t', ht', hslow, hshigh⟩ := top_word S s hS hs
    obtain rfl : t = t' := Option.some_inj.mp (ht.symm.trans ht')
    have hpos := hS.wds_pos hs
    have hwds : b.wds = S.wds := by
      refine le_antisymm (hb.wds_le hv S.wds ?_) (not_lt.mp hshort)
      calc v < 10 * s := hlt
        _ ≤ 10 * ((t + 1) * W ^ (S.wds - 1)) := Nat.mul_le_mul_left 10 hshigh.le
        _ = 10 * (t + 1) * W ^ (S.wds - 1) := by ring
        _ ≤ W * W ^ (S.wds - 1) := Nat.mul_le_mul_right _ (by norm_num; omega)
        _ = W ^ S.wds := by rw [← pow_succ', Nat.sub_add_cancel hpos]
    obtain ⟨u, hu, hvlow, hvhigh⟩ := top_word b v hb hv
    rw [hwds] at hu hvlow hvhigh
    obtain ⟨hq, hqle, hqlt⟩ := estimate_quotient _ s t v u hslow hshigh hvlow hvhigh (by omega) hlt
    have hmod : (t + 1) % W = t + 1 := Nat.mod_eq_of_lt (by norm_num; omega)
    rw [if_neg hshort]
    simp only [hu, ht, Option.bind_eq_bind, Option.bind_some, hmod, if_neg (show ¬ (t + 1 = 0) by omega)]
    generalize u / (t + 1) = q at hq hqle hqlt ⊢
    obtain ⟨b₁, hb₁, hholds⟩ : ∃ b₁, (if q ≠ 0 then subtractTimes b S q (S.wds - 1) else some b) = some b₁ ∧
        Holds b₁ (v - q * s) := by
      split_ifs with hzero
      · exact subtractTimes_holds b S v s q hb hS hs hwds (by norm_num; omega) hqle
      · exact ⟨b, rfl, by simpa [not_not.mp hzero] using hb⟩
    obtain ⟨i, hi, hneg, -⟩ := cmp_spec b₁ S _ s hholds hS hs
    simp only [hb₁, Option.bind_some, hi]
    have hexpand : (q + 2) * s = q * s + 2 * s := by ring
    by_cases hless : v - q * s < s
    · have hquot : v / s = q := Nat.div_eq_of_lt_le hqle (by rw [Nat.add_mul, Nat.one_mul]; omega)
      have hrem : v % s = v - q * s := by rw [Nat.mod_eq_sub, hquot, Nat.mul_comm]
      rw [if_neg (by have := hneg.mpr hless; omega), hquot, hrem]
      exact ⟨b₁, rfl, hholds⟩
    · have hquot : v / s = q + 1 :=
        Nat.div_eq_of_lt_le (by rw [Nat.add_mul, Nat.one_mul]; omega) (by rw [show q + 1 + 1 = q + 2 by omega]; exact hqlt)
      have hrem : v % s = v - q * s - 1 * s := by
        rw [Nat.mod_eq_sub, hquot, Nat.mul_comm, Nat.add_mul]
        omega
      have hwds₁ : b₁.wds = S.wds := by
        have hne : v - q * s ≠ 0 := by omega
        refine le_antisymm ?_ ?_
        · exact hholds.wds_le hne S.wds ((Nat.sub_le _ _).trans_lt (hwds ▸ hb.lt_pow))
        · exact hS.wds_le hs b₁.wds ((not_lt.mp hless).trans_lt hholds.lt_pow)
      obtain ⟨b₂, hb₂, hholds₂⟩ := subtractTimes_holds b₁ S _ s 1 hholds hS hs hwds₁ (by norm_num) (by omega)
      rw [if_pos (by have := mt hneg.mp hless; omega), hb₂, hquot, hrem]
      exact ⟨b₂, rfl, hholds₂⟩

/-! ## Computations -/

/-- A computation with big integers. -/
inductive Term where
  | word (i : ℕ)
  | multadd (t : Term) (m a : ℕ)
  | mult (t s : Term)
  | pow5mult (t : Term) (k : ℕ)
  | lshift (t : Term) (k : ℕ)
  | diff (t s : Term)

namespace Term

/-- The number that is to be computed. -/
def value : Term → ℕ
  | word i => i
  | multadd t m a => m * t.value + a
  | mult t s => t.value * s.value
  | pow5mult t k => t.value * 5 ^ k
  | lshift t k => t.value * 2 ^ k
  | diff t s => if t.value < s.value then s.value - t.value else t.value - s.value

/-- The words are words, no result is zero, and every one has a block. -/
def Fits : Term → Prop
  | word i => i ≠ 0 ∧ i < W
  | multadd t m a => t.Fits ∧ (0 < m ∧ m < W ∧ a < W) ∧ m * t.value + a < limit
  | mult t s => t.Fits ∧ s.Fits ∧ t.value * s.value < limit
  | pow5mult t k => t.Fits ∧ t.value * 5 ^ k < limit
  | lshift t k => t.Fits ∧ t.value * 2 ^ k < limit
  | diff t s => t.Fits ∧ s.Fits ∧ t.value ≠ s.value

/-- The computation in the order in which it is written; the powers of five that are kept are passed on. -/
def eval : Term → List Bigint → Option (Bigint × List Bigint)
  | word i, p5s => (i2b i).map fun b => (b, p5s)
  | multadd t m a, p5s => do
    let (b, p5s) ← t.eval p5s
    let b ← Model.DtoaBigint.multadd b m a
    some (b, p5s)
  | mult t s, p5s => do
    let (b, p5s) ← t.eval p5s
    let (c, p5s) ← s.eval p5s
    let b ← Model.DtoaBigint.mult b c
    some (b, p5s)
  | pow5mult t k, p5s => do
    let (b, p5s) ← t.eval p5s
    Model.DtoaBigint.pow5mult p5s b k
  | lshift t k, p5s => do
    let (b, p5s) ← t.eval p5s
    let b ← Model.DtoaBigint.lshift b k
    some (b, p5s)
  | diff t s, p5s => do
    let (b, p5s) ← t.eval p5s
    let (c, p5s) ← s.eval p5s
    let b ← Model.DtoaBigint.diff b c
    some (b, p5s)

/-- INTERNAL: a term that fits is not zero. -/
theorem Fits.value_ne_zero {t : Term} (h : t.Fits) : t.value ≠ 0 := by
  induction t with
  | word i => exact h.1
  | multadd t m a ih => exact Nat.ne_of_gt (Nat.add_pos_left (Nat.mul_pos h.2.1.1 (Nat.pos_of_ne_zero (ih h.1))) a)
  | mult t s iht ihs => exact Nat.mul_ne_zero (iht h.1) (ihs h.2.1)
  | pow5mult t k ih => exact Nat.mul_ne_zero (ih h.1) (by positivity)
  | lshift t k ih => exact Nat.mul_ne_zero (ih h.1) (by positivity)
  | diff t s iht ihs =>
    have hne := h.2.2
    rw [value]
    split_ifs <;> omega

/-- INTERNAL: **a computation is exact**, one case for each operation. -/
theorem eval_holds (t : Term) (p5s : List Bigint) (h : t.Fits) (hcache : Cache p5s) :
    ∃ b p5s', t.eval p5s = some (b, p5s') ∧ Holds b t.value ∧ Cache p5s' := by
  induction t generalizing p5s with
  | word i =>
    obtain ⟨b, hb, hholds⟩ := i2b_holds i h.2 h.1
    exact ⟨b, p5s, by rw [eval, hb]; rfl, hholds, hcache⟩
  | multadd t m a ih =>
    obtain ⟨ht, ⟨hm, hm', ha⟩, hlimit⟩ := h
    obtain ⟨b, p₁, hb, hholds, hcache₁⟩ := ih p5s ht hcache
    obtain ⟨c, hc, hholds'⟩ := multadd_holds b _ m a hholds ht.value_ne_zero hm hm' ha hlimit
    exact ⟨c, p₁, by simp only [eval, hb, hc, Option.bind_eq_bind, Option.bind_some], hholds', hcache₁⟩
  | mult t s iht ihs =>
    obtain ⟨ht, hs, hlimit⟩ := h
    obtain ⟨b, p₁, hb, hholds, hcache₁⟩ := iht p5s ht hcache
    obtain ⟨c, p₂, hc, hholds', hcache₂⟩ := ihs p₁ hs hcache₁
    obtain ⟨d, hd, hproduct⟩ := mult_holds b c _ _ hholds hholds' ht.value_ne_zero hs.value_ne_zero hlimit
    exact ⟨d, p₂, by simp only [eval, hb, hc, hd, Option.bind_eq_bind, Option.bind_some], hproduct, hcache₂⟩
  | pow5mult t k ih =>
    obtain ⟨ht, hlimit⟩ := h
    obtain ⟨b, p₁, hb, hholds, hcache₁⟩ := ih p5s ht hcache
    obtain ⟨c, p₂, hc, hpower, hcache₂⟩ := pow5mult_holds p₁ b _ k hcache₁ hholds ht.value_ne_zero hlimit
    exact ⟨c, p₂, by simp only [eval, hb, hc, Option.bind_eq_bind, Option.bind_some], hpower, hcache₂⟩
  | lshift t k ih =>
    obtain ⟨ht, hlimit⟩ := h
    obtain ⟨b, p₁, hb, hholds, hcache₁⟩ := ih p5s ht hcache
    obtain ⟨c, hc, hshifted⟩ := lshift_holds b _ k hholds ht.value_ne_zero hlimit
    exact ⟨c, p₁, by simp only [eval, hb, hc, Option.bind_eq_bind, Option.bind_some], hshifted, hcache₁⟩
  | diff t s iht ihs =>
    obtain ⟨ht, hs, -⟩ := h
    obtain ⟨b, p₁, hb, hholds, hcache₁⟩ := iht p5s ht hcache
    obtain ⟨c, p₂, hc, hholds', hcache₂⟩ := ihs p₁ hs hcache₁
    obtain ⟨d, hd, hdifference, -⟩ := diff_holds b c _ _ hholds hholds' ht.value_ne_zero hs.value_ne_zero
    exact ⟨d, p₂, by simp only [eval, hb, hc, hd, Option.bind_eq_bind, Option.bind_some], hdifference, hcache₂⟩

end Term

/-- **Big integers compute and compare exactly.** Two computations, one after the other, hold the numbers that they are to
compute, `cmp` tells which one is greater, and the powers of five that are kept stay right.
SOURCE: dietlibc-printf.patch:966-1479 -/
theorem computations_compare (t s : Term) (p5s : List Bigint) (ht : t.Fits) (hs : s.Fits) (hcache : Cache p5s) :
    ∃ b p₁ c p₂ i, t.eval p5s = some (b, p₁) ∧ s.eval p₁ = some (c, p₂) ∧ Holds b t.value ∧ Holds c s.value ∧ Cache p₂ ∧
      cmp b c = some i ∧ (i < 0 ↔ t.value < s.value) ∧ (i = 0 ↔ t.value = s.value) := by
  obtain ⟨b, p₁, hb, hholds, hcache₁⟩ := t.eval_holds p5s ht hcache
  obtain ⟨c, p₂, hc, hholds', hcache₂⟩ := s.eval_holds p₁ hs hcache₁
  obtain ⟨i, hi, hless, hsame⟩ := cmp_spec b c _ _ hholds hholds' hs.value_ne_zero
  exact ⟨b, p₁, c, p₂, i, hb, hc, hholds, hholds', hcache₂, hi, hless, hsame⟩

end TTLinux.Analysis.DtoaBigint
