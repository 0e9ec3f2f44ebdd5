import Mathlib.Data.List.GetD
import Mathlib.Tactic.IntervalCases
import TTLinux.Analysis.GettextLookup

/-!
# Catalogs of the other byte order

`catalog_open` on the byte-swapped image of a catalog. The images that come up on the way
are the catalog with some of its words still byte-swapped (`mix`). The loop swaps the hash
slots below `nstrings`, not all of them, so what it leaves behind depends on where the hash
table is occupied; `read_alike_of_occupiedBelow` says when this makes no difference.
-/

set_option autoImplicit false

namespace TTLinux.Analysis.GettextSwap

open TTLinux.Lib TTLinux.Lib.DoubleHashing TTLinux.Model.Gettext TTLinux.Analysis.GettextLookup

/-! ## Swapping a word -/

/-- The word that four bytes in memory make. -/
def wordAt (e : Endian) (a b c d : UInt8) : BitVec 32 :=
  match e with
  | .little => word d c b a
  | .big => word a b c d

/-- INTERNAL: the bits of a word. -/
theorem getLsbD_word (b3 b2 b1 b0 : UInt8) (i : ℕ) :
    (word b3 b2 b1 b0).getLsbD i =
      if i < 8 then b0.toBitVec.getLsbD i
      else if i < 16 then b1.toBitVec.getLsbD (i - 8)
      else if i < 24 then b2.toBitVec.getLsbD (i - 16)
      else b3.toBitVec.getLsbD (i - 24) := by
  unfold word
  simp only [BitVec.getLsbD_append]
  split_ifs <;> first | omega | congr 1

/-- INTERNAL: `__swap` reverses the bytes of a word.
SOURCE: dietlibc-gettext.patch:38-41 -/
theorem swap_word (b3 b2 b1 b0 : UInt8) : swap (word b3 b2 b1 b0) = word b0 b1 b2 b3 := by
  apply BitVec.eq_of_getLsbD_eq
  intro i hi
  unfold swap
  simp only [BitVec.getLsbD_or, BitVec.getLsbD_and, BitVec.getLsbD_ushiftRight,
    BitVec.getLsbD_shiftLeft, getLsbD_word]
  interval_cases i <;> simp

/-- INTERNAL: a byte of a word, by its bits. -/
theorem byteOf_eq (x : BitVec 32) (bit : ℕ) (b : UInt8)
    (h : ∀ i, i < 8 → x.getLsbD (bit + i) = b.toBitVec.getLsbD i) : byteOf x bit = b := by
  apply UInt8.toBitVec_inj.mp
  apply BitVec.eq_of_getLsbD_eq
  intro i hi
  rw [byteOf, BitVec.getLsbD_extractLsb']
  simp [hi, h i hi]

/-- INTERNAL: the bytes of a word. -/
theorem byteOf_word (b3 b2 b1 b0 : UInt8) :
    byteOf (word b3 b2 b1 b0) 0 = b0 ∧ byteOf (word b3 b2 b1 b0) 8 = b1 ∧
      byteOf (word b3 b2 b1 b0) 16 = b2 ∧ byteOf (word b3 b2 b1 b0) 24 = b3 := by
  refine ⟨?_, ?_, ?_, ?_⟩ <;>
  · apply byteOf_eq
    intro i hi
    rw [getLsbD_word]
    split_ifs <;> first | omega | (congr 1; omega)

/-- INTERNAL: reading a word that lies in the image. -/
theorem load32_eq (e : Endian) (img : Bytes) (off : ℕ) (h : off + 4 ≤ img.length) :
    load32 e img off = some (wordAt e (img.getD off 0) (img.getD (off + 1) 0) (img.getD (off + 2) 0)
      (img.getD (off + 3) 0)) := by
  have hdrop : img.drop off = img.getD off 0 :: img.getD (off + 1) 0 :: img.getD (off + 2) 0 ::
      img.getD (off + 3) 0 :: img.drop (off + 4) := by
    simp only [List.getD_eq_getElem _ _ (show off < img.length by omega),
      List.getD_eq_getElem _ _ (show off + 1 < img.length by omega),
      List.getD_eq_getElem _ _ (show off + 2 < img.length by omega),
      List.getD_eq_getElem _ _ (show off + 3 < img.length by omega)]
    rw [List.drop_eq_getElem_cons (show off < img.length by omega),
      List.drop_eq_getElem_cons (show off + 1 < img.length by omega),
      List.drop_eq_getElem_cons (show off + 1 + 1 < img.length by omega),
      List.drop_eq_getElem_cons (show off + 1 + 1 + 1 < img.length by omega)]
  rw [load32, hdrop]
  cases e <;> rfl

/-- INTERNAL: a word that can be read lies in the image. -/
theorem load32_inside (e : Endian) (img : Bytes) (off : ℕ) (x : BitVec 32)
    (h : load32 e img off = some x) : off + 4 ≤ img.length := by
  by_contra hlt
  have hlen : (img.drop off).length < 4 := by
    rw [List.length_drop]
    omega
  unfold load32 at h
  split at h
  · rename_i hdrop
    rw [hdrop] at hlen
    simp at hlen
    omega
  · simp at h

/-- INTERNAL: swapping four bytes in place.
SOURCE: dietlibc-gettext.patch:37-41 -/
theorem swapAt_eq (e : Endian) (img : Bytes) (off : ℕ) (h : off + 4 ≤ img.length) :
    swapAt e img off = some (store img off [img.getD (off + 3) 0, img.getD (off + 2) 0,
      img.getD (off + 1) 0, img.getD off 0]) := by
  rw [swapAt, load32_eq e img off h, Option.map_some]
  cases e with
  | little =>
    simp only [wordAt, swap_word, store32]
    obtain ⟨h0, h1, h2, h3⟩ := byteOf_word (img.getD off 0) (img.getD (off + 1) 0)
      (img.getD (off + 2) 0) (img.getD (off + 3) 0)
    rw [h0, h1, h2, h3]
  | big =>
    simp only [wordAt, swap_word, store32]
    obtain ⟨h0, h1, h2, h3⟩ := byteOf_word (img.getD (off + 3) 0) (img.getD (off + 2) 0)
      (img.getD (off + 1) 0) (img.getD off 0)
    rw [h0, h1, h2, h3]

/-! ## Images with some words swapped -/

/-- INTERNAL: a byte of a buffer in which four bytes have been overwritten. -/
theorem getD_store (img : Bytes) (off : ℕ) (a b c d : UInt8) (h : off + 4 ≤ img.length) (i : ℕ) :
    (store img off [a, b, c, d]).getD i 0 =
      if i = off then a else if i = off + 1 then b else if i = off + 2 then c
      else if i = off + 3 then d else img.getD i 0 := by
  have hlen : (img.take off).length = off := by
    rw [List.length_take]
    omega
  unfold store
  simp only [List.getD_eq_getElem?_getD]
  rcases Nat.lt_or_ge i off with hlt | hge
  · rw [List.append_assoc, List.getElem?_append_left (by omega), List.getElem?_take_of_lt hlt,
      if_neg (by omega), if_neg (by omega), if_neg (by omega), if_neg (by omega)]
  · rcases Nat.lt_or_ge i (off + 4) with hlt4 | hge4
    · rw [List.getElem?_append_left (by simp; omega), List.getElem?_append_right (by omega), hlen]
      obtain rfl | rfl | rfl | rfl : i = off ∨ i = off + 1 ∨ i = off + 2 ∨ i = off + 3 := by omega
      · simp
      · simp
      · simp
      · simp
    · rw [List.getElem?_append_right (by simp; omega), List.getElem?_drop, if_neg (by omega),
        if_neg (by omega), if_neg (by omega), if_neg (by omega)]
      congr 2
      simp only [List.length_append, hlen, List.length_cons, List.length_nil]
      omega

/-- INTERNAL: storing a word keeps the length of the image. -/
theorem length_store (img : Bytes) (off : ℕ) (a b c d : UInt8) (h : off + 4 ≤ img.length) :
    (store img off [a, b, c, d]).length = img.length := by
  simp only [store, List.length_append, List.length_take, List.length_drop, List.length_cons,
    List.length_nil]
  omega

/-- INTERNAL: buffers of one length with the same bytes. -/
theorem ext_getD (l l' : Bytes) (hlen : l.length = l'.length)
    (h : ∀ i, i < l.length → l.getD i 0 = l'.getD i 0) : l = l' := by
  apply List.ext_getElem hlen
  intro i hi hi'
  rw [← List.getD_eq_getElem l 0 hi, ← List.getD_eq_getElem l' 0 hi']
  exact h i hi

/-- A division of some of the first `len` bytes into words: `wordOf i` is the start of the word
that the byte `i` belongs to. -/
structure Words (wordOf : ℕ → Option ℕ) (len : ℕ) : Prop where
  bounds : ∀ i a, wordOf i = some a → a ≤ i ∧ i < a + 4
  whole : ∀ i a, wordOf i = some a → ∀ j, j < 4 → wordOf (a + j) = some a
  inside : ∀ i a, wordOf i = some a → a + 4 ≤ len

section

variable (wordOf : ℕ → Option ℕ)

/-- Where the byte `i` comes from when only the words in `S` are in order. -/
def mirror (S : Finset ℕ) (i : ℕ) : ℕ :=
  match wordOf i with
  | some a => if a ∈ S then i else a + (a + 3 - i)
  | none => i

/-- The image in which every word that is not in `S` is byte-swapped. -/
def mix (S : Finset ℕ) (img : Bytes) : Bytes :=
  (List.range img.length).map fun i => img.getD (mirror wordOf S i) 0

/-- INTERNAL: so does swapping some of the words. -/
@[simp] theorem length_mix (S : Finset ℕ) (img : Bytes) :
    (mix wordOf S img).length = img.length := by
  simp [mix]

/-- INTERNAL: a byte of the image with some words swapped. -/
theorem getD_mix (S : Finset ℕ) (img : Bytes) (i : ℕ) (hi : i < img.length) :
    (mix wordOf S img).getD i 0 = img.getD (mirror wordOf S i) 0 := by
  rw [List.getD_eq_getElem _ _ (by simpa using hi)]
  simp [mix]

/-- INTERNAL: a byte of a word. -/
theorem mirror_word (S : Finset ℕ) (a j : ℕ) (h : wordOf (a + j) = some a) (hj : j < 4) :
    mirror wordOf S (a + j) = if a ∈ S then a + j else a + (3 - j) := by
  unfold mirror
  rw [h]
  simp only
  split_ifs
  · rfl
  · omega

/-- INTERNAL: a byte of a word in a mixed image. -/
theorem getD_mix_word (S : Finset ℕ) (img : Bytes) (words : Words wordOf img.length) (a : ℕ)
    (ha : wordOf a = some a) (j : ℕ) (hj : j < 4) :
    (mix wordOf S img).getD (a + j) 0 = img.getD (if a ∈ S then a + j else a + (3 - j)) 0 := by
  have hin := words.inside a a ha
  rw [getD_mix wordOf S img _ (by omega), mirror_word wordOf S a j (words.whole a a ha j hj) hj]

/-- INTERNAL: **reading a word** of a mixed image. -/
theorem load32_mix (e : Endian) (S : Finset ℕ) (img : Bytes) (words : Words wordOf img.length)
    (a : ℕ) (ha : wordOf a = some a) :
    load32 e (mix wordOf S img) a =
      if a ∈ S then load32 e img a else (load32 e img a).map swap := by
  have hin := words.inside a a ha
  have hbyte : ∀ j, j < 4 → (mix wordOf S img).getD (a + j) 0 =
      if a ∈ S then img.getD (a + j) 0 else img.getD (a + (3 - j)) 0 := by
    intro j hj
    rw [getD_mix_word wordOf S img words a ha j hj]
    split_ifs <;> rfl
  have h0 := hbyte 0 (by omega)
  have h1 := hbyte 1 (by omega)
  have h2 := hbyte 2 (by omega)
  have h3 := hbyte 3 (by omega)
  rw [Nat.add_zero] at h0
  rw [load32_eq e _ a (by simpa using hin), load32_eq e img a hin, h0, h1, h2, h3]
  split_ifs
  · rfl
  · cases e with
    | little => simp [wordAt, swap_word]
    | big => simp [wordAt, swap_word]

/-- INTERNAL: **swapping a word** of a mixed image.
SOURCE: dietlibc-gettext.patch:37-41 -/
theorem swapAt_mix (e : Endian) (S : Finset ℕ) (img : Bytes) (words : Words wordOf img.length)
    (a : ℕ) (ha : wordOf a = some a) (hS : a ∉ S) :
    swapAt e (mix wordOf S img) a = some (mix wordOf (insert a S) img) := by
  have hin := words.inside a a ha
  have hin' : a + 4 ≤ (mix wordOf S img).length := by simpa using hin
  have hbyte : ∀ j, j < 4 → (mix wordOf S img).getD (a + j) 0 = img.getD (a + (3 - j)) 0 := by
    intro j hj
    rw [getD_mix_word wordOf S img words a ha j hj, if_neg hS]
  have h0 := hbyte 0 (by omega)
  have h1 := hbyte 1 (by omega)
  have h2 := hbyte 2 (by omega)
  have h3 := hbyte 3 (by omega)
  rw [Nat.add_zero] at h0
  rw [swapAt_eq e _ a hin', h0, h1, h2, h3]
  congr 1
  apply ext_getD
  · rw [length_store _ _ _ _ _ _ hin', length_mix, length_mix]
  · intro i hi
    rw [length_store _ _ _ _ _ _ hin', length_mix] at hi
    have hnew : ∀ j, j < 4 → mirror wordOf (insert a S) (a + j) = a + j := by
      intro j hj
      rw [mirror_word wordOf _ a j (words.whole a a ha j hj) hj, if_pos (Finset.mem_insert_self a S)]
    rw [getD_store _ _ _ _ _ _ hin', getD_mix wordOf (insert a S) img i hi]
    by_cases hword : i = a ∨ i = a + 1 ∨ i = a + 2 ∨ i = a + 3
    · -- a byte of the word itself
      have hnew0 := hnew 0 (by omega)
      rw [Nat.add_zero] at hnew0
      obtain rfl | rfl | rfl | rfl := hword
      · rw [hnew0]
        simp
      · rw [hnew 1 (by omega)]
        simp
      · rw [hnew 2 (by omega)]
        simp
      · rw [hnew 3 (by omega)]
        simp
    · -- a byte of another word, or of none
      have hother : mirror wordOf (insert a S) i = mirror wordOf S i := by
        unfold mirror
        cases hi : wordOf i with
        | none => rfl
        | some b =>
          have hb := words.bounds i b hi
          have hne : b ≠ a := by
            rintro rfl
            omega
          simp [hne]
      rw [if_neg (by omega), if_neg (by omega), if_neg (by omega), if_neg (by omega), hother,
        getD_mix wordOf S img i hi]

/-- INTERNAL: a string outside of the words is left as it is. -/
theorem prefix_drop_mix (S : Finset ℕ) (img str : Bytes) (a : ℕ)
    (hnone : ∀ j, j < str.length → wordOf (a + j) = none) (h : str <+: img.drop a) :
    str <+: (mix wordOf S img).drop a := by
  have hlen := h.length_le
  rw [List.length_drop] at hlen
  rw [List.prefix_iff_getElem?] at h ⊢
  intro j hj
  have hjlt : a + j < img.length := by omega
  have hmirror : mirror wordOf S (a + j) = a + j := by
    unfold mirror
    rw [hnone j hj]
  have hbyte := getD_mix wordOf S img (a + j) hjlt
  rw [hmirror, List.getD_eq_getElem _ _ (by simpa using hjlt), List.getD_eq_getElem _ _ hjlt] at hbyte
  have hj' := h j hj
  rw [List.getElem?_drop, List.getElem?_eq_getElem hjlt] at hj'
  rw [List.getElem?_drop, List.getElem?_eq_getElem (by simpa using hjlt), hbyte, hj']

end

/-! ## The words of a catalog -/

/-- The bytes `a, …, a + len - 1` are behind the header and outside of the tables. -/
structure Clear (L : Layout) (n a len : ℕ) : Prop where
  header : 28 ≤ a
  otab : a + len ≤ L.otab ∨ L.otab + 8 * n ≤ a
  ttab : a + len ≤ L.ttab ∨ L.ttab + 8 * n ≤ a
  htab : a + len ≤ L.htab ∨ L.htab + 4 * L.size ≤ a

/-- The header, the tables and the strings of a catalog do not overlap. -/
structure Apart (entries : List Entry) (L : Layout) : Prop where
  otab : 28 ≤ L.otab
  ttab : 28 ≤ L.ttab
  htab : 28 ≤ L.htab
  otab_ttab : L.otab + 8 * entries.length ≤ L.ttab ∨ L.ttab + 8 * entries.length ≤ L.otab
  otab_htab : L.otab + 8 * entries.length ≤ L.htab ∨ L.htab + 4 * L.size ≤ L.otab
  ttab_htab : L.ttab + 8 * entries.length ≤ L.htab ∨ L.htab + 4 * L.size ≤ L.ttab
  orig : ∀ i x, entries[i]? = some x → Clear L entries.length (L.orig i) (x.orig.length + 1)
  trans : ∀ i x, entries[i]? = some x → Clear L entries.length (L.trans i) (x.trans.length + 1)

/-- The word of the header or of a table that a byte belongs to. -/
def catalogWord (L : Layout) (n i : ℕ) : Option ℕ :=
  if i < 28 then some (i / 4 * 4)
  else if L.otab ≤ i ∧ i < L.otab + 8 * n then some (L.otab + (i - L.otab) / 4 * 4)
  else if L.ttab ≤ i ∧ i < L.ttab + 8 * n then some (L.ttab + (i - L.ttab) / 4 * 4)
  else if L.htab ≤ i ∧ i < L.htab + 4 * L.size then some (L.htab + (i - L.htab) / 4 * 4)
  else none

/-- **The byte-swapped image** of a catalog: every word of the header and of the tables is
reversed. -/
def swapped (L : Layout) (n : ℕ) (img : Bytes) : Bytes := mix (catalogWord L n) ∅ img

section

variable (e : Endian) (img : Bytes) (entries : List Entry) (L : Layout)

/-- INTERNAL: the words of the header. -/
theorem catalogWord_header (n i : ℕ) (hi : i < 28) : catalogWord L n i = some (i / 4 * 4) := by
  rw [catalogWord, if_pos hi]

/-- INTERNAL: the words of the descriptors of messages. -/
theorem catalogWord_otab (hap : Apart entries L) (q : ℕ) (hq : q < 8 * entries.length) :
    catalogWord L entries.length (L.otab + q) = some (L.otab + q / 4 * 4) := by
  have h1 := hap.otab
  rw [catalogWord, if_neg (by omega), if_pos (by omega), Nat.add_sub_cancel_left]

/-- INTERNAL: the words of the descriptors of translations. -/
theorem catalogWord_ttab (hap : Apart entries L) (q : ℕ) (hq : q < 8 * entries.length) :
    catalogWord L entries.length (L.ttab + q) = some (L.ttab + q / 4 * 4) := by
  have h1 := hap.ttab
  have h2 := hap.otab_ttab
  rw [catalogWord, if_neg (by omega), if_neg (by omega), if_pos (by omega), Nat.add_sub_cancel_left]

/-- INTERNAL: the words of the hash table. -/
theorem catalogWord_htab (hap : Apart entries L) (q : ℕ) (hq : q < 4 * L.size) :
    catalogWord L entries.length (L.htab + q) = some (L.htab + q / 4 * 4) := by
  have h1 := hap.htab
  have h2 := hap.otab_htab
  have h3 := hap.ttab_htab
  rw [catalogWord, if_neg (by omega), if_neg (by omega), if_neg (by omega), if_pos (by omega),
    Nat.add_sub_cancel_left]

/-- INTERNAL: a clear place has no words. -/
theorem catalogWord_clear (n a len : ℕ) (h : Clear L n a len) (j : ℕ) (hj : j < len) :
    catalogWord L n (a + j) = none := by
  have h0 := h.header
  have h1 := h.otab
  have h2 := h.ttab
  have h3 := h.htab
  rw [catalogWord, if_neg (by omega), if_neg (by omega), if_neg (by omega), if_neg (by omega)]

/-- INTERNAL: the words are those of the header and of the three tables. -/
theorem catalogWord_cases (n i a : ℕ) (h : catalogWord L n i = some a) :
    (i < 28 ∧ a = i / 4 * 4) ∨
    (∃ q, q < 8 * n ∧ i = L.otab + q ∧ a = L.otab + q / 4 * 4) ∨
    (∃ q, q < 8 * n ∧ i = L.ttab + q ∧ a = L.ttab + q / 4 * 4) ∨
    (∃ q, q < 4 * L.size ∧ i = L.htab + q ∧ a = L.htab + q / 4 * 4) := by
  unfold catalogWord at h
  split_ifs at h with h1 h2 h3 h4
  · exact Or.inl ⟨h1, (Option.some.inj h).symm⟩
  · exact Or.inr (Or.inl ⟨i - L.otab, by omega, by omega, (Option.some.inj h).symm⟩)
  · exact Or.inr (Or.inr (Or.inl ⟨i - L.ttab, by omega, by omega, (Option.some.inj h).symm⟩))
  · exact Or.inr (Or.inr (Or.inr ⟨i - L.htab, by omega, by omega, (Option.some.inj h).symm⟩))

/-- INTERNAL: a descriptor that a catalog has lies in its image. -/
theorem desc_inside (tab t v : ℕ) (x y : ℕ) (hlen : Holds e img (tab + 8 * t) x)
    (hoff : Holds e img (tab + 8 * t + 4) y) (hv : v = 8 * t ∨ v = 8 * t + 4) :
    tab + v + 4 ≤ img.length := by
  have h1 := load32_inside e img _ _ hlen.2
  have h2 := load32_inside e img _ _ hoff.2
  omega

/-- INTERNAL: **the division of a catalog into words.** -/
theorem catalogWord_words (hcat : IsCatalog e img entries L) (hap : Apart entries L) :
    Words (catalogWord L entries.length) img.length := by
  have hheader := load32_inside e img _ _ hcat.htab.2
  have hentry : ∀ q, q < 8 * entries.length → ∃ x, entries[q / 8]? = some x := fun q hq =>
    ⟨_, List.getElem?_eq_getElem (show q / 8 < entries.length by omega)⟩
  refine ⟨?_, ?_, ?_⟩
  · intro i a h
    rcases catalogWord_cases L _ i a h with ⟨h1, rfl⟩ | ⟨q, hq, rfl, rfl⟩ | ⟨q, hq, rfl, rfl⟩ |
      ⟨q, hq, rfl, rfl⟩ <;> omega
  · intro i a h j hj
    rcases catalogWord_cases L _ i a h with ⟨h1, rfl⟩ | ⟨q, hq, rfl, rfl⟩ | ⟨q, hq, rfl, rfl⟩ |
      ⟨q, hq, rfl, rfl⟩
    · rw [catalogWord_header L _ _ (by omega)]
      congr 1
      omega
    · rw [Nat.add_assoc, catalogWord_otab entries L hap _ (by omega)]
      congr 2
      omega
    · rw [Nat.add_assoc, catalogWord_ttab entries L hap _ (by omega)]
      congr 2
      omega
    · rw [Nat.add_assoc, catalogWord_htab entries L hap _ (by omega)]
      congr 2
      omega
  · intro i a h
    rcases catalogWord_cases L _ i a h with ⟨h1, rfl⟩ | ⟨q, hq, rfl, rfl⟩ | ⟨q, hq, rfl, rfl⟩ |
      ⟨q, hq, rfl, rfl⟩
    · unfold hashTabAt at hheader
      omega
    · obtain ⟨x, hx⟩ := hentry q hq
      obtain ⟨hlen, hoff⟩ := hcat.origDesc _ _ hx
      exact desc_inside e img L.otab (q / 8) (q / 4 * 4) _ _ hlen hoff (by omega)
    · obtain ⟨x, hx⟩ := hentry q hq
      obtain ⟨hlen, hoff⟩ := hcat.transDesc _ _ hx
      exact desc_inside e img L.ttab (q / 8) (q / 4 * 4) _ _ hlen hoff (by omega)
    · have h1 := load32_inside e img _ _ (hcat.slots (q / 4) (by omega)).2
      omega

end

/-! ## The swap pass -/

/-- The words of the header that are swapped. -/
def headerWords : Finset ℕ := {nstringsAt, origTabAt, transTabAt, hashSizeAt, hashTabAt}

/-- The words that are swapped after the slots below `k` have been dealt with. -/
def swappedBy (L : Layout) (tab : Table) : ℕ → Finset ℕ
  | 0 => headerWords
  | k + 1 =>
    let S := insert (L.htab + 4 * k) (swappedBy L tab k)
    if tab k = 0 then S
    else insert (L.ttab + 8 * (tab k - 1) + 4) (insert (L.ttab + 8 * (tab k - 1))
      (insert (L.otab + 8 * (tab k - 1) + 4) (insert (L.otab + 8 * (tab k - 1)) S)))

/-- INTERNAL: the swapped words: the header, the slots, and the descriptors that they lead
to. -/
theorem mem_swappedBy (L : Layout) (tab : Table) (k a : ℕ) :
    a ∈ swappedBy L tab k ↔ a ∈ headerWords ∨ ∃ s, s < k ∧ (a = L.htab + 4 * s ∨ tab s ≠ 0 ∧
      (a = L.otab + 8 * (tab s - 1) ∨ a = L.otab + 8 * (tab s - 1) + 4 ∨
        a = L.ttab + 8 * (tab s - 1) ∨ a = L.ttab + 8 * (tab s - 1) + 4)) := by
  induction k with
  | zero => simp [swappedBy]
  | succ k ih =>
    have hsplit : ∀ P : ℕ → Prop, (∃ s, s < k + 1 ∧ P s) ↔ P k ∨ ∃ s, s < k ∧ P s := by
      intro P
      constructor
      · rintro ⟨s, hs, hP⟩
        rcases Nat.lt_succ_iff_lt_or_eq.mp hs with hlt | rfl
        · exact Or.inr ⟨s, hlt, hP⟩
        · exact Or.inl hP
      · rintro (hP | ⟨s, hs, hP⟩)
        · exact ⟨k, Nat.lt_succ_self k, hP⟩
        · exact ⟨s, Nat.lt_succ_of_lt hs, hP⟩
    rw [hsplit, swappedBy]
    split_ifs with h0
    · simp only [Finset.mem_insert, ih, h0, ne_eq, not_true_eq_false, false_and, or_false]
      exact or_left_comm
    · simp only [Finset.mem_insert, ih, h0, ne_eq, not_false_eq_true, true_and]
      apply Iff.of_eq
      ac_rfl

section

variable (e : Endian) (img : Bytes) (entries : List Entry) (L : Layout)

/-- INTERNAL: fewer strings than slots. -/
theorem length_lt_size (hcat : HasTables e img entries L) : entries.length < L.size := by
  have hplaced := hcat.placed
  obtain ⟨s0, hs0, hzero⟩ := hcat.empty
  have hslot : ∀ i, i < entries.length →
      ∃ s, s < L.size ∧ hashTable L.size entries s = i + 1 := by
    intro i hi
    obtain ⟨k, -, hval, -⟩ := hplaced.onPath i hi
    exact ⟨_, slot_lt L.size hcat.size_gt _ k, hval⟩
  choose! f hf hval using hslot
  -- the strings take different slots, and one slot is empty
  have hcard : (Finset.range entries.length).card ≤ ((Finset.range L.size).erase s0).card := by
    apply Finset.card_le_card_of_injOn f
    · intro i hi
      have hi' := Finset.mem_range.mp hi
      refine Finset.mem_erase.mpr ⟨?_, Finset.mem_range.mpr (hf i hi')⟩
      intro heq
      have hv := hval i hi'
      rw [heq, hzero] at hv
      omega
    · intro i hi j hj hij
      have hvi := hval i (Finset.mem_range.mp hi)
      have hvj := hval j (Finset.mem_range.mp hj)
      rw [hij, hvj] at hvi
      omega
  rw [Finset.card_erase_of_mem (Finset.mem_range.mpr hs0), Finset.card_range, Finset.card_range] at hcard
  have hpos := hcat.size_gt
  omega

/-- INTERNAL: a slot of the hash table has been swapped when the loop has passed it. -/
theorem htab_mem_swappedBy (hap : Apart entries L) (tab : Table) (hle : ∀ s, tab s ≤ entries.length)
    (k s : ℕ) (hs : s < L.size) : L.htab + 4 * s ∈ swappedBy L tab k ↔ s < k := by
  have h1 := hap.htab
  have h2 := hap.otab_htab
  have h3 := hap.ttab_htab
  rw [mem_swappedBy]
  constructor
  · rintro (h | ⟨s', hs', h | ⟨h0, h⟩⟩)
    · simp only [headerWords, Finset.mem_insert, Finset.mem_singleton, nstringsAt, origTabAt,
        transTabAt, hashSizeAt, hashTabAt] at h
      omega
    · omega
    · have hv := hle s'
      omega
  · intro h
    exact Or.inr ⟨s, h, Or.inl rfl⟩

/-- INTERNAL: the descriptors of a string have been swapped when the loop has passed its slot. -/
theorem desc_mem_swappedBy (hap : Apart entries L) (tab : Table) (hle : ∀ s, tab s ≤ entries.length)
    (k t d : ℕ) (ht : t < entries.length)
    (hd : d = L.otab + 8 * t ∨ d = L.otab + 8 * t + 4 ∨ d = L.ttab + 8 * t ∨ d = L.ttab + 8 * t + 4)
    (hk : k ≤ L.size) : d ∈ swappedBy L tab k ↔ ∃ s, s < k ∧ tab s = t + 1 := by
  have h1 := hap.otab
  have h2 := hap.ttab
  have h3 := hap.otab_htab
  have h4 := hap.ttab_htab
  have h5 := hap.otab_ttab
  rw [mem_swappedBy]
  constructor
  · rintro (h | ⟨s, hs, h | ⟨h0, h⟩⟩)
    · simp only [headerWords, Finset.mem_insert, Finset.mem_singleton, nstringsAt, origTabAt,
        transTabAt, hashSizeAt, hashTabAt] at h
      omega
    · omega
    · -- a descriptor belongs to one string
      have hv := hle s
      have hindex : tab s - 1 = t := by
        rcases hd with rfl | rfl | rfl | rfl <;> omega
      exact ⟨s, hs, by omega⟩
  · rintro ⟨s, hs, h⟩
    refine Or.inr ⟨s, hs, Or.inr ⟨by omega, ?_⟩⟩
    rw [h, Nat.add_sub_cancel]
    exact hd

/-- INTERNAL: a word of the header, in order or byte-swapped. -/
theorem isWord_header (n a : ℕ) (ha : a ∈ headerWords) : catalogWord L n a = some a := by
  simp only [headerWords, Finset.mem_insert, Finset.mem_singleton, nstringsAt, origTabAt,
    transTabAt, hashSizeAt, hashTabAt] at ha
  rw [catalogWord_header L n a (by omega)]
  congr 1
  omega

/-- INTERNAL: **the swap of the header.**
SOURCE: dietlibc-gettext.patch:170-174 -/
theorem swapHeader_swapped (words : Words (catalogWord L entries.length) img.length) :
    swapHeader e (swapped L entries.length img) =
      some (mix (catalogWord L entries.length) headerWords img) := by
  have hword : ∀ a ∈ headerWords, catalogWord L entries.length a = some a :=
    isWord_header L entries.length
  have hset : insert hashTabAt (insert hashSizeAt (insert transTabAt (insert origTabAt
      (insert nstringsAt (∅ : Finset ℕ))))) = headerWords := by decide
  unfold swapHeader swapped
  rw [swapAt_mix _ e ∅ img words nstringsAt (hword _ (by decide)) (by decide)]
  simp only [Option.bind_eq_bind, Option.bind_some]
  rw [swapAt_mix _ e _ img words origTabAt (hword _ (by decide)) (by decide), Option.bind_some,
    swapAt_mix _ e _ img words transTabAt (hword _ (by decide)) (by decide), Option.bind_some,
    swapAt_mix _ e _ img words hashSizeAt (hword _ (by decide)) (by decide), Option.bind_some,
    swapAt_mix _ e _ img words hashTabAt (hword _ (by decide)) (by decide), hset]

end

section

variable (e : Endian) (img : Bytes) (entries : List Entry) (L : Layout)

/-- INTERNAL: a word of a descriptor. -/
theorem isWord_desc (hap : Apart entries L) (t d : ℕ) (ht : t < entries.length)
    (hd : d = L.otab + 8 * t ∨ d = L.otab + 8 * t + 4 ∨ d = L.ttab + 8 * t ∨ d = L.ttab + 8 * t + 4) :
    catalogWord L entries.length d = some d := by
  rcases hd with rfl | rfl | rfl | rfl
  · rw [catalogWord_otab entries L hap (8 * t) (by omega)]
    congr 2
    omega
  · rw [Nat.add_assoc, catalogWord_otab entries L hap (8 * t + 4) (by omega)]
    congr 2
    omega
  · rw [catalogWord_ttab entries L hap (8 * t) (by omega)]
    congr 2
    omega
  · rw [Nat.add_assoc, catalogWord_ttab entries L hap (8 * t + 4) (by omega)]
    congr 2
    omega

/-- INTERNAL: the slots of the hash table are words. -/
theorem isWord_htab (hap : Apart entries L) (s : ℕ) (hs : s < L.size) :
    catalogWord L entries.length (L.htab + 4 * s) = some (L.htab + 4 * s) := by
  rw [catalogWord_htab entries L hap (4 * s) (by omega)]
  congr 2
  omega

/-- INTERNAL: the swap of one descriptor.
SOURCE: dietlibc-gettext.patch:184-187 -/
theorem swapDesc_mix (hap : Apart entries L) (words : Words (catalogWord L entries.length) img.length)
    (S : Finset ℕ) (t d : ℕ) (ht : t < entries.length)
    (hd : d = L.otab + 8 * t ∨ d = L.ttab + 8 * t) (h0 : d ∉ S) (h4 : d + 4 ∉ S) :
    swapDesc e (mix (catalogWord L entries.length) S img) d =
      some (mix (catalogWord L entries.length) (insert (d + 4) (insert d S)) img) := by
  have hw : catalogWord L entries.length d = some d :=
    isWord_desc entries L hap t d ht (by omega)
  have hw4 : catalogWord L entries.length (d + 4) = some (d + 4) :=
    isWord_desc entries L hap t (d + 4) ht (by omega)
  unfold swapDesc
  rw [swapAt_mix _ e S img words d hw h0]
  simp only [Option.bind_eq_bind, Option.bind_some]
  apply swapAt_mix _ e _ img words (d + 4) hw4
  rw [Finset.mem_insert, not_or]
  exact ⟨by omega, h4⟩

/-- INTERNAL: **one turn of the swap loop.**
SOURCE: dietlibc-gettext.patch:179-188 -/
theorem swapSlot_mix (hcat : IsCatalog e img entries L) (hap : Apart entries L)
    (words : Words (catalogWord L entries.length) img.length) (k : ℕ) (hk : k < L.size) :
    swapSlot e L.otab L.ttab L.htab k (mix (catalogWord L entries.length)
        (swappedBy L (hashTable L.size entries) k) img) =
      some (mix (catalogWord L entries.length)
        (swappedBy L (hashTable L.size entries) (k + 1)) img) := by
  have hplaced := hcat.placed
  have hle := hplaced.le
  obtain ⟨hlt, hload⟩ := hcat.slots k hk
  have hslotWord := isWord_htab entries L hap k hk
  have hslotNot : L.htab + 4 * k ∉ swappedBy L (hashTable L.size entries) k := by
    rw [htab_mem_swappedBy entries L hap _ hle k k hk]
    exact Nat.lt_irrefl k
  unfold swapSlot
  rw [swapAt_mix _ e _ img words _ hslotWord hslotNot]
  simp only [Option.bind_eq_bind, Option.bind_some]
  rw [load32_mix _ e _ img words _ hslotWord, if_pos (Finset.mem_insert_self _ _), hload,
    Option.bind_some, swappedBy]
  have hzero : BitVec.ofNat 32 (hashTable L.size entries k) = 0#32 ↔ hashTable L.size entries k = 0 := by
    rw [← BitVec.toNat_inj, toNat_ofNat_word _ hlt]
    rfl
  simp only [hzero]
  by_cases h0 : hashTable L.size entries k = 0
  · rw [if_pos h0, if_pos h0]
  · rw [if_neg h0, if_neg h0, ofNat_pred _ h0, toNat_ofNat_word _ (by omega)]
    have ht : hashTable L.size entries k - 1 < entries.length := by
      have h := hle k
      omega
    -- no earlier slot leads to the same string
    have hfresh : ¬ ∃ s, s < k ∧ hashTable L.size entries s = hashTable L.size entries k - 1 + 1 := by
      rintro ⟨s, hs, heq⟩
      have hinj := hplaced.inj s k (by omega) (by omega)
      omega
    have hnot : ∀ d, (d = L.otab + 8 * (hashTable L.size entries k - 1) ∨
        d = L.otab + 8 * (hashTable L.size entries k - 1) + 4 ∨
        d = L.ttab + 8 * (hashTable L.size entries k - 1) ∨
        d = L.ttab + 8 * (hashTable L.size entries k - 1) + 4) →
        d ∉ insert (L.htab + 4 * k) (swappedBy L (hashTable L.size entries) k) := by
      intro d hd hmem
      rcases Finset.mem_insert.mp hmem with heq | hmem
      · have h3 := hap.otab_htab
        have h4 := hap.ttab_htab
        omega
      · exact hfresh ((desc_mem_swappedBy entries L hap _ hle k _ d ht hd (by omega)).mp hmem)
    have h5 := hap.otab_ttab
    rw [swapDesc_mix e img entries L hap words _ _ _ ht (Or.inl rfl) (hnot _ (by omega))
      (hnot _ (by omega)), Option.bind_some]
    apply swapDesc_mix e img entries L hap words _ _ _ ht (Or.inr rfl)
    · rw [Finset.mem_insert, Finset.mem_insert, not_or, not_or]
      exact ⟨by omega, by omega, hnot _ (by omega)⟩
    · rw [Finset.mem_insert, Finset.mem_insert, not_or, not_or]
      exact ⟨by omega, by omega, hnot _ (by omega)⟩

/-- INTERNAL: in the image that is partly swapped the words of the header can be read. -/
theorem load32_header (words : Words (catalogWord L entries.length) img.length) (tab : Table)
    (k a : ℕ) (ha : a ∈ headerWords) :
    load32 e (mix (catalogWord L entries.length) (swappedBy L tab k) img) a = load32 e img a := by
  rw [load32_mix _ e _ img words a (isWord_header L _ a ha), if_pos]
  exact (mem_swappedBy L tab k a).mpr (Or.inl ha)

/-- INTERNAL: **the whole swap loop.**
SOURCE: dietlibc-gettext.patch:179-188 -/
theorem swapLoop_mix (hcat : IsCatalog e img entries L) (hap : Apart entries L)
    (words : Words (catalogWord L entries.length) img.length) (r k : ℕ)
    (hr : k + r = entries.length) :
    swapLoop e L.otab L.ttab L.htab k (mix (catalogWord L entries.length)
        (swappedBy L (hashTable L.size entries) k) img) =
      some (mix (catalogWord L entries.length)
        (swappedBy L (hashTable L.size entries) entries.length) img) := by
  have hsize := length_lt_size e img entries L hcat.toHasTables
  induction r generalizing k with
  | zero =>
    rw [swapLoop, load32_header e img entries L words _ k _ (by decide), hcat.nstrings.2]
    simp only [toNat_ofNat_word _ hcat.nstrings.1]
    rw [dif_neg (by omega), ← hr, Nat.add_zero]
  | succ r ih =>
    rw [swapLoop, load32_header e img entries L words _ k _ (by decide), hcat.nstrings.2]
    simp only [toNat_ofNat_word _ hcat.nstrings.1]
    rw [dif_pos (by omega), swapSlot_mix e img entries L hcat hap words k (by omega), Option.bind_some]
    exact ih (k + 1) (by omega)

/-- The buffer that `catalog_open` makes of the byte-swapped image. -/
def reloaded : Bytes :=
  mix (catalogWord L entries.length) (swappedBy L (hashTable L.size entries) entries.length) img

/-- INTERNAL: **`catalog_open` on a byte-swapped catalog.**
SOURCE: dietlibc-gettext.patch:161-195 -/
theorem catalogOpen_swapped (hcat : IsCatalog e img entries L) (hap : Apart entries L) :
    catalogOpen e (swapped L entries.length img) = some (some (reloaded img entries L)) := by
  have words := catalogWord_words e img entries L hcat hap
  have hmagic : load32 e (swapped L entries.length img) 0 = some MAGIC_SWAPPED := by
    unfold swapped
    rw [load32_mix _ e ∅ img words 0 (catalogWord_header L _ 0 (by omega)),
      if_neg (Finset.notMem_empty 0), hcat.magic]
    decide
  have hload : ∀ a ∈ headerWords, load32 e (mix (catalogWord L entries.length) headerWords img) a =
      load32 e img a := load32_header e img entries L words (hashTable L.size entries) 0
  have hpass : swapCatalog e (swapped L entries.length img) = some (reloaded img entries L) := by
    unfold swapCatalog
    rw [swapHeader_swapped e img entries L words]
    simp only [Option.bind_eq_bind, Option.bind_some]
    rw [hload _ (by decide), hload _ (by decide), hload _ (by decide), hload _ (by decide),
      hcat.nstrings.2, hcat.otab.2, hcat.ttab.2, hcat.htab.2]
    simp only [Option.bind_some, toNat_ofNat_word _ hcat.otab.1, toNat_ofNat_word _ hcat.ttab.1,
      toNat_ofNat_word _ hcat.htab.1]
    have hloop := swapLoop_mix e img entries L hcat hap words entries.length 0 (Nat.zero_add _)
    split_ifs with hzero
    · have hn : entries.length = 0 := by
        have h := congrArg BitVec.toNat hzero
        rw [toNat_ofNat_word _ hcat.nstrings.1] at h
        exact h
      unfold reloaded
      rw [hn]
      rfl
    · exact hloop
  unfold catalogOpen
  rw [hmagic]
  simp [hpass]

end

/-! ## Which catalogs are read alike -/

/-- Two buffers give the same result in every call of `dcngettext`, and a result inside the
buffer is the same string in both. -/
def Agrees (e : Endian) (w : ℕ) (img img' : Bytes) : Prop :=
  ∀ (msgid msgid_plural : Option Bytes) (n : ℕ), (∀ m, msgid = some m → (0 : UInt8) ∉ m) →
    ∃ turns result, result ≠ .running ∧
      (∀ fuel, turns ≤ fuel → dcngettext e w fuel (some img) msgid msgid_plural n = result ∧
        dcngettext e w fuel (some img') msgid msgid_plural n = result) ∧
      ∀ off, result = .returned (.data off) → cstr (img.drop off) = cstr (img'.drop off)

/-- A catalog and its byte-swapped image are both accepted and give the same results. -/
def ReadAlike (e : Endian) (w : ℕ) (img : Bytes) (entries : List Entry) (L : Layout) : Prop :=
  ∃ img', catalogOpen e img = some (some img) ∧
    catalogOpen e (swapped L entries.length img) = some (some img') ∧ Agrees e w img img'

/-- The hash table is occupied only below `nstrings`. -/
def OccupiedBelow (entries : List Entry) (L : Layout) : Prop :=
  ∀ s, s < L.size → hashTable L.size entries s ≠ 0 → s < entries.length

section

variable (e : Endian) (img : Bytes) (entries : List Entry) (L : Layout)

/-- INTERNAL: the bytes of the word zero. -/
theorem getD_of_load32_zero (off j : ℕ) (h : load32 e img off = some 0#32) (hj : j < 4) :
    img.getD (off + j) 0 = 0 := by
  have hin := load32_inside e img off _ h
  rw [load32_eq e img off hin] at h
  have hbytes : ∀ b3 b2 b1 b0 : UInt8, word b3 b2 b1 b0 = 0#32 → b3 = 0 ∧ b2 = 0 ∧ b1 = 0 ∧ b0 = 0 := by
    intro b3 b2 b1 b0 hword
    obtain ⟨h0, h1, h2, h3⟩ := byteOf_word b3 b2 b1 b0
    rw [hword] at h0 h1 h2 h3
    exact ⟨h3.symm, h2.symm, h1.symm, h0.symm⟩
  have hword := Option.some.inj h
  cases e with
  | little =>
    obtain ⟨h3, h2, h1, h0⟩ := hbytes _ _ _ _ hword
    obtain rfl | rfl | rfl | rfl : j = 0 ∨ j = 1 ∨ j = 2 ∨ j = 3 := by omega
    exacts [h0, h1, h2, h3]
  | big =>
    obtain ⟨h0, h1, h2, h3⟩ := hbytes _ _ _ _ hword
    obtain rfl | rfl | rfl | rfl : j = 0 ∨ j = 1 ∨ j = 2 ∨ j = 3 := by omega
    exacts [h0, h1, h2, h3]

/-- INTERNAL: every entry has a slot. -/
theorem exists_slot_of (hcat : HasTables e img entries L) (t : ℕ) (ht : t < entries.length) :
    ∃ s, s < L.size ∧ hashTable L.size entries s = t + 1 := by
  obtain ⟨k, -, hval, -⟩ := hcat.placed.onPath t ht
  exact ⟨_, slot_lt L.size hcat.size_gt _ k, hval⟩

/-- INTERNAL: **nothing is left swapped** behind the first two words when the hash table is
occupied only below `nstrings`. -/
theorem drop_reloaded (hcat : IsCatalog e img entries L) (hap : Apart entries L)
    (hocc : OccupiedBelow entries L) (a : ℕ) (ha : 8 ≤ a) :
    (reloaded img entries L).drop a = img.drop a := by
  have words := catalogWord_words e img entries L hcat hap
  have hle := hcat.placed.le
  have hsize := length_lt_size e img entries L hcat.toHasTables
  have hdesc : ∀ t d, t < entries.length → (d = L.otab + 8 * t ∨ d = L.otab + 8 * t + 4 ∨
      d = L.ttab + 8 * t ∨ d = L.ttab + 8 * t + 4) →
      d ∈ swappedBy L (hashTable L.size entries) entries.length := by
    intro t d ht hd
    obtain ⟨s, hs, hval⟩ := exists_slot_of e img entries L hcat.toHasTables t ht
    exact (desc_mem_swappedBy entries L hap _ hle _ t d ht hd (by omega)).mpr
      ⟨s, hocc s hs (by omega), hval⟩
  have hbyte : ∀ i, 8 ≤ i → i < img.length → (reloaded img entries L).getD i 0 = img.getD i 0 := by
    intro i hi hlt
    unfold reloaded
    rw [getD_mix _ _ img i hlt]
    unfold mirror
    cases hw : catalogWord L entries.length i with
    | none => rfl
    | some b =>
      simp only
      split_ifs with hmem
      · rfl
      · rcases catalogWord_cases L _ i b hw with ⟨h1, rfl⟩ | ⟨q, hq, rfl, rfl⟩ | ⟨q, hq, rfl, rfl⟩ |
          ⟨q, hq, rfl, rfl⟩
        · -- a word of the header
          exfalso
          apply hmem
          apply (mem_swappedBy L _ _ _).mpr
          left
          simp only [headerWords, Finset.mem_insert, Finset.mem_singleton, nstringsAt, origTabAt,
            transTabAt, hashSizeAt, hashTabAt]
          omega
        · exact absurd (hdesc (q / 8) _ (by omega) (by omega)) hmem
        · exact absurd (hdesc (q / 8) _ (by omega) (by omega)) hmem
        · -- a slot that the loop has not reached is empty
          have hslot : L.htab + q / 4 * 4 = L.htab + 4 * (q / 4) := by omega
          rw [hslot, htab_mem_swappedBy entries L hap _ hle _ _ (by omega)] at hmem
          have hzero : hashTable L.size entries (q / 4) = 0 := by
            by_contra h0
            exact hmem (hocc (q / 4) (by omega) h0)
          have hload := (hcat.slots (q / 4) (by omega)).2
          rw [hzero] at hload
          have hz := getD_of_load32_zero e img _ (q % 4) hload (by omega)
          have hz' := getD_of_load32_zero e img _ (3 - q % 4) hload (by omega)
          have hi1 : L.htab + q = L.htab + 4 * (q / 4) + q % 4 := by omega
          have hi2 : L.htab + q / 4 * 4 + (L.htab + q / 4 * 4 + 3 - (L.htab + q)) =
              L.htab + 4 * (q / 4) + (3 - q % 4) := by omega
          rw [hi2, hz', hi1, hz]
  apply ext_getD
  · simp [reloaded]
  · intro i hi
    have hlen : (reloaded img entries L).length = img.length := by simp [reloaded]
    rw [List.length_drop, hlen] at hi
    have h := hbyte (a + i) (by omega) (by omega)
    simpa [List.getD_eq_getElem?_getD, List.getElem?_drop] using h

/-- INTERNAL: then the buffer has the tables of the catalog. -/
theorem hasTables_reloaded (hcat : IsCatalog e img entries L) (hap : Apart entries L)
    (hocc : OccupiedBelow entries L) : HasTables e (reloaded img entries L) entries L := by
  have hdrop := drop_reloaded e img entries L hcat hap hocc
  have hholds : ∀ off v, 8 ≤ off → Holds e img off v → Holds e (reloaded img entries L) off v := by
    intro off v hoff h
    refine ⟨h.1, ?_⟩
    have h2 := h.2
    unfold load32 at h2 ⊢
    rwa [hdrop off hoff]
  have h1 := hap.otab
  have h2 := hap.ttab
  have h3 := hap.htab
  refine ⟨hholds _ _ (by decide) hcat.nstrings, hholds _ _ (by decide) hcat.otab,
    hholds _ _ (by decide) hcat.ttab, hholds _ _ (by decide) hcat.size, hholds _ _ (by decide) hcat.htab,
    hcat.prime, hcat.size_gt, hcat.empty, fun s hs => hholds _ _ (by omega) (hcat.slots s hs),
    fun i x hx => ?_, fun i x hx => ?_, fun i x hx => ?_, fun i x hx => ?_, hcat.distinct, hcat.apart⟩
  · obtain ⟨hlen, hoff⟩ := hcat.origDesc i x hx
    exact ⟨hholds _ _ (by omega) hlen, hholds _ _ (by omega) hoff⟩
  · obtain ⟨hlen, hoff⟩ := hcat.transDesc i x hx
    exact ⟨hholds _ _ (by omega) hlen, hholds _ _ (by omega) hoff⟩
  · have h := (hap.orig i x hx).header
    rw [hdrop _ (by omega)]
    exact hcat.origString i x hx
  · have h := (hap.trans i x hx).header
    rw [hdrop _ (by omega)]
    exact hcat.transString i x hx

end

section

variable (e : Endian) (img : Bytes) (entries : List Entry) (L : Layout)

/-- INTERNAL: where a translation can start. -/
theorem translation_data (data : Bytes) (off num off' : ℕ)
    (h : translation data off num = .returned (.data off')) : off ≤ off' := by
  unfold translation at h
  split_ifs at h
  · simp only [Outcome.returned.injEq, Text.data.injEq] at h
    omega
  · cases hend : strend (data.drop off) with
    | none => simp [hend] at h
    | some k =>
      simp only [hend, Outcome.returned.injEq, Text.data.injEq] at h
      omega

/-- INTERNAL: a translation is found without further probes. -/
theorem translation_ne_running (data : Bytes) (off num : ℕ) :
    translation data off num ≠ .running := by
  unfold translation
  split_ifs
  · simp
  · cases strend (data.drop off) <;> simp

/-- INTERNAL: **a table that is occupied only below `nstrings`** is read alike.
SOURCE: dietlibc-gettext.patch:169-189, 235-295 -/
theorem agrees_reloaded (w : ℕ) (hw : 32 ≤ w) (hcat : IsCatalog e img entries L)
    (hap : Apart entries L) (hocc : OccupiedBelow entries L) :
    Agrees e w img (reloaded img entries L) := by
  have htab := hasTables_reloaded e img entries L hcat hap hocc
  have hdrop := drop_reloaded e img entries L hcat hap hocc
  intro msgid msgid_plural n hzero
  unfold dcngettext
  cases htrans : (if n = 1 then msgid else msgid_plural) with
  | none => exact ⟨0, .returned .null, by simp, by simp, by simp⟩
  | some t =>
    simp only
    by_cases ht : t = []
    · refine ⟨0, .returned (if n = 1 then .msgid else .plural), by simp, by simp [ht], ?_⟩
      intro off h
      split_ifs at h <;> simp at h
    · simp only [if_neg ht]
      cases hm : msgid with
      | none => exact ⟨0, .fault, by simp, by simp, by simp⟩
      | some m =>
        have h0 := hzero m hm
        simp only
        by_cases hex : ∃ x ∈ entries, x.msgid = m
        · obtain ⟨x, hmem, hmsg⟩ := hex
          obtain ⟨i, hx⟩ := List.mem_iff_getElem?.mp hmem
          obtain ⟨hhit, k, hval, hpath⟩ := hcat.stop_at_entry _ _ _ _ m i x hx hmsg
          have hoff := (hcat.transDesc i x hx).2
          have hoff' := (htab.transDesc i x hx).2
          have h28 := (hap.trans i x hx).header
          have hsame : translation (reloaded img entries L) (L.trans i) n =
              translation img (L.trans i) n := by
            unfold translation
            rw [hdrop _ (by omega)]
          refine ⟨k + 1, translation img (L.trans i) n, translation_ne_running _ _ _, ?_, ?_⟩
          · intro fuel hfuel
            rw [lookupCatalog_found e img L.otab L.ttab L.htab entries.length L.size _ m _ hcat.header
                (hcat.view _ _ _ _ m h0) w hw _ n k i (L.trans i) hval hhit hpath hoff.1 hoff.2 fuel
                (by omega),
              lookupCatalog_found e _ L.otab L.ttab L.htab entries.length L.size _ m _ htab.header
                (htab.view _ _ _ _ m h0) w hw _ n k i (L.trans i) hval hhit hpath hoff'.1 hoff'.2 fuel
                (by omega), hsame]
            exact ⟨rfl, rfl⟩
          · intro off h
            have hle := translation_data img (L.trans i) n off h
            rw [hdrop off (by omega)]
        · push Not at hex
          obtain ⟨k, hempty, hpath⟩ := hcat.stop_at_empty _ _ _ _ m hex
          refine ⟨k + 1, .returned (if n = 1 then .msgid else .plural), by simp, ?_, ?_⟩
          · intro fuel hfuel
            rw [lookupCatalog_absent e img L.otab L.ttab L.htab entries.length L.size _ m _ hcat.header
                (hcat.view _ _ _ _ m h0) w hw _ n k hempty hpath fuel (by omega),
              lookupCatalog_absent e _ L.otab L.ttab L.htab entries.length L.size _ m _ htab.header
                (htab.view _ _ _ _ m h0) w hw _ n k hempty hpath fuel (by omega)]
            exact ⟨rfl, rfl⟩
          · intro off h
            split_ifs at h <;> simp at h

/-! ### A slot that is not swapped -/

/-- The slots of the hash table as they are after `catalog_open`. -/
def reloadedTable : Table := fun s =>
  if s < entries.length then hashTable L.size entries s
  else (swap (BitVec.ofNat 32 (hashTable L.size entries s))).toNat

/-- INTERNAL: the value of a word. -/
theorem toNat_word (b3 b2 b1 b0 : UInt8) : (word b3 b2 b1 b0).toNat =
    b3.toNat * 2 ^ 24 + b2.toNat * 2 ^ 16 + b1.toNat * 2 ^ 8 + b0.toNat := by
  have h2 := b2.toNat_lt
  have h1 := b1.toNat_lt
  have h0 := b0.toNat_lt
  unfold word
  rw [BitVec.toNat_append, BitVec.toNat_append, BitVec.toNat_append,
    ← Nat.shiftLeft_add_eq_or_of_lt (by simpa using h0), ← Nat.shiftLeft_add_eq_or_of_lt (by simpa using h1),
    ← Nat.shiftLeft_add_eq_or_of_lt (by simpa using h2)]
  simp only [Nat.shiftLeft_eq, UInt8.toNat_toBitVec]
  omega

/-- INTERNAL: every word is made of bytes. -/
theorem exists_word (v : ℕ) (hv : v < 2 ^ 32) :
    ∃ b3 b2 b1 b0, BitVec.ofNat 32 v = word b3 b2 b1 b0 := by
  refine ⟨(v / 2 ^ 24).toUInt8, (v / 2 ^ 16).toUInt8, (v / 2 ^ 8).toUInt8, v.toUInt8, ?_⟩
  apply BitVec.eq_of_toNat_eq
  rw [toNat_word, toNat_ofNat_word v hv]
  simp only [Nat.toUInt8, UInt8.toNat_ofNat']
  omega

/-- INTERNAL: a small number becomes a large one, zero stays zero. -/
theorem swap_small (v : ℕ) (hv : v < 65536) :
    ((swap (BitVec.ofNat 32 v)).toNat = 0 ↔ v = 0) ∧
      (v ≠ 0 → 65536 ≤ (swap (BitVec.ofNat 32 v)).toNat) := by
  obtain ⟨b3, b2, b1, b0, hword⟩ := exists_word v (by omega)
  have hval := congrArg BitVec.toNat hword
  rw [toNat_ofNat_word v (by omega), toNat_word] at hval
  have h3 : b3.toNat = 0 := by omega
  have h2 : b2.toNat = 0 := by omega
  rw [hword, swap_word, toNat_word, h3, h2]
  rw [h3, h2] at hval
  by_cases h0 : b0.toNat = 0
  · omega
  · omega

/-- INTERNAL: what the probe loop sees of the buffer: in a catalog with fewer than 65536
strings the slots that were not swapped lead nowhere. -/
theorem view_reloaded (hcat : IsCatalog e img entries L) (hap : Apart entries L)
    (hsmall : entries.length < 65536) (msgid : Bytes) (hm : (0 : UInt8) ∉ msgid) :
    View e (reloaded img entries L) L.otab L.htab entries.length L.size (reloadedTable entries L)
      msgid (hasMsgid entries msgid) := by
  have words := catalogWord_words e img entries L hcat hap
  have hle := hcat.placed.le
  have hsize := length_lt_size e img entries L hcat.toHasTables
  refine ⟨hcat.size.1, hcat.size_gt, hcat.nstrings.1, ?_, ?_, ?_⟩
  · intro s hs
    unfold reloadedTable
    split_ifs
    · exact (hcat.slots s hs).1
    · exact BitVec.isLt _
  · intro s hs
    unfold reloaded reloadedTable
    rw [load32_mix _ e _ img words _ (isWord_htab entries L hap s hs), (hcat.slots s hs).2]
    simp only [htab_mem_swappedBy entries L hap _ hle _ s hs]
    split_ifs
    · rfl
    · rw [Option.map_some, BitVec.ofNat_toNat, BitVec.setWidth_eq]
  · intro s hs h0 hlt
    have hs' : s < entries.length := by
      by_contra hge
      unfold reloadedTable at h0 hlt
      rw [if_neg hge] at h0 hlt
      have hv := hle s
      obtain ⟨hz, hbig⟩ := swap_small (hashTable L.size entries s) (by omega)
      have h := hbig (fun h => h0 (hz.mpr h))
      omega
    have hval : reloadedTable entries L s = hashTable L.size entries s := by
      unfold reloadedTable
      rw [if_pos hs']
    rw [hval] at h0 hlt ⊢
    -- the descriptor of the entry has been swapped together with this slot
    have hx : entries[hashTable L.size entries s - 1]? =
        some (entries.get ⟨hashTable L.size entries s - 1, hlt⟩) := List.getElem?_eq_getElem hlt
    have hdesc : ∀ d v, (d = L.otab + 8 * (hashTable L.size entries s - 1) ∨
        d = L.otab + 8 * (hashTable L.size entries s - 1) + 4) → Holds e img d v →
        Holds e (reloaded img entries L) d v := by
      intro d v hd h
      refine ⟨h.1, ?_⟩
      unfold reloaded
      rw [load32_mix _ e _ img words d (isWord_desc entries L hap _ d hlt (by omega)), if_pos, h.2]
      exact (desc_mem_swappedBy entries L hap _ hle _ _ d hlt (by omega) (by omega)).mpr
        ⟨s, hs', by omega⟩
    obtain ⟨hlen, hoff⟩ := hcat.origDesc _ _ hx
    have hstr : (entries.get ⟨hashTable L.size entries s - 1, hlt⟩).orig ++ [0] <+:
        (reloaded img entries L).drop (L.orig (hashTable L.size entries s - 1)) := by
      have hclear := hap.orig _ _ hx
      apply prefix_drop_mix _ _ img _ _ _ (hcat.origString _ _ hx)
      intro j hj
      rw [List.length_append, List.length_singleton] at hj
      exact catalogWord_clear L _ _ _ hclear j hj
    have hn := hcat.nstrings.1
    rw [testEntry_eq e _ msgid hm L.otab _ _ _ (by omega) (hdesc _ _ (Or.inl rfl) hlen)
      (hdesc _ _ (Or.inr rfl) hoff) hstr, hasMsgid, hx]

end

section

variable (e : Endian) (img : Bytes) (entries : List Entry) (L : Layout)

/-- INTERNAL: **a message in a slot that is not swapped** is lost, in a catalog with fewer than
65536 strings.
SOURCE: dietlibc-gettext.patch:179-188, 265-283 -/
theorem occupiedBelow_of_agrees (w : ℕ) (hw : 32 ≤ w) (hcat : IsCatalog e img entries L)
    (hap : Apart entries L) (hsmall : entries.length < 65536)
    (hagree : Agrees e w img (reloaded img entries L)) : OccupiedBelow entries L := by
  have words := catalogWord_words e img entries L hcat hap
  have hplaced := hcat.placed
  intro s hs h0
  by_contra hge
  -- the message of the slot, looked up with a plural form
  have ht : hashTable L.size entries s - 1 < entries.length := by
    have h := hplaced.le s
    omega
  obtain ⟨x, hx⟩ : ∃ x, entries[hashTable L.size entries s - 1]? = some x :=
    ⟨_, List.getElem?_eq_getElem ht⟩
  have hm : (0 : UInt8) ∉ x.msgid := (cstr_append_zero x.orig []).1
  have hview := view_reloaded e img entries L hcat hap hsmall x.msgid hm
  have hheader : Header e (reloaded img entries L) L.otab L.ttab L.htab entries.length L.size := by
    have hload := load32_header e img entries L words (hashTable L.size entries) entries.length
    have h := hcat.header
    refine ⟨⟨h.otab.1, ?_⟩, ⟨h.ttab.1, ?_⟩, ⟨h.htab.1, ?_⟩, ⟨h.n.1, ?_⟩, ⟨h.size.1, h.size.2.1, ?_⟩⟩
    · exact (hload _ (by decide)).trans h.otab.2
    · exact (hload _ (by decide)).trans h.ttab.2
    · exact (hload _ (by decide)).trans h.htab.2
    · exact (hload _ (by decide)).trans h.n.2
    · exact (hload _ (by decide)).trans h.size.2.2
  have hsame : ∀ s', s' < L.size → (reloadedTable entries L s' = 0 ↔ hashTable L.size entries s' = 0) := by
    intro s' _
    unfold reloadedTable
    split_ifs
    · exact Iff.rfl
    · have h := hplaced.le s'
      exact (swap_small _ (by omega)).1
  -- the search in the buffer stops at an empty slot
  obtain ⟨s0, hs0, hzero⟩ := hcat.empty
  obtain ⟨k, hstop, hpath⟩ := exists_stop L.size hcat.prime hcat.size_gt (reloadedTable entries L)
    (hashstring 32 x.msgid).toNat (Hit entries.length (hasMsgid entries x.msgid))
    ⟨s0, hs0, (hsame s0 hs0).mpr hzero⟩
  have hempty := hstop.resolve_right (by
    intro hhit
    have hslot := slot_lt L.size hcat.size_gt (hashstring 32 x.msgid).toNat k
    have hv := hcat.hasMsgid_unique _ _ _ _ x.msgid _ x hx rfl _ hhit
    have hbelow : slot L.size (hashstring 32 x.msgid).toNat k < entries.length := by
      by_contra hnot
      obtain ⟨-, hlt, -⟩ := hhit
      unfold reloadedTable at hv hlt
      rw [if_neg hnot] at hv hlt
      have h := hplaced.le (slot L.size (hashstring 32 x.msgid).toNat k)
      obtain ⟨hz, hbig⟩ := swap_small (hashTable L.size entries
        (slot L.size (hashstring 32 x.msgid).toNat k)) (by omega)
      have hne : hashTable L.size entries (slot L.size (hashstring 32 x.msgid).toNat k) ≠ 0 := by
        intro hz0
        have h00 := hz.mpr hz0
        omega
      have hb := hbig hne
      omega
    unfold reloadedTable at hv
    rw [if_pos hbelow] at hv
    have hinj := hplaced.inj s _ h0 (show hashTable L.size entries s = _ by rw [hv]; omega)
    omega)
  obtain ⟨hhit, k', hval, hpath'⟩ := hcat.stop_at_entry _ _ _ _ x.msgid _ x hx rfl
  have hoff := (hcat.transDesc _ x hx).2
  obtain ⟨turns, result, -, hcalls, -⟩ := hagree (some x.msgid) (some (ascii ['s'])) 2
    (fun m hmm => Option.some.inj hmm ▸ hm)
  obtain ⟨h1, h2⟩ := hcalls (turns + k + k' + 1) (by omega)
  have hplural : ∀ buf fuel, dcngettext e w fuel (some buf) (some x.msgid) (some (ascii ['s'])) 2 =
      lookupCatalog e w fuel buf .plural x.msgid 2 := by
    intro buf fuel
    simp [dcngettext, ascii]
  rw [hplural, lookupCatalog_found e img L.otab L.ttab L.htab entries.length L.size _ x.msgid _
    hcat.header (hcat.view _ _ _ _ x.msgid hm) w hw _ 2 k' _ _ hval hhit hpath' hoff.1 hoff.2 _
    (by omega)] at h1
  rw [hplural, lookupCatalog_absent e _ L.otab L.ttab L.htab entries.length L.size _ x.msgid _
    hheader hview w hw _ 2 k hempty hpath _ (by omega)] at h2
  -- one call returns the translation, the other one the plural form
  rw [← h2] at h1
  unfold translation at h1
  rw [if_neg (by decide)] at h1
  cases hend : strend (img.drop (L.trans (hashTable L.size entries s - 1))) with
  | none => simp [hend] at h1
  | some j => simp [hend] at h1

/-- **A byte-swapped catalog is read like the catalog itself** when its hash table is occupied
only below `nstrings`, which is how far the swap loop goes. In catalogs with fewer than
65536 strings it is read alike only then.
SOURCE: dietlibc-gettext.patch:36-41, 161-195, 235-295 -/
theorem read_alike_of_occupiedBelow (w : ℕ) (hw : 32 ≤ w) (hcat : IsCatalog e img entries L)
    (hap : Apart entries L) :
    (OccupiedBelow entries L → ReadAlike e w img entries L) ∧
      (entries.length < 65536 → ReadAlike e w img entries L → OccupiedBelow entries L) := by
  have hnative := catalogOpen_native e img entries L hcat
  have hswapped := catalogOpen_swapped e img entries L hcat hap
  constructor
  · intro hocc
    exact ⟨_, hnative, hswapped, agrees_reloaded e img entries L w hw hcat hap hocc⟩
  · rintro hsmall ⟨img', -, hopen, hagree⟩
    rw [hswapped] at hopen
    obtain rfl := Option.some.inj (Option.some.inj hopen)
    exact occupiedBelow_of_agrees e img entries L w hw hcat hap hsmall hagree

end

/-- INTERNAL: the parts of the small catalog do not overlap. -/
theorem sample_apart (msg : UInt8) : Apart (sampleEntries msg) sampleLayout := by
  have hlen : (sampleEntries msg).length = 1 := rfl
  refine ⟨by decide, by decide, by decide, Or.inl (by rw [hlen]; decide), Or.inl (by rw [hlen]; decide),
    Or.inl (by rw [hlen]; decide), ?_, ?_⟩
  · intro i x hx
    obtain ⟨rfl, rfl⟩ := sampleEntries_getElem msg i x hx
    exact ⟨by decide, Or.inr (by rw [hlen]; decide), Or.inr (by rw [hlen]; decide), Or.inr (by decide)⟩
  · intro i x hx
    obtain ⟨rfl, rfl⟩ := sampleEntries_getElem msg i x hx
    exact ⟨by decide, Or.inr (by rw [hlen]; decide), Or.inr (by rw [hlen]; decide), Or.inr (by decide)⟩

/-- INTERNAL: the small catalog with the message `c`, which stands in the first slot, is read
alike in both byte orders. -/
theorem read_alike_of_occupiedBelow_sample :
    ReadAlike .little 64 (sampleImage 99 1 0 0) (sampleEntries 99) sampleLayout := by
  refine (read_alike_of_occupiedBelow .little _ _ sampleLayout 64 (by decide)
    (sampleImage_isCatalog 99 1 0 0 ⟨1, by decide, by decide⟩ (by decide)) (sample_apart 99)).1 ?_
  unfold OccupiedBelow
  decide

/-- The message `a` stands in the second of three slots and is not found when the catalog comes
in the other byte order.
SOURCE: dietlibc-gettext.patch:179 -/
theorem second_slot_not_swapped :
    IsCatalog .little (sampleImage 97 0 1 0) (sampleEntries 97) sampleLayout ∧ Apart (sampleEntries 97) sampleLayout ∧
      ¬ ReadAlike .little 64 (sampleImage 97 0 1 0) (sampleEntries 97) sampleLayout := by
  have hcat := sampleImage_isCatalog 97 0 1 0 ⟨0, by decide, by decide⟩ (by decide)
  refine ⟨hcat, sample_apart 97, ?_⟩
  rintro ⟨img', -, hopen, hagree⟩
  rw [catalogOpen_swapped _ _ _ _ hcat (sample_apart 97)] at hopen
  obtain rfl := Option.some.inj (Option.some.inj hopen)
  have hocc := occupiedBelow_of_agrees _ _ _ _ 64 (by decide) hcat (sample_apart 97) (by decide) hagree
  exact absurd (hocc 1 (by decide) (by decide)) (by decide)

end TTLinux.Analysis.GettextSwap
