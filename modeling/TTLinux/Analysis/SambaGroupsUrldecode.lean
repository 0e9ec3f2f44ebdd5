import TTLinux.Lib.Hex
import TTLinux.Model.SambaGroups

/-!
# Decoding a string in place

`urldecode` writes over the string that it reads. `Inv` is what holds at the head of its loop: the write pointer is not
in front of the read pointer, what is still to be read stands as it did, and what is written followed by the decoding of
the rest is the decoding of the whole. The in-place loop so does what `urldecode` does on the bytes, and undoes every
percent-encoding.
-/

set_option autoImplicit false

namespace TTLinux.Analysis.SambaGroupsUrldecode

open TTLinux.Lib TTLinux.Lib.Rounds
open TTLinux.Lib.Memory (Mem write read read_succ read_snoc write_outside)
open TTLinux.Model.SambaGroups

/-! ## Percent-encodings -/

/-- **`e` is a percent-encoding of `x`**: a `%` is encoded, and any other byte may be. -/
inductive Encodes : Bytes → Bytes → Prop where
  | nil : Encodes [] []
  | plain (c : UInt8) (x e : Bytes) (h : c ≠ 0x25) (rest : Encodes x e) : Encodes (c :: x) (c :: e)
  | escape (hi lo : UInt8) (x e : Bytes) (hhi : IsHex hi) (hlo : IsHex lo) (rest : Encodes x e) :
      Encodes ((nibble hi * 16 + nibble lo).toUInt8 :: x) (0x25 :: hi :: lo :: e)

/-- A `%` with two digits behind it. -/
inductive IsEscape : Bytes → Prop where
  | intro (hi lo : UInt8) (e : Bytes) (hhi : IsHex hi) (hlo : IsHex lo) : IsEscape (0x25 :: hi :: lo :: e)

/-- **`x` is what `e` is decoded to**: escapes are replaced and everything else is copied, also a `%` without two digits
behind it. -/
inductive Decodes : Bytes → Bytes → Prop where
  | nil : Decodes [] []
  | copy (c : UInt8) (e x : Bytes) (h : ¬ IsEscape (c :: e)) (rest : Decodes e x) : Decodes (c :: e) (c :: x)
  | escape (hi lo : UInt8) (e x : Bytes) (hhi : IsHex hi) (hlo : IsHex lo) (rest : Decodes e x) :
      Decodes (0x25 :: hi :: lo :: e) ((nibble hi * 16 + nibble lo).toUInt8 :: x)

/-- INTERNAL: `hex2int` refuses what is no hexadecimal digit. -/
theorem hex2int_nonneg_iff (c : UInt8) : 0 ≤ hex2int c ↔ IsHex c := by
  simp only [hex2int, IsHex, IsLowerHex, UInt8.le_iff_toNat_le, UInt8.reduceToNat]
  split_ifs <;> omega

/-- INTERNAL: and gives the value of one. -/
theorem hex2int_eq (c : UInt8) (h : IsHex c) : hex2int c = nibble c := by
  simp only [IsHex, IsLowerHex, UInt8.le_iff_toNat_le, UInt8.reduceToNat] at h
  simp only [hex2int, nibble, UInt8.le_iff_toNat_le, UInt8.reduceToNat]
  split_ifs <;> omega

/-- INTERNAL: the byte of an escape. -/
theorem escape_byte (hi lo : UInt8) (hhi : IsHex hi) (hlo : IsHex lo) :
    (hex2int hi * 16 + hex2int lo).toNat.toUInt8 = (nibble hi * 16 + nibble lo).toUInt8 := by
  rw [hex2int_eq hi hhi, hex2int_eq lo hlo]
  rfl

/-- INTERNAL: an escape stands for one byte. -/
theorem urldecode_escape (hi lo : UInt8) (e : Bytes) (hhi : IsHex hi) (hlo : IsHex lo) :
    urldecode (0x25 :: hi :: lo :: e) = (nibble hi * 16 + nibble lo).toUInt8 :: urldecode e := by
  rw [urldecode, if_pos ⟨rfl, (hex2int_nonneg_iff hi).mpr hhi, (hex2int_nonneg_iff lo).mpr hlo⟩, escape_byte hi lo hhi hlo]

/-- INTERNAL: every other byte stands for itself. -/
theorem urldecode_copy (c : UInt8) (e : Bytes) (h : ¬ IsEscape (c :: e)) : urldecode (c :: e) = c :: urldecode e := by
  cases e with
  | nil => rfl
  | cons hi e =>
    cases e with
    | nil => rfl
    | cons lo e =>
      rw [urldecode, if_neg]
      rintro ⟨rfl, hhi, hlo⟩
      exact h (.intro hi lo e ((hex2int_nonneg_iff hi).mp hhi) ((hex2int_nonneg_iff lo).mp hlo))

/-- INTERNAL: every string is decoded to what `urldecode` gives. -/
theorem decodes_urldecode (e : Bytes) : Decodes e (urldecode e) := by
  induction hlen : e.length using Nat.strongRecOn generalizing e with
  | ind n ih =>
    subst hlen
    by_cases hescape : IsEscape e
    · cases hescape with
      | intro hi lo e hhi hlo =>
        rw [urldecode_escape hi lo e hhi hlo]
        exact .escape hi lo e _ hhi hlo (ih e.length (by simp only [List.length_cons]; omega) e rfl)
    · cases e with
      | nil => exact .nil
      | cons c e =>
        rw [urldecode_copy c e hescape]
        exact .copy c e _ hescape (ih e.length (Nat.lt_succ_self _) e rfl)

/-- INTERNAL: **`urldecode` undoes a percent-encoding.** -/
theorem urldecode_of_encodes (x e : Bytes) (h : Encodes x e) : urldecode e = x := by
  induction h with
  | nil => rfl
  | plain c x e hc _ ih =>
    have hcopy : ¬ IsEscape (c :: e) := by
      intro hescape
      cases hescape
      exact hc rfl
    rw [urldecode_copy c e hcopy, ih]
  | escape hi lo x e hhi hlo _ ih => rw [urldecode_escape hi lo e hhi hlo, ih]

/-! ## Strings in the memory -/

/-- A terminated string stands at the address. -/
def Stands (m : Mem) : ℕ → Bytes → Prop
  | a, [] => m a = 0
  | a, c :: x => m a = c ∧ c ≠ 0 ∧ Stands m (a + 1) x

/-- INTERNAL: the bytes up to the terminator make a string. -/
theorem stands_of_read (m : Mem) (a : ℕ) (x : Bytes) (h0 : (0 : UInt8) ∉ x) (h : read m a (x.length + 1) = x ++ [0]) :
    Stands m a x := by
  induction x generalizing a with
  | nil =>
    rw [read_succ] at h
    exact (List.cons.inj h).1
  | cons c x ih =>
    rw [List.length_cons, read_succ, List.cons_append] at h
    obtain ⟨hc, hrest⟩ := List.cons.inj h
    exact ⟨hc, fun hzero => h0 (hzero ▸ List.mem_cons_self), ih (a + 1) (fun hmem => h0 (List.mem_cons_of_mem _ hmem)) hrest⟩

/-- INTERNAL: a byte that is written in front of a string. -/
theorem Stands.write (m : Mem) (a t : ℕ) (b : UInt8) (x : Bytes) (h : Stands m a x) (ht : t < a) :
    Stands (write m t [b]) a x := by
  induction x generalizing a with
  | nil => exact (write_outside m t [b] a (by simp only [List.length_singleton]; omega)).trans h
  | cons c x ih =>
    obtain ⟨hc, hne, hrest⟩ := h
    exact ⟨(write_outside m t [b] a (by simp only [List.length_singleton]; omega)).trans hc, hne,
      ih (a + 1) hrest (Nat.lt_succ_of_lt ht)⟩

/-- INTERNAL: **an escape is seen in the memory**, since the terminator is no digit. -/
theorem Stands.escape_iff (m : Mem) (a : ℕ) (c : UInt8) (x : Bytes) (h : Stands m a (c :: x)) :
    m a = 0x25 ∧ 0 ≤ hex2int (m (a + 1)) ∧ 0 ≤ hex2int (m (a + 2)) ↔ IsEscape (c :: x) := by
  have hzero : ¬ IsHex 0 := by decide
  rw [hex2int_nonneg_iff, hex2int_nonneg_iff]
  obtain ⟨hc, -, hx⟩ := h
  rw [hc]
  constructor
  · rintro ⟨rfl, hhi, hlo⟩
    cases x with
    | nil =>
      rw [show m (a + 1) = 0 from hx] at hhi
      exact absurd hhi hzero
    | cons hi x =>
      obtain ⟨hmhi, -, hx⟩ := hx
      cases x with
      | nil =>
        rw [show m (a + 2) = 0 from hx] at hlo
        exact absurd hlo hzero
      | cons lo x =>
        rw [hmhi] at hhi
        rw [show m (a + 2) = lo from hx.1] at hlo
        exact .intro hi lo x hhi hlo
  · intro hescape
    cases hescape with
    | intro hi lo x hhi hlo =>
      obtain ⟨hmhi, -, hmlo, -⟩ := hx
      rw [hmhi, show m (a + 2) = lo from hmlo]
      exact ⟨rfl, hhi, hlo⟩

/-! ## The loop -/

/-- **What holds at the head of the loop** for the string `e` at `a`. -/
structure Inv (m : Mem) (a : ℕ) (e : Bytes) (c : Cursors) : Prop where
  start : a ≤ c.tmp
  behind : c.tmp ≤ c.s
  rest : ∃ y, Stands c.mem c.s y ∧ c.s + y.length = a + e.length ∧
    read c.mem a (c.tmp - a) ++ urldecode y = urldecode e
  others : ∀ i, i < a ∨ a + e.length < i → c.mem i = m i

section

variable (m : Mem) (a : ℕ) (e : Bytes)

/-- INTERNAL: the read cursor stays within the string. -/
theorem Inv.s_le (c : Cursors) (h : Inv m a e c) : c.s ≤ a + e.length := by
  obtain ⟨y, -, hlength, -⟩ := h.rest
  omega

/-- INTERNAL: a byte that is written while there is something left to read. -/
theorem Inv.written (c : Cursors) (h : Inv m a e c) (hlt : c.s < a + e.length) (b : UInt8) :
    ∀ i, i < a ∨ a + e.length < i → write c.mem c.tmp [b] i = m i := by
  have hstart := h.start
  have hbehind := h.behind
  intro i hi
  rw [write_outside _ _ _ _ (by simp only [List.length_singleton]; omega)]
  exact h.others i hi

/-- INTERNAL: the byte that a round decodes, where what is left stands `k` bytes on. -/
theorem Inv.put (c : Cursors) (h : Inv m a e c) (hlt : c.s < a + e.length) (b : UInt8) (k : ℕ) (y : Bytes) (hk : 0 < k)
    (hstands : Stands c.mem (c.s + k) y) (hlength : c.s + k + y.length = a + e.length)
    (hdecoded : read c.mem a (c.tmp - a) ++ b :: urldecode y = urldecode e) :
    Inv m a e ⟨write c.mem c.tmp [b], c.s + k, c.tmp + 1⟩ := by
  have hstart := h.start
  have hbehind := h.behind
  refine ⟨by dsimp only; omega, by dsimp only; omega, ⟨y, ?_, hlength, ?_⟩, h.written m a e c hlt b⟩
  · exact Stands.write c.mem (c.s + k) c.tmp b y hstands (by omega)
  · dsimp only
    rw [read_snoc _ _ _ _ hstart, List.append_assoc, List.singleton_append]
    exact hdecoded

/-- INTERNAL: **one round** keeps the invariant and moves the read pointer on. -/
theorem Inv.next (c c' : Cursors) (h : Inv m a e c) (hround : decodeRound (a + e.length) c = .inr c') :
    Inv m a e c' ∧ c.s < c'.s := by
  obtain ⟨y, hstands, hlength, hdecoded⟩ := h.rest
  unfold decodeRound at hround
  by_cases hlt : c.s < a + e.length
  · rw [if_pos hlt] at hround
    dsimp only at hround
    cases y with
    | nil =>
      rw [List.length_nil] at hlength
      omega
    | cons b y =>
      have hiff := hstands.escape_iff
      by_cases hescape : IsEscape (b :: y)
      · rw [if_pos (hiff.mpr hescape)] at hround
        cases hround
        cases hescape with
        | intro hi lo y hhi hlo =>
          obtain ⟨-, -, hmhi, -, hmlo, -, hrest⟩ := hstands
          rw [hmhi, show c.mem (c.s + 2) = lo from hmlo, escape_byte hi lo hhi hlo]
          rw [urldecode_escape hi lo y hhi hlo] at hdecoded
          simp only [List.length_cons] at hlength
          exact ⟨h.put m a e c hlt _ 3 y (by decide) hrest (by omega) hdecoded, Nat.lt_add_of_pos_right (by decide)⟩
      · rw [if_neg fun hmem => hescape (hiff.mp hmem)] at hround
        cases hround
        obtain ⟨hmb, -, hrest⟩ := hstands
        rw [hmb]
        rw [urldecode_copy b y hescape] at hdecoded
        rw [List.length_cons] at hlength
        exact ⟨h.put m a e c hlt b 1 y (by decide) hrest (by omega) hdecoded, Nat.lt_succ_self _⟩
  · rw [if_neg hlt] at hround
    cases hround

/-- INTERNAL: **the last round** terminates what was decoded. -/
theorem Inv.last (c : Cursors) (m' : Mem) (h : Inv m a e c) (hround : decodeRound (a + e.length) c = .inl m') :
    read m' a ((urldecode e).length + 1) = urldecode e ++ [0] ∧
      ∀ i, i < a ∨ a + e.length < i → m' i = m i := by
  have hstart := h.start
  have hbehind := h.behind
  have hle := h.s_le m a e c
  obtain ⟨y, -, hlength, hdecoded⟩ := h.rest
  unfold decodeRound at hround
  by_cases hlt : c.s < a + e.length
  · rw [if_pos hlt] at hround
    dsimp only at hround
    split_ifs at hround
  · rw [if_neg hlt] at hround
    cases hround
    have hy : y = [] := List.length_eq_zero_iff.mp (by omega)
    rw [hy, urldecode, List.append_nil] at hdecoded
    constructor
    · have hcount : (urldecode e).length + 1 = c.tmp + 1 - a := by
        rw [← hdecoded, Memory.length_read]
        omega
      rw [hcount, read_snoc _ _ _ _ hstart, hdecoded]
    · intro i hi
      rw [write_outside _ _ _ _ (by simp only [List.length_singleton]; omega)]
      exact h.others i hi

/-- INTERNAL: the invariant in front of the first round. -/
theorem Inv.first (he : Stands m a e) : Inv m a e ⟨m, a, a⟩ where
  start := le_rfl
  behind := le_rfl
  rest := ⟨e, he, rfl, by
    dsimp only
    rw [Nat.sub_self]
    rfl⟩
  others := fun _ _ => rfl

end

/-- **`urldecode` in place.** For every string at an address the loop ends, its write pointer never passes its read
pointer, what is left is the decoding of the string with a terminator, where every `%` without two digits behind it is
kept, and nothing outside of the string is changed; and what is left of a percent-encoding is the string that it encodes.
SOURCE: samba-sambagroups.patch:47-78 -/
theorem urldecode_in_place (m : Mem) (a : ℕ) (e : Bytes) (ha : a ≠ 0) (h0 : (0 : UInt8) ∉ e)
    (he : read m a (e.length + 1) = e ++ [0]) :
    ∃ m', urldecodeInPlace m a e.length = some m' ∧
      (∀ c, Reached (decodeRound (a + e.length)) ⟨m, a, a⟩ c → c.tmp ≤ c.s ∧ c.s ≤ a + e.length) ∧
      (∃ x, Decodes e x ∧ read m' a (x.length + 1) = x ++ [0]) ∧
      (∀ x, Encodes x e → read m' a (x.length + 1) = x ++ [0]) ∧
      ∀ i, i < a ∨ a + e.length < i → m' i = m i := by
  have hfirst := Inv.first m a e (stands_of_read m a e h0 he)
  have hinv : ∀ c, Reached (decodeRound (a + e.length)) ⟨m, a, a⟩ c → Inv m a e c := fun c hc =>
    hc.invariant _ (Inv m a e) _ _ hfirst fun u u' hu hround => (hu.next m a e u u' hround).1
  obtain ⟨m', hrun⟩ := exists_run_of_rank (decodeRound (a + e.length)) (fun c => a + e.length - c.s) ⟨m, a, a⟩ (by
    intro c c' hc hround
    obtain ⟨hinv', hlt⟩ := (hinv c hc).next m a e c c' hround
    have hle := hinv'.s_le m a e c'
    omega)
  have hfuel : a + e.length - a < e.length + 1 := by omega
  have hresult : urldecodeInPlace m a e.length = some m' := by
    unfold urldecodeInPlace
    rw [if_pos ha]
    exact hrun (e.length + 1) hfuel
  obtain ⟨c, hc, hround⟩ := reached_of_run _ _ _ _ (hrun (e.length + 1) hfuel)
  obtain ⟨hread, hothers⟩ := (hinv c hc).last m a e c m' hround
  refine ⟨m', hresult, ?_, ⟨urldecode e, decodes_urldecode e, hread⟩, ?_, hothers⟩
  · exact fun c hc => ⟨(hinv c hc).behind, (hinv c hc).s_le m a e c⟩
  · intro x hx
    rw [← urldecode_of_encodes x e hx]
    exact hread

/-- `urldecode_in_place` for `a%2e%`, whose last `%` is kept. -/
theorem urldecode_stray_percent :
    ∃ m', urldecodeInPlace (write (fun _ => 0) 8 (ascii "a%2e%".toList)) 8 5 = some m' ∧
      (∀ c, Reached (decodeRound (8 + 5)) ⟨write (fun _ => 0) 8 (ascii "a%2e%".toList), 8, 8⟩ c →
        c.tmp ≤ c.s ∧ c.s ≤ 8 + 5) ∧
      (∃ x, Decodes (ascii "a%2e%".toList) x ∧ read m' 8 (x.length + 1) = x ++ [0]) ∧
      (∀ x, Encodes x (ascii "a%2e%".toList) → read m' 8 (x.length + 1) = x ++ [0]) ∧
      ∀ i, i < 8 ∨ 8 + 5 < i → m' i = write (fun _ => 0) 8 (ascii "a%2e%".toList) i :=
  urldecode_in_place (write (fun _ => 0) 8 (ascii "a%2e%".toList)) 8 (ascii "a%2e%".toList) (by decide) (by decide)
    (by decide)

end TTLinux.Analysis.SambaGroupsUrldecode
