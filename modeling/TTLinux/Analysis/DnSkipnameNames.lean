import TTLinux.Model.DnSkipname

/-!
# What `dn_skipname` says of a name

`Encoded` is a compressed domain name in a message, with the address behind it. `dnSkipname_correct_iff` says for which
messages `dn_skipname` returns its length and reads nothing behind the message: those where the name is not empty and
where the message goes on behind every label that the walk comes to.
-/

set_option autoImplicit false

namespace TTLinux.Analysis.DnSkipnameNames

open TTLinux.Lib TTLinux.Lib.Rounds
open TTLinux.Lib.Memory (Mem)
open TTLinux.Model.DnSkipname

variable (m : Mem)

/-! ## Encoded names -/

/-- A label of 1 to 63 bytes starts at the address. -/
def IsLabel (a : ℕ) : Prop := 0 < (m a).toNat ∧ (m a).toNat < 64

/-- The address behind the label. -/
def behind (a : ℕ) : ℕ := a + 1 + (m a).toNat

/-- **A name stands from `a` to before `b`**: labels that end in a zero byte or in a pointer of two bytes. -/
inductive Encoded : ℕ → ℕ → Prop where
  | zero (a : ℕ) (h : m a = 0) : Encoded a (a + 1)
  | pointer (a : ℕ) (h : 192 ≤ (m a).toNat) : Encoded a (a + 2)
  | label (a b : ℕ) (h : IsLabel m a) (rest : Encoded (behind m a) b) : Encoded a b

/-- The walk over the labels from `a` comes to `c`. -/
inductive Walk : ℕ → ℕ → Prop where
  | here (a : ℕ) : Walk a a
  | label (a c : ℕ) (h : IsLabel m a) (rest : Walk (behind m a) c) : Walk a c

/-- **What the function has to do**: the length of a name that ends before `eom`, otherwise -1, and no byte at or behind
`eom` is read. -/
structure Correct (comp_dn eom : ℕ) (r : Result) : Prop where
  length : ∀ b, Encoded m comp_dn b → b ≤ eom → r.value = (b : ℤ) - comp_dn
  error : (∀ b, Encoded m comp_dn b → eom < b) → r.value = -1
  reads : ∀ x ∈ r.reads, x < eom

/-- **The message goes on** behind every label, and the name has one. -/
def GoesOn (comp_dn eom : ℕ) : Prop := m comp_dn ≠ 0 ∧ ∀ c, Walk m comp_dn c → c < eom

/-- INTERNAL: a byte is zero as a number and as a byte. -/
theorem toNat_ne_zero (a : ℕ) : (m a).toNat ≠ 0 ↔ m a ≠ 0 := by
  rw [← UInt8.toNat_zero, Ne, UInt8.toNat_inj]

/-- INTERNAL: the two upper bits of a label are clear. -/
theorem label_bits (n : ℕ) (h : n < 256) : n &&& 0xC0 = 0 ↔ n < 64 := by
  have hall : ∀ n < 256, n &&& 0xC0 = 0 ↔ n < 64 := by decide +kernel
  exact hall n h

/-- INTERNAL: the two upper bits of a pointer are set. -/
theorem pointer_bits (n : ℕ) (h : n < 256) : n &&& 0xC0 = 0xC0 ↔ 192 ≤ n := by
  have hall : ∀ n < 256, n &&& 0xC0 = 0xC0 ↔ 192 ≤ n := by decide +kernel
  exact hall n h

/-- INTERNAL: a label behind the walk. -/
theorem Walk.snoc (a c : ℕ) (hwalk : Walk m a c) (h : IsLabel m c) : Walk m a (behind m c) := by
  induction hwalk with
  | here a => exact .label a _ h (.here _)
  | label a c ha _ ih => exact .label a _ ha (ih h)

/-- INTERNAL: a name goes on from where the walk is. -/
theorem encoded_of_walk (a c b : ℕ) (hwalk : Walk m a c) : Encoded m a b ↔ Encoded m c b := by
  induction hwalk with
  | here a => exact Iff.rfl
  | label a c ha _ ih =>
    rw [← ih]
    constructor
    · intro h
      cases h with
      | zero _ hzero =>
        have hpos := ha.1
        rw [hzero] at hpos
        exact absurd hpos (by decide)
      | pointer _ hpointer => exact absurd hpointer (by have := ha.2; omega)
      | label _ _ _ hrest => exact hrest
    · exact fun h => .label a b ha h

/-- INTERNAL: a name that begins with a zero byte ends behind it. -/
theorem encoded_zero_iff (a b : ℕ) (h : m a = 0) : Encoded m a b ↔ b = a + 1 := by
  constructor
  · intro henc
    cases henc with
    | zero => rfl
    | pointer _ hpointer =>
      rw [h] at hpointer
      exact absurd hpointer (by decide)
    | label _ _ hlabel _ =>
      have hpos := hlabel.1
      rw [h] at hpos
      exact absurd hpos (by decide)
  · rintro rfl
    exact .zero a h

/-- INTERNAL: a name that begins with a pointer ends behind its two bytes. -/
theorem encoded_pointer_iff (a b : ℕ) (h : 192 ≤ (m a).toNat) : Encoded m a b ↔ b = a + 2 := by
  constructor
  · intro henc
    cases henc with
    | zero _ hzero =>
      rw [hzero] at h
      exact absurd h (by decide)
    | pointer => rfl
    | label _ _ hlabel _ => exact absurd h (by have := hlabel.2; omega)
  · rintro rfl
    exact .pointer a h

/-- INTERNAL: no name begins with a byte of the two other kinds. -/
theorem not_encoded (a b : ℕ) (hne : m a ≠ 0) (hlabel : ¬ IsLabel m a) (hpointer : ¬ 192 ≤ (m a).toNat) :
    ¬ Encoded m a b := by
  intro henc
  cases henc with
  | zero _ h => exact hne h
  | pointer _ h => exact hpointer h
  | label _ _ h _ => exact hlabel h

/-- INTERNAL: a name has at least one byte. -/
theorem encoded_lt (a b : ℕ) (h : Encoded m a b) : a < b := by
  induction h with
  | zero a _ => exact Nat.lt_succ_self a
  | pointer a _ => omega
  | label a b _ _ ih =>
    unfold behind at ih
    omega

/-! ## One round -/

variable (comp_dn eom : ℕ)

/-- INTERNAL: a round in front of a label, where the message goes on or not. -/
theorem turn_label (s : State) (hlt : s.cp < eom) (h : IsLabel m s.cp) :
    turn m comp_dn eom s =
      if m (behind m s.cp) ≠ 0 then .inr ⟨behind m s.cp, s.reads ++ [s.cp] ++ [behind m s.cp]⟩
      else .inl ⟨out comp_dn eom (behind m s.cp + 1), s.reads ++ [s.cp] ++ [behind m s.cp]⟩ := by
  have hbits := (label_bits _ (m s.cp).toNat_lt).mpr h.2
  unfold turn
  rw [if_pos hlt, if_pos (Nat.ne_of_gt h.1), if_pos hbits]
  rfl

/-- INTERNAL: a round in front of a pointer. -/
theorem turn_pointer (s : State) (hlt : s.cp < eom) (h : 192 ≤ (m s.cp).toNat) :
    turn m comp_dn eom s = .inl ⟨out comp_dn eom (s.cp + 2), s.reads ++ [s.cp]⟩ := by
  have hlabel : ¬ (m s.cp).toNat &&& 0xC0 = 0 := by
    rw [label_bits _ (m s.cp).toNat_lt]
    omega
  have hbits := (pointer_bits _ (m s.cp).toNat_lt).mpr h
  unfold turn
  rw [if_pos hlt, if_pos (by omega), if_neg hlabel, if_pos hbits]

/-- INTERNAL: a round in front of a byte of the two other kinds. -/
theorem turn_reserved (s : State) (hlt : s.cp < eom) (hne : m s.cp ≠ 0) (hl : ¬ IsLabel m s.cp)
    (hp : ¬ 192 ≤ (m s.cp).toNat) : turn m comp_dn eom s = .inl ⟨-1, s.reads ++ [s.cp]⟩ := by
  have hpos := (toNat_ne_zero m s.cp).mpr hne
  have hlabel : ¬ (m s.cp).toNat &&& 0xC0 = 0 := by
    rw [label_bits _ (m s.cp).toNat_lt]
    exact fun h => hl ⟨Nat.pos_of_ne_zero hpos, h⟩
  have hpointer : ¬ (m s.cp).toNat &&& 0xC0 = 0xC0 := by
    rw [pointer_bits _ (m s.cp).toNat_lt]
    exact hp
  unfold turn
  rw [if_pos hlt, if_pos hpos, if_neg hlabel, if_neg hpointer]

/-- INTERNAL: a round in front of a zero byte. -/
theorem turn_zero (s : State) (hlt : s.cp < eom) (h : m s.cp = 0) :
    turn m comp_dn eom s = .inl ⟨out comp_dn eom s.cp, s.reads ++ [s.cp]⟩ := by
  have hzero : ¬ (m s.cp).toNat ≠ 0 := fun hne => (toNat_ne_zero m s.cp).mp hne h
  unfold turn
  rw [if_pos hlt, if_neg hzero]

/-- INTERNAL: a round at the end of the message. -/
theorem turn_end (s : State) (h : ¬ s.cp < eom) : turn m comp_dn eom s = .inl ⟨out comp_dn eom s.cp, s.reads⟩ := by
  unfold turn
  rw [if_neg h]

/-- INTERNAL: **what a round does that goes on**: it has read a label, and the byte behind it, which is not zero. -/
theorem turn_inr (s s' : State) (h : turn m comp_dn eom s = .inr s') :
    s.cp < eom ∧ IsLabel m s.cp ∧ m (behind m s.cp) ≠ 0 ∧
      s' = ⟨behind m s.cp, s.reads ++ [s.cp] ++ [behind m s.cp]⟩ := by
  by_cases hlt : s.cp < eom
  · by_cases hzero : m s.cp = 0
    · rw [turn_zero m comp_dn eom s hlt hzero] at h
      cases h
    · by_cases hlabel : IsLabel m s.cp
      · rw [turn_label m comp_dn eom s hlt hlabel] at h
        split_ifs at h with hnext
        exact ⟨hlt, hlabel, hnext, (Sum.inr.inj h).symm⟩
      · by_cases hpointer : 192 ≤ (m s.cp).toNat
        · rw [turn_pointer m comp_dn eom s hlt hpointer] at h
          cases h
        · rw [turn_reserved m comp_dn eom s hlt hzero hlabel hpointer] at h
          cases h
  · rw [turn_end m comp_dn eom s hlt] at h
    cases h

/-- **The loop ends**: there is always a result. -/
theorem dnSkipname_isSome : ∃ r, dnSkipname m comp_dn eom = some r := by
  obtain ⟨r, hr⟩ := exists_run_of_rank (turn m comp_dn eom) (fun s => eom - s.cp) ⟨comp_dn, []⟩ (by
    intro s s' _ h
    obtain ⟨hlt, -, -, rfl⟩ := turn_inr m comp_dn eom s s' h
    dsimp only
    unfold behind
    omega)
  exact ⟨r, hr _ (Nat.lt_succ_self _)⟩

/-! ## The whole walk -/

/-- What holds at the head of the loop: the walk has come to a byte that is not zero. -/
structure Inv (s : State) : Prop where
  walk : Walk m comp_dn s.cp
  nonzero : m s.cp ≠ 0
  reads : ∀ x ∈ s.reads, Walk m comp_dn x

/-- INTERNAL: the reads of a round are places of the walk. -/
theorem Inv.read (s : State) (h : Inv m comp_dn s) : ∀ x ∈ s.reads ++ [s.cp], Walk m comp_dn x := by
  intro x hx
  rcases List.mem_append.mp hx with hx | hx
  · exact h.reads x hx
  · rw [List.mem_singleton.mp hx]
    exact h.walk

/-- INTERNAL: the byte behind a label is a place of the walk as well. -/
theorem Inv.read_label (s : State) (h : Inv m comp_dn s) (hlabel : IsLabel m s.cp) :
    ∀ x ∈ s.reads ++ [s.cp] ++ [behind m s.cp], Walk m comp_dn x := by
  intro x hx
  rcases List.mem_append.mp hx with hx | hx
  · exact h.read m comp_dn s x hx
  · rw [List.mem_singleton.mp hx]
    exact h.walk.snoc m _ _ hlabel

/-- INTERNAL: a round that goes on keeps what holds at the head of the loop. -/
theorem Inv.next (s s' : State) (h : Inv m comp_dn s) (hround : turn m comp_dn eom s = .inr s') :
    Inv m comp_dn s' := by
  obtain ⟨-, hlabel, hnext, rfl⟩ := turn_inr m comp_dn eom s s' hround
  exact ⟨h.walk.snoc m _ _ hlabel, hnext, h.read_label m comp_dn s hlabel⟩

/-- INTERNAL: a length that is computed for the end `b` of the only name. -/
theorem correct_of_end (b : ℕ) (reads : List ℕ) (hb : ∀ b', Encoded m comp_dn b' ↔ b' = b)
    (hreads : ∀ x ∈ reads, x < eom) : Correct m comp_dn eom ⟨out comp_dn eom b, reads⟩ := by
  refine ⟨?_, ?_, hreads⟩
  · intro b' hb' hle
    rw [(hb b').mp hb'] at hle ⊢
    exact if_neg (Nat.not_lt.mpr hle)
  · intro hall
    exact if_pos (hall b ((hb b).mpr rfl))

/-- INTERNAL: **the last round** of a walk on which the message goes on gives the right result. -/
theorem Inv.correct (hgoes : ∀ c, Walk m comp_dn c → c < eom) (s : State) (r : Result) (h : Inv m comp_dn s)
    (hround : turn m comp_dn eom s = .inl r) : Correct m comp_dn eom r := by
  have hlt := hgoes s.cp h.walk
  have hreads : ∀ x ∈ s.reads ++ [s.cp], x < eom := fun x hx => hgoes x (h.read m comp_dn s x hx)
  by_cases hlabel : IsLabel m s.cp
  · rw [turn_label m comp_dn eom s hlt hlabel] at hround
    split_ifs at hround with hnext
    cases hround
    apply correct_of_end
    · intro b
      rw [encoded_of_walk m _ _ b (h.walk.snoc m _ _ hlabel)]
      exact encoded_zero_iff m _ b (not_not.mp hnext)
    · exact fun x hx => hgoes x (h.read_label m comp_dn s hlabel x hx)
  · by_cases hpointer : 192 ≤ (m s.cp).toNat
    · rw [turn_pointer m comp_dn eom s hlt hpointer] at hround
      cases hround
      apply correct_of_end m comp_dn eom _ _ _ hreads
      intro b
      rw [encoded_of_walk m _ _ b h.walk]
      exact encoded_pointer_iff m _ b hpointer
    · rw [turn_reserved m comp_dn eom s hlt h.nonzero hlabel hpointer] at hround
      cases hround
      refine ⟨?_, fun _ => rfl, hreads⟩
      intro b hb
      rw [encoded_of_walk m _ _ b h.walk] at hb
      exact absurd hb (not_encoded m _ b h.nonzero hlabel hpointer)

/-- What holds at the head of the loop of a walk that comes to the end of the message: it is still to come there, or
has read there. -/
def Leaves (s : State) : Prop :=
  (s.cp < eom ∧ ∃ c, Walk m s.cp c ∧ eom ≤ c) ∨ ∃ x ∈ s.reads, eom ≤ x

/-- INTERNAL: the round of a walk that is still to come to the end of the message. -/
theorem leaves_label (s : State) (hlt : s.cp < eom) (c : ℕ) (hwalk : Walk m s.cp c) (hc : eom ≤ c) :
    IsLabel m s.cp ∧ Walk m (behind m s.cp) c := by
  cases hwalk with
  | here => exact absurd hlt (Nat.not_lt.mpr hc)
  | label _ _ hlabel hrest => exact ⟨hlabel, hrest⟩

/-- INTERNAL: a round that goes on comes nearer to the end of the message, or has read there. -/
theorem Leaves.next (s s' : State) (h : Leaves m eom s) (hround : turn m comp_dn eom s = .inr s') :
    Leaves m eom s' := by
  obtain ⟨hlt, -, -, rfl⟩ := turn_inr m comp_dn eom s s' hround
  rcases h with ⟨-, c, hwalk, hc⟩ | ⟨x, hx, hle⟩
  · obtain ⟨-, hrest⟩ := leaves_label m eom s hlt c hwalk hc
    by_cases hnext : behind m s.cp < eom
    · exact Or.inl ⟨hnext, c, hrest, hc⟩
    · exact Or.inr ⟨behind m s.cp, List.mem_append_right _ (List.mem_singleton_self _), Nat.not_lt.mp hnext⟩
  · exact Or.inr ⟨x, List.mem_append_left _ (List.mem_append_left _ hx), hle⟩

/-- INTERNAL: **the last round** of such a walk has read at or behind the end. -/
theorem Leaves.last (s : State) (r : Result) (h : Leaves m eom s) (hround : turn m comp_dn eom s = .inl r) :
    ∃ x ∈ r.reads, eom ≤ x := by
  rcases h with ⟨hlt, c, hwalk, hc⟩ | ⟨x, hx, hle⟩
  · obtain ⟨hlabel, hrest⟩ := leaves_label m eom s hlt c hwalk hc
    rw [turn_label m comp_dn eom s hlt hlabel] at hround
    split_ifs at hround with hnext
    cases hround
    refine ⟨behind m s.cp, List.mem_append_right _ (List.mem_singleton_self _), ?_⟩
    -- the walk ends in front of a zero byte
    cases hrest with
    | here => exact hc
    | label _ _ hlabel' _ => exact absurd hlabel'.1 (by rw [not_not.mp hnext]; decide)
  · have hkept : ∀ x ∈ s.reads, x ∈ r.reads := by
      intro y hy
      unfold turn at hround
      dsimp only at hround
      split_ifs at hround
      all_goals
        cases hround
        simp [hy]
    exact ⟨x, hkept x hx, hle⟩

/-- **`dn_skipname` is right exactly for the names that are not empty and behind whose labels the message goes on.**
An empty name is given the length 0, and so is the end of the message; behind a label that reaches the end of the
message the byte is read all the same.
SOURCE: dietlibc-0.28-dn_skipname.patch:7-32 -/
theorem dnSkipname_correct_iff (m : Mem) (comp_dn eom : ℕ) (hle : comp_dn ≤ eom) :
    ∃ r, dnSkipname m comp_dn eom = some r ∧ (Correct m comp_dn eom r ↔ GoesOn m comp_dn eom) := by
  obtain ⟨r, hr⟩ := dnSkipname_isSome m comp_dn eom
  refine ⟨r, hr, ?_, ?_⟩
  · intro hcorrect
    by_cases hend : comp_dn = eom
    · -- no name lies before the end, and yet 0 is returned
      subst hend
      rw [dnSkipname, Nat.sub_self, run_succ_inl _ _ _ _ (turn_end m comp_dn comp_dn _ (Nat.lt_irrefl _))] at hr
      cases hr
      have herror := hcorrect.error (fun b hb => encoded_lt m _ b hb)
      rw [out, if_neg (Nat.lt_irrefl _), Int.sub_self] at herror
      cases herror
    · have hlt : comp_dn < eom := by omega
      refine ⟨?_, ?_⟩
      · intro hzero
        rw [dnSkipname, run_succ_inl _ _ _ _ (turn_zero m comp_dn eom _ hlt hzero)] at hr
        cases hr
        have hlength := hcorrect.length (comp_dn + 1) (.zero comp_dn hzero) hlt
        rw [out, if_neg (Nat.not_lt.mpr hle)] at hlength
        dsimp only at hlength
        omega
      · intro c hwalk
        by_contra hc
        obtain ⟨x, hx, hxle⟩ := run_rule (turn m comp_dn eom) (Leaves m eom) (fun r => ∃ x ∈ r.reads, eom ≤ x) _ _ r hr
          (Or.inl ⟨hlt, c, hwalk, Nat.not_lt.mp hc⟩) (fun s s' h => Leaves.next m comp_dn eom s s' h)
          (fun s r h => Leaves.last m comp_dn eom s r h)
        exact absurd (hcorrect.reads x hx) (Nat.not_lt.mpr hxle)
  · rintro ⟨hne, hgoes⟩
    apply run_rule (turn m comp_dn eom) (Inv m comp_dn) (Correct m comp_dn eom) _ _ r hr
    · exact ⟨.here comp_dn, hne, fun x hx => absurd hx List.not_mem_nil⟩
    · exact fun s s' h => Inv.next m comp_dn eom s s' h
    · exact fun s r h => Inv.correct m comp_dn eom hgoes s r h

/-- A message, with zeros behind it. -/
def message (bytes : Bytes) : Mem := fun i => bytes.getD i 0

/-- **The empty name is given the length 0, and a label that reaches the end of the message is read behind**: a message
of one zero byte, and one of a label without an end. -/
theorem empty_name_and_open_label :
    (dnSkipname (message [0]) 0 1 = some ⟨0, [0]⟩ ∧ Encoded (message [0]) 0 1 ∧
      ¬ Correct (message [0]) 0 1 ⟨0, [0]⟩) ∧
    dnSkipname (message [1, 0x61]) 0 2 = some ⟨-1, [0, 2]⟩ ∧ ¬ Correct (message [1, 0x61]) 0 2 ⟨-1, [0, 2]⟩ := by
  refine ⟨⟨rfl, .zero 0 rfl, ?_⟩, rfl, ?_⟩
  · intro h
    exact absurd (h.length 1 (.zero 0 rfl) le_rfl) (by decide)
  · intro h
    exact absurd (h.reads 2 (by decide)) (by decide)

/-- **The name `a` in a message of three bytes** is given its length: the message goes on behind its only label. -/
theorem correct_for_one_label :
    ∃ r, dnSkipname (message [1, 0x61, 0]) 0 3 = some r ∧ Correct (message [1, 0x61, 0]) 0 3 r := by
  obtain ⟨r, hr, hiff⟩ := dnSkipname_correct_iff (message [1, 0x61, 0]) 0 3 (by decide)
  refine ⟨r, hr, hiff.mpr ⟨by decide, fun c hwalk => ?_⟩⟩
  cases hwalk with
  | here => decide
  | label _ _ _ hrest =>
    -- behind the label stands the zero byte
    cases hrest with
    | here => decide
    | label _ _ hlabel _ => exact absurd hlabel.1 (by decide)

end TTLinux.Analysis.DnSkipnameNames
