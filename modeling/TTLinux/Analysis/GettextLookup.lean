import TTLinux.Lib.DoubleHashing
import TTLinux.Model.Gettext

/-!
# Looking up messages in a catalog

A catalog in the byte order of the host is described by `IsCatalog`: what the words of its
header and tables are, where its strings stand, and that its hash table is the one that
double hashing fills. `dcngettext_catalog` says that a lookup ends with the translation of
the message, or with the message itself when the catalog does not have it.
-/

set_option autoImplicit false

namespace TTLinux.Analysis.GettextLookup

open TTLinux.Lib TTLinux.Lib.DoubleHashing TTLinux.Model.Gettext

/-! ## Hash values -/

/-- INTERNAL: the mask of the hash function selects bits of the low word.
SOURCE: dietlibc-gettext.patch:62 -/
theorem toNat_mask (w : ℕ) (hw : 32 ≤ w) (h : BitVec w) :
    (h &&& (0xf#w <<< 28)).toNat = h.toNat % 2 ^ 32 &&& 0xf0000000 := by
  have hpow : 2 ^ 32 ≤ 2 ^ w := Nat.pow_le_pow_right (by decide) hw
  have h15 : 15 % 2 ^ w = 15 := Nat.mod_eq_of_lt (by omega)
  have hmask : (0xf#w <<< 28).toNat = 0xf0000000 := by
    rw [BitVec.toNat_shiftLeft, BitVec.toNat_ofNat, h15]
    exact Nat.mod_eq_of_lt (Nat.lt_of_lt_of_le (by decide) hpow)
  have hmod : h.toNat &&& 0xf0000000 = (h.toNat &&& 0xf0000000) % 2 ^ 32 :=
    (Nat.mod_eq_of_lt (Nat.and_lt_two_pow _ (by decide))).symm
  rw [BitVec.toNat_and, hmask, hmod, Nat.and_mod_two_pow]

/-- INTERNAL: the selected bits do not depend on the width. -/
theorem setWidth_mask (w : ℕ) (hw : 32 ≤ w) (h : BitVec w) :
    (h &&& (0xf#w <<< 28)).setWidth 32 = h.setWidth 32 &&& (0xf#32 <<< 28) := by
  apply BitVec.eq_of_toNat_eq
  rw [BitVec.toNat_setWidth, toNat_mask w hw, toNat_mask 32 (Nat.le_refl 32),
    BitVec.toNat_setWidth, Nat.mod_mod]
  exact Nat.mod_eq_of_lt (Nat.and_lt_two_pow _ (by decide))

/-- INTERNAL: whether a selected bit is set does not depend on the width. -/
theorem mask_eq_zero_iff (w : ℕ) (hw : 32 ≤ w) (h : BitVec w) :
    h &&& (0xf#w <<< 28) = 0#w ↔ h.setWidth 32 &&& (0xf#32 <<< 28) = 0#32 := by
  rw [← BitVec.toNat_inj, ← BitVec.toNat_inj, toNat_mask w hw, toNat_mask 32 (Nat.le_refl 32),
    BitVec.toNat_setWidth, Nat.mod_mod]
  simp

/-- INTERNAL: and for shifting them down. -/
theorem setWidth_mask_shift (w : ℕ) (hw : 32 ≤ w) (h : BitVec w) :
    ((h &&& (0xf#w <<< 28)) >>> 24).setWidth 32 = (h.setWidth 32 &&& (0xf#32 <<< 28)) >>> 24 := by
  have hlt : (h &&& (0xf#w <<< 28)).toNat < 2 ^ 32 := by
    rw [toNat_mask w hw]
    exact Nat.and_lt_two_pow _ (by decide)
  apply BitVec.eq_of_toNat_eq
  rw [BitVec.toNat_setWidth, BitVec.toNat_ushiftRight, BitVec.toNat_ushiftRight, ← setWidth_mask w hw,
    BitVec.toNat_setWidth, Nat.mod_eq_of_lt hlt,
    Nat.mod_eq_of_lt (Nat.lt_of_le_of_lt (Nat.shiftRight_le _ _) hlt)]

/-- INTERNAL: appending a character changes the low word as it changes a 32-bit value. -/
theorem setWidth_accum (w : ℕ) (hw : 32 ≤ w) (hval : BitVec w) (c : UInt8) :
    ((hval <<< 4) + BitVec.ofNat w c.toNat).setWidth 32 =
      (hval.setWidth 32 <<< 4) + BitVec.ofNat 32 c.toNat := by
  have hdvd : 2 ^ 32 ∣ 2 ^ w := Nat.pow_dvd_pow 2 hw
  apply BitVec.eq_of_toNat_eq
  simp only [BitVec.toNat_setWidth, BitVec.toNat_add, BitVec.toNat_shiftLeft, BitVec.toNat_ofNat,
    Nat.shiftLeft_eq]
  rw [Nat.mod_mod_of_dvd _ hdvd, Nat.add_mod, Nat.mod_mod_of_dvd _ hdvd, Nat.mod_mod_of_dvd _ hdvd,
    Nat.mul_mod (hval.toNat % 2 ^ 32), Nat.mod_mod, ← Nat.mul_mod]

/-- INTERNAL: one character of the hash function.
SOURCE: dietlibc-gettext.patch:60-66 -/
theorem setWidth_hashStep (w : ℕ) (hw : 32 ≤ w) (hval : BitVec w) (c : UInt8) :
    (hashStep w hval c).setWidth 32 = hashStep 32 (hval.setWidth 32) c := by
  unfold hashStep
  simp only [ne_eq, mask_eq_zero_iff w hw, setWidth_accum w hw]
  split_ifs
  · rw [setWidth_accum w hw]
  · rw [BitVec.setWidth_xor, BitVec.setWidth_xor, setWidth_mask_shift w hw, setWidth_mask w hw,
      setWidth_accum w hw]

/-- INTERNAL: **the hash value does not depend on the width** of `unsigned long`.
SOURCE: dietlibc-gettext.patch:55-69, 261 -/
theorem setWidth_hashstring (w : ℕ) (hw : 32 ≤ w) (str : Bytes) :
    (hashstring w str).setWidth 32 = hashstring 32 str := by
  have hfold : ∀ a : BitVec w, (str.foldl (hashStep w) a).setWidth 32 =
      str.foldl (hashStep 32) (a.setWidth 32) := by
    induction str with
    | nil => exact fun _ => rfl
    | cons c str ih =>
      intro a
      rw [List.foldl_cons, List.foldl_cons, ih, setWidth_hashStep w hw]
  unfold hashstring
  rw [hfold]
  simp

/-! ## The probe loop -/

/-- INTERNAL: the wrap-around of the index.
SOURCE: dietlibc-gettext.patch:279-282 -/
theorem ofNat_next (size idx inc : ℕ) (hsize : size < 2 ^ 32) (hidx : idx < size) (hinc : inc < size) :
    (if BitVec.ofNat 32 size - BitVec.ofNat 32 inc ≤ BitVec.ofNat 32 idx
      then BitVec.ofNat 32 idx - (BitVec.ofNat 32 size - BitVec.ofNat 32 inc)
      else BitVec.ofNat 32 idx + BitVec.ofNat 32 inc) = BitVec.ofNat 32 (next size idx inc) := by
  have hsub : BitVec.ofNat 32 size - BitVec.ofNat 32 inc = BitVec.ofNat 32 (size - inc) := by
    apply BitVec.eq_of_toNat_eq
    rw [BitVec.toNat_sub, BitVec.toNat_ofNat, BitVec.toNat_ofNat, BitVec.toNat_ofNat]
    omega
  have hle : BitVec.ofNat 32 (size - inc) ≤ BitVec.ofNat 32 idx ↔ size - inc ≤ idx := by
    rw [BitVec.le_def, BitVec.toNat_ofNat, BitVec.toNat_ofNat, Nat.mod_eq_of_lt (by omega),
      Nat.mod_eq_of_lt (by omega)]
  unfold next
  rw [hsub]
  simp only [hle]
  split_ifs with h
  · apply BitVec.eq_of_toNat_eq
    rw [BitVec.toNat_sub, BitVec.toNat_ofNat, BitVec.toNat_ofNat, BitVec.toNat_ofNat]
    omega
  · rw [BitVec.ofNat_add]

/-- What the probe loop sees of an image when it looks for a message: the slots of the hash
table hold `tab`, and the entries for which `hit` is true have the message. -/
structure View (e : Endian) (data : Bytes) (otab htab n size : ℕ) (tab : Table) (msgid : Bytes)
    (hit : ℕ → Bool) : Prop where
  size_lt : size < 2 ^ 32
  size_gt : 2 < size
  n_lt : n < 2 ^ 32
  tab_lt : ∀ s, s < size → tab s < 2 ^ 32
  load : ∀ s, s < size → load32 e data (htab + 4 * s) = some (BitVec.ofNat 32 (tab s))
  test : ∀ s, s < size → tab s ≠ 0 → tab s - 1 < n →
    testEntry e data otab msgid (BitVec.ofNat 32 (tab s - 1)) = some (hit (tab s - 1))

/-- A slot value that leads to an entry with the message. -/
def Hit (n : ℕ) (hit : ℕ → Bool) (v : ℕ) : Prop := v ≠ 0 ∧ v - 1 < n ∧ hit (v - 1) = true

section

variable (e : Endian) (data : Bytes) (otab htab n size : ℕ) (tab : Table) (msgid : Bytes)
  (hit : ℕ → Bool)

/-- INTERNAL: a number of 32 bits as a word. -/
theorem toNat_ofNat_word (v : ℕ) (hv : v < 2 ^ 32) : (BitVec.ofNat 32 v).toNat = v := by
  rw [BitVec.toNat_ofNat, Nat.mod_eq_of_lt hv]

/-- INTERNAL: it is zero as a word only if it is zero. -/
theorem word_ne_zero (v : ℕ) (hv : v < 2 ^ 32) (h0 : v ≠ 0) : BitVec.ofNat 32 v ≠ 0#32 := by
  intro h
  have hz := congrArg BitVec.toNat h
  rw [toNat_ofNat_word v hv] at hz
  exact h0 hz

/-- INTERNAL: the index that a slot value stands for. -/
theorem ofNat_pred (v : ℕ) (h0 : v ≠ 0) :
    BitVec.ofNat 32 v - 1#32 = BitVec.ofNat 32 (v - 1) := by
  obtain ⟨u, rfl⟩ := Nat.exists_eq_succ_of_ne_zero h0
  rw [Nat.succ_eq_add_one, BitVec.ofNat_add, Nat.add_sub_cancel]
  exact BitVec.add_sub_cancel _ _

/-- INTERNAL: and is compared as a number. -/
theorem ofNat_lt_iff (a b : ℕ) (ha : a < 2 ^ 32) (hb : b < 2 ^ 32) :
    BitVec.ofNat 32 a < BitVec.ofNat 32 b ↔ a < b := by
  rw [BitVec.lt_def, toNat_ofNat_word a ha, toNat_ofNat_word b hb]

/-- INTERNAL: the loop ends at an empty slot.
SOURCE: dietlibc-gettext.patch:268-269 -/
theorem probeLoop_empty (view : View e data otab htab n size tab msgid hit) (inc : BitVec 32)
    (fuel s : ℕ) (hs : s < size) (h0 : tab s = 0) :
    probeLoop e data otab htab (BitVec.ofNat 32 n) (BitVec.ofNat 32 size) msgid inc (fuel + 1)
      (BitVec.ofNat 32 s) = .absent := by
  have hlt := view.size_lt
  rw [probeLoop, toNat_ofNat_word s (by omega), view.load s hs, h0]
  simp

/-- INTERNAL: the test of the entry of a slot, with the bound on the index.
SOURCE: dietlibc-gettext.patch:273-277 -/
theorem test_slot (view : View e data otab htab n size tab msgid hit) (s : ℕ) (hs : s < size)
    (h0 : tab s ≠ 0) :
    (if BitVec.ofNat 32 (tab s - 1) < BitVec.ofNat 32 n
      then testEntry e data otab msgid (BitVec.ofNat 32 (tab s - 1)) else some false) =
      some (decide (tab s - 1 < n) && hit (tab s - 1)) := by
  have hv := view.tab_lt s hs
  simp only [ofNat_lt_iff (tab s - 1) n (by omega) view.n_lt]
  split_ifs with hlt
  · rw [view.test s hs h0 hlt]
    simp [hlt]
  · simp [hlt]

/-- INTERNAL: the loop ends at a hit.
SOURCE: dietlibc-gettext.patch:273-277 -/
theorem probeLoop_hit (view : View e data otab htab n size tab msgid hit) (inc : BitVec 32)
    (fuel s : ℕ) (hs : s < size) (hhit : Hit n hit (tab s)) :
    probeLoop e data otab htab (BitVec.ofNat 32 n) (BitVec.ofNat 32 size) msgid inc (fuel + 1)
      (BitVec.ofNat 32 s) = .found (BitVec.ofNat 32 (tab s - 1)) := by
  obtain ⟨h0, hlt, htrue⟩ := hhit
  have hsize := view.size_lt
  have hv := view.tab_lt s hs
  have hne := word_ne_zero (tab s) hv h0
  rw [probeLoop, toNat_ofNat_word s (by omega), view.load s hs]
  simp only [if_neg hne, ofNat_pred _ h0, test_slot e data otab htab n size tab msgid hit view s hs h0,
    hlt, htrue, decide_true, Bool.and_true]

/-- INTERNAL: **one turn** of the loop that neither ends it nor finds the message.
SOURCE: dietlibc-gettext.patch:265-283 -/
theorem probeLoop_miss (view : View e data otab htab n size tab msgid hit) (inc fuel s : ℕ)
    (hs : s < size) (hinc : inc < size) (h0 : tab s ≠ 0) (hmiss : ¬ Hit n hit (tab s)) :
    probeLoop e data otab htab (BitVec.ofNat 32 n) (BitVec.ofNat 32 size) msgid
        (BitVec.ofNat 32 inc) (fuel + 1) (BitVec.ofNat 32 s) =
      probeLoop e data otab htab (BitVec.ofNat 32 n) (BitVec.ofNat 32 size) msgid
        (BitVec.ofNat 32 inc) fuel (BitVec.ofNat 32 (next size s inc)) := by
  have hsize := view.size_lt
  have hv := view.tab_lt s hs
  have hne := word_ne_zero (tab s) hv h0
  have hfalse : (decide (tab s - 1 < n) && hit (tab s - 1)) = false := by
    apply Bool.eq_false_iff.mpr
    intro h
    rw [Bool.and_eq_true, decide_eq_true_eq] at h
    exact hmiss ⟨h0, h.1, h.2⟩
  rw [probeLoop, toNat_ofNat_word s (by omega), view.load s hs]
  simp only [if_neg hne, ofNat_pred _ h0, test_slot e data otab htab n size tab msgid hit view s hs h0,
    hfalse, ofNat_next size s inc hsize hs hinc]

/-- INTERNAL: **the turns along a path** up to its `k`-th slot.
SOURCE: dietlibc-gettext.patch:265-283 -/
theorem probeLoop_path (view : View e data otab htab n size tab msgid hit) (h fuel k : ℕ)
    (hpath : ∀ j, j < k → tab (slot size h j) ≠ 0 ∧ ¬ Hit n hit (tab (slot size h j))) :
    probeLoop e data otab htab (BitVec.ofNat 32 n) (BitVec.ofNat 32 size) msgid
        (BitVec.ofNat 32 (stride size h)) (fuel + k) (BitVec.ofNat 32 (h % size)) =
      probeLoop e data otab htab (BitVec.ofNat 32 n) (BitVec.ofNat 32 size) msgid
        (BitVec.ofNat 32 (stride size h)) fuel (BitVec.ofNat 32 (slot size h k)) := by
  induction k generalizing fuel with
  | zero => rw [slot_zero, Nat.add_zero]
  | succ k ih =>
    obtain ⟨h0, hmiss⟩ := hpath k (Nat.lt_succ_self k)
    have hfuel : fuel + (k + 1) = (fuel + 1) + k := by omega
    rw [hfuel, ih (fuel + 1) (fun j hj => hpath j (Nat.lt_succ_of_lt hj)),
      probeLoop_miss e data otab htab n size tab msgid hit view _ _ _
        (slot_lt size view.size_gt h k) (stride_lt size view.size_gt h).2 h0 hmiss,
      slot_succ size view.size_gt]

end

/-! ## The lookup -/

/-- The words of the header that are used. -/
structure Header (e : Endian) (data : Bytes) (otab ttab htab n size : ℕ) : Prop where
  otab : otab < 2 ^ 32 ∧ load32 e data origTabAt = some (BitVec.ofNat 32 otab)
  ttab : ttab < 2 ^ 32 ∧ load32 e data transTabAt = some (BitVec.ofNat 32 ttab)
  htab : htab < 2 ^ 32 ∧ load32 e data hashTabAt = some (BitVec.ofNat 32 htab)
  n : n < 2 ^ 31 ∧ load32 e data nstringsAt = some (BitVec.ofNat 32 n)
  size : 2 < size ∧ size < 2 ^ 32 ∧ load32 e data hashSizeAt = some (BitVec.ofNat 32 size)

/-- The string that a successful lookup returns: the translation that starts at `off`, or what
follows its first form when the number is not one. -/
def translation (data : Bytes) (off num : ℕ) : Outcome :=
  if num = 1 then .returned (.data off)
  else
    match strend (data.drop off) with
    | none => .fault
    | some k => .returned (.data (off + k + 1))

section

variable (e : Endian) (data : Bytes) (otab ttab htab n size : ℕ) (tab : Table) (msgid : Bytes)
  (hit : ℕ → Bool)

/-- INTERNAL: the first index and the increment.
SOURCE: dietlibc-gettext.patch:261-263 -/
theorem ofNat_stride (val : BitVec 32) (h2 : 2 < size) (hlt : size < 2 ^ 32) :
    val % BitVec.ofNat 32 size = BitVec.ofNat 32 (val.toNat % size) ∧
      1#32 + val % (BitVec.ofNat 32 size - 2#32) = BitVec.ofNat 32 (stride size val.toNat) ∧
      BitVec.ofNat 32 size ≠ 0#32 ∧ BitVec.ofNat 32 size - 2#32 ≠ 0#32 := by
  have hsub : (BitVec.ofNat 32 size - 2#32).toNat = size - 2 := by
    rw [BitVec.toNat_sub, BitVec.toNat_ofNat, BitVec.toNat_ofNat]
    omega
  have hsize := toNat_ofNat_word size hlt
  have hmod : val.toNat % (size - 2) < size - 2 := Nat.mod_lt _ (by omega)
  refine ⟨?_, ?_, ?_, ?_⟩
  · apply BitVec.eq_of_toNat_eq
    have hm : val.toNat % size < size := Nat.mod_lt _ (by omega)
    rw [BitVec.toNat_umod, hsize, BitVec.toNat_ofNat]
    exact (Nat.mod_eq_of_lt (by omega)).symm
  · apply BitVec.eq_of_toNat_eq
    rw [BitVec.toNat_add, BitVec.toNat_umod, hsub, BitVec.toNat_ofNat, BitVec.toNat_ofNat, stride]
  · intro h
    have hz := congrArg BitVec.toNat h
    rw [hsize] at hz
    exact absurd hz (by simp; omega)
  · intro h
    have hz := congrArg BitVec.toNat h
    rw [hsub] at hz
    exact absurd hz (by simp; omega)

/-- INTERNAL: the lookup is its probe loop and what is made of the entry.
SOURCE: dietlibc-gettext.patch:255-293 -/
theorem lookupCatalog_eq (header : Header e data otab ttab htab n size) (w : ℕ) (hw : 32 ≤ w)
    (fuel : ℕ) (text : Text) (num : ℕ) :
    lookupCatalog e w fuel data text msgid num =
      match probeLoop e data otab htab (BitVec.ofNat 32 n) (BitVec.ofNat 32 size) msgid
        (BitVec.ofNat 32 (stride size (hashstring 32 msgid).toNat)) fuel
        (BitVec.ofNat 32 ((hashstring 32 msgid).toNat % size)) with
      | .running => .running
      | .fault => .fault
      | .absent => .returned text
      | .found act =>
        if act.toInt ≠ -1 ∧ act.toInt < (BitVec.ofNat 32 n).toInt then
          if (ttab : ℤ) + 8 * act.toInt + 4 < 0 then .fault
          else
            match load32 e data ((ttab : ℤ) + 8 * act.toInt + 4).toNat with
            | none => .fault
            | some off => translation data off.toNat num
        else .returned text := by
  obtain ⟨hidx, hinc, hz, hz2⟩ := ofNat_stride size (hashstring 32 msgid) header.size.1
    header.size.2.1
  unfold lookupCatalog
  rw [header.otab.2, header.ttab.2, header.htab.2, header.size.2.2, header.n.2]
  simp only [hz, hz2, or_self, if_false, setWidth_hashstring w hw, hidx, hinc,
    toNat_ofNat_word _ header.otab.1, toNat_ofNat_word _ header.ttab.1, toNat_ofNat_word _ header.htab.1]
  rfl

/-- INTERNAL: a search that meets an empty slot first returns the message.
SOURCE: dietlibc-gettext.patch:255-294 -/
theorem lookupCatalog_absent (header : Header e data otab ttab htab n size)
    (view : View e data otab htab n size tab msgid hit) (w : ℕ) (hw : 32 ≤ w) (text : Text)
    (num k : ℕ) (hempty : tab (slot size (hashstring 32 msgid).toNat k) = 0)
    (hpath : ∀ j, j < k → tab (slot size (hashstring 32 msgid).toNat j) ≠ 0 ∧
      ¬ Hit n hit (tab (slot size (hashstring 32 msgid).toNat j)))
    (fuel : ℕ) (hfuel : k < fuel) :
    lookupCatalog e w fuel data text msgid num = .returned text := by
  obtain ⟨f, rfl⟩ : ∃ f, fuel = f + 1 + k := ⟨fuel - 1 - k, by omega⟩
  rw [lookupCatalog_eq e data otab ttab htab n size msgid header w hw,
    probeLoop_path e data otab htab n size tab msgid hit view _ (f + 1) k hpath,
    probeLoop_empty e data otab htab n size tab msgid hit view _ f _
      (slot_lt size view.size_gt _ _) hempty]

/-- INTERNAL: a search that meets a hit first returns its translation.
SOURCE: dietlibc-gettext.patch:255-294 -/
theorem lookupCatalog_found (header : Header e data otab ttab htab n size)
    (view : View e data otab htab n size tab msgid hit) (w : ℕ) (hw : 32 ≤ w) (text : Text)
    (num k i off : ℕ) (hval : tab (slot size (hashstring 32 msgid).toNat k) = i + 1)
    (hhit : Hit n hit (i + 1))
    (hpath : ∀ j, j < k → tab (slot size (hashstring 32 msgid).toNat j) ≠ 0 ∧
      ¬ Hit n hit (tab (slot size (hashstring 32 msgid).toNat j)))
    (hoff : off < 2 ^ 32) (hdesc : load32 e data (ttab + 8 * i + 4) = some (BitVec.ofNat 32 off))
    (fuel : ℕ) (hfuel : k < fuel) :
    lookupCatalog e w fuel data text msgid num = translation data off num := by
  obtain ⟨f, rfl⟩ : ∃ f, fuel = f + 1 + k := ⟨fuel - 1 - k, by omega⟩
  have hi : i < n := by simpa using hhit.2.1
  have hn := header.n.1
  have hint : ∀ v, v < 2 ^ 31 → (BitVec.ofNat 32 v).toInt = v := by
    intro v hv
    rw [BitVec.toInt_eq_toNat_of_lt]
    · rw [toNat_ofNat_word v (by omega)]
    · rw [toNat_ofNat_word v (by omega)]
      omega
  have hact : ((i : ℤ) ≠ -1 ∧ (i : ℤ) < (n : ℤ)) := by omega
  have haddr : ((ttab : ℤ) + 8 * (i : ℤ) + 4).toNat = ttab + 8 * i + 4 := by omega
  have hpos : ¬ ((ttab : ℤ) + 8 * (i : ℤ) + 4 < 0) := by omega
  rw [lookupCatalog_eq e data otab ttab htab n size msgid header w hw,
    probeLoop_path e data otab htab n size tab msgid hit view _ (f + 1) k hpath,
    probeLoop_hit e data otab htab n size tab msgid hit view _ f _
      (slot_lt size view.size_gt _ _) (hval ▸ hhit), hval, Nat.add_sub_cancel]
  simp only [hint i (by omega), hint n hn, if_pos hact, if_neg hpos, haddr, hdesc]
  rw [toNat_ofNat_word _ hoff]

end

/-! ## Catalogs -/

/-- An entry of a catalog: the original string, which for a message with a plural form is
`msgid`, a zero byte and `msgid_plural`, and the translation. -/
structure Entry where
  orig : Bytes
  trans : Bytes

/-- The message by which an entry is found. -/
def Entry.msgid (x : Entry) : Bytes := cstr x.orig

/-- Where the parts of a catalog stand in its image. -/
structure Layout where
  otab : ℕ
  ttab : ℕ
  htab : ℕ
  size : ℕ
  orig : ℕ → ℕ
  trans : ℕ → ℕ

/-- The hash value of an entry. -/
def hashOf (entries : List Entry) (i : ℕ) : ℕ :=
  match entries[i]? with
  | some x => (hashstring 32 x.msgid).toNat
  | none => 0

/-- The hash table that msgfmt fills. -/
def hashTable (size : ℕ) (entries : List Entry) : Table := fill size (hashOf entries) entries.length

/-- The word at an offset of the image is `v`. -/
def Holds (e : Endian) (img : Bytes) (off v : ℕ) : Prop :=
  v < 2 ^ 32 ∧ load32 e img off = some (BitVec.ofNat 32 v)

instance (e : Endian) (img : Bytes) (off v : ℕ) : Decidable (Holds e img off v) :=
  inferInstanceAs (Decidable (_ ∧ _))

/-- The words of the header and of the tables of a catalog, the strings that the descriptors
point to, and a hash table with an empty slot. -/
structure HasTables (e : Endian) (img : Bytes) (entries : List Entry) (L : Layout) : Prop where
  nstrings : Holds e img nstringsAt entries.length
  otab : Holds e img origTabAt L.otab
  ttab : Holds e img transTabAt L.ttab
  size : Holds e img hashSizeAt L.size
  htab : Holds e img hashTabAt L.htab
  prime : L.size.Prime
  size_gt : 2 < L.size
  empty : ∃ s, s < L.size ∧ hashTable L.size entries s = 0
  slots : ∀ s, s < L.size → Holds e img (L.htab + 4 * s) (hashTable L.size entries s)
  origDesc : ∀ i x, entries[i]? = some x →
    Holds e img (L.otab + 8 * i) x.orig.length ∧ Holds e img (L.otab + 8 * i + 4) (L.orig i)
  transDesc : ∀ i x, entries[i]? = some x →
    Holds e img (L.ttab + 8 * i) x.trans.length ∧ Holds e img (L.ttab + 8 * i + 4) (L.trans i)
  origString : ∀ i x, entries[i]? = some x → x.orig ++ [0] <+: img.drop (L.orig i)
  transString : ∀ i x, entries[i]? = some x → x.trans ++ [0] <+: img.drop (L.trans i)
  distinct : (entries.map Entry.msgid).Nodup
  /-- The two tables of descriptors do not overlap. -/
  apart : L.otab + 8 * entries.length ≤ L.ttab ∨ L.ttab + 8 * entries.length ≤ L.otab

/-- **A catalog** in the byte order `e`. -/
structure IsCatalog (e : Endian) (img : Bytes) (entries : List Entry) (L : Layout) : Prop
    extends HasTables e img entries L where
  magic : load32 e img 0 = some MAGIC

/-- The entry `i` has the message. -/
def hasMsgid (entries : List Entry) (msgid : Bytes) (i : ℕ) : Bool :=
  match entries[i]? with
  | some x => x.msgid == msgid
  | none => false

/-- INTERNAL: `strcmp` with a string that ends inside the image. -/
theorem strcmpEq_cstr (msgid s rest : Bytes) (hm : (0 : UInt8) ∉ msgid) (hs : (0 : UInt8) ∉ s) :
    strcmpEq msgid (s ++ 0 :: rest) = some (s == msgid) := by
  induction msgid generalizing s with
  | nil =>
    cases s with
    | nil => simp [strcmpEq]
    | cons b s =>
      have hb : b ≠ 0 := fun h => hs (h ▸ List.mem_cons_self)
      simp [strcmpEq, hb]
  | cons c msgid ih =>
    have hc : c ≠ 0 := fun h => hm (h ▸ List.mem_cons_self)
    cases s with
    | nil => simp [strcmpEq, hc]
    | cons b s =>
      have hrest := ih s (fun h => hm (List.mem_cons_of_mem c h)) (fun h => hs (List.mem_cons_of_mem b h))
      rw [List.cons_append, strcmpEq]
      split_ifs with hcb
      · rw [hrest, hcb]
        simp
      · simp [Ne.symm hcb]

/-- INTERNAL: a buffer from the end of its C string on. -/
theorem cstr_append_zero (buf rest : Bytes) :
    (0 : UInt8) ∉ cstr buf ∧ ∃ rest', buf ++ 0 :: rest = cstr buf ++ 0 :: rest' := by
  induction buf with
  | nil => exact ⟨by simp [cstr], rest, rfl⟩
  | cons b buf ih =>
    obtain ⟨hzero, rest', heq⟩ := ih
    by_cases hb : b = 0
    · refine ⟨by simp [cstr, hb], buf ++ 0 :: rest, by simp [cstr, hb]⟩
    · have hcons : cstr (b :: buf) = b :: cstr buf := by simp [cstr, hb]
      rw [hcons]
      refine ⟨?_, rest', by rw [List.cons_append, heq, List.cons_append]⟩
      intro hmem
      rcases List.mem_cons.mp hmem with h | h
      · exact hb h.symm
      · exact hzero h

section

variable (e : Endian) (img : Bytes) (entries : List Entry) (L : Layout)

/-- INTERNAL: the test of an entry compares its message.
SOURCE: dietlibc-gettext.patch:274 -/
theorem testEntry_eq (msgid : Bytes) (hm : (0 : UInt8) ∉ msgid) (otab i off : ℕ) (x : Entry)
    (hi : i < 2 ^ 32) (hlen : Holds e img (otab + 8 * i) x.orig.length)
    (hoff : Holds e img (otab + 8 * i + 4) off) (hstr : x.orig ++ [0] <+: img.drop off) :
    testEntry e img otab msgid (BitVec.ofNat 32 i) = some (x.msgid == msgid) := by
  obtain ⟨rest, hrest⟩ := hstr
  obtain ⟨hzero, rest', heq⟩ := cstr_append_zero x.orig rest
  have hcmp : strcmpEq msgid (img.drop off) = some (x.msgid == msgid) := by
    rw [← hrest, List.append_assoc, List.singleton_append, heq]
    exact strcmpEq_cstr msgid _ rest' hm hzero
  unfold testEntry
  rw [toNat_ofNat_word i hi, hlen.2, hoff.2]
  simp only [Option.bind_eq_bind, Option.bind_some, toNat_ofNat_word off hoff.1, hcmp]
  split_ifs with hle
  · rfl
  · -- a message that is longer than the whole entry is not its message
    have hne : (x.msgid == msgid) = false := by
      apply beq_false_of_ne
      rintro rfl
      apply hle
      have hsub : (cstr x.orig).length ≤ x.orig.length := (List.takeWhile_prefix _).length_le
      have h32 := hlen.1
      rw [BitVec.le_def, toNat_ofNat_word _ h32, toNat_ofNat_word _ (by
        unfold Entry.msgid
        omega)]
      exact hsub
    rw [hne]

/-- INTERNAL: the tables leave room for fewer than `2 ^ 31` strings. -/
theorem HasTables.length_lt (h : HasTables e img entries L) : entries.length < 2 ^ 31 := by
  have h1 := h.otab.1
  have h2 := h.ttab.1
  have h3 := h.apart
  omega

/-- INTERNAL: the header of a catalog. -/
theorem HasTables.header (h : HasTables e img entries L) :
    Header e img L.otab L.ttab L.htab entries.length L.size :=
  ⟨h.otab, h.ttab, h.htab, ⟨h.length_lt, h.nstrings.2⟩, ⟨h.size_gt, h.size.1, h.size.2⟩⟩

/-- INTERNAL: the hash table of a catalog places every entry on its path. -/
theorem HasTables.placed (h : HasTables e img entries L) :
    Placed L.size (hashOf entries) entries.length (hashTable L.size entries) :=
  fill_placed L.size h.prime h.size_gt _ _ h.empty

/-- INTERNAL: what the probe loop sees of a catalog. -/
theorem HasTables.view (h : HasTables e img entries L) (msgid : Bytes) (hm : (0 : UInt8) ∉ msgid) :
    View e img L.otab L.htab entries.length L.size (hashTable L.size entries) msgid
      (hasMsgid entries msgid) := by
  refine ⟨h.size.1, h.size_gt, h.nstrings.1, fun s hs => (h.slots s hs).1,
    fun s hs => (h.slots s hs).2, ?_⟩
  intro s hs h0 hlt
  have hx : entries[hashTable L.size entries s - 1]? =
      some (entries.get ⟨hashTable L.size entries s - 1, hlt⟩) := List.getElem?_eq_getElem hlt
  obtain ⟨hlen, hoff⟩ := h.origDesc _ _ hx
  have hn := h.nstrings.1
  rw [testEntry_eq e img msgid hm L.otab _ _ _ (by omega) hlen hoff (h.origString _ _ hx), hasMsgid, hx]

/-- INTERNAL: only one entry has a given message. -/
theorem HasTables.hasMsgid_unique (h : HasTables e img entries L) (msgid : Bytes) (i : ℕ) (x : Entry)
    (hx : entries[i]? = some x) (hmsg : x.msgid = msgid) (v : ℕ)
    (hhit : Hit entries.length (hasMsgid entries msgid) v) : v = i + 1 := by
  obtain ⟨h0, hlt, htrue⟩ := hhit
  have hy : entries[v - 1]? = some (entries.get ⟨v - 1, hlt⟩) := List.getElem?_eq_getElem hlt
  rw [hasMsgid, hy] at htrue
  have heq : (entries.map Entry.msgid)[v - 1]? = (entries.map Entry.msgid)[i]? := by
    rw [List.getElem?_map, List.getElem?_map, hy, hx, Option.map_some, Option.map_some, hmsg,
      beq_iff_eq.mp htrue]
  have hidx := (List.getElem?_inj (by simpa using hlt) h.distinct).mp heq
  omega

/-- INTERNAL: **a message of the catalog**: the search stops at its entry.
SOURCE: dietlibc-gettext.patch:265-283 -/
theorem HasTables.stop_at_entry (h : HasTables e img entries L) (msgid : Bytes) (i : ℕ) (x : Entry)
    (hx : entries[i]? = some x) (hmsg : x.msgid = msgid) :
    Hit entries.length (hasMsgid entries msgid) (i + 1) ∧
    ∃ k, hashTable L.size entries (slot L.size (hashstring 32 msgid).toNat k) = i + 1 ∧
      ∀ j, j < k → hashTable L.size entries (slot L.size (hashstring 32 msgid).toNat j) ≠ 0 ∧
        ¬ Hit entries.length (hasMsgid entries msgid)
          (hashTable L.size entries (slot L.size (hashstring 32 msgid).toNat j)) := by
  have hi : i < entries.length := (List.getElem?_eq_some_iff.mp hx).1
  have hhit : Hit entries.length (hasMsgid entries msgid) (i + 1) := by
    refine ⟨Nat.succ_ne_zero i, by simpa using hi, ?_⟩
    rw [Nat.add_sub_cancel, hasMsgid, hx]
    exact beq_iff_eq.mpr hmsg
  have hhash : hashOf entries i = (hashstring 32 msgid).toNat := by
    rw [hashOf, hx, ← hmsg]
  obtain ⟨m, -, hval, hbefore⟩ := h.placed.onPath i hi
  rw [hhash] at hval hbefore
  obtain ⟨k, hstop, hpath⟩ := exists_stop L.size h.prime h.size_gt (hashTable L.size entries)
    (hashstring 32 msgid).toNat (Hit entries.length (hasMsgid entries msgid)) h.empty
  refine ⟨hhit, k, ?_, hpath⟩
  rcases hstop with hzero | hk
  · -- no slot up to the entry is empty, and the entry is a hit
    exfalso
    rcases Nat.lt_trichotomy k m with hlt | rfl | hgt
    · exact hbefore k hlt hzero
    · omega
    · exact (hpath m hgt).2 (hval ▸ hhit)
  · exact h.hasMsgid_unique _ _ _ _ msgid i x hx hmsg _ hk

/-- INTERNAL: **any other message**: the search stops at an empty slot.
SOURCE: dietlibc-gettext.patch:265-283 -/
theorem HasTables.stop_at_empty (h : HasTables e img entries L) (msgid : Bytes)
    (hnone : ∀ x ∈ entries, x.msgid ≠ msgid) :
    ∃ k, hashTable L.size entries (slot L.size (hashstring 32 msgid).toNat k) = 0 ∧
      ∀ j, j < k → hashTable L.size entries (slot L.size (hashstring 32 msgid).toNat j) ≠ 0 ∧
        ¬ Hit entries.length (hasMsgid entries msgid)
          (hashTable L.size entries (slot L.size (hashstring 32 msgid).toNat j)) := by
  obtain ⟨k, hstop, hpath⟩ := exists_stop L.size h.prime h.size_gt (hashTable L.size entries)
    (hashstring 32 msgid).toNat (Hit entries.length (hasMsgid entries msgid)) h.empty
  refine ⟨k, hstop.resolve_right ?_, hpath⟩
  rintro ⟨-, hlt, htrue⟩
  have hy := List.getElem?_eq_getElem hlt
  rw [hasMsgid, hy] at htrue
  exact hnone _ (List.getElem_mem hlt) (beq_iff_eq.mp htrue)

end

/-- INTERNAL: a catalog in the byte order of the host is taken as it is.
SOURCE: dietlibc-gettext.patch:161-195 -/
theorem catalogOpen_native (e : Endian) (img : Bytes) (entries : List Entry) (L : Layout)
    (h : IsCatalog e img entries L) : catalogOpen e img = some (some img) := by
  have hne : MAGIC ≠ MAGIC_SWAPPED := by decide
  unfold catalogOpen
  rw [h.magic]
  simp [hne]

/-- **Every message of a catalog is found, and no other**: after finitely many probes
`dcngettext` returns the translation of the message, or the message itself when the
catalog does not have it.
SOURCE: dietlibc-gettext.patch:55-69, 235-295 -/
theorem dcngettext_catalog (e : Endian) (w : ℕ) (hw : 32 ≤ w) (img : Bytes) (entries : List Entry)
    (L : Layout) (hcat : IsCatalog e img entries L) (msgid : Bytes) (hne : msgid ≠ [])
    (hzero : (0 : UInt8) ∉ msgid) (msgid_plural : Option Bytes) :
    catalogOpen e img = some (some img) ∧ ∃ turns, ∀ fuel, turns ≤ fuel →
      (∀ x ∈ entries, x.msgid = msgid → ∃ off,
        dcngettext e w fuel (some img) (some msgid) msgid_plural 1 = .returned (.data off) ∧
          x.trans ++ [0] <+: img.drop off) ∧
      ((∀ x ∈ entries, x.msgid ≠ msgid) →
        dcngettext e w fuel (some img) (some msgid) msgid_plural 1 = .returned .msgid) := by
  have hcall : ∀ fuel, dcngettext e w fuel (some img) (some msgid) msgid_plural 1 =
      lookupCatalog e w fuel img .msgid msgid 1 := by
    intro fuel
    simp [dcngettext, hne]
  refine ⟨catalogOpen_native e img entries L hcat, ?_⟩
  by_cases hex : ∃ x ∈ entries, x.msgid = msgid
  · obtain ⟨x, hmem, hmsg⟩ := hex
    obtain ⟨i, hx⟩ := List.mem_iff_getElem?.mp hmem
    obtain ⟨hhit, k, hval, hpath⟩ := hcat.stop_at_entry _ _ _ _ msgid i x hx hmsg
    obtain ⟨-, hoff⟩ := hcat.transDesc i x hx
    refine ⟨k + 1, fun fuel hfuel => ⟨?_, fun hnone => absurd hmsg (hnone x hmem)⟩⟩
    intro y hy hymsg
    -- the message belongs to one entry only
    obtain rfl : y = x := List.inj_on_of_nodup_map hcat.distinct hy hmem (hymsg.trans hmsg.symm)
    refine ⟨L.trans i, ?_, hcat.transString i y hx⟩
    rw [hcall, lookupCatalog_found e img L.otab L.ttab L.htab entries.length L.size _ msgid _
      (hcat.header) (hcat.view _ _ _ _ msgid hzero) w hw .msgid 1 k i (L.trans i) hval hhit hpath
      hoff.1 hoff.2 fuel (by omega)]
    rfl
  · push Not at hex
    obtain ⟨k, hempty, hpath⟩ := hcat.stop_at_empty _ _ _ _ msgid hex
    refine ⟨k + 1, fun fuel hfuel => ⟨fun x hx hmsg => absurd hmsg (hex x hx), fun _ => ?_⟩⟩
    rw [hcall, lookupCatalog_absent e img L.otab L.ttab L.htab entries.length L.size _ msgid _
      (hcat.header) (hcat.view _ _ _ _ msgid hzero) w hw .msgid 1 k hempty hpath fuel (by omega)]

/-! ## A small catalog -/

/-- The catalog with one message of one byte, translated `b`. -/
def sampleEntries (msg : UInt8) : List Entry := [⟨[msg], ascii ['b']⟩]

/-- Where its parts stand. -/
def sampleLayout : Layout := ⟨28, 36, 44, 3, fun _ => 56, fun _ => 58⟩

/-- Its image in little-endian byte order, with the given slots of the hash table. -/
def sampleImage (msg t0 t1 t2 : UInt8) : Bytes :=
  [0xde, 0x12, 0x04, 0x95, 0, 0, 0, 0, 1, 0, 0, 0, 28, 0, 0, 0, 36, 0, 0, 0, 3, 0, 0, 0, 44, 0, 0, 0,
    1, 0, 0, 0, 56, 0, 0, 0, 1, 0, 0, 0, 58, 0, 0, 0, t0, 0, 0, 0, t1, 0, 0, 0, t2, 0, 0, 0,
    msg, 0, 98, 0]

/-- INTERNAL: the only entry of the small catalog. -/
theorem sampleEntries_getElem (msg : UInt8) (i : ℕ) (x : Entry)
    (h : (sampleEntries msg)[i]? = some x) : i = 0 ∧ x = ⟨[msg], ascii ['b']⟩ := by
  cases i with
  | zero => exact ⟨rfl, by simpa [sampleEntries] using h.symm⟩
  | succ i => simp [sampleEntries] at h

/-- INTERNAL: the small catalog is a catalog when its slots are the ones that hashing fills. -/
theorem sampleImage_isCatalog (msg t0 t1 t2 : UInt8)
    (hempty : ∃ s, s < 3 ∧ hashTable 3 (sampleEntries msg) s = 0)
    (hslots : ∀ s, s < 3 →
      Holds .little (sampleImage msg t0 t1 t2) (44 + 4 * s) (hashTable 3 (sampleEntries msg) s)) :
    IsCatalog .little (sampleImage msg t0 t1 t2) (sampleEntries msg) sampleLayout := by
  have hlen : (sampleEntries msg).length = 1 := rfl
  refine ⟨⟨⟨by rw [hlen]; decide, by rw [hlen]; rfl⟩, ⟨by decide, rfl⟩, ⟨by decide, rfl⟩,
    ⟨by decide, rfl⟩, ⟨by decide, rfl⟩, Nat.prime_three, by decide, hempty, hslots, ?_, ?_, ?_, ?_,
    List.nodup_singleton _, Or.inl (by rw [hlen]; decide)⟩, rfl⟩
  · intro i x hx
    obtain ⟨rfl, rfl⟩ := sampleEntries_getElem msg i x hx
    rw [List.length_singleton]
    exact ⟨⟨by decide, rfl⟩, ⟨by decide, rfl⟩⟩
  · intro i x hx
    obtain ⟨rfl, rfl⟩ := sampleEntries_getElem msg i x hx
    have hone : (ascii ['b']).length = 1 := rfl
    rw [hone]
    exact ⟨⟨by decide, rfl⟩, ⟨by decide, rfl⟩⟩
  · intro i x hx
    obtain ⟨rfl, rfl⟩ := sampleEntries_getElem msg i x hx
    exact ⟨[98, 0], rfl⟩
  · intro i x hx
    obtain ⟨rfl, rfl⟩ := sampleEntries_getElem msg i x hx
    exact ⟨[], rfl⟩

/-- INTERNAL: the message `a` of a small catalog is found.
SOURCE: dietlibc-gettext.patch:235-295 -/
theorem dcngettext_catalog_sample :
    ∃ turns, ∀ fuel, turns ≤ fuel → ∃ off,
      dcngettext .little 64 fuel (some (sampleImage 97 0 1 0)) (some [97]) none 1 =
        .returned (.data off) ∧ ascii ['b', '\x00'] <+: (sampleImage 97 0 1 0).drop off := by
  obtain ⟨-, turns, h⟩ := dcngettext_catalog .little 64 (by decide) (sampleImage 97 0 1 0)
    (sampleEntries 97) sampleLayout
    (sampleImage_isCatalog 97 0 1 0 ⟨0, by decide, by decide⟩ (by decide)) [97] (by decide) (by decide)
    none
  exact ⟨turns, fun fuel hfuel => (h fuel hfuel).1 _ List.mem_cons_self (by decide)⟩

end TTLinux.Analysis.GettextLookup
