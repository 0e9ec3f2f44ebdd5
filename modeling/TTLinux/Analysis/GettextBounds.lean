import TTLinux.Analysis.GettextLookup

/-!
# Lookups in an arbitrary file

`catalog_open` looks at the magic number only. A lookup ends inside of the image if the tables that the header points
to lie inside of it as far as the paths through the hash table lead, and if every path meets an empty slot; without
such conditions it may divide by zero. The paths are those of the code, in words of 32 bits, so that tables of one slot
are covered as well.
-/

set_option autoImplicit false

namespace TTLinux.Analysis.GettextBounds

open TTLinux.Lib TTLinux.Lib.DoubleHashing TTLinux.Model.Gettext
open TTLinux.Analysis.GettextLookup

/-! ## Images with their tables inside -/

/-- A string descriptor at an offset of the image lies inside of it, and its string ends inside of it. -/
def DescInside (e : Endian) (img : Bytes) (pos : ℕ) : Prop :=
  ∃ len off, Holds e img pos len ∧ Holds e img (pos + 4) off ∧ (0 : UInt8) ∈ img.drop off

/-- The index after `idx` on a path with the increment `inc`.
SOURCE: dietlibc-gettext.patch:279-282 -/
def step (size inc idx : BitVec 32) : BitVec 32 :=
  if size - inc ≤ idx then idx - (size - inc) else idx + inc

/-- The `k`-th index of the path of a hash value.
SOURCE: dietlibc-gettext.patch:262-263, 279-282 -/
def place (size val : BitVec 32) (k : ℕ) : BitVec 32 :=
  (step size (1#32 + val % (size - 2#32)))^[k] (val % size)

section

variable (e : Endian) (img : Bytes)

/-- The descriptors of an entry lie inside of the image: that of the message, and that of the translation if the signed
comparison lets the lookup read it.
SOURCE: dietlibc-gettext.patch:274, 285-286 -/
def EntryInside (otab ttab : ℕ) (n act : BitVec 32) : Prop :=
  DescInside e img (otab + 8 * act.toNat) ∧
    (act.toInt < n.toInt → ∃ pos : ℕ, (pos : ℤ) = ttab + 8 * act.toInt ∧ DescInside e img pos)

/-- A slot lies inside of the image, and so does the entry that it leads to. -/
def SlotInside (otab ttab htab : ℕ) (n idx : BitVec 32) : Prop :=
  ∃ v, load32 e img (htab + 4 * idx.toNat) = some v ∧ (v - 1#32 < n → EntryInside e img otab ttab n (v - 1#32))

/-- **The tables of an image lie inside of it**: the words of the header, with a number of slots by which the code can
divide, and every path up to an empty slot. -/
structure TablesInside (otab ttab htab n size : BitVec 32) : Prop where
  origTab : load32 e img origTabAt = some otab
  transTab : load32 e img transTabAt = some ttab
  hashTab : load32 e img hashTabAt = some htab
  nstrings : load32 e img nstringsAt = some n
  hashSize : load32 e img hashSizeAt = some size
  size_ne : size ≠ 0#32 ∧ size ≠ 2#32
  path : ∀ val, ∃ k, load32 e img (htab.toNat + 4 * (place size val k).toNat) = some 0#32 ∧
    ∀ j, j < k → SlotInside e img otab.toNat ttab.toNat htab.toNat n (place size val j)

end

/-! ## The lookup -/

/-- INTERNAL: `strcmp` with a string that ends inside of the image stays inside. -/
theorem strcmpEq_isSome (msgid data : Bytes) (hm : (0 : UInt8) ∉ msgid) (hend : (0 : UInt8) ∈ data) :
    (strcmpEq msgid data).isSome = true := by
  induction msgid generalizing data with
  | nil =>
    cases data with
    | nil => cases hend
    | cons b bs => rfl
  | cons c cs ih =>
    cases data with
    | nil => cases hend
    | cons b bs =>
      have hc : c ≠ 0 := fun h => hm (h ▸ List.mem_cons_self)
      rw [strcmpEq]
      split_ifs with heq
      · apply ih
        · exact fun h => hm (List.mem_cons_of_mem c h)
        · rcases List.mem_cons.mp hend with h | h
          · exact absurd (heq.trans h.symm) hc
          · exact h
      · rfl

/-- INTERNAL: `strchr(p, '\0')` with a string that ends inside of the image stays inside. -/
theorem strend_isSome (data : Bytes) (hend : (0 : UInt8) ∈ data) : (strend data).isSome = true := by
  induction data with
  | nil => cases hend
  | cons b bs ih =>
    rw [strend]
    split_ifs with hb
    · rfl
    · rw [Option.isSome_map]
      apply ih
      rcases List.mem_cons.mp hend with h | h
      · exact absurd h.symm hb
      · exact h

section

variable {e : Endian} {img : Bytes}

/-- INTERNAL: the test of an entry stays inside of the image.
SOURCE: dietlibc-gettext.patch:274 -/
theorem testEntry_isSome (msgid : Bytes) (hm : (0 : UInt8) ∉ msgid) (otab : ℕ) (i : BitVec 32)
    (h : DescInside e img (otab + 8 * i.toNat)) : (testEntry e img otab msgid i).isSome = true := by
  obtain ⟨len, off, hlen, hoff, hend⟩ := h
  unfold testEntry
  rw [hlen.2, hoff.2]
  simp only [Option.bind_eq_bind, Option.bind_some, toNat_ofNat_word off hoff.1]
  split_ifs
  · exact strcmpEq_isSome msgid _ hm hend
  · rfl

/-- INTERNAL: **the probe loop ends inside of the image** when its path meets an empty slot, at that slot or at an
entry before.
SOURCE: dietlibc-gettext.patch:265-283 -/
theorem probeLoop_inside (msgid : Bytes) (hm : (0 : UInt8) ∉ msgid) (otab ttab htab : ℕ) (n size inc : BitVec 32)
    (k : ℕ) (idx : BitVec 32) (hempty : load32 e img (htab + 4 * ((step size inc)^[k] idx).toNat) = some 0#32)
    (hpath : ∀ j, j < k → SlotInside e img otab ttab htab n ((step size inc)^[j] idx)) (fuel : ℕ) (hfuel : k < fuel) :
    probeLoop e img otab htab n size msgid inc fuel idx = .absent ∨
      ∃ act, probeLoop e img otab htab n size msgid inc fuel idx = .found act ∧ EntryInside e img otab ttab n act := by
  induction k generalizing idx fuel with
  | zero =>
    obtain ⟨fuel, rfl⟩ := Nat.exists_eq_succ_of_ne_zero (Nat.ne_of_gt hfuel)
    left
    rw [Function.iterate_zero_apply] at hempty
    rw [Nat.succ_eq_add_one, probeLoop, hempty]
    simp
  | succ k ih =>
    obtain ⟨fuel, rfl⟩ := Nat.exists_eq_succ_of_ne_zero (Nat.ne_of_gt (Nat.zero_lt_of_lt hfuel))
    obtain ⟨v, hv, hentry⟩ := hpath 0 (Nat.succ_pos k)
    rw [Function.iterate_zero_apply] at hv
    have hrest := ih (step size inc idx) (by rwa [← Function.iterate_succ_apply])
      (fun j hj => by
        rw [← Function.iterate_succ_apply]
        exact hpath (j + 1) (Nat.succ_lt_succ hj))
      fuel (Nat.lt_of_succ_lt_succ hfuel)
    rw [Nat.succ_eq_add_one, probeLoop, hv]
    dsimp only
    by_cases h0 : v = 0#32
    · left
      rw [if_pos h0]
    rw [if_neg h0]
    by_cases hlt : v - 1#32 < n
    · obtain ⟨b, hb⟩ := Option.isSome_iff_exists.mp (testEntry_isSome msgid hm otab _ (hentry hlt).1)
      rw [if_pos hlt, hb]
      cases b with
      | true => exact Or.inr ⟨_, rfl, hentry hlt⟩
      | false => exact hrest
    · rw [if_neg hlt]
      exact hrest

/-- INTERNAL: the string that a lookup returns for an entry is found inside of the image.
SOURCE: dietlibc-gettext.patch:287-291 -/
theorem translation_returns (data : Bytes) (off num : ℕ) (hend : (0 : UInt8) ∈ data.drop off) :
    ∃ text, translation data off num = .returned text := by
  unfold translation
  split_ifs
  · exact ⟨_, rfl⟩
  · obtain ⟨k, hk⟩ := Option.isSome_iff_exists.mp (strend_isSome _ hend)
    rw [hk]
    exact ⟨_, rfl⟩

variable {otab ttab htab n size : BitVec 32}

/-- INTERNAL: a lookup ends inside of the image.
SOURCE: dietlibc-gettext.patch:255-293 -/
theorem TablesInside.lookup (h : TablesInside e img otab ttab htab n size) (w : ℕ) (msgid : Bytes)
    (hm : (0 : UInt8) ∉ msgid) (text : Text) (num : ℕ) :
    ∃ turns, ∀ fuel, turns ≤ fuel → ∃ text', lookupCatalog e w fuel img text msgid num = .returned text' := by
  obtain ⟨k, hempty, hpath⟩ := h.path ((hashstring w msgid).setWidth 32)
  have hdiv : ¬(size = 0#32 ∨ size - 2#32 = 0#32) := by
    rintro (h0 | h2)
    · exact h.size_ne.1 h0
    · exact h.size_ne.2 (BitVec.sub_eq_iff_eq_add.mp h2)
  refine ⟨k + 1, fun fuel hfuel => ?_⟩
  have hloop := probeLoop_inside msgid hm otab.toNat ttab.toNat htab.toNat n size _ k _ hempty hpath fuel hfuel
  unfold lookupCatalog
  rw [h.origTab, h.transTab, h.hashTab, h.hashSize, h.nstrings]
  dsimp only
  rw [if_neg hdiv]
  rcases hloop with habsent | ⟨act, hfound, hentry⟩
  · rw [habsent]
    exact ⟨text, rfl⟩
  rw [hfound]
  dsimp only
  by_cases hread : act.toInt ≠ -1 ∧ act.toInt < n.toInt
  · obtain ⟨pos, hpos, len, off, -, hoff, hend⟩ := hentry.2 hread.2
    have haddr : ((ttab.toNat : ℤ) + 8 * act.toInt + 4).toNat = pos + 4 := by omega
    rw [if_pos hread, if_neg (show ¬(ttab.toNat : ℤ) + 8 * act.toInt + 4 < 0 by omega), haddr, hoff.2]
    dsimp only
    rw [toNat_ofNat_word off hoff.1]
    exact translation_returns img off num hend
  · rw [if_neg hread]
    exact ⟨text, rfl⟩

/-- **A lookup ends inside of the image**, without a division by zero, if the tables of the image lie inside of it.
SOURCE: dietlibc-gettext.patch:143-205, 235-295 -/
theorem lookup_inside (h : TablesInside e img otab ttab htab n size) (w : ℕ) (msgid : Bytes)
    (hm : (0 : UInt8) ∉ msgid) (msgid_plural : Option Bytes) (num : ℕ) :
    ∃ turns, ∀ fuel, turns ≤ fuel → ∃ text,
      dcngettext e w fuel (some img) (some msgid) msgid_plural num = .returned text := by
  obtain ⟨turns, hlookup⟩ := h.lookup w msgid hm (if num = 1 then Text.msgid else Text.plural) num
  refine ⟨turns, fun fuel hfuel => ?_⟩
  unfold dcngettext
  dsimp only
  cases (if num = 1 then some msgid else msgid_plural) with
  | none => exact ⟨_, rfl⟩
  | some t =>
    dsimp only
    split_ifs
    · exact ⟨_, rfl⟩
    · exact ⟨_, rfl⟩
    · simpa [*] using hlookup fuel hfuel
    · simpa [*] using hlookup fuel hfuel

end

/-- A file with the magic number and nothing else. -/
def bareFile : Bytes := [0xde, 0x12, 0x04, 0x95] ++ List.replicate 24 0

/-- **The file is accepted, and every lookup divides by its number of slots.** -/
theorem bare_file_divides_by_zero :
    catalogOpen .little bareFile = some (some bareFile) ∧
      ∀ fuel, dcngettext .little 64 fuel (some bareFile) (some (ascii ['a'])) none 1 = .fault := by
  refine ⟨by decide, fun fuel => rfl⟩

/-! ## Which images have their tables inside -/

/-- INTERNAL: the paths of a table of more than two slots are those of double hashing.
SOURCE: dietlibc-gettext.patch:262-263, 279-282 -/
theorem place_eq_slot (size : ℕ) (h2 : 2 < size) (hlt : size < 2 ^ 32) (val : BitVec 32) (k : ℕ) :
    place (BitVec.ofNat 32 size) val k = BitVec.ofNat 32 (slot size val.toNat k) := by
  obtain ⟨hfirst, hinc, -, -⟩ := ofNat_stride size val h2 hlt
  induction k with
  | zero => rw [place, Function.iterate_zero_apply, hfirst, slot_zero]
  | succ k ih =>
    rw [place] at ih ⊢
    rw [Function.iterate_succ_apply', ih, hinc, step, slot_succ size h2]
    exact ofNat_next size _ _ hlt (slot_lt size h2 _ _) (stride_lt size h2 _).2

section

variable {e : Endian} {img : Bytes} {otab ttab htab n size : ℕ}

/-- **A table of more than two slots** lies inside of the image if all of its slots do, with the descriptors of the
entries that they lead to, and if every path of double hashing meets an empty slot. -/
theorem TablesInside.of_slots (tab : Table) (header : Header e img otab ttab htab n size)
    (slots : ∀ s, s < size → Holds e img (htab + 4 * s) (tab s)) (path : ∀ h, ∃ k, tab (slot size h k) = 0)
    (entries : ∀ s, s < size → tab s ≠ 0 → tab s - 1 < n →
      DescInside e img (otab + 8 * (tab s - 1)) ∧ DescInside e img (ttab + 8 * (tab s - 1))) :
    TablesInside e img (BitVec.ofNat 32 otab) (BitVec.ofNat 32 ttab) (BitVec.ofNat 32 htab) (BitVec.ofNat 32 n)
      (BitVec.ofNat 32 size) := by
  obtain ⟨h2, hlt, hsize⟩ := header.size
  have hn := header.n.1
  have hslot : ∀ val k, (place (BitVec.ofNat 32 size) val k).toNat = slot size val.toNat k := by
    intro val k
    have hk := slot_lt size h2 val.toNat k
    rw [place_eq_slot size h2 hlt, toNat_ofNat_word _ (by omega)]
  obtain ⟨-, -, hne0, hne2⟩ := ofNat_stride size 0#32 h2 hlt
  refine ⟨header.otab.2, header.ttab.2, header.htab.2, header.n.2, hsize,
    ⟨hne0, fun heq => hne2 (by rw [heq]; rfl)⟩, fun val => ?_⟩
  obtain ⟨k, hk⟩ := path val.toNat
  rw [toNat_ofNat_word _ header.otab.1, toNat_ofNat_word _ header.ttab.1, toNat_ofNat_word _ header.htab.1]
  refine ⟨k, ?_, fun j _ => ?_⟩
  · rw [hslot, (slots _ (slot_lt size h2 val.toNat k)).2, hk]
  · have hs := slot_lt size h2 val.toNat j
    refine ⟨_, by rw [hslot]; exact (slots _ hs).2, fun hact => ?_⟩
    by_cases h0 : tab (slot size val.toNat j) = 0
    · -- no index is the one before zero
      rw [h0, BitVec.lt_def, toNat_ofNat_word n (by omega)] at hact
      have htop : (BitVec.ofNat 32 0 - 1#32).toNat = 2 ^ 32 - 1 := rfl
      omega
    rw [ofNat_pred _ h0] at hact ⊢
    have hv := (slots _ hs).1
    rw [ofNat_lt_iff _ _ (by omega) (by omega)] at hact
    obtain ⟨horig, htrans⟩ := entries _ hs h0 hact
    refine ⟨by rwa [toNat_ofNat_word _ (by omega)], fun _ => ⟨_, ?_, htrans⟩⟩
    rw [BitVec.toInt_eq_toNat_of_lt (by rw [toNat_ofNat_word _ (by omega)]; omega), toNat_ofNat_word _ (by omega)]
    push_cast
    rfl

/-- **A table of one empty slot** lies inside of the image if that slot does. -/
theorem TablesInside.of_one_slot {otab ttab htab n : BitVec 32} (horig : load32 e img origTabAt = some otab)
    (htrans : load32 e img transTabAt = some ttab) (hhash : load32 e img hashTabAt = some htab)
    (hn : load32 e img nstringsAt = some n) (hsize : load32 e img hashSizeAt = some 1#32)
    (hempty : load32 e img htab.toNat = some 0#32) : TablesInside e img otab ttab htab n 1#32 := by
  refine ⟨horig, htrans, hhash, hn, hsize, by decide, fun val => ⟨0, ?_, fun j hj => absurd hj (Nat.not_lt_zero j)⟩⟩
  have hfirst : place 1#32 val 0 = 0#32 := BitVec.umod_one
  rw [hfirst]
  exact hempty

end

/-- INTERNAL: a descriptor whose string stands in the image with its end. -/
theorem descInside_of_string {e : Endian} {img str : Bytes} {pos off len : ℕ} (hlen : Holds e img pos len)
    (hoff : Holds e img (pos + 4) off) (hstr : str ++ [0] <+: img.drop off) : DescInside e img pos :=
  ⟨len, off, hlen, hoff, hstr.subset (List.mem_append_right str List.mem_cons_self)⟩

/-- **The tables of a catalog lie inside of its image.** -/
theorem tablesInside_of_isCatalog (e : Endian) (img : Bytes) (entries : List Entry) (L : Layout)
    (h : IsCatalog e img entries L) :
    TablesInside e img (BitVec.ofNat 32 L.otab) (BitVec.ofNat 32 L.ttab) (BitVec.ofNat 32 L.htab)
      (BitVec.ofNat 32 entries.length) (BitVec.ofNat 32 L.size) := by
  refine TablesInside.of_slots (hashTable L.size entries) (h.header e img entries L) h.slots ?_ ?_
  · intro hash
    obtain ⟨s, hs, h0⟩ := h.empty
    obtain ⟨k, -, hk⟩ := exists_slot_eq L.size h.prime h.size_gt hash s hs
    exact ⟨k, by rw [hk, h0]⟩
  · intro s _ _ hlt
    have hx := List.getElem?_eq_getElem hlt
    obtain ⟨hlen, hoff⟩ := h.origDesc _ _ hx
    obtain ⟨hlen', hoff'⟩ := h.transDesc _ _ hx
    exact ⟨descInside_of_string hlen hoff (h.origString _ _ hx), descInside_of_string hlen' hoff' (h.transString _ _ hx)⟩

/-- **In the small catalog every lookup ends**, also that of another message. -/
theorem lookup_inside_sample :
    ∃ turns, ∀ fuel, turns ≤ fuel → ∃ text,
      dcngettext .little 64 fuel (some (sampleImage 97 0 1 0)) (some (ascii ['z'])) (some (ascii ['y'])) 2 =
        .returned text :=
  lookup_inside (tablesInside_of_isCatalog _ _ _ _ (sampleImage_isCatalog 97 0 1 0 ⟨0, by decide, by decide⟩ (by decide)))
    64 (ascii ['z']) (by decide) (some (ascii ['y'])) 2

end TTLinux.Analysis.GettextBounds
