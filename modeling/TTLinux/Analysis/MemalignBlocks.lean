import TTLinux.Model.Memalign

/-!
# Aligned blocks and their headers

`posix_memalign` asks for a block that is larger by the alignment and moves the header to just in front of the aligned
address. `Returned` says what a pointer that it returns has to be, for every residue of the address that `malloc` gives
and every alignment that is admitted; `posixMemalign_correct_iff` that only an alignment of zero goes wrong.
-/

set_option autoImplicit false

namespace TTLinux.Analysis.MemalignBlocks

open TTLinux.Lib.Memory
open TTLinux.Model.Memalign

variable (W : Words)

/-- **What `malloc` is relied on for**: a block of at least the size asked for, in the address space, with a header in
front of it that has no start, and a size unless nothing was asked for. -/
structure MallocContract (malloc : ℕ → Mem → Option ℕ × Mem) : Prop where
  header : ∀ size m block, (malloc size m).1 = some block → headerSize W ≤ block
  inSpace : ∀ size m block, (malloc size m).1 = some block → block < space W ∧ block + size ≤ space W
  start : ∀ size m block, (malloc size m).1 = some block →
    load W (malloc size m).2 (BLOCK_START W block + startOffset) = 0
  size : ∀ size m block, 0 < size → (malloc size m).1 = some block →
    load W (malloc size m).2 (BLOCK_START W block + sizeOffset W) ≠ 0

/-- **What a pointer has to be** that is returned for a block of `malloc`, with the memory `m₁` that `malloc` has left
and the memory `m₂` that is returned: aligned and in the block, with its header in front of it and nothing else
changed; and whatever the user writes to its bytes, `free` gives back the block of `malloc` with the size in its header. -/
structure Returned (maxSmall alignment size block ptr : ℕ) (m₁ m₂ : Mem) : Prop where
  aligned : alignment ∣ ptr
  above : block ≤ ptr
  below : ptr + size ≤ block + (size + alignment)
  header : BLOCK_START W ptr + headerSize W = ptr
  others : ∀ i, ¬ (BLOCK_START W ptr ≤ i ∧ i < ptr) → m₂ i = m₁ i
  released : ∀ m', (∀ i, ¬ (ptr ≤ i ∧ i < ptr + size) → m' i = m₂ i) →
    free W maxSmall m' ptr = some (release maxSmall block (load W m₁ (BLOCK_START W block + sizeOffset W)))

/-- **What a call has to do.** -/
def Correct (maxSmall : ℕ) (malloc : ℕ → Mem → Option ℕ × Mem) (m : Mem) (alignment size : ℕ) : Prop :=
  (posixMemalign W malloc m alignment size).1 ≠ .divisionByZero ∧
  ∀ ptr, (posixMemalign W malloc m alignment size).1 = .stored ptr →
    0 < alignment ∧ W.w ∣ alignment ∧ size + alignment < space W ∧
    ∃ block, (malloc (size + alignment) m).1 = some block ∧
      Returned W maxSmall alignment size block ptr (malloc (size + alignment) m).2
        (posixMemalign W malloc m alignment size).2

/-! ## Headers -/

/-- INTERNAL: the header has a size. -/
theorem headerSize_pos : 0 < headerSize W := Nat.mul_pos (by decide) W.pos

/-- INTERNAL: the address of the block fits into the header. -/
theorem start_fits : startOffset + W.w ≤ headerSize W := by
  unfold startOffset headerSize
  omega

/-- INTERNAL: and so does its size. -/
theorem size_fits : sizeOffset W + W.w ≤ headerSize W := by
  unfold sizeOffset headerSize
  omega

/-- INTERNAL: the header of a block that has room in front of it. -/
theorem BLOCK_START_eq (b : ℕ) (h : headerSize W ≤ b) (hlt : b < space W) : BLOCK_START W b = b - headerSize W := by
  have hpos := headerSize_pos W
  unfold BLOCK_START
  have hsplit : b + space W - headerSize W = b - headerSize W + space W := by omega
  rw [hsplit, Nat.add_mod_right, Nat.mod_eq_of_lt (by omega)]

/-- INTERNAL: from the pointer that is returned back to the header. -/
theorem BLOCK_RET_BLOCK_START (b : ℕ) (h : headerSize W ≤ b) (hlt : b < space W) :
    BLOCK_RET W (BLOCK_START W b) = b := by
  rw [BLOCK_START_eq W b h hlt]
  unfold BLOCK_RET
  rw [Nat.sub_add_cancel h, Nat.mod_eq_of_lt hlt]

/-- INTERNAL: **`free` goes by two fields of the header.** -/
theorem free_of_header (maxSmall : ℕ) (m : Mem) (ptr block size : ℕ) (hptr : ptr ≠ 0) (hne : size ≠ 0)
    (hsize : load W m (BLOCK_START W ptr + sizeOffset W) = size)
    (hstart : (if load W m (BLOCK_START W ptr + startOffset) ≠ 0
      then load W m (BLOCK_START W ptr + startOffset) else ptr) = block) :
    free W maxSmall m ptr = some (release maxSmall block size) := by
  unfold free
  rw [if_neg hptr]
  dsimp only
  rw [hsize, if_neg hne, hstart]

/-- INTERNAL: the address behind a block that is aligned. -/
theorem aligned_bounds (alignment block : ℕ) (halign : 0 < alignment) (hrest : block % alignment ≠ 0) :
    alignment ∣ block - block % alignment + alignment ∧ block < block - block % alignment + alignment ∧
      block - block % alignment + alignment < block + alignment := by
  have hlt := Nat.mod_lt block halign
  have hle := Nat.mod_le block alignment
  exact ⟨Nat.dvd_add (Nat.dvd_sub_mod block) (Nat.dvd_refl alignment), by omega, by omega⟩

/-! ## The two kinds of blocks -/

section blocks

variable (maxSmall : ℕ) (malloc : ℕ → Mem → Option ℕ × Mem) (hmalloc : MallocContract W malloc)
include hmalloc

/-- INTERNAL: a block that is aligned as it is. -/
theorem returned_as_is (m : Mem) (alignment size block : ℕ) (halign : 0 < alignment)
    (hblock : (malloc (size + alignment) m).1 = some block) (haligned : block % alignment = 0) :
    Returned W maxSmall alignment size block block (malloc (size + alignment) m).2
      (malloc (size + alignment) m).2 := by
  have hheader := hmalloc.header _ m block hblock
  have hlt := (hmalloc.inSpace _ m block hblock).1
  have hpos := headerSize_pos W
  have hptr : block ≠ 0 := by omega
  have hat := BLOCK_START_eq W block hheader hlt
  constructor
  · exact Nat.dvd_of_mod_eq_zero haligned
  · exact le_rfl
  · omega
  · rw [hat]
    exact Nat.sub_add_cancel hheader
  · exact fun _ _ => rfl
  · intro m' hm'
    -- the header ends where the bytes of the user begin
    have hload : ∀ o, o + W.w ≤ headerSize W → load W m' (BLOCK_START W block + o) =
        load W (malloc (size + alignment) m).2 (BLOCK_START W block + o) := by
      intro o ho
      apply load_congr
      intro i hlo hhi
      apply hm'
      omega
    apply free_of_header W maxSmall m' block block _ hptr (hmalloc.size _ m block (by omega) hblock)
      (hload _ (size_fits W))
    rw [hload _ (start_fits W), hmalloc.start _ m block hblock, if_neg (not_not_intro rfl)]

/-- INTERNAL: **a block whose header is moved** to the aligned address. The new header keeps the size of the old one
and leads back to the block. -/
theorem returned_moved (m : Mem) (alignment size block : ℕ) (halign : 0 < alignment)
    (hblock : (malloc (size + alignment) m).1 = some block) (hrest : block % alignment ≠ 0) (ptr : ℕ)
    (hptr : ptr = block - block % alignment + alignment) :
    ptr < space W ∧ headerSize W ≤ ptr ∧
    Returned W maxSmall alignment size block ptr (malloc (size + alignment) m).2
      (storeWord W (move (malloc (size + alignment) m).2 (BLOCK_START W ptr) (BLOCK_START W block) (headerSize W))
        (BLOCK_START W ptr + startOffset) block) := by
  have hheader := hmalloc.header _ m block hblock
  obtain ⟨hlt, hend⟩ := hmalloc.inSpace _ m block hblock
  obtain ⟨hdvd, habove, hbelow⟩ := aligned_bounds alignment block halign hrest
  rw [← hptr] at hdvd habove hbelow
  have hpos := headerSize_pos W
  have hptrlt : ptr < space W := by omega
  have hptrheader : headerSize W ≤ ptr := by omega
  have hat := BLOCK_START_eq W ptr hptrheader hptrlt
  have hstart := start_fits W
  have hsize := size_fits W
  generalize hm₁ : (malloc (size + alignment) m).2 = m₁
  have hm₁size := hmalloc.size _ m block (by omega) hblock
  rw [hm₁] at hm₁size
  refine ⟨hptrlt, hptrheader, hdvd, habove.le, by omega, by omega, ?_, ?_⟩
  · intro i hi
    rw [storeWord_outside, move_outside]
    · omega
    · omega
  · intro m' hm'
    have hload : ∀ o, o + W.w ≤ headerSize W → load W m' (BLOCK_START W ptr + o) =
        load W (storeWord W (move m₁ (BLOCK_START W ptr) (BLOCK_START W block) (headerSize W))
          (BLOCK_START W ptr + startOffset) block) (BLOCK_START W ptr + o) := by
      intro o ho
      apply load_congr
      intro i hlo hhi
      apply hm'
      omega
    apply free_of_header W maxSmall m' ptr block _ (by omega) hm₁size
    · calc load W m' (BLOCK_START W ptr + sizeOffset W)
        _ = load W (move m₁ (BLOCK_START W ptr) (BLOCK_START W block) (headerSize W))
              (BLOCK_START W ptr + sizeOffset W) := by
            rw [hload _ hsize]
            apply load_of_outside
            unfold startOffset sizeOffset
            have := W.pos
            omega
        _ = load W m₁ (BLOCK_START W block + sizeOffset W) := load_move W m₁ _ _ _ _ hsize
    · have hback : load W m' (BLOCK_START W ptr + startOffset) = block := by
        rw [hload _ hstart]
        exact load_store W _ _ _ hlt
      have hne : block ≠ 0 := by omega
      rw [hback, if_pos hne]

end blocks

/-- INTERNAL: the sum wraps exactly if it is found below the size. -/
theorem wraps_iff (alignment size : ℕ) (halign : alignment < space W) (hsize : size < space W) :
    (size + alignment) % space W < size ↔ space W ≤ size + alignment := by
  constructor
  · intro h
    by_contra hlt
    rw [Nat.mod_eq_of_lt (Nat.lt_of_not_le hlt)] at h
    omega
  · intro h
    rw [Nat.mod_eq_sub_mod h, Nat.mod_eq_of_lt (by omega)]
    omega

/-- **`posix_memalign` is correct, except for an alignment of zero** for which `malloc` finds a block: it passes the
check of the alignment and is then divided by.
SOURCE: dietlibc-memalign.patch:40-63 -/
theorem posixMemalign_correct_iff (maxSmall : ℕ) (malloc : ℕ → Mem → Option ℕ × Mem)
    (hmalloc : MallocContract W malloc) (m : Mem) (alignment size : ℕ) (halign : alignment < space W)
    (hsize : size < space W) :
    Correct W maxSmall malloc m alignment size ↔ (alignment = 0 → (malloc size m).1 = none) := by
  have hwraps := wraps_iff W alignment size halign hsize
  unfold Correct posixMemalign
  dsimp only
  by_cases hcheck : alignment % W.w ≠ 0 ∨ (size + alignment) % space W < size
  · rw [if_pos hcheck]
    apply iff_of_true
    · refine ⟨Outcome.noConfusion, ?_⟩
      intro ptr hptr
      cases hptr
    · intro hzero
      subst hzero
      rcases hcheck with h | h
      · exact absurd (Nat.zero_mod _) h
      · rw [Nat.add_zero, Nat.mod_eq_of_lt hsize] at h
        exact absurd h (Nat.lt_irrefl _)
  · rw [if_neg hcheck]
    obtain ⟨hmultiple, hnowrap⟩ := not_or.mp hcheck
    have hdvd : W.w ∣ alignment := Nat.dvd_of_mod_eq_zero (not_not.mp hmultiple)
    have hsum : size + alignment < space W := Nat.lt_of_not_le fun h => hnowrap (hwraps.mpr h)
    rw [Nat.mod_eq_of_lt hsum]
    cases hresult : malloc (size + alignment) m with
    | mk result m₁ =>
    cases result with
    | none =>
      apply iff_of_true
      · refine ⟨Outcome.noConfusion, ?_⟩
        intro ptr hptr
        cases hptr
      · intro hzero
        subst hzero
        rw [Nat.add_zero] at hresult
        rw [hresult]
    | some block =>
      have hblock : (malloc (size + alignment) m).1 = some block := congrArg Prod.fst hresult
      have hm₁ : (malloc (size + alignment) m).2 = m₁ := congrArg Prod.snd hresult
      dsimp only
      by_cases hzero : alignment = 0
      · rw [if_pos hzero]
        apply iff_of_false
        · intro h
          exact h.1 rfl
        · intro h
          have hnone := h hzero
          rw [hzero, Nat.add_zero] at hblock
          rw [hblock] at hnone
          cases hnone
      · rw [if_neg hzero]
        have hpos := Nat.pos_of_ne_zero hzero
        refine iff_of_true ?_ fun h => absurd h hzero
        by_cases hrest : block % alignment ≠ 0
        · obtain ⟨hlt, hheader, hreturned⟩ :=
            returned_moved W maxSmall malloc hmalloc m alignment size block hpos hblock hrest _ rfl
          rw [if_pos hrest]
          dsimp only
          rw [Nat.mod_eq_of_lt hlt, BLOCK_RET_BLOCK_START W _ hheader hlt, ← hm₁]
          refine ⟨Outcome.noConfusion, ?_⟩
          intro ptr hptr
          cases hptr
          exact ⟨hpos, hdvd, hsum, block, rfl, hreturned⟩
        · rw [if_neg hrest, ← hm₁]
          refine ⟨Outcome.noConfusion, ?_⟩
          intro ptr hptr
          cases hptr
          exact ⟨hpos, hdvd, hsum, block, rfl,
            returned_as_is W maxSmall malloc hmalloc m alignment size block hpos hblock (not_not.mp hrest)⟩

/-! ## A `malloc` of one block -/

/-- Words of four bytes, the low byte first. -/
def words32 : Words := ⟨4, by decide, false⟩

/-- A `malloc` that gives the block at 4097 to everyone who asks for at most 4096 bytes, with a header that says 8192. -/
def oneBlock (size : ℕ) (m : Mem) : Option ℕ × Mem :=
  if size ≤ 4096 then (some 4097, storeWord words32 (storeWord words32 m 4081 0) 4093 8192) else (none, m)

/-- INTERNAL: what `oneBlock` returns. -/
theorem oneBlock_some (size : ℕ) (m : Mem) (block : ℕ) (h : (oneBlock size m).1 = some block) :
    size ≤ 4096 ∧ block = 4097 ∧ (oneBlock size m).2 = storeWord words32 (storeWord words32 m 4081 0) 4093 8192 := by
  unfold oneBlock at h ⊢
  split_ifs at h ⊢ with hsize
  exact ⟨hsize, (Option.some.inj h).symm, rfl⟩

/-- INTERNAL: an allocator of one block keeps the contract. -/
theorem oneBlock_contract : MallocContract words32 oneBlock := by
  constructor
  · intro size m block h
    obtain ⟨-, rfl, -⟩ := oneBlock_some size m block h
    decide
  · intro size m block h
    obtain ⟨hsize, rfl, -⟩ := oneBlock_some size m block h
    have hspace : space words32 = 4294967296 := rfl
    omega
  · intro size m block h
    obtain ⟨-, rfl, hm⟩ := oneBlock_some size m block h
    rw [hm]
    have hother : load words32 (storeWord words32 (storeWord words32 m 4081 0) 4093 8192) 4081 =
        load words32 (storeWord words32 m 4081 0) 4081 := load_of_outside words32 _ 4093 4081 8192 (Or.inl (by decide))
    exact hother.trans (load_store words32 m 4081 0 (by decide))
  · intro size m block _ h
    obtain ⟨-, rfl, hm⟩ := oneBlock_some size m block h
    rw [hm]
    have hsize : load words32 (storeWord words32 (storeWord words32 m 4081 0) 4093 8192) 4093 = 8192 :=
      load_store words32 _ 4093 8192 (by decide)
    exact fun h0 => absurd (hsize.symm.trans h0) (by decide)

/-- **An alignment of zero is divided by**: a call for 8 bytes with the alignment 0. -/
theorem zero_alignment_divides :
    MallocContract words32 oneBlock ∧
      (posixMemalign words32 oneBlock (fun _ => 0) 0 8).1 = .divisionByZero ∧
      ¬ Correct words32 2048 oneBlock (fun _ => 0) 0 8 :=
  ⟨oneBlock_contract, rfl, fun h => h.1 rfl⟩

/-- `posixMemalign_correct_iff` for 8 bytes with the alignment 64. -/
theorem correct_for_64 : Correct words32 2048 oneBlock (fun _ => 0) 64 8 :=
  (posixMemalign_correct_iff words32 2048 oneBlock oneBlock_contract (fun _ => 0) 64 8 (by decide) (by decide)).mpr
    fun h => absurd h (by decide)

end TTLinux.Analysis.MemalignBlocks
