import TTLinux.Model.GettextFile

/-!
# Shorter names of a locale

While there is no file for a locale, `catalog_open` cuts its name at `@`, then at `.`, then at `_`, and writes the path
again into the same block. Every path it tries is that of a prefix of the locale, and ends inside of the block.
-/

set_option autoImplicit false

namespace TTLinux.Analysis.GettextFallback

open TTLinux.Lib
open TTLinux.Model.GettextFile

variable {W : Type}

/-- **The path of a catalog.** -/
def messagePath (dir l dom : Bytes) : Bytes := dir ++ [47] ++ l ++ LC_MESSAGES ++ dom ++ suffix

/-- **A name is cut to a shorter one**: at its first `@`; at its first `.` if it has no `@`; at its first `_` if it has
neither. -/
def CutTo (l l' : Bytes) : Prop :=
  ∃ c rest, l = l' ++ c :: rest ∧ c ∉ l' ∧
    (c = 64 ∨ c = 46 ∧ (64 : UInt8) ∉ l ∨ c = 95 ∧ (64 : UInt8) ∉ l ∧ (46 : UInt8) ∉ l)

/-- A name that cannot be cut. -/
def Uncut (l : Bytes) : Prop := (64 : UInt8) ∉ l ∧ (46 : UInt8) ∉ l ∧ (95 : UInt8) ∉ l

/-- A block of the size that was asked for holds the path with its terminator. -/
def HoldsPath (dir dom : Bytes) (size : ℕ) (l block : Bytes) : Prop :=
  block.length = size ∧ messagePath dir l dom ++ [0] <+: block

/-! ## Writing the path -/

/-- INTERNAL: what is written behind the front of a buffer with room for it. -/
theorem writeAt_front (buf front bytes : Bytes) (hfront : front <+: buf) (hroom : front.length + bytes.length ≤ buf.length) :
    ∃ buf', writeAt buf front.length bytes = some buf' ∧ buf'.length = buf.length ∧ front ++ bytes <+: buf' := by
  refine ⟨store buf front.length bytes, if_pos hroom, store_length buf _ bytes hroom, ?_⟩
  have htake : buf.take front.length = front := (List.prefix_iff_eq_take.mp hfront).symm
  have hall := store_take_all buf front.length bytes (by omega)
  rw [htake] at hall
  rw [← hall]
  exact List.take_prefix _ _

/-- INTERNAL: `strncpy` behind what is in the block already, with room for the string and its padding. -/
theorem strncpy_front (buf front src : Bytes) (n : ℕ) (hn : src.length ≤ n) (hfront : front <+: buf)
    (hroom : front.length + n ≤ buf.length) :
    ∃ buf', strncpy buf front.length src n = some buf' ∧ buf'.length = buf.length ∧
      front ++ (src ++ List.replicate (n - src.length) 0) <+: buf' := by
  unfold strncpy
  rw [List.take_of_length_le hn]
  apply writeAt_front buf front _ hfront
  rw [List.length_append, List.length_replicate]
  omega

/-- INTERNAL: **the path of a name of the locale** is written behind the directory, whatever the block held.
SOURCE: dietlibc-gettext.patch:122-125 -/
theorem writeLocale_holds (dir dom l rest path : Bytes) (hl : (0 : UInt8) ∉ l) (hfront : dir ++ [47] <+: path)
    (hroom : dir.length + dom.length + l.length + 18 ≤ path.length) :
    ∃ path', writeLocale (dir.length + 1) dom (l ++ 0 :: rest) l.length path = some path' ∧
      HoldsPath dir dom path.length l path' := by
  have hcstr : cstr (l ++ 0 :: rest) = l := by rw [cstr_append, cstr_eq_self l hl]
  have hdir : (dir ++ [47]).length = dir.length + 1 := by rw [List.length_append, List.length_singleton]
  have hmid : LC_MESSAGES.length = 13 := rfl
  have hend : suffix.length = 3 := rfl
  obtain ⟨p₁, hp₁, hlen₁, hfront₁⟩ := strncpy_front path (dir ++ [47]) l l.length (Nat.le_refl _) hfront (by omega)
  rw [Nat.sub_self, List.replicate_zero, List.append_nil] at hfront₁
  have hat₁ : (dir ++ [47] ++ l).length = dir.length + 1 + l.length := by rw [List.length_append, hdir]
  obtain ⟨p₂, hp₂, hlen₂, hfront₂⟩ := strncpy_front p₁ (dir ++ [47] ++ l) LC_MESSAGES 13 (Nat.le_of_eq hmid) hfront₁
    (by omega)
  rw [hmid, Nat.sub_self, List.replicate_zero, List.append_nil] at hfront₂
  have hat₂ : (dir ++ [47] ++ l ++ LC_MESSAGES).length = dir.length + 1 + l.length + 13 := by
    rw [List.length_append, hat₁, hmid]
  obtain ⟨p₃, hp₃, hlen₃, hfront₃⟩ := strncpy_front p₂ (dir ++ [47] ++ l ++ LC_MESSAGES) dom dom.length (Nat.le_refl _)
    hfront₂ (by omega)
  rw [Nat.sub_self, List.replicate_zero, List.append_nil] at hfront₃
  have hat₃ : (dir ++ [47] ++ l ++ LC_MESSAGES ++ dom).length = dir.length + 1 + l.length + dom.length + 13 := by
    rw [List.length_append, hat₂]
    omega
  obtain ⟨p₄, hp₄, hlen₄, hfront₄⟩ := strncpy_front p₃ (dir ++ [47] ++ l ++ LC_MESSAGES ++ dom) suffix 4 (by omega)
    hfront₃ (by omega)
  rw [hend] at hfront₄
  rw [hdir] at hp₁
  rw [hat₁] at hp₂
  rw [hat₂] at hp₃
  rw [hat₃] at hp₄
  refine ⟨p₄, ?_, ⟨by omega, ?_⟩⟩
  · unfold writeLocale
    simp only [hcstr, hp₁, hp₂, hp₃, hp₄, Option.bind_eq_bind, Option.bind_some]
  · rw [← List.append_assoc] at hfront₄
    exact hfront₄

/-! ## Cutting the locale -/

/-- INTERNAL: the place that `strchr` finds is the first one. -/
theorem strchr_some (l rest : Bytes) (c : UInt8) (i : ℕ) (hl : (0 : UInt8) ∉ l) (h : strchr (l ++ 0 :: rest) c = some i) :
    ∃ l' behind, l = l' ++ c :: behind ∧ c ∉ l' ∧ l'.length = i := by
  unfold strchr at h
  rw [cstr_append, cstr_eq_self l hl] at h
  obtain ⟨hi, hc, hbefore⟩ := List.findIdx?_eq_some_iff_getElem.mp h
  rw [decide_eq_true_eq] at hc
  refine ⟨l.take i, l.drop (i + 1), ?_, ?_, ?_⟩
  · rw [← hc, List.cons_getElem_drop_succ, List.take_append_drop]
  · intro hmem
    obtain ⟨j, hj, hget⟩ := List.mem_take_iff_getElem.mp hmem
    have hfalse := hbefore j (by omega)
    rw [hget] at hfalse
    simp at hfalse
  · rw [List.length_take]
    omega

/-- INTERNAL: what `strchr` does not find is not in the string. -/
theorem strchr_none (l rest : Bytes) (c : UInt8) (hl : (0 : UInt8) ∉ l) (h : strchr (l ++ 0 :: rest) c = none) : c ∉ l := by
  unfold strchr at h
  rw [cstr_append, cstr_eq_self l hl, List.findIdx?_eq_none_iff] at h
  intro hmem
  have hfalse := h c hmem
  simp at hfalse

/-- INTERNAL: **the place where the locale is cut.**
SOURCE: dietlibc-gettext.patch:132-136 -/
theorem cutPoint_some (l rest : Bytes) (i : ℕ) (hl : (0 : UInt8) ∉ l) (h : cutPoint (l ++ 0 :: rest) = some i) :
    ∃ l' rest', CutTo l l' ∧ l'.length = i ∧ (0 : UInt8) ∉ l' ∧ store (l ++ 0 :: rest) i [0] = l' ++ 0 :: rest' := by
  have hcut : ∃ l', CutTo l l' ∧ l'.length = i := by
    unfold cutPoint at h
    rcases hat : strchr (l ++ 0 :: rest) 64 with _ | j
    · have hno := strchr_none l rest 64 hl hat
      rcases hdot : strchr (l ++ 0 :: rest) 46 with _ | j
      · have hno' := strchr_none l rest 46 hl hdot
        rw [hat, hdot, Option.none_or, Option.none_or] at h
        obtain ⟨l', behind, heq, hmem, hlen⟩ := strchr_some l rest 95 i hl h
        exact ⟨l', ⟨95, behind, heq, hmem, Or.inr (Or.inr ⟨rfl, hno, hno'⟩)⟩, hlen⟩
      · rw [hat, hdot, Option.none_or, Option.some_or] at h
        cases h
        obtain ⟨l', behind, heq, hmem, hlen⟩ := strchr_some l rest 46 i hl hdot
        exact ⟨l', ⟨46, behind, heq, hmem, Or.inr (Or.inl ⟨rfl, hno⟩)⟩, hlen⟩
    · rw [hat, Option.some_or] at h
      cases h
      obtain ⟨l', behind, heq, hmem, hlen⟩ := strchr_some l rest 64 i hl hat
      exact ⟨l', ⟨64, behind, heq, hmem, Or.inl rfl⟩, hlen⟩
  obtain ⟨l', hto, hlen⟩ := hcut
  have hcopy := hto
  obtain ⟨c, behind, heq, -, -⟩ := hcopy
  refine ⟨l', behind ++ 0 :: rest, hto, hlen, fun hmem => hl (heq ▸ List.mem_append_left _ hmem), ?_⟩
  subst hlen
  rw [heq]
  unfold store
  simp

/-- INTERNAL: a name without a place to cut is not cut. -/
theorem cutPoint_none (l rest : Bytes) (hl : (0 : UInt8) ∉ l) (h : cutPoint (l ++ 0 :: rest) = none) : Uncut l := by
  unfold cutPoint at h
  rw [Option.or_eq_none_iff, Option.or_eq_none_iff] at h
  exact ⟨strchr_none l rest 64 hl h.1, strchr_none l rest 46 hl h.2.1, strchr_none l rest 95 hl h.2.2⟩

/-- INTERNAL: cutting makes a name shorter. -/
theorem CutTo.length_lt {l l' : Bytes} (h : CutTo l l') : l'.length < l.length := by
  obtain ⟨c, rest, rfl, -, -⟩ := h
  simp

/-! ## The search -/

/-- INTERNAL: one turn of the loop while there is no file: the path of the name is tried, and the name is cut or the
loop ends.
SOURCE: dietlibc-gettext.patch:121-141 -/
theorem openLoop_turn (open_ : Bytes → W → Except ℕ ℕ × W) (dir dom l rest path : Bytes) (w : W)
    (hopen : ∀ p w, (open_ p w).1 = .error ENOENT) (hl : (0 : UInt8) ∉ l) (hfront : dir ++ [47] <+: path)
    (hroom : dir.length + dom.length + l.length + 18 ≤ path.length) :
    ∃ path' w', HoldsPath dir dom path.length l path' ∧
      (Uncut l ∧ (∀ fuel, openLoop open_ (dir.length + 1) dom (fuel + 1) (l ++ 0 :: rest) l.length path w =
        .give [path'] (.missing, w')) ∨
       ∃ l' rest', CutTo l l' ∧ (0 : UInt8) ∉ l' ∧
        ∀ fuel, openLoop open_ (dir.length + 1) dom (fuel + 1) (l ++ 0 :: rest) l.length path w =
          .after [path'] (openLoop open_ (dir.length + 1) dom fuel (l' ++ 0 :: rest') l'.length path' w')) := by
  obtain ⟨path', hwrite, hholds⟩ := writeLocale_holds dir dom l rest path hl hfront hroom
  have htry : open_ (cstr path') w = (.error ENOENT, (open_ (cstr path') w).2) :=
    Prod.ext (hopen (cstr path') w) rfl
  refine ⟨path', (open_ (cstr path') w).2, hholds, ?_⟩
  rcases hcut : cutPoint (l ++ 0 :: rest) with _ | i
  · left
    refine ⟨cutPoint_none l rest hl hcut, ?_⟩
    intro fuel
    rw [openLoop, hwrite]
    dsimp only
    rw [htry]
    simp only [ne_eq, not_true_eq_false, if_false, hcut]
  · right
    obtain ⟨l', rest', hto, hlen, hl', hstore⟩ := cutPoint_some l rest i hl hcut
    refine ⟨l', rest', hto, hl', ?_⟩
    intro fuel
    rw [openLoop, hwrite]
    dsimp only
    rw [htry]
    simp only [ne_eq, not_true_eq_false, if_false, hcut, hstore, hlen]

/-- INTERNAL: **the whole loop**, by induction on the length of the name: the block keeps the directory in front, and a
shorter name needs less room.
SOURCE: dietlibc-gettext.patch:121-141 -/
theorem openLoop_search (open_ : Bytes → W → Except ℕ ℕ × W) (dir dom : Bytes) (size : ℕ)
    (hopen : ∀ p w, (open_ p w).1 = .error ENOENT) (n : ℕ) :
    ∀ (l rest path : Bytes) (w : W), l.length = n → (0 : UInt8) ∉ l → dir ++ [47] <+: path → path.length = size →
      dir.length + dom.length + l.length + 18 ≤ size →
      ∃ tried last blocks w',
        (∀ fuel, l.length < fuel → openLoop open_ (dir.length + 1) dom fuel (l ++ 0 :: rest) l.length path w =
          .give blocks (.missing, w')) ∧
        tried.head? = some l ∧ tried.getLast? = some last ∧ Uncut last ∧ tried.IsChain CutTo ∧
        List.Forall₂ (HoldsPath dir dom size) tried blocks := by
  induction n using Nat.strong_induction_on with
  | h n ih =>
    intro l rest path w hn hl hfront hsize hroom
    obtain ⟨path', w', hholds, ⟨huncut, hturn⟩ | ⟨l', rest', hto, hl', hturn⟩⟩ :=
      openLoop_turn open_ dir dom l rest path w hopen hl hfront (by omega)
    · refine ⟨[l], l, [path'], w', ?_, rfl, rfl, huncut, List.IsChain.singleton l, ?_⟩
      · intro fuel hfuel
        obtain ⟨m, rfl⟩ := Nat.exists_eq_succ_of_ne_zero (Nat.ne_of_gt (Nat.zero_lt_of_lt hfuel))
        exact hturn m
      · exact List.Forall₂.cons (hsize ▸ hholds) List.Forall₂.nil
    · have hlt := hto.length_lt
      have hfront' : dir ++ [47] <+: path' := by
        apply List.IsPrefix.trans _ hholds.2
        unfold messagePath
        simp only [List.append_assoc]
        exact List.prefix_append_right_inj dir |>.mpr (List.prefix_append _ _)
      obtain ⟨tried, last, blocks, w'', hrun, hhead, hlast, huncut, hchain, hall⟩ :=
        ih l'.length (by omega) l' rest' path' w' rfl hl' hfront' (hholds.1.trans hsize) (by omega)
      refine ⟨l :: tried, last, path' :: blocks, w'', ?_, rfl, ?_, huncut, ?_, ?_⟩
      · intro fuel hfuel
        obtain ⟨m, rfl⟩ := Nat.exists_eq_succ_of_ne_zero (Nat.ne_of_gt (Nat.zero_lt_of_lt hfuel))
        rw [hturn m, hrun m (by omega)]
        rfl
      · rw [List.getLast?_cons, hlast]
        rfl
      · cases tried with
        | nil => cases hhead
        | cons first more =>
          cases hhead
          exact List.IsChain.cons_cons hto hchain
      · exact List.Forall₂.cons (hsize ▸ hholds) hall

/-- **While there is no file the search ends**: the names tried are the locale and then shorter prefixes, each cut from
the one before at the first `@`, `.` or `_`, down to one that cannot be cut; for each of them `open` gets the block,
which holds exactly its path with the terminator.
SOURCE: dietlibc-gettext.patch:99-145 -/
theorem fallback_search (open_ : Bytes → W → Except ℕ ℕ × W) (stack dir loc dom : Bytes) (w : W)
    (hloc : (0 : UInt8) ∉ loc) (htotal : total dir loc dom ≤ PATH_MAX)
    (hopen : ∀ p w, (open_ p w).1 = .error ENOENT) :
    ∃ tried last blocks w',
      (∀ fuel, loc.length < fuel → findCatalog open_ stack fuel dir loc dom w = .give blocks (.missing, w')) ∧
      tried.head? = some loc ∧ tried.getLast? = some last ∧ Uncut last ∧ tried.IsChain CutTo ∧
      List.Forall₂ (HoldsPath dir dom (total dir loc dom)) tried blocks := by
  have hsize : total dir loc dom = dir.length + dom.length + loc.length + 19 := rfl
  have hblock : ((stack ++ List.replicate (total dir loc dom - stack.length) 0).take (total dir loc dom)).length =
      total dir loc dom := by
    rw [List.length_take, List.length_append, List.length_replicate]
    omega
  obtain ⟨p₁, hp₁, hlen₁, hfront₁⟩ := strncpy_front _ [] dir dir.length (Nat.le_refl _) (List.nil_prefix)
    (by rw [hblock, List.length_nil]; omega)
  rw [Nat.sub_self, List.replicate_zero, List.append_nil, List.nil_append] at hfront₁
  obtain ⟨p₂, hp₂, hlen₂, hfront₂⟩ := writeAt_front p₁ dir [47] hfront₁
    (by rw [hlen₁, hblock, List.length_singleton]; omega)
  obtain ⟨tried, last, blocks, w', hrun, hrest⟩ := openLoop_search open_ dir dom (total dir loc dom) hopen loc.length
    loc [] p₂ w rfl hloc hfront₂ (by rw [hlen₂, hlen₁, hblock]) (by omega)
  refine ⟨tried, last, blocks, w', ?_, hrest⟩
  intro fuel hfuel
  unfold findCatalog
  rw [if_neg (by omega)]
  rw [List.length_nil] at hp₁
  simp only [hp₁, Option.bind_some, hp₂]
  exact hrun fuel hfuel

/-- The locale `de_DE.UTF-8@euro` is tried under four names. -/
theorem fallback_search_euro :
    ∃ tried last blocks w',
      (∀ fuel, 16 < fuel → findCatalog (fun _ w => (.error ENOENT, w)) [] fuel (ascii ['/', 'l'])
        (ascii "de_DE.UTF-8@euro".toList) (ascii ['d']) () = .give blocks (.missing, w')) ∧
      tried.head? = some (ascii "de_DE.UTF-8@euro".toList) ∧ tried.getLast? = some last ∧ Uncut last ∧
      tried.IsChain CutTo ∧ List.Forall₂ (HoldsPath (ascii ['/', 'l']) (ascii ['d']) 38) tried blocks :=
  fallback_search (fun _ w => (.error ENOENT, w)) [] (ascii ['/', 'l']) (ascii "de_DE.UTF-8@euro".toList) (ascii ['d'])
    () (by decide) (by decide) (fun _ _ => rfl)

end TTLinux.Analysis.GettextFallback
