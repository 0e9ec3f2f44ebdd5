import TTLinux.Model.Locale

/-!
# Sequences of `setlocale`

The names of the categories follow the calls. The encoding does not follow the name of `LC_CTYPE`: it is set by a locale
for any category, and it is never taken back.
-/

set_option autoImplicit false

namespace TTLinux.Analysis.LocaleRuns

open TTLinux.Lib TTLinux.Model.Locale

variable {W : Type}

/-- The name that a call gives to a category. -/
def given (cats : Categories) (c : ℕ) (call : Call) : Option Bytes :=
  if call.category.toNat = c ∨ call.category.toNat = cats.LC_ALL then call.locale.map (chosen call.environment) else none

/-- **The name last set** for a category, directly or through `LC_ALL`. -/
def lastName (cats : Categories) (calls : List Call) (c : ℕ) : Bytes :=
  ((calls.filterMap (given cats c)).getLast?).getD C

/-- **The encoding is that of the name of `LC_CTYPE`.** -/
def EncodingFollows (cats : Categories) (st : State) : Prop := st.lcCtype = .CT_UTF8 ↔ utf8 (st.name cats.LC_CTYPE) = true

/-- The question for a category is answered with the name last set. -/
def NamesFollow (cats : Categories) (strdup : Bytes → W → Option Bytes × W) (calls : List Call) (st : State) (w : W) : Prop :=
  ∀ (c : BitVec 32) (env : Environment), c.toNat ≤ LC_IDENTIFICATION →
    (setlocale cats strdup ⟨c, none, env⟩ st w).1 = some (lastName cats calls c.toNat)

/-- **A call keeps the encoding in step**: one that gives `LC_CTYPE` a name that is not UTF-8 comes while the encoding is
not UTF-8, and one for another category that is UTF-8 comes while it is. -/
def InStep (cats : Categories) (st : State) (call : Call) : Prop :=
  ∀ locale, call.locale = some locale → call.category.toNat ≤ LC_IDENTIFICATION →
    if call.category.toNat = cats.LC_CTYPE ∨ call.category.toNat = cats.LC_ALL then
      utf8 (chosen call.environment locale) = true ∨ st.lcCtype = .CT_8BIT
    else utf8 (chosen call.environment locale) = false ∨ st.lcCtype = .CT_UTF8

/-! ## One call -/

section Copies

variable (cats : Categories) (strdup : Bytes → W → Option Bytes × W) (hstrdup : ∀ s w, (strdup s w).1 = some s)

include hstrdup in
/-- INTERNAL: a locale whose name is copied becomes the one of its category. -/
theorem _setlocale_copy (category : ℕ) (x : Bytes) (st : State) (w : W) :
    ∃ w', _setlocale strdup category x st w =
      (some x, { st with localeNames := Function.update st.localeNames category (some x) }, w') := by
  refine ⟨(strdup x w).2, ?_⟩
  unfold _setlocale
  rw [show strdup x w = (some x, (strdup x w).2) from Prod.ext (hstrdup x w) rfl]

include hstrdup in
/-- INTERNAL: the loop gives all of its categories the name.
SOURCE: dietlibc-gettext.patch:461-464 -/
theorem setAll_names (x : Bytes) (l : List ℕ) (st : State) (w : W) :
    ∃ names w', setAll strdup x l st w = (true, { st with localeNames := names }, w') ∧
      ∀ c, names c = if c ∈ l then some x else st.localeNames c := by
  induction l generalizing st w with
  | nil =>
    refine ⟨st.localeNames, w, rfl, ?_⟩
    intro c
    rw [if_neg List.not_mem_nil]
  | cons cat l ih =>
    obtain ⟨w₁, hcopy⟩ := _setlocale_copy strdup hstrdup cat x st w
    obtain ⟨names, w', hrest, hnames⟩ :=
      ih { st with localeNames := Function.update st.localeNames cat (some x) } w₁
    refine ⟨names, w', ?_, ?_⟩
    · rw [setAll, hcopy]
      exact hrest
    · intro c
      rw [hnames c]
      by_cases hc : c = cat
      · subst hc
        simp
      · simp [hc]

include hstrdup in
/-- INTERNAL: the names after a locale is set.
SOURCE: dietlibc-gettext.patch:460-466 -/
theorem setNames_names (category : ℕ) (x : Bytes) (st : State) (w : W) :
    ∃ names w', setNames cats strdup category x st w = (true, { st with localeNames := names }, w') ∧
      ∀ c, c ≤ LC_IDENTIFICATION →
        names c = if category = c ∨ category = cats.LC_ALL then some x else st.localeNames c := by
  unfold setNames
  by_cases hall : category = cats.LC_ALL
  · obtain ⟨names, w', hset, hnames⟩ := setAll_names strdup hstrdup x (List.range (LC_IDENTIFICATION + 1)) st w
    refine ⟨names, w', ?_, ?_⟩
    · rw [if_pos hall, hset]
    · intro c hc
      rw [hnames c, if_pos (List.mem_range.mpr (Nat.lt_succ_of_le hc)), if_pos (Or.inr hall)]
  · obtain ⟨w', hcopy⟩ := _setlocale_copy strdup hstrdup category x st w
    refine ⟨Function.update st.localeNames category (some x), w', ?_, ?_⟩
    · rw [if_neg hall, hcopy]
      rfl
    · intro c _
      by_cases hc : category = c
      · rw [if_pos (Or.inl hc), hc, Function.update_self]
      · rw [if_neg (not_or.mpr ⟨hc, hall⟩), Function.update_of_ne (Ne.symm hc)]

/-- A call that names a UTF-8 locale for a category. -/
def setsUtf8 (call : Call) : Bool :=
  decide (call.category.toNat ≤ LC_IDENTIFICATION) && (call.locale.map fun l => utf8 (chosen call.environment l)).getD false

include hstrdup in
/-- INTERNAL: **what a call does**: it gives names to categories, and may set the encoding.
SOURCE: dietlibc-gettext.patch:445-472 -/
theorem setlocale_step (call : Call) (st : State) (w : W) :
    (∀ c, c ≤ LC_IDENTIFICATION →
      (setlocale cats strdup call st w).2.1.localeNames c = (given cats c call).or (st.localeNames c)) ∧
    (setlocale cats strdup call st w).2.1.lcCtype = if setsUtf8 call then .CT_UTF8 else st.lcCtype := by
  obtain ⟨category, locale, env⟩ := call
  unfold setlocale setsUtf8 given
  dsimp only
  by_cases hrange : LC_IDENTIFICATION < category.toNat
  · rw [if_pos hrange]
    refine ⟨?_, ?_⟩
    · intro c hc
      have hall := cats.all_le
      rw [if_neg (by omega), Option.none_or]
    · rw [decide_eq_false (by omega), Bool.false_and, if_neg Bool.false_ne_true]
  · rw [if_neg hrange, decide_eq_true (by omega), Bool.true_and]
    cases locale with
    | none =>
      refine ⟨?_, rfl⟩
      intro c _
      rw [Option.map_none, ite_self, Option.none_or]
    | some locale =>
      obtain ⟨names, w', hset, hnames⟩ :=
        setNames_names cats strdup hstrdup category.toNat (chosen env locale) st w
      dsimp only
      rw [hset]
      refine ⟨?_, ?_⟩
      · intro c hc
        have hkeep : (if utf8 (chosen env locale) = true then
            { localeNames := names, lcCtype := Encoding.CT_UTF8 } else
            { localeNames := names, lcCtype := st.lcCtype } : State).localeNames = names := by
          split_ifs <;> rfl
        dsimp only
        rw [hkeep, hnames c hc]
        split_ifs <;> rfl
      · dsimp only [Option.map_some, Option.getD_some]
        split_ifs <;> rfl

include hstrdup in
/-- INTERNAL: from a state where the encoding follows, a call keeps it so exactly if it is in step. -/
theorem encodingFollows_step (call : Call) (st : State) (w : W) (h : EncodingFollows cats st) :
    EncodingFollows cats (setlocale cats strdup call st w).2.1 ↔ InStep cats st call := by
  obtain ⟨hnames, htype⟩ := setlocale_step cats strdup hstrdup call st w
  have hname := hnames cats.LC_CTYPE cats.ctype_le
  obtain ⟨category, locale, env⟩ := call
  unfold EncodingFollows State.name at *
  rw [hname, htype]
  unfold InStep setsUtf8 given
  dsimp only
  by_cases hrange : category.toNat ≤ LC_IDENTIFICATION
  · rw [decide_eq_true hrange, Bool.true_and]
    cases locale with
    | none => simpa using h
    | some locale =>
      by_cases hset : category.toNat = cats.LC_CTYPE ∨ category.toNat = cats.LC_ALL
      · -- the name of `LC_CTYPE` is the chosen locale
        simp only [if_pos hset]
        cases hutf : utf8 (chosen env locale) <;> cases htype : st.lcCtype <;> simp [hutf, hrange]
      · simp only [if_neg hset, Option.none_or, ← h]
        cases hutf : utf8 (chosen env locale) <;> cases htype : st.lcCtype <;> simp [hutf, hrange]
  · -- the category is out of range: the call does nothing
    have hctype := cats.ctype_le
    have hall := cats.all_le
    rw [decide_eq_false hrange, Bool.false_and, if_neg Bool.false_ne_true, if_neg (by omega), Option.none_or]
    exact iff_of_true h fun _ _ hle => absurd hle hrange

/-! ## Sequences of calls -/

/-- INTERNAL: one more call after a run. -/
theorem run_append (calls : List Call) (call : Call) (st : State) (w : W) :
    run cats strdup (calls ++ [call]) st w =
      (setlocale cats strdup call (run cats strdup calls st w).1 (run cats strdup calls st w).2).2 := by
  unfold run
  rw [List.foldl_append]
  rfl

include hstrdup in
/-- INTERNAL: **the names after a sequence of calls.**
SOURCE: dietlibc-gettext.patch:445-472 -/
theorem run_names (calls : List Call) (w : W) (c : ℕ) (hc : c ≤ LC_IDENTIFICATION) :
    (run cats strdup calls .initial w).1.localeNames c = (calls.filterMap (given cats c)).getLast? := by
  induction calls using List.reverseRecOn with
  | nil => rfl
  | append_singleton calls call ih =>
    rw [run_append, (setlocale_step cats strdup hstrdup call _ _).1 c hc, ih, List.filterMap_append,
      List.getLast?_append]
    cases hgiven : given cats c call with
    | none => rw [List.filterMap_cons_none hgiven, List.filterMap_nil, List.getLast?_nil]
    | some x => rw [List.filterMap_cons_some hgiven, List.filterMap_nil, List.getLast?_singleton]

include hstrdup in
/-- INTERNAL: the names follow the calls over a whole run. -/
theorem namesFollow_run (calls : List Call) (w : W) :
    NamesFollow cats strdup calls (run cats strdup calls .initial w).1 (run cats strdup calls .initial w).2 := by
  intro c env hc
  unfold setlocale
  rw [if_neg (by dsimp only; omega)]
  dsimp only
  rw [State.name, run_names cats strdup hstrdup calls w c.toNat hc, lastName]

include hstrdup in
/-- **The encoding and the names follow the calls, after each call of a sequence, exactly if every call is in step** with
the state that it finds. The names follow in any case.
SOURCE: dietlibc-gettext.patch:435-472 -/
theorem follows_iff_in_step (calls : List Call) (w : W) :
    (∀ n, n ≤ calls.length →
      EncodingFollows cats (run cats strdup (calls.take n) .initial w).1 ∧
      NamesFollow cats strdup (calls.take n) (run cats strdup (calls.take n) .initial w).1
        (run cats strdup (calls.take n) .initial w).2) ↔
    ∀ n call, calls[n]? = some call → InStep cats (run cats strdup (calls.take n) .initial w).1 call := by
  have hturn : ∀ n call, calls[n]? = some call → EncodingFollows cats (run cats strdup (calls.take n) .initial w).1 →
      (EncodingFollows cats (run cats strdup (calls.take (n + 1)) .initial w).1 ↔
        InStep cats (run cats strdup (calls.take n) .initial w).1 call) := by
    intro n call hcall hfollows
    rw [List.take_add_one, hcall, Option.toList_some, run_append]
    exact encodingFollows_step cats strdup hstrdup call _ _ hfollows
  constructor
  · intro h n call hcall
    obtain ⟨hn, -⟩ := List.getElem?_eq_some_iff.mp hcall
    exact (hturn n call hcall (h n (by omega)).1).mp (h (n + 1) (by omega)).1
  · intro h n hn
    refine ⟨?_, namesFollow_run cats strdup hstrdup (calls.take n) w⟩
    induction n with
    | zero =>
      have hC : utf8 C = false := by decide
      rw [List.take_zero]
      exact iff_of_false (by rintro ⟨⟩) (by simp [run, State.name, State.initial, hC])
    | succ n ih =>
      have hcall : calls[n]? = some (calls.get ⟨n, by omega⟩) := List.getElem?_eq_getElem (by omega)
      exact (hturn n _ hcall (ih (by omega))).mpr (h n _ hcall)

end Copies

/-- The numbers of `locale.h`. -/
def dietCategories : Categories := ⟨0, 6, by decide, by decide, by decide⟩

/-- The environment of a call in which nothing is set. -/
def bare : Environment := ⟨none, none⟩

/-- `setlocale(LC_ALL, "de_DE.UTF-8")`. -/
def everythingGerman : Call := ⟨6, some (ascii "de_DE.UTF-8".toList), bare⟩

/-- `setlocale(LC_CTYPE, "C")`. -/
def charactersPlain : Call := ⟨0, some C, bare⟩

/-- The only call gives `LC_CTYPE` a UTF-8 name. -/
theorem follows_iff_in_step_once :
    EncodingFollows dietCategories (run dietCategories (fun s w => (some s, w)) [everythingGerman] .initial ()).1 ∧
    NamesFollow dietCategories (fun s w => (some s, w)) [everythingGerman]
      (run dietCategories (fun s w => (some s, w)) [everythingGerman] .initial ()).1
      (run dietCategories (fun s w => (some s, w)) [everythingGerman] .initial ()).2 := by
  apply (follows_iff_in_step dietCategories (fun s w => (some s, w)) (fun _ _ => rfl) [everythingGerman] ()).mpr ?_ 1
    (Nat.le_refl 1)
  intro n call hcall
  obtain ⟨hn, hget⟩ := List.getElem?_eq_some_iff.mp hcall
  obtain rfl : n = 0 := by simpa using hn
  obtain rfl : everythingGerman = call := hget
  intro locale hlocale _
  cases hlocale
  rw [if_pos (Or.inr (by decide))]
  left
  decide

/-- **The encoding stays**: after the second of these calls the name of `LC_CTYPE` is `C`, and the encoding is UTF-8. -/
theorem encoding_not_taken_back :
    ¬ ∀ n, n ≤ [everythingGerman, charactersPlain].length →
      EncodingFollows dietCategories
        (run dietCategories (fun s w => (some s, w)) ([everythingGerman, charactersPlain].take n) .initial ()).1 := by
  intro h
  have hlast := h 2 (by decide)
  unfold EncodingFollows at hlast
  exact absurd (hlast.mp (by decide)) (by decide)

end TTLinux.Analysis.LocaleRuns
