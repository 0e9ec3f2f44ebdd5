import Mathlib.Data.List.Perm.Basic
import Mathlib.Data.List.Nodup
import TTLinux.Model.Getopt

/-!
# Which option a long argument selects

The loop over the option table against its purpose: the entry whose name is the text, or else
the only entry whose name continues it. The first part follows the three states of `match`
through a table that holds no exact name; the second part puts the exact name over it.
-/

set_option autoImplicit false

namespace TTLinux.Analysis.GetoptSelect

open TTLinux.Lib TTLinux.Model.Getopt

/-! ## What the loop compares -/

/-- INTERNAL: `strncmp` compares the first bytes. -/
theorem strncmpEq_iff (n : ℕ) (a b : Bytes) : strncmpEq n a b ↔ a.take n = b.take n := by
  induction n generalizing a b with
  | zero => simp [strncmpEq]
  | succ n ih =>
    cases a with
    | nil => cases b <;> simp [strncmpEq]
    | cons x a =>
      cases b with
      | nil => simp [strncmpEq]
      | cons y b =>
        by_cases hxy : x = y
        · simpa [strncmpEq, hxy] using ih a b
        · simp [strncmpEq, hxy]

/-- INTERNAL: the text of an argument is its beginning. -/
theorem text_isPrefix (arg : Bytes) : text arg <+: arg := List.takeWhile_prefix _

/-- INTERNAL: the comparison of the loop says that the name starts with the text. -/
theorem strncmpEq_text (arg : Bytes) (o : LongOption) :
    strncmpEq (text arg).length o.name arg ↔ text arg <+: o.name := by
  rw [strncmpEq_iff, ← List.prefix_iff_eq_take.mp (text_isPrefix arg), List.prefix_iff_eq_take]
  exact eq_comm

/-- INTERNAL: a name that starts with the text and has its length is the text. -/
theorem name_eq_text (arg : Bytes) (o : LongOption) (hpre : text arg <+: o.name) :
    o.name.length = (text arg).length ↔ o.name = text arg :=
  ⟨fun hlen => (hpre.eq_of_length hlen.symm).symm, fun h => by rw [h]⟩

/-- INTERNAL: one round of the loop. -/
theorem scan_round (arg : Bytes) (tlen i : ℕ) (o : LongOption) (longopts : List LongOption) (m : Match) :
    scan arg tlen i (o :: longopts) m =
      if strncmpEq tlen o.name arg then
        if o.name.length = tlen then .entry i o
        else scan arg tlen (i + 1) longopts (if m = .null then .entry i o else .ambiguous)
      else scan arg tlen (i + 1) longopts m := by
  cases m <;> simp [scan]

/-! ## A table without the exact name -/

section NoExactName

variable (arg : Bytes) (i : ℕ) (longopts : List LongOption)

/-- INTERNAL: one round of the loop on an entry that is not an exact match. -/
theorem scan_cons (o : LongOption) (m : Match) (hne : o.name ≠ text arg) :
    scan arg (text arg).length i (o :: longopts) m =
      scan arg (text arg).length (i + 1) longopts
        (if text arg <+: o.name then (if m = .null then .entry i o else .ambiguous) else m) := by
  by_cases hpre : text arg <+: o.name
  · have hlen : ¬ o.name.length = (text arg).length := fun h => hne ((name_eq_text arg o hpre).mp h)
    rw [scan_round, if_pos ((strncmpEq_text arg o).mpr hpre), if_neg hlen, if_pos hpre]
  · rw [scan_round, if_neg (fun h => hpre ((strncmpEq_text arg o).mp h)), if_neg hpre]

variable (hno : ∀ p ∈ longopts, p.name ≠ text arg)

include hno in
/-- INTERNAL: an ambiguity stays. -/
theorem scan_ambiguous : scan arg (text arg).length i longopts .ambiguous = .ambiguous := by
  induction longopts generalizing i with
  | nil => rfl
  | cons o longopts ih =>
    have hrest : ∀ p ∈ longopts, p.name ≠ text arg := fun p hp => hno p (List.mem_cons_of_mem o hp)
    rw [scan_cons arg i longopts o .ambiguous (hno o List.mem_cons_self)]
    simpa using ih (i + 1) hrest

include hno in
/-- INTERNAL: a first match stays exactly if no further name starts with the text. -/
theorem scan_entry (j : ℕ) (q : LongOption) :
    scan arg (text arg).length i longopts (.entry j q) =
      if ∃ p ∈ longopts, text arg <+: p.name then .ambiguous else .entry j q := by
  induction longopts generalizing i with
  | nil => simp [scan]
  | cons o longopts ih =>
    have hrest : ∀ p ∈ longopts, p.name ≠ text arg := fun p hp => hno p (List.mem_cons_of_mem o hp)
    rw [scan_cons arg i longopts o (.entry j q) (hno o List.mem_cons_self)]
    by_cases hpre : text arg <+: o.name
    · simpa [hpre] using scan_ambiguous arg (i + 1) longopts hrest
    · simpa [hpre] using ih (i + 1) hrest

include hno in
/-- INTERNAL: the loop ends at an entry exactly if it is the only one that the text starts. -/
theorem scan_null (j : ℕ) (q : LongOption) :
    scan arg (text arg).length i longopts .null = .entry j q ↔
      ∃ k, j = i + k ∧ longopts[k]? = some q ∧ text arg <+: q.name ∧
        ∀ k' p, longopts[k']? = some p → text arg <+: p.name → k' = k := by
  induction longopts generalizing i with
  | nil => simp [scan]
  | cons o longopts ih =>
    have hrest : ∀ p ∈ longopts, p.name ≠ text arg := fun p hp => hno p (List.mem_cons_of_mem o hp)
    rw [scan_cons arg i longopts o .null (hno o List.mem_cons_self)]
    by_cases hpre : text arg <+: o.name
    · -- the head is the first match: it is kept if nothing behind it matches
      rw [if_pos hpre, if_pos rfl, scan_entry arg (i + 1) longopts hrest]
      constructor
      · intro h
        split_ifs at h with hex
        obtain ⟨rfl, rfl⟩ : i = j ∧ o = q := by simpa using h
        refine ⟨0, rfl, rfl, hpre, fun k' p hp hpp => ?_⟩
        cases k' with
        | zero => rfl
        | succ k' =>
          apply absurd ⟨p, _, hpp⟩ hex
          exact List.mem_of_getElem? (by simpa using hp)
      · rintro ⟨k, rfl, hk, -, huniq⟩
        obtain rfl : 0 = k := huniq 0 o rfl hpre
        obtain rfl : o = q := by simpa using hk
        rw [if_neg]
        · rfl
        rintro ⟨p, hp, hpp⟩
        obtain ⟨k', hk'⟩ := List.mem_iff_getElem?.mp hp
        exact absurd (huniq (k' + 1) p (by simpa using hk') hpp) (by omega)
    · -- the head does not count: the indices shift by one
      rw [if_neg hpre, ih (i + 1) hrest]
      constructor
      · rintro ⟨k, rfl, hk, hq, huniq⟩
        refine ⟨k + 1, by omega, by simpa using hk, hq, fun k' p hp hpp => ?_⟩
        cases k' with
        | zero =>
          obtain rfl : o = p := by simpa using hp
          exact absurd hpp hpre
        | succ k' => rw [huniq k' p (by simpa using hp) hpp]
      · rintro ⟨k, rfl, hk, hq, huniq⟩
        cases k with
        | zero =>
          obtain rfl : o = q := by simpa using hk
          exact absurd hq hpre
        | succ k =>
          refine ⟨k, by omega, by simpa using hk, hq, fun k' p hp hpp => ?_⟩
          have := huniq (k' + 1) p (by simpa using hp) hpp
          omega

end NoExactName

/-! ## The exact name -/

/-- INTERNAL: **an exact name wins**, whatever the loop has met before it. -/
theorem scan_exact (arg : Bytes) (i : ℕ) (longopts : List LongOption) (m : Match) (j : ℕ)
    (q : LongOption) (hdistinct : (longopts.map LongOption.name).Nodup)
    (hex : ∃ p ∈ longopts, p.name = text arg) :
    scan arg (text arg).length i longopts m = .entry j q ↔
      ∃ k, j = i + k ∧ longopts[k]? = some q ∧ q.name = text arg := by
  induction longopts generalizing i m with
  | nil => simp at hex
  | cons o longopts ih =>
    obtain ⟨hfresh, hrest⟩ := List.nodup_cons.mp hdistinct
    by_cases ho : o.name = text arg
    · have hpre : text arg <+: o.name := ho ▸ List.prefix_rfl
      rw [scan_round, if_pos ((strncmpEq_text arg o).mpr hpre), if_pos (by rw [ho])]
      constructor
      · intro h
        obtain ⟨rfl, rfl⟩ : i = j ∧ o = q := by simpa using h
        exact ⟨0, rfl, rfl, ho⟩
      · rintro ⟨k, rfl, hk, hq⟩
        cases k with
        | zero =>
          obtain rfl : o = q := by simpa using hk
          rfl
        | succ k =>
          have hmem : q ∈ longopts := List.mem_of_getElem? (by simpa using hk)
          exact absurd (List.mem_map.mpr ⟨q, hmem, hq.trans ho.symm⟩) hfresh
    · have hex' : ∃ p ∈ longopts, p.name = text arg := by
        obtain ⟨p, hp, hname⟩ := hex
        rcases List.mem_cons.mp hp with rfl | hp
        · exact absurd hname ho
        · exact ⟨p, hp, hname⟩
      rw [scan_cons arg i longopts o m ho, ih (i + 1) _ hrest hex']
      constructor
      · rintro ⟨k, rfl, hk, hq⟩
        exact ⟨k + 1, by omega, by simpa using hk, hq⟩
      · rintro ⟨k, rfl, hk, hq⟩
        cases k with
        | zero =>
          obtain rfl : o = q := by simpa using hk
          exact absurd hq ho
        | succ k => exact ⟨k, by omega, by simpa using hk, hq⟩

/-! ## The selected option -/

/-- The option that a text stands for: the one with that name, or else the only one of whose
name the text is a proper prefix. -/
def Chosen (longopts : List LongOption) (t : Bytes) (o : LongOption) : Prop :=
  o ∈ longopts ∧
    (o.name = t ∨
      (∀ p ∈ longopts, p.name ≠ t) ∧ (t <+: o.name ∧ t ≠ o.name) ∧
        ∀ p ∈ longopts, t <+: p.name ∧ t ≠ p.name → p = o)

/-- INTERNAL: which option is chosen does not depend on the order of the table. -/
theorem chosen_perm (longopts longopts' : List LongOption) (hperm : longopts'.Perm longopts) (t : Bytes)
    (o : LongOption) : Chosen longopts' t o ↔ Chosen longopts t o := by
  simp only [Chosen, hperm.mem_iff]

/-- INTERNAL: **what the loop selects**, with its index in the table. -/
theorem selected_iff (longopts : List LongOption) (hdistinct : (longopts.map LongOption.name).Nodup)
    (arg : Bytes) (i : ℕ) (o : LongOption) :
    selected longopts arg = some (i, o) ↔ longopts[i]? = some o ∧ Chosen longopts (text arg) o := by
  have hscan : selected longopts arg = some (i, o) ↔
      scan arg (text arg).length 0 longopts .null = .entry i o := by
    rw [selected]
    cases scan arg (text arg).length 0 longopts .null <;> simp
  rw [hscan]
  by_cases hex : ∃ p ∈ longopts, p.name = text arg
  · rw [scan_exact arg 0 longopts .null i o hdistinct hex]
    constructor
    · rintro ⟨k, rfl, hk, hname⟩
      rw [Nat.zero_add]
      exact ⟨hk, List.mem_of_getElem? hk, Or.inl hname⟩
    · rintro ⟨hi, -, hname | ⟨hno, -, -⟩⟩
      · exact ⟨i, (Nat.zero_add i).symm, hi, hname⟩
      · obtain ⟨p, hp, hname⟩ := hex
        exact absurd hname (hno p hp)
  · have hno : ∀ p ∈ longopts, p.name ≠ text arg := fun p hp h => hex ⟨p, hp, h⟩
    rw [scan_null arg 0 longopts hno i o]
    constructor
    · rintro ⟨k, rfl, hk, hpre, huniq⟩
      rw [Nat.zero_add]
      have hmem := List.mem_of_getElem? hk
      refine ⟨hk, hmem, Or.inr ⟨hno, ⟨hpre, fun h => hno o hmem h.symm⟩, fun p hp hpp => ?_⟩⟩
      obtain ⟨k', hk'⟩ := List.mem_iff_getElem?.mp hp
      obtain rfl := huniq k' p hk' hpp.1
      exact Option.some.inj (hk'.symm.trans hk)
    · rintro ⟨hi, hmem, hname | ⟨-, hpre, huniq⟩⟩
      · exact absurd hname (hno o hmem)
      refine ⟨i, (Nat.zero_add i).symm, hi, hpre.1, fun k' p hp hpp => ?_⟩
      have hmemp := List.mem_of_getElem? hp
      obtain rfl := huniq p hmemp ⟨hpp, fun h => hno p hmemp h.symm⟩
      have hnodup : longopts.Nodup := List.Nodup.of_map LongOption.name hdistinct
      have hlt : k' < longopts.length := (List.getElem?_eq_some_iff.mp hp).1
      exact (List.getElem?_inj hlt hnodup).mp (hp.trans hi.symm)

/-! ## The two functions -/

/-- INTERNAL: the index is stored if there is an address for it. -/
theorem accept_longindex (c : Call) (arg : Bytes) (i : ℕ) (o : LongOption) (g : Globals) :
    (accept c arg i o g).2.longindex = if c.longindex then some i else g.longindex := by
  unfold accept finish
  dsimp only
  split_ifs <;> cases behind arg <;> cases o.flag <;> simp

/-- The argument that `getopt_long` looks up: what stands behind the two dashes. -/
def argument (c : Call) (g : Globals) : Bytes := ((c.argv g.optind).getD []).drop 2

/-- A call selects an option: given an address for it, it stores the option's index. -/
def Selects (getopt : Call → Globals → Outcome × Globals) (c : Call) (g : Globals) (o : LongOption) : Prop :=
  ∃ i, (getopt { c with longindex := true } { g with longindex := none }).2.longindex = some i ∧
    c.longopts[i]? = some o

/-- Two calls do the same, the stored index aside. -/
def SameButIndex (r r' : Outcome × Globals) : Prop :=
  r.1 = r'.1 ∧ { r.2 with longindex := none } = { r'.2 with longindex := none }

/-- INTERNAL: neither does what is done with it, apart from its index. -/
theorem accept_sameButIndex (c : Call) (longopts' : List LongOption) (arg : Bytes) (i j : ℕ)
    (o : LongOption) (g : Globals) :
    SameButIndex (accept { c with longopts := longopts' } arg i o g) (accept c arg j o g) := by
  unfold SameButIndex accept finish Call.quiet
  dsimp only
  split_ifs <;> cases behind arg <;> cases o.flag <;> simp

section Lookup

variable (c : Call) (hdistinct : (c.longopts.map LongOption.name).Nodup)
variable (reject : Globals → Outcome) (arg : Bytes)

include hdistinct in
/-- INTERNAL: the lookup selects what the text stands for. -/
theorem lookup_selects (g : Globals) (o : LongOption) :
    Selects (fun c => lookup c arg reject) c g o ↔ Chosen c.longopts (text arg) o := by
  constructor
  · rintro ⟨i, hindex, hi⟩
    simp only [lookup] at hindex
    cases hsel : selected c.longopts arg with
    | none => simp [hsel] at hindex
    | some e =>
      obtain ⟨j, q⟩ := e
      obtain rfl : j = i := by simpa [hsel, accept_longindex] using hindex
      obtain ⟨hq, hchosen⟩ := (selected_iff c.longopts hdistinct arg j q).mp hsel
      obtain rfl : q = o := Option.some.inj (hq.symm.trans hi)
      exact hchosen
  · intro hchosen
    obtain ⟨i, hi⟩ := List.mem_iff_getElem?.mp hchosen.1
    have hsel := (selected_iff c.longopts hdistinct arg i o).mpr ⟨hi, hchosen⟩
    exact ⟨i, by simp [lookup, hsel, accept_longindex], hi⟩

include hdistinct in
/-- INTERNAL: the order of the table does not matter to what the lookup does. -/
theorem lookup_perm (reject' : Globals → Outcome) (hreject : reject' = reject) (longopts' : List LongOption)
    (hperm : longopts'.Perm c.longopts) (g : Globals) :
    SameButIndex (lookup { c with longopts := longopts' } arg reject' g) (lookup c arg reject g) := by
  subst hreject
  have hdistinct' : (longopts'.map LongOption.name).Nodup := (hperm.map LongOption.name).nodup_iff.mpr hdistinct
  cases hsel : selected c.longopts arg with
  | none =>
    -- nothing is chosen from the one table, so nothing from the other
    cases hsel' : selected longopts' arg with
    | none => simp [lookup, hsel, hsel', SameButIndex]
    | some e =>
      obtain ⟨-, hchosen'⟩ := (selected_iff longopts' hdistinct' arg e.1 e.2).mp hsel'
      have hchosen := (chosen_perm c.longopts longopts' hperm (text arg) e.2).mp hchosen'
      obtain ⟨i, hi⟩ := List.mem_iff_getElem?.mp hchosen.1
      have := (selected_iff c.longopts hdistinct arg i e.2).mpr ⟨hi, hchosen⟩
      rw [hsel] at this
      contradiction
  | some e =>
    obtain ⟨-, hchosen⟩ := (selected_iff c.longopts hdistinct arg e.1 e.2).mp hsel
    have hchosen' := (chosen_perm c.longopts longopts' hperm (text arg) e.2).mpr hchosen
    obtain ⟨i, hi⟩ := List.mem_iff_getElem?.mp hchosen'.1
    have hsel' := (selected_iff longopts' hdistinct' arg i e.2).mpr ⟨hi, hchosen'⟩
    simp only [lookup, hsel, hsel']
    exact accept_sameButIndex c longopts' arg i e.1 e.2 g

end Lookup

/-- **Which option is selected.** Both functions select the option whose name is the text before
the `=`, or else the only option of whose name the text is a proper prefix, or else none; and
what they do does not depend on the order of the table.
SOURCE: dietlibc-getopt.patch:5-140 -/
theorem getoptLong_selects_chosen (c : Call) (hdistinct : (c.longopts.map LongOption.name).Nodup) :
    (∀ g o, Selects getoptLong c g o ↔ Chosen c.longopts (text (argument c g)) o) ∧
      (∀ arg g o, Selects (fun c => getoptLongOnly c arg) c g o ↔ Chosen c.longopts (text arg) o) ∧
      ∀ longopts', longopts'.Perm c.longopts →
        (∀ g o, Selects getoptLong { c with longopts := longopts' } g o ↔ Selects getoptLong c g o) ∧
          (∀ arg g o, Selects (fun c => getoptLongOnly c arg) { c with longopts := longopts' } g o ↔
            Selects (fun c => getoptLongOnly c arg) c g o) ∧
          (∀ g, SameButIndex (getoptLong { c with longopts := longopts' } g) (getoptLong c g)) ∧
          ∀ arg g, SameButIndex (getoptLongOnly { c with longopts := longopts' } arg g)
            (getoptLongOnly c arg g) := by
  have hlong : ∀ c : Call, (c.longopts.map LongOption.name).Nodup → ∀ g o,
      Selects getoptLong c g o ↔ Chosen c.longopts (text (argument c g)) o :=
    fun c hc g o => lookup_selects c hc _ (argument c g) g o
  have honly : ∀ c : Call, (c.longopts.map LongOption.name).Nodup → ∀ arg g o,
      Selects (fun c => getoptLongOnly c arg) c g o ↔ Chosen c.longopts (text arg) o :=
    fun c hc arg g o => lookup_selects c hc _ arg g o
  refine ⟨hlong c hdistinct, honly c hdistinct, fun longopts' hperm => ?_⟩
  have hdistinct' : (longopts'.map LongOption.name).Nodup := (hperm.map LongOption.name).nodup_iff.mpr hdistinct
  have hchosen := chosen_perm c.longopts longopts' hperm
  refine ⟨fun g o => ?_, fun arg g o => ?_, fun g => ?_, fun arg g => ?_⟩
  · rw [hlong _ hdistinct', hlong c hdistinct]
    exact hchosen _ o
  · rw [honly _ hdistinct', honly c hdistinct]
    exact hchosen _ o
  · exact lookup_perm c hdistinct _ (argument c g) _ rfl longopts' hperm g
  · exact lookup_perm c hdistinct _ arg _ rfl longopts' hperm g

/-- The table of the test, as far as the patch shows it.
SOURCE: dietlibc-getopt.patch:144-151 -/
def testTable : List LongOption :=
  [⟨ascii "append".toList, 0, none, 0⟩, ⟨ascii "delete".toList, 1, none, 0⟩,
    ⟨ascii "verbose".toList, 0, none, 0⟩, ⟨ascii "ike-lifetime".toList, 1, none, 0⟩,
    ⟨ascii "create".toList, 1, none, 0x63⟩, ⟨ascii "file".toList, 1, none, 0⟩,
    ⟨ascii "ike".toList, 1, none, 0⟩]

/-- **The exact name behind a longer one** is selected: the case the test was extended for. -/
theorem getoptLong_selects_ike :
    (testTable.map LongOption.name).Nodup ∧
      ∀ g, Selects (fun c => getoptLongOnly c (ascii "ike=1h".toList))
        ⟨fun _ => none, [], testTable, false⟩ g ⟨ascii "ike".toList, 1, none, 0⟩ := by
  have hdistinct : (testTable.map LongOption.name).Nodup := by decide
  refine ⟨hdistinct, fun g => ?_⟩
  rw [(getoptLong_selects_chosen ⟨fun _ => none, [], testTable, false⟩ hdistinct).2.1]
  exact ⟨by decide, Or.inl (by decide)⟩

end TTLinux.Analysis.GetoptSelect
