import TTLinux.Model.UrlFilterConfig

/-!
# Keys and values

A line that `keyvalue` takes is a key of letters, white space and a value. `Split` cuts a line where the three scans stop;
the third one takes the terminator for a byte of the value, so that it stops in front of it only if something else stands
behind the value. `keyvalue_correct_iff` says for which lines nothing behind the terminator is touched.
-/

set_option autoImplicit false

namespace TTLinux.Analysis.UrlFilterKeyvalue

open TTLinux.Lib TTLinux.Model.UrlFilterConfig

/-- A byte of a value. -/
def isvalue (c : UInt8) : Bool := isalpha c || goodchars.contains c

/-- **A key, white space and a value**, each as long as it can be. -/
structure KeyValue (line key value : Bytes) : Prop where
  key_ne : key ≠ []
  letters : ∀ c ∈ key, isalpha c
  value_ne : value ≠ []
  good : ∀ c ∈ value, isvalue c
  line : ∃ space tail, line = key ++ (space ++ (value ++ tail)) ∧ space ≠ [] ∧ (∀ c ∈ space, isspace c) ∧
    ∀ c ∈ tail.head?, isvalue c = false

/-- **The value, if there is one, ends at the terminator**: the scan for its end runs on behind it. -/
def RunsOn (line : Bytes) : Prop :=
  ∃ key space value, line = key ++ (space ++ value) ∧ key ≠ [] ∧ (∀ c ∈ key, isalpha c) ∧
    space ≠ [] ∧ (∀ c ∈ space, isspace c) ∧ ∀ c ∈ value, isvalue c

/-- **What a call has to do** with a line that has `rest` behind its terminator. -/
structure Correct (line rest : Bytes) (r : Parsed) : Prop where
  inside : r.touched ≤ line.length + 1
  kept : r.buf.drop (line.length + 1) = rest
  accepts : r.rc = 0 ↔ ∃ key value, KeyValue line key value
  strings : r.rc = 0 → ∃ k v, r.key = some k ∧ r.value = some v ∧ KeyValue line (cstr (r.buf.drop k)) (cstr (r.buf.drop v))

/-! ## The three scans -/

/-- INTERNAL: a scan over bytes that are skipped, up to one that is not. -/
theorem skip_append (p : UInt8 → Bool) (a rest : Bytes) (i : ℕ) (ha : ∀ c ∈ a, p c)
    (hrest : ∃ c rest', rest = c :: rest' ∧ p c = false) : skip p (a ++ rest) i = some (i + a.length) := by
  induction a generalizing i with
  | nil =>
    obtain ⟨c, rest', rfl, hc⟩ := hrest
    rw [List.nil_append, skip, hc, if_neg Bool.false_ne_true]
    rfl
  | cons c a ih =>
    rw [List.cons_append, skip, if_pos (ha c List.mem_cons_self), ih (i + 1) fun d hd => ha d (List.mem_cons_of_mem c hd),
      List.length_cons]
    congr 1
    omega

/-- INTERNAL: a scan that comes over `a` stops behind it, or never. -/
theorem skip_append_le (p : UInt8 → Bool) (a rest : Bytes) (i j : ℕ) (ha : ∀ c ∈ a, p c)
    (h : skip p (a ++ rest) i = some j) : i + a.length ≤ j := by
  induction a generalizing i with
  | nil =>
    rw [List.nil_append] at h
    induction rest generalizing i with
    | nil => cases h
    | cons c rest ih =>
      rw [skip] at h
      split_ifs at h
      · exact Nat.le_of_succ_le (ih (i + 1) h)
      · exact (Option.some.inj h).le
  | cons c a ih =>
    rw [List.cons_append, skip, if_pos (ha c List.mem_cons_self)] at h
    have hle := ih (i + 1) (fun d hd => ha d (List.mem_cons_of_mem c hd)) h
    rw [List.length_cons]
    omega

/-- INTERNAL: **a string cut where a scan stops.** -/
theorem exists_cut (p : UInt8 → Bool) (s : Bytes) :
    ∃ a b, s = a ++ b ∧ (∀ c ∈ a, p c) ∧ ∀ c ∈ b.head?, p c = false := by
  induction s with
  | nil => exact ⟨[], [], rfl, fun c hc => absurd hc List.not_mem_nil, fun c hc => by cases hc⟩
  | cons c s ih =>
    by_cases hc : p c = true
    · obtain ⟨a, b, rfl, ha, hb⟩ := ih
      exact ⟨c :: a, b, rfl, List.forall_mem_cons.mpr ⟨hc, ha⟩, hb⟩
    · refine ⟨[], c :: s, rfl, fun d hd => absurd hd List.not_mem_nil, ?_⟩
      intro d hd
      cases hd
      exact (Bool.not_eq_true _).mp hc

/-! ## The classes of characters -/

/-- INTERNAL: a letter is neither a space nor the start of a comment. -/
theorem isspace_of_isalpha (c : UInt8) (h : isalpha c = true) : isspace c = false ∧ c ≠ 0x23 := by
  simp only [isalpha, isspace, Bool.or_eq_true, Bool.and_eq_true, decide_eq_true_eq, Bool.or_eq_false_iff,
    Bool.and_eq_false_iff, decide_eq_false_iff_not, ne_eq, ← UInt8.toNat_inj, UInt8.le_iff_toNat_le,
    UInt8.reduceToNat] at h ⊢
  omega

/-- INTERNAL: a space is no letter. -/
theorem isalpha_of_isspace (c : UInt8) (h : isspace c = true) : isalpha c = false := by
  by_contra halpha
  rw [(isspace_of_isalpha c ((Bool.not_eq_false _).mp halpha)).1] at h
  cases h

/-- INTERNAL: a byte of a value is no space. -/
theorem isspace_of_isvalue (c : UInt8) (h : isvalue c = true) : isspace c = false := by
  rcases Bool.or_eq_true _ _ |>.mp h with h | h
  · exact (isspace_of_isalpha c h).1
  · have hall : ∀ c ∈ goodchars, isspace c = false := by decide +kernel
    exact hall c (List.contains_iff_mem.mp h)

/-- INTERNAL: what the third scan takes for a byte of a value. -/
theorem scan_eq (c : UInt8) (h : c ≠ 0) : (isalpha c || strchrGoodchars c) = isvalue c := by
  unfold strchrGoodchars isvalue
  rw [decide_eq_false h, Bool.false_or]

/-- INTERNAL: a value is scanned to its end. -/
theorem scan_value (value : Bytes) (h : ∀ c ∈ value, isvalue c) :
    ∀ c ∈ value, (isalpha c || strchrGoodchars c) = true := by
  intro c hc
  rw [scan_eq c fun h0 => absurd (h c hc) (by rw [h0]; decide)]
  exact h c hc

/-- INTERNAL: a key ends where white space begins. -/
theorem head_isalpha (space tail : Bytes) (hne : space ≠ []) (h : ∀ c ∈ space, isspace c) :
    ∀ c ∈ (space ++ tail).head?, isalpha c = false := by
  intro c hc
  cases space with
  | nil => exact absurd rfl hne
  | cons s space =>
    cases hc
    exact isalpha_of_isspace _ (h _ List.mem_cons_self)

/-- INTERNAL: white space ends where the value or what stands behind it begins. -/
theorem head_isspace (value tail : Bytes) (h : ∀ c ∈ value, isvalue c)
    (htail : value = [] → ∀ c ∈ tail.head?, isspace c = false) : ∀ c ∈ (value ++ tail).head?, isspace c = false := by
  intro c hc
  cases value with
  | nil => exact htail rfl c hc
  | cons d value =>
    cases hc
    exact isspace_of_isvalue _ (h _ List.mem_cons_self)

/-- INTERNAL: the scan of the spaces ends in front of the value. -/
theorem begins_isspace (value tail : Bytes) (t : UInt8) (h : ∀ c ∈ value, isvalue c)
    (ht : value = [] → isspace t = false) : ∃ c rest, value ++ t :: tail = c :: rest ∧ isspace c = false := by
  have hhead := head_isspace value (t :: tail) h fun hv c hc => by cases hc; exact ht hv
  cases hbody : value ++ t :: tail with
  | nil => exact absurd hbody (List.append_ne_nil_of_right_ne_nil value (List.cons_ne_nil t tail))
  | cons c rest =>
    rw [hbody] at hhead
    exact ⟨c, rest, rfl, hhead c rfl⟩

/-! ## The two ends of a call -/

/-- INTERNAL: the byte behind the front of a buffer. -/
theorem getD_at (a b : Bytes) (c : UInt8) : (a ++ c :: b).getD a.length 0 = c := by
  simp [List.getD]

/-- INTERNAL: what stands behind it. -/
theorem drop_behind (a b : Bytes) (n : ℕ) : (a ++ b).drop (a.length + n) = b.drop n := by
  rw [← List.drop_drop, List.drop_left]

/-- INTERNAL: writing behind it. -/
theorem set_behind (a b : Bytes) (n : ℕ) (c : UInt8) : (a ++ b).set (a.length + n) c = a ++ b.set n c := by
  rw [List.set_append_right _ _ (Nat.le_add_right _ _), Nat.add_sub_cancel_left]

/-! What stands in front of the value once the key is terminated. -/

/-- INTERNAL: the key, with the spaces after its end. -/
theorem front_append (key space x : Bytes) : key ++ 0 :: (space ++ x) = (key ++ 0 :: space) ++ x := by
  rw [List.append_assoc, List.cons_append]

/-- INTERNAL: the length of these. -/
theorem length_front (key space : Bytes) : (key ++ (0 : UInt8) :: space).length = key.length + 1 + space.length := by
  rw [List.length_append, List.length_cons]
  omega

/-- INTERNAL: **a line without a key, or without white space behind it.** -/
theorem keyvalue_rejects (key rest : Bytes) (c : UInt8) (hkey : ∀ d ∈ key, isalpha d) (hc : isalpha c = false)
    (h : key = [] ∨ isspace c = false) :
    ∃ k, keyvalue (key ++ c :: rest) = some ⟨-1, k, none, key ++ c :: rest, key.length + 1⟩ := by
  have hskip : skip isalpha (key ++ c :: rest) 0 = some key.length := by
    rw [skip_append isalpha key (c :: rest) 0 hkey ⟨c, rest, rfl, hc⟩, Nat.zero_add]
  have hnext := getD_at key rest c
  cases key with
  | nil =>
    rw [List.nil_append] at hskip hnext ⊢
    unfold keyvalue
    dsimp only
    by_cases hfirst : (isspace c || decide (c = 0x23)) = true
    · exact ⟨none, by rw [if_pos hfirst]; rfl⟩
    · have hspace : isspace c = false := (Bool.or_eq_false_iff.mp ((Bool.not_eq_true _).mp hfirst)).1
      refine ⟨some 0, ?_⟩
      rw [if_neg hfirst, hskip, Option.bind_some, hnext, hspace, Bool.not_false, if_pos rfl]
  | cons k key =>
    obtain ⟨hk, hhash⟩ := isspace_of_isalpha k (hkey k List.mem_cons_self)
    have hspace : isspace c = false := h.resolve_left (List.cons_ne_nil k key)
    refine ⟨some 0, ?_⟩
    unfold keyvalue
    rw [List.cons_append] at hskip hnext ⊢
    dsimp only
    rw [hk, decide_eq_false hhash, Bool.false_or, if_neg Bool.false_ne_true, hskip, Option.bind_some, hnext, hspace,
      Bool.not_false, if_pos rfl]

/-- INTERNAL: **a line with a key and white space**: the scan for the end of the value is still to come. -/
theorem keyvalue_scans (key space body : Bytes) (s : UInt8) (hne : key ≠ []) (hkey : ∀ d ∈ key, isalpha d)
    (hs : isspace s = true) (hspace : ∀ d ∈ space, isspace d) (hbody : ∃ c rest, body = c :: rest ∧ isspace c = false) :
    keyvalue (key ++ s :: (space ++ body)) =
      (skip (fun c => isalpha c || strchrGoodchars c) body (key.length + 1 + space.length)).map fun tmp =>
        ⟨if ((key ++ 0 :: (space ++ body)).set tmp 0).getD (key.length + 1 + space.length) 0 = 0 then -1 else 0, some 0,
          some (key.length + 1 + space.length), (key ++ 0 :: (space ++ body)).set tmp 0, tmp + 1⟩ := by
  have hskip : skip isalpha (key ++ s :: (space ++ body)) 0 = some key.length := by
    rw [skip_append isalpha key _ 0 hkey ⟨s, _, rfl, isalpha_of_isspace s hs⟩, Nat.zero_add]
  have hnext := getD_at key (space ++ body) s
  have hset : (key ++ s :: (space ++ body)).set key.length 0 = key ++ 0 :: (space ++ body) :=
    set_behind key (s :: (space ++ body)) 0 0
  have hdrop : ∀ n, (key ++ 0 :: (space ++ body)).drop (key.length + 1 + n) = (space ++ body).drop n := by
    intro n
    rw [Nat.add_assoc, drop_behind, Nat.add_comm 1 n, List.drop_succ_cons]
  have hvalue : skip isspace ((key ++ 0 :: (space ++ body)).drop (key.length + 1)) (key.length + 1) =
      some (key.length + 1 + space.length) := by
    have h0 := hdrop 0
    rw [Nat.add_zero, List.drop_zero] at h0
    rw [h0, skip_append isspace space body _ hspace hbody]
  cases key with
  | nil => exact absurd rfl hne
  | cons k key =>
    obtain ⟨hk, hhash⟩ := isspace_of_isalpha k (hkey k List.mem_cons_self)
    unfold keyvalue
    rw [List.cons_append] at hskip hnext hset ⊢
    dsimp only
    rw [hk, decide_eq_false hhash, Bool.false_or, if_neg Bool.false_ne_true, hskip, Option.bind_some, hnext, hs,
      Bool.not_true, if_neg Bool.false_ne_true, hset, hvalue, Option.bind_some, hdrop, List.drop_left]

/-- INTERNAL: **what is left of a line with a key and white space**: both strings are terminated where they end. -/
theorem strings_of_buf (key space value rest : Bytes) (hkey : ∀ c ∈ key, isalpha c) (hvalue : ∀ c ∈ value, isvalue c) :
    cstr (key ++ 0 :: (space ++ (value ++ 0 :: rest))) = key ∧
      cstr ((key ++ 0 :: (space ++ (value ++ 0 :: rest))).drop (key.length + 1 + space.length)) = value ∧
      ((key ++ 0 :: (space ++ (value ++ 0 :: rest))).getD (key.length + 1 + space.length) 0 = 0 ↔ value = []) := by
  have hkey0 : (0 : UInt8) ∉ key := fun h => absurd (hkey 0 h) (by decide)
  have hvalue0 : (0 : UInt8) ∉ value := fun h => absurd (hvalue 0 h) (by decide)
  refine ⟨?_, ?_, ?_⟩
  · rw [cstr_append, cstr_eq_self key hkey0]
  · rw [front_append, ← length_front, List.drop_left, cstr_append, cstr_eq_self value hvalue0]
  · rw [front_append, ← length_front]
    cases value with
    | nil => exact iff_of_true (getD_at _ rest 0) rfl
    | cons v value =>
      have hv := getD_at (key ++ 0 :: space) (value ++ 0 :: rest) v
      rw [List.cons_append, hv]
      exact iff_of_false (fun h => hvalue0 (h ▸ List.mem_cons_self)) (List.cons_ne_nil v value)

/-- INTERNAL: **a line whose value ends in front of its terminator.** -/
theorem keyvalue_stops (key space value tail rest : Bytes) (s t : UInt8) (hne : key ≠ []) (hkey : ∀ c ∈ key, isalpha c)
    (hs : isspace s = true) (hspace : ∀ c ∈ space, isspace c) (hvalue : ∀ c ∈ value, isvalue c)
    (hvs : value = [] → isspace t = false) (ht0 : t ≠ 0) (ht : isvalue t = false) :
    keyvalue (key ++ s :: (space ++ (value ++ t :: (tail ++ 0 :: rest)))) =
      some ⟨if value = [] then -1 else 0, some 0, some (key.length + 1 + space.length),
        key ++ 0 :: (space ++ (value ++ 0 :: (tail ++ 0 :: rest))), key.length + 1 + space.length + value.length + 1⟩ := by
  have hbody := begins_isspace value (tail ++ 0 :: rest) t hvalue hvs
  have hset : (key ++ 0 :: (space ++ (value ++ t :: (tail ++ 0 :: rest)))).set
      (key.length + 1 + space.length + value.length) 0 = key ++ 0 :: (space ++ (value ++ 0 :: (tail ++ 0 :: rest))) := by
    have hend := set_behind value (t :: (tail ++ 0 :: rest)) 0 0
    rw [Nat.add_zero] at hend
    rw [front_append, ← length_front, set_behind, hend, List.append_assoc, List.cons_append]
    rfl
  obtain ⟨-, -, hzero⟩ := strings_of_buf key space value (tail ++ 0 :: rest) hkey hvalue
  rw [keyvalue_scans key space _ s hne hkey hs hspace hbody,
    skip_append _ value _ _ (scan_value value hvalue) ⟨t, _, rfl, by rw [scan_eq t ht0]; exact ht⟩, Option.map_some,
    hset]
  simp only [hzero]

/-- INTERNAL: **a line whose value ends at its terminator**: if the scan stops at all, it has come over the terminator. -/
theorem keyvalue_runs_on (key space value rest : Bytes) (s : UInt8) (hne : key ≠ []) (hkey : ∀ c ∈ key, isalpha c)
    (hs : isspace s = true) (hspace : ∀ c ∈ space, isspace c) (hvalue : ∀ c ∈ value, isvalue c) (r : Parsed)
    (h : keyvalue (key ++ s :: (space ++ (value ++ 0 :: rest))) = some r) :
    ∃ rest', r = ⟨if value = [] then -1 else 0, some 0, some (key.length + 1 + space.length),
        key ++ 0 :: (space ++ (value ++ 0 :: rest')), r.touched⟩ ∧
      key.length + 1 + space.length + value.length + 1 < r.touched := by
  have hbody := begins_isspace value rest 0 hvalue fun _ => rfl
  have hscan : ∀ c ∈ value ++ [0], (isalpha c || strchrGoodchars c) = true :=
    List.forall_mem_append.mpr ⟨scan_value value hvalue, List.forall_mem_singleton.mpr rfl⟩
  rw [keyvalue_scans key space _ s hne hkey hs hspace hbody] at h
  obtain ⟨tmp, htmp, rfl⟩ := Option.map_eq_some_iff.mp h
  have hle : key.length + 1 + space.length + (value ++ [0]).length ≤ tmp := by
    apply skip_append_le _ (value ++ [0]) rest _ _ hscan
    rw [List.append_assoc, List.singleton_append]
    exact htmp
  rw [List.length_append, List.length_singleton] at hle
  have hsplit : ∀ x, key ++ 0 :: (space ++ (value ++ 0 :: x)) = (key ++ 0 :: (space ++ (value ++ [0]))) ++ x := by
    intro x
    simp only [List.append_assoc, List.cons_append, List.nil_append]
  have hlength : (key ++ 0 :: (space ++ (value ++ [0]))).length =
      key.length + 1 + space.length + value.length + 1 := by
    simp only [List.length_append, List.length_cons, List.length_nil]
    omega
  have hset : (key ++ 0 :: (space ++ (value ++ 0 :: rest))).set tmp 0 =
      key ++ 0 :: (space ++ (value ++ 0 :: rest.set (tmp - (key.length + 1 + space.length + value.length + 1)) 0)) := by
    rw [hsplit rest, hsplit (rest.set _ 0), ← hlength, List.set_append_right _ _ (by omega)]
  refine ⟨rest.set (tmp - (key.length + 1 + space.length + value.length + 1)) 0, ?_, by dsimp only; omega⟩
  obtain ⟨-, -, hzero⟩ := strings_of_buf key space value
    (rest.set (tmp - (key.length + 1 + space.length + value.length + 1)) 0) hkey hvalue
  simp only [hset, hzero]

/-! ## Every line -/

/-- INTERNAL: the three ends that a call can come to. -/
inductive Shape (line : Bytes) : Prop where
  | rejected (key : Bytes) (rest : Bytes) (h : line = key ++ rest) (hkey : ∀ c ∈ key, isalpha c)
      (hrest : ∀ c ∈ rest.head?, isalpha c = false ∧ (key = [] ∨ isspace c = false))
  | stops (key space value tail : Bytes) (s t : UInt8) (h : line = key ++ s :: (space ++ (value ++ t :: tail)))
      (hne : key ≠ []) (hkey : ∀ c ∈ key, isalpha c) (hs : isspace s = true) (hspace : ∀ c ∈ space, isspace c)
      (hvalue : ∀ c ∈ value, isvalue c) (ht : isvalue t = false) (hvs : value = [] → isspace t = false)
  | runsOn (key space value : Bytes) (s : UInt8) (h : line = key ++ s :: (space ++ value)) (hne : key ≠ [])
      (hkey : ∀ c ∈ key, isalpha c) (hs : isspace s = true) (hspace : ∀ c ∈ space, isspace c)
      (hvalue : ∀ c ∈ value, isvalue c)

/-- INTERNAL: every line has a shape. -/
theorem shape (line : Bytes) : Shape line := by
  obtain ⟨key, rest, rfl, hkey, hrest⟩ := exists_cut isalpha line
  by_cases hne : key = []
  · exact .rejected key rest rfl hkey fun c hc => ⟨hrest c hc, Or.inl hne⟩
  · cases rest with
    | nil => exact .rejected key [] rfl hkey fun c hc => by cases hc
    | cons s rest =>
      by_cases hs : isspace s = true
      · obtain ⟨space, rest, rfl, hspace, hstop⟩ := exists_cut isspace rest
        obtain ⟨value, tail, rfl, hvalue, htail⟩ := exists_cut isvalue rest
        cases tail with
        | nil =>
          rw [List.append_nil]
          exact .runsOn key space value s rfl hne hkey hs hspace hvalue
        | cons t tail =>
          refine .stops key space value tail s t rfl hne hkey hs hspace hvalue (htail t rfl) ?_
          rintro rfl
          exact hstop t rfl
      · refine .rejected key (s :: rest) rfl hkey fun c hc => ?_
        cases hc
        exact ⟨hrest s rfl, Or.inr ((Bool.not_eq_true _).mp hs)⟩

/-- INTERNAL: **a cut line has at most one key and value.** -/
theorem keyValue_iff (key space value tail k v : Bytes) (s : UInt8) (hne : key ≠ []) (hkey : ∀ c ∈ key, isalpha c)
    (hs : isspace s = true) (hspace : ∀ c ∈ space, isspace c) (hvalue : ∀ c ∈ value, isvalue c)
    (htail : ∀ c ∈ tail.head?, isvalue c = false) (hvs : value = [] → ∀ c ∈ tail.head?, isspace c = false) :
    KeyValue (key ++ s :: (space ++ (value ++ tail))) k v ↔ value ≠ [] ∧ k = key ∧ v = value := by
  constructor
  · rintro ⟨-, hletters, hv, hgood, space', tail', hline, hspace'ne, hspace', htail'⟩
    obtain ⟨hk, hrest⟩ := append_inj_of_stop isalpha key k (s :: (space ++ (value ++ tail))) (space' ++ (v ++ tail'))
      hkey hletters (fun c hc => by cases hc; exact isalpha_of_isspace s hs) (head_isalpha space' _ hspace'ne hspace')
      hline
    obtain ⟨-, hbody⟩ := append_inj_of_stop isspace (s :: space) space' (value ++ tail) (v ++ tail')
      (List.forall_mem_cons.mpr ⟨hs, hspace⟩) hspace' (head_isspace value tail hvalue hvs)
      (head_isspace v tail' hgood fun hnil => absurd hnil hv) hrest
    obtain ⟨hvalue', -⟩ := append_inj_of_stop isvalue value v tail tail' hvalue hgood htail htail' hbody
    exact ⟨hvalue' ▸ hv, hk.symm, hvalue'.symm⟩
  · rintro ⟨hv, rfl, rfl⟩
    exact ⟨hne, hkey, hv, hvalue, s :: space, tail, rfl, List.cons_ne_nil s space,
      List.forall_mem_cons.mpr ⟨hs, hspace⟩, htail⟩

/-- INTERNAL: a line that is rejected has no key and value. -/
theorem not_keyValue_of_rejected (key rest k v : Bytes) (hkey : ∀ c ∈ key, isalpha c)
    (hrest : ∀ c ∈ rest.head?, isalpha c = false ∧ (key = [] ∨ isspace c = false)) : ¬ KeyValue (key ++ rest) k v := by
  rintro ⟨hk, hletters, -, -, space, tail, hline, hspacene, hspace, -⟩
  cases space with
  | nil => exact hspacene rfl
  | cons s space =>
    have hs := hspace s List.mem_cons_self
    obtain ⟨rfl, rfl⟩ := append_inj_of_stop isalpha key k rest (s :: space ++ (v ++ tail)) hkey hletters
      (fun c hc => (hrest c hc).1) (fun c hc => by cases hc; exact isalpha_of_isspace _ hs) hline
    rcases (hrest s rfl).2 with hnil | hnot
    · exact hk hnil
    · rw [hs] at hnot
      cases hnot

/-- INTERNAL: the call for a line that is rejected. -/
theorem keyvalue_of_rejected (key rest behind : Bytes) (hkey : ∀ c ∈ key, isalpha c)
    (hrest : ∀ c ∈ rest.head?, isalpha c = false ∧ (key = [] ∨ isspace c = false)) :
    ∃ k, keyvalue (key ++ rest ++ 0 :: behind) = some ⟨-1, k, none, key ++ rest ++ 0 :: behind, key.length + 1⟩ := by
  rw [List.append_assoc]
  cases rest with
  | nil => exact keyvalue_rejects key behind 0 hkey rfl (Or.inr rfl)
  | cons c rest => exact keyvalue_rejects key (rest ++ 0 :: behind) c hkey (hrest c rfl).1 (hrest c rfl).2

/-- INTERNAL: the bytes of a string. -/
theorem ne_zero_of_mem (line : Bytes) (h0 : (0 : UInt8) ∉ line) (c : UInt8) (h : c ∈ line) : c ≠ 0 :=
  fun hc => h0 (hc ▸ h)

/-- INTERNAL: what a call says of a line with a key and white space. -/
theorem says_of_cut (line key value : Bytes) (r : Parsed) (p : ℕ)
    (hiff : ∀ k v, KeyValue line k v ↔ value ≠ [] ∧ k = key ∧ v = value) (hrc : r.rc = if value = [] then -1 else 0)
    (hkey : r.key = some 0) (hvalue : r.value = some p) (hk : cstr r.buf = key) (hv : cstr (r.buf.drop p) = value) :
    (r.rc = -1 ∧ ∀ k v, ¬ KeyValue line k v) ∨
    (r.rc = 0 ∧ ∃ k v, r.key = some k ∧ r.value = some v ∧
      KeyValue line (cstr (r.buf.drop k)) (cstr (r.buf.drop v))) := by
  by_cases hnil : value = []
  · rw [if_pos hnil] at hrc
    exact Or.inl ⟨hrc, fun k v hkv => ((hiff k v).mp hkv).1 hnil⟩
  · rw [if_neg hnil] at hrc
    exact Or.inr ⟨hrc, 0, p, hkey, hvalue, (hiff _ _).mpr ⟨hnil, hk, hv⟩⟩

/-- **What a call says of its line, if it returns**: 0 exactly for a key and a value, which are then the strings at the
two pointers, and otherwise -1.
SOURCE: squid-2.6.STABLE2-urlfilter.patch:63-90 -/
theorem keyvalue_spec (line rest : Bytes) (h0 : (0 : UInt8) ∉ line) (r : Parsed)
    (h : keyvalue (line ++ 0 :: rest) = some r) :
    (r.rc = -1 ∧ ∀ k v, ¬ KeyValue line k v) ∨
    (r.rc = 0 ∧ ∃ k v, r.key = some k ∧ r.value = some v ∧
      KeyValue line (cstr (r.buf.drop k)) (cstr (r.buf.drop v))) := by
  cases shape line with
  | rejected key tail hline hkey hrest =>
    subst hline
    obtain ⟨k, hr⟩ := keyvalue_of_rejected key tail rest hkey hrest
    rw [hr] at h
    cases h
    exact Or.inl ⟨rfl, fun k v => not_keyValue_of_rejected key tail k v hkey hrest⟩
  | stops key space value tail s t hline hne hkey hs hspace hvalue ht hvs =>
    subst hline
    have ht0 : t ≠ 0 := ne_zero_of_mem _ h0 t (by simp)
    have hr := keyvalue_stops key space value tail rest s t hne hkey hs hspace hvalue hvs ht0 ht
    have hassoc : key ++ s :: (space ++ (value ++ t :: tail)) ++ 0 :: rest =
        key ++ s :: (space ++ (value ++ t :: (tail ++ 0 :: rest))) := by
      simp only [List.append_assoc, List.cons_append]
    rw [hassoc, hr] at h
    cases h
    have hiff := fun k v => keyValue_iff key space value (t :: tail) k v s hne hkey hs hspace hvalue
      (fun c hc => by cases hc; exact ht) (fun hv c hc => by cases hc; exact hvs hv)
    obtain ⟨hk, hv, -⟩ := strings_of_buf key space value (tail ++ 0 :: rest) hkey hvalue
    exact says_of_cut _ key value _ _ hiff rfl rfl rfl hk hv
  | runsOn key space value s hline hne hkey hs hspace hvalue =>
    subst hline
    have hassoc : key ++ s :: (space ++ value) ++ 0 :: rest = key ++ s :: (space ++ (value ++ 0 :: rest)) := by
      simp only [List.append_assoc, List.cons_append]
    rw [hassoc] at h
    obtain ⟨rest', hr, -⟩ := keyvalue_runs_on key space value rest s hne hkey hs hspace hvalue r h
    have hiff := fun k v => keyValue_iff key space value [] k v s hne hkey hs hspace hvalue
      (fun c hc => by cases hc) (fun _ c hc => by cases hc)
    rw [List.append_nil] at hiff
    obtain ⟨hk, hv, -⟩ := strings_of_buf key space value rest' hkey hvalue
    rw [hr]
    exact says_of_cut _ key value _ _ hiff rfl rfl rfl hk hv

/-- INTERNAL: what a call says is right in any case; what is left are the bytes that it touches. -/
theorem correct_of_inside (line rest : Bytes) (h0 : (0 : UInt8) ∉ line) (r : Parsed)
    (h : keyvalue (line ++ 0 :: rest) = some r) (hinside : r.touched ≤ line.length + 1)
    (hkept : r.buf.drop (line.length + 1) = rest) : Correct line rest r := by
  rcases keyvalue_spec line rest h0 r h with ⟨hrc, hnot⟩ | ⟨hrc, k, v, hk, hv, hkv⟩
  · refine ⟨hinside, hkept, ?_, ?_⟩
    · rw [hrc]
      exact iff_of_false (by decide) fun ⟨k, v, hkv⟩ => hnot k v hkv
    · rw [hrc]
      exact fun h => absurd h (by decide)
  · exact ⟨hinside, hkept, iff_of_true hrc ⟨_, _, hkv⟩, fun _ => ⟨k, v, hk, hv, hkv⟩⟩

/-- INTERNAL: a line that does not run on is read inside it. -/
theorem keyvalue_of_not_runsOn (line rest : Bytes) (h0 : (0 : UInt8) ∉ line) (hruns : ¬ RunsOn line) :
    ∃ r, keyvalue (line ++ 0 :: rest) = some r ∧ Correct line rest r := by
  have hbuf : ∀ x : Bytes, x.length = line.length → (x ++ 0 :: rest).drop (line.length + 1) = rest := by
    intro x hx
    rw [← hx, drop_behind]
    rfl
  cases shape line with
  | rejected key tail hline hkey hrest =>
    obtain ⟨k, hr⟩ := keyvalue_of_rejected key tail rest hkey hrest
    rw [← hline] at hr
    refine ⟨_, hr, correct_of_inside line rest h0 _ hr ?_ (hbuf line rfl)⟩
    rw [hline, List.length_append]
    dsimp only
    omega
  | stops key space value tail s t hline hne hkey hs hspace hvalue ht hvs =>
    have ht0 : t ≠ 0 := ne_zero_of_mem line h0 t (by rw [hline]; simp)
    have hr := keyvalue_stops key space value tail rest s t hne hkey hs hspace hvalue hvs ht0 ht
    have hassoc : ∀ a b : UInt8, key ++ a :: (space ++ (value ++ b :: (tail ++ 0 :: rest))) =
        key ++ a :: (space ++ (value ++ b :: tail)) ++ 0 :: rest := by
      intro a b
      simp only [List.append_assoc, List.cons_append]
    rw [hassoc s t, ← hline] at hr
    refine ⟨_, hr, correct_of_inside line rest h0 _ hr ?_ ?_⟩
    · rw [hline]
      simp only [List.length_append, List.length_cons]
      omega
    · dsimp only
      rw [hassoc 0 0]
      apply hbuf
      rw [hline]
      simp only [List.length_append, List.length_cons]
  | runsOn key space value s hline hne hkey hs hspace hvalue =>
    exact absurd ⟨key, s :: space, value, hline, hne, hkey, List.cons_ne_nil s space,
      List.forall_mem_cons.mpr ⟨hs, hspace⟩, hvalue⟩ hruns

/-- INTERNAL: a scan stops in the array if a byte of it ends the scan. -/
theorem skip_isSome_iff (p : UInt8 → Bool) (s : Bytes) (i : ℕ) : (skip p s i).isSome ↔ ∃ c ∈ s, p c = false := by
  induction s generalizing i with
  | nil => simp [skip]
  | cons c s ih =>
    rw [skip]
    by_cases hc : p c = true
    · rw [if_pos hc, ih]
      simp [hc]
    · rw [if_neg hc]
      simp [(Bool.not_eq_true _).mp hc]

/-- INTERNAL: a line that runs on needs a byte behind its terminator that ends the scan. -/
theorem keyvalue_isSome_of_runsOn (line rest : Bytes) (hruns : RunsOn line) :
    (keyvalue (line ++ 0 :: rest)).isSome ↔ ∃ c ∈ rest, c ≠ 0 ∧ isvalue c = false := by
  obtain ⟨key, space, value, rfl, hne, hkey, hspacene, hspace, hvalue⟩ := hruns
  obtain ⟨s, space, rfl⟩ := List.exists_cons_of_ne_nil hspacene
  obtain ⟨hs, hspace⟩ := List.forall_mem_cons.mp hspace
  have hassoc : key ++ (s :: space ++ value) ++ 0 :: rest = key ++ s :: (space ++ (value ++ 0 :: rest)) := by
    simp only [List.append_assoc, List.cons_append]
  have hstop : ∀ c : UInt8, (isalpha c || strchrGoodchars c) = false ↔ c ≠ 0 ∧ isvalue c = false := by
    intro c
    by_cases hc : c = 0
    · subst hc
      decide
    · rw [scan_eq c hc, and_iff_right hc]
  rw [hassoc, keyvalue_scans key space _ s hne hkey hs hspace (begins_isspace value rest 0 hvalue fun _ => rfl),
    Option.isSome_map, skip_isSome_iff]
  simp only [hstop, List.mem_append, List.mem_cons]
  constructor
  · rintro ⟨c, hc | rfl | hc, hend⟩
    · rw [hvalue c hc] at hend
      cases hend.2
    · exact absurd rfl hend.1
    · exact ⟨c, hc, hend⟩
  · rintro ⟨c, hc, hend⟩
    exact ⟨c, Or.inr (Or.inr hc), hend⟩

/-- **`keyvalue` is right exactly for the lines that do not run on**: a line that ends with its key and white space, or
with a value of good characters, has the scan come over its terminator, whatever stands behind it.
SOURCE: squid-2.6.STABLE2-urlfilter.patch:63-90 -/
theorem keyvalue_correct_iff (line rest : Bytes) (h0 : (0 : UInt8) ∉ line) :
    (∃ r, keyvalue (line ++ 0 :: rest) = some r ∧ Correct line rest r) ↔ ¬ RunsOn line := by
  constructor
  · rintro ⟨r, hr, hcorrect⟩ ⟨key, space, value, rfl, hne, hkey, hspacene, hspace, hvalue⟩
    cases space with
    | nil => exact hspacene rfl
    | cons s space =>
      have hassoc : key ++ (s :: space ++ value) ++ 0 :: rest = key ++ s :: (space ++ (value ++ 0 :: rest)) := by
        simp only [List.append_assoc, List.cons_append]
      rw [hassoc] at hr
      obtain ⟨-, -, hlt⟩ := keyvalue_runs_on key space value rest s hne hkey (hspace s List.mem_cons_self)
        (fun c hc => hspace c (List.mem_cons_of_mem s hc)) hvalue r hr
      have hinside := hcorrect.inside
      simp only [List.length_append, List.length_cons] at hinside
      omega
  · exact keyvalue_of_not_runsOn line rest h0

/-- **The scans of a call stay in the array** exactly if the line does not run on, or a byte behind its terminator ends
the last scan.
SOURCE: squid-2.6.STABLE2-urlfilter.patch:63-90 -/
theorem keyvalue_isSome_iff (line rest : Bytes) (h0 : (0 : UInt8) ∉ line) :
    (keyvalue (line ++ 0 :: rest)).isSome ↔ (RunsOn line → ∃ c ∈ rest, c ≠ 0 ∧ isvalue c = false) := by
  by_cases hruns : RunsOn line
  · rw [forall_prop_of_true hruns]
    exact keyvalue_isSome_of_runsOn line rest hruns
  · refine iff_of_true ?_ (fun h => absurd h hruns)
    obtain ⟨r, hr, -⟩ := keyvalue_of_not_runsOn line rest h0 hruns
    rw [hr]
    rfl

/-- **A value that ends at the terminator is scanned on**: `key v`, with a `w` behind the terminator. -/
theorem value_scanned_on :
    RunsOn (ascii "key v".toList) ∧
    keyvalue (ascii "key v".toList ++ [0, 0x77, 0x0A]) = some ⟨0, some 0, some 4,
      [0x6B, 0x65, 0x79, 0, 0x76, 0, 0x77, 0], 8⟩ ∧
    ¬ ∃ r, keyvalue (ascii "key v".toList ++ [0, 0x77, 0x0A]) = some r ∧
      Correct (ascii "key v".toList) [0x77, 0x0A] r := by
  have hr : keyvalue (ascii "key v".toList ++ [0, 0x77, 0x0A]) = some ⟨0, some 0, some 4,
      [0x6B, 0x65, 0x79, 0, 0x76, 0, 0x77, 0], 8⟩ := by decide
  refine ⟨⟨ascii "key".toList, [0x20], [0x76], rfl, by decide, by decide +kernel, by decide, by decide +kernel,
    by decide +kernel⟩, hr, ?_⟩
  rintro ⟨r, hr', hcorrect⟩
  rw [hr] at hr'
  cases hr'
  exact absurd hcorrect.inside (by decide)

/-- `keyvalue_correct_iff` for a line with its newline. -/
theorem keyvalue_newline :
    (∃ r, keyvalue (ascii "key v\n".toList ++ 0 :: []) = some r ∧ Correct (ascii "key v\n".toList) [] r) ↔
      ¬ RunsOn (ascii "key v\n".toList) :=
  keyvalue_correct_iff (ascii "key v\n".toList) [] (by decide)

end TTLinux.Analysis.UrlFilterKeyvalue
