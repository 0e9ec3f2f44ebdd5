import Mathlib.Data.List.TakeWhile
import TTLinux.Analysis.UrlFilterKeyvalue
import TTLinux.Lib.Hex

/-!
# What a config file is read to

`checkconfig` goes over the pieces of the file that `fgets` gives. `Holds` is what the config holds after some of their
keys and values: strings that live, with the values of the last lines for their keys. From it follow both ends of the
function, and `checkconfig_good_iff` says for which files and modification times it ends as it has to.
-/

set_option autoImplicit false

namespace TTLinux.Analysis.UrlFilterCheckconfig

open TTLinux.Lib TTLinux.Model.UrlFilterConfig
open TTLinux.Analysis.UrlFilterKeyvalue

/-! ## Keys and values of a file -/

/-- The key and the value of a line, if it has them. -/
def pairOf (line : Bytes) : Option (Bytes × Bytes) :=
  let key := (cstr line).takeWhile isalpha
  let line := (cstr line).dropWhile isalpha
  let space := line.takeWhile isspace
  let value := (line.dropWhile isspace).takeWhile isvalue
  if key ≠ [] ∧ space ≠ [] ∧ value ≠ [] then some (key, value) else none

def pairs (lines : List Bytes) : List (Bytes × Bytes) := lines.filterMap pairOf

/-- The lines of a file: what `fgets` takes with a buffer that is as large as the file. -/
def lines (file : Bytes) : List Bytes := piecesFrom file.length file.length file

/-- The value of the last line for a key. -/
def lastValue (key : Bytes) (ps : List (Bytes × Bytes)) : Option Bytes :=
  ((ps.filter fun kv => kv.1 = key).getLast?).map Prod.snd

/-- Categories that are no 32 bytes. -/
def Bad (kv : Bytes × Bytes) : Prop := kv.1 = categoriesKey ∧ kv.2.length ≠ 32

instance (kv : Bytes × Bytes) : Decidable (Bad kv) := inferInstanceAs (Decidable (_ ∧ _))

/-- **How the function has to end**: with 0 only if both strings are set, to the values of the last lines, the
categories being 32 hexadecimal digits; and with -1 only if the config has no pointer to a string that was freed. -/
structure Good (file : Option Bytes) (rc : ℤ) (cf : Config) (h : Heap) : Prop where
  accepted : rc = 0 → ∃ content t c, file = some content ∧
    cf.targeturl.map h.string = some (some t) ∧ lastValue targeturlKey (pairs (lines content)) = some t ∧
    cf.categories.map h.string = some (some c) ∧ lastValue categoriesKey (pairs (lines content)) = some c ∧
    c.length = 32 ∧ ∀ b ∈ c, IsHex b
  rejected : rc = -1 → ∀ p, cf.targeturl = some p ∨ cf.categories = some p → (h.string p).isSome

/-- **A file that is read to what it says**: no categories are refused, both keys are there, the last categories are
hexadecimal digits, and no line is cut so that a value is another one than that of the line. -/
structure Accepts (file : Bytes) : Prop where
  valid : ∀ kv ∈ pairs (pieces file), ¬ Bad kv
  targeturl : ∃ t, lastValue targeturlKey (pairs (pieces file)) = some t ∧
    lastValue targeturlKey (pairs (lines file)) = some t
  categories : ∃ c, lastValue categoriesKey (pairs (pieces file)) = some c ∧
    lastValue categoriesKey (pairs (lines file)) = some c ∧ ∀ b ∈ c, IsHex b

/-- **A file that sets neither string** before the first categories that are refused. -/
def SetsNothing (file : Bytes) : Prop :=
  ∀ kv ∈ (pairs (pieces file)).takeWhile fun kv => ¬ Bad kv, kv.1 ≠ targeturlKey ∧ kv.1 ≠ categoriesKey

/-- **The scans stay in the array** that holds `buf` in front of the first piece: whenever the string of a piece runs on,
a byte behind its terminator ends the scan. Nothing behind the first categories that are refused is read. -/
def StaysInArray : List Bytes → Bytes → Prop
  | [], _ => True
  | piece :: pieces, buf =>
    (RunsOn (cstr piece) →
      ∃ c ∈ (store buf 0 (piece ++ [0])).drop ((cstr piece).length + 1), c ≠ 0 ∧ isvalue c = false) ∧
    ((∀ kv, pairOf piece = some kv → ¬ Bad kv) →
      ∀ r, keyvalue (store buf 0 (piece ++ [0])) = some r → StaysInArray pieces r.buf)

/-- The modification time is not that of a fresh config, and the file, if it can be read, is one of the two, and is read
in the array. -/
def Condition (fs : FileSystem) (buf : Bytes) : Prop :=
  fs.stat = none ∨ fs.stat ≠ some 0 ∧
    ∀ file, fs.file = some file → (Accepts file ∨ SetsNothing file) ∧ StaysInArray (pieces file) buf

/-- INTERNAL: a run and what stops it. -/
theorem run_cut (p : UInt8 → Bool) (a b : Bytes) (ha : ∀ c ∈ a, p c) (hb : ∀ c ∈ b.head?, p c = false) :
    (a ++ b).takeWhile p = a ∧ (a ++ b).dropWhile p = b := by
  rw [List.takeWhile_append_of_pos ha, List.dropWhile_append_of_pos ha]
  cases b with
  | nil => exact ⟨List.append_nil a, rfl⟩
  | cons c b =>
    have hc := hb c rfl
    rw [List.takeWhile_cons_of_neg (by rw [hc]; exact Bool.false_ne_true), List.append_nil,
      List.dropWhile_cons_of_neg (by rw [hc]; exact Bool.false_ne_true)]
    exact ⟨rfl, rfl⟩

/-- INTERNAL: what is left begins with another byte. -/
theorem head_dropWhile (p : UInt8 → Bool) (s : Bytes) : ∀ c ∈ (s.dropWhile p).head?, p c = false := by
  intro c hc
  have h := List.head?_dropWhile_not p s
  rw [Option.mem_def.mp hc] at h
  exact h

/-- INTERNAL: the three runs of a line. -/
theorem pairOf_eq_some_iff (line k v : Bytes) : pairOf line = some (k, v) ↔ KeyValue (cstr line) k v := by
  generalize hs : cstr line = s
  unfold pairOf
  rw [hs]
  dsimp only
  constructor
  · intro h
    split_ifs at h with hne
    obtain ⟨hkey, hspace, hvalue⟩ := hne
    obtain ⟨rfl, rfl⟩ := Prod.mk.inj (Option.some.inj h)
    refine ⟨hkey, fun c hc => List.mem_takeWhile_imp hc, hvalue, fun c hc => List.mem_takeWhile_imp hc,
      (s.dropWhile isalpha).takeWhile isspace, ((s.dropWhile isalpha).dropWhile isspace).dropWhile isvalue, ?_, hspace,
      fun c hc => List.mem_takeWhile_imp hc, head_dropWhile isvalue _⟩
    rw [List.takeWhile_append_dropWhile, List.takeWhile_append_dropWhile, List.takeWhile_append_dropWhile]
  · rintro ⟨hkey, hletters, hvalue, hgood, space, tail, rfl, hspace, hspaces, htail⟩
    have hletter := head_isalpha space (v ++ tail) hspace hspaces
    have hblank := head_isspace v tail hgood fun hnil => absurd hnil hvalue
    obtain ⟨hk, hrest⟩ := run_cut isalpha k (space ++ (v ++ tail)) hletters hletter
    obtain ⟨hsp, hbody⟩ := run_cut isspace space (v ++ tail) hspaces hblank
    obtain ⟨hv, -⟩ := run_cut isvalue v tail hgood htail
    rw [hk, hrest, hsp, hbody, hv, if_pos ⟨hkey, hspace, hvalue⟩]

/-! ## Pieces and lines -/

/-- INTERNAL: what one `fgets` takes and what it leaves. -/
theorem fgets_append (n : ℕ) (file : Bytes) : (fgets n file).1 ++ (fgets n file).2 = file := by
  induction n generalizing file with
  | zero => rfl
  | succ n ih =>
    cases file with
    | nil => rfl
    | cons c file =>
      rw [fgets]
      split_ifs
      · rfl
      · exact congrArg (List.cons c) (ih file)

/-- INTERNAL: a line of a file that has not ended is not empty. -/
theorem fgets_length_pos (n : ℕ) (c : UInt8) (file : Bytes) : 0 < (fgets (n + 1) (c :: file)).1.length := by
  rw [fgets]
  split_ifs
  · exact Nat.one_pos
  · exact Nat.succ_pos _

/-- INTERNAL: enough rounds take all of the file. -/
theorem piecesFrom_flatten (n fuel : ℕ) (file : Bytes) (hn : 0 < n) (h : file.length ≤ fuel) :
    (piecesFrom n fuel file).flatten = file := by
  induction fuel generalizing file with
  | zero => rw [List.length_eq_zero_iff.mp (Nat.le_zero.mp h)]; rfl
  | succ fuel ih =>
    cases file with
    | nil => rfl
    | cons c file =>
      obtain ⟨n, rfl⟩ : ∃ k, n = k + 1 := ⟨n - 1, by omega⟩
      have hsplit := fgets_append (n + 1) (c :: file)
      have hpos := fgets_length_pos n c file
      have hlength := congrArg List.length hsplit
      rw [List.length_append] at hlength
      rw [piecesFrom, if_neg (List.cons_ne_nil c file), List.flatten_cons, ih _ (by omega)]
      exact hsplit

/-- INTERNAL: a line that fits is taken whole. -/
theorem fgets_eq_of_fits (n m : ℕ) (file : Bytes) (hm : file.length ≤ m) (h : (fgets m file).1.length ≤ n) :
    fgets n file = fgets m file := by
  induction n generalizing m file with
  | zero =>
    cases file with
    | nil => cases m <;> rfl
    | cons c file =>
      obtain ⟨m, rfl⟩ := Nat.exists_eq_succ_of_ne_zero (Nat.ne_of_gt (Nat.lt_of_lt_of_le (Nat.succ_pos _) hm))
      exact absurd h (Nat.not_le.mpr (fgets_length_pos m c file))
  | succ n ih =>
    cases file with
    | nil => cases m <;> rfl
    | cons c file =>
      obtain ⟨m, rfl⟩ := Nat.exists_eq_succ_of_ne_zero (Nat.ne_of_gt (Nat.lt_of_lt_of_le (Nat.succ_pos _) hm))
      rw [fgets] at h
      rw [fgets, fgets]
      split_ifs at h ⊢ with hnl
      · rfl
      · rw [ih m file (Nat.le_of_succ_le_succ hm) (Nat.le_of_succ_le_succ h)]

/-- INTERNAL: pieces of lines that all fit. -/
theorem piecesFrom_eq (n m fuel : ℕ) (file : Bytes) (hm : file.length ≤ m)
    (h : ∀ l ∈ piecesFrom m fuel file, l.length ≤ n) : piecesFrom n fuel file = piecesFrom m fuel file := by
  induction fuel generalizing file with
  | zero => rfl
  | succ fuel ih =>
    rw [piecesFrom] at h ⊢
    rw [piecesFrom]
    split_ifs at h ⊢ with hempty
    · rfl
    · have hfirst := fgets_eq_of_fits n m file hm (h _ List.mem_cons_self)
      have hlength := congrArg List.length (fgets_append m file)
      rw [List.length_append] at hlength
      rw [hfirst, ih _ (by omega) fun l hl => h l (List.mem_cons_of_mem _ hl)]

/-- **The pieces are the file**: nothing is left out between them.
SOURCE: squid-2.6.STABLE2-urlfilter.patch:104, 119 -/
theorem pieces_flatten (file : Bytes) : (pieces file).flatten = file :=
  piecesFrom_flatten (bufSize - 1) file.length file (by decide) le_rfl

/-- **A file without long lines is read line by line.**
SOURCE: squid-2.6.STABLE2-urlfilter.patch:104, 119 -/
theorem pieces_eq_lines (file : Bytes) (h : ∀ l ∈ lines file, l.length ≤ bufSize - 1) : pieces file = lines file :=
  piecesFrom_eq (bufSize - 1) file.length file.length file le_rfl h

/-! ## The loop -/

/-- INTERNAL: the value of a key after one more pair. -/
theorem lastValue_append (key : Bytes) (ps : List (Bytes × Bytes)) (k v : Bytes) :
    lastValue key (ps ++ [(k, v)]) = if k = key then some v else lastValue key ps := by
  unfold lastValue
  rw [List.filter_append]
  by_cases hk : k = key
  · rw [if_pos hk, List.filter_cons_of_pos (by simpa using hk), List.filter_nil, List.getLast?_concat]
    rfl
  · rw [if_neg hk, List.filter_cons_of_neg (by simpa using hk), List.filter_nil, List.append_nil]

/-- **What the config holds after some keys and values**: strings that live, the values of the last ones. -/
structure Holds (cf : Config) (h : Heap) (ps : List (Bytes × Bytes)) : Prop where
  targeturl : cf.targeturl.map h.string = (lastValue targeturlKey ps).map some
  categories : cf.categories.map h.string = (lastValue categoriesKey ps).map some
  below : ∀ p, cf.targeturl = some p ∨ cf.categories = some p → p < h.fresh
  length : ∀ c, lastValue categoriesKey ps = some c → c.length = 32

/-- INTERNAL: a configuration that was set to zero holds no pair. -/
theorem holds_zeroed (h : Heap) : Holds Config.zeroed h [] where
  targeturl := rfl
  categories := rfl
  below := by
    rintro p (hp | hp)
    · cases hp
    · cases hp
  length := by
    intro c hc
    cases hc

/-- INTERNAL: a string that is duplicated leaves the older ones. -/
theorem map_xstrdup (h : Heap) (s : Bytes) (p : Option ℕ) (hp : ∀ q, p = some q → q < h.fresh) :
    p.map (h.xstrdup s).2.string = p.map h.string := by
  cases p with
  | none => rfl
  | some q =>
    have hne : q ≠ h.fresh := Nat.ne_of_lt (hp q rfl)
    exact congrArg some (Function.update_of_ne hne _ _)

/-- INTERNAL: a copy of a string. -/
theorem string_xstrdup (h : Heap) (s : Bytes) : (h.xstrdup s).2.string (h.xstrdup s).1 = some s :=
  Function.update_self _ _ _

/-- INTERNAL: **one assignment**: it is refused for bad categories only, and otherwise the config holds one more pair. -/
theorem Holds.step (cf : Config) (h : Heap) (ps : List (Bytes × Bytes)) (hholds : Holds cf h ps) (k v : Bytes) :
    (assign k v cf h = none ∧ Bad (k, v)) ∨
      ∃ cf' h', assign k v cf h = some (cf', h') ∧ ¬ Bad (k, v) ∧ Holds cf' h' (ps ++ [(k, v)]) := by
  have hkeys : targeturlKey ≠ categoriesKey := by decide
  unfold assign
  by_cases hurl : k = targeturlKey
  · subst hurl
    rw [if_pos rfl]
    refine Or.inr ⟨_, _, rfl, fun hbad => hkeys hbad.1, ?_⟩
    constructor
    · rw [lastValue_append, if_pos rfl]
      exact congrArg some (string_xstrdup h v)
    · rw [lastValue_append, if_neg hkeys]
      exact (map_xstrdup h v cf.categories fun q hq => hholds.below q (Or.inr hq)).trans hholds.categories
    · rintro p (hp | hp)
      · cases hp
        exact Nat.lt_succ_self _
      · exact Nat.lt_succ_of_lt (hholds.below p (Or.inr hp))
    · intro c hc
      rw [lastValue_append, if_neg hkeys] at hc
      exact hholds.length c hc
  · rw [if_neg hurl]
    by_cases hcategories : k = categoriesKey
    · subst hcategories
      rw [if_pos rfl]
      by_cases hlength : v.length = 32
      · rw [if_pos hlength]
        refine Or.inr ⟨_, _, rfl, fun hbad => hbad.2 hlength, ?_⟩
        constructor
        · rw [lastValue_append, if_neg hurl]
          exact (map_xstrdup h v cf.targeturl fun q hq => hholds.below q (Or.inl hq)).trans hholds.targeturl
        · rw [lastValue_append, if_pos rfl]
          exact congrArg some (string_xstrdup h v)
        · rintro p (hp | hp)
          · exact Nat.lt_succ_of_lt (hholds.below p (Or.inl hp))
          · cases hp
            exact Nat.lt_succ_self _
        · intro c hc
          rw [lastValue_append, if_pos rfl] at hc
          cases hc
          exact hlength
      · rw [if_neg hlength]
        exact Or.inl ⟨rfl, rfl, hlength⟩
    · rw [if_neg hcategories]
      -- the other keys do not touch the two strings
      have hother : ∀ cf' : Config, cf'.targeturl = cf.targeturl → cf'.categories = cf.categories →
          Holds cf' h (ps ++ [(k, v)]) := by
        intro cf' hcf hcf'
        constructor
        · rw [lastValue_append, if_neg hurl, hcf]
          exact hholds.targeturl
        · rw [lastValue_append, if_neg hcategories, hcf']
          exact hholds.categories
        · rw [hcf, hcf']
          exact hholds.below
        · intro c hc
          rw [lastValue_append, if_neg hcategories] at hc
          exact hholds.length c hc
      right
      split_ifs
      · exact ⟨_, _, rfl, fun hbad => hcategories hbad.1, hother _ rfl rfl⟩
      · exact ⟨_, _, rfl, fun hbad => hcategories hbad.1, hother _ rfl rfl⟩
      · exact ⟨_, _, rfl, fun hbad => hcategories hbad.1, hother _ rfl rfl⟩

/-- INTERNAL: a piece in the array: its string, a terminator, and whatever was there. -/
theorem store_piece (buf piece : Bytes) : ∃ rest, store buf 0 (piece ++ [0]) = cstr piece ++ 0 :: rest := by
  have hstore : store buf 0 (piece ++ [0]) = piece ++ 0 :: buf.drop (piece.length + 1) := by
    unfold store
    rw [List.take_zero, List.nil_append, Nat.zero_add, List.length_append, List.length_singleton, List.append_assoc]
    rfl
  rw [hstore]
  obtain ⟨a, b, hsplit, ha, hb⟩ := exists_cut (· ≠ 0) piece
  obtain ⟨hcstr, -⟩ := run_cut (· ≠ 0) a b ha hb
  rw [hsplit]
  unfold cstr
  rw [hcstr]
  cases b with
  | nil => exact ⟨buf.drop ((a ++ []).length + 1), by rw [List.append_nil]⟩
  | cons c b =>
    have hc : c = 0 := by simpa using hb c rfl
    subst hc
    exact ⟨b ++ 0 :: buf.drop ((a ++ 0 :: b).length + 1), by rw [List.append_assoc, List.cons_append]⟩

/-- INTERNAL: the pieces that were read when the loop ends. -/
inductive Reads (ps : List (Bytes × Bytes)) : LoopEnd → Prop where
  | eof (cf : Config) (h : Heap) (holds : Holds cf h ps) (valid : ∀ kv ∈ ps, ¬ Bad kv) : Reads ps (.eof cf h)
  | error (cf : Config) (h : Heap) (before : List (Bytes × Bytes)) (bad : Bytes × Bytes) (behind : List (Bytes × Bytes))
      (split : ps = before ++ bad :: behind) (holds : Holds cf h before) (valid : ∀ kv ∈ before, ¬ Bad kv)
      (isBad : Bad bad) : Reads ps (.error cf h)

/-- INTERNAL: **the loop**, by induction on the pieces: the keys and values that it has come over are held. -/
theorem readLoop_reads (todo : List Bytes) (buf : Bytes) (cf : Config) (h : Heap) (ps : List (Bytes × Bytes))
    (hholds : Holds cf h ps) (hvalid : ∀ kv ∈ ps, ¬ Bad kv) (e : LoopEnd) (hloop : readLoop todo buf cf h = some e) :
    Reads (ps ++ pairs todo) e := by
  induction todo generalizing buf cf h ps with
  | nil =>
    rw [readLoop] at hloop
    cases hloop
    rw [pairs, List.filterMap_nil, List.append_nil]
    exact .eof cf h hholds hvalid
  | cons piece todo ih =>
    rw [readLoop] at hloop
    obtain ⟨r, hr, hloop⟩ := Option.bind_eq_some_iff.mp hloop
    obtain ⟨rest, hstore⟩ := store_piece buf piece
    rw [hstore] at hr
    rcases keyvalue_spec (cstr piece) rest (zero_notMem_cstr piece) r hr with ⟨hrc, hnot⟩ | ⟨hrc, k, v, hk, hv, hkv⟩
    · have hnone : pairOf piece = none := by
        apply Option.eq_none_iff_forall_ne_some.mpr
        rintro ⟨k, v⟩ hpair
        exact hnot k v ((pairOf_eq_some_iff piece k v).mp hpair)
      rw [if_pos hrc] at hloop
      rw [pairs, List.filterMap_cons_none hnone]
      exact ih r.buf cf h ps hholds hvalid hloop
    · have hpair := (pairOf_eq_some_iff piece _ _).mpr hkv
      rw [if_neg (by rw [hrc]; decide), hk, hv] at hloop
      rw [pairs, List.filterMap_cons_some hpair]
      rcases hholds.step cf h ps (cstr (r.buf.drop k)) (cstr (r.buf.drop v)) with
        ⟨hassign, hbad⟩ | ⟨cf', h', hassign, hgood, hholds'⟩
      · rw [Option.getD_some, Option.getD_some, hassign] at hloop
        cases hloop
        exact .error cf h ps _ _ rfl hholds hvalid hbad
      · rw [Option.getD_some, Option.getD_some, hassign] at hloop
        have hvalid' : ∀ kv ∈ ps ++ [(cstr (r.buf.drop k), cstr (r.buf.drop v))], ¬ Bad kv :=
          List.forall_mem_append.mpr ⟨hvalid, List.forall_mem_singleton.mpr hgood⟩
        have hrest := ih r.buf cf' h' _ hholds' hvalid' hloop
        rw [List.append_assoc, List.singleton_append] at hrest
        exact hrest

/-- Only categories are refused, and only those that are no 32 bytes. -/
theorem assign_eq_none_iff (k v : Bytes) (cf : Config) (h : Heap) : assign k v cf h = none ↔ Bad (k, v) := by
  unfold assign Bad
  have hkeys : targeturlKey ≠ categoriesKey := by decide
  by_cases hurl : k = targeturlKey
  · subst hurl
    rw [if_pos rfl]
    exact iff_of_false (Option.some_ne_none _) fun hbad => hkeys hbad.1
  · rw [if_neg hurl]
    by_cases hcategories : k = categoriesKey
    · rw [if_pos hcategories, and_iff_right hcategories]
      split_ifs with hlength
      · exact iff_of_false not_false (not_not.mpr hlength)
      · exact iff_of_true rfl hlength
    · rw [if_neg hcategories]
      refine iff_of_false ?_ fun hbad => hcategories hbad.1
      split_ifs <;> exact not_false

/-- **The loop comes to an end** exactly if its scans stay in the array, by induction on the pieces.
SOURCE: squid-2.6.STABLE2-urlfilter.patch:119-144 -/
theorem readLoop_isSome_iff (todo : List Bytes) (buf : Bytes) (cf : Config) (h : Heap) :
    (readLoop todo buf cf h).isSome ↔ StaysInArray todo buf := by
  induction todo generalizing buf cf h with
  | nil => exact iff_of_true rfl trivial
  | cons piece todo ih =>
    obtain ⟨rest, hstore⟩ := store_piece buf piece
    have hbehind : (cstr piece ++ 0 :: rest).drop ((cstr piece).length + 1) = rest := drop_behind _ _ 1
    have hscan := keyvalue_isSome_iff (cstr piece) rest (zero_notMem_cstr piece)
    rw [readLoop, StaysInArray, hstore, hbehind, ← hscan]
    cases hr : keyvalue (cstr piece ++ 0 :: rest) with
    | none => exact iff_of_false Bool.false_ne_true fun hstays => Bool.false_ne_true hstays.1
    | some r =>
      have hnext : (∀ r', some r = some r' → StaysInArray todo r'.buf) ↔ StaysInArray todo r.buf :=
        ⟨fun hall => hall r rfl, fun hstays r' heq => Option.some.inj heq ▸ hstays⟩
      rw [Option.bind_some, and_iff_right (show (some r).isSome from rfl), hnext]
      rcases keyvalue_spec (cstr piece) rest (zero_notMem_cstr piece) r hr with ⟨hrc, hnot⟩ | ⟨hrc, k, v, hk, hv, hkv⟩
      · have hvalid : ∀ kv, pairOf piece = some kv → ¬ Bad kv := fun kv hpair =>
          absurd ((pairOf_eq_some_iff piece kv.1 kv.2).mp hpair) (hnot kv.1 kv.2)
        rw [if_pos hrc, ih, forall_prop_of_true hvalid]
      · have hpair := (pairOf_eq_some_iff piece _ _).mpr hkv
        rw [if_neg (by rw [hrc]; decide), hk, hv, Option.getD_some, Option.getD_some]
        have hvalid : (∀ kv, pairOf piece = some kv → ¬ Bad kv) ↔
            assign (cstr (r.buf.drop k)) (cstr (r.buf.drop v)) cf h ≠ none := by
          rw [Ne, assign_eq_none_iff, hpair]
          exact ⟨fun hall => hall _ rfl, fun hgood kv heq => Option.some.inj heq ▸ hgood⟩
        rw [hvalid]
        cases hassign : assign (cstr (r.buf.drop k)) (cstr (r.buf.drop v)) cf h with
        | none => exact iff_of_true rfl fun hne => absurd rfl hne
        | some next =>
          have hne : some next ≠ none := Option.some_ne_none next
          rw [forall_prop_of_true hne]
          exact ih r.buf next.1 next.2

/-! ## The two ends -/

/-- INTERNAL: a key without value is in no pair. -/
theorem lastValue_eq_none_iff (key : Bytes) (ps : List (Bytes × Bytes)) :
    lastValue key ps = none ↔ ∀ kv ∈ ps, kv.1 ≠ key := by
  unfold lastValue
  rw [Option.map_eq_none_iff, List.getLast?_eq_none_iff, List.filter_eq_nil_iff]
  simp only [decide_eq_true_eq, ne_eq]

/-- INTERNAL: there is no target without its key. -/
theorem Holds.targeturl_none (cf : Config) (h : Heap) (ps : List (Bytes × Bytes)) (hholds : Holds cf h ps) :
    cf.targeturl = none ↔ ∀ kv ∈ ps, kv.1 ≠ targeturlKey := by
  rw [← lastValue_eq_none_iff, ← Option.map_eq_none_iff (f := h.string), hholds.targeturl, Option.map_eq_none_iff]

/-- INTERNAL: and no category without its key. -/
theorem Holds.categories_none (cf : Config) (h : Heap) (ps : List (Bytes × Bytes)) (hholds : Holds cf h ps) :
    cf.categories = none ↔ ∀ kv ∈ ps, kv.1 ≠ categoriesKey := by
  rw [← lastValue_eq_none_iff, ← Option.map_eq_none_iff (f := h.string), hholds.categories, Option.map_eq_none_iff]

/-- INTERNAL: both strings are freed. -/
theorem xfreeIf_string (h : Heap) (cf : Config) (p : ℕ) (hp : cf.targeturl = some p ∨ cf.categories = some p) :
    ((h.xfreeIf cf.categories).xfreeIf cf.targeturl).string p = none := by
  have hfree : ∀ (h : Heap) (q : ℕ), (h.xfree q).string q = none := fun h q => Function.update_self _ _ _
  have hkeep : ∀ (h : Heap) (q : Option ℕ), h.string p = none → (h.xfreeIf q).string p = none := by
    intro h q hnone
    cases q with
    | none => exact hnone
    | some q =>
      by_cases hpq : p = q
      · rw [hpq]
        exact hfree h q
      · exact (Function.update_of_ne hpq _ _).trans hnone
  rcases hp with hp | hp
  · rw [hp]
    exact hfree _ p
  · apply hkeep
    rw [hp]
    exact hfree _ p

/-- INTERNAL: **the error exit** is good exactly if nothing was set. -/
theorem fail_good_iff (file : Option Bytes) (cf : Config) (h : Heap) (ps : List (Bytes × Bytes)) (hholds : Holds cf h ps) :
    Good file (fail cf h).1 (fail cf h).2.1 (fail cf h).2.2 ↔
      ∀ kv ∈ ps, kv.1 ≠ targeturlKey ∧ kv.1 ≠ categoriesKey := by
  have hboth : (∀ kv ∈ ps, kv.1 ≠ targeturlKey ∧ kv.1 ≠ categoriesKey) ↔ cf.targeturl = none ∧ cf.categories = none := by
    rw [hholds.targeturl_none, hholds.categories_none]
    exact forall₂_and
  rw [hboth]
  constructor
  · intro hgood
    have hnone : ∀ p, ¬ (cf.targeturl = some p ∨ cf.categories = some p) := by
      intro p hp
      have hlive := hgood.rejected rfl p hp
      dsimp only [fail] at hlive
      rw [xfreeIf_string h cf p hp] at hlive
      cases hlive
    exact ⟨Option.eq_none_iff_forall_ne_some.mpr fun p hp => hnone p (Or.inl hp),
      Option.eq_none_iff_forall_ne_some.mpr fun p hp => hnone p (Or.inr hp)⟩
  · rintro ⟨hurl, hcategories⟩
    refine ⟨fun h0 => absurd h0 (show ¬ (-1 : ℤ) = 0 by decide), ?_⟩
    rintro - p (hp | hp)
    · rw [show (fail cf h).2.1.targeturl = cf.targeturl from rfl, hurl] at hp
      cases hp
    · rw [show (fail cf h).2.1.categories = cf.categories from rfl, hcategories] at hp
      cases hp

/-- INTERNAL: **the end with both strings set** is good exactly if they are those of the lines and hexadecimal. -/
theorem accepted_good_iff (file : Bytes) (cf : Config) (h : Heap) (hholds : Holds cf h (pairs (pieces file)))
    (hvalid : ∀ kv ∈ pairs (pieces file), ¬ Bad kv) : Good (some file) 0 cf h ↔ Accepts file := by
  constructor
  · intro hgood
    obtain ⟨content, t, c, hfile, hturl, hlturl, hcat, hlcat, -, hhex⟩ := hgood.accepted rfl
    cases hfile
    rw [hholds.targeturl] at hturl
    rw [hholds.categories] at hcat
    obtain ⟨t', ht', heqt⟩ := Option.map_eq_some_iff.mp hturl
    obtain ⟨c', hc', heqc⟩ := Option.map_eq_some_iff.mp hcat
    cases heqt
    cases heqc
    exact ⟨hvalid, ⟨t, ht', hlturl⟩, ⟨c, hc', hlcat, hhex⟩⟩
  · rintro ⟨-, ⟨t, ht, hlturl⟩, ⟨c, hc, hlcat, hhex⟩⟩
    refine ⟨fun _ => ⟨file, t, c, rfl, ?_, hlturl, ?_, hlcat, hholds.length c hc, hhex⟩, fun h1 => absurd h1 (by decide)⟩
    · rw [hholds.targeturl, ht]
      rfl
    · rw [hholds.categories, hc]
      rfl

/-- INTERNAL: the pairs before the first bad one. -/
theorem takeWhile_valid (before : List (Bytes × Bytes)) (bad : Bytes × Bytes) (behind : List (Bytes × Bytes))
    (hvalid : ∀ kv ∈ before, ¬ Bad kv) (hbad : Bad bad) :
    (before ++ bad :: behind).takeWhile (fun kv => ¬ Bad kv) = before := by
  rw [List.takeWhile_append_of_pos (by simpa using hvalid), List.takeWhile_cons_of_neg (by simpa using hbad),
    List.append_nil]

/-- INTERNAL: a file without bad categories sets nothing if no key and value of it does. -/
theorem setsNothing_of_valid (file : Bytes) (hvalid : ∀ kv ∈ pairs (pieces file), ¬ Bad kv) :
    SetsNothing file ↔ ∀ kv ∈ pairs (pieces file), kv.1 ≠ targeturlKey ∧ kv.1 ≠ categoriesKey := by
  have hall : (pairs (pieces file)).takeWhile (fun kv => ¬ Bad kv) = pairs (pieces file) :=
    List.takeWhile_eq_self_iff.mpr (by simpa using hvalid)
  unfold SetsNothing
  rw [hall]

/-- INTERNAL: a file that sets nothing accepts nothing. -/
theorem not_accepts_of_missing (file : Bytes)
    (h : (∀ kv ∈ pairs (pieces file), kv.1 ≠ targeturlKey) ∨ ∀ kv ∈ pairs (pieces file), kv.1 ≠ categoriesKey) :
    ¬ Accepts file := by
  rintro ⟨-, ⟨t, ht, -⟩, ⟨c, hc, -⟩⟩
  rcases h with h | h
  · rw [(lastValue_eq_none_iff _ _).mpr h] at ht
    cases ht
  · rw [(lastValue_eq_none_iff _ _).mpr h] at hc
    cases hc

/-- INTERNAL: a config without strings. -/
theorem good_of_unset (file : Option Bytes) (h : Heap) : Good file (-1) Config.zeroed h where
  accepted := fun h0 => absurd h0 (by decide)
  rejected := by
    rintro - p (hp | hp)
    · cases hp
    · cases hp

/-- INTERNAL: **a file that is read**, at either end of the loop. -/
theorem read_good_iff (file : Bytes) (e : LoopEnd) (rc : ℤ) (cf : Config) (h : Heap)
    (hreads : Reads (pairs (pieces file)) e) (hend : conclude e = (rc, cf, h)) :
    Good (some file) rc cf h ↔ Accepts file ∨ SetsNothing file := by
  cases hreads with
  | eof cf₁ h₁ hholds hvalid =>
    have hnothing := setsNothing_of_valid file hvalid
    rw [conclude] at hend
    by_cases hurl : cf₁.targeturl = none
    · have hmissing := (hholds.targeturl_none cf₁ h₁ _).mp hurl
      rw [if_pos hurl] at hend
      have hgood := fail_good_iff (some file) cf₁ h₁ _ hholds
      rw [hend] at hgood
      rw [hgood, or_iff_right (not_accepts_of_missing file (Or.inl hmissing)), hnothing]
    · rw [if_neg hurl] at hend
      by_cases hcategories : cf₁.categories = none
      · have hmissing := (hholds.categories_none cf₁ h₁ _).mp hcategories
        rw [if_pos hcategories] at hend
        have hgood := fail_good_iff (some file) cf₁ h₁ _ hholds
        rw [hend] at hgood
        rw [hgood, or_iff_right (not_accepts_of_missing file (Or.inr hmissing)), hnothing]
      · rw [if_neg hcategories] at hend
        cases hend
        have hset : ¬ SetsNothing file := by
          rw [hnothing]
          exact fun hall => hurl ((hholds.targeturl_none cf h _).mpr fun kv hkv => (hall kv hkv).1)
        rw [accepted_good_iff file cf h hholds hvalid, or_iff_left hset]
  | error cf₁ h₁ before bad behind hsplit hholds hvalid hbad =>
    rw [conclude] at hend
    have hgood := fail_good_iff (some file) cf₁ h₁ _ hholds
    rw [hend] at hgood
    have hrefused : ¬ Accepts file := by
      intro haccepts
      exact haccepts.valid bad (by rw [hsplit]; exact List.mem_append_right _ List.mem_cons_self) hbad
    rw [hgood, or_iff_right hrefused]
    unfold SetsNothing
    rw [hsplit, takeWhile_valid before bad behind hvalid hbad]

/-- INTERNAL: a file that is read ends with the condition, if it is read in the array. -/
theorem readLoop_good_iff (file buf : Bytes) (h : Heap) :
    (∃ rc cf h', (readLoop (pieces file) buf Config.zeroed h).map conclude = some (rc, cf, h') ∧
      Good (some file) rc cf h') ↔ (Accepts file ∨ SetsNothing file) ∧ StaysInArray (pieces file) buf := by
  have hreads := fun e => readLoop_reads (pieces file) buf Config.zeroed h [] (holds_zeroed h)
    (fun kv hkv => absurd hkv List.not_mem_nil) e
  rw [← readLoop_isSome_iff (pieces file) buf Config.zeroed h]
  cases hloop : readLoop (pieces file) buf Config.zeroed h with
  | none =>
    apply iff_of_false
    · rintro ⟨rc, cf, h', hret, -⟩
      cases hret
    · exact fun hboth => Bool.false_ne_true hboth.2
  | some e =>
    have hgood := read_good_iff file e (conclude e).1 (conclude e).2.1 (conclude e).2.2 (hreads e hloop) rfl
    rw [and_iff_left (show (some e).isSome from rfl), ← hgood]
    constructor
    · rintro ⟨rc, cf, h', hret, hend⟩
      rw [Option.map_some, Option.some.injEq] at hret
      rw [hret]
      exact hend
    · exact fun hend => ⟨_, _, _, rfl, hend⟩

/-- **A fresh config ends as it has to exactly under the condition**: a modification time of zero is taken for that of
the config, so that nothing is read; 32 bytes are taken for categories without a look at the digits; behind the error
exit the config still points to the strings that were freed, if one was set; and the scan of a line without its newline
may leave the array.
SOURCE: squid-2.6.STABLE2-urlfilter.patch:100-161 -/
theorem checkconfig_good_iff (fs : FileSystem) (buf : Bytes) (h : Heap) :
    (∃ rc cf h', checkconfig fs buf Config.zeroed h = some (rc, cf, h') ∧ Good fs.file rc cf h') ↔
      Condition fs buf := by
  unfold checkconfig Condition
  cases hstat : fs.stat with
  | none => exact iff_of_true ⟨-1, Config.zeroed, h, rfl, good_of_unset fs.file h⟩ (Or.inl rfl)
  | some stMtime =>
    have hmtime : Config.zeroed.mtime = 0 := rfl
    dsimp only
    rw [hmtime]
    by_cases hzero : stMtime = 0
    · rw [if_pos hzero]
      apply iff_of_false
      · rintro ⟨rc, cf, h', hret, hgood⟩
        cases hret
        obtain ⟨_, _, _, -, hturl, -⟩ := hgood.accepted rfl
        cases hturl
      · rintro (hnone | ⟨hne, -⟩)
        · cases hnone
        · exact hne (congrArg some hzero)
    · rw [if_neg hzero, or_iff_right (Option.some_ne_none stMtime),
        and_iff_right fun heq => hzero (Option.some.inj heq)]
      cases hfile : fs.file with
      | none => exact iff_of_true ⟨-1, Config.zeroed, h, rfl, good_of_unset none h⟩ fun file hnone => by cases hnone
      | some file =>
        refine (readLoop_good_iff file buf h).trans ⟨?_, fun hall => hall file rfl⟩
        intro hgood file' heq
        cases heq
        exact hgood

/-! ## Three files -/

/-- A heap without strings. -/
def emptyHeap : Heap := ⟨fun _ => none, 0⟩

/-- An array of zeros. -/
def zeros : Bytes := List.replicate bufSize 0

/-- A file with a target only. -/
def targetOnly : FileSystem := ⟨some 1, some (ascii "targeturl u\n".toList)⟩

/-- A file that is complete, but was modified at time 0. -/
def ancient : FileSystem :=
  ⟨some 0, some (ascii "targeturl u\ncategories 0000000000000000380000600001F803\n".toList)⟩

/-- A file whose categories are no digits. -/
def noDigits : FileSystem :=
  ⟨some 1, some (ascii "targeturl u\ncategories gggggggggggggggggggggggggggggggg\n".toList)⟩

/-- INTERNAL: what a call returns, and what the pointers lead to. -/
theorem result_of_view (fs : FileSystem) (view : ℤ × Option (Option Bytes) × Option (Option Bytes))
    (hview : (checkconfig fs zeros Config.zeroed emptyHeap).map
      (fun r => (r.1, r.2.1.targeturl.map r.2.2.string, r.2.1.categories.map r.2.2.string)) = some view) :
    ∃ cf h, checkconfig fs zeros Config.zeroed emptyHeap = some (view.1, cf, h) ∧
      cf.targeturl.map h.string = view.2.1 ∧ cf.categories.map h.string = view.2.2 := by
  obtain ⟨⟨rc, cf, h⟩, hret, rfl⟩ := Option.map_eq_some_iff.mp hview
  exact ⟨cf, h, hret, rfl, rfl⟩

/-- **Three calls that end otherwise than they have to**: 0 with nothing set for a modification time of zero, -1 with a
pointer to a string that was freed, and 0 with categories that are no digits. -/
theorem three_bad_ends :
    (checkconfig ancient zeros Config.zeroed emptyHeap = some (0, Config.zeroed, emptyHeap) ∧
      ¬ Good ancient.file 0 Config.zeroed emptyHeap) ∧
    (∃ cf h, checkconfig targetOnly zeros Config.zeroed emptyHeap = some (-1, cf, h) ∧
      ¬ Good targetOnly.file (-1) cf h) ∧
    ∃ cf h, checkconfig noDigits zeros Config.zeroed emptyHeap = some (0, cf, h) ∧ ¬ Good noDigits.file 0 cf h := by
  refine ⟨⟨rfl, ?_⟩, ?_, ?_⟩
  · intro hgood
    obtain ⟨_, _, _, -, hturl, -⟩ := hgood.accepted rfl
    cases hturl
  · obtain ⟨cf, h, hret, hurl, -⟩ := result_of_view targetOnly (-1, some none, none) (by decide +kernel)
    refine ⟨cf, h, hret, ?_⟩
    intro hgood
    obtain ⟨p, hp, hfreed⟩ := Option.map_eq_some_iff.mp hurl
    have hlive := hgood.rejected rfl p (Or.inl hp)
    rw [hfreed] at hlive
    cases hlive
  · obtain ⟨cf, h, hret, -, hcategories⟩ := result_of_view noDigits
      (0, some (some (ascii "u".toList)), some (some (ascii "gggggggggggggggggggggggggggggggg".toList))) (by decide +kernel)
    refine ⟨cf, h, hret, ?_⟩
    intro hgood
    obtain ⟨_, _, c, -, -, -, hc, -, -, hhex⟩ := hgood.accepted rfl
    rw [hcategories] at hc
    cases hc
    exact absurd (hhex 0x67 List.mem_cons_self) (by decide)

/-- A complete file. -/
def complete : FileSystem :=
  ⟨some 1, some (ascii "targeturl u\ncategories 0000000000000000380000600001F803\n".toList)⟩

/-- `checkconfig_good_iff` for a complete file. -/
theorem complete_good : ∃ rc cf h', checkconfig complete zeros Config.zeroed emptyHeap = some (rc, cf, h') ∧
    Good complete.file rc cf h' := by
  apply (checkconfig_good_iff complete zeros emptyHeap).mpr
  refine Or.inr ⟨by decide, ?_⟩
  rintro file ⟨⟩
  have hstays := (readLoop_isSome_iff
    (pieces (ascii "targeturl u\ncategories 0000000000000000380000600001F803\n".toList)) zeros Config.zeroed
    emptyHeap).mp (by decide +kernel)
  exact ⟨Or.inl ⟨by decide +kernel, ⟨ascii "u".toList, by decide +kernel, by decide +kernel⟩,
    ⟨ascii "0000000000000000380000600001F803".toList, by decide +kernel, by decide +kernel, by decide +kernel⟩⟩,
    hstays⟩

/-- Without its last newline the same file has the last scan leave an array of zeros. -/
example : (readLoop (pieces (ascii "targeturl u\ncategories 0000000000000000380000600001F803".toList)) zeros
    Config.zeroed emptyHeap).isSome = false := by
  decide +kernel

end TTLinux.Analysis.UrlFilterCheckconfig
