import Mathlib.Tactic.Linarith
import TTLinux.Model.Greylist

/-!
# Cleanup and expiry of the greylist

`opendb` deletes rows by comparing texts, `find_entry` deletes a row by comparing numbers. The
first part says what the two time functions compute; the second part shows that the cleanup at
some time deletes the entries that `find_entry` takes for expired at that time, and no others.
-/

set_option autoImplicit false

namespace TTLinux.Analysis.GreylistCleanup

open TTLinux.Lib TTLinux.Model.Greylist

/-! ## Times as texts -/

/-- Eight lower-case hexadecimal digits. -/
def IsTimestamp (ts : Bytes) : Prop := ts.length = 8 ∧ ∀ c ∈ ts, IsLowerHex c

/-- INTERNAL: the loops store the digits from the lowest one on and fill up with zeros. -/
theorem timeAsStringLoop_eq (i n : ℕ) (ts : Bytes) (hn : n < 16 ^ i) :
    timeAsStringLoop i n ts = some (hexText i n ++ ts) := by
  induction i generalizing n ts with
  | zero =>
    obtain rfl : n = 0 := by simpa using hn
    rfl
  | succ i ih =>
    rw [timeAsStringLoop]
    split_ifs with h0
    · rw [h0, hexText_zero]
    · have hdiv : n / 16 < 16 ^ i := by
        apply Nat.div_lt_of_lt_mul
        rw [← pow_succ']
        exact hn
      rw [ih (n / 16) _ hdiv, hexText_succ, List.append_assoc]
      rfl

/-- INTERNAL: **a time as text** is its eight digits. -/
theorem timeAsString_eq (t : ℤ) (h0 : 0 ≤ t) (hlt : t < 2 ^ 32) : timeAsString t = some (hexText 8 t.toNat) := by
  rw [timeAsString, if_neg (by omega), timeAsStringLoop_eq 8 t.toNat [] (by omega), List.append_nil]

/-- INTERNAL: eight hexadecimal digits are a timestamp. -/
theorem isTimestamp_hexText (n : ℕ) : IsTimestamp (hexText 8 n) :=
  ⟨length_hexText 8 n, isLowerHex_hexText 8 n⟩

/-- INTERNAL: the loop of the parser on digits. -/
theorem parseTimeStringLoop_eq (s : Bytes) (ts : ℤ) (hs : ∀ c ∈ s, IsLowerHex c) :
    parseTimeStringLoop s ts = ts * 16 ^ s.length + hexValue s := by
  induction s generalizing ts with
  | nil => simp [parseTimeStringLoop, hexValue]
  | cons c s ih =>
    have hc := hs c List.mem_cons_self
    have hrest := fun ts => ih ts fun c hc => hs c (List.mem_cons_of_mem _ hc)
    have hround : parseTimeStringLoop (c :: s) ts = parseTimeStringLoop s (ts * 16 + nibble c) := by
      simp only [IsLowerHex, UInt8.le_iff_toNat_le, UInt8.reduceToNat] at hc
      simp only [parseTimeStringLoop, nibble, UInt8.le_iff_toNat_le, UInt8.reduceToNat]
      split_ifs <;> first | omega | (congr 2; omega)
    rw [hround, hrest, hexValue, List.length_cons]
    push_cast
    ring

/-- INTERNAL: **a timestamp is read as its value.** -/
theorem parseTimeString_eq (ts : Bytes) (h : IsTimestamp ts) : parseTimeString ts = hexValue ts := by
  rw [parseTimeString, List.take_left' h.1, parseTimeStringLoop_eq ts 0 h.2]
  simp

/-- INTERNAL: the time is read back from them. -/
theorem parseTimeString_hexText (t : ℤ) (h0 : 0 ≤ t) (hlt : t < 2 ^ 32) :
    parseTimeString (hexText 8 t.toNat) = t := by
  rw [parseTimeString_eq _ (isTimestamp_hexText _), hexValue_hexText, Nat.mod_eq_of_lt (by omega)]
  omega

/-- INTERNAL: **the comparison of texts** in the cleanup is the comparison of ages. -/
theorem timestamp_lt_iff (ts : Bytes) (h : IsTimestamp ts) (now : ℤ) (limit : ℕ) (hle : limit ≤ now)
    (hlt : now < 2 ^ 32) :
    ts < hexText 8 (now - limit).toNat ↔ now - parseTimeString ts > limit := by
  rw [← hexValue_lt_hexValue ts _ h.2 (isLowerHex_hexText 8 _) (by rw [h.1, length_hexText]),
    hexValue_hexText, Nat.mod_eq_of_lt (by omega), parseTimeString_eq ts h]
  omega

/-- INTERNAL: a timestamp is not empty. -/
theorem timestamp_head_ne_zero (ts : Bytes) (h : IsTimestamp ts) : ts.headD 0 ≠ 0 := by
  obtain ⟨hlen, hlower⟩ := h
  cases ts with
  | nil => simp at hlen
  | cons c ts =>
    rintro (rfl : c = 0)
    exact absurd (hlower 0 List.mem_cons_self) (by decide)

/-! ## The cleanup -/

/-- INTERNAL: an entry that is expired stays so. -/
theorem expired_mono (cfg : Settings) (now now' : ℤ) (hlater : now ≤ now') (e : Entry)
    (h : expired cfg now e = true) : expired cfg now' e = true := by
  simp only [expired, Bool.or_eq_true, Bool.and_eq_true, decide_eq_true_eq] at h ⊢
  rcases h with ⟨hage, hflag⟩ | ⟨hage, hflag⟩
  · exact Or.inl ⟨by omega, hflag⟩
  · exact Or.inr ⟨by omega, hflag⟩

section Cleanup

variable (cfg : Settings) (now : ℤ)
variable (hwait : cfg.maxWait ≤ now) (hgood : cfg.acceptGood ≤ now) (hnow : now < 2 ^ 32)

include hwait hgood hnow in
/-- INTERNAL: at such times every buffer of the cleanup holds its text. -/
theorem cleanup_eq (d : Database) :
    cleanup cfg now d = some
      { d with
        greylist := deleteOlder flagGood (hexText 8 (now - cfg.acceptGood).toNat)
          (deleteOlder flagWaiting (hexText 8 (now - cfg.maxWait).toNat) d.greylist)
        lastCleanup := d.lastCleanup.map fun _ => hexText 8 now.toNat } := by
  have hw := timeAsString_eq (now - cfg.maxWait) (by omega) (by omega)
  have hg := timeAsString_eq (now - cfg.acceptGood) (by omega) (by omega)
  have ht := timeAsString_eq now (by omega) hnow
  simp [cleanup, hw, hg, ht]

include hwait hgood hnow in
/-- INTERNAL: **the cleanup deletes the expired entries** and nothing else. -/
theorem lookup_cleanup (table : KeyedTable Triple Entry)
    (htimes : ∀ t e, table.lookup t = some e → IsTimestamp e.timestamp) (t : Triple) :
    (deleteOlder flagGood (hexText 8 (now - cfg.acceptGood).toNat)
      (deleteOlder flagWaiting (hexText 8 (now - cfg.maxWait).toNat) table)).lookup t =
      (table.lookup t).filter fun e => !expired cfg now e := by
  rw [deleteOlder, deleteOlder, KeyedTable.lookup_deleteWhere, KeyedTable.lookup_deleteWhere]
  cases hl : table.lookup t with
  | none => rfl
  | some e =>
    have hts := htimes t e hl
    have hw := timestamp_lt_iff e.timestamp hts now cfg.maxWait hwait hnow
    have hg := timestamp_lt_iff e.timestamp hts now cfg.acceptGood hgood hnow
    have hboth : (!expired cfg now e) =
        (!decide (e.flag = flagWaiting ∧ e.timestamp < hexText 8 (now - cfg.maxWait).toNat) &&
          !decide (e.flag = flagGood ∧ e.timestamp < hexText 8 (now - cfg.acceptGood).toNat)) := by
      rw [← Bool.not_or]
      congr 1
      rw [Bool.eq_iff_iff]
      simp only [expired, Bool.or_eq_true, Bool.and_eq_true, decide_eq_true_eq, hw, hg]
      tauto
    simp only [Option.filter_some, hboth]
    cases decide (e.flag = flagWaiting ∧ e.timestamp < hexText 8 (now - cfg.maxWait).toNat) with
    | true => rfl
    | false => simp only [Bool.not_false, Bool.true_and, if_true, Option.filter_some]

end Cleanup

/-- INTERNAL: `opendb` runs the cleanup when the last one is older than `max_wait`. -/
theorem opendb_cleanup (cfg : Settings) (now : ℤ) (s : State) (d d' : Database) (last : Bytes)
    (hfile : s.file = some d) (hversion : d.version = some dbVersion) (hlast : d.lastCleanup = some last)
    (hhead : last.headD 0 ≠ 0) (hold : now - parseTimeString last > cfg.maxWait)
    (hcleanup : cleanup cfg now d = some d') :
    opendb cfg now s = (.returned 0, { s with db := true, file := some d' }.setParameter 0 .dangling) := by
  simp only [opendb, hfile, hversion, ne_eq, not_true_eq_false, if_false, hlast, if_neg hhead, if_pos hold,
    hcleanup]

/-! ## The lookup -/

/-- What `find_entry` answers for the row it finds. -/
def answer (cfg : Settings) (now : ℤ) : Option Entry → ℤ
  | none => -1
  | some e =>
    if e.timestamp.headD 0 = 0 then -1
    else if expired cfg now e then -1
    else if e.flag = flagGood ∨ now - parseTimeString e.timestamp ≥ cfg.minReject then 1
    else 0

/-- INTERNAL: the parameters of the statements after they were set. -/
@[simp] theorem setTriple_whereTriple (s : State) (t : Triple) : (s.setTriple t).whereTriple = some t := by
  simp [State.setTriple, State.setParameter, State.whereTriple, State.glParameter]

/-- INTERNAL: setting parameters leaves the table. -/
@[simp] theorem setTriple_greylist (s : State) (t : Triple) : (s.setTriple t).greylist = s.greylist := rfl

/-- INTERNAL: and the data base. -/
@[simp] theorem setTriple_db (s : State) (t : Triple) : (s.setTriple t).db = s.db := rfl

/-- INTERNAL: `find_entry` answers by the row of its triple. -/
theorem findEntry_answer (cfg : Settings) (now : ℤ) (t : Triple) (s : State) (hdb : s.db = true) :
    (findEntry cfg now t s).1 = .returned (answer cfg now (s.greylist.lookup t)) := by
  simp only [findEntry, setTriple_db, hdb, Bool.not_true, Bool.false_eq_true, if_false,
    setTriple_whereTriple, setTriple_greylist, Option.bind_some]
  cases s.greylist.lookup t with
  | none => rfl
  | some e =>
    simp only [answer]
    split_ifs <;> rfl

/-- The entries that `find_entry` does not answer with a negative number. -/
def Live (cfg : Settings) (now : ℤ) (s : State) (t : Triple) (e : Entry) : Prop :=
  s.greylist.lookup t = some e ∧ ∃ v : ℤ, 0 ≤ v ∧ (findEntry cfg now t s).1 = .returned v

/-- INTERNAL: expired entries do not matter to a later lookup. -/
theorem answer_filter (cfg : Settings) (now now' : ℤ) (hlater : now ≤ now') (e : Option Entry) :
    answer cfg now' (e.filter fun e => !expired cfg now e) = answer cfg now' e := by
  cases e with
  | none => rfl
  | some e =>
    by_cases h : expired cfg now e = true
    · have h' := expired_mono cfg now now' hlater e h
      simp [Option.filter, h, answer, h']
    · simp [Option.filter, h]

/-- INTERNAL: an entry with a nonnegative answer is not expired. -/
theorem not_expired_of_answer (cfg : Settings) (now : ℤ) (e : Entry) (h : 0 ≤ answer cfg now (some e)) :
    expired cfg now e = false := by
  by_contra hne
  simp [answer, Bool.not_eq_false _ |>.mp hne] at h

/-- **The cleanup does not change what is found.** On a table with eight-digit timestamps the cleanup
of `opendb` at a time that is not before the limits goes through; afterwards, at that time or
later, `find_entry` returns for every triple what it returns without the cleanup, and the entries
that it treats as live are the same.
SOURCE: greylisting-spp-sqlite3.patch:96-138, 260-354 -/
theorem cleanup_keeps_findEntry (cfg : Settings) (now now' : ℤ) (hwait : cfg.maxWait ≤ now)
    (hgood : cfg.acceptGood ≤ now) (hnow : now < 2 ^ 32) (hlater : now ≤ now') (s : State) (d : Database)
    (hdb : s.db = true) (hfile : s.file = some d)
    (htimes : ∀ t e, d.greylist.lookup t = some e → IsTimestamp e.timestamp) :
    ∃ d', cleanup cfg now d = some d' ∧
      (∀ t, (findEntry cfg now' t { s with file := some d' }).1 = (findEntry cfg now' t s).1) ∧
      (∀ t e, Live cfg now' { s with file := some d' } t e ↔ Live cfg now' s t e) ∧
      ∀ last, d.version = some dbVersion → d.lastCleanup = some last → last.headD 0 ≠ 0 →
        now - parseTimeString last > cfg.maxWait → (opendb cfg now s).2.file = some d' := by
  have hcleanup := cleanup_eq cfg now hwait hgood hnow d
  have htable : s.greylist = d.greylist := by simp [State.greylist, hfile]
  refine ⟨_, hcleanup, ?_⟩
  generalize hs' : ({ s with file := _ } : State) = s'
  have hdb' : s'.db = true := by rw [← hs', hdb]
  have hlookup : ∀ t, s'.greylist.lookup t = (s.greylist.lookup t).filter fun e => !expired cfg now e := by
    intro t
    rw [← hs', htable]
    exact lookup_cleanup cfg now hwait hgood hnow d.greylist htimes t
  have hfind : ∀ t, (findEntry cfg now' t s').1 = (findEntry cfg now' t s).1 := by
    intro t
    rw [findEntry_answer cfg now' t s' hdb', findEntry_answer cfg now' t s hdb, hlookup,
      answer_filter cfg now now' hlater]
  refine ⟨hfind, fun t e => ?_, ?_⟩
  · rw [Live, Live, hfind t, hlookup]
    constructor
    · rintro ⟨hsome, hlive⟩
      exact ⟨(Option.filter_eq_some_iff.mp hsome).1, hlive⟩
    · rintro ⟨hsome, v, hv, hret⟩
      refine ⟨Option.filter_eq_some_iff.mpr ⟨hsome, ?_⟩, v, hv, hret⟩
      rw [findEntry_answer cfg now' t s hdb, hsome] at hret
      have hanswer : 0 ≤ answer cfg now' (some e) := by
        rw [Outcome.returned.inj hret]
        exact hv
      have hnot := not_expired_of_answer cfg now' e hanswer
      by_contra hexp
      rw [expired_mono cfg now now' hlater e (by simpa using hexp)] at hnot
      contradiction
  · intro last hversion hlast hhead hold
    rw [opendb_cleanup cfg now s d _ last hfile hversion hlast hhead hold hcleanup]
    rfl

/-- Five minutes until a mail is accepted, one day to try again, 36 days of good standing. -/
def sampleSettings : Settings := ⟨300, 86400, 3110400⟩

/-- A file with one waiting entry from the first second of the epoch. -/
def sampleFile : Database :=
  ⟨some dbVersion, some (hexText 8 0),
    ⟨[(⟨[49], [50], [51]⟩, ⟨flagWaiting, hexText 8 1⟩)], List.nodup_singleton _⟩⟩

/-- **A cleanup that deletes an entry** and does not change what is found. -/
theorem cleanup_keeps_findEntry_sample :
    ∃ d', cleanup sampleSettings 4000000 sampleFile = some d' ∧
      ∀ t, (findEntry sampleSettings 4000001 t ⟨true, some d', fun _ => .null⟩).1 =
        (findEntry sampleSettings 4000001 t ⟨true, some sampleFile, fun _ => .null⟩).1 := by
  have htimes : ∀ t e, sampleFile.greylist.lookup t = some e → IsTimestamp e.timestamp := by
    intro t e h
    have hmem := (KeyedTable.lookup_eq_some _ t e).mp h
    obtain ⟨-, rfl⟩ := Prod.mk.inj (List.mem_singleton.mp hmem)
    exact isTimestamp_hexText 1
  obtain ⟨d', hcleanup, hfind, -, -⟩ := cleanup_keeps_findEntry sampleSettings 4000000 4000001
    (by decide) (by decide) (by decide) (by decide) ⟨true, some sampleFile, fun _ => .null⟩ sampleFile rfl rfl
    htimes
  exact ⟨d', hcleanup, hfind⟩

end TTLinux.Analysis.GreylistCleanup
