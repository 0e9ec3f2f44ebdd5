import TTLinux.Analysis.GreylistCleanup
import TTLinux.Model.GreylistTimes

/-!
# The times of the greylist as texts

The first part puts together what `timeAsString` and `parseTimeString` are to each other on the
times below 2^32. The second part follows the stores: which times end the loop, and which of
these leave the index in the buffer. The last part goes through the calls.
-/

set_option autoImplicit false

namespace TTLinux.Analysis.GreylistTimes

open TTLinux.Lib TTLinux.Model.Greylist TTLinux.Analysis.GreylistCleanup

/-! ## Round trips -/

/-- INTERNAL: the parser gives up at the first byte that is no digit, and only there. -/
theorem parseTimeStringLoop_neg_iff (s : Bytes) (ts : ℤ) (hts : 0 ≤ ts) :
    parseTimeStringLoop s ts < 0 ↔ ∃ c ∈ s, ¬ IsLowerHex c := by
  induction s generalizing ts with
  | nil => simpa [parseTimeStringLoop] using hts
  | cons c s ih =>
    by_cases hdigit : 0x30 ≤ c ∧ c ≤ 0x39
    · have hlow := UInt8.le_iff_toNat_le.mp hdigit.1
      simp only [UInt8.reduceToNat] at hlow
      have hc : IsLowerHex c := Or.inl hdigit
      rw [parseTimeStringLoop, if_pos hdigit, ih _ (by omega)]
      simp [hc]
    · by_cases hletter : 0x61 ≤ c ∧ c ≤ 0x66
      · have hlow := UInt8.le_iff_toNat_le.mp hletter.1
        simp only [UInt8.reduceToNat] at hlow
        have hc : IsLowerHex c := Or.inr hletter
        rw [parseTimeStringLoop, if_neg hdigit, if_pos hletter, ih _ (by omega)]
        simp [hc]
      · have hc : ¬ IsLowerHex c := by
          rintro (h | h)
          · exact hdigit h
          · exact hletter h
        rw [parseTimeStringLoop, if_neg hdigit, if_neg hletter]
        simp [hc]

/-- INTERNAL: a negative result is the one of an error. -/
theorem parseTimeStringLoop_ge (s : Bytes) (ts : ℤ) (hts : 0 ≤ ts) : -1 ≤ parseTimeStringLoop s ts := by
  induction s generalizing ts with
  | nil =>
    rw [parseTimeStringLoop]
    omega
  | cons c s ih =>
    rw [parseTimeStringLoop]
    simp only [UInt8.le_iff_toNat_le, UInt8.reduceToNat]
    split_ifs
    · apply ih
      omega
    · apply ih
      omega
    · exact le_refl _

/-- INTERNAL: no text gives less than -1. -/
theorem parseTimeString_ge (s : Bytes) : -1 ≤ parseTimeString s := parseTimeStringLoop_ge _ 0 (le_refl 0)

/-- INTERNAL: **errors of the parser**: -1 for eight bytes of which one is no digit. -/
theorem parseTimeString_eq_neg_one_iff (s : Bytes) (hs : s.length = 8) :
    parseTimeString s = -1 ↔ ∃ c ∈ s, ¬ IsLowerHex c := by
  have hge := parseTimeString_ge s
  have hneg := parseTimeStringLoop_neg_iff s 0 (le_refl 0)
  rw [parseTimeString, List.take_left' hs] at hge ⊢
  rw [← hneg]
  omega

/-- INTERNAL: **a text is the text of its time.** -/
theorem timeAsString_parseTimeString (s : Bytes) (hs : IsTimestamp s) :
    timeAsString (parseTimeString s) = some s := by
  have hlt := hexValue_lt s fun c hc => Or.inl (hs.2 c hc)
  rw [hs.1] at hlt
  have htext := hexText_hexValue s hs.2
  rw [hs.1] at htext
  rw [parseTimeString_eq s hs, timeAsString_eq _ (by omega) (by omega), Int.toNat_natCast, htext]

/-- INTERNAL: **the order of times is the order of their texts.** -/
theorem hexText_lt_hexText_iff (t u : ℤ) (ht : 0 ≤ t) (ht' : t < 2 ^ 32) (hu : 0 ≤ u) (hu' : u < 2 ^ 32) :
    hexText 8 t.toNat < hexText 8 u.toNat ↔ t < u := by
  rw [← hexValue_lt_hexValue _ _ (isLowerHex_hexText 8 _) (isLowerHex_hexText 8 _) (by simp),
    hexValue_hexText, hexValue_hexText, Nat.mod_eq_of_lt (by omega), Nat.mod_eq_of_lt (by omega)]
  omega

/-- **Times and texts.** For times from 0 to 2^32 - 1 `timeAsString` stores eight lower-case
hexadecimal digits, `parseTimeString` reads the time from them again, and the texts stand in the
order of the times. A text of eight such digits is the text of the time that is read from it, and
for eight bytes the answer is -1 when and only when one of them is no such digit.
SOURCE: greylisting-spp-sqlite3.patch:94-138 -/
theorem times_and_texts (t u : ℤ) (s : Bytes) (ht : 0 ≤ t) (ht' : t < 2 ^ 32) (hu : 0 ≤ u) (hu' : u < 2 ^ 32)
    (hs : s.length = 8) :
    ∃ ts us, timeAsString t = some ts ∧ timeAsString u = some us ∧
      (ts.length = 8 ∧ ∀ c ∈ ts, IsLowerHex c) ∧ parseTimeString ts = t ∧ (t < u ↔ ts < us) ∧
      ((∀ c ∈ s, IsLowerHex c) → timeAsString (parseTimeString s) = some s) ∧
      (parseTimeString s = -1 ↔ ∃ c ∈ s, ¬ IsLowerHex c) := by
  refine ⟨_, _, timeAsString_eq t ht ht', timeAsString_eq u hu hu', isTimestamp_hexText _,
    parseTimeString_hexText t ht ht', ?_, ?_, parseTimeString_eq_neg_one_iff s hs⟩
  · exact (hexText_lt_hexText_iff t u ht ht' hu hu').symm
  · intro hlower
    exact timeAsString_parseTimeString s ⟨hs, hlower⟩

/-- **The second before and the second of a change** from `9` to `a`. -/
theorem times_and_texts_sample :
    ∃ ts us, timeAsString 159 = some ts ∧ timeAsString 160 = some us ∧
      parseTimeString ts = 159 ∧ ts < us ∧ parseTimeString (ascii "0000009G".toList) = -1 := by
  obtain ⟨ts, us, hts, hus, -, hparse, hlt, -, herror⟩ := times_and_texts 159 160 (ascii "0000009G".toList)
    (by decide) (by decide) (by decide) (by decide) (by decide)
  exact ⟨ts, us, hts, hus, hparse, hlt.mp (by decide), herror.mpr ⟨0x47, by decide, by decide⟩⟩

/-! ## Stores -/

/-- The indices from `w - 1` down to 0. -/
def countdown : ℕ → List ℤ
  | 0 => []
  | w + 1 => (w : ℤ) :: countdown w

/-- INTERNAL: the places that a text of `w` digits is written to. -/
theorem mem_countdown (w : ℕ) (i : ℤ) (hi : i ∈ countdown w) : 0 ≤ i ∧ i < w := by
  induction w with
  | zero => simp [countdown] at hi
  | succ w ih =>
    rcases List.mem_cons.mp hi with rfl | hi
    · omega
    · have hrest := ih hi
      omega

/-- INTERNAL: the zeros that are left. -/
theorem zeroStores_eq (w : ℕ) : zeroStores w = List.zipWith Store.mk (countdown w) (hexText w 0).reverse := by
  rw [hexText_zero, List.reverse_replicate]
  induction w with
  | zero => rfl
  | succ w ih => rw [zeroStores, countdown, List.replicate_succ, List.zipWith_cons_cons, ih]

/-- INTERNAL: one round of the first loop. -/
theorem timeStores_succ (fuel n : ℕ) (i : ℤ) (hn : n ≠ 0) :
    timeStores (fuel + 1) i n =
      (timeStores fuel (i - 1) (n / 16 : ℕ)).map (⟨i, hexDigit (n % 16)⟩ :: ·) := by
  have hshift : (n : ℤ) >>> (4 : ℕ) = (n / 16 : ℕ) := by
    rw [Int.shiftRight_eq_div_pow]
    norm_cast
  rw [timeStores, if_neg (by exact_mod_cast hn), hshift]
  rfl

/-- INTERNAL: **a time that fits** is stored from its last digit to its first, each in its place. -/
theorem timeStores_eq (w n fuel : ℕ) (hn : n < 16 ^ w) (hfuel : w < fuel) :
    timeStores fuel (w - 1) n = some (List.zipWith Store.mk (countdown w) (hexText w n).reverse) := by
  induction w generalizing n fuel with
  | zero =>
    obtain rfl : n = 0 := by simpa using hn
    obtain ⟨fuel, rfl⟩ := Nat.exists_eq_succ_of_ne_zero (Nat.ne_of_gt hfuel)
    rfl
  | succ w ih =>
    obtain ⟨fuel, rfl⟩ := Nat.exists_eq_succ_of_ne_zero (Nat.ne_of_gt (Nat.zero_lt_of_lt hfuel))
    have hindex : ((w + 1 : ℕ) : ℤ) - 1 = w := by omega
    rw [hindex]
    by_cases h0 : n = 0
    · rw [h0, timeStores, if_pos (by rfl), ← zeroStores_eq]
      congr 1
    · have hdiv : n / 16 < 16 ^ w := by
        apply Nat.div_lt_of_lt_mul
        rw [← pow_succ']
        exact hn
      rw [timeStores_succ fuel n w h0, ih (n / 16) fuel hdiv (by omega), Option.map_some, hexText_succ,
        List.reverse_append, countdown]
      rfl

/-- INTERNAL: **a time that does not fit** is stored beyond the first byte. -/
theorem timeStores_overrun (w n fuel : ℕ) (stores : List Store) (hn : 16 ^ w ≤ n)
    (h : timeStores fuel (w - 1) n = some stores) : ∃ x ∈ stores, x.index < 0 := by
  induction w generalizing n fuel stores with
  | zero =>
    have hn0 : n ≠ 0 := by
      rw [pow_zero] at hn
      omega
    cases fuel with
    | zero => simp [timeStores] at h
    | succ fuel =>
      rw [timeStores_succ fuel n _ hn0] at h
      obtain ⟨rest, -, rfl⟩ := Option.map_eq_some_iff.mp h
      refine ⟨_, List.mem_cons_self, ?_⟩
      simp
  | succ w ih =>
    have hn0 : n ≠ 0 := Nat.ne_of_gt (lt_of_lt_of_le (Nat.pow_pos (by omega)) hn)
    have hdiv : 16 ^ w ≤ n / 16 := by
      rw [Nat.le_div_iff_mul_le (by omega), ← pow_succ]
      exact hn
    cases fuel with
    | zero => simp [timeStores] at h
    | succ fuel =>
      rw [timeStores_succ fuel n _ hn0] at h
      obtain ⟨rest, hrest, rfl⟩ := Option.map_eq_some_iff.mp h
      have hindex : ((w + 1 : ℕ) : ℤ) - 1 - 1 = w - 1 := by omega
      rw [hindex] at hrest
      obtain ⟨x, hx, hneg⟩ := ih (n / 16) fuel rest hdiv hrest
      exact ⟨x, List.mem_cons_of_mem _ hx, hneg⟩

/-- INTERNAL: **the digits of a negative time never end.** -/
theorem timeStores_negative (fuel : ℕ) (i time : ℤ) (h : time < 0) : timeStores fuel i time = none := by
  induction fuel generalizing i time with
  | zero => rfl
  | succ fuel ih =>
    have hshift : time >>> (4 : ℕ) < 0 := by
      rw [Int.shiftRight_eq_div_pow]
      omega
    rw [timeStores, if_neg (by omega), ih _ _ hshift, Option.map_none]

/-- The call ends, and every store is to one of the eight bytes before the terminator. -/
def StaysInBuffer (time : ℤ) : Prop :=
  ∃ fuel stores, timeAsStringStores fuel time = some stores ∧ ∀ x ∈ stores, 0 ≤ x.index ∧ x.index < 8

/-- INTERNAL: **the buffer after the stores** holds the text, every byte stored once. -/
theorem timeAsStringStores_eq (t : ℤ) (h0 : 0 ≤ t) (hlt : t < 2 ^ 32) :
    timeAsStringStores 9 t = some (List.zipWith Store.mk (countdown 8) (hexText 8 t.toNat).reverse) := by
  have hstores := timeStores_eq 8 t.toNat 9 (by omega) (by omega)
  rw [Int.toNat_of_nonneg h0] at hstores
  exact hstores

/-- INTERNAL: **the times that fit.** -/
theorem staysInBuffer_iff (t : ℤ) : StaysInBuffer t ↔ 0 ≤ t ∧ t < 2 ^ 32 := by
  constructor
  · rintro ⟨fuel, stores, hrun, hin⟩
    have h0 : 0 ≤ t := by
      by_contra hneg
      rw [timeAsStringStores, timeStores_negative fuel 7 t (by omega)] at hrun
      cases hrun
    refine ⟨h0, ?_⟩
    by_contra hge
    rw [timeAsStringStores, ← Int.toNat_of_nonneg h0] at hrun
    obtain ⟨x, hx, hneg⟩ := timeStores_overrun 8 t.toNat fuel stores (by omega) hrun
    have hbounds := hin x hx
    omega
  · rintro ⟨h0, hlt⟩
    refine ⟨9, _, timeAsStringStores_eq t h0 hlt, ?_⟩
    intro x hx
    obtain ⟨k, hk, rfl⟩ := List.mem_iff_getElem.mp hx
    rw [List.getElem_zipWith]
    exact mem_countdown 8 _ (List.getElem_mem _)

/-- INTERNAL: the text of a time that does not fit is not finished. -/
theorem timeAsStringLoop_none (i n : ℕ) (ts : Bytes) (hn : 16 ^ i ≤ n) : timeAsStringLoop i n ts = none := by
  induction i generalizing n ts with
  | zero =>
    rw [pow_zero] at hn
    rw [timeAsStringLoop, if_neg (by omega)]
  | succ i ih =>
    have hn0 : n ≠ 0 := Nat.ne_of_gt (lt_of_lt_of_le (Nat.pow_pos (by omega)) hn)
    have hdiv : 16 ^ i ≤ n / 16 := by
      rw [Nat.le_div_iff_mul_le (by omega), ← pow_succ]
      exact hn
    rw [timeAsStringLoop, if_neg hn0, ih _ _ hdiv]

/-- INTERNAL: **the texts of the database** are those of the calls that stay in the buffer. -/
theorem timeAsString_isSome_iff (t : ℤ) : (timeAsString t).isSome ↔ StaysInBuffer t := by
  rw [staysInBuffer_iff]
  constructor
  · intro hsome
    have h0 : 0 ≤ t := by
      by_contra hneg
      rw [timeAsString, if_pos (by omega)] at hsome
      simp at hsome
    refine ⟨h0, ?_⟩
    by_contra hge
    rw [timeAsString, if_neg (by omega), timeAsStringLoop_none 8 t.toNat [] (by omega)] at hsome
    simp at hsome
  · rintro ⟨h0, hlt⟩
    rw [timeAsString_eq t h0 hlt]
    rfl

/-! ## Calls -/

/-- INTERNAL: `opendb` calls with the clock alone, or not at all, where no cleanup is due. -/
theorem opendbTimes_not_due (cfg : Settings) (now : ℤ) (s : State) (h : ¬ CleanupDue cfg now s) :
    ∀ t ∈ opendbTimes cfg now s, t = now := by
  intro t ht
  rw [opendbTimes] at ht
  split at ht
  · exact List.mem_singleton.mp ht
  · rename_i d hfile
    split_ifs at ht with hversion
    · simp at ht
    · split at ht
      · exact List.mem_singleton.mp ht
      · rename_i result_time hlast
        split_ifs at ht with hempty hold
        · exact List.mem_singleton.mp ht
        · exact absurd ⟨d, result_time, hfile, not_not.mp hversion, hlast, hempty, hold⟩ h
        · simp at ht

/-- INTERNAL: a cleanup calls with the two limits and the clock. -/
theorem opendbTimes_due (cfg : Settings) (now : ℤ) (s : State) (h : CleanupDue cfg now s) :
    opendbTimes cfg now s = [now - cfg.maxWait, now - cfg.acceptGood, now] := by
  obtain ⟨d, result_time, hfile, hversion, hlast, hempty, hold⟩ := h
  simp only [opendbTimes, hfile, hversion, ne_eq, not_true_eq_false, if_false, hlast, if_neg hempty,
    if_pos hold]

/-- INTERNAL: a cleanup is due only when the clock is not before `max_wait`. -/
theorem maxWait_le_of_due (cfg : Settings) (now : ℤ) (s : State) (h : CleanupDue cfg now s) :
    cfg.maxWait ≤ now := by
  obtain ⟨d, result_time, -, -, -, -, hold⟩ := h
  have hge := parseTimeString_ge result_time
  omega

/-- INTERNAL: `opendb` of the database model overruns its buffer only in one of these calls. -/
theorem opendb_overrun (cfg : Settings) (now : ℤ) (s : State) (h : (opendb cfg now s).1 = .overrun) :
    ∃ t ∈ opendbTimes cfg now s, ¬ StaysInBuffer t := by
  by_contra hall
  push Not at hall
  have hsome : ∀ t ∈ opendbTimes cfg now s, ∃ ts, timeAsString t = some ts := by
    intro t ht
    exact Option.isSome_iff_exists.mp ((timeAsString_isSome_iff t).mpr (hall t ht))
  by_cases hdue : CleanupDue cfg now s
  · rw [opendbTimes_due cfg now s hdue] at hsome
    obtain ⟨w, hw⟩ := hsome (now - cfg.maxWait) (by simp)
    obtain ⟨g, hg⟩ := hsome (now - cfg.acceptGood) (by simp)
    obtain ⟨c, hc⟩ := hsome now (by simp)
    obtain ⟨d, result_time, hfile, hversion, hlast, hempty, hold⟩ := hdue
    have hcleanup : ∃ d', cleanup cfg now d = some d' := by simp [cleanup, hw, hg, hc]
    obtain ⟨d', hcleanup⟩ := hcleanup
    rw [opendb_cleanup cfg now s d d' result_time hfile hversion hlast hempty hold hcleanup] at h
    cases h
  · cases hfile : s.file with
    | none =>
      obtain ⟨ts, hts⟩ := hsome now (by simp [opendbTimes, hfile])
      simp [opendb, hfile, hts] at h
    | some d =>
      by_cases hversion : d.version = some dbVersion
      · cases hlast : d.lastCleanup with
        | none =>
          obtain ⟨ts, hts⟩ := hsome now (by simp [opendbTimes, hfile, hversion, hlast])
          simp [opendb, hfile, hversion, hlast, hts] at h
        | some result_time =>
          simp only [opendb, hfile, hversion, ne_eq, not_true_eq_false, if_false, hlast] at h
          split_ifs at h with hempty hold
          · simp [State.exit] at h
          · exact hdue ⟨d, result_time, hfile, hversion, hlast, hempty, hold⟩
      · simp [opendb, hfile, hversion, State.exit] at h

/-- **The calls that stay in the buffer.** Every call of `timeAsString` that `opendb`, `add_entry`
and `update_entry` make at a time ends, and stores to the eight bytes before the terminator only,
when and only when the clock is between 0 and 2^32 - 1 and, where a cleanup is due, not before
`accept_good`.
SOURCE: greylisting-spp-sqlite3.patch:94-116, 200-305, 362, 397 -/
theorem times_stay_in_buffer_iff (cfg : Settings) (now : ℤ) (s : State) :
    (∀ caller : Caller, ∀ t ∈ caller.times cfg now s, StaysInBuffer t) ↔
      0 ≤ now ∧ now < 2 ^ 32 ∧ (CleanupDue cfg now s → cfg.acceptGood ≤ now) := by
  constructor
  · intro hall
    have hnow := (staysInBuffer_iff now).mp (hall .addEntry now (by simp [Caller.times]))
    refine ⟨hnow.1, hnow.2, ?_⟩
    intro hdue
    have hgood : now - cfg.acceptGood ∈ Caller.opendb.times cfg now s := by
      rw [Caller.times, opendbTimes_due cfg now s hdue]
      simp
    have hstays := (staysInBuffer_iff _).mp (hall .opendb _ hgood)
    omega
  · rintro ⟨h0, hlt, hgood⟩ caller t ht
    rw [staysInBuffer_iff]
    cases caller with
    | opendb =>
      rw [Caller.times] at ht
      by_cases hdue : CleanupDue cfg now s
      · have hwait := maxWait_le_of_due cfg now s hdue
        have hgood := hgood hdue
        rw [opendbTimes_due cfg now s hdue] at ht
        simp only [List.mem_cons, List.not_mem_nil, or_false] at ht
        rcases ht with rfl | rfl | rfl <;> omega
      · rw [opendbTimes_not_due cfg now s hdue t ht]
        exact ⟨h0, hlt⟩
    | addEntry =>
      rw [List.mem_singleton.mp ht]
      exact ⟨h0, hlt⟩
    | updateEntry =>
      rw [List.mem_singleton.mp ht]
      exact ⟨h0, hlt⟩

/-- **A clock that was reset.** With the sample settings a day and some hours after the start of 1970
the cleanup asks for a time before it. -/
theorem time_before_1970 :
    (100000 : ℤ) - sampleSettings.acceptGood ∈
        Caller.opendb.times sampleSettings 100000 ⟨true, some sampleFile, fun _ => .null⟩ ∧
      ¬ StaysInBuffer (100000 - sampleSettings.acceptGood) := by
  refine ⟨by decide, fun hstays => ?_⟩
  exact absurd ((staysInBuffer_iff _).mp hstays).1 (by decide)

end TTLinux.Analysis.GreylistTimes
