import TTLinux.Lib.Numeral
import TTLinux.Model.Fstat

/-!
# The lines of fstat

`fmt_ulong` puts the digits in front of what was in the buffer, and stores no terminator. A line
is right when the byte behind the digits is 0: nobody stored a longer number, and it was 0 at
the start.
-/

set_option autoImplicit false

namespace TTLinux.Analysis.FstatLines

open TTLinux.Lib TTLinux.Model.Fstat

/-! ## Digits -/

/-- The decimal digits of a number. -/
def decimal (n : ℕ) : Bytes := ascii (Nat.toDigits 10 n)

/-- The decimal representation of a `long`. -/
def decimalLong (n : BitVec 64) : Bytes :=
  if n.toInt < 0 then 0x2D :: decimal n.toInt.natAbs else decimal n.toInt.natAbs

/-- INTERNAL: a digit's character is its byte. -/
theorem ascii_digitChar : ∀ d < 10, ascii [Nat.digitChar d] = [(d + 0x30).toUInt8] := by decide

/-- INTERNAL: the digits from the last one on. -/
theorem decimal_of_le (n : ℕ) (hn : 10 ≤ n) : decimal n = decimal (n / 10) ++ [(n % 10 + 0x30).toUInt8] := by
  rw [decimal, Nat.toDigits_of_base_le (by omega) hn, ascii, List.map_append]
  congr 1
  exact ascii_digitChar (n % 10) (Nat.mod_lt n (by omega))

/-- INTERNAL: the text of a number of one digit. -/
theorem decimal_of_lt (n : ℕ) (hn : n < 10) : decimal n = [(n % 10 + 0x30).toUInt8] := by
  rw [decimal, Nat.toDigits_of_lt_base hn, ascii_digitChar n hn, Nat.mod_eq_of_lt hn]

/-- INTERNAL: the first loop counts the digits. -/
theorem countDigits_eq (len n : ℕ) : countDigits (len + 1) n = len + (decimal n).length := by
  induction n using Nat.strong_induction_on generalizing len with
  | _ n ih =>
    rw [countDigits]
    split_ifs with hn
    · rw [ih (n / 10) (by omega) (len + 1), decimal_of_le n (by omega), List.length_append, List.length_singleton]
      omega
    · rw [decimal_of_lt n (by omega), List.length_singleton]

/-- INTERNAL: every number has a digit. -/
theorem decimal_length_pos (n : ℕ) : 0 < (decimal n).length := by
  rw [decimal, ascii, List.length_map]
  exact Nat.length_toDigits_pos

/-- INTERNAL: what follows a place that was written. -/
theorem drop_set_self (dest : Bytes) (k : ℕ) (b : UInt8) (hk : k < dest.length) :
    (dest.set k b).drop k = b :: dest.drop (k + 1) := by
  rw [List.drop_eq_getElem_cons (by rw [List.length_set]; exact hk), List.getElem_set_self,
    List.drop_set_of_lt (Nat.lt_succ_self k)]

/-- INTERNAL: **the second loop** stores the digits in front of what was there. -/
theorem putDigits_eq (n : ℕ) (dest : Bytes) (h : (decimal n).length ≤ dest.length) :
    putDigits (decimal n).length n dest = decimal n ++ dest.drop (decimal n).length := by
  induction n using Nat.strong_induction_on generalizing dest with
  | _ n ih =>
    by_cases hn : n < 10
    · rw [decimal_of_lt n hn, List.length_singleton] at h ⊢
      rw [putDigits, putDigits, List.singleton_append]
      exact drop_set_self dest 0 _ h
    · rw [decimal_of_le n (by omega), List.length_append, List.length_singleton] at h ⊢
      rw [putDigits, ih (n / 10) (by omega) _ (by rw [List.length_set]; omega), drop_set_self dest _ _ h,
        List.append_assoc, List.singleton_append]

/-- INTERNAL: **`fmt_ulong`** stores no terminator. -/
theorem fmtUlong_eq (dest : Bytes) (n : ℕ) (h : (decimal n).length ≤ dest.length) :
    (fmtUlong dest n).2 = decimal n ++ dest.drop (decimal n).length := by
  have hcount := countDigits_eq 0 n
  rw [Nat.zero_add, Nat.zero_add] at hcount
  rw [fmtUlong, hcount]
  exact putDigits_eq n dest h

/-- INTERNAL: a digit's byte is decimal. -/
theorem isDecimal_byte : ∀ d < 10, isDecimal (d + 0x30).toUInt8 = true := by decide

/-- INTERNAL: the text of a number is decimal. -/
theorem isDecimal_decimal (n : ℕ) : ∀ c ∈ decimal n, isDecimal c = true := by
  induction n using Nat.strong_induction_on with
  | _ n ih =>
    have hlast := isDecimal_byte (n % 10) (Nat.mod_lt n (by omega))
    by_cases hn : n < 10
    · rw [decimal_of_lt n hn]
      intro c hc
      rw [List.mem_singleton.mp hc]
      exact hlast
    · rw [decimal_of_le n (by omega)]
      intro c hc
      rcases List.mem_append.mp hc with hc | hc
      · exact ih (n / 10) (by omega) c hc
      · rw [List.mem_singleton.mp hc]
        exact hlast

/-- INTERNAL: and holds no end of a string. -/
theorem zero_notMem_decimal (n : ℕ) : (0 : UInt8) ∉ decimal n := by
  intro h
  exact absurd (isDecimal_decimal n 0 h) (by decide)

/-- INTERNAL: a `long` has at most 20 digits. -/
theorem decimal_length_le (n : BitVec 64) : (decimal n.toNat).length ≤ 20 := by
  rw [decimal, ascii, List.length_map, Nat.length_toDigits_le_iff (by omega) (by omega)]
  exact lt_trans n.isLt (by decide)

/-- INTERNAL: a number that is not negative is written as its digits, and only such a number. -/
theorem decimalLong_cases (n : BitVec 64) :
    (0 ≤ n.toInt ∧ decimalLong n = decimal n.toNat) ∨ (n.toInt < 0 ∧ (decimalLong n).head? = some 0x2D) := by
  rcases Int.lt_or_le n.toInt 0 with hneg | hpos
  · right
    rw [decimalLong, if_pos hneg]
    exact ⟨hneg, rfl⟩
  · left
    have habs : n.toInt.natAbs = n.toNat := by
      rw [BitVec.toInt_eq_toNat_cond] at hpos ⊢
      have hlt := n.isLt
      split_ifs at hpos ⊢ with h
      · exact Int.natAbs_natCast _
      · omega
    rw [decimalLong, if_neg (by omega), habs]
    exact ⟨hpos, rfl⟩

/-! ## Lines -/

/-- The digits of a field in the buffer. -/
def width (n : BitVec 64) : ℕ := (decimal n.toNat).length

/-- A line: a label, the decimal representation of a field, and a newline. -/
def lineOf (field : Bytes × BitVec 64) : Bytes := field.1 ++ decimalLong field.2 ++ [newline]

/-- The field is not negative, and the byte of the buffer behind its digits is 0. -/
def Ends (fmt : Bytes) (n : BitVec 64) : Prop := 0 ≤ n.toInt ∧ fmt.getD (width n) 1 = 0

/-- INTERNAL: the digits and what follows them up to a NUL are the representation of a field when
nothing follows. -/
theorem digits_eq_iff (n : BitVec 64) (rest : Bytes) :
    decimal n.toNat ++ rest = decimalLong n ↔ 0 ≤ n.toInt ∧ rest = [] := by
  rcases decimalLong_cases n with ⟨hpos, hdec⟩ | ⟨hneg, hhead⟩
  · simp [hdec, hpos]
  · constructor
    · intro h
      have hne : decimal n.toNat ≠ [] := List.length_pos_iff.mp (decimal_length_pos _)
      obtain ⟨c, digits, hdigits⟩ := List.exists_cons_of_ne_nil hne
      have hc := isDecimal_decimal n.toNat c (by rw [hdigits]; exact List.mem_cons_self)
      rw [← h, hdigits] at hhead
      obtain rfl : c = 0x2D := by simpa using hhead
      exact absurd hc (by decide)
    · rintro ⟨hpos, -⟩
      omega

/-- INTERNAL: digits are part of the string in the buffer. -/
theorem cstr_decimal (n : ℕ) (rest : Bytes) : cstr (decimal n ++ rest) = decimal n ++ cstr rest := by
  apply List.takeWhile_append_of_pos
  intro c hc
  simp only [ne_eq, decide_not, Bool.not_eq_eq_eq_not, Bool.not_true, decide_eq_false_iff_not]
  rintro rfl
  exact zero_notMem_decimal n hc

/-- INTERNAL: a C string is empty if it begins with its end. -/
theorem cstr_cons_eq_nil_iff (b : UInt8) (rest : Bytes) : cstr (b :: rest) = [] ↔ b = 0 := by
  rw [cstr, List.takeWhile_cons]
  by_cases hb : b = 0 <;> simp [hb]

/-- INTERNAL: a line is right when the string in the buffer is the representation of the field. -/
theorem write2_eq_some_iff (label buf : Bytes) (n : BitVec 64) :
    write2 label buf = some (lineOf (label, n)) ↔ (0 : UInt8) ∈ buf ∧ cstr buf = decimalLong n := by
  rw [write2, string, lineOf]
  split_ifs with h0 <;> simp [h0]

/-- INTERNAL: **one line** is right when its number ends in the buffer. -/
theorem write2_fmtUlong_iff (label fmt : Bytes) (n : BitVec 64) (hlen : 20 < fmt.length) :
    write2 label (fmtUlong fmt n.toNat).2 = some (lineOf (label, n)) ↔ Ends fmt n := by
  have hwidth := decimal_length_le n
  obtain ⟨b, rest, hdrop⟩ : ∃ b rest, fmt.drop (width n) = b :: rest := by
    apply List.exists_cons_of_ne_nil
    rw [ne_eq, List.drop_eq_nil_iff, width]
    omega
  have hbyte : fmt.getD (width n) 1 = b := by
    rw [List.getD_eq_getElem?_getD, ← List.head?_drop, hdrop]
    rfl
  have hbuffer : (fmtUlong fmt n.toNat).2 = decimal n.toNat ++ b :: rest := by
    rw [fmtUlong_eq fmt n.toNat (by omega), ← hdrop, width]
  rw [write2_eq_some_iff, hbuffer, cstr_decimal, digits_eq_iff, cstr_cons_eq_nil_iff, Ends, hbyte]
  constructor
  · rintro ⟨-, hends⟩
    exact hends
  · rintro ⟨hpos, rfl⟩
    exact ⟨by simp, hpos, rfl⟩

/-- INTERNAL: the buffer behind a number that was stored: bytes before its end are digits, the others
are as they were. -/
theorem ends_after_iff (fmt : Bytes) (n m : BitVec 64) (hlen : 20 < fmt.length) :
    Ends (fmtUlong fmt n.toNat).2 m ↔ Ends fmt m ∧ width n ≤ width m := by
  have hwidth := decimal_length_le n
  rw [Ends, Ends, fmtUlong_eq fmt n.toNat (by omega)]
  rcases Nat.lt_or_ge (width m) (width n) with hlt | hge
  · have hdigit : (decimal n.toNat ++ fmt.drop (decimal n.toNat).length).getD (width m) 1 ≠ 0 := by
      rw [List.getD_append _ _ _ _ hlt, List.getD_eq_getElem _ _ hlt]
      intro h0
      exact zero_notMem_decimal n.toNat (h0 ▸ List.getElem_mem hlt)
    constructor
    · rintro ⟨-, h0⟩
      exact absurd h0 hdigit
    · rintro ⟨-, hle⟩
      omega
  · have hsame : (decimal n.toNat ++ fmt.drop (decimal n.toNat).length).getD (width m) 1 = fmt.getD (width m) 1 := by
      rw [List.getD_append_right _ _ _ _ hge, List.getD_eq_getElem?_getD, List.getElem?_drop,
        ← List.getD_eq_getElem?_getD]
      congr 1
      exact Nat.add_sub_cancel' hge
    rw [hsame]
    simp [hge]

/-- INTERNAL: the buffer keeps its length. -/
theorem length_fmtUlong (fmt : Bytes) (n : BitVec 64) (hlen : 20 < fmt.length) :
    (fmtUlong fmt n.toNat).2.length = fmt.length := by
  have hwidth := decimal_length_le n
  rw [fmtUlong_eq fmt n.toNat (by omega), List.length_append, List.length_drop]
  omega

/-- Every field ends in the buffer, and none is shorter than one before it. -/
def AllEnd (fmt : Bytes) (fields : List (Bytes × BitVec 64)) : Prop :=
  (∀ x ∈ fields, Ends fmt x.2) ∧ fields.Pairwise fun x y => width x.2 ≤ width y.2

/-- INTERNAL: **all lines** are right when all numbers end in the buffer, by induction on the fields
that are left. -/
theorem writeFields_eq_iff (fields : List (Bytes × BitVec 64)) (fmt : Bytes) (hlen : 20 < fmt.length) :
    writeFields fields fmt = some (fields.map lineOf) ↔ AllEnd fmt fields := by
  induction fields generalizing fmt with
  | nil => simp [writeFields, AllEnd]
  | cons x fields ih =>
    obtain ⟨label, n⟩ := x
    have hrest := ih (fmtUlong fmt n.toNat).2 (by rw [length_fmtUlong fmt n hlen]; exact hlen)
    have hline := write2_fmtUlong_iff label fmt n hlen
    have hsplit : writeFields ((label, n) :: fields) fmt = some (((label, n) :: fields).map lineOf) ↔
        write2 label (fmtUlong fmt n.toNat).2 = some (lineOf (label, n)) ∧
          writeFields fields (fmtUlong fmt n.toNat).2 = some (fields.map lineOf) := by
      rw [writeFields, List.map_cons]
      cases hwrite : write2 label (fmtUlong fmt n.toNat).2 with
      | none => simp
      | some line =>
        simp only [Option.map_eq_some_iff, List.cons.injEq, Option.some.injEq]
        constructor
        · rintro ⟨lines, hlines, rfl, rfl⟩
          exact ⟨rfl, hlines⟩
        · rintro ⟨rfl, hlines⟩
          exact ⟨_, hlines, rfl, rfl⟩
    rw [hsplit, hline, hrest, AllEnd, AllEnd]
    simp only [ends_after_iff fmt n _ hlen, List.forall_mem_cons, List.pairwise_cons]
    constructor
    · rintro ⟨hn, hall, hpair⟩
      exact ⟨⟨hn, fun x hx => (hall x hx).1⟩, fun x hx => (hall x hx).2, hpair⟩
    · rintro ⟨⟨hn, hall⟩, hle, hpair⟩
      exact ⟨hn, fun x hx => ⟨hall x hx, hle x hx⟩, hpair⟩

/-! ## The program -/

/-- The fields that a call is to print, with their labels. -/
def fieldsOf (argv : List Bytes) (lstat : Bytes → Option Stat) : List (Bytes × BitVec 64) :=
  match argv with
  | [_, option, fname] => (lstat fname).toList.flatMap fun st => (fieldOf option st).toList.map fun n => ([], n)
  | _ :: fname :: _ => (lstat fname).toList.flatMap allFields
  | _ => []

/-- Every line that the call prints is a label, the decimal representation of its field, and a newline. -/
def PrintsFields (argv : List Bytes) (lstat : Bytes → Option Stat) (fmt : Bytes) : Prop :=
  ∃ out, main argv lstat fmt = some out ∧ out.lines = (fieldsOf argv lstat).map lineOf

/-- INTERNAL: a call that only explains itself prints no field. -/
theorem usage_iff (msg : Option (Bytes × Bytes)) (fmt : Bytes) :
    (∃ out, some (usage msg) = some out ∧ out.lines = ([] : List (Bytes × BitVec 64)).map lineOf) ↔
      AllEnd fmt [] := by
  simp [AllEnd, usage]

/-- INTERNAL: the single field. -/
theorem report_option_iff (option : Bytes) (st : Stat) (fmt : Bytes) (hlen : 20 < fmt.length) :
    (∃ out, report (some option) st fmt = some out ∧
        out.lines = ((fieldOf option st).toList.map fun n => (([] : Bytes), n)).map lineOf) ↔
      AllEnd fmt ((fieldOf option st).toList.map fun n => ([], n)) := by
  rw [report]
  cases fieldOf option st with
  | none => exact usage_iff none fmt
  | some n =>
    have hwrite : ∀ buf, write1 buf = write2 [] buf := fun _ => rfl
    have hline := write2_fmtUlong_iff [] fmt n hlen
    simp only [hwrite, Option.toList_some, List.map_cons, List.map_nil, AllEnd, List.forall_mem_singleton,
      List.pairwise_singleton, and_true, ← hline]
    simp

/-- INTERNAL: all fields. -/
theorem report_none_iff (st : Stat) (fmt : Bytes) (hlen : 20 < fmt.length) :
    (∃ out, report none st fmt = some out ∧ out.lines = (allFields st).map lineOf) ↔
      AllEnd fmt (allFields st) := by
  rw [report, ← writeFields_eq_iff (allFields st) fmt hlen]
  simp

/-- INTERNAL: `main` with a name as its last or its first argument. -/
theorem main_lstat_iff (lstat : Bytes → Option Stat) (fmt fname msg : Bytes) (out : Stat → Option Output)
    (fields : Stat → List (Bytes × BitVec 64))
    (h : ∀ st, (∃ o, out st = some o ∧ o.lines = (fields st).map lineOf) ↔ AllEnd fmt (fields st)) :
    (∃ o, (match lstat fname with
        | none => some (usage (some (msg, fname)))
        | some st => out st) = some o ∧ o.lines = ((lstat fname).toList.flatMap fields).map lineOf) ↔
      AllEnd fmt ((lstat fname).toList.flatMap fields) := by
  cases lstat fname with
  | none => exact usage_iff _ fmt
  | some st =>
    rw [Option.toList_some, List.flatMap_singleton]
    exact h st

/-- **When fstat prints its fields.** For all arguments, every result of `lstat` and every content of
the buffer each line is its label, the decimal representation of the field and a newline if and
only if no field that is printed is negative, the byte of the buffer behind the digits of each
one was 0, and none has fewer digits than one that was printed before it.
SOURCE: fstat.c:6-90 -/
theorem prints_fields_iff (argv : List Bytes) (lstat : Bytes → Option Stat) (fmt : Bytes)
    (hfmt : fmt.length = 256) :
    PrintsFields argv lstat fmt ↔
      (∀ x ∈ fieldsOf argv lstat, 0 ≤ x.2.toInt ∧ fmt.getD (decimal x.2.toNat).length 1 = 0) ∧
        (fieldsOf argv lstat).Pairwise fun x y => (decimal x.2.toNat).length ≤ (decimal y.2.toNat).length := by
  have hlen : 20 < fmt.length := by omega
  change PrintsFields argv lstat fmt ↔ AllEnd fmt (fieldsOf argv lstat)
  have hall : ∀ fname, _ := fun fname => main_lstat_iff lstat fmt fname (ascii "can't lstat ".toList)
    (fun st => report none st fmt) allFields fun st => report_none_iff st fmt hlen
  rcases argv with _ | ⟨program, _ | ⟨first, _ | ⟨second, _ | ⟨third, others⟩⟩⟩⟩
  · exact usage_iff none fmt
  · exact usage_iff none fmt
  · exact hall first
  · exact main_lstat_iff lstat fmt second (ascii "can't lstat ".toList) (fun st => report (some first) st fmt)
      (fun st => (fieldOf first st).toList.map fun n => ([], n)) fun st => report_option_iff first st fmt hlen
  · exact hall first

/-- A file of a million bytes without a block. -/
def sparseFile : Stat := ⟨1000000, 4096, 0, 1200000000, 1200000000, 1200000000⟩

/-- **The size of a file** in a buffer of zeros. -/
theorem prints_size :
    PrintsFields [ascii "fstat".toList, ascii "-s".toList, ascii "f".toList] (fun _ => some sparseFile)
      (List.replicate 256 0) := by
  apply (prints_fields_iff _ _ _ (List.length_replicate)).mpr
  refine ⟨?_, ?_⟩
  · decide +kernel
  · decide +kernel

/-- **A sparse file:** its real size has fewer digits than its size, and the line for it ends with the
zeros of the one before.
SOURCE: fstat.c:79-82 -/
theorem sparse_file_prints_zeros :
    ¬ PrintsFields [ascii "fstat".toList, ascii "f".toList] (fun _ => some sparseFile) (List.replicate 256 0) := by
  rintro ⟨out, hmain, hlines⟩
  have hends := (report_none_iff sparseFile (List.replicate 256 0)
    (by rw [List.length_replicate]; omega)).mp ⟨out, hmain, hlines⟩
  have hle : width 1000000 ≤ width 0 :=
    (List.pairwise_cons.mp hends.2).1 (ascii "realsize: ".toList, 0) List.mem_cons_self
  exact absurd hle (by decide +kernel)

end TTLinux.Analysis.FstatLines
