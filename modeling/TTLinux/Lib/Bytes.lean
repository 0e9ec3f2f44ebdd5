import Mathlib.Data.Nat.Notation
import Mathlib.Data.List.Infix

/-!
# Bytes and C strings

Byte strings as lists, the C string a buffer holds, and facts about them that do not
depend on who reads the bytes: where a word can start in a text of terminated lines,
and how many bytes of a prefix are not zero.
-/

set_option autoImplicit false

namespace TTLinux.Lib

/-- A buffer, or what is read from a file or a socket. -/
abbrev Bytes := List UInt8

/-- The bytes of an ASCII text. -/
def ascii (text : List Char) : Bytes := text.map fun c => c.toNat.toUInt8

/-- The newline byte. -/
def newline : UInt8 := 10

/-- The C string that starts a buffer: everything before the first zero byte. -/
def cstr (buf : Bytes) : Bytes := buf.takeWhile (· ≠ 0)

/-- INTERNAL: what stands behind the first zero byte does not belong to the string. -/
theorem cstr_append (buf rest : Bytes) : cstr (buf ++ 0 :: rest) = cstr buf := by
  induction buf with
  | nil => rfl
  | cons b buf ih =>
    unfold cstr at ih ⊢
    rw [List.cons_append, List.takeWhile_cons, List.takeWhile_cons, ih]

/-- INTERNAL: a C string does not hold its end. -/
theorem zero_notMem_cstr (buf : Bytes) : (0 : UInt8) ∉ cstr buf := by
  intro h
  have hne := List.all_eq_true.mp (List.all_takeWhile) 0 h
  simp at hne

/-- INTERNAL: bytes of which none is zero are a string. -/
theorem cstr_eq_self (buf : Bytes) (h0 : (0 : UInt8) ∉ buf) : cstr buf = buf := by
  induction buf with
  | nil => rfl
  | cons b buf ih =>
    have hb : b ≠ 0 := fun h => h0 (h ▸ List.mem_cons_self)
    have hrest := ih fun h => h0 (List.mem_cons_of_mem b h)
    unfold cstr at hrest ⊢
    rw [List.takeWhile_cons, hrest, if_pos (by simpa using hb)]

/-- Overwrite `bytes.length` bytes of a buffer from an index on. -/
def store (buf : Bytes) (i : ℕ) (bytes : Bytes) : Bytes :=
  buf.take i ++ bytes ++ buf.drop (i + bytes.length)

/-- INTERNAL: storing leaves the bytes in front. -/
theorem store_take (buf : Bytes) (i : ℕ) (bytes : Bytes) (h : i ≤ buf.length) : (store buf i bytes).take i = buf.take i := by
  have hlength : (buf.take i).length = i := by
    rw [List.length_take]
    omega
  unfold store
  rw [List.append_assoc, List.take_append_of_le_length (Nat.le_of_eq hlength.symm), List.take_take, Nat.min_self]

/-- INTERNAL: the bytes up to the end of what was stored. -/
theorem store_take_all (buf : Bytes) (i : ℕ) (bytes : Bytes) (h : i ≤ buf.length) :
    (store buf i bytes).take (i + bytes.length) = buf.take i ++ bytes := by
  have hlength : (buf.take i ++ bytes).length = i + bytes.length := by
    rw [List.length_append, List.length_take]
    omega
  unfold store
  rw [← hlength, List.take_left]

/-- INTERNAL: storing keeps the length. -/
theorem store_length (buf : Bytes) (i : ℕ) (bytes : Bytes) (h : i + bytes.length ≤ buf.length) :
    (store buf i bytes).length = buf.length := by
  unfold store
  simp only [List.length_append, List.length_take, List.length_drop]
  omega

/-- `strchr(s, '\n')` on the string that starts a buffer: the bytes before the newline
and the bytes behind it. -/
def cutLine : Bytes → Option (Bytes × Bytes)
  | [] => none
  | b :: bs =>
    if b = 0 then none
    else if b = newline then some ([], bs)
    else (cutLine bs).map fun (line, rest) => (b :: line, rest)

/-- INTERNAL: what follows a line is shorter than the buffer. -/
theorem cutLine_length (buf line rest : Bytes) (h : cutLine buf = some (line, rest)) :
    rest.length < buf.length := by
  induction buf generalizing line with
  | nil => simp [cutLine] at h
  | cons b bs ih =>
    rw [cutLine] at h
    split_ifs at h with h0 h1
    · obtain ⟨-, rfl⟩ : [] = line ∧ bs = rest := by simpa using h
      simp
    · cases hc : cutLine bs with
      | none => simp [hc] at h
      | some p =>
        obtain ⟨l, r⟩ := p
        obtain ⟨-, rfl⟩ : b :: l = line ∧ r = rest := by simpa [hc] using h
        have hlt := ih l hc
        simp only [List.length_cons]
        omega

/-- INTERNAL: a name that holds neither a newline nor a zero byte is cut off as it is. -/
theorem cutLine_line (name rest : Bytes) (hnl : newline ∉ name) (h0 : (0 : UInt8) ∉ name) :
    cutLine (name ++ newline :: rest) = some (name, rest) := by
  induction name with
  | nil => simp [cutLine, newline]
  | cons b bs ih =>
    have hb : b ≠ newline := fun h => hnl (h ▸ List.mem_cons_self)
    have hb0 : b ≠ 0 := fun h => h0 (h ▸ List.mem_cons_self)
    have hrest := ih (fun h => hnl (List.mem_cons_of_mem b h)) (fun h => h0 (List.mem_cons_of_mem b h))
    rw [List.cons_append, cutLine, if_neg hb0, if_neg hb, hrest]
    rfl

/-! ## Words in a text -/

/-- INTERNAL: a prefix without `x` ends before the first `x`. -/
theorem prefix_of_notMem {α : Type} (w a b : List α) (x : α) (hx : x ∉ w)
    (h : w <+: a ++ x :: b) : w <+: a := by
  induction a generalizing w with
  | nil =>
    cases w with
    | nil => exact List.nil_prefix
    | cons y w =>
      obtain ⟨rfl, -⟩ := List.cons_prefix_cons.mp h
      exact absurd List.mem_cons_self hx
  | cons z a ih =>
    cases w with
    | nil => exact List.nil_prefix
    | cons y w =>
      obtain ⟨rfl, hw⟩ := List.cons_prefix_cons.mp h
      exact List.cons_prefix_cons.mpr ⟨rfl, ih w (fun hm => hx (List.mem_cons_of_mem y hm)) hw⟩

/-- INTERNAL: a word without `x` stands on one side of `x`. -/
theorem infix_of_notMem {α : Type} (w a b : List α) (x : α) (hx : x ∉ w)
    (h : w <:+: a ++ x :: b) : w <:+: a ∨ w <:+: b := by
  induction a with
  | nil =>
    rcases List.infix_cons_iff.mp h with hp | hi
    · exact Or.inl (prefix_of_notMem w [] b x hx hp).isInfix
    · exact Or.inr hi
  | cons y a ih =>
    rcases List.infix_cons_iff.mp h with hp | hi
    · exact Or.inl (prefix_of_notMem w (y :: a) b x hx hp).isInfix
    · exact (ih hi).imp (fun ha => ha.trans (List.suffix_cons y a).isInfix) id

/-- A line of a text: its last byte is a newline. -/
def IsLine (line : Bytes) : Prop := ∃ t, line = t ++ [newline]

/-- INTERNAL: a word without a newline stands in one line. -/
theorem infix_flatten (w : Bytes) (lines : List Bytes) (hlines : ∀ l ∈ lines, IsLine l)
    (hw : newline ∉ w) (hne : w ≠ []) (h : w <:+: lines.flatten) : ∃ l ∈ lines, w <:+: l := by
  induction lines with
  | nil => exact absurd (List.infix_nil.mp h) hne
  | cons l ls ih =>
    obtain ⟨t, rfl⟩ := hlines l List.mem_cons_self
    rw [List.flatten_cons, List.append_assoc, List.singleton_append] at h
    rcases infix_of_notMem w t ls.flatten newline hw h with ht | hls
    · exact ⟨t ++ [newline], List.mem_cons_self, ht.trans (List.prefix_append t _).isInfix⟩
    · obtain ⟨l', hl', hwl⟩ := ih (fun l hl => hlines l (List.mem_cons_of_mem _ hl)) hls
      exact ⟨l', List.mem_cons_of_mem _ hl', hwl⟩

/-- INTERNAL: a text of lines is empty or ends in a newline. -/
theorem flatten_isLine (lines : List Bytes) (hlines : ∀ l ∈ lines, IsLine l) (hne : lines ≠ []) :
    IsLine lines.flatten := by
  obtain ⟨init, last, rfl⟩ := (List.eq_nil_or_concat' lines).resolve_left hne
  obtain ⟨t, rfl⟩ := hlines last (by simp)
  exact ⟨init.flatten ++ t, by simp⟩

/-- INTERNAL: **a last line stands only at the end**: a word that no line holds, followed by
a newline, ends a prefix of the text only if that prefix is the whole text. -/
theorem eq_of_suffix_prefix (word : Bytes) (lines : List Bytes) (hlines : ∀ l ∈ lines, IsLine l)
    (hw : newline ∉ word) (hne : word ≠ []) (hno : ∀ l ∈ lines, ¬ word <:+: l) (pre : Bytes)
    (hpre : pre <+: lines.flatten ++ (word ++ [newline])) (hsuf : word ++ [newline] <:+ pre) :
    pre = lines.flatten ++ (word ++ [newline]) := by
  obtain ⟨u, rfl⟩ := hsuf
  obtain ⟨v, hv⟩ := hpre
  rcases List.eq_nil_or_concat' v with rfl | ⟨v', b, rfl⟩
  · simpa using hv
  -- otherwise the word stands before the last newline of the lines
  exfalso
  have hlen := congrArg List.length hv
  simp only [List.length_append, List.length_singleton] at hlen
  have hlines0 : lines ≠ [] := by
    intro h
    rw [h] at hlen
    simp only [List.flatten_nil, List.length_nil] at hlen
    omega
  obtain ⟨F, hF⟩ := flatten_isLine lines hlines hlines0
  rw [hF] at hv hlen
  have hv' : u ++ word ++ (newline :: v') = F ++ [newline] ++ word := by
    have h : (u ++ word ++ newline :: v') ++ [b] = (F ++ [newline] ++ word) ++ [newline] := by
      simpa [List.append_assoc] using hv
    exact (List.append_inj' h rfl).1
  simp only [List.length_append, List.length_singleton] at hlen
  by_cases hle : u.length + word.length ≤ F.length
  · have huw : u ++ word <+: F ++ [newline] ++ word := hv' ▸ List.prefix_append _ _
    have hF0 : F <+: F ++ [newline] ++ word := by
      rw [List.append_assoc]
      exact List.prefix_append _ _
    have hwF : u ++ word <+: F :=
      List.prefix_of_prefix_length_le huw hF0 (by simpa using hle)
    have hin : word <:+: lines.flatten := by
      rw [hF]
      exact ((List.suffix_append u word).isInfix.trans hwF.isInfix).trans (List.prefix_append F _).isInfix
    obtain ⟨l, hl, hwl⟩ := infix_flatten word lines hlines hw hne hin
    exact hno l hl hwl
  · have hv'' : newline :: v' <:+ F ++ [newline] ++ word := hv' ▸ List.suffix_append _ _
    have hsuf : newline :: v' <:+ word := by
      apply List.suffix_of_suffix_length_le hv'' (List.suffix_append _ _)
      simp only [List.length_cons]
      omega
    exact hw (hsuf.mem List.mem_cons_self)

/-- INTERNAL: a word that neither a line nor the last line holds is not in the text. -/
theorem not_infix_text (w word : Bytes) (lines : List Bytes) (hlines : ∀ l ∈ lines, IsLine l)
    (hw : newline ∉ w) (hlt : word.length < w.length) (hno : ∀ l ∈ lines, ¬ w <:+: l) :
    ¬ w <:+: lines.flatten ++ (word ++ [newline]) := by
  have hne : w ≠ [] := by
    intro h
    simp [h] at hlt
  have hword : ¬ w <:+: word := fun h => absurd h.length_le (by omega)
  intro h
  rw [← List.append_assoc] at h
  rcases infix_of_notMem w _ [] newline hw h with h | h
  · by_cases hl : lines = []
    · rw [hl] at h
      exact hword (by simpa using h)
    · obtain ⟨F, hF⟩ := flatten_isLine lines hlines hl
      rw [hF, List.append_assoc, List.singleton_append] at h
      rcases infix_of_notMem w F word newline hw h with hin | hin
      · have hflat : w <:+: lines.flatten := by
          rw [hF]
          exact hin.trans (List.prefix_append F _).isInfix
        obtain ⟨l, hmem, hwl⟩ := infix_flatten w lines hlines hw hne hflat
        exact hno l hmem hwl
      · exact hword hin
  · exact hne (List.infix_nil.mp h)

/-- INTERNAL: a suffix of two strings in a row lies in the second or covers it. -/
theorem suffix_append_cases {α : Type} (w a c : List α) (h : w <:+ a ++ c) :
    w <:+ c ∨ ∃ v, v <:+ a ∧ w = v ++ c := by
  obtain ⟨u, hu⟩ := h
  rcases List.append_eq_append_iff.mp hu with ⟨a', rfl, rfl⟩ | ⟨c', rfl, rfl⟩
  · exact Or.inr ⟨a', List.suffix_append u a', rfl⟩
  · exact Or.inl (List.suffix_append c' w)

/-- A single line: its only newline is its last byte. -/
def IsOneLine (line : Bytes) : Prop := ∃ t, newline ∉ t ∧ line = t ++ [newline]

/-- INTERNAL: the last byte decides together with the others. -/
theorem isOneLine_concat (t : Bytes) (b : UInt8) :
    IsOneLine (t ++ [b]) ↔ newline ∉ t ∧ b = newline := by
  constructor
  · rintro ⟨t', ht', h⟩
    obtain ⟨rfl, hb⟩ := List.append_inj' h rfl
    exact ⟨ht', by simpa using hb⟩
  · rintro ⟨ht, rfl⟩
    exact ⟨t, ht, rfl⟩

/-- INTERNAL: two texts that agree have the same first line. -/
theorem append_newline_inj (t t' a b : Bytes) (ht : newline ∉ t) (ht' : newline ∉ t')
    (h : t ++ newline :: a = t' ++ newline :: b) : t = t' ∧ a = b := by
  induction t generalizing t' with
  | nil =>
    cases t' with
    | nil => exact ⟨rfl, by simpa using h⟩
    | cons y t' =>
      obtain ⟨rfl, -⟩ : newline = y ∧ _ := by simpa using h
      exact absurd List.mem_cons_self ht'
  | cons x t ih =>
    cases t' with
    | nil =>
      obtain ⟨rfl, -⟩ : x = newline ∧ _ := by simpa using h
      exact absurd List.mem_cons_self ht
    | cons y t' =>
      rw [List.cons_append, List.cons_append, List.cons.injEq] at h
      obtain ⟨rfl, hrest⟩ := h
      obtain ⟨rfl, rfl⟩ := ih t' (fun hm => ht (List.mem_cons_of_mem x hm))
        (fun hm => ht' (List.mem_cons_of_mem x hm)) hrest
      exact ⟨rfl, rfl⟩

/-- INTERNAL: **a text has only one division into lines.** -/
theorem lines_append_inj (ls ms : List Bytes) (hls : ∀ l ∈ ls, IsOneLine l)
    (hms : ∀ l ∈ ms, IsOneLine l) (hlen : ls.length = ms.length) (a b : Bytes)
    (h : ls.flatten ++ a = ms.flatten ++ b) : ls = ms ∧ a = b := by
  induction ls generalizing ms with
  | nil =>
    obtain rfl : ms = [] := List.length_eq_zero_iff.mp hlen.symm
    exact ⟨rfl, by simpa using h⟩
  | cons l ls ih =>
    cases ms with
    | nil => simp at hlen
    | cons m ms =>
      obtain ⟨t, ht, rfl⟩ := hls l List.mem_cons_self
      obtain ⟨t', ht', rfl⟩ := hms m List.mem_cons_self
      simp only [List.flatten_cons, List.append_assoc, List.singleton_append] at h
      obtain ⟨rfl, hrest⟩ := append_newline_inj t t' _ _ ht ht' h
      obtain ⟨rfl, rfl⟩ := ih ms (fun l hl => hls l (List.mem_cons_of_mem _ hl))
        (fun l hl => hms l (List.mem_cons_of_mem _ hl)) (by simpa using hlen) hrest
      exact ⟨rfl, rfl⟩

/-! ## Bytes that are not zero -/

/-- The number of bytes that are not zero. -/
def nonzeros (l : Bytes) : ℕ := l.countP (· ≠ 0)

/-- INTERNAL: counting in two parts. -/
@[simp] theorem nonzeros_append (a b : Bytes) : nonzeros (a ++ b) = nonzeros a + nonzeros b :=
  List.countP_append

/-- INTERNAL: zeros are not counted. -/
@[simp] theorem nonzeros_replicate_zero (n : ℕ) : nonzeros (List.replicate n 0) = 0 := by
  simp [nonzeros, List.countP_replicate]

/-- INTERNAL: a longer prefix holds at least as many of them. -/
theorem nonzeros_take_mono (l : Bytes) (m n : ℕ) (h : m ≤ n) :
    nonzeros (l.take m) ≤ nonzeros (l.take n) := by
  have hsub : (l.take m).Sublist (l.take n) := by
    rw [← Nat.min_eq_left h, ← List.take_take]
    exact List.take_sublist m (l.take n)
  exact hsub.countP_le

/-! ## Texts that are continued -/

/-- INTERNAL: two texts that go on with a letter that neither of them has. -/
theorem append_inj_of_stop {α : Type} (p : α → Bool) (a b x y : List α) (ha : ∀ c ∈ a, p c)
    (hb : ∀ c ∈ b, p c) (hx : ∀ c ∈ x.head?, p c = false) (hy : ∀ c ∈ y.head?, p c = false)
    (h : a ++ x = b ++ y) : a = b ∧ x = y := by
  have htake : ∀ l z : List α, (∀ c ∈ l, p c) → (∀ c ∈ z.head?, p c = false) →
      (l ++ z).takeWhile p = l := by
    intro l z hl hz
    rw [List.takeWhile_append_of_pos hl]
    cases z with
    | nil => simp
    | cons c z =>
      rw [List.takeWhile_cons, hz c (by simp)]
      simp
  have hab : a = b := by rw [← htake a x ha hx, h, htake b y hb hy]
  rw [hab] at h
  exact ⟨hab, List.append_cancel_left h⟩

/-- INTERNAL: zeros behind two texts without trailing zeros. -/
theorem eq_of_append_zeros {α : Type} [DecidableEq α] (z : α) (a b : List α) (m n : ℕ)
    (ha : a = [z] ∨ a.getLast? ≠ some z) (hb : b = [z] ∨ b.getLast? ≠ some z) (ha0 : a ≠ [])
    (hb0 : b ≠ [])
    (h : a ++ List.replicate m z = b ++ List.replicate n z) : a = b := by
  have hdrop : ∀ (l : List α) (k : ℕ),
      (l ++ List.replicate k z).reverse.dropWhile (· = z) = l.reverse.dropWhile (· = z) := by
    intro l k
    rw [List.reverse_append, List.reverse_replicate, List.dropWhile_append_of_pos]
    intro c hc
    simp [List.eq_of_mem_replicate hc]
  have hkeep : ∀ l : List α, l ≠ [] → l.getLast? ≠ some z → l.reverse.dropWhile (· = z) = l.reverse := by
    intro l hl hlast
    cases hr : l.reverse with
    | nil => simp
    | cons c r =>
      have hc : c ≠ z := by
        intro hcz
        apply hlast
        rw [← List.head?_reverse, hr, hcz]
        rfl
      simp [hc]
  have hrev : a.reverse.dropWhile (· = z) = b.reverse.dropWhile (· = z) := by
    rw [← hdrop a m, h, hdrop b n]
  rcases ha with rfl | ha <;> rcases hb with rfl | hb
  · rfl
  · rw [hkeep b hb0 hb] at hrev
    simp at hrev
    exact absurd hrev hb0
  · rw [hkeep a ha0 ha] at hrev
    simp at hrev
    exact absurd hrev ha0
  · rw [hkeep a ha0 ha, hkeep b hb0 hb] at hrev
    exact List.reverse_injective hrev

end TTLinux.Lib
