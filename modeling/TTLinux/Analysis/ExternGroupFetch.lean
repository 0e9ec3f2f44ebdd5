import Mathlib
import TTLinux.Model.ExternGroups

/-!
# Fetching the external groups

`get_external_groups` on replies that arrive in several pieces. Because every read that
does not end the reply moves the read position to the end of the buffer, a read that
returns less than it asked for leaves a gap. `delivers_iff` says for which
replies and pieces the buffer still holds the groups.

The buffer of the read loop is written `A ++ tail`: the bytes before the read position
and the room behind it.
-/

set_option autoImplicit false

namespace TTLinux.Analysis.ExternGroupFetch

open TTLinux.Lib TTLinux.Model.ExternGroups

/-! ## One read -/

/-- Socket, connection and allocations work. -/
structure Works (sys : System) : Prop where
  socket : sys.socket = true
  connect : sys.connect = 0
  writable : sys.writable = true
  realloc : ∀ n, sys.realloc n = true

/-- INTERNAL: the last line of a complete reply has eight bytes. -/
@[simp] theorem length_gadsend : gadsend.length = 8 := rfl

/-- INTERNAL: a read stores at the read position, and what stood behind its bytes stays. -/
theorem store_append (A tail c : Bytes) : store (A ++ tail) A.length c = A ++ c ++ tail.drop c.length := by
  unfold store
  rw [List.take_left', List.drop_append]
  · simp
  · rfl

/-- INTERNAL: `strncmp` at the end of what has been read compares with a suffix.
SOURCE: externgroups.patch:334, 347 -/
theorem endsWith_append (B tail word : Bytes) :
    endsWith (B ++ tail) B.length word = true ↔ word <:+ B := by
  unfold endsWith
  rw [Bool.and_eq_true, decide_eq_true_eq, beq_iff_eq, List.suffix_iff_eq_drop]
  constructor
  · rintro ⟨hle, heq⟩
    rw [List.drop_append_of_le_length (by omega), List.take_append_of_le_length (by simp; omega),
      List.take_of_length_le (by simp; omega)] at heq
    exact heq.symm
  · intro heq
    have hle : word.length ≤ B.length := by
      rw [heq, List.length_drop]
      omega
    refine ⟨hle, ?_⟩
    rw [List.drop_append_of_le_length (by omega), List.take_append_of_le_length (by simp; omega),
      List.take_of_length_le (by simp; omega)]
    exact heq.symm

/-- INTERNAL: the end of a reply behind at least one byte.
SOURCE: externgroups.patch:334-346 -/
theorem finish_append (X tail : Bytes) (b : UInt8) :
    finish (X ++ [b] ++ gadsend ++ tail) (X.length + 9) =
      .returned (some (X ++ [newline] ++ List.replicate 8 0 ++ tail)) false := by
  have hzero : store (X ++ [b] ++ gadsend ++ tail) (X.length + 9 - 8) (List.replicate 8 0) =
      X ++ [b] ++ List.replicate 8 0 ++ tail := by
    have h := store_append (X ++ [b]) (gadsend ++ tail) (List.replicate 8 0)
    have hdrop : List.drop 8 gadsend = [] := rfl
    simpa [List.append_assoc, List.drop_append, hdrop] using h
  have hnl : store (X ++ [b] ++ List.replicate 8 0 ++ tail) (X.length + 9 - 9) [newline] =
      X ++ [newline] ++ List.replicate 8 0 ++ tail := by
    have h := store_append X ([b] ++ List.replicate 8 0 ++ tail) [newline]
    simpa [List.append_assoc] using h
  rw [finish, if_neg (by omega), hzero, hnl]

/-- INTERNAL: **one read** of `c` behind `A`: end of the reply, refusal, or a larger
buffer with the read position at the old end.
SOURCE: externgroups.patch:328-364 -/
theorem receive_read (sys : System) (hsys : Works sys) (A tail c : Bytes) (rest : List Event)
    (hne : c ≠ []) (hfit : c.length ≤ tail.length) :
    receive sys (A ++ tail) A.length (.data c :: rest) =
      if gadsend <:+ A ++ c then finish (A ++ c ++ tail.drop c.length) (A.length + c.length)
      else if gadserror <:+ A ++ c then .returned none true
      else receive sys
        ((A ++ c ++ tail.drop c.length) ++ grown sys.junk (A.length + tail.length))
        (A ++ c ++ tail.drop c.length).length rest := by
  have hroom : (A ++ tail).length - A.length = tail.length := by simp
  have htake : c.take tail.length = c := List.take_of_length_le hfit
  have hdrop : c.drop tail.length = [] := List.drop_of_length_le hfit
  have hlen : (A ++ c ++ tail.drop c.length).length = A.length + tail.length := by
    simp only [List.length_append, List.length_drop]
    omega
  have hends : ∀ word, endsWith (A ++ c ++ tail.drop c.length) (A.length + c.length) word = true ↔
      word <:+ A ++ c := by
    intro word
    rw [← List.length_append]
    exact endsWith_append (A ++ c) _ word
  rw [receive]
  simp only [hroom, htake, hdrop, if_neg hne, store_append, hends, hsys.realloc, if_true, hlen]

/-- INTERNAL: the last read of a reply, when a byte stands before the last line.
SOURCE: externgroups.patch:328-346 -/
theorem receive_end (sys : System) (hsys : Works sys) (A tail c X : Bytes) (b : UInt8)
    (rest : List Event) (hne : c ≠ []) (hfit : c.length ≤ tail.length)
    (hX : A ++ c = X ++ [b] ++ gadsend) :
    receive sys (A ++ tail) A.length (.data c :: rest) =
      .returned (some (X ++ [newline] ++ List.replicate 8 0 ++ tail.drop c.length)) false := by
  have hlen : A.length + c.length = X.length + 9 := by
    have h := congrArg List.length hX
    simpa using h
  rw [receive_read sys hsys A tail c rest hne hfit,
    if_pos (hX ▸ List.suffix_append _ _), hX, hlen, finish_append]

/-! ## Replies and their pieces -/

/-- The word that ends a reply. -/
def gadsendWord : Bytes := ascii ['G', 'A', 'D', 'S', 'E', 'N', 'D']

/-- The word that ends a refusal. -/
def gadserrorWord : Bytes := ascii ['G', 'A', 'D', 'S', 'E', 'R', 'R', 'O', 'R']

/-- A line that names a group: it ends in a newline and holds neither of the two words. -/
structure IsGroupLine (line : Bytes) : Prop where
  isLine : IsLine line
  noEnd : ¬ gadsendWord <:+: line
  noError : ¬ gadserrorWord <:+: line

/-- The reply for a list of group lines. -/
def reply (lines : List Bytes) : Bytes := lines.flatten ++ gadsend

/-- The number of bytes that the `k`-th of the next reads asks for when the first of them
is made at position `s` of a buffer of `len` bytes. -/
def room (s len : ℕ) : ℕ → ℕ
  | 0 => len - s
  | k + 1 => len * 2 ^ k

/-- No read returns more than it was asked for. -/
def Fits (s len : ℕ) (chunks : List Bytes) : Prop :=
  ∀ k c, chunks[k]? = some c → c.length ≤ room s len k

/-- Every read but the last returns as much as it was asked for. -/
def Fills (s len : ℕ) (chunks : List Bytes) : Prop :=
  ∀ k c, chunks[k]? = some c → k + 1 < chunks.length → c.length = room s len k

/-- The results of the successive reads that bring a reply: none of them is empty. -/
structure IsSplit (lines chunks : List Bytes) : Prop where
  flatten : chunks.flatten = reply lines
  nonempty : ∀ c ∈ chunks, c ≠ []
  fits : Fits 0 27 chunks

/-- INTERNAL: a reply takes at least one read. -/
theorem IsSplit.ne_nil (lines chunks : List Bytes) (h : IsSplit lines chunks) : chunks ≠ [] := by
  intro hnil
  have h8 := congrArg List.length h.flatten
  simp [hnil, reply] at h8

/-- INTERNAL: the reads after the first one start at the end of the buffer. -/
theorem room_succ (s len k : ℕ) : room s len (k + 1) = room len (2 * len) k := by
  cases k with
  | zero =>
    simp only [room, Nat.pow_zero]
    omega
  | succ k =>
    simp only [room, Nat.pow_succ]
    rw [Nat.mul_comm 2 len, Nat.mul_assoc, Nat.mul_comm 2]

/-- INTERNAL: behind the first read, the others are asked for the room of the doubled buffer. -/
theorem Fits.tail (s len : ℕ) (c : Bytes) (cs : List Bytes) (h : Fits s len (c :: cs)) :
    Fits len (2 * len) cs := by
  intro k c' hc'
  rw [← room_succ s]
  exact h (k + 1) c' (by simpa using hc')

/-- INTERNAL: and likewise when every read but the last fills its room. -/
theorem Fills.tail (s len : ℕ) (c : Bytes) (cs : List Bytes) (h : Fills s len (c :: cs)) :
    Fills len (2 * len) cs := by
  intro k c' hc' hk
  rw [← room_succ s]
  exact h (k + 1) c' (by simpa using hc') (by simpa using hk)

/-- INTERNAL: a filling first read and filling later reads. -/
theorem Fills.cons (s len : ℕ) (c : Bytes) (cs : List Bytes) (hc : c.length = len - s)
    (h : Fills len (2 * len) cs) : Fills s len (c :: cs) := by
  intro k c' hc' hk
  cases k with
  | zero =>
    obtain rfl : c = c' := by simpa using hc'
    exact hc
  | succ k =>
    rw [room_succ]
    exact h k c' (by simpa using hc') (by simpa using hk)

section

variable (lines : List Bytes)

/-- INTERNAL: the last line of a reply stands only at its end. -/
theorem gadsend_only_at_end (hlines : ∀ l ∈ lines, IsGroupLine l) (pre : Bytes)
    (hpre : pre <+: reply lines) (hsuf : gadsend <:+ pre) : pre = reply lines :=
  eq_of_suffix_prefix gadsendWord lines (fun l hl => (hlines l hl).isLine) (by decide) (by decide)
    (fun l hl => (hlines l hl).noEnd) pre hpre hsuf

/-- INTERNAL: no part of a reply is a refusal. -/
theorem not_gadserror (hlines : ∀ l ∈ lines, IsGroupLine l) (pre : Bytes)
    (hpre : pre <+: reply lines) : ¬ gadserror <:+ pre := by
  intro hsuf
  have hword : gadserrorWord <:+: gadserror := (List.prefix_append gadserrorWord [newline]).isInfix
  exact not_infix_text gadserrorWord gadsendWord lines (fun l hl => (hlines l hl).isLine) (by decide)
    (by decide) (fun l hl => (hlines l hl).noError)
    ((hword.trans hsuf.isInfix).trans hpre.isInfix)

/-- INTERNAL: **a read in the middle of a reply**, behind everything read so far, goes on.
SOURCE: externgroups.patch:328-364 -/
theorem receive_middle (sys : System) (hsys : Works sys) (hlines : ∀ l ∈ lines, IsGroupLine l)
    (A tail c : Bytes) (cs : List Bytes) (rest : List Event) (hne : c ≠ []) (hcs : cs.flatten ≠ [])
    (hfit : c.length ≤ tail.length) (hreply : A ++ (c :: cs).flatten = reply lines) :
    receive sys (A ++ tail) A.length (.data c :: rest) =
      receive sys ((A ++ c ++ tail.drop c.length) ++ grown sys.junk (A.length + tail.length))
        (A ++ c ++ tail.drop c.length).length rest := by
  rw [List.flatten_cons, ← List.append_assoc] at hreply
  have hpre : A ++ c <+: reply lines := hreply ▸ List.prefix_append _ _
  have hnot : ¬ gadsend <:+ A ++ c := by
    intro hsuf
    have heq := gadsend_only_at_end lines hlines _ hpre hsuf
    rw [heq] at hreply
    exact hcs (List.append_right_eq_self.mp hreply)
  rw [receive_read sys hsys A tail c rest hne hfit, if_neg hnot,
    if_neg (not_gadserror lines hlines _ hpre)]

end

/-! ## Pieces that keep the groups -/

/-- INTERNAL: **reads that fill the buffer**: the read position stays behind everything
read so far, and the last read ends the reply.
SOURCE: externgroups.patch:322-364 -/
theorem receive_fills (sys : System) (hsys : Works sys) (lines : List Bytes)
    (hlines : ∀ l ∈ lines, IsGroupLine l) (hline : lines ≠ []) (chunks : List Bytes) (A tail : Bytes)
    (hreply : A ++ chunks.flatten = reply lines) (hchunks : chunks ≠ [])
    (hne : ∀ c ∈ chunks, c ≠ []) (hfits : Fits A.length (A.length + tail.length) chunks)
    (hfills : Fills A.length (A.length + tail.length) chunks) :
    ∃ buf, receive sys (A ++ tail) A.length (chunks.map .data) = .returned (some buf) false ∧
      lines.flatten ++ [0] <+: buf := by
  induction chunks generalizing A tail with
  | nil => exact absurd rfl hchunks
  | cons c cs ih =>
    have hc := hne c List.mem_cons_self
    have hfit : c.length ≤ tail.length := by
      have h := hfits 0 c rfl
      simpa [room] using h
    rw [List.map_cons]
    cases cs with
    | nil =>
      -- the last read
      obtain ⟨F, hF⟩ := flatten_isLine lines (fun l hl => (hlines l hl).isLine) hline
      have hX : A ++ c = F ++ [newline] ++ gadsend := by
        rw [← hF]
        simpa [reply] using hreply
      refine ⟨_, receive_end sys hsys A tail c F newline _ hc hfit hX, ?_⟩
      rw [hF, List.append_assoc _ (List.replicate 8 0)]
      exact (List.prefix_append_right_inj _).mpr ⟨List.replicate 7 0 ++ tail.drop c.length, rfl⟩
    | cons c' cs =>
      have hfull : c.length = tail.length := by
        have h := hfills 0 c rfl (by simp)
        simpa [room] using h
      have hdrop : tail.drop c.length = [] := List.drop_of_length_le (by omega)
      have hrest : (c' :: cs).flatten ≠ [] := by
        rw [List.flatten_cons]
        exact List.append_ne_nil_of_left_ne_nil (hne c' (by simp)) _
      rw [receive_middle lines sys hsys hlines A tail c (c' :: cs) _ hc hrest hfit hreply, hdrop,
        List.append_nil]
      have hlen : (A ++ c).length = A.length + tail.length := by
        rw [List.length_append, hfull]
      have hgrown : (grown sys.junk (A.length + tail.length)).length = A.length + tail.length := by
        simp [grown]
      have htwo : A.length + tail.length + (A.length + tail.length) = 2 * (A.length + tail.length) := by
        omega
      refine ih (A ++ c) _ ?_ (by simp) (fun x hx => hne x (List.mem_cons_of_mem c hx)) ?_ ?_
      · rw [← hreply]
        simp
      · rw [hgrown, hlen, htwo]
        exact hfits.tail
      · rw [hgrown, hlen, htwo]
        exact hfills.tail

/-- INTERNAL: **two reads**: all groups, which leave room for two more bytes in the first
buffer, and then the last line.
SOURCE: externgroups.patch:322-364 -/
theorem receive_two (sys : System) (hsys : Works sys) (lines : List Bytes)
    (hlines : ∀ l ∈ lines, IsGroupLine l) (hline : lines ≠ []) (hlen : lines.flatten.length ≤ 25) :
    ∃ buf, receive sys (List.replicate 27 0) 0 ([lines.flatten, gadsend].map .data) =
        .returned (some buf) false ∧ lines.flatten ++ [0] <+: buf := by
  obtain ⟨F, hF⟩ := flatten_isLine lines (fun l hl => (hlines l hl).isLine) hline
  have hne : lines.flatten ≠ [] := by simp [hF]
  have hfirst := receive_middle lines sys hsys hlines [] (List.replicate 27 0) lines.flatten [gadsend]
    [.data gadsend] hne (by decide) (by rw [List.length_replicate]; omega) (by simp [reply])
  simp only [List.nil_append, List.length_nil, List.drop_replicate] at hfirst
  simp only [List.map_cons, List.map_nil, hfirst]
  -- the gap behind the groups: one zero byte, more of them, and the last one
  obtain ⟨g, hg⟩ : ∃ g, 27 - lines.flatten.length = g + 2 := ⟨25 - lines.flatten.length, by omega⟩
  have hsplit : lines.flatten ++ List.replicate (27 - lines.flatten.length) 0 ++ gadsend =
      (lines.flatten ++ [0] ++ List.replicate g 0) ++ [0] ++ gadsend := by
    rw [hg, List.replicate_succ, List.replicate_succ']
    simp
  refine ⟨_, receive_end sys hsys _ _ gadsend _ 0 _ (by decide) ?_ hsplit, ?_⟩
  · simp [grown]
  · simp only [List.append_assoc]
    exact (List.prefix_append_right_inj _).mpr (List.prefix_append _ _)

/-! ## Gaps

From here on `realloc` leaves one and the same byte everywhere, mostly zero. -/

/-- INTERNAL: what `realloc` appends when its bytes are all the same. -/
theorem grown_const (sys : System) (x : UInt8) (hjunk : ∀ i, sys.junk i = x) (len : ℕ) :
    grown sys.junk len = List.replicate len x := by
  have hfun : (fun i => sys.junk (len + i)) = fun _ => x := funext fun i => hjunk (len + i)
  rw [grown, hfun, List.map_const', List.length_range]

/-- What is in the buffer `A` lags behind the bytes read so far: after a gap at `p` each
prefix of `A` holds no more of them than a shorter prefix of what was read. -/
structure Lags (p : ℕ) (consumed A : Bytes) : Prop where
  longer : consumed.length < A.length
  behind : ∀ m, p < m → nonzeros (A.take m) ≤ nonzeros (consumed.take (m - 1))

/-- A string without zero bytes that ends the buffer ends what was read. -/
def KeepsEnds (consumed A : Bytes) : Prop := ∀ w, (0 : UInt8) ∉ w → w <:+ A → w <:+ consumed

/-- INTERNAL: reading keeps the lag. -/
theorem Lags.read (p : ℕ) (consumed A c : Bytes) (h : Lags p consumed A) :
    Lags p (consumed ++ c) (A ++ c) := by
  refine ⟨by simpa using h.longer, fun m hm => ?_⟩
  have hlong := h.longer
  have hbehind := h.behind m hm
  have hc := nonzeros_take_mono c (m - A.length) (m - 1 - consumed.length) (by omega)
  rw [List.take_append, List.take_append, nonzeros_append, nonzeros_append]
  omega

/-- INTERNAL: a gap keeps the lag. -/
theorem Lags.gap (p : ℕ) (consumed A : Bytes) (h : Lags p consumed A) (n : ℕ) :
    Lags p consumed (A ++ List.replicate n 0) := by
  refine ⟨?_, fun m hm => ?_⟩
  · have hlong := h.longer
    simp only [List.length_append]
    omega
  · rw [List.take_append, List.take_replicate, nonzeros_append, nonzeros_replicate_zero]
    exact h.behind m hm

/-- INTERNAL: the first gap starts the lag. -/
theorem lags_of_gap (consumed : Bytes) (n : ℕ) (hn : 0 < n) :
    Lags consumed.length consumed (consumed ++ List.replicate n 0) := by
  refine ⟨by simpa using hn, fun m hm => ?_⟩
  rw [List.take_append, List.take_replicate, nonzeros_append, nonzeros_replicate_zero,
    List.take_of_length_le (by omega), List.take_of_length_le (by omega)]
  omega

/-- INTERNAL: reading keeps the ends. -/
theorem KeepsEnds.read (consumed A c : Bytes) (h : KeepsEnds consumed A) :
    KeepsEnds (consumed ++ c) (A ++ c) := by
  intro w hw hsuf
  rcases suffix_append_cases w A c hsuf with hc | ⟨v, hv, rfl⟩
  · exact hc.trans (List.suffix_append consumed c)
  · obtain ⟨u, hu⟩ := h v (fun h0 => hw (List.mem_append_left c h0)) hv
    exact ⟨u, by rw [← hu, List.append_assoc]⟩

/-- INTERNAL: a gap keeps the ends: what ends in it is empty. -/
theorem KeepsEnds.gap (consumed A : Bytes) (h : KeepsEnds consumed A) (n : ℕ) :
    KeepsEnds consumed (A ++ List.replicate n 0) := by
  intro w hw hsuf
  rcases suffix_append_cases w A _ hsuf with hc | ⟨v, hv, rfl⟩
  · have hnil : w = [] := by
      apply List.eq_nil_iff_forall_not_mem.mpr
      intro b hb
      exact hw (List.eq_of_mem_replicate (hc.mem hb) ▸ hb)
    rw [hnil]
    exact List.nil_suffix
  · cases n with
    | zero => simpa using h v (by simpa using hw) hv
    | succ n => simp [List.replicate_succ] at hw

/-- INTERNAL: nothing has been lost while every read filled the buffer. -/
theorem keepsEnds_refl (consumed : Bytes) : KeepsEnds consumed consumed := fun _ _ h => h

/-- INTERNAL: **reads after a gap inside the groups** never bring all groups.
SOURCE: externgroups.patch:322-364 -/
theorem receive_after_gap (sys : System) (hsys : Works sys) (hjunk : ∀ i, sys.junk i = 0)
    (lines : List Bytes) (hlines : ∀ l ∈ lines, IsGroupLine l) (F : Bytes)
    (hF : lines.flatten = F ++ [newline]) (p : ℕ) (hp : p < lines.flatten.length)
    (chunks : List Bytes) (consumed A : Bytes) (r : ℕ)
    (hreply : consumed ++ chunks.flatten = reply lines) (hne : ∀ c ∈ chunks, c ≠ [])
    (hfits : Fits A.length (A.length + r) chunks) (hlag : Lags p consumed A)
    (hends : KeepsEnds consumed A) (buf : Bytes) (err : Bool)
    (hret : receive sys (A ++ List.replicate r 0) A.length (chunks.map .data) =
      .returned (some buf) err) :
    ¬ lines.flatten ++ [0] <+: buf := by
  induction chunks generalizing consumed A r with
  | nil => simp [receive] at hret
  | cons c cs ih =>
    have hc := hne c List.mem_cons_self
    have hfit : c.length ≤ r := by
      have h := hfits 0 c rfl
      simpa [room] using h
    rw [List.flatten_cons, ← List.append_assoc] at hreply
    have hpre : consumed ++ c <+: reply lines := hreply ▸ List.prefix_append _ _
    rw [List.map_cons] at hret
    by_cases hend : gadsend <:+ A ++ c
    · -- the end is recognised, so all of the reply has been read
      have hall : consumed ++ c = reply lines :=
        gadsend_only_at_end lines hlines _ hpre (hends.read _ _ c gadsend (by decide) hend)
      obtain ⟨X, hX⟩ := hend
      have hlag' := hlag.read _ _ _ c
      have hlenX : lines.flatten.length < X.length := by
        have hlong := hlag'.longer
        rw [hall, ← hX] at hlong
        simpa [reply] using hlong
      obtain ⟨Y, b, rfl⟩ := (List.eq_nil_or_concat' X).resolve_left
        (fun h => by rw [h] at hlenX; simp at hlenX)
      rw [receive_end sys hsys A _ c Y b _ hc (by simpa using hfit) hX.symm] at hret
      obtain ⟨rfl, -⟩ : Y ++ [newline] ++ List.replicate 8 0 ++
          (List.replicate r (0 : UInt8)).drop c.length = buf ∧ false = err := by
        simpa using hret
      intro hprefix
      -- the groups would be a prefix of the buffer
      have hY : lines.flatten = (A ++ c).take lines.flatten.length := by
        have hYlen : lines.flatten.length ≤ Y.length := by simpa [Nat.lt_succ_iff] using hlenX
        have h1 : lines.flatten <+: Y := by
          refine List.prefix_of_prefix_length_le
            ((List.prefix_append lines.flatten [0]).trans hprefix) ?_ hYlen
          simp only [List.append_assoc]
          exact List.prefix_append _ _
        have h2 : lines.flatten <+: A ++ c := by
          rw [← hX]
          simp only [List.append_assoc]
          exact h1.trans (List.prefix_append _ _)
        exact List.prefix_iff_eq_take.mp h2
      have hcount := hlag'.behind lines.flatten.length hp
      rw [← hY, hall, hF] at hcount
      have hone : nonzeros [newline] = 1 := by decide
      have htake : (reply lines).take ((F ++ [newline]).length - 1) = F := by
        rw [reply, hF, List.append_assoc, List.length_append, List.length_singleton, Nat.add_sub_cancel,
          List.take_left]
      rw [htake, nonzeros_append, hone] at hcount
      omega
    · rw [receive_read sys hsys A _ c _ hc (by simpa using hfit), if_neg hend] at hret
      by_cases herr : gadserror <:+ A ++ c
      · rw [if_pos herr] at hret
        simp at hret
      · rw [if_neg herr, grown_const sys 0 hjunk, List.length_replicate, List.drop_replicate] at hret
        have hlen : (A ++ c ++ List.replicate (r - c.length) 0).length = A.length + r := by
          simp only [List.length_append, List.length_replicate]
          omega
        have htwo : A.length + r + (A.length + r) = 2 * (A.length + r) := by omega
        refine ih (consumed ++ c) (A ++ c ++ List.replicate (r - c.length) 0) (A.length + r) hreply
          (fun x hx => hne x (List.mem_cons_of_mem c hx)) ?_
          ((hlag.read _ _ _ c).gap _ _ _ _) ((hends.read _ _ c).gap _ _ _) hret
        rw [hlen, htwo]
        exact hfits.tail

/-- INTERNAL: **short reads after a gap** are never taken for the end of a reply.
SOURCE: externgroups.patch:322-364 -/
theorem receive_short (sys : System) (hsys : Works sys) (hjunk : ∀ i, sys.junk i = 0)
    (chunks : List Bytes) (A : Bytes) (r : ℕ) (hr : 8 ≤ r) (hne : ∀ c ∈ chunks, c ≠ [])
    (hshort : ∀ c ∈ chunks, c.length < 8) (buf : Bytes) (err : Bool) :
    receive sys (A ++ [0] ++ List.replicate r 0) (A ++ [0]).length (chunks.map .data) ≠
      .returned (some buf) err := by
  induction chunks generalizing A r with
  | nil => simp [receive]
  | cons c cs ih =>
    have hlt := hshort c List.mem_cons_self
    have hend : ¬ gadsend <:+ A ++ [0] ++ c := by
      intro hsuf
      rcases suffix_append_cases gadsend (A ++ [0]) c hsuf with hc | ⟨v, hv, hw⟩
      · have h := hc.length_le
        rw [length_gadsend] at h
        omega
      · -- the last line would hold the zero byte
        rcases suffix_append_cases v A [0] hv with hv0 | ⟨u, -, rfl⟩
        · cases v with
          | nil =>
            have h := congrArg List.length hw
            rw [length_gadsend, List.nil_append] at h
            omega
          | cons b v =>
            have hb : b = 0 := by simpa using hv0.mem List.mem_cons_self
            have hmem : (0 : UInt8) ∈ gadsend := by rw [hw, hb]; simp
            exact absurd hmem (by decide)
        · have hmem : (0 : UInt8) ∈ gadsend := by rw [hw]; simp
          exact absurd hmem (by decide)
    rw [List.map_cons, receive_read sys hsys _ _ c _ (hne c List.mem_cons_self) (by simp; omega),
      if_neg hend]
    by_cases herr : gadserror <:+ A ++ [0] ++ c
    · rw [if_pos herr]
      simp
    · obtain ⟨g, hg⟩ : ∃ g, r - c.length = g + 1 := ⟨r - c.length - 1, by omega⟩
      have hsplit : A ++ [0] ++ c ++ List.replicate (r - c.length) 0 =
          (A ++ [0] ++ c ++ List.replicate g 0) ++ [0] := by
        rw [hg, List.replicate_succ']
        simp
      rw [if_neg herr, grown_const sys 0 hjunk, List.drop_replicate, hsplit]
      exact ih _ _ (by simp; omega) (fun x hx => hne x (List.mem_cons_of_mem c hx))
        (fun x hx => hshort x (List.mem_cons_of_mem c hx))

/-- INTERNAL: pieces of which one is as long as all together. -/
theorem eq_singleton_of_length (chunks : List Bytes) (hne : ∀ c ∈ chunks, c ≠ []) (x : Bytes)
    (hx : x ∈ chunks) (hlen : chunks.flatten.length ≤ x.length) : chunks = [x] := by
  have hnil : ∀ l : List Bytes, (∀ c ∈ l, c ∈ chunks) → l.flatten.length = 0 → l = [] := by
    intro l hl h0
    cases l with
    | nil => rfl
    | cons c cs =>
      have hc := hne c (hl c List.mem_cons_self)
      rw [List.flatten_cons, List.length_append] at h0
      exact absurd (List.length_eq_zero_iff.mp (by omega)) hc
  obtain ⟨l, r, rfl⟩ := List.append_of_mem hx
  simp only [List.flatten_append, List.flatten_cons, List.length_append] at hlen
  rw [hnil l (fun c hc => by simp [hc]) (by omega), hnil r (fun c hc => by simp [hc]) (by omega)]
  rfl

/-- INTERNAL: **a gap that keeps the groups** comes between the groups and the last line.
SOURCE: externgroups.patch:322-364 -/
theorem gap_before_end (sys : System) (hsys : Works sys) (hjunk : ∀ i, sys.junk i = 0)
    (lines : List Bytes) (hlines : ∀ l ∈ lines, IsGroupLine l) (A c c' : Bytes) (cs : List Bytes)
    (r : ℕ) (hr : 8 ≤ A.length + r) (hreply : A ++ (c :: c' :: cs).flatten = reply lines)
    (hne : ∀ x ∈ c :: c' :: cs, x ≠ []) (hfits : Fits A.length (A.length + r) (c :: c' :: cs))
    (hgap : c.length < r) (buf : Bytes) (err : Bool)
    (hret : receive sys (A ++ List.replicate r 0) A.length ((c :: c' :: cs).map .data) =
      .returned (some buf) err)
    (hbuf : lines.flatten ++ [0] <+: buf) :
    A ++ c = lines.flatten ∧ c' :: cs = [gadsend] := by
  have hne' : ∀ x ∈ c' :: cs, x ≠ [] := fun x hx => hne x (List.mem_cons_of_mem c hx)
  have hrest : (c' :: cs).flatten ≠ [] := by
    rw [List.flatten_cons]
    exact List.append_ne_nil_of_left_ne_nil (hne' c' List.mem_cons_self) _
  rw [List.map_cons, receive_middle lines sys hsys hlines A _ c (c' :: cs) _
    (hne c List.mem_cons_self) hrest (by simp; omega) hreply, grown_const sys 0 hjunk,
    List.length_replicate, List.drop_replicate] at hret
  have hsplit : A ++ c ++ (c' :: cs).flatten = lines.flatten ++ gadsend := by
    rw [← show reply lines = lines.flatten ++ gadsend from rfl, ← hreply]
    simp
  have hlen : (A ++ c ++ List.replicate (r - c.length) 0).length = A.length + r := by
    simp only [List.length_append, List.length_replicate]
    omega
  have htwo : A.length + r + (A.length + r) = 2 * (A.length + r) := by omega
  by_cases hp : (A ++ c).length < lines.flatten.length
  · -- a gap inside the groups
    exfalso
    have hl : lines ≠ [] := by
      intro h
      simp [h] at hp
    obtain ⟨F, hF⟩ := flatten_isLine lines (fun l hl => (hlines l hl).isLine) hl
    refine receive_after_gap sys hsys hjunk lines hlines F hF (A ++ c).length hp (c' :: cs) (A ++ c)
      _ (A.length + r) hsplit hne' ?_ (lags_of_gap _ _ (by omega))
      ((keepsEnds_refl _).gap _ _ _) buf err hret hbuf
    rw [hlen, htwo]
    exact hfits.tail
  · obtain ⟨t, ht⟩ : lines.flatten <+: A ++ c :=
      List.prefix_of_prefix_length_le (List.prefix_append _ gadsend)
        (hsplit ▸ List.prefix_append _ _) (by omega)
    rw [← ht, List.append_assoc, List.append_cancel_left_eq] at hsplit
    have htlen : t.length + (c' :: cs).flatten.length = 8 := by
      rw [← List.length_append, hsplit, length_gadsend]
    by_cases hshort : ∀ x ∈ c' :: cs, x.length < 8
    · -- the last line comes in pieces
      exfalso
      obtain ⟨g, hg⟩ : ∃ g, r - c.length = g + 1 := ⟨r - c.length - 1, by omega⟩
      rw [hg, List.replicate_succ', ← List.append_assoc] at hret
      exact receive_short sys hsys hjunk (c' :: cs) _ _ hr hne' hshort buf err hret
    · push Not at hshort
      obtain ⟨x, hx, hx8⟩ := hshort
      have hsingle := eq_singleton_of_length (c' :: cs) hne' x hx (by omega)
      have ht0 : t = [] := by
        have hxlen : (c' :: cs).flatten.length = x.length := by rw [hsingle]; simp
        exact List.length_eq_zero_iff.mp (by omega)
      rw [ht0, List.nil_append, hsingle, List.flatten_singleton] at hsplit
      exact ⟨by rw [← ht, ht0, List.append_nil], by rw [hsingle, hsplit]⟩

/-- INTERNAL: a gap before the last line keeps the groups only if it is two bytes or more
and the first of them is zero.
SOURCE: externgroups.patch:322-364 -/
theorem gap_is_zero (sys : System) (hsys : Works sys) (lines : List Bytes)
    (hlines : ∀ l ∈ lines, IsGroupLine l) (A c : Bytes) (r : ℕ) (y : UInt8)
    (hA : A ++ c = lines.flatten) (hc : c ≠ []) (hr : 8 ≤ A.length + r) (hgap : c.length < r)
    (buf : Bytes) (err : Bool)
    (hret : receive sys (A ++ List.replicate r y) A.length ([c, gadsend].map .data) =
      .returned (some buf) err)
    (hbuf : lines.flatten ++ [0] <+: buf) : 2 ≤ r - c.length ∧ y = 0 := by
  rw [List.map_cons, receive_middle lines sys hsys hlines A _ c [gadsend] _ hc (by decide)
    (by simp; omega) (by simp [reply, ← hA]), List.drop_replicate, List.length_replicate] at hret
  have hroom : gadsend.length ≤ (grown sys.junk (A.length + r)).length := by
    simp [grown]
    omega
  obtain ⟨g, hg⟩ : ∃ g, r - c.length = g + 1 := ⟨r - c.length - 1, by omega⟩
  have hX : A ++ c ++ List.replicate (r - c.length) y ++ gadsend =
      (lines.flatten ++ List.replicate g y) ++ [y] ++ gadsend := by
    rw [hA, hg, List.replicate_succ']
    simp
  simp only [List.map_cons, List.map_nil] at hret
  rw [receive_end sys hsys _ _ gadsend _ y _ (by decide) hroom hX] at hret
  obtain ⟨hret, -⟩ := Outcome.returned.inj hret
  rw [← Option.some.inj hret] at hbuf
  simp only [List.append_assoc] at hbuf
  have hzero := (List.prefix_append_right_inj _).mp hbuf
  cases g with
  | zero =>
    -- the newline stands where the zero byte should be
    obtain ⟨h, -⟩ := List.cons_prefix_cons.mp hzero
    exact absurd h (by decide)
  | succ g =>
    rw [List.replicate_succ] at hzero
    obtain ⟨h, -⟩ := List.cons_prefix_cons.mp hzero
    exact ⟨by omega, h.symm⟩

/-- INTERNAL: after the first buffer, **every read but the last must fill the buffer**.
SOURCE: externgroups.patch:322-364 -/
theorem fills_of_delivered (lines : List Bytes) (hlines : ∀ l ∈ lines, IsGroupLine l)
    (chunks : List Bytes) (A : Bytes) (hA : 8 ≤ A.length)
    (hreply : A ++ chunks.flatten = reply lines) (hne : ∀ c ∈ chunks, c ≠ [])
    (hfits : Fits A.length (A.length + A.length) chunks)
    (hret : ∀ x, ∃ sys buf err, Works sys ∧ (∀ i, sys.junk i = x) ∧
      receive sys (A ++ List.replicate A.length x) A.length (chunks.map .data) =
        .returned (some buf) err ∧ lines.flatten ++ [0] <+: buf) :
    Fills A.length (A.length + A.length) chunks := by
  induction chunks generalizing A with
  | nil =>
    intro k c hc
    simp at hc
  | cons c cs ih =>
    have hfit : c.length ≤ A.length := by
      have h := hfits 0 c rfl
      simpa [room] using h
    cases cs with
    | nil =>
      intro k c hc hk
      simp at hk
    | cons c' cs =>
      by_cases hfull : c.length = A.length
      · refine Fills.cons _ _ c _ (by omega) ?_
        have hlen : (A ++ c).length = A.length + A.length := by
          rw [List.length_append, hfull]
        have hrest : (c' :: cs).flatten ≠ [] := by
          rw [List.flatten_cons]
          exact List.append_ne_nil_of_left_ne_nil (hne c' (by simp)) _
        have hnext := ih (A ++ c) (by omega) (by rw [← hreply]; simp)
          (fun x hx => hne x (List.mem_cons_of_mem c hx))
        have htwo : A.length + A.length + (A.length + A.length) = 2 * (A.length + A.length) := by omega
        rw [hlen, htwo] at hnext
        refine hnext hfits.tail ?_
        intro x
        obtain ⟨sys, buf, err, hsys, hjunk, hrecv, hbuf⟩ := hret x
        refine ⟨sys, buf, err, hsys, hjunk, ?_, hbuf⟩
        rw [List.map_cons, receive_middle lines sys hsys hlines A _ c (c' :: cs) _
          (hne c List.mem_cons_self) hrest (by simp; omega) hreply, grown_const sys x hjunk,
          List.length_replicate, List.drop_replicate, hfull, Nat.sub_self, List.replicate_zero,
          List.append_nil, hlen] at hrecv
        exact hrecv
      · -- a gap here is seen when `realloc` leaves bytes that are not zero
        exfalso
        have hgap : c.length < A.length := by omega
        obtain ⟨sys, buf, err, hsys, hjunk, hrecv, hbuf⟩ := hret 0
        obtain ⟨hgroups, hlast⟩ := gap_before_end sys hsys hjunk lines hlines A c c' cs A.length
          (by omega) hreply hne hfits hgap buf err hrecv hbuf
        obtain ⟨sys, buf, err, hsys, hjunk, hrecv, hbuf⟩ := hret 1
        rw [hlast] at hrecv
        obtain ⟨-, h⟩ := gap_is_zero sys hsys lines hlines A c A.length 1 hgroups
          (hne c List.mem_cons_self) (by omega) hgap buf err hrecv hbuf
        exact absurd h (by decide)

/-! ## Which replies are delivered -/

/-- The reply that comes in the given pieces is delivered: whatever `realloc` leaves in the
memory it adds, the call returns, has touched only its buffer and cleared `*err`, and the
buffer holds the group lines and a zero byte. -/
def Delivers (login : Bytes) (lines chunks : List Bytes) : Prop :=
  ∀ sys : System, Works sys → sys.daemon (request login) = chunks.map .data →
    ∃ buf, getExternalGroups sys login = .returned (some buf) false ∧
      lines.flatten ++ [0] <+: buf

/-- INTERNAL: with a working system the call is its read loop.
SOURCE: externgroups.patch:267-322 -/
theorem getExternalGroups_works (sys : System) (hsys : Works sys) (login : Bytes) :
    getExternalGroups sys login =
      receive sys ([] ++ List.replicate 27 0) ([] : Bytes).length (sys.daemon (request login)) := by
  unfold getExternalGroups
  simp [hsys.socket, hsys.connect, hsys.writable, hsys.realloc]

/-- INTERNAL: a delivered reply has come in one of the two ways that keep the groups.
SOURCE: externgroups.patch:267-378 -/
theorem fills_or_two_of_delivers (login : Bytes) (lines chunks : List Bytes)
    (hlines : ∀ l ∈ lines, IsGroupLine l) (hsplit : IsSplit lines chunks)
    (hdel : Delivers login lines chunks) :
    lines ≠ [] ∧ (Fills 0 27 chunks ∨
      chunks = [lines.flatten, gadsend] ∧ lines.flatten.length ≤ 25) := by
  have hret : ∀ x, ∃ sys buf err, Works sys ∧ (∀ i, sys.junk i = x) ∧
      receive sys ([] ++ List.replicate 27 0) ([] : Bytes).length (chunks.map .data) =
        .returned (some buf) err ∧ lines.flatten ++ [0] <+: buf := by
    intro x
    let sys : System := ⟨true, 0, true, fun _ => true, fun _ => x, fun _ => chunks.map .data⟩
    have hsys : Works sys := ⟨rfl, rfl, rfl, fun _ => rfl⟩
    obtain ⟨buf, hrecv, hbuf⟩ := hdel sys hsys rfl
    rw [getExternalGroups_works sys hsys] at hrecv
    exact ⟨sys, buf, false, hsys, fun _ => rfl, hrecv, hbuf⟩
  have hchunks := hsplit.ne_nil
  obtain ⟨hflat, hne, hfits⟩ := hsplit
  cases chunks with
  | nil => exact absurd rfl hchunks
  | cons c cs =>
    have hc := hne c List.mem_cons_self
    have hfit : c.length ≤ 27 := by
      have h := hfits 0 c rfl
      simpa [room] using h
    cases cs with
    | nil =>
      refine ⟨?_, Or.inl ?_⟩
      · -- a reply without groups makes the call write before its buffer
        rintro rfl
        obtain ⟨sys, buf, err, hsys, -, hrecv, -⟩ := hret 0
        obtain rfl : c = gadsend := by simpa [reply] using hflat
        rw [List.map_cons, receive_read sys hsys _ _ _ _ hc (by simp), List.nil_append,
          if_pos (List.suffix_refl _)] at hrecv
        simp [finish] at hrecv
      · intro k x hx hk
        simp at hk
    | cons c' cs =>
      have hrest : (c' :: cs).flatten ≠ [] := by
        rw [List.flatten_cons]
        exact List.append_ne_nil_of_left_ne_nil (hne c' (by simp)) _
      by_cases hfull : c.length = 27
      · have hlen : c.length + (c' :: cs).flatten.length = lines.flatten.length + 8 := by
          rw [← List.length_append, ← List.flatten_cons, hflat, reply, List.length_append,
            length_gadsend]
        refine ⟨?_, Or.inl (Fills.cons _ _ c _ hfull ?_)⟩
        · rintro rfl
          simp at hlen
          omega
        · have h := fills_of_delivered lines hlines (c' :: cs) c (by omega)
            (by rw [← hflat]; simp) (fun x hx => hne x (List.mem_cons_of_mem c hx))
          rw [hfull] at h
          refine h hfits.tail ?_
          intro x
          obtain ⟨sys, buf, err, hsys, hjunk, hrecv, hbuf⟩ := hret x
          refine ⟨sys, buf, err, hsys, hjunk, ?_, hbuf⟩
          rw [List.map_cons, receive_middle lines sys hsys hlines [] _ c (c' :: cs) _ hc hrest
            (by simp; omega) hflat, grown_const sys x hjunk, List.drop_replicate, hfull,
            List.nil_append, Nat.sub_self, List.replicate_zero, List.append_nil, hfull,
            List.length_nil, List.length_replicate] at hrecv
          exact hrecv
      · have hgap : c.length < 27 := by omega
        obtain ⟨sys, buf, err, hsys, hjunk, hrecv, hbuf⟩ := hret 0
        obtain ⟨hgroups, hlast⟩ := gap_before_end sys hsys hjunk lines hlines [] c c' cs 27
          (by simp) hflat hne hfits hgap buf err hrecv hbuf
        rw [hlast] at hrecv
        obtain ⟨h2, -⟩ := gap_is_zero sys hsys lines hlines [] c 27 0 hgroups hc (by simp) hgap buf
          err hrecv hbuf
        rw [List.nil_append] at hgroups
        refine ⟨?_, Or.inr ⟨by rw [hgroups, hlast], by rw [← hgroups]; omega⟩⟩
        rintro rfl
        exact hc (by simpa using hgroups)

/-- **A reply is delivered** exactly when it names a group and either every read but the
last returns as many bytes as it asked for (27, 27, 54, 108 and so on), or two reads bring
the groups, in at most 25 bytes, and the last line.
SOURCE: externgroups.patch:267-378 -/
theorem delivers_iff (login : Bytes) (lines chunks : List Bytes)
    (hlines : ∀ l ∈ lines, IsGroupLine l) (hsplit : IsSplit lines chunks) :
    Delivers login lines chunks ↔
      lines ≠ [] ∧ (Fills 0 27 chunks ∨
        chunks = [lines.flatten, gadsend] ∧ lines.flatten.length ≤ 25) := by
  constructor
  · exact fills_or_two_of_delivers login lines chunks hlines hsplit
  · intro h sys hsys hdaemon
    obtain ⟨hline, hfills | ⟨htwo, hlen⟩⟩ := h
    · rw [getExternalGroups_works sys hsys, hdaemon]
      exact receive_fills sys hsys lines hlines hline chunks [] _ hsplit.flatten hsplit.ne_nil
        hsplit.nonempty hsplit.fits hfills
    · rw [getExternalGroups_works sys hsys, hdaemon, htwo]
      exact receive_two sys hsys lines hlines hline hlen

/-- INTERNAL: one group that comes with the last line in one read.
SOURCE: externgroups.patch:267-378 -/
theorem delivers_iff_one_read :
    Delivers (ascii ['j', 'o', 'e']) [ascii ['a', '\n']] [ascii ['a', '\n'] ++ gadsend] := by
  refine (delivers_iff _ _ _ ?_ ⟨by decide, by decide, ?_⟩).mpr ⟨by decide, Or.inl ?_⟩
  · intro l hl
    obtain rfl : l = ascii ['a', '\n'] := by simpa using hl
    exact ⟨⟨ascii ['a'], by decide⟩, by decide, by decide⟩
  · intro k c hc
    cases k with
    | zero =>
      obtain rfl : ascii ['a', '\n'] ++ gadsend = c := by simpa using hc
      decide
    | succ k => simp at hc
  · intro k c hc hk
    simp at hk

/-- Two groups that come in two reads, the second with the last line: the second group is
lost.
SOURCE: externgroups.patch:353 -/
theorem second_group_lost :
    (∀ l ∈ [ascii ['a', '\n'], ascii ['b', '\n']], IsGroupLine l) ∧
      IsSplit [ascii ['a', '\n'], ascii ['b', '\n']] [ascii ['a', '\n'], ascii ['b', '\n'] ++ gadsend] ∧
      ¬ Delivers (ascii ['j', 'o', 'e']) [ascii ['a', '\n'], ascii ['b', '\n']]
        [ascii ['a', '\n'], ascii ['b', '\n'] ++ gadsend] := by
  have hlines : ∀ l ∈ [ascii ['a', '\n'], ascii ['b', '\n']], IsGroupLine l := by
    intro l hl
    obtain rfl | rfl : l = ascii ['a', '\n'] ∨ l = ascii ['b', '\n'] := by simpa using hl
    · exact ⟨⟨ascii ['a'], by decide⟩, by decide, by decide⟩
    · exact ⟨⟨ascii ['b'], by decide⟩, by decide, by decide⟩
  have hsplit : IsSplit [ascii ['a', '\n'], ascii ['b', '\n']]
      [ascii ['a', '\n'], ascii ['b', '\n'] ++ gadsend] := by
    refine ⟨by decide, by decide, ?_⟩
    intro k c hc
    match k with
    | 0 =>
      obtain rfl : ascii ['a', '\n'] = c := by simpa using hc
      decide
    | 1 =>
      obtain rfl : ascii ['b', '\n'] ++ gadsend = c := by simpa using hc
      decide
    | k + 2 => simp at hc
  refine ⟨hlines, hsplit, fun hdelivers => ?_⟩
  obtain ⟨-, hfills | ⟨htwo, -⟩⟩ := fills_or_two_of_delivers _ _ _ hlines hsplit hdelivers
  · have h := hfills 0 (ascii ['a', '\n']) rfl (by decide)
    revert h
    decide
  · revert htwo
    decide

end TTLinux.Analysis.ExternGroupFetch
