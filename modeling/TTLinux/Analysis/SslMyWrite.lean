import TTLinux.Analysis.SslWrite
import TTLinux.Model.MiniHttpd

/-!
# What `my_write` sends and returns

The proof goes from the inside: an encoding that makes one record, a record that leaves by any
number of short sends, a buffer that is cut into chunks. Every part says which answers of `send`
it takes and ends when its answers are there.
-/

set_option autoImplicit false

namespace TTLinux.Analysis.SslMyWrite

open TTLinux.Lib TTLinux.Model.MatrixSsl TTLinux.Model.MiniHttpd TTLinux.Analysis.SslWrite

variable {S : Type}

/-! ## Answers -/

/-- A `send` that returned -1. -/
def Fails (a : WriteOutcome) : Prop := a = .eintr ∨ a = .failed

/-- The first answers of a sequence. -/
def answers (outcomes : ℕ → WriteOutcome) (n : ℕ) : List WriteOutcome := (List.range n).map outcomes

/-- INTERNAL: the answers to two runs of calls. -/
theorem answers_add (outcomes : ℕ → WriteOutcome) (n m : ℕ) :
    answers outcomes (n + m) = answers outcomes n ++ answers (fun i => outcomes (n + i)) m := by
  rw [answers, List.range_add, List.map_append, List.map_map]
  rfl

/-- INTERNAL: the first answer and the others. -/
theorem answers_one_add (outcomes : ℕ → WriteOutcome) (n : ℕ) :
    answers outcomes (1 + n) = outcomes 0 :: answers (fun i => outcomes (1 + i)) n :=
  answers_add outcomes 1 n

/-- None of the first answers is a failure. -/
def AllSent (outcomes : ℕ → WriteOutcome) (n : ℕ) : Prop := ∀ i < n, ¬ Fails (outcomes i)

/-- The last of the first answers is a failure, and no other one. -/
def FailsAtEnd (outcomes : ℕ → WriteOutcome) (n : ℕ) : Prop :=
  ∃ k, n = k + 1 ∧ AllSent outcomes k ∧ Fails (outcomes k)

/-- INTERNAL: two runs in which everything is sent. -/
theorem AllSent.add {outcomes : ℕ → WriteOutcome} {n m : ℕ} (h : AllSent outcomes n)
    (h' : AllSent (fun i => outcomes (n + i)) m) : AllSent outcomes (n + m) := by
  intro i hi
  rcases Nat.lt_or_ge i n with hlt | hge
  · exact h i hlt
  · have hrest : ¬ Fails (outcomes (n + (i - n))) := h' (i - n) (by omega)
    rwa [Nat.add_sub_cancel' hge] at hrest

/-- INTERNAL: a run that is sent, and one that fails at its end. -/
theorem AllSent.add_fails {outcomes : ℕ → WriteOutcome} {n m : ℕ} (h : AllSent outcomes n)
    (h' : FailsAtEnd (fun i => outcomes (n + i)) m) : FailsAtEnd outcomes (n + m) := by
  obtain ⟨k, rfl, hall, hfails⟩ := h'
  exact ⟨n + k, by omega, h.add hall, hfails⟩

/-! ## Encoding -/

/-- Nothing waits to be sent, and there is a buffer: what the handshake and every write without a
failed `send` leave. -/
structure Ready (c : Conn S) : Prop where
  idle : Idle c
  room : 0 < c.outsockSize

/-- What MatrixSSL promises for chunks of such a length: an encoding of them goes well, into an
empty buffer that is longer than `SSL_MAX_BUF_SIZE` at the first try. -/
structure Encodes (lib : Library S) (max : ℕ) : Prop where
  no_error : ∀ ssl buf size, buf.length ≤ max → lib.matrixSslEncode ssl buf 0 size ≠ .error
  fits : ∀ ssl buf size, buf.length ≤ max → lib.maxBufSize < size → lib.matrixSslEncode ssl buf 0 size ≠ .full

/-- INTERNAL: a plaintext that is encoded at the first try. -/
theorem retryEncode_at_once (lib : Library S) (buf wire : Bytes) (c : Conn S) (ssl : S)
    (h : lib.matrixSslEncode c.ssl buf c.outsock.length c.outsockSize = .record wire ssl) :
    ∃ m, Emits c [⟨wire, buf⟩] m ∧ m.outsockSize = c.outsockSize ∧
      ∀ fuel, 0 < fuel → retryEncode lib buf fuel c = some (true, m) := by
  refine ⟨{ c with ssl := ssl, outsock := c.outsock ++ wire, records := c.records ++ [⟨wire, buf⟩] },
    ⟨rfl, by simp⟩, rfl, ?_⟩
  intro fuel hfuel
  obtain ⟨fuel, rfl⟩ := Nat.exists_eq_add_one.mpr hfuel
  rw [retryEncode, h]

/-- INTERNAL: **an encoding makes one record**, after some enlargements of the buffer.
SOURCE: mini_httpd-1.19-matrixssl.patch:531-550 -/
theorem retryEncode_record (lib : Library S) (max : ℕ) (hlib : Encodes lib max) (buf : Bytes)
    (hbuf : buf.length ≤ max) (d : ℕ) (c : Conn S) (hc : c.outsock = []) (hroom : 0 < c.outsockSize)
    (hd : lib.maxBufSize < c.outsockSize + d) :
    ∃ wire m, Emits c [⟨wire, buf⟩] m ∧ 0 < m.outsockSize ∧
      ∀ fuel, d < fuel → retryEncode lib buf fuel c = some (true, m) := by
  have hlen : c.outsock.length = 0 := by rw [hc, List.length_nil]
  cases hencode : lib.matrixSslEncode c.ssl buf 0 c.outsockSize with
  | error => exact absurd hencode (hlib.no_error _ _ _ hbuf)
  | record wire ssl =>
    obtain ⟨m, hemits, hsize, hrun⟩ := retryEncode_at_once lib buf wire c ssl (by rw [hlen, hencode])
    refine ⟨wire, m, hemits, hsize ▸ hroom, ?_⟩
    intro fuel hfuel
    exact hrun fuel (by omega)
  | full =>
    have hsmall : ¬ lib.maxBufSize < c.outsockSize := by
      intro hlarge
      exact hlib.fits _ _ _ hbuf hlarge hencode
    cases d with
    | zero => exact absurd hd hsmall
    | succ d =>
      obtain ⟨wire, m, hemits, hroom', hrun⟩ := retryEncode_record lib max hlib buf hbuf d
        { c with outsockSize := c.outsockSize * 2 } hc (by simpa using hroom) (by simp only; omega)
      refine ⟨wire, m, ⟨hemits.records, hemits.sent_outsock⟩, hroom', ?_⟩
      intro fuel hfuel
      obtain ⟨fuel, rfl⟩ := Nat.exists_eq_add_one.mpr (Nat.zero_lt_of_lt hfuel)
      rw [retryEncode, hlen, hencode]
      simp only
      rw [if_neg hsmall]
      exact hrun fuel (by omega)

/-! ## A chunk -/

/-- INTERNAL: a `send` that fails. -/
theorem sendOutsock_fails (chunk : Bytes) (m : Conn S) (a : WriteOutcome) (ha : Fails a) :
    ∃ m', ∀ rest, sendOutsock chunk m (a :: rest) = some (-1, m', rest) := by
  rcases ha with rfl | rfl
  · exact ⟨_, fun _ => rfl⟩
  · exact ⟨_, fun _ => rfl⟩

/-- INTERNAL: **a `send` that does not fail** takes all that waits, or makes it shorter.
SOURCE: mini_httpd-1.19-matrixssl.patch:554-571 -/
theorem sendOutsock_wrote (chunk : Bytes) (m : Conn S) (k : ℕ) (hk : 0 < k) :
    ∃ m', Emits m [] m' ∧ m'.outsockSize = m.outsockSize ∧
      ((Idle m' ∧ ∀ rest, sendOutsock chunk m (.wrote k :: rest) = some ((chunk.length : ℤ), m', rest)) ∨
        (m'.outBufferCount = chunk.length ∧ m'.outsock.length < m.outsock.length ∧
          ∀ rest, sendOutsock chunk m (.wrote k :: rest) = some (0, m', rest))) := by
  have hemits := send_emits m _ (.wrote k) _ rfl
  by_cases hempty : m.outsock.drop (min k m.outsock.length) = []
  · refine ⟨{ m with
      sent := m.sent ++ m.outsock.take k
      outsock := m.outsock.drop (min k m.outsock.length)
      outBufferCount := 0 }, ⟨hemits.records, hemits.sent_outsock⟩, rfl, Or.inl ⟨⟨hempty, rfl⟩, ?_⟩⟩
    intro rest
    simp only [sendOutsock, Conn.send, hempty, if_true]
  · refine ⟨{ m with
      sent := m.sent ++ m.outsock.take k
      outsock := m.outsock.drop (min k m.outsock.length)
      outBufferCount := chunk.length }, ⟨hemits.records, hemits.sent_outsock⟩, rfl, Or.inr ⟨rfl, ?_, ?_⟩⟩
    · have hne : m.outsock.length ≠ 0 := by
        intro h0
        rw [List.length_eq_zero_iff.mp h0] at hempty
        simp at hempty
      simp only [List.length_drop]
      omega
    · intro rest
      simp only [sendOutsock, Conn.send, hempty, if_false]

section Chunk

variable (lib : Library S) (chunk : Bytes) (hchunk : chunk ≠ [])

include hchunk in
/-- INTERNAL: **a record leaves** in the sends that it takes, or one of them fails and is the last.
The induction is on what waits in `outsock`.
SOURCE: mini_httpd-1.19-matrixssl.patch:554-571, 912 -/
theorem retryWrite_sendOutsock (len : ℕ) (m : Conn S) (outcomes : ℕ → WriteOutcome)
    (hpos : ∀ i k, outcomes i = .wrote k → 0 < k) (hlen : m.outsock.length ≤ len) :
    ∃ n r m', (∀ fuel, len ≤ fuel → ∀ rest,
        retryWrite (writeChunk lib chunk fuel) (sendOutsock chunk m (answers outcomes n ++ rest)) =
          some (r, m', rest)) ∧
      ((AllSent outcomes n ∧ r = chunk.length ∧ Idle m' ∧ m'.outsockSize = m.outsockSize ∧ Emits m [] m') ∨
        (FailsAtEnd outcomes n ∧ r = -1)) := by
  have hlength : (chunk.length : ℤ) ≠ 0 := by simpa using hchunk
  by_cases hfails : Fails (outcomes 0)
  · obtain ⟨m', hsend⟩ := sendOutsock_fails chunk m (outcomes 0) hfails
    refine ⟨1, -1, m', ?_, Or.inr ⟨⟨0, rfl, by simp [AllSent], hfails⟩, rfl⟩⟩
    intro fuel _ rest
    rw [answers_one_add outcomes 0, List.cons_append, hsend, retryWrite, if_neg (by decide)]
    rfl
  · cases hfirst : outcomes 0 with
    | eintr => exact absurd (Or.inl hfirst) hfails
    | failed => exact absurd (Or.inr hfirst) hfails
    | wrote k =>
      obtain ⟨m', hemits, hsize, hend⟩ := sendOutsock_wrote chunk m k (hpos 0 k hfirst)
      have hone : AllSent outcomes 1 := by
        intro i hi
        rwa [Nat.lt_one_iff.mp hi]
      rcases hend with ⟨hidle, hsend⟩ | ⟨hcount, hshorter, hsend⟩
      · refine ⟨1, chunk.length, m', ?_, Or.inl ⟨hone, rfl, hidle, hsize, hemits⟩⟩
        intro fuel _ rest
        rw [answers_one_add outcomes 0, hfirst, List.cons_append, hsend, retryWrite, if_neg hlength]
        rfl
      · cases len with
        | zero => omega
        | succ len =>
          obtain ⟨n, r, m'', hrun, hcases⟩ := retryWrite_sendOutsock len m' (fun i => outcomes (1 + i))
            (fun i => hpos (1 + i)) (by omega)
          refine ⟨1 + n, r, m'', ?_, ?_⟩
          · intro fuel hfuel rest
            obtain ⟨fuel, rfl⟩ := Nat.exists_eq_add_one.mpr (Nat.zero_lt_of_lt hfuel)
            rw [answers_one_add, hfirst, List.cons_append, hsend, retryWrite, if_pos rfl, writeChunk,
              sslWrite_recorded lib fuel chunk m' _ hchunk hcount]
            exact hrun fuel (by omega) rest
          · rcases hcases with ⟨hall, hr, hidle, hsize', hemits'⟩ | ⟨hend, hr⟩
            · exact Or.inl ⟨hone.add hall, hr, hidle, hsize'.trans hsize, hemits.trans hemits'⟩
            · exact Or.inr ⟨hone.add_fails hend, hr⟩

include hchunk in
/-- INTERNAL: **a chunk is one record**, and the inner loop returns its length, or -1 after the `send`
that fails.
SOURCE: mini_httpd-1.19-matrixssl.patch:502-572, 912 -/
theorem writeChunk_ends (max : ℕ) (hlib : Encodes lib max) (hmax : chunk.length ≤ max) (c : Conn S)
    (hc : Ready c) (outcomes : ℕ → WriteOutcome) (hpos : ∀ i k, outcomes i = .wrote k → 0 < k) :
    ∃ n fuel₀ r c', (∀ fuel, fuel₀ ≤ fuel → ∀ rest,
        writeChunk lib chunk fuel c (answers outcomes n ++ rest) = some (r, c', rest)) ∧
      ((AllSent outcomes n ∧ r = chunk.length ∧ Ready c' ∧ ∃ wire, Emits c [⟨wire, chunk⟩] c') ∨
        (FailsAtEnd outcomes n ∧ r = -1)) := by
  obtain ⟨wire, m, hemits, hroom, hencode⟩ := retryEncode_record lib max hlib chunk hmax (lib.maxBufSize + 1) c
    hc.idle.outsock hc.room (by omega)
  obtain ⟨n, r, c', hrun, hcases⟩ := retryWrite_sendOutsock lib chunk hchunk m.outsock.length m outcomes hpos
    le_rfl
  refine ⟨n, lib.maxBufSize + m.outsock.length + 3, r, c', ?_, ?_⟩
  · intro fuel hfuel rest
    obtain ⟨fuel, rfl⟩ := Nat.exists_eq_add_one.mpr (Nat.zero_lt_of_lt hfuel)
    rw [writeChunk, sslWrite, if_neg fun h => absurd hc.idle.count h.1.ne', if_pos hc.idle.count,
      hencode fuel (by omega)]
    exact hrun fuel (by omega) rest
  · rcases hcases with ⟨hall, hr, hidle, hsize, hsent⟩ | hend
    · exact Or.inl ⟨hall, hr, ⟨hidle, hsize ▸ hroom⟩, wire, hemits.trans hsent⟩
    · exact Or.inr hend

end Chunk

/-! ## All chunks -/

/-- What the outer loop returns: the length of the last chunk. -/
def lastLength (max : ℕ) (r : ℤ) (buf : Bytes) : ℤ :=
  if buf = [] then r else ((buf.length - 1) % max + 1 : ℕ)

/-- INTERNAL: without a chunk the result stays. -/
theorem lastLength_nil (max : ℕ) (r : ℤ) : lastLength max r [] = r := if_pos rfl

/-- INTERNAL: a chunk that is not the last one does not matter. -/
theorem lastLength_drop (max s : ℕ) (r : ℤ) (buf : Bytes) (hbuf : buf ≠ [])
    (hs : s = if buf.length < max then buf.length else max) (hmax : 0 < max) :
    lastLength max s (buf.drop s) = lastLength max r buf := by
  have hpos : 0 < buf.length := List.length_pos_iff.mpr hbuf
  by_cases hdrop : buf.drop s = []
  · have hle : buf.length ≤ s := List.drop_eq_nil_iff.mp hdrop
    have hlen : s = buf.length := by
      split_ifs at hs <;> omega
    rw [hdrop, lastLength_nil, lastLength, if_neg hbuf, Nat.mod_eq_of_lt (by split_ifs at hs <;> omega)]
    omega
  · have hlt : s < buf.length := by
      rw [← not_le, ← List.drop_eq_nil_iff]
      exact hdrop
    have hsmax : s = max := by
      split_ifs at hs <;> omega
    have hmod : buf.length - 1 = buf.length - max - 1 + max := by omega
    rw [lastLength, if_neg hdrop, lastLength, if_neg hbuf, List.length_drop, hsmax, hmod, Nat.add_mod_right]

/-- The value of a write is the length of its buffer for buffers that are one chunk, and only for
these. -/
theorem lastLength_eq_iff (max : ℕ) (hmax : 0 < max) (buf : Bytes) :
    lastLength max 0 buf = buf.length ↔ buf.length ≤ max := by
  by_cases hbuf : buf = []
  · rw [hbuf, lastLength_nil]
    simp
  · have hpos : 0 < buf.length := List.length_pos_iff.mpr hbuf
    rw [lastLength, if_neg hbuf]
    constructor
    · intro h
      have hlt := Nat.mod_lt (buf.length - 1) hmax
      omega
    · intro hle
      rw [Nat.mod_eq_of_lt (by omega)]
      omega

section Chunks

variable (lib : Library S) (max : ℕ) (hmax : 0 < max) (hlib : Encodes lib max)

include hmax hlib in
/-- INTERNAL: **the outer loop** cuts what is left into chunks, by induction on its length.
SOURCE: mini_httpd-1.19-matrixssl.patch:910-915 -/
theorem myWriteLoop_ends (len : ℕ) (buf : Bytes) (hlen : buf.length ≤ len) (c : Conn S) (hc : Ready c) (r : ℤ)
    (hr : 0 ≤ r) (outcomes : ℕ → WriteOutcome) (hpos : ∀ i k, outcomes i = .wrote k → 0 < k) :
    ∃ n fuel₀ w c', (∀ fuel, fuel₀ ≤ fuel → ∀ rest,
        myWriteLoop lib max fuel r buf c (answers outcomes n ++ rest) = some (w, c', rest)) ∧
      ((AllSent outcomes n ∧ w = lastLength max r buf ∧ Ready c' ∧ ∃ made, Emits c made c' ∧
          stream Sealed.plaintext made = buf ∧ ∀ x ∈ made, x.plaintext.length ≤ max) ∨
        (FailsAtEnd outcomes n ∧ w = -1)) := by
  by_cases hbuf : buf = []
  · subst hbuf
    refine ⟨0, 1, r, c, ?_, Or.inl ⟨by simp [AllSent], (lastLength_nil max r).symm, hc, [], Emits.refl c, rfl,
      by simp⟩⟩
    intro fuel hfuel rest
    obtain ⟨fuel, rfl⟩ := Nat.exists_eq_add_one.mpr (Nat.zero_lt_of_lt hfuel)
    rw [myWriteLoop, if_neg (by simp)]
    rfl
  · have hpos' : 0 < buf.length := List.length_pos_iff.mpr hbuf
    generalize hs : (if buf.length < max then buf.length else max) = s
    have hs0 : 0 < s ∧ s ≤ max ∧ s ≤ buf.length := by
      split_ifs at hs <;> omega
    have hchunk : (buf.take s).length = s := by rw [List.length_take, Nat.min_eq_left hs0.2.2]
    have hne : buf.take s ≠ [] := by
      rw [← List.length_pos_iff, hchunk]
      exact hs0.1
    obtain ⟨n, fuel₁, r', m, hrun, hcases⟩ := writeChunk_ends lib (buf.take s) hne max hlib
      (by rw [hchunk]; exact hs0.2.1) c hc outcomes hpos
    rcases hcases with ⟨hall, hr', hm, wire, hemits⟩ | ⟨hend, hr'⟩
    · rw [hchunk] at hr'
      cases len with
      | zero => omega
      | succ len =>
        obtain ⟨n', fuel₂, w, c', hrun', hcases'⟩ := myWriteLoop_ends len (buf.drop s)
          (by rw [List.length_drop]; omega) m hm r' (by omega) (fun i => outcomes (n + i)) (fun i => hpos (n + i))
        refine ⟨n + n', fuel₁ + fuel₂ + 1, w, c', ?_, ?_⟩
        · intro fuel hfuel rest
          obtain ⟨fuel, rfl⟩ := Nat.exists_eq_add_one.mpr (Nat.zero_lt_of_lt hfuel)
          rw [myWriteLoop, if_pos ⟨hpos', hr⟩]
          simp only [hs]
          rw [answers_add, List.append_assoc, hrun fuel (by omega)]
          exact hrun' fuel (by omega) rest
        · rcases hcases' with ⟨hall', hw, hc', made, hemits', hstream, hshort⟩ | ⟨hend, hw⟩
          · rw [hr', lastLength_drop max s r buf hbuf hs.symm hmax] at hw
            refine Or.inl ⟨hall.add hall', hw, hc', _, hemits.trans hemits', ?_, ?_⟩
            · rw [stream_append, stream_cons, stream_nil, List.append_nil, hstream, List.take_append_drop]
            · intro x hx
              rcases List.mem_cons.mp hx with rfl | hx
              · rw [hchunk]
                exact hs0.2.1
              · exact hshort x hx
          · exact Or.inr ⟨hall.add_fails hend, hw⟩
    · refine ⟨n, fuel₁ + 2, -1, m, ?_, Or.inr ⟨hend, rfl⟩⟩
      intro fuel hfuel rest
      obtain ⟨fuel, rfl⟩ := Nat.exists_eq_add_one.mpr (Nat.zero_lt_of_lt hfuel)
      obtain ⟨fuel, rfl⟩ := Nat.exists_eq_add_one.mpr (by omega : 0 < fuel)
      rw [myWriteLoop, if_pos ⟨hpos', hr⟩]
      simp only [hs]
      rw [hrun _ (by omega), hr']
      simp only
      rw [myWriteLoop, if_neg (by omega)]

end Chunks

/-! ## The write -/

/-- `my_write` returns this after so many answers of `send`, whatever answers there would be later. -/
def Returns (lib : Library S) (max : ℕ) (buf : Bytes) (c : Conn S) (outcomes : ℕ → WriteOutcome) (n : ℕ) (w : ℤ)
    (c' : Conn S) : Prop :=
  ∃ fuel₀, ∀ fuel, fuel₀ ≤ fuel → ∀ rest,
    myWrite lib max fuel buf c (answers outcomes n ++ rest) = some (w, c', rest)

/-- What a write that takes these answers has to do: without a failure the bytes of the buffer are
sent once and in order, in records that are not too long, and their number is returned; a failure
is the last answer that is taken, and leads to -1. -/
def AsWrite (max : ℕ) (buf : Bytes) (c : Conn S) (outcomes : ℕ → WriteOutcome) (n : ℕ) (w : ℤ) (c' : Conn S) :
    Prop :=
  ((∀ i < n, ¬ Fails (outcomes i)) → w = buf.length ∧ Ready c' ∧
    ∃ made, c'.records = c.records ++ made ∧ c'.sent = c.sent ++ stream Sealed.wire made ∧
      stream Sealed.plaintext made = buf ∧ ∀ x ∈ made, x.plaintext.length ≤ max) ∧
  ∀ i < n, Fails (outcomes i) → w = -1 ∧ i + 1 = n

/-- INTERNAL: there is one way in which a write returns. -/
theorem Returns.unique {lib : Library S} {max : ℕ} {buf : Bytes} {c : Conn S} {outcomes : ℕ → WriteOutcome}
    {n n' : ℕ} {w w' : ℤ} {m m' : Conn S} (h : Returns lib max buf c outcomes n w m)
    (h' : Returns lib max buf c outcomes n' w' m') : n = n' ∧ w = w' ∧ m = m' := by
  wlog hle : n ≤ n' generalizing n n' w w' m m'
  · obtain ⟨hn, hw, hm⟩ := this h' h (Nat.le_of_not_le hle)
    exact ⟨hn.symm, hw.symm, hm.symm⟩
  · obtain ⟨fuel, hrun⟩ := h
    obtain ⟨fuel', hrun'⟩ := h'
    obtain ⟨d, rfl⟩ := Nat.exists_eq_add_of_le hle
    have hlong := hrun' (fuel + fuel') (by omega) []
    rw [List.append_nil, answers_add, hrun (fuel + fuel') (by omega)] at hlong
    obtain ⟨hw, hm, hrest⟩ : w = w' ∧ m = m' ∧ answers (fun i => outcomes (n + i)) d = [] := by
      simpa using hlong
    have hd : d = 0 := by simpa [answers] using hrest
    exact ⟨by rw [hd, Nat.add_zero], hw, hm⟩

/-- INTERNAL: **a write returns**, with the length of its last chunk or with -1. -/
theorem myWrite_returns (lib : Library S) (max : ℕ) (hmax : 0 < max) (hlib : Encodes lib max) (buf : Bytes)
    (c : Conn S) (hc : Ready c) (outcomes : ℕ → WriteOutcome)
    (hpos : ∀ i k, outcomes i = .wrote k → 0 < k) :
    ∃ n w c', Returns lib max buf c outcomes n w c' ∧
      ((AllSent outcomes n ∧ w = lastLength max 0 buf ∧ Ready c' ∧ ∃ made, Emits c made c' ∧
          stream Sealed.plaintext made = buf ∧ ∀ x ∈ made, x.plaintext.length ≤ max) ∨
        (FailsAtEnd outcomes n ∧ w = -1)) := by
  obtain ⟨n, fuel₀, w, c', hrun, hcases⟩ := myWriteLoop_ends lib max hmax hlib buf.length buf le_rfl c hc 0
    (Int.le_refl 0) outcomes hpos
  exact ⟨n, w, c', ⟨fuel₀, hrun⟩, hcases⟩

/-- **The value of a write.** On a connection without a failed `send` so far, and with a library that
makes one record of every chunk, `my_write` returns for every buffer and all answers of `send`. It
does what a write has to do if and only if the buffer is at most one chunk or one of the sends
fails: after more chunks the value is the length of the last one.
SOURCE: mini_httpd-1.19-matrixssl.patch:502-572, 901-924 -/
theorem myWrite_correct_iff (lib : Library S) (max : ℕ) (hmax : 0 < max) (hlib : Encodes lib max) (buf : Bytes)
    (c : Conn S) (hc : Ready c) (outcomes : ℕ → WriteOutcome)
    (hpos : ∀ i k, outcomes i = .wrote k → 0 < k) :
    (∃ n w c', Returns lib max buf c outcomes n w c') ∧
      ∀ n w c', Returns lib max buf c outcomes n w c' →
        (AsWrite max buf c outcomes n w c' ↔ buf.length ≤ max ∨ ∃ i < n, Fails (outcomes i)) := by
  obtain ⟨n, w, c', hreturns, hcases⟩ := myWrite_returns lib max hmax hlib buf c hc outcomes hpos
  refine ⟨⟨n, w, c', hreturns⟩, ?_⟩
  intro n' w' m hreturns'
  obtain ⟨rfl, rfl, rfl⟩ := hreturns.unique hreturns'
  rcases hcases with ⟨hall, hw, hc', made, hemits, hstream, hshort⟩ | ⟨⟨k, rfl, hall, hfails⟩, rfl⟩
  · have hnone : ¬ ∃ i < n, Fails (outcomes i) := by
      rintro ⟨i, hi, hfails⟩
      exact hall i hi hfails
    rw [or_iff_left hnone, ← lastLength_eq_iff max hmax buf, ← hw]
    constructor
    · intro h
      exact (h.1 hall).1
    · intro hlen
      refine ⟨fun _ => ⟨hlen, hc', made, hemits.records, hemits.sent hc.idle hc'.idle, hstream, hshort⟩, ?_⟩
      intro i hi hfails
      exact absurd hfails (hall i hi)
  · have hlast : ∃ i < k + 1, Fails (outcomes i) := ⟨k, Nat.lt_succ_self k, hfails⟩
    simp only [hlast, or_true, iff_true]
    constructor
    · intro hnone
      exact absurd hfails (hnone k (Nat.lt_succ_self k))
    · intro i hi hi'
      refine ⟨rfl, ?_⟩
      by_contra hne
      exact hall i (by omega) hi'

/-- A library without a cipher: a record is a header of five bytes and the plaintext, and the largest
buffer has room for one. -/
def recordLibrary : Library Unit where
  maxBufSize := 18437
  matrixSslEncode _ buf used size :=
    if used + 5 + buf.length > size then .full
    else .record ([23, 3, 0, (buf.length / 256).toUInt8, buf.length.toUInt8] ++ buf) ()

/-- INTERNAL: the library of the example seals every chunk. -/
theorem recordLibrary_encodes : Encodes recordLibrary 16384 := by
  constructor
  · intro ssl buf size _ h
    simp only [recordLibrary] at h
    split_ifs at h
  · intro ssl buf size hbuf hsize
    simp only [recordLibrary] at hsize ⊢
    rw [if_neg (by omega)]
    simp

/-- INTERNAL: an accepted connection is ready. -/
theorem accepted_ready : Ready (accepted []) := ⟨accepted_idle [], by decide⟩

/-- A `send` that takes one byte at a time. -/
def oneByte : ℕ → WriteOutcome := fun _ => .wrote 1

/-- INTERNAL: in the example every call sends something. -/
theorem oneByte_pos : ∀ i k, oneByte i = .wrote k → 0 < k := by
  intro i k h
  cases h
  exact Nat.one_pos

/-- **Two bytes, sent one at a time**, with the chunks that MatrixSSL has: the value is 2. -/
theorem myWrite_two_bytes :
    ∃ n w c', Returns recordLibrary 16384 [7, 8] (accepted []) oneByte n w c' ∧
      AsWrite 16384 [7, 8] (accepted []) oneByte n w c' := by
  obtain ⟨⟨n, w, c', hreturns⟩, hiff⟩ := myWrite_correct_iff recordLibrary 16384 (by decide)
    recordLibrary_encodes [7, 8] (accepted []) accepted_ready oneByte oneByte_pos
  exact ⟨n, w, c', hreturns, (hiff n w c' hreturns).mpr (Or.inl (by decide))⟩

/-- **One byte more than a chunk:** all are sent, and the value is 1.
SOURCE: mini_httpd-1.19-matrixssl.patch:910-921 -/
theorem myWrite_two_chunks :
    ∃ n c', Returns recordLibrary 16384 (List.replicate 16385 7) (accepted []) oneByte n 1 c' ∧
      ¬ AsWrite 16384 (List.replicate 16385 7) (accepted []) oneByte n 1 c' := by
  obtain ⟨n, w, c', hreturns, hcases⟩ := myWrite_returns recordLibrary 16384 (by decide) recordLibrary_encodes
    (List.replicate 16385 7) (accepted []) accepted_ready oneByte oneByte_pos
  have hsent : ∀ i, ¬ Fails (oneByte i) := by
    intro i hfails
    simp [Fails, oneByte] at hfails
  rcases hcases with ⟨hall, rfl, -⟩ | ⟨⟨k, -, -, hfails⟩, -⟩
  · have hvalue : lastLength 16384 0 (List.replicate 16385 7) = 1 := by
      rw [lastLength, if_neg (by rw [List.replicate_succ]; exact List.cons_ne_nil _ _), List.length_replicate]
      rfl
    rw [hvalue] at hreturns
    refine ⟨n, c', hreturns, ?_⟩
    intro h
    have hlen := (h.1 hall).1
    rw [List.length_replicate] at hlen
    omega
  · exact absurd hfails (hsent k)

end TTLinux.Analysis.SslMyWrite
