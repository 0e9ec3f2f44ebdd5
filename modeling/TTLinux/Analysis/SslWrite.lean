import Mathlib.Tactic.SplitIfs
import TTLinux.Lib.Framing
import TTLinux.Model.MatrixSsl

/-!
# What `allwritessl` puts on the socket

Records are sealed into `outsock` and leave it in order, so what was sent and what is still in
`outsock` together are the records that were made. `outBufferCount` says whether the plaintext at
hand is already in a record; an interrupted `send` does not record it.
-/

set_option autoImplicit false

namespace TTLinux.Analysis.SslWrite

open TTLinux.Lib TTLinux.Model.MatrixSsl

variable {S : Type}

/-- Nothing waits to be sent. -/
structure Idle (c : Conn S) : Prop where
  outsock : c.outsock = []
  count : c.outBufferCount = 0

/-- From one connection to the other some records were made, and no byte of them is lost. -/
structure Emits (c : Conn S) (made : List Sealed) (c' : Conn S) : Prop where
  records : c'.records = c.records ++ made
  sent_outsock : c'.sent ++ c'.outsock = c.sent ++ c.outsock ++ stream Sealed.wire made

/-- INTERNAL: nothing was sealed. -/
theorem Emits.refl (c : Conn S) : Emits c [] c :=
  ⟨(List.append_nil _).symm, (List.append_nil _).symm⟩

/-- INTERNAL: what was sealed in two parts. -/
theorem Emits.trans {c c' c'' : Conn S} {made more : List Sealed} (h : Emits c made c')
    (h' : Emits c' more c'') : Emits c (made ++ more) c'' := by
  constructor
  · rw [h'.records, h.records, List.append_assoc]
  · rw [h'.sent_outsock, h.sent_outsock, stream_append, List.append_assoc]

/-- INTERNAL: between two idle connections all records were sent. -/
theorem Emits.sent {c c' : Conn S} {made : List Sealed} (h : Emits c made c') (hc : Idle c) (hc' : Idle c') :
    c'.sent = c.sent ++ stream Sealed.wire made := by
  have hstream := h.sent_outsock
  rwa [hc.outsock, hc'.outsock, List.append_nil, List.append_nil] at hstream

/-- INTERNAL: `send` takes bytes from the front of `outsock`. -/
theorem send_emits (c c' : Conn S) (a : WriteOutcome) (k : ℕ) (h : c.send c.outsock a = (some k, c')) :
    Emits c [] { c' with outsock := c'.outsock.drop k } := by
  cases a with
  | wrote j =>
    obtain ⟨rfl, rfl⟩ : min j c.outsock.length = k ∧ { c with sent := c.sent ++ c.outsock.take j } = c' := by
      simpa [Conn.send] using h
    constructor
    · exact (List.append_nil _).symm
    · have hdrop : c.outsock.take j ++ c.outsock.drop (min j c.outsock.length) = c.outsock := by
        rw [List.take_eq_take_min, List.take_append_drop]
      simp [hdrop]
  | eintr => simp [Conn.send] at h
  | failed => simp [Conn.send] at h

/-- INTERNAL: a failed encoding changes nothing that is sent, and a successful one makes one record.
SOURCE: ucspi-tcp-matrixssl.patch:985-1000 -/
theorem retryEncode_emits (lib : Library S) (buf : Bytes) (fuel : ℕ) (c c' : Conn S) (ok : Bool)
    (h : retryEncode lib buf fuel c = some (ok, c')) :
    c'.outBufferCount = c.outBufferCount ∧
      (ok = false ∧ Emits c [] c' ∨ ok = true ∧ ∃ wire, Emits c [⟨wire, buf⟩] c') := by
  induction fuel generalizing c with
  | zero => simp [retryEncode] at h
  | succ fuel ih =>
    rw [retryEncode] at h
    split at h
    · obtain ⟨rfl, rfl⟩ : false = ok ∧ c = c' := by simpa using h
      exact ⟨rfl, Or.inl ⟨rfl, Emits.refl c⟩⟩
    · split_ifs at h with hmax
      · obtain ⟨rfl, rfl⟩ : false = ok ∧ c = c' := by simpa using h
        exact ⟨rfl, Or.inl ⟨rfl, Emits.refl c⟩⟩
      · -- a larger buffer holds the same bytes
        obtain ⟨hcount, hrest⟩ := ih _ h
        refine ⟨hcount, hrest.imp ?_ ?_⟩
        · exact fun ⟨hok, he⟩ => ⟨hok, he.records, he.sent_outsock⟩
        · exact fun ⟨hok, wire, he⟩ => ⟨hok, wire, he.records, he.sent_outsock⟩
    · next wire ssl _ =>
      obtain ⟨rfl, rfl⟩ := Prod.mk.injEq .. ▸ Option.some.inj h
      exact ⟨rfl, Or.inr ⟨rfl, wire, rfl, by simp⟩⟩

/-- INTERNAL: all that the `send` of a call of `sslWrite` can do.
SOURCE: ucspi-tcp-matrixssl.patch:1002-1021 -/
theorem sendOutsock_cases (buf : Bytes) (c c' : Conn S) (w : ℤ) (sends sends' : List WriteOutcome)
    (h : sendOutsock buf c sends = some (w, c', sends')) :
    ∃ a, sends = a :: sends' ∧ Emits c [] c' ∧
      ((a = .eintr ∧ w = -1 ∧ c'.intr = true ∧ c'.outBufferCount = c.outBufferCount) ∨
        (a = .failed ∧ w = -1 ∧ c'.intr = false) ∨
        (a ≠ .eintr ∧ w = 0 ∧ c'.outBufferCount = buf.length) ∨
        (a ≠ .eintr ∧ w = buf.length ∧ Idle c')) := by
  cases sends with
  | nil => simp [sendOutsock] at h
  | cons a sends =>
    cases a with
    | eintr =>
      obtain ⟨rfl, rfl, rfl⟩ : -1 = w ∧ { c with intr := true } = c' ∧ sends = sends' := by
        simpa [sendOutsock, Conn.send] using h
      refine ⟨.eintr, rfl, ?_, Or.inl ⟨rfl, rfl, rfl, rfl⟩⟩
      exact ⟨(Emits.refl c).records, (Emits.refl c).sent_outsock⟩
    | failed =>
      obtain ⟨rfl, rfl, rfl⟩ : -1 = w ∧ { c with intr := false } = c' ∧ sends = sends' := by
        simpa [sendOutsock, Conn.send] using h
      refine ⟨.failed, rfl, ?_, Or.inr (Or.inl ⟨rfl, rfl, rfl⟩)⟩
      exact ⟨(Emits.refl c).records, (Emits.refl c).sent_outsock⟩
    | wrote k =>
      have hsend : c.send c.outsock (.wrote k) =
          (some (min k c.outsock.length), { c with sent := c.sent ++ c.outsock.take k }) := rfl
      have hemits := send_emits c _ _ _ hsend
      rw [sendOutsock, hsend] at h
      dsimp only at h
      split_ifs at h with hempty
      · obtain ⟨rfl, rfl, rfl⟩ := (by simpa using h : _ = w ∧ _ = c' ∧ sends = sends')
        refine ⟨.wrote k, rfl, ⟨hemits.records, hemits.sent_outsock⟩, ?_⟩
        exact Or.inr (Or.inr (Or.inr ⟨by simp, rfl, hempty, rfl⟩))
      · obtain ⟨rfl, rfl, rfl⟩ := (by simpa using h : _ = w ∧ _ = c' ∧ sends = sends')
        refine ⟨.wrote k, rfl, ⟨hemits.records, hemits.sent_outsock⟩, ?_⟩
        exact Or.inr (Or.inr (Or.inl ⟨by simp, rfl, rfl⟩))

/-- INTERNAL: a plaintext that is already in a record is not encoded again.
SOURCE: ucspi-tcp-matrixssl.patch:972-984 -/
theorem sslWrite_recorded (lib : Library S) (fuel : ℕ) (buf : Bytes) (c : Conn S) (sends : List WriteOutcome)
    (hbuf : buf ≠ []) (hcount : c.outBufferCount = buf.length) :
    sslWrite lib fuel buf c sends = sendOutsock buf c sends := by
  have hpos : c.outBufferCount ≠ 0 := by
    rw [hcount]
    exact fun h => hbuf (List.length_eq_zero_iff.mp h)
  rw [sslWrite, if_neg fun h => h.2 hcount.symm, if_neg hpos]

/-- INTERNAL: a plaintext that is not yet in a record is encoded, and then sent.
SOURCE: ucspi-tcp-matrixssl.patch:981-1000 -/
theorem sslWrite_unrecorded (lib : Library S) (fuel : ℕ) (buf : Bytes) (c c' : Conn S) (w : ℤ)
    (sends sends' : List WriteOutcome) (hcount : c.outBufferCount = 0)
    (h : sslWrite lib fuel buf c sends = some (w, c', sends')) :
    (w = -1 ∧ sends' = sends ∧ c'.outBufferCount = 0 ∧ Emits c [] c') ∨
      ∃ wire m, Emits c [⟨wire, buf⟩] m ∧ m.outBufferCount = 0 ∧
        sendOutsock buf m sends = some (w, c', sends') := by
  rw [sslWrite, if_neg fun h => absurd hcount h.1.ne', if_pos hcount] at h
  cases henc : retryEncode lib buf fuel c with
  | none => simp [henc] at h
  | some r =>
    obtain ⟨ok, m⟩ := r
    obtain ⟨hm, hok⟩ := retryEncode_emits lib buf fuel c m ok henc
    rw [henc] at h
    rcases hok with ⟨rfl, hemits⟩ | ⟨rfl, wire, hemits⟩
    · obtain ⟨rfl, rfl, rfl⟩ : -1 = w ∧ m = c' ∧ sends = sends' := by simpa using h
      exact Or.inl ⟨rfl, rfl, hm.trans hcount, hemits⟩
    · exact Or.inr ⟨wire, m, hemits, hm.trans hcount, h⟩

/-! ## The loop of `allwritessl` -/

/-- INTERNAL: nothing is left to write. -/
theorem allwritesslLoop_nil (lib : Library S) (fuel : ℕ) (w w' : ℤ) (c c' : Conn S) (sends : List WriteOutcome)
    (h : allwritesslLoop lib fuel w [] c sends = some (w', c')) : w' = w ∧ c' = c := by
  cases fuel with
  | zero => simp [allwritesslLoop] at h
  | succ fuel =>
    obtain ⟨rfl, rfl⟩ : w = w' ∧ c = c' := by simpa [allwritesslLoop] using h
    exact ⟨rfl, rfl⟩

/-- After a call of `sslWrite` with value `v` the loop goes on and ends well: the plaintext is tried
again after `EINTR` and after a short `send`, and what was written is passed over. -/
def Continues (lib : Library S) (fuel : ℕ) (buf : Bytes) (v : ℤ) (m : Conn S) (sends : List WriteOutcome)
    (w : ℤ) (c : Conn S) : Prop :=
  (v = -1 ∧ m.intr = true ∨ v = 0) ∧ allwritesslLoop lib fuel v buf m sends = some (w, c) ∨
    v ≠ -1 ∧ v ≠ 0 ∧ allwritesslLoop lib fuel v (buf.drop v.toNat) m sends = some (w, c)

/-- INTERNAL: a round with something to write. -/
theorem allwritesslLoop_cases (lib : Library S) (fuel : ℕ) (w w' : ℤ) (buf : Bytes) (c c' : Conn S)
    (sends : List WriteOutcome) (hbuf : buf ≠ []) (hw' : 0 ≤ w')
    (h : allwritesslLoop lib (fuel + 1) w buf c sends = some (w', c')) :
    ∃ v m sends', sslWrite lib fuel buf c sends = some (v, m, sends') ∧
      Continues lib fuel buf v m sends' w' c' := by
  rw [allwritesslLoop, if_neg hbuf] at h
  cases hwrite : sslWrite lib fuel buf c sends with
  | none => simp [hwrite] at h
  | some r =>
    obtain ⟨v, m, sends'⟩ := r
    rw [hwrite] at h
    dsimp only at h
    refine ⟨v, m, sends', rfl, ?_⟩
    split_ifs at h with herr hintr hzero
    · exact Or.inl ⟨Or.inl ⟨herr, hintr⟩, h⟩
    · obtain ⟨rfl, -⟩ : -1 = w' ∧ m = c' := by simpa using h
      omega
    · exact Or.inl ⟨Or.inr hzero, h⟩
    · exact Or.inr ⟨herr, hzero, h⟩

/-- INTERNAL: a `send` in a loop that ends well: after `EINTR` the plaintext is recorded as it was
before, after a short `send` it is recorded, and after a complete one the loop ends.
SOURCE: ucspi-tcp-matrixssl.patch:259-268, 1002-1021 -/
theorem Continues.send_cases {lib : Library S} {fuel : ℕ} {buf : Bytes} {v : ℤ} {m m' : Conn S}
    {sends sends' : List WriteOutcome} {w : ℤ} {c : Conn S} (h : Continues lib fuel buf v m' sends' w c)
    (hbuf : buf ≠ []) (hsend : sendOutsock buf m sends = some (v, m', sends')) :
    ∃ a, sends = a :: sends' ∧ Emits m [] m' ∧
      ((a = .eintr ∧ m'.outBufferCount = m.outBufferCount ∧
          allwritesslLoop lib fuel (-1) buf m' sends' = some (w, c)) ∨
        (a ≠ .eintr ∧ m'.outBufferCount = buf.length ∧
          allwritesslLoop lib fuel 0 buf m' sends' = some (w, c)) ∨
        (a ≠ .eintr ∧ m' = c ∧ Idle c)) := by
  obtain ⟨a, hsends, hemits, hcases⟩ := sendOutsock_cases buf m m' v sends sends' hsend
  have hlen : (buf.length : ℤ) ≠ 0 := by simpa using hbuf
  refine ⟨a, hsends, hemits, ?_⟩
  rcases hcases with ⟨ha, rfl, -, hm⟩ | ⟨-, rfl, hintr⟩ | ⟨ha, rfl, hm⟩ | ⟨ha, rfl, hidle⟩
  · rcases h with ⟨-, hloop⟩ | ⟨hne, -⟩
    · exact Or.inl ⟨ha, hm, hloop⟩
    · exact absurd rfl hne
  · rcases h with ⟨⟨-, htrue⟩ | hzero, -⟩ | ⟨hne, -⟩
    · simp [hintr] at htrue
    · omega
    · exact absurd rfl hne
  · rcases h with ⟨-, hloop⟩ | ⟨-, hne, -⟩
    · exact Or.inr (Or.inl ⟨ha, hm, hloop⟩)
    · exact absurd rfl hne
  · rcases h with ⟨⟨hneg, -⟩ | hzero, -⟩ | ⟨-, -, hloop⟩
    · omega
    · exact absurd hzero hlen
    · rw [Int.toNat_natCast, List.drop_length] at hloop
      obtain ⟨-, rfl⟩ := allwritesslLoop_nil lib fuel _ w m' c sends' hloop
      exact Or.inr (Or.inr ⟨ha, rfl, hidle⟩)

/-- INTERNAL: once the plaintext is recorded no further record is made, whatever `send` returns.
SOURCE: ucspi-tcp-matrixssl.patch:255-270, 972-984 -/
theorem allwritesslLoop_recorded (lib : Library S) (fuel : ℕ) (w w' : ℤ) (buf : Bytes) (c c' : Conn S)
    (sends : List WriteOutcome) (hbuf : buf ≠ []) (hw' : 0 ≤ w') (hcount : c.outBufferCount = buf.length)
    (h : allwritesslLoop lib fuel w buf c sends = some (w', c')) : Emits c [] c' ∧ Idle c' := by
  induction fuel generalizing w c sends with
  | zero => simp [allwritesslLoop] at h
  | succ fuel ih =>
    obtain ⟨v, m, sends', hwrite, hnext⟩ := allwritesslLoop_cases lib fuel w w' buf c c' sends hbuf hw' h
    rw [sslWrite_recorded lib fuel buf c sends hbuf hcount] at hwrite
    obtain ⟨a, -, hemits, hcases⟩ := hnext.send_cases hbuf hwrite
    rcases hcases with ⟨-, hm, hloop⟩ | ⟨-, hm, hloop⟩ | ⟨-, rfl, hidle⟩
    · obtain ⟨hrest, hc'⟩ := ih (-1) m sends' (hm.trans hcount) hloop
      exact ⟨hemits.trans hrest, hc'⟩
    · obtain ⟨hrest, hc'⟩ := ih 0 m sends' hm hloop
      exact ⟨hemits.trans hrest, hc'⟩
    · exact ⟨hemits, hidle⟩

/-- INTERNAL: as long as the plaintext is not recorded every `send` has its own record of it, so that
there is one record if and only if the first `send` is not interrupted.
SOURCE: ucspi-tcp-matrixssl.patch:255-270, 981-1021 -/
theorem allwritesslLoop_unrecorded (lib : Library S) (fuel : ℕ) (w w' : ℤ) (buf : Bytes) (c c' : Conn S)
    (sends : List WriteOutcome) (hbuf : buf ≠ []) (hw' : 0 ≤ w') (hcount : c.outBufferCount = 0)
    (h : allwritesslLoop lib fuel w buf c sends = some (w', c')) :
    ∃ made, Emits c made c' ∧ Idle c' ∧ made ≠ [] ∧ (∀ r ∈ made, r.plaintext = buf) ∧
      (made.length = 1 ↔ sends.head? ≠ some .eintr) := by
  induction fuel generalizing w c sends with
  | zero => simp [allwritesslLoop] at h
  | succ fuel ih =>
    obtain ⟨v, m, sends', hwrite, hnext⟩ := allwritesslLoop_cases lib fuel w w' buf c c' sends hbuf hw' h
    rcases sslWrite_unrecorded lib fuel buf c m v sends sends' hcount hwrite with
      ⟨rfl, rfl, hm, hemits⟩ | ⟨wire, e, hencoded, he, hsend⟩
    · -- the encoding failed while `errno` was still `EINTR`: the loop goes on with the same answers
      have hloop : allwritesslLoop lib fuel (-1) buf m sends' = some (w', c') := by
        rcases hnext with ⟨-, hloop⟩ | ⟨hne, -⟩
        · exact hloop
        · exact absurd rfl hne
      obtain ⟨made, hrest, hc'⟩ := ih (-1) m sends' hm hloop
      exact ⟨made, hemits.trans hrest, hc'⟩
    · obtain ⟨a, rfl, hemits, hcases⟩ := hnext.send_cases hbuf hsend
      have hfirst : Emits c [⟨wire, buf⟩] m := hencoded.trans hemits
      rcases hcases with ⟨rfl, hm, hloop⟩ | ⟨ha, hm, hloop⟩ | ⟨ha, rfl, hidle⟩
      · obtain ⟨made, hrest, hc', hne, hall, -⟩ := ih (-1) m sends' (hm.trans he) hloop
        refine ⟨⟨wire, buf⟩ :: made, hfirst.trans hrest, hc', List.cons_ne_nil _ _, ?_, ?_⟩
        · exact List.forall_mem_cons.mpr ⟨rfl, hall⟩
        · simpa using hne
      · obtain ⟨hrest, hc'⟩ := allwritesslLoop_recorded lib fuel 0 w' buf m c' sends' hbuf hw' hm hloop
        exact ⟨[⟨wire, buf⟩], hfirst.trans hrest, hc', List.cons_ne_nil _ _, by simp, by simpa using ha⟩
      · exact ⟨[⟨wire, buf⟩], hfirst, hidle, List.cons_ne_nil _ _, by simp, by simpa using ha⟩

/-- INTERNAL: the length of what was sealed as often as it was tried. -/
theorem stream_plaintext_length (made : List Sealed) (buf : Bytes) (hall : ∀ r ∈ made, r.plaintext = buf) :
    (stream Sealed.plaintext made).length = made.length * buf.length := by
  induction made with
  | nil => simp
  | cons r made ih =>
    have hrest := ih fun x hx => hall x (List.mem_cons_of_mem r hx)
    rw [stream_cons, List.length_append, hall r List.mem_cons_self, hrest, List.length_cons, Nat.add_mul,
      Nat.one_mul, Nat.add_comm]

/-- INTERNAL: records that all carry one plaintext carry it once if and only if there is one. -/
theorem stream_plaintext_eq_iff (made : List Sealed) (buf : Bytes) (hbuf : buf ≠ [])
    (hall : ∀ r ∈ made, r.plaintext = buf) : stream Sealed.plaintext made = buf ↔ made.length = 1 := by
  have hpos : 0 < buf.length := List.length_pos_iff.mpr hbuf
  constructor
  · intro h
    have hlen := stream_plaintext_length made buf hall
    rw [h] at hlen
    exact Nat.eq_of_mul_eq_mul_right hpos (by rw [← hlen, Nat.one_mul])
  · intro h
    obtain ⟨r, rfl⟩ := List.length_eq_one_iff.mp h
    simp [hall r List.mem_cons_self]

/-- **What `allwritessl` puts on the socket.** When `allwritessl` returns a value that is not negative,
the bytes that were sent are the records that were made, and nothing waits to be sent. The records
carry the buffer, each byte once and in order, if and only if the buffer is empty or the first `send`
is not interrupted: an interrupted `send` leaves its record in `outsock`, and without
`outBufferCount` the next call encodes the buffer into one more record.
SOURCE: ucspi-tcp-matrixssl.patch:255-270, 954-1022 -/
theorem allwritessl_sends_once_iff (lib : Library S) (fuel : ℕ) (buf : Bytes) (c c' : Conn S)
    (sends : List WriteOutcome) (w : ℤ) (hc : Idle c) (h : allwritessl lib fuel buf c sends = some (w, c'))
    (hw : 0 ≤ w) :
    ∃ made, c'.records = c.records ++ made ∧ c'.sent = c.sent ++ stream Sealed.wire made ∧ Idle c' ∧
      (stream Sealed.plaintext made = buf ↔ buf = [] ∨ sends.head? ≠ some .eintr) := by
  by_cases hbuf : buf = []
  · subst hbuf
    obtain ⟨-, rfl⟩ := allwritesslLoop_nil lib fuel 0 w c c' sends h
    exact ⟨[], (Emits.refl c').records, (Emits.refl c').sent hc hc, hc, by simp⟩
  · obtain ⟨made, hemits, hc', -, hall, hone⟩ :=
      allwritesslLoop_unrecorded lib fuel 0 w buf c c' sends hbuf hw hc.count h
    refine ⟨made, hemits.records, hemits.sent hc hc', hc', ?_⟩
    rw [stream_plaintext_eq_iff made buf hbuf hall, hone]
    simp [hbuf]

/-- A library without a cipher: a record is a header of five bytes and the plaintext. -/
def plainLibrary : Library Unit where
  maxBufSize := 16384
  matrixSslEncode _ buf used size :=
    if used + 5 + buf.length > size then .full else .record ([23, 3, 0, 0, buf.length.toUInt8] ++ buf) ()

/-- A connection as `sslAccept` leaves it, on which these records of the peer will arrive. -/
def accepted (records : List Record) : Conn Unit where
  ssl := ()
  outsock := []
  outsockSize := 1024
  outBufferCount := 0
  insock := []
  insockSize := 1024
  inbuf := []
  undecoded := records
  network := (records.map Record.wire).flatten
  received := []
  records := []
  sent := []
  intr := false

/-- INTERNAL: an accepted connection is idle. -/
theorem accepted_idle (records : List Record) : Idle (accepted records) := ⟨rfl, rfl⟩

/-- The record that `plainLibrary` makes of two bytes. -/
def twoBytes : Sealed := ⟨[23, 3, 0, 0, 2, 7, 8], [7, 8]⟩

/-- **A short `send` and an interrupted one:** the buffer is in one record. -/
theorem allwritessl_sends_once_iff_short :
    ∃ c' made, allwritessl plainLibrary 9 [7, 8] (accepted []) [.wrote 3, .eintr, .wrote 4] = some (2, c') ∧
      c'.sent = stream Sealed.wire made ∧ stream Sealed.plaintext made = [7, 8] := by
  have hrun : allwritessl plainLibrary 9 [7, 8] (accepted []) [.wrote 3, .eintr, .wrote 4] =
      some (2, { accepted [] with records := [twoBytes], sent := twoBytes.wire, intr := true }) := rfl
  obtain ⟨made, -, hsent, -, honce⟩ := allwritessl_sends_once_iff plainLibrary 9 [7, 8] (accepted []) _
    [.wrote 3, .eintr, .wrote 4] 2 (accepted_idle []) hrun (by decide)
  exact ⟨_, made, hrun, hsent, honce.mpr (Or.inr (by decide))⟩

/-- **An interrupted first `send`:** the buffer is on the socket twice.
SOURCE: ucspi-tcp-matrixssl.patch:1005-1010 -/
theorem allwritessl_interrupted_sends_twice :
    ∃ c', allwritessl plainLibrary 9 [7, 8] (accepted []) [.eintr, .wrote 14] = some (2, c') ∧
      c'.sent = stream Sealed.wire c'.records ∧
      stream Sealed.plaintext c'.records = [7, 8, 7, 8] ∧ stream Sealed.plaintext c'.records ≠ [7, 8] := by
  have hrun : allwritessl plainLibrary 9 [7, 8] (accepted []) [.eintr, .wrote 14] =
      some (2, { accepted [] with
        records := [twoBytes, twoBytes], sent := twoBytes.wire ++ twoBytes.wire, intr := true }) := rfl
  exact ⟨_, hrun, rfl, rfl, by decide⟩

end TTLinux.Analysis.SslWrite
