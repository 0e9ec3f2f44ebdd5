import Mathlib.Tactic.SplitIfs
import TTLinux.Analysis.SslWrite

/-!
# When the relay is in time

`translate` waits in `iopause` for the socket, but what it has to pass on can also wait in `insock`
and in `inbuf`. Nothing is lost or passed on twice; whether it is passed on before the next
`iopause` depends on how the records arrive.
-/

set_option autoImplicit false

namespace TTLinux.Analysis.SslRelay

open TTLinux.Lib TTLinux.Model.MatrixSsl TTLinux.Analysis.SslWrite

variable {S : Type}

/-! ## One call of `sslRead` -/

/-- The application data that a record brings. -/
def plaintext (r : Record) : Bytes :=
  match r.content with
  | .data bytes => bytes
  | _ => []

/-- The records that are completely in `insock`. -/
def pending (c : Conn S) : List Record := complete Record.wire c.undecoded c.insock

/-- What one `recv` reads. -/
def chunk (c : Conn S) : RecvOutcome → Bytes
  | .arrived n => c.network.take (min n (c.insockSize - c.insock.length))
  | .failed => []

/-- The size of `insock` at the next `recv`: a part of a record that fills it makes it larger. -/
def room (c : Conn S) : ℕ :=
  if c.insock ≠ [] ∧ c.insock.length = c.insockSize then c.insockSize * 2 else c.insockSize

/-- What the next call of `sslRead` reads from the network, if no decoded data waits: nothing if a
record waits in `insock`. -/
def incoming (c : Conn S) (recv : RecvOutcome) : Bytes :=
  if pending c = [] then chunk { c with insockSize := room c } recv else []

/-- The side of a connection that reads is the same. -/
structure SameInput (c c' : Conn S) : Prop where
  insock : c'.insock = c.insock
  inbuf : c'.inbuf = c.inbuf
  undecoded : c'.undecoded = c.undecoded
  received : c'.received = c.received

/-- INTERNAL: nothing was read. -/
theorem SameInput.refl (c : Conn S) : SameInput c c := ⟨rfl, rfl, rfl, rfl⟩

/-- INTERNAL: nothing was read in two parts. -/
theorem SameInput.trans {c c' c'' : Conn S} (h : SameInput c c') (h' : SameInput c' c'') : SameInput c c'' :=
  ⟨h'.insock.trans h.insock, h'.inbuf.trans h.inbuf, h'.undecoded.trans h.undecoded,
    h'.received.trans h.received⟩

/-- INTERNAL: sending reads nothing. -/
theorem send_sameInput (c : Conn S) (bytes : Bytes) (a : WriteOutcome) : SameInput c (c.send bytes a).2 := by
  cases a <;> exact ⟨rfl, rfl, rfl, rfl⟩

/-- INTERNAL: sending a response reads nothing, and returns no data.
SOURCE: ucspi-tcp-matrixssl.patch:811-848 -/
theorem sendResponse_sameInput (bytes : Bytes) (c c' : Conn S) (sends : List WriteOutcome) (r : ReadResult)
    (h : sendResponse bytes c sends = some (r, c')) :
    SameInput c c' ∧ (r = .error ∨ r = .data [] 0) := by
  cases sends with
  | nil => simp [sendResponse] at h
  | cons a sends =>
    have hfirst := send_sameInput c bytes a
    rw [sendResponse] at h
    split at h
    · next m hm =>
      rw [hm] at hfirst
      obtain ⟨rfl, rfl⟩ : ReadResult.error = r ∧ m = c' := by simpa using h
      exact ⟨hfirst, Or.inl rfl⟩
    · next k m hm =>
      rw [hm] at hfirst
      split_ifs at h with hshort
      · cases sends with
        | nil => simp at h
        | cons b sends =>
          have hsecond := send_sameInput m (bytes.drop k) b
          dsimp only at h
          split at h
          · next m' hm' =>
            rw [hm'] at hsecond
            obtain ⟨rfl, rfl⟩ : ReadResult.error = r ∧ m' = c' := by simpa using h
            exact ⟨hfirst.trans hsecond, Or.inl rfl⟩
          · next k' m' hm' =>
            rw [hm'] at hsecond
            obtain ⟨rfl, rfl⟩ : ReadResult.data [] 0 = r ∧ m' = c' := by simpa using h
            exact ⟨hfirst.trans hsecond, Or.inr rfl⟩
      · obtain ⟨rfl, rfl⟩ : ReadResult.data [] 0 = r ∧ m = c' := by simpa using h
        exact ⟨hfirst, Or.inr rfl⟩

/-- INTERNAL: a record that waits is decoded, and only such a one.
SOURCE: ucspi-tcp-matrixssl.patch:774-778 -/
theorem matrixSslDecode_cases (c : Conn S) :
    (matrixSslDecode c = none ∧ pending c = []) ∨
      ∃ r rest bytes, c.undecoded = r :: rest ∧ c.insock = r.wire ++ bytes ∧
        matrixSslDecode c = some (r.content, { c with undecoded := rest, insock := bytes }) := by
  cases hu : c.undecoded with
  | nil => exact Or.inl ⟨by simp [matrixSslDecode, hu], by simp [pending, hu, complete]⟩
  | cons r rest =>
    by_cases hwire : r.wire <+: c.insock
    · obtain ⟨bytes, hbytes⟩ := hwire
      refine Or.inr ⟨r, rest, bytes, rfl, hbytes.symm, ?_⟩
      simp [matrixSslDecode, hu, ← hbytes]
    · refine Or.inl ⟨by simp [matrixSslDecode, hu, hwire], ?_⟩
      rw [pending, hu]
      exact complete_cons_of_not_prefix Record.wire r rest c.insock hwire

/-- INTERNAL: what `sslRead` returns of a decoded record, and what it keeps in `inbuf`.
SOURCE: ucspi-tcp-matrixssl.patch:779-877 -/
theorem process_data (len : ℕ) (r : Record) (c c' : Conn S) (sends : List WriteOutcome) (bytes : Bytes)
    (status : ℕ) (hinbuf : c.inbuf = []) (h : process len r.content c sends = some (.data bytes status, c')) :
    bytes = (plaintext r).take len ∧ c'.inbuf = (plaintext r).drop len ∧ c'.insock = c.insock ∧
      c'.undecoded = c.undecoded ∧ c'.received = c.received := by
  have hnone : plaintext r = [] → bytes = [] → SameInput c c' →
      bytes = (plaintext r).take len ∧ c'.inbuf = (plaintext r).drop len ∧ c'.insock = c.insock ∧
        c'.undecoded = c.undecoded ∧ c'.received = c.received := by
    intro hplain hbytes hsame
    rw [hplain, hbytes]
    exact ⟨List.take_nil.symm, by simp [hsame.inbuf, hinbuf], hsame.insock, hsame.undecoded, hsame.received⟩
  cases hr : r.content with
  | data p =>
    have hplain : plaintext r = p := by rw [plaintext, hr]
    obtain ⟨⟨rfl, -⟩, rfl⟩ : (p.take len = bytes ∧ 0 = status) ∧ { c with inbuf := p.drop len } = c' := by
      simpa [process, hr] using h
    rw [hplain]
    exact ⟨rfl, rfl, rfl, rfl, rfl⟩
  | success =>
    obtain ⟨⟨hbytes, -⟩, rfl⟩ : (bytes = [] ∧ 0 = status) ∧ c = c' := by simpa [process, hr] using h
    exact hnone (by rw [plaintext, hr]) hbytes (SameInput.refl c)
  | response answer =>
    rw [hr] at h
    obtain ⟨hsame, hresult⟩ := sendResponse_sameInput answer c c' sends _ h
    exact hnone (by rw [plaintext, hr]) (by simpa using And.left (by simpa using hresult)) hsame
  | closeNotify =>
    obtain ⟨⟨hbytes, -⟩, rfl⟩ : (bytes = [] ∧ SSLSOCKET_CLOSE_NOTIFY = status) ∧ c = c' := by
      simpa [process, hr] using h
    exact hnone (by rw [plaintext, hr]) hbytes (SameInput.refl c)
  | alert => simp [process, hr] at h
  | error => simp [process, hr] at h

/-- What a call of `sslRead` for at most `len` bytes does, if no decoded data waits and the network
brings these bytes: without a complete record nothing, and else it takes the first one. -/
structure Decodes (len : ℕ) (c : Conn S) (arrived bytes : Bytes) (c' : Conn S) : Prop where
  received : c'.received = c.received ++ arrived
  record :
    (complete Record.wire c.undecoded (c.insock ++ arrived) = [] ∧ bytes = [] ∧ c'.inbuf = [] ∧
        c'.undecoded = c.undecoded ∧ c'.insock = c.insock ++ arrived) ∨
      ∃ r, c.undecoded = r :: c'.undecoded ∧ c.insock ++ arrived = r.wire ++ c'.insock ∧
        bytes = (plaintext r).take len ∧ c'.inbuf = (plaintext r).drop len

/-- INTERNAL: a record that waits in `insock` is taken without a `recv`. -/
theorem decodes_waiting (len : ℕ) (r : Record) (rest : List Record) (wire bytes : Bytes) (c c' : Conn S)
    (sends : List WriteOutcome) (status : ℕ) (hinbuf : c.inbuf = []) (hu : c.undecoded = r :: rest)
    (hin : c.insock = r.wire ++ wire)
    (h : process len r.content { c with undecoded := rest, insock := wire } sends =
      some (.data bytes status, c')) :
    Decodes len c [] bytes c' := by
  obtain ⟨hbytes, hbuf, hwire, hrest, hrec⟩ := process_data len r _ c' sends bytes status (by exact hinbuf) h
  constructor
  · rw [hrec, List.append_nil]
  · refine Or.inr ⟨r, ?_, ?_, hbytes, hbuf⟩
    · rw [hu, hrest]
    · rw [List.append_nil, hin, hwire]

/-- INTERNAL: a full `insock` is made larger.
SOURCE: ucspi-tcp-matrixssl.patch:879-893 -/
theorem growInsock_eq (lib : Library S) (c c' : Conn S) (h : growInsock lib c = some c') :
    c' = { c with insockSize := if c.insock.length = c.insockSize then c.insockSize * 2 else c.insockSize } := by
  rw [growInsock] at h
  split_ifs at h ⊢
  · exact (Option.some.inj h).symm
  · exact (Option.some.inj h).symm

/-- INTERNAL: `sslRead` from `recv` on, when no complete record waits.
SOURCE: ucspi-tcp-matrixssl.patch:751-899 -/
theorem readMore_decodes (lib : Library S) (len : ℕ) (recv : RecvOutcome) (sends : List WriteOutcome)
    (c c' : Conn S) (bytes : Bytes) (status : ℕ) (hinbuf : c.inbuf = []) (hpending : pending c = [])
    (h : readMore lib len recv sends c = some (.data bytes status, c')) :
    Decodes len c (chunk c recv) bytes c' := by
  cases recv with
  | failed => simp [readMore, receive] at h
  | arrived n =>
    rw [readMore] at h
    by_cases hchunk : chunk c (.arrived n) = []
    · -- the end of the stream
      have hreceive : receive c (.arrived n) = .error (.data [] SSLSOCKET_EOF) := if_pos hchunk
      rw [hreceive] at h
      obtain ⟨⟨hbytes, -⟩, rfl⟩ : (bytes = [] ∧ SSLSOCKET_EOF = status) ∧ c = c' := by simpa using h
      rw [hchunk]
      constructor
      · rw [List.append_nil]
      · rw [List.append_nil]
        exact Or.inl ⟨hpending, hbytes, hinbuf, rfl, rfl⟩
    · let m : Conn S := { c with
        insock := c.insock ++ chunk c (.arrived n)
        network := c.network.drop (chunk c (.arrived n)).length
        received := c.received ++ chunk c (.arrived n) }
      have hreceive : receive c (.arrived n) = .ok m := if_neg hchunk
      rw [hreceive] at h
      dsimp only at h
      have hm : Decodes len m [] bytes c' := by
        rcases matrixSslDecode_cases m with ⟨hnone, hm⟩ | ⟨r, rest, wire, hu, hin, hsome⟩
        · rw [hnone] at h
          cases hg : growInsock lib m with
          | none => simp [hg] at h
          | some g =>
            obtain ⟨⟨hbytes, -⟩, rfl⟩ : (bytes = [] ∧ 0 = status) ∧ g = c' := by simpa [hg] using h
            rw [growInsock_eq lib m g hg]
            constructor
            · exact (List.append_nil _).symm
            · rw [List.append_nil]
              exact Or.inl ⟨hm, hbytes, hinbuf, rfl, rfl⟩
        · rw [hsome] at h
          exact decodes_waiting len r rest wire bytes m c' sends status hinbuf hu hin h
      exact ⟨by simpa [m] using hm.received, by simpa [m] using hm.record⟩

/-- INTERNAL: a call of `sslRead` that does not fail returns decoded data that waits, or decodes.
SOURCE: ucspi-tcp-matrixssl.patch:707-933 -/
theorem sslRead_cases (lib : Library S) (len : ℕ) (recv : RecvOutcome) (sends : List WriteOutcome)
    (c c' : Conn S) (bytes : Bytes) (status : ℕ)
    (h : sslRead lib len recv sends c = some (.data bytes status, c')) :
    (c.inbuf ≠ [] ∧ bytes = c.inbuf.take len ∧ c' = { c with inbuf := c.inbuf.drop len }) ∨
      (c.inbuf = [] ∧ Decodes len c (incoming c recv) bytes c') := by
  rw [sslRead] at h
  split_ifs at h with hlen hinbuf hinsock
  · simp at h
  · obtain ⟨⟨rfl, -⟩, rfl⟩ : (c.inbuf.take len = bytes ∧ 0 = status) ∧
        { c with inbuf := c.inbuf.drop len } = c' := by
      simpa using h
    exact Or.inl ⟨hinbuf, rfl, rfl⟩
  · refine Or.inr ⟨not_not.mp hinbuf, ?_⟩
    have hpending : pending c = [] := by
      rw [pending, hinsock]
      exact complete_nil_right Record.wire c.undecoded fun r _ => r.wire_ne_nil
    have hroom : room c = c.insockSize := if_neg fun hfull => hfull.1 hinsock
    rw [incoming, if_pos hpending, hroom]
    exact readMore_decodes lib len recv sends c c' bytes status (not_not.mp hinbuf) hpending h
  · refine Or.inr ⟨not_not.mp hinbuf, ?_⟩
    rcases matrixSslDecode_cases c with ⟨hnone, hpending⟩ | ⟨r, rest, wire, hu, hin, hsome⟩
    · rw [hnone] at h
      cases hg : growInsock lib c with
      | none => simp [hg] at h
      | some g =>
        rw [hg] at h
        have hgrown : g = { c with insockSize := room c } := by
          rw [growInsock_eq lib c g hg, room]
          simp only [ne_eq, hinsock, not_false_eq_true, true_and]
        rw [incoming, if_pos hpending, ← hgrown]
        subst hgrown
        have hdecodes := readMore_decodes lib len recv sends { c with insockSize := room c } c' bytes status
          (not_not.mp hinbuf) hpending h
        exact ⟨hdecodes.received, hdecodes.record⟩
    · rw [hsome] at h
      have hpending : pending c ≠ [] := by
        rw [pending, hu, hin, complete_cons]
        exact List.cons_ne_nil _ _
      rw [incoming, if_neg hpending]
      exact decodes_waiting len r rest wire bytes c c' sends status (not_not.mp hinbuf) hu hin h

/-! ## Writing leaves the input alone -/

/-- INTERNAL: neither does sealing. -/
theorem retryEncode_sameInput (lib : Library S) (buf : Bytes) (fuel : ℕ) (c c' : Conn S) (ok : Bool)
    (h : retryEncode lib buf fuel c = some (ok, c')) : SameInput c c' := by
  induction fuel generalizing c with
  | zero => simp [retryEncode] at h
  | succ fuel ih =>
    rw [retryEncode] at h
    split at h
    · obtain ⟨-, rfl⟩ : false = ok ∧ c = c' := by simpa using h
      exact SameInput.refl c
    · split_ifs at h with hmax
      · obtain ⟨-, rfl⟩ : false = ok ∧ c = c' := by simpa using h
        exact SameInput.refl c
      · have hrest := ih _ h
        exact ⟨hrest.insock, hrest.inbuf, hrest.undecoded, hrest.received⟩
    · obtain ⟨rfl, rfl⟩ := Prod.mk.injEq .. ▸ Option.some.inj h
      exact ⟨rfl, rfl, rfl, rfl⟩

/-- INTERNAL: nor sending what is sealed. -/
theorem sendOutsock_sameInput (buf : Bytes) (c c' : Conn S) (w : ℤ) (sends sends' : List WriteOutcome)
    (h : sendOutsock buf c sends = some (w, c', sends')) : SameInput c c' := by
  cases sends with
  | nil => simp [sendOutsock] at h
  | cons a sends =>
    have hsend := send_sameInput c c.outsock a
    rw [sendOutsock] at h
    dsimp only at h
    split at h
    · next m hm =>
      rw [hm] at hsend
      obtain ⟨-, rfl, -⟩ : -1 = w ∧ m = c' ∧ sends = sends' := by simpa using h
      exact hsend
    · next k m hm =>
      rw [hm] at hsend
      split_ifs at h
      · obtain ⟨-, rfl, -⟩ := (by simpa using h : _ = w ∧ _ = c' ∧ sends = sends')
        exact ⟨hsend.insock, hsend.inbuf, hsend.undecoded, hsend.received⟩
      · obtain ⟨-, rfl, -⟩ := (by simpa using h : _ = w ∧ _ = c' ∧ sends = sends')
        exact ⟨hsend.insock, hsend.inbuf, hsend.undecoded, hsend.received⟩

/-- INTERNAL: nor a whole write. -/
theorem sslWrite_sameInput (lib : Library S) (fuel : ℕ) (buf : Bytes) (c c' : Conn S) (w : ℤ)
    (sends sends' : List WriteOutcome) (h : sslWrite lib fuel buf c sends = some (w, c', sends')) :
    SameInput c c' := by
  rw [sslWrite] at h
  split_ifs at h with hother hcount
  · obtain ⟨-, rfl, -⟩ : -1 = w ∧ c = c' ∧ sends = sends' := by simpa using h
    exact SameInput.refl c
  · cases henc : retryEncode lib buf fuel c with
    | none => simp [henc] at h
    | some r =>
      obtain ⟨ok, m⟩ := r
      have hm := retryEncode_sameInput lib buf fuel c m ok henc
      rw [henc] at h
      cases ok with
      | false =>
        obtain ⟨-, rfl, -⟩ : -1 = w ∧ m = c' ∧ sends = sends' := by simpa using h
        exact hm
      | true => exact hm.trans (sendOutsock_sameInput buf m c' w sends sends' h)
  · exact sendOutsock_sameInput buf c c' w sends sends' h

/-- INTERNAL: `allwritessl` does not touch what is read.
SOURCE: ucspi-tcp-matrixssl.patch:255-270 -/
theorem allwritesslLoop_sameInput (lib : Library S) (fuel : ℕ) (w w' : ℤ) (buf : Bytes) (c c' : Conn S)
    (sends : List WriteOutcome) (h : allwritesslLoop lib fuel w buf c sends = some (w', c')) : SameInput c c' := by
  induction fuel generalizing w buf c sends with
  | zero => simp [allwritesslLoop] at h
  | succ fuel ih =>
    rw [allwritesslLoop] at h
    split_ifs at h with hbuf
    · obtain ⟨-, rfl⟩ : w = w' ∧ c = c' := by simpa using h
      exact SameInput.refl c
    · cases hwrite : sslWrite lib fuel buf c sends with
      | none => simp [hwrite] at h
      | some r =>
        obtain ⟨v, m, sends'⟩ := r
        have hm := sslWrite_sameInput lib fuel buf c m v sends sends' hwrite
        rw [hwrite] at h
        dsimp only at h
        split_ifs at h with herr hintr hzero
        · exact hm.trans (ih v buf m sends' h)
        · obtain ⟨-, rfl⟩ : -1 = w' ∧ m = c' := by simpa using h
          exact hm
        · exact hm.trans (ih v buf m sends' h)
        · exact hm.trans (ih v _ m sends' h)

/-- INTERNAL: `allwrite` has written everything, if it does not return a negative value.
SOURCE: ucspi-tcp-matrixssl.patch:238-253 -/
theorem allwrite_all (writes : List WriteOutcome) (w w' : ℤ) (buf written : Bytes)
    (h : allwrite writes w buf = some (w', written)) (hw' : 0 ≤ w') : written = buf := by
  induction writes generalizing w buf written with
  | nil =>
    cases buf with
    | nil => exact (by simpa [allwrite] using h : w = w' ∧ written = []).2
    | cons b buf => simp [allwrite] at h
  | cons a writes ih =>
    cases buf with
    | nil => exact (by simpa [allwrite] using h : w = w' ∧ written = []).2
    | cons b buf =>
      cases a with
      | eintr => exact ih (-1) (b :: buf) written h
      | failed =>
        obtain ⟨rfl, -⟩ : -1 = w' ∧ written = [] := by simpa [allwrite] using h
        omega
      | wrote k =>
        rw [allwrite] at h
        obtain ⟨⟨v, rest⟩, hrest, heq⟩ := Option.map_eq_some_iff.mp h
        obtain ⟨rfl, rfl⟩ : v = w' ∧ (b :: buf).take k ++ rest = written := by simpa using heq
        rw [ih _ _ rest hrest, List.take_append_drop]

/-! ## One round -/

/-- Of the records that the peer sends some were taken: they are gone from `insock`, and their data
is with the child or in `inbuf`. -/
structure Tracks (records : List Record) (s : Relay S) : Prop where
  taken : ∃ taken, records = taken ++ s.conn.undecoded ∧
    s.conn.received = stream Record.wire taken ++ s.conn.insock ∧
    s.child ++ s.conn.inbuf = stream plaintext taken

/-- All data of the records that have been completely received was written to the child, in order and once. -/
def Delivered (records : List Record) (s : Relay S) : Prop :=
  s.child = stream plaintext (complete Record.wire records s.conn.received)

/-- No data waits in the buffers of the connection. -/
structure CaughtUp (c : Conn S) : Prop where
  inbuf : c.inbuf = []
  insock : stream plaintext (pending c) = []

/-- INTERNAL: nothing is lost and nothing is passed on twice, so that only data which waits can be missing. -/
theorem Tracks.delivered_iff {records : List Record} {s : Relay S} (h : Tracks records s) :
    Delivered records s ↔ CaughtUp s.conn := by
  obtain ⟨taken, hrecords, hreceived, hchild⟩ := h.taken
  have hcomplete : stream plaintext (complete Record.wire records s.conn.received) =
      s.child ++ (s.conn.inbuf ++ stream plaintext (pending s.conn)) := by
    rw [hrecords, hreceived, complete_append, stream_append, ← hchild, List.append_assoc]
    rfl
  rw [Delivered, hcomplete, List.self_eq_append_right, List.append_eq_nil_iff]
  exact ⟨fun h => ⟨h.1, h.2⟩, fun h => ⟨h.inbuf, h.insock⟩⟩

/-- What arrives in a round can be passed on in this round: of the records that are then complete in
`insock` only the first one brings data, and it fits into the buffer of `translate`. -/
def Prompt (r : Round) (c : Conn S) : Prop :=
  r.ssl = true → ∀ first rest,
    complete Record.wire c.undecoded (c.insock ++ incoming c r.recv) = first :: rest →
      (plaintext first).length ≤ BUFLENGTH ∧ stream plaintext rest = []

/-- INTERNAL: the part of a round for the network, when the loop goes on.
SOURCE: ucspi-tcp-matrixssl.patch:306-315 -/
theorem fromNetwork_cases (lib : Library S) (r : Round) (e : RoundEnd) (s s' : Relay S)
    (h : fromNetwork lib r s = some (e, s')) (he : e ≠ .died) :
    (r.ssl = false ∧ s' = s) ∨
      ∃ bytes status, r.ssl = true ∧ s'.child = s.child ++ bytes ∧
        sslRead lib BUFLENGTH r.recv r.responses s.conn = some (.data bytes status, s'.conn) := by
  rw [fromNetwork] at h
  split_ifs at h with hssl
  · obtain ⟨-, rfl⟩ : RoundEnd.again = e ∧ s = s' := by simpa using h
    exact Or.inl ⟨by simpa using hssl, rfl⟩
  · refine Or.inr ?_
    split at h
    · simp at h
    · obtain ⟨rfl, -⟩ := (by simpa using h : RoundEnd.died = e ∧ _)
      exact absurd rfl he
    · next bytes status c hread =>
      refine ⟨bytes, status, by simpa using hssl, ?_⟩
      cases hw : allwrite r.writes 0 bytes with
      | none => simp [hw] at h
      | some p =>
        obtain ⟨w, written⟩ := p
        rw [hw] at h
        dsimp only at h
        split_ifs at h with hneg hend
        · obtain ⟨rfl, -⟩ := (by simpa using h : RoundEnd.died = e ∧ _)
          exact absurd rfl he
        · obtain ⟨-, rfl⟩ := (by simpa using h : RoundEnd.left = e ∧ _ = s')
          rw [allwrite_all r.writes 0 w bytes written hw (by omega)]
          exact ⟨rfl, hread⟩
        · obtain ⟨-, rfl⟩ := (by simpa using h : RoundEnd.again = e ∧ _ = s')
          rw [allwrite_all r.writes 0 w bytes written hw (by omega)]
          exact ⟨rfl, hread⟩

/-- INTERNAL: the part of a round for the child leaves the input alone.
SOURCE: ucspi-tcp-matrixssl.patch:316-326 -/
theorem fromChild_sameInput (lib : Library S) (fuel : ℕ) (r : Round) (e : RoundEnd) (s s' : Relay S)
    (h : fromChild lib fuel r s = some (e, s')) : s'.child = s.child ∧ SameInput s.conn s'.conn := by
  rw [fromChild] at h
  split_ifs at h with hclear
  · obtain ⟨-, rfl⟩ : RoundEnd.again = e ∧ s = s' := by simpa using h
    exact ⟨rfl, SameInput.refl s.conn⟩
  · split at h
    · obtain ⟨-, rfl⟩ : RoundEnd.died = e ∧ s = s' := by simpa using h
      exact ⟨rfl, SameInput.refl s.conn⟩
    · next bytes _ =>
      dsimp only at h
      cases hw : allwritessl lib fuel (bytes.take BUFLENGTH) s.conn r.sends with
      | none => simp [hw] at h
      | some p =>
        obtain ⟨w, c⟩ := p
        have hsame := allwritesslLoop_sameInput lib fuel 0 w _ s.conn c r.sends hw
        rw [hw] at h
        dsimp only at h
        split_ifs at h
        · obtain ⟨-, rfl⟩ := (by simpa using h : RoundEnd.died = e ∧ _ = s')
          exact ⟨rfl, hsame⟩
        · obtain ⟨-, rfl⟩ := (by simpa using h : RoundEnd.left = e ∧ _ = s')
          exact ⟨rfl, hsame⟩
        · obtain ⟨-, rfl⟩ := (by simpa using h : RoundEnd.again = e ∧ _ = s')
          exact ⟨rfl, hsame⟩

/-- INTERNAL: a round that goes back to `iopause` is its part for the network, with the same input after
the part for the child.
SOURCE: ucspi-tcp-matrixssl.patch:292-329 -/
theorem translateRound_cases (lib : Library S) (fuel : ℕ) (r : Round) (s s' : Relay S)
    (h : translateRound lib fuel r s = some (.again, s')) :
    ∃ e m, fromNetwork lib r s = some (e, m) ∧ e ≠ .died ∧ s'.child = m.child ∧ SameInput m.conn s'.conn := by
  rw [translateRound] at h
  split at h
  · simp at h
  · simp at h
  · next e m hdied hnet =>
    refine ⟨e, m, hnet, hdied, ?_⟩
    split at h
    · simp at h
    · simp at h
    · next e' m' _ hchild =>
      have hm := fromChild_sameInput lib fuel r e' m m' hchild
      split_ifs at h
      · simp at h
      · simp at h
      · obtain rfl : m' = s' := by simpa using h
        exact hm

/-- INTERNAL: a step that reads nothing keeps track of the records. -/
theorem SameInput.tracks {records : List Record} {s s' : Relay S} (hconn : SameInput s.conn s'.conn)
    (hchild : s'.child = s.child) (h : Tracks records s) : Tracks records s' := by
  constructor
  rw [hconn.undecoded, hconn.received, hconn.insock, hconn.inbuf, hchild]
  exact h.taken

/-- INTERNAL: and of whether all of them were read. -/
theorem SameInput.caughtUp_iff {c c' : Conn S} (h : SameInput c c') : CaughtUp c' ↔ CaughtUp c := by
  have hpending : pending c' = pending c := by rw [pending, pending, h.undecoded, h.insock]
  constructor
  · exact fun hc => ⟨h.inbuf ▸ hc.inbuf, hpending ▸ hc.insock⟩
  · exact fun hc => ⟨h.inbuf ▸ hc.inbuf, hpending ▸ hc.insock⟩

/-- INTERNAL: what a call of `sslRead` returns is written to the child behind what was there before.
SOURCE: ucspi-tcp-matrixssl.patch:306-315 -/
theorem sslRead_tracks (lib : Library S) (len : ℕ) (recv : RecvOutcome) (sends : List WriteOutcome)
    (records : List Record) (s : Relay S) (c' : Conn S) (bytes : Bytes) (status : ℕ)
    (h : sslRead lib len recv sends s.conn = some (.data bytes status, c')) (hs : Tracks records s) :
    Tracks records ⟨c', s.child ++ bytes⟩ := by
  obtain ⟨taken, hrecords, hreceived, hchild⟩ := hs.taken
  rcases sslRead_cases lib len recv sends s.conn c' bytes status h with ⟨-, rfl, rfl⟩ | ⟨hinbuf, hdecodes⟩
  · refine ⟨taken, hrecords, hreceived, ?_⟩
    rw [List.append_assoc, List.take_append_drop]
    exact hchild
  · rw [hinbuf, List.append_nil] at hchild
    rcases hdecodes.record with ⟨-, rfl, hinbuf', hu, hin⟩ | ⟨r, hu, hin, rfl, hinbuf'⟩
    · refine ⟨taken, ?_, ?_, ?_⟩
      · rw [hrecords, hu]
      · rw [hdecodes.received, hreceived, hin, List.append_assoc]
      · rw [hinbuf', List.append_nil, List.append_nil]
        exact hchild
    · refine ⟨taken ++ [r], ?_, ?_, ?_⟩
      · rw [hrecords, hu, List.append_assoc]
        rfl
      · rw [hdecodes.received, hreceived, List.append_assoc, hin]
        simp
      · rw [hinbuf', List.append_assoc, List.take_append_drop, hchild]
        simp

/-- INTERNAL: a round loses no data and passes none on twice. -/
theorem translateRound_tracks (lib : Library S) (fuel : ℕ) (r : Round) (records : List Record) (s s' : Relay S)
    (h : translateRound lib fuel r s = some (.again, s')) (hs : Tracks records s) : Tracks records s' := by
  obtain ⟨e, m, hnet, he, hchild, hsame⟩ := translateRound_cases lib fuel r s s' h
  apply hsame.tracks hchild
  rcases fromNetwork_cases lib r e s m hnet he with ⟨-, rfl⟩ | ⟨bytes, status, -, hm, hread⟩
  · exact hs
  · have htracks := sslRead_tracks lib _ _ _ records s m.conn bytes status hread hs
    rwa [← hm] at htracks

/-- INTERNAL: from `iopause` without waiting data to `iopause` without waiting data.
SOURCE: ucspi-tcp-matrixssl.patch:292-329, 707-933 -/
theorem translateRound_caughtUp_iff (lib : Library S) (fuel : ℕ) (r : Round) (s s' : Relay S)
    (h : translateRound lib fuel r s = some (.again, s')) (hs : CaughtUp s.conn) :
    CaughtUp s'.conn ↔ Prompt r s.conn := by
  obtain ⟨e, m, hnet, he, -, hsame⟩ := translateRound_cases lib fuel r s s' h
  rw [hsame.caughtUp_iff]
  rcases fromNetwork_cases lib r e s m hnet he with ⟨hssl, rfl⟩ | ⟨bytes, status, hssl, -, hread⟩
  · exact iff_of_true hs fun h => absurd h (by simp [hssl])
  · rcases sslRead_cases lib _ _ _ s.conn m.conn bytes status hread with ⟨hne, -⟩ | ⟨-, hdecodes⟩
    · exact absurd hs.inbuf hne
    · rcases hdecodes.record with ⟨hnone, -, hinbuf, hu, hin⟩ | ⟨first, hu, hin, -, hinbuf⟩
      · apply iff_of_true
        · refine ⟨hinbuf, ?_⟩
          rw [pending, hu, hin, hnone]
          rfl
        · intro _ first rest hcons
          simp [hnone] at hcons
      · have hcomplete : complete Record.wire s.conn.undecoded (s.conn.insock ++ incoming s.conn r.recv) =
            first :: pending m.conn := by
          rw [hu, hin, complete_cons]
          rfl
        constructor
        · intro hm _ f rest hcons
          obtain ⟨rfl, rfl⟩ := List.cons.inj (hcomplete.symm.trans hcons)
          exact ⟨List.drop_eq_nil_iff.mp (hinbuf ▸ hm.inbuf), hm.insock⟩
        · intro hprompt
          obtain ⟨hfits, hrest⟩ := hprompt hssl first _ hcomplete
          exact ⟨hinbuf.trans (List.drop_eq_nil_iff.mpr hfits), hrest⟩

/-! ## Runs -/

/-- A run of the loop of `translate`, with the rounds that were made and the states in which each of
them was waiting in `iopause`. -/
inductive Run (lib : Library S) (s₀ : Relay S) : List (Relay S × Round) → Relay S → Prop where
  | start : Run lib s₀ [] s₀
  | round {past : List (Relay S × Round)} {s s' : Relay S} (fuel : ℕ) (r : Round) :
    Run lib s₀ past s → translateRound lib fuel r s = some (.again, s') → Run lib s₀ (past ++ [(s, r)]) s'

/-- The relay as it enters the loop: these records are still to be decoded, and of their bytes
`sslAccept` has already read those in `insock`.
SOURCE: ucspi-tcp-matrixssl.patch:286-292, 550-572 -/
structure Starts (records : List Record) (s : Relay S) : Prop where
  undecoded : s.conn.undecoded = records
  received : s.conn.received = s.conn.insock
  inbuf : s.conn.inbuf = []
  child : s.child = []

/-- INTERNAL: the relay begins with track of the records. -/
theorem Starts.tracks {records : List Record} {s : Relay S} (h : Starts records s) : Tracks records s := by
  refine ⟨[], h.undecoded.symm, h.received, ?_⟩
  rw [h.child, h.inbuf]
  rfl

/-- INTERNAL: and keeps it. -/
theorem Run.tracks {lib : Library S} {records : List Record} {s₀ s : Relay S} {past : List (Relay S × Round)}
    (h : Run lib s₀ past s) (hs : Starts records s₀) : Tracks records s := by
  induction h with
  | start => exact hs.tracks
  | round fuel r _ hround ih => exact translateRound_tracks lib fuel r records _ _ hround ih

/-- **When the relay is in time.** In a run of `translate`, all data of the records that were completely
received is with the child, in order and once, at every `iopause`, if and only if no record with data
is complete in `insock` when the loop starts, and in each round of the run for which the socket is
ready, of the records that are complete with the bytes that `recv` brings only the first one brings
data, and no more of it than the buffer of `translate` holds.
SOURCE: ucspi-tcp-matrixssl.patch:238-253, 272-330, 707-933 -/
theorem translate_delivered_iff (lib : Library S) (records : List Record) (s₀ s : Relay S)
    (past : List (Relay S × Round)) (hs : Starts records s₀) (h : Run lib s₀ past s) :
    ((∀ p ∈ past, Delivered records p.1) ∧ Delivered records s) ↔
      stream plaintext (complete Record.wire records s₀.conn.insock) = [] ∧
        ∀ p ∈ past, Prompt p.2 p.1.conn := by
  induction h with
  | start =>
    have hwaits : pending s₀.conn = complete Record.wire records s₀.conn.insock := by
      rw [pending, hs.undecoded]
    simp only [List.not_mem_nil, false_implies, implies_true, true_and, and_true]
    rw [hs.tracks.delivered_iff, ← hwaits]
    exact ⟨fun h => h.insock, fun h => ⟨hs.inbuf, h⟩⟩
  | @round past s s' fuel r hrun hround ih =>
    have htracks := hrun.tracks hs
    have htracks' := translateRound_tracks lib fuel r records s s' hround htracks
    have hstep : Delivered records s → (Delivered records s' ↔ Prompt r s.conn) := by
      intro hlast
      rw [htracks'.delivered_iff]
      exact translateRound_caughtUp_iff lib fuel r s s' hround (htracks.delivered_iff.mp hlast)
    rw [List.forall_mem_append, List.forall_mem_append, List.forall_mem_singleton, List.forall_mem_singleton]
    constructor
    · rintro ⟨⟨hpast, hlast⟩, hnew⟩
      obtain ⟨hstart, hprompt⟩ := ih.mp ⟨hpast, hlast⟩
      exact ⟨hstart, hprompt, (hstep hlast).mp hnew⟩
    · rintro ⟨hstart, hprompt, hnew⟩
      obtain ⟨hpast, hlast⟩ := ih.mpr ⟨hstart, hprompt⟩
      exact ⟨⟨hpast, hlast⟩, (hstep hlast).mpr hnew⟩

/-- Two records with data, of which the second one follows the first one. -/
def firstData : Record := ⟨[23, 3, 0, 0, 1, 7], .data [7], by decide⟩
def secondData : Record := ⟨[23, 3, 0, 0, 1, 8], .data [8], by decide⟩

/-- The relay after so many bytes of these records have arrived. -/
def relayed (n : ℕ) (insock : Bytes) (undecoded : List Record) (child : Bytes) : Relay Unit where
  conn := { accepted [firstData, secondData] with
    insock := insock
    undecoded := undecoded
    network := (accepted [firstData, secondData]).network.drop n
    received := (accepted [firstData, secondData]).network.take n }
  child := child

/-- A round in which only the socket is ready, with so many bytes. -/
def arrives (n : ℕ) : Round where
  ssl := true
  clear := false
  recv := .arrived n
  responses := []
  writes := [.wrote 1]
  read := none
  sends := []

/-- INTERNAL: the relay of the example is at its beginning. -/
theorem relayed_starts :
    Starts [firstData, secondData] (relayed 0 [] [firstData, secondData] []) := ⟨rfl, rfl, rfl, rfl⟩

/-- **One record at a time:** each one is with the child at the next `iopause`. -/
theorem translate_delivered_iff_single :
    ∃ past s, Run plainLibrary (relayed 0 [] [firstData, secondData] []) past s ∧ past.length = 2 ∧
      s.child = [7, 8] ∧ Delivered [firstData, secondData] s := by
  have hfirst : translateRound plainLibrary 0 (arrives 6) (relayed 0 [] [firstData, secondData] []) =
      some (.again, relayed 6 [] [secondData] [7]) := rfl
  have hsecond : translateRound plainLibrary 0 (arrives 6) (relayed 6 [] [secondData] [7]) =
      some (.again, relayed 12 [] [] [7, 8]) := rfl
  have hrun := Run.round 0 (arrives 6) (Run.round 0 (arrives 6) Run.start hfirst) hsecond
  refine ⟨_, _, hrun, rfl, rfl, ?_⟩
  refine ((translate_delivered_iff plainLibrary [firstData, secondData] _ _ _ relayed_starts hrun).mpr ?_).2
  refine ⟨rfl, List.forall_mem_cons.mpr ⟨?_, List.forall_mem_singleton.mpr ?_⟩⟩
  · intro _ first rest hcons
    obtain ⟨rfl, rfl⟩ : firstData = first ∧ [] = rest := List.cons.inj hcons
    exact ⟨by decide, rfl⟩
  · intro _ first rest hcons
    obtain ⟨rfl, rfl⟩ : secondData = first ∧ [] = rest := List.cons.inj hcons
    exact ⟨by decide, rfl⟩

/-- **Two records in one `recv`:** the second one is still in `insock` when the relay waits again.
SOURCE: ucspi-tcp-matrixssl.patch:304-311, 790-800 -/
theorem translate_leaves_second_record :
    ∃ past s, Run plainLibrary (relayed 0 [] [firstData, secondData] []) past s ∧
      s.conn.received = firstData.wire ++ secondData.wire ∧ s.child = [7] ∧
      ¬Delivered [firstData, secondData] s := by
  have hround : translateRound plainLibrary 0 (arrives 12) (relayed 0 [] [firstData, secondData] []) =
      some (.again, relayed 12 secondData.wire [secondData] [7]) := rfl
  refine ⟨_, _, Run.round 0 (arrives 12) Run.start hround, rfl, rfl, ?_⟩
  unfold Delivered
  decide

end TTLinux.Analysis.SslRelay
