import TTLinux.Model.UrlFilter

/-!
# What a query of the daemon leaves

`doquery` uses one variable for the length of the request, the length of the reply and the result, and the size of the
buffer of its caller for its own. `Correct` says what a query has to leave, and `doquery_correct_iff` with which outcomes
of the system calls, URIs and sizes it does so.
-/

set_option autoImplicit false

namespace TTLinux.Analysis.UrlFilterQuery

open TTLinux.Lib TTLinux.Model.UrlFilter

/-- `MATCH <uri>` -/
def request (uri : Bytes) : Bytes := ascii "MATCH ".toList ++ uri

/-- **What a query has to leave**: a positive value is the number of bytes that were read of a reply, and these stand in
the buffer, the buffer is not written behind its end, and what is sent first is a part of the request. -/
structure Correct (d : Daemon) (uri : Option Bytes) (buflen : ℕ) (q : Query) : Prop where
  received : 0 < q.len → ∃ reply, d.reply = some reply ∧ q.len = (reply.take buflen).length ∧
    q.buf.take (reply.take buflen).length = reply.take buflen
  inside : q.buf.length = buflen
  initialised : ∀ u, uri = some u → ∀ sent ∈ q.sent.head?, sent <+: (request u).map some

/-- **The query goes well** once it is connected: the request is sent, it fits in a buffer of the size given, and so
does the reply with its terminator. -/
structure GoesWell (d : Daemon) (uri : Bytes) (buflen : ℕ) : Prop where
  write : 0 < d.write ((querybuf uri buflen).take (uri.length + 6))
  fits : uri.length + 6 < buflen
  reply : ∀ reply, d.reply = some reply → reply.length < buflen

/-- INTERNAL: the length of a request. -/
theorem length_request (uri : Bytes) : (request uri).length = uri.length + 6 := by
  unfold request
  rw [List.length_append, Nat.add_comm]
  rfl

/-- INTERNAL: a request that fits is sent as it is. -/
theorem querybuf_of_fits (uri : Bytes) (buflen : ℕ) (h : uri.length + 6 < buflen) :
    (querybuf uri buflen).take (uri.length + 6) = (request uri).map some := by
  have hne : buflen ≠ 0 := by omega
  have hlength := length_request uri
  have htake : (request uri).take (buflen - 1) = request uri := List.take_of_length_le (by omega)
  unfold querybuf
  rw [if_neg hne]
  change (((request uri).take (buflen - 1) ++ [0]).map some ++ _).take (uri.length + 6) = _
  rw [htake, List.map_append, List.append_assoc, List.take_append_of_le_length (by rw [List.length_map]; omega),
    List.take_of_length_le (by rw [List.length_map]; omega)]

/-- INTERNAL: it holds no end of a string. -/
theorem zero_notMem_request (uri : Bytes) (h0 : (0 : UInt8) ∉ uri) : (0 : UInt8) ∉ request uri := by
  unfold request
  rw [List.mem_append]
  exact fun h => h.elim (by decide) h0

/-- INTERNAL: **of a request that does not fit, bytes are sent that do not belong to it**: behind what is stored stands
the terminator, or nothing was stored at all. -/
theorem querybuf_of_not_fits (uri : Bytes) (h0 : (0 : UInt8) ∉ uri) (buflen : ℕ) (h : buflen ≤ uri.length + 6) :
    ¬ (querybuf uri buflen).take (uri.length + 6) <+: (request uri).map some := by
  intro hbefore
  have hlength := length_request uri
  by_cases hzero : buflen = 0
  · have hnone : none ∈ (querybuf uri buflen).take (uri.length + 6) := by
      unfold querybuf
      rw [if_pos hzero]
      dsimp only
      rw [List.map_nil, List.nil_append, List.length_nil, List.take_replicate]
      apply List.mem_replicate.mpr
      exact ⟨by omega, rfl⟩
    obtain ⟨b, -, hb⟩ := List.mem_map.mp (hbefore.subset hnone)
    cases hb
  · have hend : some 0 ∈ (querybuf uri buflen).take (uri.length + 6) := by
      have hstored : ((request uri).take (buflen - 1)).length = buflen - 1 := by
        rw [List.length_take]
        omega
      apply List.mem_of_getElem? (i := buflen - 1)
      rw [List.getElem?_take_of_lt (by omega)]
      unfold querybuf
      rw [if_neg hzero]
      change (((request uri).take (buflen - 1) ++ [0]).map some ++ _)[buflen - 1]? = _
      rw [List.map_append, List.append_assoc, List.getElem?_append_right (by rw [List.length_map, hstored]),
        List.length_map, hstored, Nat.sub_self]
      rfl
    obtain ⟨b, hb, heq⟩ := List.mem_map.mp (hbefore.subset hend)
    cases heq
    exact zero_notMem_request uri h0 hb

/-! ## The exits -/

/-- INTERNAL: a query that does not come to its connection. -/
theorem correct_unsent (d : Daemon) (uri : Option Bytes) (buf : Bytes) : Correct d uri buf.length ⟨-1, buf, []⟩ where
  received := by
    intro h
    exact absurd h (show ¬ (0 : ℤ) < -1 by decide)
  inside := rfl
  initialised := by
    intro u _ sent hsent
    cases hsent

section connected

variable (d : Daemon) (uri : Bytes) (buflen : ℕ) (hsocket : d.socket = true) (hconnect : d.connect = true)
include hsocket hconnect

/-- INTERNAL: the exit for a request that is not sent. -/
theorem doquery_write_fails (buf : Bytes) (h : d.write ((querybuf uri buflen).take (uri.length + 6)) ≤ 0) :
    doquery d (some uri) buf buflen =
      ⟨(uri.length + 6 : ℕ), buf, [(querybuf uri buflen).take (uri.length + 6)]⟩ := by
  unfold doquery
  dsimp only
  rw [hsocket, hconnect, Bool.not_true, if_neg Bool.false_ne_true, if_neg Bool.false_ne_true, if_pos h]

/-- INTERNAL: the exit for a reply that cannot be read. -/
theorem doquery_read_fails (buf : Bytes) (h : 0 < d.write ((querybuf uri buflen).take (uri.length + 6)))
    (hreply : d.reply = none) :
    doquery d (some uri) buf buflen = ⟨-1, buf, [(querybuf uri buflen).take (uri.length + 6)]⟩ := by
  unfold doquery
  dsimp only
  rw [hsocket, hconnect, Bool.not_true, if_neg Bool.false_ne_true, if_neg Bool.false_ne_true, if_neg (Int.not_le.mpr h),
    hreply]

/-- INTERNAL: the exit for the end of the stream. -/
theorem doquery_read_nothing (buf reply : Bytes) (h : 0 < d.write ((querybuf uri buflen).take (uri.length + 6)))
    (hreply : d.reply = some reply) (hread : (reply.take buflen).length = 0) :
    doquery d (some uri) buf buflen = ⟨0, buf, [(querybuf uri buflen).take (uri.length + 6)]⟩ := by
  unfold doquery
  dsimp only
  rw [hsocket, hconnect, Bool.not_true, if_neg Bool.false_ne_true, if_neg Bool.false_ne_true, if_neg (Int.not_le.mpr h),
    hreply]
  dsimp only
  rw [hread, if_pos le_rfl]
  rfl

/-- INTERNAL: the end of the function. -/
theorem doquery_read (buf reply : Bytes) (h : 0 < d.write ((querybuf uri buflen).take (uri.length + 6)))
    (hreply : d.reply = some reply) (hread : 0 < (reply.take buflen).length) :
    doquery d (some uri) buf buflen =
      ⟨(reply.take buflen).length, store (store buf 0 (reply.take buflen)) (reply.take buflen).length [0],
        [(querybuf uri buflen).take (uri.length + 6), (ascii "QUIT".toList).map some]⟩ := by
  unfold doquery
  dsimp only
  rw [hsocket, hconnect, Bool.not_true, if_neg Bool.false_ne_true, if_neg Bool.false_ne_true, if_neg (Int.not_le.mpr h),
    hreply]
  dsimp only
  rw [if_neg (Nat.not_le.mpr hread)]

/-- INTERNAL: **the request that is sent**, whatever the reply. -/
theorem doquery_sent (buf : Bytes) (h : 0 < d.write ((querybuf uri buflen).take (uri.length + 6))) :
    (doquery d (some uri) buf buflen).sent.head? = some ((querybuf uri buflen).take (uri.length + 6)) := by
  cases hreply : d.reply with
  | none => rw [doquery_read_fails d uri buflen hsocket hconnect buf h hreply, List.head?_cons]
  | some reply =>
    by_cases hread : 0 < (reply.take buflen).length
    · rw [doquery_read d uri buflen hsocket hconnect buf reply h hreply hread, List.head?_cons]
    · rw [doquery_read_nothing d uri buflen hsocket hconnect buf reply h hreply (Nat.eq_zero_of_not_pos hread),
        List.head?_cons]

/-- INTERNAL: **a query that goes well** leaves what it has to. -/
theorem correct_of_goesWell (buf : Bytes) (hbuf : buf.length = buflen) (h : GoesWell d uri buflen) :
    Correct d (some uri) buflen (doquery d (some uri) buf buflen) := by
  have hinitialised : ∀ u, some uri = some u →
      ∀ sent ∈ (doquery d (some uri) buf buflen).sent.head?, sent <+: (request u).map some := by
    intro u hu sent hsent
    cases hu
    rw [doquery_sent d uri buflen hsocket hconnect buf h.write, querybuf_of_fits uri buflen h.fits] at hsent
    cases hsent
    exact List.prefix_refl _
  cases hreply : d.reply with
  | none =>
    have hquery := doquery_read_fails d uri buflen hsocket hconnect buf h.write hreply
    refine ⟨?_, by rw [hquery]; exact hbuf, hinitialised⟩
    intro hpos
    rw [hquery] at hpos
    exact absurd hpos (show ¬ (0 : ℤ) < -1 by decide)
  | some reply =>
    have hlt := h.reply reply hreply
    have htake : reply.take buflen = reply := List.take_of_length_le hlt.le
    by_cases hread : 0 < (reply.take buflen).length
    · have hquery := doquery_read d uri buflen hsocket hconnect buf reply h.write hreply hread
      rw [htake] at hquery
      have hstored : (store buf 0 reply).length = buf.length := store_length buf 0 reply (by omega)
      refine ⟨?_, ?_, hinitialised⟩
      · intro _
        have hall := store_take_all buf 0 reply (Nat.zero_le _)
        rw [Nat.zero_add, List.take_zero, List.nil_append] at hall
        rw [hquery]
        refine ⟨reply, hreply, by rw [htake], ?_⟩
        dsimp only
        rw [htake, store_take _ _ _ (by omega)]
        exact hall
      · rw [hquery]
        dsimp only
        rw [store_length _ _ _ (by rw [hstored, List.length_singleton]; omega), hstored, hbuf]
    · have hquery := doquery_read_nothing d uri buflen hsocket hconnect buf reply h.write hreply
        (Nat.eq_zero_of_not_pos hread)
      refine ⟨?_, by rw [hquery]; exact hbuf, hinitialised⟩
      intro hpos
      rw [hquery] at hpos
      exact absurd hpos (Int.lt_irrefl 0)

/-- INTERNAL: **a request that is not sent** leaves its own length as the result, although nothing is stored: two
different contents of the buffer cannot both begin with the reply. -/
theorem not_correct_of_write_fails (h : d.write ((querybuf uri buflen).take (uri.length + 6)) ≤ 0) :
    ¬ ∀ buf : Bytes, buf.length = buflen → Correct d (some uri) buflen (doquery d (some uri) buf buflen) := by
  intro hall
  have hcontent : ∀ b : UInt8, ∃ reply, d.reply = some reply ∧ (reply.take buflen).length = uri.length + 6 ∧
      (List.replicate buflen b).take (reply.take buflen).length = reply.take buflen := by
    intro b
    have hcorrect := hall (List.replicate buflen b) List.length_replicate
    rw [doquery_write_fails d uri buflen hsocket hconnect _ h] at hcorrect
    obtain ⟨reply, hreply, hlength, htake⟩ := hcorrect.received (by dsimp only; omega)
    exact ⟨reply, hreply, by dsimp only at hlength; omega, htake⟩
  obtain ⟨reply, hreply, hlength, hzeros⟩ := hcontent 0
  obtain ⟨reply', hreply', -, hones⟩ := hcontent 1
  rw [hreply] at hreply'
  cases hreply'
  have hle := List.length_take_le buflen reply
  rw [← hones, List.take_replicate, List.take_replicate, List.length_replicate] at hzeros
  have hsame := congrArg List.head? hzeros
  rw [List.head?_replicate, List.head?_replicate, if_neg (by omega), if_neg (by omega)] at hsame
  exact absurd hsame (by decide)

/-- INTERNAL: **a query that is right for every content of the buffer** goes well. -/
theorem goesWell_of_correct (h0 : (0 : UInt8) ∉ uri)
    (h : ∀ buf : Bytes, buf.length = buflen → Correct d (some uri) buflen (doquery d (some uri) buf buflen)) :
    GoesWell d uri buflen := by
  have hwrite : 0 < d.write ((querybuf uri buflen).take (uri.length + 6)) := by
    by_contra hfails
    exact not_correct_of_write_fails d uri buflen hsocket hconnect (Int.not_lt.mp hfails) h
  have hcorrect := h (List.replicate buflen 0) List.length_replicate
  have hfits : uri.length + 6 < buflen := by
    by_contra hlong
    apply querybuf_of_not_fits uri h0 buflen (Nat.le_of_not_lt hlong)
    apply hcorrect.initialised uri rfl
    rw [doquery_sent d uri buflen hsocket hconnect _ hwrite]
    rfl
  refine ⟨hwrite, hfits, ?_⟩
  intro reply hreply
  by_contra hlong
  -- the terminator is stored behind the buffer
  have hread : (reply.take buflen).length = buflen := by
    rw [List.length_take]
    omega
  have hinside := hcorrect.inside
  rw [doquery_read d uri buflen hsocket hconnect _ reply hwrite hreply (by omega), hread] at hinside
  dsimp only at hinside
  have hstored : (store (List.replicate buflen 0) 0 (reply.take buflen)).length = buflen := by
    rw [store_length _ _ _ (by rw [hread, List.length_replicate]; omega), List.length_replicate]
  generalize store (List.replicate buflen 0) 0 (reply.take buflen) = buf at hinside hstored
  unfold store at hinside
  rw [List.length_append, List.length_append, List.length_take, List.length_singleton, hstored] at hinside
  omega

end connected

/-- **A query leaves what it has to exactly if it does not come to its connection or goes well.** A request that cannot
be written leaves its own length as the length of a reply; a reply that fills the buffer is terminated behind it; and of
a request that does not fit in the buffer of the reply, more is sent than was stored.
SOURCE: squid-2.6.STABLE2-urlfilter.patch:175-217 -/
theorem doquery_correct_iff (d : Daemon) (uri : Option Bytes) (huri : ∀ u, uri = some u → (0 : UInt8) ∉ u) (buflen : ℕ) :
    (∀ buf : Bytes, buf.length = buflen → Correct d uri buflen (doquery d uri buf buflen)) ↔
      ∀ u, uri = some u → d.socket = true → d.connect = true → GoesWell d u buflen := by
  constructor
  · intro h u hu hsocket hconnect
    subst hu
    exact goesWell_of_correct d u buflen hsocket hconnect (huri u rfl) h
  · rintro h buf rfl
    cases uri with
    | none => exact correct_unsent d none buf
    | some uri =>
      by_cases hsocket : d.socket = true
      · by_cases hconnect : d.connect = true
        · exact correct_of_goesWell d uri buf.length hsocket hconnect buf rfl (h uri rfl hsocket hconnect)
        · have hquery : doquery d (some uri) buf buf.length = ⟨-1, buf, []⟩ := by
            unfold doquery
            dsimp only
            rw [hsocket, (Bool.not_eq_true _).mp hconnect, Bool.not_true, if_neg Bool.false_ne_true, Bool.not_false,
              if_pos rfl]
          rw [hquery]
          exact correct_unsent d (some uri) buf
      · have hquery : doquery d (some uri) buf buf.length = ⟨-1, buf, []⟩ := by
          unfold doquery
          dsimp only
          rw [(Bool.not_eq_true _).mp hsocket, Bool.not_false, if_pos rfl]
        rw [hquery]
        exact correct_unsent d (some uri) buf

/-- A URI of 26 bytes. -/
def uri26 : Bytes := ascii "http://www.example.org/abc".toList

/-- A daemon that has gone away when it is written to. -/
def gone : Daemon := ⟨true, true, fun _ => -1, none⟩

/-- **A request that cannot be sent gives 32**, the length of a reply, for a URI of 26 bytes, and nothing is stored. -/
theorem request_length_returned :
    doquery gone (some uri26) (List.replicate 64 0) 64 =
      ⟨32, List.replicate 64 0, [(request uri26).map some]⟩ ∧
    ¬ Correct gone (some uri26) 64 (doquery gone (some uri26) (List.replicate 64 0) 64) := by
  refine ⟨rfl, ?_⟩
  intro h
  obtain ⟨reply, hreply, -⟩ := h.received (by decide)
  cases hreply

/-- A daemon that answers with 32 bytes. -/
def answering : Daemon := ⟨true, true, fun _ => 32, some (List.replicate 32 0x30)⟩

/-- `doquery_correct_iff` for a reply of 32 bytes in a buffer of 64. -/
theorem doquery_for_32_bytes :
    Correct answering (some uri26) 64 (doquery answering (some uri26) (List.replicate 64 0) 64) := by
  have hfree : ∀ u, some uri26 = some u → (0 : UInt8) ∉ u := by
    intro u hu
    cases hu
    decide
  apply (doquery_correct_iff answering (some uri26) hfree 64).mpr _ _ List.length_replicate
  intro u hu _ _
  cases hu
  exact ⟨by decide, by decide, fun reply hreply => by cases hreply; decide⟩

end TTLinux.Analysis.UrlFilterQuery
