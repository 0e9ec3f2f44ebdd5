import TTLinux.Lib.Hex
import TTLinux.Model.UrlFilter

/-!
# What the URL filter redirects

The loop over the 32 digits of a reply against one AND of two 128-bit numbers. One round is read
off `hex2int` and `matchDigit`; the loop lemma carries the digits already replaced in front of
the digits still to come.
-/

set_option autoImplicit false

namespace TTLinux.Analysis.UrlFilterMatch

open TTLinux.Lib TTLinux.Model.UrlFilter

/-! ## One digit -/

/-- INTERNAL: `hex2int` gives the value of a digit and `-1` for any other character. -/
theorem hex2int_eq (c : UInt8) : hex2int c = if IsHex c then BitVec.ofNat 32 (nibble c) else -1 := by
  have hall : ∀ n < 256, hex2int (UInt8.ofNat n) =
      if IsHex (UInt8.ofNat n) then BitVec.ofNat 32 (nibble (UInt8.ofNat n)) else -1 := by
    decide +kernel
  have hc := hall c.toNat c.toNat_lt
  rwa [UInt8.ofNat_toNat] at hc

/-- INTERNAL: the sixteen values: none is negative, each is written as its digit, only zero is zero. -/
theorem digit_values : ∀ v < 16, (BitVec.ofNat 32 v).slt 0 = false ∧
    matchDigit (BitVec.ofNat 32 v) = hexDigit v ∧ (BitVec.ofNat 32 v = 0 ↔ v = 0) := by
  decide +kernel

/-- INTERNAL: an OR is zero exactly if both sides are. -/
theorem or_eq_zero (a b : BitVec 32) : a ||| b = 0 ↔ a = 0 ∧ b = 0 := by
  rw [← BitVec.toNat_inj, ← BitVec.toNat_inj (x := a), ← BitVec.toNat_inj (x := b), BitVec.toNat_or]
  exact Nat.or_eq_zero_iff

/-! ## The loop -/

/-- INTERNAL: **one round** on a digit, with the digits before it already replaced. -/
theorem matchLoop_digit (n : ℕ) (done cdone todo ctodo rest : Bytes) (c d : UInt8) (m : BitVec 32)
    (hdone : done.length = 31 - n) (hcdone : cdone.length = 31 - n) (hc : IsHex c) (hd : IsHex d) :
    matchLoop (cdone ++ d :: ctodo) (n + 1) (done ++ (c :: todo ++ rest)) m =
      matchLoop (cdone ++ d :: ctodo) n ((done ++ [andDigit c d]) ++ (todo ++ rest))
        (m ||| BitVec.ofNat 32 (nibble c &&& nibble d)) := by
  have hci : (done ++ (c :: todo ++ rest)).getD (31 - n) 0 = c := by
    simp [List.getD, ← hdone]
  have hdi : (cdone ++ d :: ctodo).getD (31 - n) 0 = d := by
    simp [List.getD, ← hcdone]
  have hand := and_nibble_lt c d hd
  have hofNat : hex2int c &&& hex2int d = BitVec.ofNat 32 (nibble c &&& nibble d) := by
    rw [hex2int_eq, hex2int_eq, if_pos hc, if_pos hd, BitVec.ofNat_and]
  have hslt : (hex2int c).slt 0 = false := by
    rw [hex2int_eq, if_pos hc]
    exact (digit_values _ (nibble_lt c hc)).1
  have hstore : store (done ++ (c :: todo ++ rest)) (31 - n) [andDigit c d] =
      (done ++ [andDigit c d]) ++ (todo ++ rest) := by
    simp [store, ← hdone, List.drop_append]
  rw [matchLoop]
  simp only [hci, hdi, hslt, hofNat, Bool.false_eq_true, if_false, (digit_values _ hand).2.1]
  rw [← hstore]
  rfl

/-- INTERNAL: the round on a character that is no digit ends the loop. -/
theorem matchLoop_invalid (categories : Bytes) (n : ℕ) (done todo rest : Bytes) (c : UInt8) (m : BitVec 32)
    (hdone : done.length = 31 - n) (hc : ¬ IsHex c) :
    matchLoop categories (n + 1) (done ++ (c :: todo ++ rest)) m = none := by
  have hci : (done ++ (c :: todo ++ rest)).getD (31 - n) 0 = c := by
    simp [List.getD, ← hdone]
  have hslt : (hex2int c).slt 0 = true := by
    rw [hex2int_eq, if_neg hc]
    rfl
  rw [matchLoop]
  simp only [hci, hslt, if_true]

/-- INTERNAL: **the loop on digits** replaces each digit by its AND with the mask, and `match` says
whether one of them is not zero. -/
theorem matchLoop_digits (n : ℕ) (done cdone todo ctodo rest : Bytes) (m : BitVec 32) (hn : n ≤ 32)
    (hdone : done.length = 32 - n) (hcdone : cdone.length = 32 - n) (htodo : todo.length = n)
    (hctodo : ctodo.length = n) (hhex : ∀ c ∈ todo, IsHex c) (hmask : ∀ d ∈ ctodo, IsHex d) :
    ∃ m', matchLoop (cdone ++ ctodo) n (done ++ (todo ++ rest)) m =
        some (done ++ (List.zipWith andDigit todo ctodo ++ rest), m') ∧
      (m' = 0 ↔ m = 0 ∧ hexValue (List.zipWith andDigit todo ctodo) = 0) := by
  induction n generalizing done cdone todo ctodo m with
  | zero =>
    obtain rfl := List.length_eq_zero_iff.mp htodo
    exact ⟨m, rfl, by simp [hexValue]⟩
  | succ n ih =>
    cases todo with
    | nil => simp at htodo
    | cons c todo =>
      cases ctodo with
      | nil => simp at hctodo
      | cons d ctodo =>
        have hc := hhex c List.mem_cons_self
        have hd := hmask d List.mem_cons_self
        have hand := and_nibble_lt c d hd
        simp only [List.length_cons, Nat.add_right_cancel_iff] at htodo hctodo
        have hround := matchLoop_digit n done cdone todo ctodo rest c d m (by omega) (by omega) hc hd
        obtain ⟨m', hrun, hzero⟩ := ih (done ++ [andDigit c d]) (cdone ++ [d]) todo ctodo
          (m ||| BitVec.ofNat 32 (nibble c &&& nibble d)) (by omega)
          (by rw [List.length_append, List.length_singleton]; omega)
          (by rw [List.length_append, List.length_singleton]; omega) htodo hctodo
          (fun c hc => hhex c (List.mem_cons_of_mem _ hc)) (fun d hd => hmask d (List.mem_cons_of_mem _ hd))
        refine ⟨m', ?_, ?_⟩
        · rw [List.append_assoc, List.singleton_append] at hrun
          rw [hround, hrun]
          simp
        · -- the value is zero when the first digit and the rest are
          have hpow : 0 < 16 ^ (List.zipWith andDigit todo ctodo).length := Nat.pow_pos (by omega)
          rw [hzero, or_eq_zero, (digit_values _ hand).2.2, List.zipWith_cons_cons, hexValue, andDigit,
            nibble_hexDigit _ hand, Nat.add_eq_zero_iff, Nat.mul_eq_zero]
          constructor
          · rintro ⟨⟨hm, hv⟩, hrest⟩
            exact ⟨hm, Or.inr hv, hrest⟩
          · rintro ⟨hm, hv | hv, hrest⟩
            · omega
            · exact ⟨⟨hm, hv⟩, hrest⟩

/-- INTERNAL: a character that is no digit makes the filter return, wherever it stands. -/
theorem matchLoop_none (n : ℕ) (done cdone todo ctodo rest : Bytes) (m : BitVec 32) (hn : n ≤ 32)
    (hdone : done.length = 32 - n) (hcdone : cdone.length = 32 - n) (htodo : todo.length = n)
    (hctodo : ctodo.length = n) (hmask : ∀ d ∈ ctodo, IsHex d) (hbad : ∃ c ∈ todo, ¬ IsHex c) :
    matchLoop (cdone ++ ctodo) n (done ++ (todo ++ rest)) m = none := by
  induction n generalizing done cdone todo ctodo m with
  | zero =>
    obtain rfl := List.length_eq_zero_iff.mp htodo
    simp at hbad
  | succ n ih =>
    cases todo with
    | nil => simp at htodo
    | cons c todo =>
      cases ctodo with
      | nil => simp at hctodo
      | cons d ctodo =>
        simp only [List.length_cons, Nat.add_right_cancel_iff] at htodo hctodo
        by_cases hc : IsHex c
        · have hbad' : ∃ c ∈ todo, ¬ IsHex c := by simpa [hc] using hbad
          rw [matchLoop_digit n done cdone todo ctodo rest c d m (by omega) (by omega) hc
            (hmask d List.mem_cons_self)]
          have hrun := ih (done ++ [andDigit c d]) (cdone ++ [d]) todo ctodo
            (m ||| BitVec.ofNat 32 (nibble c &&& nibble d)) (by omega)
            (by rw [List.length_append, List.length_singleton]; omega)
            (by rw [List.length_append, List.length_singleton]; omega) htodo hctodo
            (fun d hd => hmask d (List.mem_cons_of_mem _ hd)) hbad'
          rwa [List.append_assoc cdone, List.singleton_append] at hrun
        · exact matchLoop_invalid _ n done todo rest c m (by omega) hc

/-! ## The answer of the daemon -/

/-- A reply of 32 hexadecimal digits. -/
def IsHex32 (reply : Bytes) : Prop := reply.length = 32 ∧ ∀ c ∈ reply, IsHex c

/-- The daemon takes the request and replies: these are the bytes that `read` finds, not more than were asked for. -/
structure Replies (d : Daemon) (uri : Bytes) (bufsiz : ℕ) (reply : Bytes) : Prop where
  socket : d.socket = true
  connect : d.connect = true
  write : 0 < d.write ((querybuf uri bufsiz).take (uri.length + 6))
  length : reply.length ≤ bufsiz
  reply : d.reply = some reply

/-- INTERNAL: the returned length is the length of the reply. -/
theorem doquery_len (d : Daemon) (uri buf reply : Bytes) (bufsiz : ℕ) (h : Replies d uri bufsiz reply) :
    (doquery d (some uri) buf bufsiz).len = reply.length := by
  simp only [doquery, h.socket, h.connect, h.reply, not_le.mpr h.write, Bool.not_true, Bool.false_eq_true,
    if_false, List.take_of_length_le h.length]
  split_ifs <;> rfl

/-- INTERNAL: a reply of 32 bytes stands at the start of the buffer, ended by a zero byte. -/
theorem doquery_buf (d : Daemon) (uri buf reply : Bytes) (bufsiz : ℕ) (h : Replies d uri bufsiz reply)
    (hbufsiz : 32 < bufsiz) (hlen : reply.length = 32) :
    ∃ rest, (doquery d (some uri) buf bufsiz).buf = reply ++ 0 :: rest := by
  have htake : reply.take bufsiz = reply := List.take_of_length_le (by omega)
  refine ⟨buf.drop 33, ?_⟩
  simp only [doquery, h.socket, h.connect, h.reply, not_le.mpr h.write, htake, hlen, Bool.not_true,
    Bool.false_eq_true, if_false]
  simp [store, hlen, List.drop_append]

/-- INTERNAL: the comparison with the marker is one with the reply. -/
theorem cstr_eq_marker (reply rest : Bytes) (hlen : reply.length = 32) :
    cstr (reply ++ 0 :: rest) = unknownMarker ↔ reply = unknownMarker := by
  rw [cstr_append]
  constructor
  · intro h
    have hpre : cstr reply <+: reply := List.takeWhile_prefix _
    rw [h] at hpre
    exact (hpre.eq_of_length (by rw [hlen]; rfl)).symm
  · rintro rfl
    decide

/-- INTERNAL: **the decision on 32 digits** that are not the marker: the buffer holds the digits of
the AND, and `match` says whether it is zero. -/
theorem decideMatch_digits (cf : Config) (hcategories : IsHex32 cf.categories) (reply rest : Bytes)
    (sent : List (List (Option UInt8))) (hreply : IsHex32 reply) (hne : reply ≠ unknownMarker) :
    ∃ m, decideMatch cf ⟨32, reply ++ 0 :: rest, sent⟩ =
        some (hexText 32 (hexValue reply &&& hexValue cf.categories) ++ 0 :: rest, m) ∧
      (m = 0 ↔ hexValue reply &&& hexValue cf.categories = 0) := by
  have hlen : reply.length = cf.categories.length := hreply.1.trans hcategories.1.symm
  have hand := hexValue_and reply cf.categories hreply.2 hcategories.2 hlen
  have htext := zipWith_andDigit reply cf.categories hreply.2 hcategories.2 hlen
  obtain ⟨m, hrun, hzero⟩ := matchLoop_digits 32 [] [] reply cf.categories (0 :: rest) 0 le_rfl rfl rfl
    hreply.1 hcategories.1 hreply.2 hcategories.2
  rw [hreply.1] at htext
  refine ⟨m, ?_, ?_⟩
  · rw [decideMatch, if_pos rfl, if_neg (fun h => hne ((cstr_eq_marker reply rest hreply.1).mp h)), ← htext]
    exact hrun
  · rw [hzero, ← hand]
    simp

/-- INTERNAL: a character that is no digit makes the filter return. -/
theorem decideMatch_invalid (cf : Config) (hcategories : IsHex32 cf.categories) (reply rest : Bytes)
    (sent : List (List (Option UInt8))) (hlen : reply.length = 32) (hbad : ∃ c ∈ reply, ¬ IsHex c) :
    decideMatch cf ⟨32, reply ++ 0 :: rest, sent⟩ = none := by
  have hne : reply ≠ unknownMarker := by
    rintro rfl
    obtain ⟨c, hc, hbad⟩ := hbad
    have hmarker : unknownMarker.all (fun c => decide (IsHex c)) = true := by decide +kernel
    exact hbad (of_decide_eq_true (List.all_eq_true.mp hmarker c hc))
  rw [decideMatch, if_pos rfl, if_neg (fun h => hne ((cstr_eq_marker reply rest hlen).mp h))]
  exact matchLoop_none 32 [] [] reply cf.categories (0 :: rest) 0 le_rfl rfl rfl hlen hcategories.1
    hcategories.2 hbad

/-! ## The filter -/

/-- The text that a client is redirected to. -/
def redirectTo (cf : Config) (categories : Bytes) : Bytes :=
  cf.targeturl ++ ascii "?match=".toList ++ categories

/-- INTERNAL: a redirection that fits into `rejectbuf` is returned as it is. -/
theorem take_redirect (cf : Config) (hurl : cf.targeturl.length + 39 < rejectbufSize) (digits rest : Bytes)
    (hlen : digits.length = 32) (h0 : (0 : UInt8) ∉ digits) :
    (cf.targeturl ++ ascii "?match=".toList ++ cstr (digits ++ 0 :: rest)).take (rejectbufSize - 1) =
      redirectTo cf digits := by
  rw [cstr_append, cstr_eq_self digits h0]
  apply List.take_of_length_le
  have hword : (ascii "?match=".toList).length = 7 := rfl
  simp only [List.length_append, hlen, hword]
  omega

/-- INTERNAL: hexadecimal digits hold no end of a string. -/
theorem zero_notMem_of_lower (s : Bytes) (hs : ∀ c ∈ s, IsLowerHex c) : (0 : UInt8) ∉ s :=
  fun h => (show ¬ IsLowerHex 0 by decide) (hs 0 h)

/-- INTERNAL: the end of the filter, once the answer is decided. -/
theorem urlFilter_decided (patfileMatch : Bytes → Option Bytes) (d : Daemon) (cf : Config) (bufsiz : ℕ)
    (buf uri buf' : Bytes) (m : BitVec 32) (hwhite : patfileMatch uri = none)
    (hdecide : decideMatch cf (doquery d (some uri) buf bufsiz) = some (buf', m)) :
    urlFilter patfileMatch d cf bufsiz buf uri =
      if m ≠ 0 then
        some ((cf.targeturl ++ ascii "?match=".toList ++ cstr buf').take (rejectbufSize - 1))
      else none := by
  simp only [urlFilter, hwhite, hdecide]

/-- **What the filter redirects.** On a reply of 32 hexadecimal digits the filter redirects exactly
if it is the unknown marker and unknown resources are blocked, or another reply whose AND with
the mask is not zero; the redirection carries the 32 lower-case digits of that AND. On every
other reply it does not redirect.
SOURCE: squid-2.6.STABLE2-urlfilter.patch:162-271 -/
theorem urlFilter_redirects (patfileMatch : Bytes → Option Bytes) (d : Daemon) (cf : Config) (bufsiz : ℕ)
    (buf uri reply : Bytes) (hcategories : IsHex32 cf.categories)
    (hurl : cf.targeturl.length + 39 < rejectbufSize) (hbufsiz : 32 < bufsiz)
    (hwhite : patfileMatch uri = none) (hreplies : Replies d uri bufsiz reply) :
    (IsHex32 reply →
      ((urlFilter patfileMatch d cf bufsiz buf uri).isSome ↔
        reply = unknownMarker ∧ cf.blockunknown ≠ 0 ∨
          reply ≠ unknownMarker ∧ hexValue reply &&& hexValue cf.categories ≠ 0) ∧
      (reply ≠ unknownMarker → hexValue reply &&& hexValue cf.categories ≠ 0 →
        urlFilter patfileMatch d cf bufsiz buf uri =
          some (redirectTo cf (hexText 32 (hexValue reply &&& hexValue cf.categories))))) ∧
      (¬ IsHex32 reply → urlFilter patfileMatch d cf bufsiz buf uri = none) := by
  have hlen := doquery_len d uri buf reply bufsiz hreplies
  by_cases h32 : reply.length = 32
  · -- a reply of 32 bytes stands in the buffer as it is
    obtain ⟨rest, hbuf⟩ := doquery_buf d uri buf reply bufsiz hreplies hbufsiz h32
    rw [h32] at hlen
    have hquery : doquery d (some uri) buf bufsiz =
        ⟨32, reply ++ 0 :: rest, (doquery d (some uri) buf bufsiz).sent⟩ := by
      rw [← hbuf, ← Nat.cast_ofNat, ← hlen]
    generalize (doquery d (some uri) buf bufsiz).sent = sent at hquery
    refine ⟨fun hreply => ?_, fun hno => ?_⟩
    · by_cases hmarker : reply = unknownMarker
      · refine ⟨?_, fun hne => absurd hmarker hne⟩
        have hdecide : decideMatch cf ⟨32, reply ++ 0 :: rest, sent⟩ =
            some (reply ++ 0 :: rest, if cf.blockunknown ≠ 0 then 1 else 0) := by
          rw [decideMatch, if_pos rfl, if_pos ((cstr_eq_marker reply rest h32).mpr hmarker)]
        rw [← hquery] at hdecide
        rw [urlFilter_decided patfileMatch d cf bufsiz buf uri _ _ hwhite hdecide]
        by_cases hblock : cf.blockunknown = 0
        · simp [hmarker, hblock]
        · simp [hmarker, hblock]
      · obtain ⟨m, hdecide, hzero⟩ := decideMatch_digits cf hcategories reply rest sent hreply hmarker
        have h0 := zero_notMem_of_lower _
          (isLowerHex_hexText 32 (hexValue reply &&& hexValue cf.categories))
        have htext := take_redirect cf hurl _ rest (length_hexText 32 _) h0
        rw [← hquery] at hdecide
        rw [urlFilter_decided patfileMatch d cf bufsiz buf uri _ _ hwhite hdecide, htext]
        by_cases hm : hexValue reply &&& hexValue cf.categories = 0
        · simp [hzero.mpr hm, hmarker, hm]
        · have hm' : m ≠ 0 := fun h => hm (hzero.mp h)
          rw [if_pos hm']
          simp [hmarker, hm]
    · have hbad : ∃ c ∈ reply, ¬ IsHex c := by
        by_contra hall
        apply hno
        refine ⟨h32, fun c hc => ?_⟩
        by_contra hbad
        exact hall ⟨c, hc, hbad⟩
      simp only [urlFilter, hwhite, hquery, decideMatch_invalid cf hcategories reply rest sent h32 hbad]
  · -- a reply of another length is never taken for an answer
    refine ⟨fun hreply => absurd hreply.1 h32, fun _ => ?_⟩
    have hne : (doquery d (some uri) buf bufsiz).len ≠ 32 := by
      rw [hlen]
      omega
    have hdecide : decideMatch cf (doquery d (some uri) buf bufsiz) =
        some ((doquery d (some uri) buf bufsiz).buf, 0) := if_neg hne
    rw [urlFilter_decided patfileMatch d cf bufsiz buf uri _ _ hwhite hdecide, if_neg (by simp)]

/-- A daemon that answers every request with one reply. -/
def answering (reply : Bytes) : Daemon := ⟨true, true, fun request => request.length, some reply⟩

/-- The configuration that the source shows.
SOURCE: squid-2.6.STABLE2-urlfilter.patch:39-42 -/
def sampleConfig : Config :=
  ⟨ascii "http://redirect.de/".toList, ascii "0000000000000000380000600001F803".toList, 0⟩

/-- A reply that shares three bits with the mask of the sample. -/
def sampleReply : Bytes := ascii "0000000000000000FA00000000000000".toList

/-- **The sample mask redirects** a reply in upper case, with the lower-case digits of what it shares
with the mask. -/
theorem urlFilter_redirects_sample :
    urlFilter (fun _ => none) (answering sampleReply) sampleConfig 8192 [] (ascii "http://a.de/".toList) =
      some (ascii "http://redirect.de/?match=00000000000000003800000000000000".toList) := by
  have hcategories : IsHex32 sampleConfig.categories := ⟨rfl, by decide +kernel⟩
  have hreply : IsHex32 sampleReply := ⟨rfl, by decide +kernel⟩
  have hreplies : Replies (answering sampleReply) (ascii "http://a.de/".toList) 8192 sampleReply :=
    ⟨rfl, rfl, by decide, by decide, rfl⟩
  have hredirects := urlFilter_redirects (fun _ => none) (answering sampleReply) sampleConfig 8192 [] _
    sampleReply hcategories (by decide) (by omega) rfl hreplies
  rw [(hredirects.1 hreply).2 (by decide) (by decide)]
  decide

end TTLinux.Analysis.UrlFilterMatch
