import Mathlib.Data.List.Forall2
import TTLinux.Model.SambaGroups

/-!
# One answer for each question

squid takes the `k`-th line it reads from the group helper for the answer to its `k`-th
request. `inStep_iff` says for which requests and which answers of winbindd the helper
keeps in step with squid.
-/

set_option autoImplicit false

namespace TTLinux.Analysis.SambaGroupsLines

open TTLinux.Lib TTLinux.Model.SambaGroups

/-! ## Requests and responses -/

/-- A byte of a percent-encoded field. -/
def IsFieldByte (b : UInt8) : Prop := b ≠ 0 ∧ b ≠ newline ∧ b ≠ 0x20

/-- A request that one read can deliver. -/
structure Request where
  user : Bytes
  group : Bytes
  userBytes : ∀ b ∈ user, IsFieldByte b
  groupBytes : ∀ b ∈ group, IsFieldByte b
  fits : user.length + group.length + 2 ≤ READSIZ - 1

/-- The line that squid sends. -/
def Request.line (r : Request) : Bytes := r.user ++ 0x20 :: r.group ++ [newline]

/-- The user that a request means. -/
def Request.userName (r : Request) : Bytes := cstr (urldecode r.user)

/-- The group that a request means. -/
def Request.groupName (r : Request) : Bytes := cstr (urldecode r.group)

/-- The three lookups for a request succeed, with the given gid and list of gids. -/
def Looked (wb : Winbindd) (r : Request) (gid : UInt32) (gids : List UInt32) : Prop :=
  ∃ sid, wb.lookupname (domain r.userName) (fstrcpy r.groupName) = some sid ∧
    wb.sidToGid (fstrcpy sid) = some gid ∧ wb.getgroups (fstrcpy r.userName) = some gids

/-- The three lookups succeed and the group is one of the user's groups. -/
def Granted (wb : Winbindd) (r : Request) : Prop := ∃ gid gids, Looked wb r gid gids ∧ gid ∈ gids

/-- A single line that answers a request. -/
structure IsResponse (wb : Winbindd) (r : Request) (line : Bytes) : Prop where
  isOneLine : IsOneLine line
  ok : Granted wb r → ascii "OK".toList <+: line
  err : ¬ Granted wb r → line = errLine

/-- What is written for a list of requests. -/
def written (reads : List (Request × Winbindd)) : Bytes :=
  sambagroupsListener (reads.map fun (r, wb) => (r.line, wb))

/-- The output consists of one response for each request, in their order. -/
def InStep (reads : List (Request × Winbindd)) : Prop :=
  ∃ lines : List Bytes, written reads = lines.flatten ∧
    List.Forall₂ (fun read line => IsResponse read.2 read.1 line) reads lines

/-- A group name that makes a whole line: it has no newline and the line is not cut off, or
it is cut off right behind its first newline. -/
def MakesOneLine (group : Bytes) : Prop :=
  (newline ∉ group ∧ group.length ≤ 1011) ∨
    (newline ∉ group.take 1012 ∧ group[1012]? = some newline)

/-- A request that is answered by one line: all lookups succeed, and the name of a granted
group makes one line. -/
def Clean (wb : Winbindd) (r : Request) : Prop :=
  (∃ gid gids, Looked wb r gid gids) ∧ (Granted wb r → MakesOneLine r.groupName)

/-! ## One request -/

/-- INTERNAL: the fields of a request line, before they are decoded.
SOURCE: samba-sambagroups.patch:172-178 -/
theorem fields_line (r : Request) : userField r.line = r.user ∧ groupField r.line = some r.group := by
  have hdrop : r.line.dropLast = r.user ++ 0x20 :: r.group := by
    rw [Request.line, List.dropLast_concat]
  have hcstr : cstr (r.user ++ 0x20 :: r.group) = r.user ++ 0x20 :: r.group := by
    have hzero : ∀ b ∈ r.user ++ 0x20 :: r.group, decide (b ≠ 0) = true := by
      intro b hb
      rcases List.mem_append.mp hb with hu | hg
      · simpa using (r.userBytes b hu).1
      · rcases List.mem_cons.mp hg with rfl | hg
        · decide
        · simpa using (r.groupBytes b hg).1
    rw [cstr, ← List.append_nil (r.user ++ 0x20 :: r.group), List.takeWhile_append_of_pos hzero]
    rfl
  have huser : ∀ b ∈ r.user, decide (b ≠ 0x20) = true := fun b hb => by
    simpa using (r.userBytes b hb).2.2
  unfold userField groupField
  rw [hdrop, hcstr, List.takeWhile_append_of_pos huser, List.dropWhile_append_of_pos huser]
  simp

/-- INTERNAL: what is written for a request.
SOURCE: samba-sambagroups.patch:167-189 -/
theorem respond_line (wb : Winbindd) (r : Request) :
    respond wb r.line =
      let (rc, text) := sambagroupsLookup wb (some r.userName) (some r.groupName)
      if rc = -1 then text ++ errLine else text ++ okLine r.groupName := by
  obtain ⟨huser, hgroup⟩ := fields_line r
  unfold respond
  rw [huser, hgroup]
  rfl

/-- INTERNAL: a lookup that succeeds answers membership and writes nothing.
SOURCE: samba-sambagroups.patch:80-152 -/
theorem lookup_looked (wb : Winbindd) (r : Request) (gid : UInt32) (gids : List UInt32)
    (h : Looked wb r gid gids) :
    sambagroupsLookup wb (some r.userName) (some r.groupName) =
      if gid ∈ gids then (0, []) else (-1, []) := by
  obtain ⟨sid, hsid, hgid, hgids⟩ := h
  unfold sambagroupsLookup
  simp only [hsid, hgid, hgids]

/-- INTERNAL: a lookup that fails writes a message of its own.
SOURCE: samba-sambagroups.patch:110-141 -/
theorem lookup_not_looked (wb : Winbindd) (r : Request) (h : ¬ ∃ gid gids, Looked wb r gid gids) :
    ∃ msg : Message, sambagroupsLookup wb (some r.userName) (some r.groupName) = (-1, msg.text) := by
  unfold sambagroupsLookup
  cases hsid : wb.lookupname (domain r.userName) (fstrcpy r.groupName) with
  | none => exact ⟨.groupSid, by simp only [hsid]⟩
  | some sid =>
    cases hgid : wb.sidToGid (fstrcpy sid) with
    | none => exact ⟨.sidToGid, by simp only [hsid, hgid]⟩
    | some gid =>
      cases hgids : wb.getgroups (fstrcpy r.userName) with
      | none => exact ⟨.userGroups, by simp only [hsid, hgid, hgids]⟩
      | some gids => exact absurd ⟨gid, gids, sid, hsid, hgid, hgids⟩ h

/-- INTERNAL: the answers determine the gid and the list of gids. -/
theorem granted_iff (wb : Winbindd) (r : Request) (gid : UInt32) (gids : List UInt32)
    (h : Looked wb r gid gids) : Granted wb r ↔ gid ∈ gids := by
  constructor
  · rintro ⟨gid', gids', ⟨sid', hsid', hgid', hgids'⟩, hmem⟩
    obtain ⟨sid, hsid, hgid, hgids⟩ := h
    obtain rfl : sid = sid' := Option.some.inj (hsid.symm.trans hsid')
    obtain rfl : gid = gid' := Option.some.inj (hgid.symm.trans hgid')
    obtain rfl : gids = gids' := Option.some.inj (hgids.symm.trans hgids')
    exact hmem
  · intro hmem
    exact ⟨gid, gids, h, hmem⟩

/-- INTERNAL: the response to a request all of whose lookups succeed.
SOURCE: samba-sambagroups.patch:167-189 -/
theorem respond_looked (wb : Winbindd) (r : Request) (gid : UInt32) (gids : List UInt32)
    (h : Looked wb r gid gids) :
    respond wb r.line = if gid ∈ gids then okLine r.groupName else errLine := by
  rw [respond_line, lookup_looked wb r gid gids h]
  split_ifs with hmem
  · simp
  · simp

/-- INTERNAL: the line for a granted group starts with `OK`. -/
theorem prefix_okLine (group : Bytes) : ascii "OK".toList <+: okLine group := by
  have hlen : (ascii "OK".toList).length ≤ READSIZ - 2 - 1 := by decide
  have hstart : ascii "OK log=\"".toList = ascii "OK".toList ++ ascii " log=\"".toList := by decide
  refine List.prefix_take_iff.mpr ⟨?_, hlen⟩
  rw [hstart, List.append_assoc, List.append_assoc]
  exact List.prefix_append _ _

/-- INTERNAL: **which group names make one line.**
SOURCE: samba-sambagroups.patch:187 -/
theorem isOneLine_okLine_iff (group : Bytes) : IsOneLine (okLine group) ↔ MakesOneLine group := by
  have hstart : newline ∉ ascii "OK log=\"".toList := by decide
  have hquote : ascii "\"\n".toList = [0x22, newline] := by decide
  have hlen : (ascii "OK log=\"".toList).length = 8 := by decide
  have hsize : READSIZ - 2 - 1 = 8 + 1013 := by decide
  have hcut : okLine group = ascii "OK log=\"".toList ++ (group ++ [0x22, newline]).take 1013 := by
    rw [okLine, List.append_assoc, hquote, hsize, List.take_append, hlen,
      List.take_of_length_le (by omega), Nat.add_sub_cancel_left]
  rw [hcut]
  rcases Nat.lt_trichotomy group.length 1012 with hlt | heq | hgt
  · -- the whole line
    have hall : (group ++ [0x22, newline]).take 1013 = group ++ [0x22] ++ [newline] := by
      rw [List.take_of_length_le (by simp; omega)]
      simp
    have hnone : group[1012]? = none := List.getElem?_eq_none (by omega)
    rw [hall, ← List.append_assoc, isOneLine_concat]
    simp only [MakesOneLine, hnone, List.mem_append, hstart, false_or]
    constructor
    · rintro ⟨h, -⟩
      exact Or.inl ⟨fun hm => h (Or.inl hm), by omega⟩
    · rintro (⟨h, -⟩ | ⟨-, h⟩)
      · refine ⟨?_, trivial⟩
        rintro (hm | hm)
        · exact h hm
        · revert hm
          decide
      · simp at h
  · -- the newline is cut off
    have hall : (group ++ [0x22, newline]).take 1013 = group ++ [0x22] := by
      rw [List.take_append, heq, List.take_of_length_le (by omega)]
      rfl
    have hnone : group[1012]? = none := List.getElem?_eq_none (by omega)
    rw [hall, ← List.append_assoc, isOneLine_concat]
    simp only [MakesOneLine, hnone]
    constructor
    · rintro ⟨-, h⟩
      exact absurd h (by decide)
    · rintro (⟨-, h⟩ | ⟨-, h⟩)
      · omega
      · simp at h
  · -- the line ends inside the name
    obtain ⟨b, hb⟩ : ∃ b, group[1012]? = some b := ⟨_, List.getElem?_eq_getElem hgt⟩
    have hall : (group ++ [0x22, newline]).take 1013 = group.take 1012 ++ [b] := by
      rw [List.take_append_of_le_length (by omega), List.take_add_one, hb]
      rfl
    rw [hall, ← List.append_assoc, isOneLine_concat]
    simp only [MakesOneLine, hb, List.mem_append, hstart, false_or, Option.some.injEq]
    constructor
    · exact Or.inr
    · rintro (⟨-, h⟩ | h)
      · omega
      · exact h

/-- INTERNAL: **one request is answered by one line** exactly when it is clean.
SOURCE: samba-sambagroups.patch:80-189 -/
theorem isResponse_respond_iff (wb : Winbindd) (r : Request) :
    IsResponse wb r (respond wb r.line) ↔ Clean wb r := by
  by_cases hlook : ∃ gid gids, Looked wb r gid gids
  · obtain ⟨gid, gids, hlooked⟩ := hlook
    have hgranted := granted_iff wb r gid gids hlooked
    rw [respond_looked wb r gid gids hlooked]
    by_cases hmem : gid ∈ gids
    · rw [if_pos hmem]
      constructor
      · intro h
        exact ⟨⟨gid, gids, hlooked⟩, fun _ => (isOneLine_okLine_iff _).mp h.isOneLine⟩
      · rintro ⟨-, h⟩
        exact ⟨(isOneLine_okLine_iff _).mpr (h (hgranted.mpr hmem)), fun _ => prefix_okLine _,
          fun hn => absurd (hgranted.mpr hmem) hn⟩
    · rw [if_neg hmem]
      have hno : ¬ Granted wb r := fun h => hmem (hgranted.mp h)
      refine iff_of_true ⟨⟨ascii "ERR".toList, by decide, by decide⟩, fun h => absurd h hno, fun _ => rfl⟩
        ⟨⟨gid, gids, hlooked⟩, fun h => absurd h hno⟩
  · -- the message of the lookup is a line too many
    refine iff_of_false ?_ (fun h => hlook h.1)
    intro h
    have hno : ¬ Granted wb r := fun ⟨gid, gids, hlooked, _⟩ => hlook ⟨gid, gids, hlooked⟩
    obtain ⟨msg, hmsg⟩ := lookup_not_looked wb r hlook
    have herr := h.err hno
    rw [respond_line, hmsg] at herr
    have hnil : msg.text = [] := List.append_left_eq_self.mp herr
    cases msg <;> exact absurd hnil (by decide)

/-! ## Whole runs -/

/-- INTERNAL: one more request.
SOURCE: samba-sambagroups.patch:160-195 -/
theorem written_concat (reads : List (Request × Winbindd)) (r : Request) (wb : Winbindd) :
    written (reads ++ [(r, wb)]) = written reads ++ respond wb r.line := by
  have hline : ∀ r : Request, r.line ≠ [] := by
    intro r
    simp [Request.line]
  unfold written
  induction reads with
  | nil => simp [sambagroupsListener, hline]
  | cons read reads ih =>
    obtain ⟨r', wb'⟩ := read
    simp only [List.cons_append, List.map_cons, sambagroupsListener, if_neg (hline r'), ih,
      List.append_assoc]

/-- INTERNAL: clean requests keep the helper in step. -/
theorem inStep_of_clean (reads : List (Request × Winbindd))
    (h : ∀ read ∈ reads, Clean read.2 read.1) : InStep reads := by
  induction reads using List.reverseRecOn with
  | nil => exact ⟨[], rfl, List.Forall₂.nil⟩
  | append_singleton reads read ih =>
    obtain ⟨lines, hwritten, hlines⟩ := ih fun x hx => h x (List.mem_append_left _ hx)
    refine ⟨lines ++ [respond read.2 read.1.line], ?_, ?_⟩
    · rw [written_concat, hwritten]
      simp
    · refine List.rel_append hlines (List.Forall₂.cons ?_ List.Forall₂.nil)
      exact (isResponse_respond_iff read.2 read.1).mpr (h read (by simp))

/-- INTERNAL: a helper that is in step before and after a request has answered it. -/
theorem clean_of_inStep (reads : List (Request × Winbindd)) (r : Request) (wb : Winbindd)
    (hbefore : InStep reads) (hafter : InStep (reads ++ [(r, wb)])) : Clean wb r := by
  obtain ⟨lines, hwritten, hlines⟩ := hbefore
  obtain ⟨lines', hwritten', hlines'⟩ := hafter
  obtain ⟨ls, l, rfl⟩ : ∃ ls l, lines' = ls ++ [l] := by
    refine (List.eq_nil_or_concat' lines').resolve_left ?_
    rintro rfl
    have h := hlines'.length_eq
    simp at h
  have hlen : reads.length = ls.length := by
    have h := hlines'.length_eq
    simpa using h
  have hls := List.forall₂_take_append _ ls [l] hlines'
  have hl := List.forall₂_drop_append _ ls [l] hlines'
  rw [← hlen, List.take_left] at hls
  rw [← hlen, List.drop_left, List.forall₂_cons] at hl
  have hone : ∀ (rs : List (Request × Winbindd)) (ms : List Bytes),
      List.Forall₂ (fun read line => IsResponse read.2 read.1 line) rs ms → ∀ m ∈ ms, IsOneLine m := by
    intro rs ms h
    induction h with
    | nil => simp
    | cons hresp _ ih =>
      intro m hm
      rcases List.mem_cons.mp hm with rfl | hm
      · exact hresp.isOneLine
      · exact ih m hm
  -- the division of the output into lines is unique, so the last line is the response
  rw [written_concat, hwritten] at hwritten'
  obtain ⟨-, hresp⟩ := lines_append_inj lines ls (hone _ _ hlines) (hone _ _ hls)
    (by rw [← hlines.length_eq, hlen]) (respond wb r.line) l (by simpa using hwritten')
  rw [← isResponse_respond_iff, hresp]
  exact hl.1

/-- **The helper is in step with squid after every request** exactly when every request is
clean: all three lookups succeed, and the name of a granted group makes one line.
SOURCE: samba-sambagroups.patch:58-197 -/
theorem inStep_iff (reads : List (Request × Winbindd)) :
    (∀ k, InStep (reads.take k)) ↔ ∀ read ∈ reads, Clean read.2 read.1 := by
  constructor
  · intro hstep read hread
    obtain ⟨before, after, rfl⟩ := List.append_of_mem hread
    apply clean_of_inStep before read.1 read.2
    · have h := hstep before.length
      rwa [List.take_left] at h
    · have h := hstep (before.length + 1)
      rwa [List.take_append, List.take_of_length_le (by omega), Nat.add_sub_cancel_left] at h
  · intro hclean k
    exact inStep_of_clean _ fun read hread => hclean read (List.mem_of_mem_take hread)

/-- The request `joe staff`. -/
def joeStaff : Request :=
  ⟨ascii "joe".toList, ascii "staff".toList, by unfold IsFieldByte; decide +kernel, by unfold IsFieldByte; decide +kernel,
    by decide +kernel⟩

/-- A winbindd that knows nobody. -/
def knowsNobody : Winbindd := ⟨fun _ _ => none, fun _ => none, fun _ => none⟩

/-- A request for a group whose SID cannot be looked up gets two lines.
SOURCE: samba-sambagroups.patch:110-114, 183-184 -/
theorem two_lines_for_unknown_group :
    written [(joeStaff, knowsNobody)] = ascii "ERROR: cannot lookup group sid\nERR\n".toList ∧
      ¬ InStep [(joeStaff, knowsNobody)] := by
  refine ⟨by decide +kernel, fun hstep => ?_⟩
  obtain ⟨⟨gid, gids, sid, hsid, -⟩, -⟩ := clean_of_inStep [] joeStaff knowsNobody ⟨[], rfl, .nil⟩ hstep
  cases hsid

end TTLinux.Analysis.SambaGroupsLines
