import TTLinux.Lib.TreeContext
import TTLinux.Model.Search

/-!
# The tree functions on memory that spells out a tree

`Represents m t` says that the memory `m` holds the tree `t` at its root pointer:
every node of `t` is stored at its address with the links the tree gives it, and
no address is used twice. On such memory each of `tsearch`, `tfind` and `tdelete`
ends without a bad dereference and does to the memory what `LTree.insert`,
`LTree.descend` and `LTree.erase` do to the tree.

Both `tsearch` and `tdelete` end with one assignment through the slot at which
their descent stopped. The slot is the hole of a context (`ctxSlot`), and
`represents_assign` is the one argument for both: if the rest of the tree is still
in place and the hole is given the pointer of a stored tree, the memory represents
the filled context.
-/

set_option autoImplicit false

namespace TTLinux.Analysis.SearchHeap

open TTLinux.Lib TTLinux.Model.Search

variable {K : Type}

/-- Every node of the tree is in the heap, with the links the tree gives it. -/
def Stored (h : Heap K) : LTree K → Prop
  | .nil => True
  | .node a k l r => h.lookup a = some ⟨k, l.ptr, r.ptr⟩ ∧ Stored h l ∧ Stored h r

/-- Every node of the context is in the heap; the hole holds the pointer `p`. -/
def CtxStored (h : Heap K) : Ctx K → Option Addr → Prop
  | .top, _ => True
  | .left a k r c, p => h.lookup a = some ⟨k, p, r.ptr⟩ ∧ Stored h r ∧ CtxStored h c (some a)
  | .right a k l c, p => h.lookup a = some ⟨k, l.ptr, p⟩ ∧ Stored h l ∧ CtxStored h c (some a)

/-- The memory holds the tree at its root pointer. -/
structure Represents (m : Mem K) (t : LTree K) : Prop where
  root : m.root = t.ptr
  stored : Stored m.heap t
  nodup : t.addrs.Nodup

/-- The slot that is the hole of a context. -/
def ctxSlot : Ctx K → Slot
  | .top => .root
  | .left a _ _ _ => .left a
  | .right a _ _ _ => .right a

/-! ## Frames -/

/-- INTERNAL: a tree stays stored when none of its nodes is touched. -/
theorem stored_congr (h h' : Heap K) (t : LTree K)
    (hagree : ∀ a ∈ t.addrs, h'.lookup a = h.lookup a) (hs : Stored h t) : Stored h' t := by
  induction t with
  | nil => trivial
  | node a k l r ihl ihr =>
    simp only [LTree.addrs_node, List.mem_append, List.mem_cons] at hagree
    obtain ⟨ha, hl, hr⟩ := hs
    refine ⟨?_, ihl (fun b hb => hagree b (Or.inl hb)) hl,
      ihr (fun b hb => hagree b (Or.inr (Or.inr hb))) hr⟩
    rw [hagree a (Or.inr (Or.inl rfl)), ha]

/-- INTERNAL: a context stays stored when none of its nodes is touched. -/
theorem ctxStored_congr (h h' : Heap K) (c : Ctx K) (p : Option Addr)
    (hagree : ∀ a ∈ c.addrs, h'.lookup a = h.lookup a) (hs : CtxStored h c p) :
    CtxStored h' c p := by
  induction c generalizing p with
  | top => trivial
  | left a k r c ih =>
    simp only [Ctx.addrs, Ctx.before, Ctx.after, List.map_append, List.map_cons,
      List.mem_append, List.mem_cons] at hagree
    obtain ⟨ha, hr, hc⟩ := hs
    refine ⟨?_, stored_congr h h' r ?_ hr, ih (some a) ?_ hc⟩
    · rw [hagree a (by tauto), ha]
    · intro b hb
      exact hagree b (by simp only [LTree.addrs] at hb; tauto)
    · intro b hb
      simp only [Ctx.addrs, List.map_append, List.mem_append] at hb
      exact hagree b (by tauto)
  | right a k l c ih =>
    simp only [Ctx.addrs, Ctx.before, Ctx.after, List.map_append, List.map_cons,
      List.mem_append, List.mem_cons] at hagree
    obtain ⟨ha, hl, hc⟩ := hs
    refine ⟨?_, stored_congr h h' l ?_ hl, ih (some a) ?_ hc⟩
    · rw [hagree a (by tauto), ha]
    · intro b hb
      exact hagree b (by simp only [LTree.addrs] at hb; tauto)
    · intro b hb
      simp only [Ctx.addrs, List.map_append, List.mem_append] at hb
      exact hagree b (by tauto)

/-- INTERNAL: storing a filled context is storing the context around the pointer of
what fills it, and storing the filling. -/
theorem stored_zip_iff (h : Heap K) (c : Ctx K) (t : LTree K) :
    Stored h (c.zip t) ↔ CtxStored h c t.ptr ∧ Stored h t := by
  induction c generalizing t with
  | top => simp [Ctx.zip, CtxStored]
  | left a k r c ih =>
    simp only [Ctx.zip, ih, CtxStored, Stored, LTree.ptr_node]
    tauto
  | right a k l c ih =>
    simp only [Ctx.zip, ih, CtxStored, Stored, LTree.ptr_node]
    tauto

/-- INTERNAL: an address of a stored tree is in the heap. -/
theorem mem_of_stored (h : Heap K) (t : LTree K) (hs : Stored h t) (a : Addr)
    (ha : a ∈ t.addrs) : a ∈ h := by
  induction t with
  | nil => simp at ha
  | node b k l r ihl ihr =>
    obtain ⟨hb, hl, hr⟩ := hs
    simp only [LTree.addrs_node, List.mem_append, List.mem_cons] at ha
    rcases ha with ha | rfl | ha
    · exact ihl hl ha
    · exact Finmap.mem_of_lookup_eq_some hb
    · exact ihr hr ha

/-- INTERNAL: a node of a stored tree is in the heap with its key. -/
theorem exists_node_of_stored (h : Heap K) (t : LTree K) (hs : Stored h t) (a : Addr) (k : K)
    (hcell : (a, k) ∈ t.cells) : ∃ n, h.lookup a = some n ∧ n.key = k := by
  induction t with
  | nil => cases hcell
  | node b x l r ihl ihr =>
    obtain ⟨hb, hl, hr⟩ := hs
    rw [LTree.cells_node, List.mem_append, List.mem_cons] at hcell
    rcases hcell with hcell | heq | hcell
    · exact ihl hl hcell
    · cases heq
      exact ⟨_, hb, rfl⟩
    · exact ihr hr hcell

/-- INTERNAL: the memory has at least as many nodes as the tree it stores. -/
theorem length_le_live (m : Mem K) (t : LTree K) (hs : Stored m.heap t)
    (hn : t.addrs.Nodup) : t.addrs.length ≤ m.live := by
  classical
  rw [← List.toFinset_card_of_nodup hn]
  apply Finset.card_le_card
  intro a ha
  rw [Finmap.mem_keys]
  exact mem_of_stored m.heap t hs a (List.mem_toFinset.mp ha)

/-! ## The hole of a context -/

/-- INTERNAL: reading the hole of a stored context gives the pointer in it. -/
theorem deref_ctxSlot (m : Mem K) (c : Ctx K) (t : LTree K) (hr : m.root = (c.zip t).ptr)
    (hs : CtxStored m.heap c t.ptr) : m.deref (ctxSlot c) = some t.ptr := by
  cases c with
  | top => simp [ctxSlot, Mem.deref, hr, Ctx.zip]
  | left a k r c => simp [ctxSlot, Mem.deref, Mem.node, hs.1]
  | right a k l c => simp [ctxSlot, Mem.deref, Mem.node, hs.1]

/-- INTERNAL: no other address of a context is the one that owns its hole. -/
theorem ctxSlot_owner (c : Ctx K) (hn : c.addrs.Nodup) :
    match c with
    | .top => True
    | .left a _ r c' => a ∉ r.addrs ∧ a ∉ c'.addrs
    | .right a _ l c' => a ∉ l.addrs ∧ a ∉ c'.addrs := by
  cases c with
  | top => trivial
  | left a k r c' =>
    simp only [Ctx.addrs, Ctx.before, Ctx.after, List.map_append, List.map_cons,
      List.nodup_append, List.nodup_cons, List.mem_append, List.mem_cons] at hn
    obtain ⟨_, ⟨ha, _⟩, hdisj⟩ := hn
    refine ⟨fun hm => ha (Or.inl hm), ?_⟩
    simp only [Ctx.addrs, List.map_append, List.mem_append]
    rintro (hm | hm)
    · exact hdisj a hm a (Or.inl rfl) rfl
    · exact ha (Or.inr hm)
  | right a k l c' =>
    simp only [Ctx.addrs, Ctx.before, Ctx.after, List.map_append, List.map_cons, List.map_nil,
      List.nodup_append, List.mem_append, List.mem_singleton] at hn
    obtain ⟨⟨_, ⟨_, _, hla⟩, hbl⟩, _, hafter⟩ := hn
    refine ⟨fun hm => hla a hm a rfl rfl, ?_⟩
    simp only [Ctx.addrs, List.map_append, List.mem_append]
    rintro (hm | hm)
    · exact hbl a hm a (Or.inr rfl) rfl
    · exact hafter a (Or.inr (Or.inr rfl)) a hm rfl

/-- **Assigning through the hole.** If the context is stored and the tree `t` is
stored beside it, then giving the hole the pointer of `t` makes the memory represent
the filled context. -/
theorem represents_assign (m : Mem K) (c : Ctx K) (t₀ t : LTree K) (p : Option Addr)
    (hr : m.root = (c.zip t₀).ptr) (hc : CtxStored m.heap c p) (ht : Stored m.heap t)
    (hn : (c.zip t).addrs.Nodup) :
    ∃ m', m.assign (ctxSlot c) t.ptr = some m' ∧ Represents m' (c.zip t) := by
  obtain ⟨hnc, _, hdisj⟩ := (Ctx.nodup_addrs_zip c t).mp hn
  have howner := ctxSlot_owner c hnc
  cases c with
  | top => exact ⟨{ m with root := t.ptr }, rfl, rfl, ht, hn⟩
  | left a k r c' =>
    obtain ⟨ha, hsr, hsc⟩ := hc
    obtain ⟨har, hac⟩ := howner
    have hat : a ∉ t.addrs := fun hm => hdisj a hm (by simp [Ctx.addrs, Ctx.after])
    have hframe : ∀ b, b ≠ a →
        (m.heap.insert a ⟨k, t.ptr, r.ptr⟩).lookup b = m.heap.lookup b :=
      fun b hb => Finmap.lookup_insert_of_ne _ hb
    refine ⟨{ m with heap := m.heap.insert a ⟨k, t.ptr, r.ptr⟩ }, ?_, ?_, ?_, hn⟩
    · simp [ctxSlot, Mem.assign, Mem.node, ha]
    · exact hr.trans (Ctx.ptr_zip_congr c' _ _ rfl)
    · refine (stored_zip_iff _ _ _).mpr ⟨⟨Finmap.lookup_insert _, ?_, ?_⟩, ?_⟩
      · exact stored_congr _ _ r (fun b hb => hframe b (fun he => har (he ▸ hb))) hsr
      · exact ctxStored_congr _ _ c' _ (fun b hb => hframe b (fun he => hac (he ▸ hb))) hsc
      · exact stored_congr _ _ t (fun b hb => hframe b (fun he => hat (he ▸ hb))) ht
  | right a k l c' =>
    obtain ⟨ha, hsl, hsc⟩ := hc
    obtain ⟨hal, hac⟩ := howner
    have hat : a ∉ t.addrs := fun hm => hdisj a hm (by simp [Ctx.addrs, Ctx.before])
    have hframe : ∀ b, b ≠ a →
        (m.heap.insert a ⟨k, l.ptr, t.ptr⟩).lookup b = m.heap.lookup b :=
      fun b hb => Finmap.lookup_insert_of_ne _ hb
    refine ⟨{ m with heap := m.heap.insert a ⟨k, l.ptr, t.ptr⟩ }, ?_, ?_, ?_, hn⟩
    · simp [ctxSlot, Mem.assign, Mem.node, ha]
    · exact hr.trans (Ctx.ptr_zip_congr c' _ _ rfl)
    · refine (stored_zip_iff _ _ _).mpr ⟨⟨Finmap.lookup_insert _, ?_, ?_⟩, ?_⟩
      · exact stored_congr _ _ l (fun b hb => hframe b (fun he => hal (he ▸ hb))) hsl
      · exact ctxStored_congr _ _ c' _ (fun b hb => hframe b (fun he => hac (he ▸ hb))) hsc
      · exact stored_congr _ _ t (fun b hb => hframe b (fun he => hat (he ▸ hb))) ht

/-! ## `tfind` and `tsearch` -/

/-- INTERNAL: the descent from a hole follows `Ctx.seek`.
SOURCE: dietlibc-0.28-search.patch:77-85, 106-114 -/
theorem descend_eq (compar : K → K → ℤ) (key : K) (m : Mem K) (t : LTree K) (c : Ctx K)
    (fuel : ℕ) (hr : m.root = (c.zip t).ptr) (hc : CtxStored m.heap c t.ptr)
    (ht : Stored m.heap t) (hfuel : t.addrs.length < fuel) :
    descend compar key m fuel (ctxSlot c) = some (ctxSlot (c.seek compar key t).1) := by
  induction t generalizing c fuel with
  | nil =>
    obtain ⟨fuel, rfl⟩ : ∃ n, fuel = n + 1 := ⟨fuel - 1, by omega⟩
    simp [descend, deref_ctxSlot m c _ hr hc, Ctx.seek]
  | node a x l r ihl ihr =>
    obtain ⟨fuel, rfl⟩ : ∃ n, fuel = n + 1 := ⟨fuel - 1, by omega⟩
    obtain ⟨ha, hl, hrt⟩ := ht
    simp only [LTree.addrs_node, List.length_append, List.length_cons] at hfuel
    simp only [descend, deref_ctxSlot m c _ hr hc, LTree.ptr_node, Mem.node, ha, Ctx.seek]
    split
    · exact ihl (.left a x r c) fuel hr ⟨ha, hrt, hc⟩ hl (by omega)
    · split
      · exact ihr (.right a x l c) fuel hr ⟨ha, hl, hc⟩ hrt (by omega)
      · rfl

/-- INTERNAL: what holds where the descent from the root ends. -/
theorem seek_from_root (compar : K → K → ℤ) (key : K) (m : Mem K) (t : LTree K)
    (h : Represents m t) :
    descend compar key m (m.live + 1) .root = some (ctxSlot (Ctx.seek compar key .top t).1) ∧
    m.root = ((Ctx.seek compar key .top t).1.zip (t.descend compar key)).ptr ∧
    CtxStored m.heap (Ctx.seek compar key .top t).1 (t.descend compar key).ptr ∧
    Stored m.heap (t.descend compar key) ∧
    m.deref (ctxSlot (Ctx.seek compar key .top t).1) = some (t.descend compar key).ptr := by
  have hzip : (Ctx.seek compar key .top t).1.zip (t.descend compar key) = t := by
    have := Ctx.zip_seek compar key .top t
    rwa [Ctx.seek_snd] at this
  have hroot : m.root = ((Ctx.seek compar key .top t).1.zip (t.descend compar key)).ptr := by
    rw [hzip]
    exact h.root
  have hs : Stored m.heap ((Ctx.seek compar key .top t).1.zip (t.descend compar key)) := by
    rw [hzip]
    exact h.stored
  obtain ⟨hcs, hst⟩ := (stored_zip_iff _ _ _).mp hs
  refine ⟨?_, hroot, hcs, hst, deref_ctxSlot m _ _ hroot hcs⟩
  have hlive := length_le_live m t h.stored h.nodup
  exact descend_eq compar key m t .top (m.live + 1) h.root trivial h.stored (by omega)

/-- `tfind` returns the node at which the search in the tree ends.
SOURCE: dietlibc-0.28-search.patch:99-117 -/
theorem tfind_eq (compar : K → K → ℤ) (key : K) (m : Mem K) (t : LTree K)
    (h : Represents m t) :
    tfind compar key (some .root) m = some (t.descend compar key).ptr := by
  obtain ⟨hd, _, _, _, hderef⟩ := seek_from_root compar key m t h
  simp [tfind, hd, hderef]

/-- `tsearch` with a fresh cell inserts the key into the tree and returns the node
that holds it.
SOURCE: dietlibc-0.28-search.patch:70-92 -/
theorem tsearch_eq (compar : K → K → ℤ) (key : K) (m : Mem K) (t : LTree K) (cell : Addr)
    (h : Represents m t) (hfresh : cell ∉ m.heap) :
    ∃ p m', tsearch compar key (some .root) (some cell) m = some (some p, m') ∧
      Represents m' (t.insert compar key cell) ∧
      (t.descend compar key = .nil ∧ p = cell ∨
        (t.descend compar key).ptr = some p ∧ m' = m) := by
  obtain ⟨hd, hroot, hcs, hst, hderef⟩ := seek_from_root compar key m t h
  cases hsub : t.descend compar key with
  | node a x l r =>
    refine ⟨a, m, ?_, ?_, Or.inr ⟨rfl, rfl⟩⟩
    · simp [tsearch, hd, hderef, hsub]
    · rw [Ctx.insert_eq_self compar key cell t (by simp [hsub])]
      exact h
  | nil =>
    have hseek : (Ctx.seek compar key .top t).2 = .nil := by rw [Ctx.seek_snd, hsub]
    have hins := Ctx.insert_eq_zip compar key cell .top t hseek
    -- the new node is stored, and nothing that was there has moved
    have hframe : ∀ b, b ∈ m.heap →
        (m.heap.insert cell ⟨key, none, none⟩).lookup b = m.heap.lookup b :=
      fun b hb => Finmap.lookup_insert_of_ne _ (fun he => hfresh (he ▸ hb))
    have htop : (Ctx.seek compar key .top t).1.zip .nil = t := by
      rw [← hseek]
      exact Ctx.zip_seek compar key .top t
    have hcaddr : ∀ b ∈ (Ctx.seek compar key .top t).1.addrs, b ∈ m.heap := by
      intro b hb
      apply mem_of_stored m.heap t h.stored
      rw [← htop]
      exact (Ctx.mem_addrs_zip _ _ _).mpr (Or.inl hb)
    have hnodup : ((Ctx.seek compar key .top t).1.zip (.node cell key .nil .nil)).addrs.Nodup := by
      rw [Ctx.nodup_addrs_zip]
      refine ⟨?_, by simp, ?_⟩
      · have := h.nodup
        rw [← htop] at this
        exact ((Ctx.nodup_addrs_zip _ _).mp this).1
      · intro b hb hc
        simp only [LTree.addrs_node, LTree.addrs_nil, List.nil_append, List.mem_singleton] at hb
        exact hfresh (hb ▸ hcaddr b hc)
    rw [hsub] at hroot hcs hderef
    obtain ⟨m', hassign, hrep⟩ := represents_assign
      { m with heap := m.heap.insert cell ⟨key, none, none⟩ } _ .nil (.node cell key .nil .nil) none
      hroot (ctxStored_congr _ _ _ _ (fun b hb => hframe b (hcaddr b hb)) hcs)
      ⟨Finmap.lookup_insert _, trivial, trivial⟩ hnodup
    refine ⟨cell, m', ?_, ?_, Or.inl ⟨rfl, rfl⟩⟩
    · rw [LTree.ptr_node] at hassign
      simp [tsearch, hd, hderef, hassign]
    · rw [show t.insert compar key cell = Ctx.zip .top (t.insert compar key cell) from rfl, hins]
      exact hrep

/-! ## `tdelete` -/

/-- INTERNAL: the node that `tdelete` reports as the parent of a position: the node
that owns the slot, or the given node where the slot is the root pointer.
SOURCE: dietlibc-0.28-search.patch:15-22 -/
def ctxParent (top : Addr) : Ctx K → Addr
  | .top => top
  | .left a _ _ _ => a
  | .right a _ _ _ => a

/-- INTERNAL: the descent of `tdelete` follows `Ctx.seek` as well, and returns where
that ends at a node.
SOURCE: dietlibc-0.28-search.patch:18-25 -/
theorem deleteDescend_eq (compar : K → K → ℤ) (key : K) (m : Mem K) (top : Addr) (t : LTree K)
    (c : Ctx K) (fuel : ℕ) (hr : m.root = (c.zip t).ptr) (hc : CtxStored m.heap c t.ptr)
    (ht : Stored m.heap t) (hfuel : t.addrs.length < fuel) (hne : t ≠ .nil) :
    deleteDescend compar key m fuel (ctxParent top c) (ctxSlot c) =
      some (match (c.seek compar key t).2 with
        | .nil => none
        | .node _ _ _ _ => some (ctxParent top (c.seek compar key t).1,
            ctxSlot (c.seek compar key t).1)) := by
  induction t generalizing c fuel with
  | nil => exact absurd rfl hne
  | node a x l r ihl ihr =>
    obtain ⟨fuel, rfl⟩ : ∃ n, fuel = n + 1 := ⟨fuel - 1, by omega⟩
    obtain ⟨ha, hl, hrt⟩ := ht
    simp only [LTree.addrs_node, List.length_append, List.length_cons] at hfuel
    simp only [deleteDescend, deref_ctxSlot m c _ hr hc, LTree.ptr_node, Mem.node, ha, Ctx.seek]
    by_cases hzero : compar key x = 0
    · simp [hzero]
    rw [if_neg hzero]
    by_cases hlt : compar key x < 0
    · rw [if_pos hlt, if_pos hlt]
      have hslot : m.deref (.left a) = some l.ptr := by simp [Mem.deref, Mem.node, ha]
      rw [hslot]
      cases l with
      | nil => simp [Ctx.seek]
      | node b y ll lr =>
        exact ihl (.left a x r c) fuel hr ⟨ha, hrt, hc⟩ hl (by omega) (by simp)
    · have hgt : 0 < compar key x := by omega
      rw [if_neg hlt, if_neg hlt, if_pos hgt]
      have hslot : m.deref (.right a) = some r.ptr := by simp [Mem.deref, Mem.node, ha]
      rw [hslot]
      cases r with
      | nil => simp [Ctx.seek]
      | node b y rl rr =>
        exact ihr (.right a x l c) fuel hr ⟨ha, hl, hc⟩ hrt (by omega) (by simp)

/-- INTERNAL: **the successor search.** From a node `b` with the left child `c` the
loop finds the leftmost node `q` and the node `r` above it; hanging the right subtree
of `q` under `r` leaves the tree without `q` in memory, and no other node changes.
SOURCE: dietlibc-0.28-search.patch:36-38 -/
theorem leftmost_spec (m : Mem K) (cl : LTree K) :
    ∀ (b c : Addr) (kb kc : K) (cr br : LTree K) (fuel : ℕ),
      Stored m.heap (.node b kb (.node c kc cl cr) br) →
      (LTree.node b kb (.node c kc cl cr) br).addrs.Nodup → cl.addrs.length < fuel →
      ∃ r q n t' m', leftmost m fuel b c = some (r, q) ∧ m.node q = some n ∧
        LTree.popMin (.node b kb (.node c kc cl cr) br) = some ((q, n.key), t') ∧
        t'.ptr = some b ∧ m.assign (.left r) n.right = some m' ∧ m'.root = m.root ∧
        Stored m'.heap t' ∧ m'.node q = some n ∧
        ∀ a ∉ (LTree.node b kb (.node c kc cl cr) br).addrs,
          m'.heap.lookup a = m.heap.lookup a := by
  induction cl with
  | nil =>
    intro b c kb kc cr br fuel hs hn hfuel
    obtain ⟨fuel, rfl⟩ : ∃ n, fuel = n + 1 := ⟨fuel - 1, by omega⟩
    obtain ⟨hb, ⟨hc, -, hcr⟩, hbr⟩ := hs
    simp only [LTree.addrs_node, LTree.addrs_nil, List.nil_append, List.cons_append,
      List.nodup_cons, List.nodup_append, List.mem_append, List.mem_cons, not_or] at hn
    obtain ⟨⟨hccr, hcb, hcbr⟩, hncr, ⟨hbbr, hnbr⟩, hdisj⟩ := hn
    have hframe : ∀ a, a ≠ b →
        (m.heap.insert b ⟨kb, cr.ptr, br.ptr⟩).lookup a = m.heap.lookup a :=
      fun a ha => Finmap.lookup_insert_of_ne _ ha
    refine ⟨b, c, ⟨kc, none, cr.ptr⟩, .node b kb cr br,
      { m with heap := m.heap.insert b ⟨kb, cr.ptr, br.ptr⟩ }, ?_, hc, rfl, rfl, ?_, rfl, ?_, ?_, ?_⟩
    · simp [leftmost, Mem.node, hc]
    · simp [Mem.assign, Mem.node, hb]
    · refine ⟨Finmap.lookup_insert _, ?_, ?_⟩
      · exact stored_congr _ _ cr
          (fun a ha => hframe a (fun he => hdisj a ha b (Or.inl rfl) he)) hcr
      · exact stored_congr _ _ br (fun a ha => hframe a (fun he => hbbr (he ▸ ha))) hbr
    · exact (hframe c hcb).trans hc
    · intro a ha
      apply hframe a
      rintro rfl
      exact ha (by simp)
  | node d kd dl dr ihl _ =>
    intro b c kb kc cr br fuel hs hn hfuel
    obtain ⟨fuel, rfl⟩ : ∃ n, fuel = n + 1 := ⟨fuel - 1, by omega⟩
    obtain ⟨hb, hsub, hbr⟩ := hs
    have hc := hsub.1
    have hcontains : ∀ a ∈ (LTree.node c kc (.node d kd dl dr) cr).addrs,
        a ∈ (LTree.node b kb (.node c kc (.node d kd dl dr) cr) br).addrs := by
      intro a ha
      rw [LTree.addrs_node]
      exact List.mem_append_left _ ha
    rw [LTree.addrs_node, List.nodup_append] at hn
    obtain ⟨hnsub, hnb, hdisj⟩ := hn
    simp only [LTree.addrs_node, List.length_append, List.length_cons] at hfuel
    obtain ⟨r, q, n, t', m', hleft, hq, hpop, hptr, hassign, hroot, hst, hq', hfr⟩ :=
      ihl c d kc kd dr cr fuel hsub hnsub (by omega)
    have hbsub : b ∉ (LTree.node c kc (.node d kd dl dr) cr).addrs :=
      fun hm => hdisj b hm b (by simp) rfl
    refine ⟨r, q, n, .node b kb t' br, m', ?_, hq, ?_, rfl, hassign, hroot, ?_, hq', ?_⟩
    · simp only [leftmost, Mem.node, hc, LTree.ptr_node]
      exact hleft
    · rw [LTree.popMin, hpop]
    · refine ⟨?_, hst, ?_⟩
      · rw [hfr b hbsub, hb, hptr, LTree.ptr_node]
      · refine stored_congr _ _ br (fun a ha => hfr a ?_) hbr
        exact fun hm => hdisj a hm a (List.mem_cons_of_mem _ ha) rfl
    · intro a ha
      exact hfr a (fun hm => ha (hcontains a hm))

/-- INTERNAL: **the four splice cases.** The replacement for a node with the subtrees
`l` and `r` is stored as `l.splice r`, and only nodes of `r` have changed.
SOURCE: dietlibc-0.28-search.patch:27-42 -/
theorem replacement_spec (m : Mem K) (a : Addr) (k : K) (l r : LTree K)
    (hs : Stored m.heap (.node a k l r)) (hn : (LTree.node a k l r).addrs.Nodup) :
    ∃ m', replacement m a = some ((l.splice r).ptr, m') ∧ m'.root = m.root ∧
      Stored m'.heap (l.splice r) ∧ ∀ b ∉ r.addrs, m'.heap.lookup b = m.heap.lookup b := by
  have hsr : Stored m.heap r := hs.2.2
  obtain ⟨ha, hl, -⟩ := hs
  rw [LTree.addrs_node, List.nodup_append, List.nodup_cons] at hn
  obtain ⟨hnl, ⟨har, hnr⟩, hdisj⟩ := hn
  have hlr : ∀ b ∈ l.addrs, b ∉ r.addrs :=
    fun b hb hr => hdisj b hb b (List.mem_cons_of_mem _ hr) rfl
  cases l with
  | nil =>
    -- no left child: the right subtree moves up as it is
    refine ⟨m, ?_, rfl, hsr, fun _ _ => rfl⟩
    simp [replacement, Mem.node, ha, LTree.splice]
  | node p kp pl pr =>
    cases r with
    | nil =>
      refine ⟨m, ?_, rfl, hl, fun _ _ => rfl⟩
      simp [replacement, Mem.node, ha, LTree.splice, LTree.popMin]
    | node b kb bl br =>
      obtain ⟨hb, hbl, hbr⟩ := hsr
      cases bl with
      | nil =>
        -- the right child has no left child: it takes the left subtree and moves up
        have hframe : ∀ x, x ≠ b →
            (m.heap.insert b ⟨kb, some p, br.ptr⟩).lookup x = m.heap.lookup x :=
          fun x hx => Finmap.lookup_insert_of_ne _ hx
        simp only [LTree.addrs_node, LTree.addrs_nil, List.nil_append, List.nodup_cons] at hnr
        refine ⟨{ m with heap := m.heap.insert b ⟨kb, some p, br.ptr⟩ }, ?_, rfl, ?_, ?_⟩
        · simp [replacement, Mem.node, ha, hb, LTree.splice, LTree.popMin, Mem.assign]
        · refine ⟨Finmap.lookup_insert _, ?_, ?_⟩
          · exact stored_congr _ _ _
              (fun x hx => hframe x (fun he => hlr x hx (by simp [he]))) hl
          · exact stored_congr _ _ _ (fun x hx => hframe x (fun he => hnr.1 (he ▸ hx))) hbr
        · intro x hx
          apply hframe x
          rintro rfl
          exact hx (by simp)
      | node c kc cl cr =>
        -- the in-order successor `q` lies deeper: its right subtree is hung under
        -- its parent, and `q` takes both links of the deleted node
        have hfuel : cl.addrs.length < m.live + 1 := by
          have hlive := length_le_live m (.node b kb (.node c kc cl cr) br) ⟨hb, hbl, hbr⟩ hnr
          simp only [LTree.addrs_node, List.length_append, List.length_cons] at hlive
          omega
        obtain ⟨r', q, n, t', m₁, hleft, hq, hpop, hptr, hassign, hroot, hst, hq₁, hfr⟩ :=
          leftmost_spec m cl b c kb kc cr br (m.live + 1) ⟨hb, hbl, hbr⟩ hnr hfuel
        have hcells := LTree.popMin_cells _ _ _ hpop
        have haddrs : (LTree.node b kb (.node c kc cl cr) br).addrs = q :: t'.addrs := by
          simp only [LTree.addrs, hcells, List.map_cons]
        rw [haddrs, List.nodup_cons] at hnr
        rw [haddrs] at har hlr hfr
        have ha₁ : m₁.heap.lookup a = some ⟨k, some p, some b⟩ := by rw [hfr a har, ha]; rfl
        have haq : a ≠ q := fun he => har (by simp [he])
        have hframe : ∀ x, x ≠ q → ∀ v w,
            ((m₁.heap.insert q v).insert q w).lookup x = m₁.heap.lookup x := by
          intro x hx v w
          rw [Finmap.lookup_insert_of_ne _ hx, Finmap.lookup_insert_of_ne _ hx]
        refine ⟨⟨m₁.root, (m₁.heap.insert q ⟨n.key, some p, n.right⟩).insert q
          ⟨n.key, some p, some b⟩⟩, ?_, hroot, ?_, ?_⟩
        · have hq₁' : m₁.heap.lookup q = some n := hq₁
          have hq' : m.heap.lookup q = some n := hq
          have hleft₁ : m₁.assign (.left q) (some p) =
              some ⟨m₁.root, m₁.heap.insert q ⟨n.key, some p, n.right⟩⟩ := by
            simp [Mem.assign, Mem.node, hq₁']
          have hright₁ : Mem.assign ⟨m₁.root, m₁.heap.insert q ⟨n.key, some p, n.right⟩⟩
              (.right q) (some b) =
              some ⟨m₁.root, (m₁.heap.insert q ⟨n.key, some p, n.right⟩).insert q
                ⟨n.key, some p, some b⟩⟩ := by
            simp [Mem.assign, Mem.node]
          simp [replacement, Mem.node, ha, hb, LTree.splice, hpop, hleft, hq', hassign, ha₁,
            hleft₁, hright₁, Finmap.lookup_insert_of_ne _ haq]
        · simp only [LTree.splice, hpop]
          refine ⟨?_, ?_, ?_⟩
          · rw [Finmap.lookup_insert, hptr]
            rfl
          · refine stored_congr _ _ _ (fun x hx => ?_) hl
            have hxr := hlr x hx
            rw [List.mem_cons, not_or] at hxr
            rw [hframe x hxr.1, hfr x (by simp [hxr.1, hxr.2])]
          · refine stored_congr _ _ _ (fun x hx => hframe x ?_ _ _) hst
            exact fun he => hnr.1 (he ▸ hx)
        · intro x hx
          rw [haddrs] at hx
          have hxq : x ≠ q := fun he => hx (by simp [he])
          rw [hframe x hxq, hfr x hx]

/-- INTERNAL: a heap loses no node of a tree that the freed address is not in. -/
theorem stored_erase (h : Heap K) (t : LTree K) (a : Addr) (ha : a ∉ t.addrs)
    (hs : Stored h t) : Stored (h.erase a) t := by
  apply stored_congr h _ t _ hs
  intro b hb
  exact Finmap.lookup_erase_ne (fun he => ha (he ▸ hb))

/-- INTERNAL: an assignment brings back no node that was freed. -/
theorem notMem_assign (m m' : Mem K) (rp : Slot) (p : Option Addr) (a : Addr) (ha : a ∉ m.heap)
    (h : m.assign rp p = some m') : a ∉ m'.heap := by
  have hinsert : ∀ b n n', m.node b = some n → a ∉ m.heap.insert b n' := by
    intro b n n' hb hmem
    rw [Finmap.mem_insert] at hmem
    rcases hmem with rfl | hmem
    · exact ha (Finmap.mem_of_lookup_eq_some hb)
    · exact ha hmem
  cases rp with
  | root =>
    cases h
    exact ha
  | left b =>
    obtain ⟨n, hn, rfl⟩ := Option.map_eq_some_iff.mp h
    exact hinsert b n _ hn
  | right b =>
    obtain ⟨n, hn, rfl⟩ := Option.map_eq_some_iff.mp h
    exact hinsert b n _ hn

/-- INTERNAL: `tdelete` with a key that the search does not find.
SOURCE: dietlibc-0.28-search.patch:15-25 -/
theorem tdelete_missing (compar : K → K → ℤ) (key : K) (m : Mem K) (t : LTree K) (h : Represents m t)
    (hsub : t.descend compar key = .nil) : tdelete compar key (some .root) m = some (none, m) := by
  cases t with
  | nil =>
    have hroot : m.root = none := h.root
    simp [tdelete, Mem.deref, hroot]
  | node top ktop ltop rtop =>
    generalize ht : LTree.node top ktop ltop rtop = t at h hsub
    have hderef₀ : m.deref .root = some (some top) := by simp [Mem.deref, h.root, ← ht]
    have hlive := length_le_live m t h.stored h.nodup
    have hdd : deleteDescend compar key m (m.live + 1) top .root = _ :=
      deleteDescend_eq compar key m top t .top (m.live + 1) h.root trivial h.stored
        (by omega) (by simp [← ht])
    rw [Ctx.seek_snd, hsub] at hdd
    simp [tdelete, hderef₀, hdd]

/-- INTERNAL: **`tdelete` with a key that the search finds** returns the node above its position, frees the node
that the search has found and leaves the tree without it.
SOURCE: dietlibc-0.28-search.patch:9-48 -/
theorem tdelete_found (compar : K → K → ℤ) (key : K) (m : Mem K) (t : LTree K) (h : Represents m t) (top : Addr)
    (htop : t.ptr = some top) (a : Addr) (x : K) (l r : LTree K) (hsub : t.descend compar key = .node a x l r) :
    ∃ m', tdelete compar key (some .root) m = some (some (ctxParent top (Ctx.seek compar key .top t).1), m') ∧
      Represents m' (t.erase compar key) ∧ a ∉ m'.heap := by
  have hne : t ≠ .nil := by
    rintro rfl
    cases htop
  have hderef₀ : m.deref .root = some (some top) := by simp [Mem.deref, h.root, htop]
  obtain ⟨-, hroot, hcs, hst, hderef⟩ := seek_from_root compar key m t h
  have hlive := length_le_live m t h.stored h.nodup
  have hdd : deleteDescend compar key m (m.live + 1) top .root = _ :=
    deleteDescend_eq compar key m top t .top (m.live + 1) h.root trivial h.stored
      (by omega) hne
  rw [Ctx.seek_snd] at hdd
  rw [hsub] at hdd hroot hcs hst hderef
  have hseek : (Ctx.seek compar key .top t).2 = .node a x l r := by rw [Ctx.seek_snd, hsub]
  generalize hc : (Ctx.seek compar key .top t).1 = c at hdd hroot hcs hderef
  have hzip : c.zip (.node a x l r) = t := by
    rw [← hc, ← hseek]
    exact Ctx.zip_seek compar key .top t
  have herase : t.erase compar key = c.zip (l.splice r) := by
    rw [← hc]
    exact Ctx.erase_eq_zip compar key .top t a x l r hseek
  have hnodup := h.nodup
  rw [← hzip, Ctx.nodup_addrs_zip] at hnodup
  obtain ⟨hnc, hnsub, hdisj⟩ := hnodup
  have hnsub' := hnsub
  rw [LTree.addrs_node, List.nodup_append, List.nodup_cons] at hnsub'
  obtain ⟨hnl, ⟨har, hnr⟩, hlr⟩ := hnsub'
  have hsplice : (l.splice r).addrs = l.addrs ++ r.addrs := by simp [LTree.addrs]
  have hasp : a ∉ (l.splice r).addrs := by
    rw [hsplice, List.mem_append, not_or]
    exact ⟨fun hm => hlr a hm a (by simp) rfl, har⟩
  obtain ⟨m₁, hrepl, hroot₁, hst₁, hfr⟩ := replacement_spec m a x l r hst hnsub
  -- the context is untouched by the splice and by the `free`
  have hac : a ∉ c.addrs := hdisj a (by simp)
  have hcs₁ : CtxStored (m₁.heap.erase a) c (some a) := by
    refine ctxStored_congr m.heap _ c _ (fun b hb => ?_) hcs
    have hba : b ≠ a := fun he => hac (he ▸ hb)
    rw [Finmap.lookup_erase_ne hba]
    exact hfr b (fun hm => hdisj b (by simp [hm]) hb)
  have hnodup' : (c.zip (l.splice r)).addrs.Nodup := by
    rw [Ctx.nodup_addrs_zip, hsplice]
    refine ⟨hnc, ?_, ?_⟩
    · rw [List.nodup_append]
      exact ⟨hnl, hnr, fun b hb d hd => hlr b hb d (List.mem_cons_of_mem _ hd)⟩
    · intro b hb
      rw [List.mem_append] at hb
      apply hdisj b
      simp only [LTree.addrs_node, List.mem_append, List.mem_cons]
      tauto
  obtain ⟨m', hassign, hrep⟩ := represents_assign (m₁.free a) c (.node a x l r)
    (l.splice r) (some a) (hroot₁.trans hroot) hcs₁
    (stored_erase m₁.heap (l.splice r) a hasp hst₁) hnodup'
  refine ⟨m', ?_, ?_, notMem_assign _ _ _ _ a Finmap.notMem_erase_self hassign⟩
  · simp [tdelete, hderef₀, hdd, hderef, hrepl, hassign]
  · rw [herase]
    exact hrep

/-- `tdelete` deletes the key from the tree; it returns null exactly when the search
ends at no node.
SOURCE: dietlibc-0.28-search.patch:9-48 -/
theorem tdelete_eq (compar : K → K → ℤ) (key : K) (m : Mem K) (t : LTree K)
    (h : Represents m t) :
    ∃ p m', tdelete compar key (some .root) m = some (p, m') ∧
      Represents m' (t.erase compar key) ∧ (p = none ↔ t.descend compar key = .nil) := by
  cases hsub : t.descend compar key with
  | nil =>
    refine ⟨none, m, tdelete_missing compar key m t h hsub, ?_, by simp⟩
    rw [Ctx.erase_eq_self compar key t hsub]
    exact h
  | node a x l r =>
    cases t with
    | nil => cases hsub
    | node top ktop ltop rtop =>
      obtain ⟨m', hrun, hrep, -⟩ := tdelete_found compar key m _ h top rfl a x l r hsub
      exact ⟨_, m', hrun, hrep, by simp⟩

end TTLinux.Analysis.SearchHeap
