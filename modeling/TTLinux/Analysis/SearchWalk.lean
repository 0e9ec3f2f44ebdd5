import TTLinux.Analysis.SearchHeap

/-!
# The visits of `twalk`

`visits` lists the calls of the action for a tree: a node without children is a leaf, another node
is visited before, between and behind its subtrees. `twalk` makes these calls in memory, and from
the list it follows which visits a node gets and in which order the keys come.
-/

set_option autoImplicit false

namespace TTLinux.Analysis.SearchWalk

open TTLinux.Lib (Addr LTree)
open TTLinux.Model.Search
open TTLinux.Analysis.SearchHeap

variable {K S : Type}

/-! ## The calls for a tree -/

/-- One call of the action. -/
structure VisitCall where
  node : Addr
  visit : Visit
  level : ℕ
deriving DecidableEq

/-- The calls for a node at a level, given those for its subtrees. -/
def around (a : Addr) (level : ℕ) (childless : Bool) (left right : List VisitCall) : List VisitCall :=
  if childless then [⟨a, .leaf, level⟩]
  else ⟨a, .preorder, level⟩ :: left ++ ⟨a, .postorder, level⟩ :: right ++ [⟨a, .endorder, level⟩]

/-- Neither subtree has a node. -/
def childless (l r : LTree K) : Bool := l.ptr = none && r.ptr = none

/-- The calls for a tree whose root is at a level. -/
def visits : LTree K → ℕ → List VisitCall
  | .nil, _ => []
  | .node a _ l r, level => around a level (childless l r) (visits l (level + 1)) (visits r (level + 1))

/-- The calls made one after another. -/
def perform (action : Addr → Visit → ℕ → S → S) (s : S) (calls : List VisitCall) : S :=
  calls.foldl (fun s c => action c.node c.visit c.level s) s

/-- INTERNAL: the empty tree is not visited. -/
theorem visits_of_ptr_eq_none (t : LTree K) (level : ℕ) (h : t.ptr = none) : visits t level = [] := by
  cases t with
  | nil => rfl
  | node a k l r => cases h

/-- INTERNAL: **`__walk` makes the calls for the tree that the memory spells out.**
SOURCE: dietlibc-0.28-search.patch:126-139 -/
theorem walk_eq (action : Addr → Visit → ℕ → S → S) (m : Mem K) (t : LTree K) :
    ∀ (fuel level : ℕ) (s : S) (a : Addr), Stored m.heap t → t.addrs.length < fuel → t.ptr = some a →
      walk action m fuel a level s = some (perform action s (visits t level)) := by
  induction t with
  | nil =>
    intro fuel level s a _ _ hptr
    cases hptr
  | node b k l r ihl ihr =>
    intro fuel level s a hstored hfuel hptr
    obtain rfl := Option.some.inj hptr
    obtain ⟨hlookup, hl, hr⟩ := hstored
    rw [LTree.addrs_node, List.length_append, List.length_cons] at hfuel
    cases fuel with
    | zero => omega
    | succ fuel =>
      have hnode : m.node b = some ⟨k, l.ptr, r.ptr⟩ := hlookup
      have hleft := fun p s hp => ihl fuel (level + 1) s p hl (by omega) hp
      have hright := fun p s hp => ihr fuel (level + 1) s p hr (by omega) hp
      -- a subtree that is not there adds nothing
      rcases hlp : l.ptr with _ | p
      · rcases hrp : r.ptr with _ | q
        · simp [walk, hnode, visits, around, childless, perform, hlp, hrp]
        · simp [walk, hnode, visits, around, childless, perform, hlp, hrp, visits_of_ptr_eq_none l _ hlp,
            hright q _ hrp]
      · rcases hrp : r.ptr with _ | q
        · simp [walk, hnode, visits, around, childless, perform, hlp, hrp, visits_of_ptr_eq_none r _ hrp,
            hleft p _ hlp]
        · simp [walk, hnode, visits, around, childless, perform, hlp, hrp, hleft p _ hlp, hright q _ hrp]

/-! ## The visits of a node -/

/-- A subtree and its depth. -/
inductive SubtreeAt : LTree K → ℕ → LTree K → Prop
  | here (t : LTree K) : SubtreeAt t 0 t
  | left {l : LTree K} {d : ℕ} {u : LTree K} (a : Addr) (k : K) (r : LTree K) (h : SubtreeAt l d u) :
    SubtreeAt (.node a k l r) (d + 1) u
  | right {r : LTree K} {d : ℕ} {u : LTree K} (a : Addr) (k : K) (l : LTree K) (h : SubtreeAt r d u) :
    SubtreeAt (.node a k l r) (d + 1) u

/-- The calls for one node. -/
def callsOf (a : Addr) (calls : List VisitCall) : List VisitCall := calls.filter fun c => c.node = a

/-- The calls that come in the order of the keys. -/
def inOrder (calls : List VisitCall) : List VisitCall :=
  calls.filter fun c => c.visit = .postorder || c.visit = .leaf

/-- INTERNAL: all calls are for nodes of the tree. -/
theorem node_mem_addrs (t : LTree K) : ∀ (level : ℕ), ∀ c ∈ visits t level, c.node ∈ t.addrs := by
  induction t with
  | nil =>
    intro level c hc
    cases hc
  | node a k l r ihl ihr =>
    intro level c hc
    rw [visits, around] at hc
    rw [LTree.addrs_node, List.mem_append, List.mem_cons]
    split_ifs at hc
    · rw [List.mem_singleton] at hc
      rw [hc]
      exact Or.inr (Or.inl rfl)
    · simp only [List.cons_append, List.append_assoc, List.mem_cons, List.mem_append, List.not_mem_nil,
        or_false] at hc
      rcases hc with rfl | hl | rfl | hr | rfl
      · exact Or.inr (Or.inl rfl)
      · exact Or.inl (ihl _ c hl)
      · exact Or.inr (Or.inl rfl)
      · exact Or.inr (Or.inr (ihr _ c hr))
      · exact Or.inr (Or.inl rfl)

/-- INTERNAL: there is no call for a node outside of the tree. -/
theorem callsOf_eq_nil (t : LTree K) (level : ℕ) (a : Addr) (ha : a ∉ t.addrs) :
    callsOf a (visits t level) = [] := by
  rw [callsOf, List.filter_eq_nil_iff]
  intro c hc hnode
  apply ha
  rw [← of_decide_eq_true hnode]
  exact node_mem_addrs t level c hc

/-- INTERNAL: the subtrees of a node that is not the root are in one of the subtrees of the root. -/
theorem addr_mem_of_subtreeAt {t : LTree K} {d : ℕ} {u : LTree K} (h : SubtreeAt t d u) : ∀ a ∈ u.addrs, a ∈ t.addrs := by
  induction h with
  | here t => exact fun a ha => ha
  | left b k r _ ih =>
    intro a ha
    rw [LTree.addrs_node]
    exact List.mem_append_left _ (ih a ha)
  | right b k l _ ih =>
    intro a ha
    rw [LTree.addrs_node]
    exact List.mem_append_right _ (List.mem_cons_of_mem _ (ih a ha))

/-- INTERNAL: the calls for a node in two parts. -/
theorem callsOf_append (a : Addr) (c₁ c₂ : List VisitCall) : callsOf a (c₁ ++ c₂) = callsOf a c₁ ++ callsOf a c₂ :=
  List.filter_append c₁ c₂

/-- INTERNAL: a call for the node. -/
theorem callsOf_cons_self (a : Addr) (v : Visit) (level : ℕ) (calls : List VisitCall) :
    callsOf a (⟨a, v, level⟩ :: calls) = ⟨a, v, level⟩ :: callsOf a calls := List.filter_cons_of_pos (by simp)

/-- INTERNAL: a call for another one. -/
theorem callsOf_cons_of_ne (a b : Addr) (h : b ≠ a) (v : Visit) (level : ℕ) (calls : List VisitCall) :
    callsOf a (⟨b, v, level⟩ :: calls) = callsOf a calls := List.filter_cons_of_neg (by simp [h])

/-- INTERNAL: a node whose subtrees do not hold it. -/
theorem callsOf_around_self (a : Addr) (level : ℕ) (bare : Bool) (left right : List VisitCall)
    (hl : callsOf a left = []) (hr : callsOf a right = []) :
    callsOf a (around a level bare left right) =
      if bare then [⟨a, .leaf, level⟩]
      else [⟨a, .preorder, level⟩, ⟨a, .postorder, level⟩, ⟨a, .endorder, level⟩] := by
  cases bare with
  | true => exact callsOf_cons_self a .leaf level []
  | false =>
    simp only [around, Bool.false_eq_true, if_false, callsOf_append, List.cons_append, callsOf_cons_self, hl, hr,
      List.nil_append]
    rfl

/-- INTERNAL: the calls for a node below. -/
theorem callsOf_around_of_ne (a b : Addr) (h : b ≠ a) (level : ℕ) (left right : List VisitCall) :
    callsOf a (around b level false left right) = callsOf a left ++ callsOf a right := by
  simp only [around, Bool.false_eq_true, if_false, callsOf_append, List.cons_append, callsOf_cons_of_ne a b h]
  have hnil : callsOf a [] = [] := rfl
  rw [hnil, List.append_nil]

/-- INTERNAL: a tree with a node has a root. -/
theorem ptr_ne_none_of_subtreeAt {t : LTree K} {d : ℕ} {a : Addr} {k : K} {l r : LTree K}
    (h : SubtreeAt t d (.node a k l r)) : t.ptr ≠ none := by
  cases h <;> simp

/-- INTERNAL: **the visits of a node**, in their order and with its depth. -/
theorem callsOf_subtreeAt (t : LTree K) (a : Addr) (k : K) (l r : LTree K) :
    ∀ (level d : ℕ), SubtreeAt t d (.node a k l r) → t.addrs.Nodup →
      callsOf a (visits t level) =
        if childless l r then [⟨a, .leaf, level + d⟩]
        else [⟨a, .preorder, level + d⟩, ⟨a, .postorder, level + d⟩, ⟨a, .endorder, level + d⟩] := by
  induction t with
  | nil =>
    intro level d h _
    cases h
  | node b x tl tr ihl ihr =>
    intro level d h hnodup
    rw [LTree.addrs_node] at hnodup
    obtain ⟨hndl, hndr, hdisj⟩ := List.nodup_append.mp hnodup
    obtain ⟨hbr, hndr⟩ := List.nodup_cons.mp hndr
    rw [visits]
    cases h with
    | here =>
      have hal : a ∉ l.addrs := fun ha => hdisj a ha a List.mem_cons_self rfl
      exact callsOf_around_self a level _ _ _ (callsOf_eq_nil l _ a hal) (callsOf_eq_nil r _ a hbr)
    | @left _ d _ _ _ _ h =>
      have ha := addr_mem_of_subtreeAt h a (by simp)
      have hne : b ≠ a := fun hba => hdisj a ha b List.mem_cons_self hba.symm
      have har : a ∉ tr.addrs := fun har => hdisj a ha a (List.mem_cons_of_mem _ har) rfl
      have hbare : childless tl tr = false := by simp [childless, ptr_ne_none_of_subtreeAt h]
      rw [hbare, callsOf_around_of_ne a b hne, callsOf_eq_nil tr _ a har, List.append_nil, ihl (level + 1) d h hndl,
        Nat.add_right_comm, Nat.add_assoc]
    | @right _ d _ _ _ _ h =>
      have ha := addr_mem_of_subtreeAt h a (by simp)
      have hne : b ≠ a := fun hba => hbr (hba ▸ ha)
      have hal : a ∉ tl.addrs := fun hal => hdisj a hal a (List.mem_cons_of_mem _ ha) rfl
      have hbare : childless tl tr = false := by simp [childless, ptr_ne_none_of_subtreeAt h]
      rw [hbare, callsOf_around_of_ne a b hne, callsOf_eq_nil tl _ a hal, List.nil_append, ihr (level + 1) d h hndr,
        Nat.add_right_comm, Nat.add_assoc]

/-! ## The order of the keys -/

/-- INTERNAL: the visits between the subtrees and of the leaves are in the order of the nodes. -/
theorem nodes_inOrder_visits (t : LTree K) :
    ∀ level, (inOrder (visits t level)).map VisitCall.node = t.addrs := by
  induction t with
  | nil =>
    intro level
    rfl
  | node a k l r ihl ihr =>
    intro level
    rw [visits, LTree.addrs_node]
    cases hbare : childless l r with
    | true =>
      have hboth : l.addrs = [] ∧ r.addrs = [] := by
        simp only [childless, Bool.and_eq_true, decide_eq_true_eq] at hbare
        rw [← ihl level, ← ihr level, visits_of_ptr_eq_none l _ hbare.1, visits_of_ptr_eq_none r _ hbare.2]
        exact ⟨rfl, rfl⟩
      rw [hboth.1, hboth.2]
      rfl
    | false =>
      rw [← ihl (level + 1), ← ihr (level + 1)]
      simp [around, inOrder]

/-- INTERNAL: the key of a node of the tree. -/
theorem filterMap_key (m : Mem K) (t : LTree K) (hs : Stored m.heap t) :
    t.addrs.filterMap (fun a => (m.node a).map Node.key) = t.keys := by
  induction t with
  | nil => rfl
  | node a k l r ihl ihr =>
    obtain ⟨hlookup, hl, hr⟩ := hs
    have hnode : m.node a = some ⟨k, l.ptr, r.ptr⟩ := hlookup
    rw [LTree.addrs_node, LTree.keys_node, List.filterMap_append, ihl hl,
      List.filterMap_cons_some (b := k) (by rw [hnode]; rfl), ihr hr]

/-! ## `twalk` -/

/-- **The calls of `twalk`.** For every search tree in memory and every action, `twalk` makes a list of calls.
A node at depth `d` gets one call as a leaf if it has no children, and otherwise one call each before,
between and behind its subtrees, in this order and with `d` as the level; no other calls are made. The
calls between the subtrees and for the leaves come in the strictly increasing order of the keys.
SOURCE: dietlibc-0.28-search.patch:126-145 -/
theorem twalk_visits (cmp : K → K → ℤ) (m : Mem K) (t : LTree K) (hm : Represents m t) (ht : t.Ordered cmp)
    (action : Addr → Visit → ℕ → S → S) (s : S) :
    ∃ calls : List VisitCall, twalk m.root (some action) m s = some (perform action s calls) ∧
      (∀ c ∈ calls, c.node ∈ t.addrs) ∧
      (∀ a k l r d, SubtreeAt t d (.node a k l r) →
        callsOf a calls =
          if childless l r then [⟨a, .leaf, d⟩]
          else [⟨a, .preorder, d⟩, ⟨a, .postorder, d⟩, ⟨a, .endorder, d⟩]) ∧
      (inOrder calls).filterMap (fun c => (m.node c.node).map Node.key) = t.keys ∧
      ((inOrder calls).filterMap (fun c => (m.node c.node).map Node.key)).Pairwise fun x y => cmp x y < 0 := by
  have hkeys : (inOrder (visits t 0)).filterMap (fun c => (m.node c.node).map Node.key) = t.keys := by
    rw [← filterMap_key m t hm.stored, ← nodes_inOrder_visits t 0, List.filterMap_map]
    rfl
  refine ⟨visits t 0, ?_, node_mem_addrs t 0, ?_, hkeys, ?_⟩
  · rw [hm.root]
    cases hptr : t.ptr with
    | none =>
      rw [visits_of_ptr_eq_none t 0 hptr]
      rfl
    | some a =>
      apply walk_eq action m t _ 0 s a hm.stored _ hptr
      have := length_le_live m t hm.stored hm.nodup
      omega
  · intro a k l r d h
    have hcalls := callsOf_subtreeAt t a k l r 0 d h hm.nodup
    rw [Nat.zero_add] at hcalls
    exact hcalls
  · rw [hkeys]
    exact ht

/-- A tree of three nodes: its root has one child, which has a child itself. -/
def chainTree : LTree ℕ := .node 7 5 (.node 8 2 .nil (.node 9 3 .nil .nil)) .nil

/-- The memory that spells it out. -/
def chainMem : Mem ℕ :=
  ⟨some 7, ((Finmap.singleton 7 ⟨5, some 8, none⟩).insert 8 ⟨2, none, some 9⟩).insert 9 ⟨3, none, none⟩⟩

/-- The calls for the three nodes. -/
theorem twalk_visits_chain :
    ∃ calls : List VisitCall,
      twalk chainMem.root (some fun a v level (s : List VisitCall) => s ++ [⟨a, v, level⟩]) chainMem [] =
        some (perform (fun a v level s => s ++ [⟨a, v, level⟩]) [] calls) ∧
      callsOf 8 calls = [⟨8, .preorder, 1⟩, ⟨8, .postorder, 1⟩, ⟨8, .endorder, 1⟩] ∧
      callsOf 9 calls = [⟨9, .leaf, 2⟩] := by
  have hstored : Stored chainMem.heap chainTree := by
    refine ⟨?_, ⟨?_, trivial, ?_, trivial, trivial⟩, trivial⟩
    · rfl
    · rfl
    · rfl
  have hm : Represents chainMem chainTree := ⟨rfl, hstored, by decide⟩
  obtain ⟨calls, hrun, -, hcalls, -⟩ := twalk_visits (fun a b : ℕ => (a : ℤ) - b) chainMem chainTree hm
    (by unfold LTree.Ordered; decide) (fun a v level (s : List VisitCall) => s ++ [⟨a, v, level⟩]) []
  refine ⟨calls, hrun, ?_, ?_⟩
  · exact hcalls 8 2 _ _ 1 (.left 7 5 .nil (.here _))
  · exact hcalls 9 3 _ _ 2 (.left 7 5 .nil (.right 8 2 .nil (.here _)))

end TTLinux.Analysis.SearchWalk
