import Mathlib.Data.Finmap
import TTLinux.Lib.SearchTree

/-!
# The binary tree of `search.h`

`tsearch`, `tfind`, `tdelete` and `twalk` of dietlibc (dietlibc-0.28-search.patch), over an
explicit memory: a finite map from addresses to nodes, and the caller's root
pointer. A `node_t **` is a `Slot`, the place in memory that holds a node
pointer: the root pointer or a field of a node.

A dereference of an address that holds no node, and a loop that does not end, are
the result `none`. The loops are bounded by the number of nodes in memory plus
one: a descent that is longer has met some node twice and goes on for ever.
-/

set_option autoImplicit false

namespace TTLinux.Model.Search

open TTLinux.Lib (Addr)

/-- `node_t`; a null pointer is `none`.
SOURCE: dietlibc-0.28-search.patch:56-60 -/
structure Node (K : Type) where
  key : K
  left : Option Addr
  right : Option Addr
  deriving Repr, DecidableEq

/-- The nodes in memory. -/
abbrev Heap (K : Type) := Finmap fun _ : Addr => Node K

/-- The memory the tree functions work on: the nodes and the caller's `*rootp`. -/
structure Mem (K : Type) where
  root : Option Addr
  heap : Heap K

/-- A place that holds a node pointer: what a `node_t **` points to. -/
inductive Slot where
  | root
  | left (a : Addr)
  | right (a : Addr)
  deriving Repr, DecidableEq

namespace Mem

variable {K : Type}

/-- No node, and a null root pointer. -/
def empty : Mem K := ⟨none, ∅⟩

/-- `*p` of a node pointer. -/
def node (m : Mem K) (a : Addr) : Option (Node K) := m.heap.lookup a

/-- `*rp` of a pointer to a node pointer. -/
def deref (m : Mem K) : Slot → Option (Option Addr)
  | .root => some m.root
  | .left a => (m.node a).map Node.left
  | .right a => (m.node a).map Node.right

/-- `*rp = p`. -/
def assign (m : Mem K) (rp : Slot) (p : Option Addr) : Option (Mem K) :=
  match rp with
  | .root => some { m with root := p }
  | .left a => (m.node a).map fun n => { m with heap := m.heap.insert a { n with left := p } }
  | .right a => (m.node a).map fun n => { m with heap := m.heap.insert a { n with right := p } }

/-- `free(p)`. -/
def free (m : Mem K) (a : Addr) : Mem K := { m with heap := m.heap.erase a }

/-- The number of nodes in memory. -/
def live (m : Mem K) : ℕ := m.heap.keys.card

end Mem

variable {K : Type}

/-- The descent of `tsearch` and of `tfind`: follow the comparison from `rp` until
`*rp` is null or holds the key.
SOURCE: dietlibc-0.28-search.patch:77-85, 106-114 -/
def descend (compar : K → K → ℤ) (key : K) (m : Mem K) : ℕ → Slot → Option Slot
  | 0, _ => none
  | fuel + 1, rp =>
    match m.deref rp with
    | none => none
    | some none => some rp
    | some (some a) =>
      match m.node a with
      | none => none
      | some n =>
        let result := compar key n.key
        if result < 0 then descend compar key m fuel (.left a)
        else if 0 < result then descend compar key m fuel (.right a)
        else some rp

/-- `tsearch`: the node that holds the key, allocated by `calloc` (which returns
`cell`) if there is none.
SOURCE: dietlibc-0.28-search.patch:70-92 -/
def tsearch (compar : K → K → ℤ) (key : K) (rootp : Option Slot) (cell : Option Addr)
    (m : Mem K) : Option (Option Addr × Mem K) :=
  match rootp with
  | none => some (none, m)
  | some rp₀ => do
    let rp ← descend compar key m (m.live + 1) rp₀
    match ← m.deref rp with
    | some a => pure (some a, m)
    | none =>
      match cell with
      | none => pure (none, ← m.assign rp none)
      | some a =>
        -- `calloc` clears the two links
        let m₁ := { m with heap := m.heap.insert a ⟨key, none, none⟩ }
        pure (some a, ← m₁.assign rp (some a))

/-- `tfind`: the node that holds the key, or null.
SOURCE: dietlibc-0.28-search.patch:99-117 -/
def tfind (compar : K → K → ℤ) (key : K) (rootp : Option Slot) (m : Mem K) :
    Option (Option Addr) :=
  match rootp with
  | none => some none
  | some rp₀ => do
    let rp ← descend compar key m (m.live + 1) rp₀
    m.deref rp

/-- The descent of `tdelete`, which keeps the node above `*rp` in `parent`; `*rp`
is not null on entry. The result is null where the function returns `NULL`.
SOURCE: dietlibc-0.28-search.patch:18-25 -/
def deleteDescend (compar : K → K → ℤ) (key : K) (m : Mem K) :
    ℕ → Addr → Slot → Option (Option (Addr × Slot))
  | 0, _, _ => none
  | fuel + 1, parent, rp =>
    match m.deref rp with
    | some (some a) =>
      match m.node a with
      | none => none
      | some n =>
        let result := compar key n.key
        if result = 0 then some (some (parent, rp))
        else
          let rp' : Slot := if result < 0 then .left a else .right a
          match m.deref rp' with
          | none => none
          | some none => some none
          | some (some _) => deleteDescend compar key m fuel a rp'
    | _ => none

/-- The search for the in-order successor: `q` is the left child of `r`, and the
loop goes on while `q` has a left child itself.
SOURCE: dietlibc-0.28-search.patch:36-37 -/
def leftmost (m : Mem K) : ℕ → Addr → Addr → Option (Addr × Addr)
  | 0, _, _ => none
  | fuel + 1, r, q =>
    match m.node q with
    | none => none
    | some n =>
      match n.left with
      | none => some (r, q)
      | some q' => leftmost m fuel q q'

/-- The pointer that replaces the node `*rp = a` being deleted, and the memory
after the links around it have been changed.
SOURCE: dietlibc-0.28-search.patch:27-42 -/
def replacement (m : Mem K) (a : Addr) : Option (Option Addr × Mem K) := do
  let n ← m.node a
  match n.left with
  | none => pure (n.right, m)
  | some q =>
    match n.right with
    | none => pure (some q, m)
    | some r =>
      match (← m.node r).left with
      | none => pure (some r, ← m.assign (.left r) (some q))
      | some q₀ =>
        let (r, q) ← leftmost m (m.live + 1) r q₀
        let m ← m.assign (.left r) (← m.node q).right
        let m ← m.assign (.left q) (← m.node a).left
        let m ← m.assign (.right q) (← m.node a).right
        pure (some q, m)

/-- `tdelete`: unlink and free the node that holds the key.
SOURCE: dietlibc-0.28-search.patch:9-48 -/
def tdelete (compar : K → K → ℤ) (key : K) (rootp : Option Slot) (m : Mem K) :
    Option (Option Addr × Mem K) :=
  match rootp with
  | none => some (none, m)
  | some rp₀ => do
    match ← m.deref rp₀ with
    | none => pure (none, m)
    | some root =>
      match ← deleteDescend compar key m (m.live + 1) root rp₀ with
      | none => pure (none, m)
      | some (parent, rp) =>
        match ← m.deref rp with
        | none => none
        | some a =>
          let (q, m) ← replacement m a
          let m ← (m.free a).assign rp q
          pure (some parent, m)

/-! ## `twalk` -/

/-- `VISIT`.
SOURCE: dietlibc-0.28-search.patch:161 -/
inductive Visit where
  | preorder
  | postorder
  | endorder
  | leaf
  deriving Repr, DecidableEq

variable {S : Type}

/-- `__walk`. The action gets the address of the node, and changes a state of its own.
SOURCE: dietlibc-0.28-search.patch:126-139 -/
def walk (action : Addr → Visit → ℕ → S → S) (m : Mem K) : ℕ → Addr → ℕ → S → Option S
  | 0, _, _, _ => none
  | fuel + 1, root, level, s => do
    let n ← m.node root
    if n.left = none ∧ n.right = none then some (action root .leaf level s)
    else
      let s := action root .preorder level s
      let s ← match n.left with
        | some l => walk action m fuel l (level + 1) s
        | none => some s
      let s := action root .postorder level s
      let s ← match n.right with
        | some r => walk action m fuel r (level + 1) s
        | none => some s
      some (action root .endorder level s)

/-- `twalk`.
SOURCE: dietlibc-0.28-search.patch:141-145 -/
def twalk (root : Option Addr) (action : Option (Addr → Visit → ℕ → S → S)) (m : Mem K) (s : S) : Option S :=
  match root, action with
  | some root, some action => walk action m (m.live + 1) root 0 s
  | _, _ => some s

end TTLinux.Model.Search
