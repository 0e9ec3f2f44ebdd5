import TTLinux.Model.Ftw

/-!
# The blocks of the list of visited directories

`add_node`, `find_node` and `tdestroy_recurse` of dietlibc-ftw.patch with the blocks of memory they work on. A key of
the tree is a pointer to a `struct ftw_node`, so that a directory of the list takes two blocks: one for this structure
and one for the node of the tree. What is freed is recorded, and to free anything but a block in use has no result.

`add_node` fills in a structure before anything else gets to know of it, and nothing writes to it again. A pointer to
a structure is therefore its address together with what it holds.
-/

set_option autoImplicit false

namespace TTLinux.Model.FtwBlocks

open TTLinux.Lib (Addr)
open TTLinux.Model.Search (Mem tsearch tfind)
open TTLinux.Model.Ftw (FtwNode Stat)

/-- `struct ftw_node *`: the address and the structure there.
SOURCE: dietlibc-ftw.patch:44-47 -/
structure NodePtr where
  addr : Addr
  node : FtwNode
  deriving DecidableEq

/-- `conf->ftw_list` with the nodes of the tree, the blocks that hold a `struct ftw_node`, and what was freed,
in order. -/
structure Memory where
  ftwList : Mem NodePtr
  structs : Finset Addr
  freed : List Addr

namespace Memory

/-- No block, and a null `conf->ftw_list`. -/
def empty : Memory := ⟨.empty, ∅, []⟩

/-- The address of a block that is allocated. -/
def InUse (m : Memory) (a : Addr) : Prop := a ∈ m.structs ∨ a ∈ m.ftwList.heap

instance (m : Memory) (a : Addr) : Decidable (m.InUse a) := inferInstanceAs (Decidable (_ ∨ _))

/-- A block is given back. -/
def drop (m : Memory) (a : Addr) : Memory where
  ftwList := m.ftwList.free a
  structs := m.structs.erase a
  freed := m.freed ++ [a]

end Memory

/-- `free`. -/
def free (a : Addr) (m : Memory) : Option Memory := if m.InUse a then some (m.drop a) else none

/-- `nodecmp`.
SOURCE: dietlibc-ftw.patch:66-70 -/
def nodecmp (p1 p2 : NodePtr) : ℤ := Ftw.nodecmp p1.node p2.node

/-- `add_node`.
SOURCE: dietlibc-ftw.patch:73-81 -/
def addNode (malloc calloc : Memory → Option Addr) (st : Stat) (m : Memory) : Option (ℤ × Memory) :=
  match malloc m with
  | none => some (-1, m)
  | some node =>
    let m := { m with structs := insert node m.structs }
    (tsearch nodecmp ⟨node, st.node⟩ (some .root) (calloc m) m.ftwList).map fun (p, list) =>
      (if p.isSome then 0 else -1, { m with ftwList := list })

/-- `find_node`; the address is that of its variable `node`.
SOURCE: dietlibc-ftw.patch:83-89 -/
def findNode (node : Addr) (st : Stat) (m : Memory) : Option Bool :=
  (tfind nodecmp ⟨node, st.node⟩ (some .root) m.ftwList).map Option.isSome

/-- `tdestroy_recurse`; the number bounds its depth.
SOURCE: dietlibc-ftw.patch:91-99 -/
def tdestroyRecurse (free_node : Addr → Memory → Option Memory) : ℕ → Addr → Memory → Option Memory
  | 0, _, _ => none
  | fuel + 1, root, m => do
    let n ← m.ftwList.node root
    let m ← match n.left with
      | some l => tdestroyRecurse free_node fuel l m
      | none => some m
    let n ← m.ftwList.node root
    let m ← match n.right with
      | some r => tdestroyRecurse free_node fuel r m
      | none => some m
    let n ← m.ftwList.node root
    let m ← free_node n.key.addr m
    free root m

end TTLinux.Model.FtwBlocks
