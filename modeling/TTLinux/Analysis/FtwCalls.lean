import Mathlib.Data.List.GetD
import TTLinux.Model.Ftw

/-!
# The recursive calls of a walk

`walker` calls itself for the entries of a directory. `walkCalls` lists these calls with the path buffer that each of
them gets. A call goes well if the buffer holds the path of the entry and the stream of the directory is not
taken for a closed one: `strncpy` does not terminate a name of `NAME_MAX` bytes, and descriptor 0 stands for a
stream that was closed. `Careful` says so of all calls of a walk.
-/

set_option autoImplicit false

namespace TTLinux.Analysis.FtwCalls

open TTLinux.Lib
open TTLinux.Model.Ftw

variable {W D : Type}

/-! ## The path buffer -/

/-- The path of an entry: the path of the directory, a slash and the name. -/
def child (p name : Bytes) : Bytes := p ++ 47 :: name

/-- INTERNAL: a path has no zero. -/
theorem zero_notMem_child (p name : Bytes) (hp : (0 : UInt8) ∉ p) (hname : (0 : UInt8) ∉ name) :
    (0 : UInt8) ∉ child p name := by
  unfold child
  simp only [List.mem_append, List.mem_cons, not_or]
  exact ⟨hp, by decide, hname⟩

/-- The name of an entry: neither a zero nor a slash is in it. -/
structure FileName (name : Bytes) : Prop where
  noZero : (0 : UInt8) ∉ name
  noSlash : (47 : UInt8) ∉ name

/-- The name fits into the path buffer with its terminator. -/
structure NameFits (name : Bytes) : Prop extends FileName name where
  short : name.length < NAME_MAX

/-- The buffer holds the path of the directory and a slash, and has room for a name. -/
structure PathBuffer (path p : Bytes) : Prop where
  front : path.take (p.length + 1) = p ++ [47]
  room : p.length + 1 + NAME_MAX ≤ path.length

/-- INTERNAL: the buffer before the first entry: behind the slash it holds what the stack held.
SOURCE: dietlibc-ftw.patch:201-203 -/
theorem pathBuffer_eq (stack p : Bytes) :
    pathBuffer stack p = p ++ 47 ::
      (stack ++ List.replicate (p.length + NAME_MAX + 2 - stack.length) 0).drop (p.length + 1) := by
  unfold pathBuffer
  dsimp only
  generalize stack ++ List.replicate (p.length + NAME_MAX + 2 - stack.length) 0 = path
  have hcopy : store path 0 (p ++ [0]) = p ++ 0 :: path.drop (p.length + 1) := by
    unfold store
    simp
  rw [hcopy]
  unfold store
  rw [List.take_left, List.length_singleton, List.drop_append]
  simp

/-- INTERNAL: the buffer before the first entry has room for a name.
SOURCE: dietlibc-ftw.patch:201-203 -/
theorem pathBuffer_pathBuffer (stack p : Bytes) : PathBuffer (pathBuffer stack p) p := by
  rw [pathBuffer_eq]
  refine ⟨?_, ?_⟩
  · rw [List.take_append]
    simp
  · simp only [List.length_append, List.length_cons, List.length_drop, List.length_replicate]
    omega

/-- A name as `strncpy` stores it, in `NAME_MAX` bytes. -/
def padded (name : Bytes) : Bytes := name.take NAME_MAX ++ List.replicate (NAME_MAX - name.length) 0

/-- INTERNAL: all bytes are stored. -/
theorem length_padded (name : Bytes) : (padded name).length = NAME_MAX := by
  simp only [padded, List.length_append, List.length_take, List.length_replicate]
  omega

/-- INTERNAL: **the buffer with a name in it:** the path of the directory, the slash, the padded name, and
what stood behind it.
SOURCE: dietlibc-ftw.patch:220 -/
theorem strncpy_eq (path p name : Bytes) (h : PathBuffer path p) :
    strncpy path (p.length + 1) name = p ++ 47 :: (padded name ++ path.drop (p.length + 1 + NAME_MAX)) := by
  have hstore : strncpy path (p.length + 1) name = path.take (p.length + 1) ++ padded name ++
      path.drop (p.length + 1 + (padded name).length) := rfl
  rw [hstore, length_padded, h.front]
  simp

/-- INTERNAL: a name leaves the path of the directory and the room in place.
SOURCE: dietlibc-ftw.patch:220 -/
theorem PathBuffer.strncpy {path p : Bytes} (h : PathBuffer path p) (name : Bytes) :
    PathBuffer (strncpy path (p.length + 1) name) p := by
  rw [strncpy_eq path p name h]
  refine ⟨?_, ?_⟩
  · rw [List.take_append]
    simp
  · simp only [List.length_append, List.length_cons, length_padded]
    omega

/-- INTERNAL: the byte behind the place for names stays as it is. -/
theorem getElem?_strncpy (path p name : Bytes) (h : PathBuffer path p) :
    (strncpy path (p.length + 1) name)[p.length + 1 + NAME_MAX]? = path[p.length + 1 + NAME_MAX]? := by
  have hlen : (p ++ 47 :: padded name).length = p.length + 1 + NAME_MAX := by
    rw [List.length_append, List.length_cons, length_padded]
    omega
  have hsplit : strncpy path (p.length + 1) name =
      (p ++ 47 :: padded name) ++ path.drop (p.length + 1 + NAME_MAX) := by
    rw [strncpy_eq path p name h, List.append_assoc, List.cons_append]
  rw [hsplit, List.getElem?_append_right (le_of_eq hlen), hlen, Nat.sub_self, List.getElem?_drop, Nat.add_zero]

/-- INTERNAL: **the recursive call gets the path of the entry**, whatever names stood in the buffer before, if
the name is shorter than `NAME_MAX` or has a zero behind it.
SOURCE: dietlibc-ftw.patch:220 -/
theorem cstr_strncpy (path p name : Bytes) (h : PathBuffer path p) (hp : (0 : UInt8) ∉ p)
    (hname : (0 : UInt8) ∉ name)
    (hfits : name.length < NAME_MAX ∨ name.length = NAME_MAX ∧ path.getD (p.length + 1 + NAME_MAX) 0 = 0) :
    cstr (strncpy path (p.length + 1) name) = child p name := by
  have hzero := zero_notMem_child p name hp hname
  suffices hrest : ∃ rest, strncpy path (p.length + 1) name = child p name ∨
      strncpy path (p.length + 1) name = child p name ++ 0 :: rest by
    obtain ⟨rest, heq | heq⟩ := hrest
    · rw [heq, cstr_eq_self _ hzero]
    · rw [heq, cstr_append, cstr_eq_self _ hzero]
  rw [strncpy_eq path p name h]
  unfold padded child
  rcases hfits with hshort | ⟨hfull, hstale⟩
  · have hrep : List.replicate (NAME_MAX - name.length) (0 : UInt8) =
        0 :: List.replicate (NAME_MAX - name.length - 1) 0 := by
      rw [← List.replicate_succ]
      congr 1
      omega
    refine ⟨List.replicate (NAME_MAX - name.length - 1) 0 ++ path.drop (p.length + 1 + NAME_MAX), Or.inr ?_⟩
    rw [List.take_of_length_le (le_of_lt hshort), hrep]
    simp
  · rw [List.take_of_length_le (le_of_eq hfull), hfull, Nat.sub_self, List.replicate_zero, List.append_nil]
    rcases Nat.lt_or_ge (p.length + 1 + NAME_MAX) path.length with hlt | hge
    · refine ⟨path.drop (p.length + 1 + NAME_MAX + 1), Or.inr ?_⟩
      rw [List.getD_eq_getElem _ _ hlt] at hstale
      rw [List.drop_eq_getElem_cons hlt, hstale]
      simp
    · refine ⟨[], Or.inl ?_⟩
      rw [List.drop_eq_nil_of_le hge, List.append_nil]

/-- INTERNAL: a name that fits, and the buffer behind it.
SOURCE: dietlibc-ftw.patch:220 -/
theorem strncpy_cstr (path p name : Bytes) (h : PathBuffer path p) (hp : (0 : UInt8) ∉ p)
    (hname : NameFits name) :
    cstr (strncpy path (p.length + 1) name) = child p name ∧
      PathBuffer (strncpy path (p.length + 1) name) p :=
  ⟨cstr_strncpy path p name h hp hname.noZero (Or.inl hname.short), h.strncpy name⟩

/-- INTERNAL: a name of `NAME_MAX` bytes is not terminated: what stood behind it follows.
SOURCE: dietlibc-ftw.patch:220 -/
theorem strncpy_unterminated (path p name : Bytes) (h : PathBuffer path p) (hname : name.length = NAME_MAX) :
    strncpy path (p.length + 1) name = child p name ++ path.drop (p.length + 1 + NAME_MAX) := by
  rw [strncpy_eq path p name h, padded, child, List.take_of_length_le (le_of_eq hname), hname, Nat.sub_self,
    List.replicate_zero, List.append_nil]
  simp

/-! ## The calls of the loop -/

/-- A recursive call for an entry: its name, the path buffer, and the other arguments. -/
structure WalkCall (W : Type) where
  name : Bytes
  buffer : Bytes
  nopenfd : ℤ
  last : List Data
  state : State W

/-- The recursive calls that the loop makes.
SOURCE: dietlibc-ftw.patch:212-239 -/
def loopCalls (sys : System W D) (flags : Flags) (here : Bytes) (n : ℕ) (nopenfd : ℤ) (last : List Data)
    (walk : Bytes → ℤ → List Data → State W → Option (ℤ × State W)) :
    ℕ → D → Data → Bytes → State W → List (WalkCall W)
  | 0, _, _, _, _ => []
  | fuel + 1, dh, data, path, s =>
    match sys.readdir dh s.world with
    | (none, _, _) => []
    | (some de, dh, w) =>
      let s := { s with world := w }
      if isDots de.dName then loopCalls sys flags here n nopenfd last walk fuel dh data path s
      else
        let path := strncpy path n de.dName
        let full := decide (nopenfd ≤ 1)
        let offset := if full then de.dOff else 0
        let data := if full then { data with fd := 0 } else data
        let s := if full then closeStream sys dh s else s
        ⟨de.dName, path, nopenfd - 1, data :: last, s⟩ ::
          match walk (cstr path) (nopenfd - 1) (data :: last) s with
          | none => []
          | some (retval, s) =>
            if retval ≠ 0 then []
            else if data.fd = 0 then
              match openStream sys (if flags.chdir then [46] else here) s with
              | (some dh, s) =>
                loopCalls sys flags here n nopenfd last walk fuel (sys.seekdir dh offset)
                  { data with fd := sys.fd dh } path s
              | (none, _) => []
            else loopCalls sys flags here n nopenfd last walk fuel dh data path s

/-! ## The calls of a call -/

/-- The calls of the part for the entries of a directory.
SOURCE: dietlibc-ftw.patch:171-239 -/
def descendCalls (sys : System W D) (conf : Conf) (dir here : Bytes) (st : Stat) (nopenfd : ℤ) (last : List Data)
    (walk : Bytes → ℤ → List Data → State W → Option (ℤ × State W)) (fuel : ℕ) (dh : D) (s : State W) :
    List (WalkCall W) :=
  if conf.flags.mount ∧ conf.basedev ≠ st.node.dev then []
  else
    match goDown sys conf.flags here last s with
    | (none, _) => []
    | (some len, s) =>
      loopCalls sys conf.flags here (dir.length + 1) nopenfd last walk fuel dh ⟨st.node, sys.fd dh, len⟩
        (pathBuffer (sys.stack s.world) dir)
        ({ s with level := s.level + 1, base := dir.length + 1 }.log (.entered st.node))

/-- The calls from the check for loops on.
SOURCE: dietlibc-ftw.patch:156-239 -/
def visitCalls (sys : System W D) (fn : Callback W) (conf : Conf) (dir here : Bytes) (type : FtwType) (st : Stat)
    (nopenfd : ℤ) (last : List Data) (walk : Bytes → ℤ → List Data → State W → Option (ℤ × State W))
    (fuel : ℕ) (dh : Option D) (s : State W) : List (WalkCall W) :=
  if isAncestor conf.flags st last then []
  else
    let (retval, s) := if conf.flags.depth then (0, s) else callback fn dir st type s
    match dh with
    | some d => if retval = 0 then descendCalls sys conf dir here st nopenfd last walk fuel d s else []
    | none => []

/-- The recursive calls that a call of `walker` makes.
SOURCE: dietlibc-ftw.patch:101-239 -/
def walkCalls (sys : System W D) (fn : Callback W) (conf : Conf)
    (walk : Bytes → ℤ → List Data → State W → Option (ℤ × State W)) (fuel : ℕ) (dir : Bytes) (nopenfd : ℤ)
    (last : List Data) (s : State W) : List (WalkCall W) :=
  let here := if conf.flags.chdir then dir.drop s.base else dir
  match classify sys conf.flags here s.world with
  | (some (.D, st), w) =>
    match prepare sys conf.flags here st { s with world := w } with
    | some (.ready dh, s) =>
      visitCalls sys fn conf dir here (if dh.isSome then .D else .DNR) st nopenfd last walk fuel dh s
    | _ => []
  | _ => []

/-! ## Calls that go well -/

/-- The path of the entry is terminated in the buffer: the name is shorter than `NAME_MAX`, or the byte behind it
is zero. The stream of the directory is closed during the call, or its descriptor is not 0.
SOURCE: dietlibc-ftw.patch:201-238 -/
structure WalkCall.GoesWell (dir : Bytes) (c : WalkCall W) : Prop where
  fits : c.name.length < NAME_MAX ∨
    c.name.length = NAME_MAX ∧ c.buffer.getD (dir.length + 1 + NAME_MAX) 0 = 0
  stream : 0 < c.nopenfd → ∀ d ∈ c.last.head?, d.fd ≠ 0

/-- All calls of a walk go well: those of this call of `walker`, and those of the calls that it makes.
SOURCE: dietlibc-ftw.patch:101-269 -/
def Careful (sys : System W D) (fn : Callback W) (conf : Conf) : ℕ → Bytes → ℤ → List Data → State W → Prop
  | 0, _, _, _, _ => True
  | fuel + 1, dir, nopenfd, last, s =>
    ∀ c ∈ walkCalls sys fn conf (walker sys fn conf fuel) fuel dir nopenfd last s,
      c.GoesWell dir ∧ Careful sys fn conf fuel (cstr c.buffer) c.nopenfd c.last c.state

end TTLinux.Analysis.FtwCalls
