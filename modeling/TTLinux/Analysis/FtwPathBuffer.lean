import TTLinux.Analysis.FtwTable

/-!
# The path buffer of `walker`

All entries of a directory are named in one buffer, which the recursive calls of the loop get. `strncpy`
never stores to the last byte of the buffer, so that a name of `NAME_MAX` bytes ends with whatever was
there when the buffer was allocated.
-/

set_option autoImplicit false

namespace TTLinux.Analysis.FtwPathBuffer

open TTLinux.Lib
open TTLinux.Model.Ftw
open TTLinux.Analysis.FtwCalls
open TTLinux.Analysis.FtwTable (tableSystem)

variable {W D : Type}

/-! ## The calls of the loop -/

/-- INTERNAL: **the calls are those of the loop:** it depends on the walk at these calls only. -/
theorem readLoop_congr (sys : System W D) (flags : Flags) (here : Bytes) (n : ℕ) (nopenfd : ℤ) (last : List Data)
    (walk walk' : Bytes → ℤ → List Data → State W → Option (ℤ × State W)) (fuel : ℕ) (dh : D) (data : Data)
    (path : Bytes) (s : State W)
    (h : ∀ c ∈ loopCalls sys flags here n nopenfd last walk fuel dh data path s,
      walk (cstr c.buffer) c.nopenfd c.last c.state = walk' (cstr c.buffer) c.nopenfd c.last c.state) :
    readLoop sys flags here n nopenfd last walk fuel dh data path s =
      readLoop sys flags here n nopenfd last walk' fuel dh data path s := by
  induction fuel generalizing dh data path s with
  | zero => rfl
  | succ fuel ih =>
    revert h
    rw [loopCalls, readLoop, readLoop]
    rcases sys.readdir dh s.world with ⟨_ | de, dh₁, w⟩
    · exact fun _ => rfl
    · dsimp only
      by_cases hdots : isDots de.dName = true
      · rw [if_pos hdots, if_pos hdots, if_pos hdots]
        exact ih _ _ _ _
      · rw [if_neg hdots, if_neg hdots, if_neg hdots]
        generalize (if decide (nopenfd ≤ 1) = true then { data with fd := 0 } else data) = data₁
        generalize (if decide (nopenfd ≤ 1) = true then closeStream sys dh₁ { s with world := w }
          else { s with world := w }) = s₁
        rw [List.forall_mem_cons]
        rintro ⟨hfirst, hrest⟩
        revert hrest
        dsimp only at hfirst
        rw [← hfirst]
        rcases walk (cstr (strncpy path n de.dName)) (nopenfd - 1) (data₁ :: last) s₁ with _ | ⟨r, s₂⟩
        · exact fun _ => rfl
        · dsimp only
          by_cases hr : r = 0
          · rw [if_neg (not_not.mpr hr), if_neg (not_not.mpr hr), if_neg (not_not.mpr hr)]
            by_cases hfd : data₁.fd = 0
            · rw [if_pos hfd, if_pos hfd, if_pos hfd]
              rcases openStream sys (if flags.chdir = true then [46] else here) s₂ with ⟨_ | dh₂, s₃⟩
              · exact fun _ => rfl
              · exact ih _ _ _ _
            · rw [if_neg hfd, if_neg hfd, if_neg hfd]
              exact ih _ _ _ _
          · rw [if_pos hr, if_pos hr, if_pos hr]
            exact fun _ => rfl

/-! ## The buffer -/

/-- The stores that fill the buffer before the loop: offsets and bytes.
SOURCE: dietlibc-ftw.patch:202-203 -/
def pathStores (dir : Bytes) : List (ℕ × Bytes) := [(0, dir ++ [0]), (dir.length, [47])]

/-- The store of a name behind the slash.
SOURCE: dietlibc-ftw.patch:220 -/
def nameStore (dir name : Bytes) : ℕ × Bytes :=
  (dir.length + 1, name.take NAME_MAX ++ List.replicate (NAME_MAX - name.length) 0)

/-- INTERNAL: the buffer is what the stores for the directory leave of the stack. -/
theorem pathBuffer_stores (stack dir : Bytes) :
    pathBuffer stack dir = (pathStores dir).foldl (fun path x => store path x.1 x.2)
      (stack ++ List.replicate (dir.length + NAME_MAX + 2 - stack.length) 0) := rfl

/-- INTERNAL: `strncpy` of a name is one store. -/
theorem strncpy_store (path dir name : Bytes) :
    strncpy path (dir.length + 1) name = store path (nameStore dir name).1 (nameStore dir name).2 := rfl

/-- The offset of the last byte of the buffer. -/
def lastByte (dir : Bytes) : ℕ := dir.length + 1 + NAME_MAX

/-- The buffer holds the path of the directory and a slash, and this byte at its end. -/
structure Holds (dir : Bytes) (stale : UInt8) (path : Bytes) : Prop where
  buffer : PathBuffer path dir
  stale : path[lastByte dir]? = some stale

/-- INTERNAL: the buffer before the loop ends with what the stack held there. -/
theorem pathBuffer_holds (stack dir : Bytes) : Holds dir (stack.getD (lastByte dir) 0) (pathBuffer stack dir) := by
  refine ⟨pathBuffer_pathBuffer stack dir, ?_⟩
  have hindex : lastByte dir = dir.length + (NAME_MAX + 1) := by
    unfold lastByte
    omega
  rw [pathBuffer_eq, hindex, List.getElem?_append_right (Nat.le_add_right _ _), Nat.add_sub_cancel_left,
    List.getElem?_cons_succ, List.getElem?_drop]
  have hoffset : dir.length + 1 + NAME_MAX = dir.length + (NAME_MAX + 1) := by omega
  rw [hoffset]
  rcases Nat.lt_or_ge (dir.length + (NAME_MAX + 1)) stack.length with hlt | hge
  · rw [List.getElem?_append_left hlt, List.getD_eq_getElem _ _ hlt, List.getElem?_eq_getElem hlt]
  · rw [List.getElem?_append_right hge, List.getD_eq_default _ _ hge, List.getElem?_replicate_of_lt (by omega)]

/-- INTERNAL: a name is padded to `NAME_MAX` bytes. -/
theorem length_nameStore (dir name : Bytes) : (nameStore dir name).2.length = NAME_MAX := by
  exact length_padded name

/-- INTERNAL: **a name does not reach the last byte.** -/
theorem Holds.strncpy {dir path : Bytes} {stale : UInt8} (h : Holds dir stale path) (name : Bytes) :
    Holds dir stale (strncpy path (dir.length + 1) name) :=
  ⟨h.buffer.strncpy name, (getElem?_strncpy path dir name h.buffer).trans h.stale⟩

/-- What a recursive call is to get: the path of the entry, terminated in the buffer, and all stores to the
buffer are to the bytes that were allocated. -/
structure PassesPath (dir : Bytes) (c : WalkCall W) : Prop where
  string : cstr c.buffer = child dir c.name
  terminated : child dir c.name ++ [0] <+: c.buffer
  inside : ∀ x ∈ nameStore dir c.name :: pathStores dir, x.1 + x.2.length ≤ dir.length + NAME_MAX + 2

/-- INTERNAL: no store is beyond the buffer. -/
theorem stores_inside (dir name : Bytes) :
    ∀ x ∈ nameStore dir name :: pathStores dir, x.1 + x.2.length ≤ dir.length + NAME_MAX + 2 := by
  intro x hx
  rcases List.mem_cons.mp hx with rfl | hx
  · rw [length_nameStore, nameStore]
    omega
  · simp only [pathStores, List.mem_cons, List.not_mem_nil, or_false] at hx
    rcases hx with rfl | rfl
    · simp only [List.length_append, List.length_singleton]
      omega
    · simp only [List.length_singleton]
      omega

/-- INTERNAL: **one entry:** its path is terminated by the padding, or by the last byte of the buffer. -/
theorem terminated_iff (path dir name : Bytes) (stale : UInt8) (h : Holds dir stale path)
    (hname : name.length ≤ NAME_MAX) :
    child dir name ++ [0] <+: strncpy path (dir.length + 1) name ↔ name.length < NAME_MAX ∨ stale = 0 := by
  obtain ⟨rest, hdrop⟩ : ∃ rest, path.drop (lastByte dir) = stale :: rest := by
    obtain ⟨hlt, hget⟩ := List.getElem?_eq_some_iff.mp h.stale
    exact ⟨_, by rw [List.drop_eq_getElem_cons hlt, hget]⟩
  have hbuffer : strncpy path (dir.length + 1) name = child dir name ++
      (List.replicate (NAME_MAX - name.length) 0 ++ stale :: rest) := by
    unfold lastByte at hdrop
    rw [strncpy_eq path dir name h.buffer, hdrop, padded, List.take_of_length_le hname, child]
    simp
  rw [hbuffer, List.prefix_append_right_inj]
  rcases Nat.lt_or_ge name.length NAME_MAX with hlt | hge
  · obtain ⟨k, hk⟩ := Nat.exists_eq_succ_of_ne_zero (Nat.sub_ne_zero_of_lt hlt)
    rw [hk, List.replicate_succ]
    simp [hlt]
  · rw [Nat.sub_eq_zero_of_le hge]
    simp [Nat.not_lt.mpr hge, eq_comm]

/-- INTERNAL: **one call** gets its path when the path is terminated. -/
theorem passesPath_iff (dir path : Bytes) (stale : UInt8) (c : WalkCall W) (h : Holds dir stale path)
    (hbuffer : c.buffer = strncpy path (dir.length + 1) c.name) (hdir : (0 : UInt8) ∉ dir)
    (hzero : (0 : UInt8) ∉ c.name) (hname : c.name.length ≤ NAME_MAX) :
    PassesPath dir c ↔ c.name.length < NAME_MAX ∨ stale = 0 := by
  rw [← terminated_iff path dir c.name stale h hname, ← hbuffer]
  constructor
  · exact PassesPath.terminated
  · intro hterminated
    refine ⟨?_, hterminated, stores_inside dir c.name⟩
    obtain ⟨rest, hrest⟩ := hterminated
    rw [← hrest, List.append_assoc, List.singleton_append, cstr_append,
      cstr_eq_self _ (zero_notMem_child dir c.name hdir hzero)]

/-! ## The loop -/

/-- INTERNAL: **every call** has its name in a buffer with the path of the directory and the last byte that
was there at the start, by induction on the rounds. -/
theorem loopCalls_holds (sys : System W D) (flags : Flags) (here dir : Bytes) (stale : UInt8) (nopenfd : ℤ)
    (last : List Data) (walk : Bytes → ℤ → List Data → State W → Option (ℤ × State W)) (fuel : ℕ) (dh : D)
    (data : Data) (path : Bytes) (s : State W) (h : Holds dir stale path) :
    ∀ c ∈ loopCalls sys flags here (dir.length + 1) nopenfd last walk fuel dh data path s,
      ∃ path', Holds dir stale path' ∧ c.buffer = strncpy path' (dir.length + 1) c.name := by
  induction fuel generalizing dh data path s with
  | zero =>
    intro c hc
    cases hc
  | succ fuel ih =>
    rw [loopCalls]
    rcases sys.readdir dh s.world with ⟨_ | de, dh₁, w⟩
    · intro c hc
      cases hc
    · dsimp only
      by_cases hdots : isDots de.dName = true
      · rw [if_pos hdots]
        exact ih _ _ _ _ h
      · rw [if_neg hdots]
        generalize (if decide (nopenfd ≤ 1) = true then { data with fd := 0 } else data) = data₁
        rw [List.forall_mem_cons]
        refine ⟨⟨path, h, rfl⟩, ?_⟩
        rcases walk (cstr (strncpy path (dir.length + 1) de.dName)) (nopenfd - 1) (data₁ :: last) _ with
          _ | ⟨r, s₂⟩
        · intro c hc
          cases hc
        · dsimp only
          by_cases hr : r = 0
          · rw [if_neg (not_not.mpr hr)]
            by_cases hfd : data₁.fd = 0
            · rw [if_pos hfd]
              rcases openStream sys (if flags.chdir = true then [46] else here) s₂ with ⟨_ | dh₂, s₃⟩
              · intro c hc
                cases hc
              · exact ih _ _ _ _ (h.strncpy de.dName)
            · rw [if_neg hfd]
              exact ih _ _ _ _ (h.strncpy de.dName)
          · rw [if_pos hr]
            intro c hc
            cases hc

/-- The recursive calls for the entries of a directory, where the buffer is allocated on such a stack.
SOURCE: dietlibc-ftw.patch:201-239 -/
def entryCalls (sys : System W D) (flags : Flags) (here dir : Bytes) (nopenfd : ℤ) (last : List Data)
    (walk : Bytes → ℤ → List Data → State W → Option (ℤ × State W)) (fuel : ℕ) (dh : D) (data : Data)
    (stack : Bytes) (s : State W) : List (WalkCall W) :=
  loopCalls sys flags here (dir.length + 1) nopenfd last walk fuel dh data (pathBuffer stack dir) s

/-- **When every call gets the path of its entry.** For every directory, all entries that are met with
names of at most `NAME_MAX` bytes, in every order, and every content of the stack, all calls get the
path of their entry, terminated, and all stores are to the bytes that were allocated if and only if
every name is shorter than `NAME_MAX` or the last byte of the buffer was 0 when it was allocated.
SOURCE: dietlibc-ftw.patch:201-239 -/
theorem entries_pass_paths_iff (sys : System W D) (flags : Flags) (here dir : Bytes) (nopenfd : ℤ)
    (last : List Data) (walk : Bytes → ℤ → List Data → State W → Option (ℤ × State W)) (fuel : ℕ) (dh : D)
    (data : Data) (stack : Bytes) (s : State W) (hdir : (0 : UInt8) ∉ dir)
    (hnames : ∀ c ∈ entryCalls sys flags here dir nopenfd last walk fuel dh data stack s,
      (0 : UInt8) ∉ c.name ∧ c.name.length ≤ NAME_MAX) :
    (∀ c ∈ entryCalls sys flags here dir nopenfd last walk fuel dh data stack s, PassesPath dir c) ↔
      (∀ c ∈ entryCalls sys flags here dir nopenfd last walk fuel dh data stack s, c.name.length < NAME_MAX) ∨
        stack.getD (dir.length + 1 + NAME_MAX) 0 = 0 := by
  have hcall : ∀ c ∈ entryCalls sys flags here dir nopenfd last walk fuel dh data stack s,
      (PassesPath dir c ↔ c.name.length < NAME_MAX ∨ stack.getD (lastByte dir) 0 = 0) := by
    intro c hc
    obtain ⟨path, hholds, hbuffer⟩ := loopCalls_holds sys flags here dir _ nopenfd last walk fuel dh data _ s
      (pathBuffer_holds stack dir) c hc
    obtain ⟨hzero, hlength⟩ := hnames c hc
    exact passesPath_iff dir path _ c hholds hbuffer hdir hzero hlength
  constructor
  · intro hall
    by_cases hstale : stack.getD (lastByte dir) 0 = 0
    · exact Or.inr hstale
    · left
      intro c hc
      exact ((hcall c hc).mp (hall c hc)).resolve_right hstale
  · rintro (hshort | hstale) c hc
    · exact (hcall c hc).mpr (Or.inl (hshort c hc))
    · exact (hcall c hc).mpr (Or.inr hstale)

/-- A name of `NAME_MAX` bytes. -/
def fullName : Bytes := List.replicate NAME_MAX 97

/-- The calls for a directory `s` with an entry of this name and an entry `x`, where no call stops the walk. -/
def sampleCalls (stack : Bytes) : List (WalkCall Unit) :=
  entryCalls (tableSystem (fun _ => .error ENOENT) (fun _ => .error ENOENT) (fun _ => none) stack)
    ⟨true, false, false, false⟩ (ascii ['s']) (ascii ['s']) 20 [] (fun _ _ _ s => some (0, s)) 4
    ([⟨fullName, 1⟩, ⟨ascii ['x'], 2⟩], 0) ⟨⟨1, 1⟩, 3, 0⟩ stack ⟨(), 0, 0, .empty, [], []⟩

/-- INTERNAL: the names of the example are names. -/
theorem sampleCalls_names (stack : Bytes) :
    ∀ c ∈ sampleCalls stack, (0 : UInt8) ∉ c.name ∧ c.name.length ≤ NAME_MAX := by
  have hnames : (sampleCalls stack).map WalkCall.name = [fullName, ascii ['x']] := rfl
  intro c hc
  have hname := List.mem_map_of_mem (f := WalkCall.name) hc
  rw [hnames] at hname
  simp only [List.mem_cons, List.not_mem_nil, or_false] at hname
  rcases hname with hname | hname
  · rw [hname]
    decide +kernel
  · rw [hname]
    decide +kernel

/-- INTERNAL: the first call is for the long name. -/
theorem sampleCalls_head (stack : Bytes) :
    ∃ c ∈ sampleCalls stack, c.name = fullName ∧
      c.buffer = strncpy (pathBuffer stack (ascii ['s'])) ((ascii ['s']).length + 1) fullName := by
  have hdots : isDots fullName = false := rfl
  have hread : ([⟨fullName, 1⟩, ⟨ascii ['x'], 2⟩] : List Dirent)[0]? = some ⟨fullName, 1⟩ := rfl
  unfold sampleCalls entryCalls
  rw [loopCalls]
  simp only [tableSystem, hread, hdots, Bool.false_eq_true, if_false]
  refine ⟨_, List.mem_cons_self, ?_, ?_⟩
  · dsimp only
  · dsimp only

/-- **A name of `NAME_MAX` bytes on a clean stack**, and a short one behind it. -/
theorem entries_pass_paths_sample :
    (∃ c ∈ sampleCalls [], c.name = fullName) ∧ ∀ c ∈ sampleCalls [], PassesPath (ascii ['s']) c := by
  obtain ⟨c, hc, hname, -⟩ := sampleCalls_head []
  refine ⟨⟨c, hc, hname⟩, ?_⟩
  apply (entries_pass_paths_iff _ _ _ (ascii ['s']) _ _ _ _ _ _ [] _ (by decide) (sampleCalls_names [])).mpr
  exact Or.inr rfl

/-- What an earlier call left on the stack: a byte where the buffer ends, and one more. -/
def usedStack : Bytes := List.replicate 257 1 ++ ascii ['/', 'x'] ++ [0]

/-- **A name of `NAME_MAX` bytes on a used stack** is passed with what stands behind the name.
SOURCE: dietlibc-ftw.patch:201-220 -/
theorem full_name_is_not_terminated :
    ∃ c ∈ sampleCalls usedStack, c.name = fullName ∧
      cstr c.buffer = child (ascii ['s']) fullName ++ ascii ['/', 'x'] ∧ ¬ PassesPath (ascii ['s']) c := by
  obtain ⟨c, hc, hname, hbuffer⟩ := sampleCalls_head usedStack
  have hstring : cstr c.buffer = child (ascii ['s']) fullName ++ ascii ['/', 'x'] := by
    rw [hbuffer]
    decide +kernel
  refine ⟨c, hc, hname, hstring, ?_⟩
  intro h
  have hsame := h.string
  rw [hname, hstring] at hsame
  exact absurd (List.append_right_eq_self.mp hsame) (by decide)

end TTLinux.Analysis.FtwPathBuffer
