import TTLinux.Analysis.GpioConfigMode
import TTLinux.Analysis.GpioLineMap

/-!
# The resources of the exported lines

`setup_platform_devs` goes up the lines and fills one array with the inputs and one with the outputs, each with
its own index. The end of an output is stored at the index of the inputs, so it reaches the element it belongs
to only where as many inputs as outputs came before.
-/

set_option autoImplicit false

namespace TTLinux.Analysis.GpioExports

open TTLinux.Lib
open TTLinux.Lib.SuperIo (Byte)
open TTLinux.Model.GpioKernel
open TTLinux.Analysis.GpioLineMap
open TTLinux.Analysis.GpioMinors (mapped mem_mapped vt1211Lines)

/-! ## The stores of the loop -/

/-- The arrays of `setup_platform_devs`.
SOURCE: w83627dhg-generic.patch:808-809; vt1211-generic.patch:593-594 -/
inductive ResourceArray where
  | ires
  | ores
deriving DecidableEq

/-- The fields of `struct resource` that the loop writes. -/
inductive ResourceField where
  | name
  | start
  | stop
  | flags
  | parent
  | sibling
  | child
deriving DecidableEq

/-- A store to a field of an element, made for a line. -/
structure Store where
  array : ResourceArray
  field : ResourceField
  index : ℕ
  line : ℕ
deriving DecidableEq

/-- The lines an array is for. -/
def ResourceArray.direction : ResourceArray → GpioDir
  | .ires => .input
  | .ores => .output

/-- The number of elements of an array. -/
def ResourceArray.size (count : DevCount) : ResourceArray → ℕ
  | .ires => count.input
  | .ores => count.output

/-- The stores for one line, in the order of the source.
SOURCE: w83627dhg-generic.patch:818-838; vt1211-generic.patch:598-617 -/
def lineStores (iomap : ℕ → GpioIomap) (i o m : ℕ) : List Store :=
  match (iomap m).direction with
  | .nc => []
  | .input =>
    [⟨.ires, .name, i, m⟩, ⟨.ires, .stop, i, m⟩, ⟨.ires, .start, i, m⟩, ⟨.ires, .flags, i, m⟩, ⟨.ires, .child, i, m⟩,
      ⟨.ires, .sibling, i, m⟩, ⟨.ires, .parent, i, m⟩]
  | .output =>
    [⟨.ores, .name, o, m⟩, ⟨.ores, .stop, i, m⟩, ⟨.ores, .start, o, m⟩, ⟨.ores, .flags, o, m⟩, ⟨.ores, .child, o, m⟩,
      ⟨.ores, .sibling, o, m⟩, ⟨.ores, .parent, o, m⟩]

/-- The arrays while they are filled, and the stores so far. -/
structure Filling where
  arrays : ResourceArrays
  stores : List Store

/-- One line in the loop. -/
def fill (iomap : ℕ → GpioIomap) (f : Filling) (m : ℕ) : Filling where
  arrays := fillResource iomap f.arrays m
  stores := f.stores ++ lineStores iomap f.arrays.i f.arrays.o m

/-- The loop of `setup_platform_devs` for the lines from `first` on.
SOURCE: w83627dhg-generic.patch:812-840; vt1211-generic.patch:597-618 -/
def filling (stack : ℕ → Resource) (iomap : ℕ → GpioIomap) (first lines : ℕ) : Filling :=
  (List.range' first lines).foldl (fill iomap) ⟨⟨0, 0, stack, stack⟩, []⟩

/-- An array after the loop. -/
def contents (a : ResourceArrays) : ResourceArray → ℕ → Resource
  | .ires => a.ires
  | .ores => a.ores

/-- What a store changes. The fields of the resource tree are set to `NULL` and are not read. -/
def Store.write (iomap : ℕ → GpioIomap) (s : Store) (r : Resource) : Resource :=
  match s.field with
  | .name => { r with name := (iomap s.line).name }
  | .start => { r with start := s.line }
  | .stop => { r with stop := s.line }
  | .flags => { r with flags := 1 }
  | .parent | .sibling | .child => r

def store (iomap : ℕ → GpioIomap) (c : ResourceArray → ℕ → Resource) (s : Store) : ResourceArray → ℕ → Resource :=
  Function.update c s.array (Function.update (c s.array) s.index (s.write iomap (c s.array s.index)))

/-- INTERNAL: the stores of a line are all that it does to the arrays.
SOURCE: w83627dhg-generic.patch:818-838; vt1211-generic.patch:598-617 -/
theorem fillResource_stores (iomap : ℕ → GpioIomap) (a : ResourceArrays) (m : ℕ) :
    contents (fillResource iomap a m) = (lineStores iomap a.i a.o m).foldl (store iomap) (contents a) := by
  funext array
  unfold fillResource lineStores
  cases hdir : (iomap m).direction with
  | nc => rfl
  | input =>
    cases array <;> simp [store, Store.write, contents]
  | output =>
    cases array with
    | ires => simp [store, Store.write, contents]
    | ores =>
      funext j
      by_cases hio : a.i = a.o
      · by_cases hj : j = a.o <;> simp [store, Store.write, contents, hio, hj]
      · by_cases hj : j = a.o
        · simp [store, Store.write, contents, hio, Ne.symm hio, hj]
        · by_cases hend : j = a.i <;> simp [store, Store.write, contents, hio, Ne.symm hio, hj, hend]

/-- INTERNAL: the arrays of the loop are those of `setup_platform_devs`. -/
theorem filling_arrays (stack : ℕ → Resource) (iomap : ℕ → GpioIomap) (first lines : ℕ) :
    (filling stack iomap first lines).arrays =
      (List.range' first lines).foldl (fillResource iomap) ⟨0, 0, stack, stack⟩ := by
  have hfold : ∀ (ms : List ℕ) (f : Filling),
      (ms.foldl (fill iomap) f).arrays = ms.foldl (fillResource iomap) f.arrays := by
    intro ms
    induction ms with
    | nil => exact fun _ => rfl
    | cons m ms ih => exact fun f => ih (fill iomap f m)
  exact hfold _ _

/-- INTERNAL: **the stores of the loop are all that it does to the arrays.**
SOURCE: w83627dhg-generic.patch:812-840; vt1211-generic.patch:597-618 -/
theorem filling_stores (stack : ℕ → Resource) (iomap : ℕ → GpioIomap) (first lines : ℕ) :
    contents (filling stack iomap first lines).arrays =
      (filling stack iomap first lines).stores.foldl (store iomap) fun _ => stack := by
  have hfold : ∀ (ms : List ℕ) (f : Filling), (contents f.arrays = f.stores.foldl (store iomap) fun _ => stack) →
      contents (ms.foldl (fill iomap) f).arrays = (ms.foldl (fill iomap) f).stores.foldl (store iomap) fun _ => stack := by
    intro ms
    induction ms with
    | nil => exact fun _ hf => hf
    | cons m ms ih =>
      intro f hf
      apply ih (fill iomap f m)
      have hline := fillResource_stores iomap f.arrays m
      rw [hf] at hline
      rw [fill, List.foldl_append]
      exact hline
  apply hfold
  funext array
  cases array <;> rfl

/-! ## What the loop has to do -/

/-- The stores to a field of the elements of an array. -/
def storesTo (array : ResourceArray) (field : ResourceField) (stores : List Store) : List Store :=
  stores.filter fun s => s.array = array ∧ s.field = field

/-- The elements of an array that are registered. -/
def resources (stack : ℕ → Resource) (iomap : ℕ → GpioIomap) (count : DevCount) (first lines : ℕ)
    (array : ResourceArray) : List Resource :=
  (List.range (array.size count)).map (contents (filling stack iomap first lines).arrays array)

/-- The arrays are written inside their bounds, each field of each element exactly once and in the order of the
lines; start and end of a resource are the same, and they are the lines with the direction of the array. -/
structure Filled (stack : ℕ → Resource) (iomap : ℕ → GpioIomap) (count : DevCount) (first lines : ℕ) : Prop where
  bounded : ∀ s ∈ (filling stack iomap first lines).stores, s.index < s.array.size count
  once : ∀ array field, (storesTo array field (filling stack iomap first lines).stores).map Store.index =
    List.range (array.size count)
  increasing : ∀ array field,
    ((storesTo array field (filling stack iomap first lines).stores).map Store.line).Pairwise (· < ·)
  ends : ∀ array, ∀ r ∈ resources stack iomap count first lines array, r.start = r.stop
  lines : ∀ array line, line ∈ (resources stack iomap count first lines array).map Resource.start ↔
    (iomap line).direction = array.direction

/-- INTERNAL: `setup_platform_devs` registers these resources.
SOURCE: w83627dhg-generic.patch:842-856; vt1211-generic.patch:620-632 -/
theorem setupPlatformDevs_resources (k : Kernel) (drvname : Name) (stack : ℕ → Resource)
    (iomap : ℕ → GpioIomap) (count : DevCount) (first lines : ℕ) (pdevin : Pdev) (name : Name)
    (registered : List Resource) (granted : Bool)
    (h : .registerDevice name registered granted ∈
      (setupPlatformDevs k drvname first lines stack iomap count pdevin).2.2.2) :
    (name = drvname ++ "-out".toList ∧ registered = resources stack iomap count first lines .ores) ∨
      (name = drvname ++ "-in".toList ∧ registered = resources stack iomap count first lines .ires) := by
  unfold resources contents
  rw [filling_arrays]
  unfold setupPlatformDevs at h
  dsimp only at h
  split_ifs at h
  · simp only [List.mem_cons, KernelCall.registerDevice.injEq, List.not_mem_nil, or_false] at h
    exact Or.inl ⟨h.1, h.2.1⟩
  · simp only [List.mem_cons, KernelCall.registerDevice.injEq, List.not_mem_nil, or_false] at h
    exact h.imp (fun hout => ⟨hout.1, hout.2.1⟩) fun hin => ⟨hin.1, hin.2.1⟩
  · simp only [List.mem_cons, KernelCall.registerDevice.injEq, List.not_mem_nil, or_false] at h
    exact h.imp (fun hout => ⟨hout.1, hout.2.1⟩) fun hin => ⟨hin.1, hin.2.1⟩

/-! ## What the loop does -/

/-- The index of the stores to a field, as the loop goes past a line. -/
def storeIndex (iomap : ℕ → GpioIomap) (array : ResourceArray) (field : ResourceField) (m : ℕ) : ℕ :=
  if array = .ores ∧ field = .stop then countLines iomap .input m else countLines iomap array.direction m

/-- The loop has gone through the lines below this one. -/
structure Passed (iomap : ℕ → GpioIomap) (n : ℕ) (f : Filling) : Prop where
  i : f.arrays.i = countLines iomap .input n
  o : f.arrays.o = countLines iomap .output n
  stores : ∀ array field, storesTo array field f.stores =
    ((List.range n).filter fun m => (iomap m).direction = array.direction).map fun m =>
      ⟨array, field, storeIndex iomap array field m, m⟩
  ires : ∀ m < n, (iomap m).direction = .input →
    f.arrays.ires (countLines iomap .input m) = ⟨(iomap m).name, m, m, 1⟩
  starts : ∀ m < n, (iomap m).direction = .output → (f.arrays.ores (countLines iomap .output m)).start = m

/-- INTERNAL: the stores of one line to a field. -/
theorem storesTo_lineStores (iomap : ℕ → GpioIomap) (m : ℕ) (array : ResourceArray) (field : ResourceField) :
    storesTo array field (lineStores iomap (countLines iomap .input m) (countLines iomap .output m) m) =
      if (iomap m).direction = array.direction then [⟨array, field, storeIndex iomap array field m, m⟩] else [] := by
  unfold lineStores
  cases hdir : (iomap m).direction <;> cases array <;> cases field <;> rfl

/-- INTERNAL: the rank of an earlier line is another one. -/
theorem countLines_ne (iomap : ℕ → GpioIomap) (dir : GpioDir) {m n : ℕ} (hm : m < n)
    (hdir : (iomap m).direction = dir) : countLines iomap dir m ≠ countLines iomap dir n :=
  (Nat.count_strict_mono hdir hm).ne

/-- INTERNAL: one more line.
SOURCE: w83627dhg-generic.patch:818-838; vt1211-generic.patch:598-617 -/
theorem Passed.fill {iomap : ℕ → GpioIomap} {n : ℕ} {f : Filling} (h : Passed iomap n f) :
    Passed iomap (n + 1) (fill iomap f n) := by
  have hcount : ∀ dir, countLines iomap dir (n + 1) =
      countLines iomap dir n + if (iomap n).direction = dir then 1 else 0 := fun dir => Nat.count_succ _ n
  constructor
  · rw [hcount, ← h.i]
    cases hdir : (iomap n).direction <;> simp [TTLinux.Analysis.GpioExports.fill, fillResource, hdir]
  · rw [hcount, ← h.o]
    cases hdir : (iomap n).direction <;> simp [TTLinux.Analysis.GpioExports.fill, fillResource, hdir]
  · intro array field
    have hline := storesTo_lineStores iomap n array field
    have hbefore := h.stores array field
    rw [storesTo] at hline hbefore ⊢
    rw [TTLinux.Analysis.GpioExports.fill, h.i, h.o, List.filter_append, hbefore, hline, List.range_succ,
      List.filter_append, List.map_append]
    by_cases hdir : (iomap n).direction = array.direction <;> simp [hdir]
  · intro m hm hdir
    by_cases hlast : m = n
    · subst hlast
      simp only [TTLinux.Analysis.GpioExports.fill, fillResource, hdir, h.i, Function.update_self]
    · have hold := h.ires m (by omega) hdir
      cases hn : (iomap n).direction with
      | nc | output =>
        simp only [TTLinux.Analysis.GpioExports.fill, fillResource, hn]
        exact hold
      | input =>
        simp only [TTLinux.Analysis.GpioExports.fill, fillResource, hn]
        rw [h.i, Function.update_of_ne (countLines_ne iomap .input (by omega) hdir)]
        exact hold
  · intro m hm hdir
    -- an end stored in the meantime changes no start
    have hend : ∀ j i line, (Function.update f.arrays.ores i { f.arrays.ores i with stop := line } j).start =
        (f.arrays.ores j).start := by
      intro j i line
      by_cases hj : j = i
      · rw [hj, Function.update_self]
      · rw [Function.update_of_ne hj]
    by_cases hlast : m = n
    · subst hlast
      simp only [TTLinux.Analysis.GpioExports.fill, fillResource, hdir, h.o, Function.update_self]
    · have hold := h.starts m (by omega) hdir
      cases hn : (iomap n).direction with
      | nc | input =>
        simp only [TTLinux.Analysis.GpioExports.fill, fillResource, hn]
        exact hold
      | output =>
        simp only [TTLinux.Analysis.GpioExports.fill, fillResource, hn]
        rw [h.o, Function.update_of_ne (countLines_ne iomap .output (by omega) hdir), hend]
        exact hold

/-- INTERNAL: the loop up to a line. -/
theorem passed (stack : ℕ → Resource) (iomap : ℕ → GpioIomap) (n : ℕ) :
    Passed iomap n ((List.range n).foldl (fill iomap) ⟨⟨0, 0, stack, stack⟩, []⟩) := by
  induction n with
  | zero =>
    exact ⟨rfl, rfl, fun _ _ => rfl, fun m hm => absurd hm (Nat.not_lt_zero m), fun m hm => absurd hm (Nat.not_lt_zero m)⟩
  | succ n ih =>
    rw [List.range_succ, List.foldl_append]
    exact ih.fill

/-- INTERNAL: where as many inputs as outputs are below each output, its end is stored at its own index.
SOURCE: w83627dhg-generic.patch:831; vt1211-generic.patch:610 -/
theorem stops (stack : ℕ → Resource) (iomap : ℕ → GpioIomap) (n : ℕ)
    (heven : ∀ m < n, (iomap m).direction = .output → countLines iomap .input m = countLines iomap .output m) :
    ∀ m < n, (iomap m).direction = .output →
      (((List.range n).foldl (fill iomap) ⟨⟨0, 0, stack, stack⟩, []⟩).arrays.ores (countLines iomap .output m)).stop =
        m := by
  induction n with
  | zero => exact fun m hm => absurd hm (Nat.not_lt_zero m)
  | succ n ih =>
    intro m hm hdir
    have hpassed := passed stack iomap n
    have hbefore := ih fun k hk => heven k (by omega)
    rw [List.range_succ, List.foldl_append, List.foldl_cons, List.foldl_nil]
    generalize (List.range n).foldl (fill iomap) ⟨⟨0, 0, stack, stack⟩, []⟩ = f at hpassed hbefore ⊢
    by_cases hlast : m = n
    · subst hlast
      simp only [TTLinux.Analysis.GpioExports.fill, fillResource, hdir, hpassed.o, hpassed.i, heven m hm hdir,
        Function.update_self]
    · have hold := hbefore m (by omega) hdir
      cases hn : (iomap n).direction with
      | nc | input =>
        simp only [TTLinux.Analysis.GpioExports.fill, fillResource, hn]
        exact hold
      | output =>
        have hne := countLines_ne iomap .output (m := m) (n := n) (by omega) hdir
        simp only [TTLinux.Analysis.GpioExports.fill, fillResource, hn]
        rw [hpassed.o, hpassed.i, heven n (by omega) hn, Function.update_of_ne hne, Function.update_of_ne hne]
        exact hold

/-- INTERNAL: the lines in front of the first one change nothing. -/
theorem filling_eq_range (stack : ℕ → Resource) (iomap : ℕ → GpioIomap) (first lines : ℕ)
    (hnc : ∀ m < first, (iomap m).direction = .nc) :
    filling stack iomap first lines = (List.range (first + lines)).foldl (fill iomap) ⟨⟨0, 0, stack, stack⟩, []⟩ := by
  have hskip : ∀ (ms : List ℕ) (f : Filling), (∀ m ∈ ms, (iomap m).direction = .nc) → ms.foldl (fill iomap) f = f := by
    intro ms f hms
    induction ms with
    | nil => rfl
    | cons m ms ih =>
      have hm := hms m List.mem_cons_self
      have hfill : fill iomap f m = f := by simp [fill, fillResource, lineStores, hm]
      rw [List.foldl_cons, hfill]
      exact ih fun k hk => hms k (List.mem_cons_of_mem _ hk)
  have hsplit : List.range (first + lines) = List.range first ++ List.range' first lines := by
    have happend := @List.range'_append_1 0 first lines
    rw [Nat.zero_add] at happend
    rw [List.range_eq_range', List.range_eq_range', happend]
  rw [hsplit, List.foldl_append, hskip _ _ fun m hm => hnc m (List.mem_range.mp hm)]
  rfl

/-- INTERNAL: **what the loop does** when the counters are right and no other line is connected: it fills the
arrays if and only if below each output there are as many inputs as outputs.
SOURCE: w83627dhg-generic.patch:805-862; vt1211-generic.patch:590-638 -/
theorem filled_iff (stack : ℕ → Resource) (iomap : ℕ → GpioIomap) (count : DevCount) (first lines : ℕ)
    (hlines : ∀ m, (iomap m).direction ≠ .nc → first ≤ m ∧ m < first + lines)
    (hinput : count.input = countLines iomap .input (first + lines))
    (houtput : count.output = countLines iomap .output (first + lines)) :
    Filled stack iomap count first lines ↔
      ∀ m, (iomap m).direction = .output → countLines iomap .input m = countLines iomap .output m := by
  have hnc : ∀ m < first, (iomap m).direction = .nc := by
    intro m hm
    by_contra hne
    have := (hlines m hne).1
    omega
  have hsize : ∀ array : ResourceArray, array.size count = countLines iomap array.direction (first + lines) := by
    intro array
    cases array
    · exact hinput
    · exact houtput
  have hbound : ∀ m (array : ResourceArray), (iomap m).direction = array.direction → m < first + lines := by
    intro m array hdir
    apply (hlines m _).2
    rw [hdir]
    cases array <;> decide
  have hfilling := filling_eq_range stack iomap first lines hnc
  have hpassed := passed stack iomap (first + lines)
  have hstops := stops stack iomap (first + lines)
  rw [← hfilling] at hpassed hstops
  constructor
  · intro hfilled m hout
    have honce := hfilled.once .ores .stop
    rw [hpassed.stores, List.map_map, hsize] at honce
    exact (Ranks.map_eq_range_iff _ _ _).mp honce m (hbound m .ores hout) hout
  · intro heven
    have hindex : ∀ array field m, (iomap m).direction = array.direction →
        storeIndex iomap array field m = countLines iomap array.direction m := by
      intro array field m hdir
      unfold storeIndex
      split_ifs with hstop
      · rw [hstop.1] at hdir ⊢
        exact heven m hdir
      · rfl
    have honce : ∀ array field, (storesTo array field (filling stack iomap first lines).stores).map Store.index =
        List.range (array.size count) := by
      intro array field
      rw [hpassed.stores, List.map_map, hsize]
      exact (Ranks.map_eq_range_iff _ _ _).mpr fun m _ hdir => hindex array field m hdir
    -- an element of an array is that of a line with the direction of the array
    have helement : ∀ array j, j < array.size count → ∃ m, (iomap m).direction = array.direction ∧
        countLines iomap array.direction m = j ∧
        (contents (filling stack iomap first lines).arrays array j).start = m ∧
        (contents (filling stack iomap first lines).arrays array j).stop = m := by
      intro array j hj
      rw [hsize] at hj
      obtain ⟨m, hm, hdir, hrank⟩ := Ranks.exists_rank _ hj
      refine ⟨m, hdir, hrank, ?_⟩
      rw [← hrank]
      cases array with
      | ires =>
        have hires := hpassed.ires m hm hdir
        exact ⟨congrArg Resource.start hires, congrArg Resource.stop hires⟩
      | ores => exact ⟨hpassed.starts m hm hdir, hstops (fun k _ => heven k) m hm hdir⟩
    constructor
    · intro s hs
      have hmem : s.index ∈ (storesTo s.array s.field (filling stack iomap first lines).stores).map Store.index :=
        List.mem_map_of_mem (List.mem_filter.mpr ⟨hs, by simp⟩)
      rw [honce] at hmem
      exact List.mem_range.mp hmem
    · exact honce
    · intro array field
      rw [hpassed.stores, List.map_map]
      have hid : (Store.line ∘ fun m => ⟨array, field, storeIndex iomap array field m, m⟩) = id := rfl
      rw [hid, List.map_id]
      exact List.pairwise_lt_range.filter _
    · intro array r hr
      obtain ⟨j, hj, rfl⟩ := List.mem_map.mp hr
      obtain ⟨m, -, -, hstart, hstop⟩ := helement array j (List.mem_range.mp hj)
      rw [hstart, hstop]
    · intro array line
      rw [List.mem_map]
      constructor
      · rintro ⟨r, hr, rfl⟩
        obtain ⟨j, hj, rfl⟩ := List.mem_map.mp hr
        obtain ⟨m, hdir, -, hstart, -⟩ := helement array j (List.mem_range.mp hj)
        rwa [hstart]
      · intro hdir
        have hj : countLines iomap array.direction line < array.size count := by
          rw [hsize]
          exact Nat.count_strict_mono hdir (hbound line array hdir)
        obtain ⟨m, hm, hrank, hstart, -⟩ := helement array _ hj
        refine ⟨_, List.mem_map_of_mem (List.mem_range.mpr hj), ?_⟩
        rw [hstart]
        exact Nat.count_injective hm hdir hrank

/-! ## The maps of the drivers -/

/-- The direction of a line, as the masks say it: a line of a port that is not enabled is not connected. -/
def maskDirection (width : ℕ → ℕ) (portmask : Byte) (outmask : ℕ → Byte) (line : ℕ) : GpioDir :=
  if portmask.getLsbD (line / 8) = true ∧ line % 8 < width (line / 8) then
    lineDirection (outmask (line / 8)) (line % 8)
  else .nc

/-- Below each output there are as many inputs as outputs: the outputs are the first, the third, the fifth line of
those that are connected, and so on. -/
def Alternating (direction : ℕ → GpioDir) : Prop :=
  ∀ line, direction line = .output →
    Nat.count (fun m => direction m = .input) line = Nat.count (fun m => direction m = .output) line

/-- Only the ports of a mask have lines. -/
theorem alternating_iff (width : ℕ → ℕ) (portmask : Byte) (outmask : ℕ → Byte) :
    Alternating (maskDirection width portmask outmask) ↔
      ∀ line ∈ (List.range 64).filter fun line => maskDirection width portmask outmask line = .output,
        Nat.count (fun m => maskDirection width portmask outmask m = .input) line =
          Nat.count (fun m => maskDirection width portmask outmask m = .output) line := by
  constructor
  · intro h line hline
    exact h line (of_decide_eq_true (List.mem_filter.mp hline).2)
  · intro h line hline
    apply h line
    have hlt : line < 64 := by
      by_contra hlt
      have hclear : portmask.getLsbD (line / 8) = false := BitVec.getLsbD_of_ge _ _ (by omega)
      rw [maskDirection, if_neg (by simp [hclear])] at hline
      cases hline
    exact List.mem_filter.mpr ⟨List.mem_range.mpr hlt, decide_eq_true hline⟩

instance (width : ℕ → ℕ) (portmask : Byte) (outmask : ℕ → Byte) :
    Decidable (Alternating (maskDirection width portmask outmask)) :=
  decidable_of_iff _ (alternating_iff width portmask outmask).symm

/-- The map of an initialization of the W83627DHG, and what it counts.
SOURCE: w83627dhg-generic.patch:867-869, 921-941 -/
def w83627dhgMap (v : TTLinux.Model.W83627dhg.Vars) : TTLinux.Model.W83627dhg.Vars × DevCount :=
  TTLinux.Model.W83627dhg.mapLines { v with portmask := v.portmask &&& 0x7E#8 }

/-- The map of an initialization of the VT1211, and what it counts.
SOURCE: vt1211-generic.patch:645-647, 726-742 -/
def vt1211Map (v : TTLinux.Model.Vt1211.Vars) : TTLinux.Model.Vt1211.Vars × DevCount :=
  TTLinux.Model.Vt1211.mapLines { v with portmask := v.portmask &&& 0x7F#8 }

/-- INTERNAL: the loop with a map that follows the masks.
SOURCE: w83627dhg-generic.patch:805-862; vt1211-generic.patch:590-638 -/
theorem filled_iff_alternating (stack : ℕ → Resource) (width : ℕ → ℕ) (portmask : Byte) (outmask : ℕ → Byte)
    (ports : List ℕ) (iomap : ℕ → GpioIomap) (count : DevCount) (first lines : ℕ)
    (hmap : LineMap width outmask ports iomap count)
    (hports : ∀ pn, pn ∈ ports ↔ portmask.getLsbD pn = true)
    (hrange : ∀ pn ∈ ports, first ≤ pn * 8 ∧ pn * 8 + 8 ≤ first + lines) :
    Filled stack iomap count first lines ↔ Alternating (maskDirection width portmask outmask) := by
  have hdir : ∀ line, (iomap line).direction = maskDirection width portmask outmask line := by
    intro line
    rw [hmap.direction, maskDirection]
    simp only [hports]
  obtain ⟨hinput, houtput⟩ := hmap.counted (first + lines) fun pn hpn => (hrange pn hpn).2
  rw [filled_iff stack iomap count first lines _ hinput houtput]
  · unfold Alternating countLines
    simp only [hdir]
  · intro m hm
    have hmem : m / 8 ∈ ports := by
      by_contra hnone
      rw [hmap.direction, if_neg fun hboth => hnone hboth.1] at hm
      exact hm rfl
    have := hrange _ hmem
    omega

/-- INTERNAL: index 6 is the first port only if it is the only one.
SOURCE: w83627dhg-generic.patch:867-882, 924-927 -/
theorem w83627dhg_first_six (portmask : Byte) (hmask : portmask &&& 0x7E#8 ≠ 0)
    (hsix : firstPort (portmask &&& 0x7E#8) 6 6 1 = 6) : portmask &&& 0x7E#8 = 0x40#8 := by
  obtain ⟨-, -, hbit, hleast⟩ := GpioMinors.w83627dhg_first portmask hmask
  apply BitVec.eq_of_getLsbD_eq
  intro i hi
  have hcase : ∀ j < 8, (0x40#8).getLsbD j = decide (j = 6) := by decide
  rw [hcase i hi]
  apply Bool.eq_iff_iff.mpr
  rw [decide_eq_true_iff]
  constructor
  · intro hen
    have := hleast i hen
    omega
  · rintro rfl
    exact hsix ▸ hbit

/-- INTERNAL: the ports of the W83627DHG, unless index 6 is the only one.
SOURCE: w83627dhg-generic.patch:921-941 -/
theorem mem_w83627dhg_mapped (portmask : Byte) (hmask : portmask &&& 0x7E#8 ≠ 0) (hsix : portmask &&& 0x7E#8 ≠ 0x40#8)
    (pn : ℕ) :
    pn ∈ mapped (portmask &&& 0x7E#8) (firstPort (portmask &&& 0x7E#8) 6 6 1)
        (5 - firstPort (portmask &&& 0x7E#8) 6 6 1) ↔ (portmask &&& 0x3E#8).getLsbD pn = true := by
  have hfirst : firstPort (portmask &&& 0x7E#8) 6 6 1 ≠ 6 := fun h => hsix (w83627dhg_first_six portmask hmask h)
  obtain ⟨-, hhi, hbit, hleast⟩ := GpioMinors.w83627dhg_first portmask hmask
  have hmasks : (portmask &&& 0x3E#8).getLsbD pn = true ↔ (portmask &&& 0x7E#8).getLsbD pn = true ∧ pn ≤ 5 := by
    rw [BitVec.getLsbD_and, BitVec.getLsbD_and, Bool.and_eq_true, Bool.and_eq_true]
    have hbits : ∀ j < 8, (0x3E#8).getLsbD j = true ↔ (0x7E#8).getLsbD j = true ∧ j ≤ 5 := by decide
    constructor
    · rintro ⟨hp, hm⟩
      have := (hbits pn (BitVec.lt_of_getLsbD hm)).mp hm
      exact ⟨⟨hp, this.1⟩, this.2⟩
    · rintro ⟨⟨hp, hm⟩, hle⟩
      exact ⟨hp, (hbits pn (BitVec.lt_of_getLsbD hm)).mpr ⟨hm, hle⟩⟩
  rw [mem_mapped, hmasks]
  constructor
  · rintro (rfl | ⟨hlt, hle, hen⟩)
    · exact ⟨hbit, by omega⟩
    · exact ⟨hen, by omega⟩
  · rintro ⟨hen, hle⟩
    have := (hleast pn hen).1
    by_cases heq : pn = firstPort (portmask &&& 0x7E#8) 6 6 1
    · exact Or.inl heq
    · exact Or.inr ⟨by omega, by omega, hen⟩

/-- INTERNAL: a line is connected, but none of those the loop goes through. -/
theorem not_filled_outside (stack : ℕ → Resource) (iomap : ℕ → GpioIomap) (count : DevCount) (first lines : ℕ)
    (hnc : ∀ m < first + lines, (iomap m).direction = .nc) (line : ℕ) (array : ResourceArray)
    (hline : (iomap line).direction = array.direction) : ¬Filled stack iomap count first lines := by
  intro hfilled
  have hpassed := passed stack iomap (first + lines)
  rw [← filling_eq_range stack iomap first lines fun m hm => hnc m (by omega)] at hpassed
  have hconnected : GpioDir.nc ≠ array.direction := by cases array <;> decide
  have hnone : ((List.range (first + lines)).filter fun m => (iomap m).direction = array.direction) = [] := by
    apply List.filter_eq_nil_iff.mpr
    intro m hm
    rw [hnc m (List.mem_range.mp hm), decide_eq_true_iff]
    exact hconnected
  have honce := hfilled.once array .start
  rw [hpassed.stores, hnone, List.map_nil, List.map_nil] at honce
  have hmem := (hfilled.lines array line).mpr hline
  rw [resources, ← honce] at hmem
  exact List.not_mem_nil hmem

/-- INTERNAL: index 6 alone has eight lines, and none of them is among the lines of the loop.
SOURCE: w83627dhg-generic.patch:816, 921-941 -/
theorem not_filled_six (stack : ℕ → Resource) (v : TTLinux.Model.W83627dhg.Vars)
    (hnc : ∀ line, (v.iomap line).direction = .nc) (hsix : v.portmask &&& 0x7E#8 = 0x40#8) :
    ¬Filled stack (w83627dhgMap v).1.iomap (w83627dhgMap v).2 8 TTLinux.Model.W83627dhg.GPIO_MAX := by
  have hmap := (w83627dhg_lineMap { v with portmask := v.portmask &&& 0x7E#8 } hnc).direction
  have hports : mapped (v.portmask &&& 0x7E#8) (firstPort (v.portmask &&& 0x7E#8) 6 6 1)
      (5 - firstPort (v.portmask &&& 0x7E#8) 6 6 1) = [6] := by
    rw [hsix]
    decide
  rw [hports] at hmap
  have hnone : ∀ m < 8 + TTLinux.Model.W83627dhg.GPIO_MAX, ((w83627dhgMap v).1.iomap m).direction = .nc := by
    intro m hm
    rw [TTLinux.Model.W83627dhg.GPIO_MAX] at hm
    apply (hmap m).trans
    apply if_neg
    rw [List.mem_singleton]
    omega
  have hline : ((w83627dhgMap v).1.iomap 48).direction = lineDirection (v.outmask 6) 0 :=
    (hmap 48).trans (if_pos ⟨List.mem_cons_self, by decide⟩)
  by_cases hout : (v.outmask 6).getLsbD 0 = true
  · rw [lineDirection, if_pos hout] at hline
    exact not_filled_outside stack _ _ _ _ hnone 48 .ores hline
  · rw [lineDirection, if_neg hout] at hline
    exact not_filled_outside stack _ _ _ _ hnone 48 .ires hline

/-- INTERNAL: the W83627DHG.
SOURCE: w83627dhg-generic.patch:764-862 -/
theorem w83627dhg_filled_iff (stack : ℕ → Resource) (v : TTLinux.Model.W83627dhg.Vars)
    (hmask : v.portmask &&& 0x7E#8 ≠ 0) (hnc : ∀ line, (v.iomap line).direction = .nc) :
    Filled stack (w83627dhgMap v).1.iomap (w83627dhgMap v).2 8 TTLinux.Model.W83627dhg.GPIO_MAX ↔
      v.portmask &&& 0x7E#8 ≠ 0x40#8 ∧
        Alternating (maskDirection (fun _ => 8) (v.portmask &&& 0x3E#8) v.outmask) := by
  by_cases hsix : v.portmask &&& 0x7E#8 = 0x40#8
  · exact iff_of_false (not_filled_six stack v hnc hsix) fun h => h.1 hsix
  · have hports := mem_w83627dhg_mapped v.portmask hmask hsix
    have hbits : ∀ j < 8, (0x3E#8).getLsbD j = true → 1 ≤ j ∧ j ≤ 5 := by decide
    rw [and_iff_right hsix]
    apply filled_iff_alternating stack (fun _ => 8) _ _ _ _ _ _ _
      (w83627dhg_lineMap { v with portmask := v.portmask &&& 0x7E#8 } hnc) hports
    intro pn hpn
    have hen := (hports pn).mp hpn
    rw [BitVec.getLsbD_and, Bool.and_eq_true] at hen
    have := hbits pn (BitVec.lt_of_getLsbD hen.2) hen.2
    rw [TTLinux.Model.W83627dhg.GPIO_MAX]
    omega

/-- INTERNAL: the ports of the VT1211.
SOURCE: vt1211-generic.patch:645-661, 726-740 -/
theorem vt1211_ports (portmask : Byte) (hmask : portmask &&& 0x7F#8 ≠ 0) :
    (∀ pn, pn ∈ mapped (portmask &&& 0x7F#8) (firstPort (portmask &&& 0x7F#8) 7 7 0)
        (7 - firstPort (portmask &&& 0x7F#8) 7 7 0) ↔ (portmask &&& 0x7F#8).getLsbD pn = true) ∧
      ∀ pn, (portmask &&& 0x7F#8).getLsbD pn = true → pn ≤ 6 := by
  have hlast : ∀ pn, (portmask &&& 0x7F#8).getLsbD pn = true → pn ≤ 6 := by
    intro pn hpn
    rw [BitVec.getLsbD_and, Bool.and_eq_true] at hpn
    have hseven : ∀ j < 8, (0x7F#8).getLsbD j = true → j ≤ 6 := by decide
    exact hseven pn (BitVec.lt_of_getLsbD hpn.2) hpn.2
  obtain ⟨-, -, hskip, hfound⟩ := GpioMinors.firstPort_spec (portmask &&& 0x7F#8) 7 7 0 (by decide) (by decide)
  have hfirst : ∀ pn, (portmask &&& 0x7F#8).getLsbD pn = true → firstPort (portmask &&& 0x7F#8) 7 7 0 ≤ pn := by
    intro pn hpn
    by_contra hlt
    rw [hskip pn (Nat.zero_le pn) (by omega)] at hpn
    cases hpn
  obtain ⟨i, hi⟩ := GpioMinors.exists_enabled _ hmask
  have hbit := hfound ((hfirst i hi).trans_lt ((hlast i hi).trans_lt (by decide)))
  refine ⟨GpioMinors.mem_mapped_iff _ _ _ hbit ?_, hlast⟩
  intro pn hpn
  have := hfirst pn hpn
  have := hlast pn hpn
  omega

/-- INTERNAL: the VT1211.
SOURCE: vt1211-generic.patch:543-638 -/
theorem vt1211_filled_iff (stack : ℕ → Resource) (v : TTLinux.Model.Vt1211.Vars)
    (hmask : v.portmask &&& 0x7F#8 ≠ 0) (hnc : ∀ line, (v.iomap line).direction = .nc) :
    Filled stack (vt1211Map v).1.iomap (vt1211Map v).2 0 TTLinux.Model.Vt1211.GPIO_MAX ↔
      Alternating (maskDirection vt1211Lines (v.portmask &&& 0x7F#8) v.outmask) := by
  obtain ⟨hports, hlast⟩ := vt1211_ports v.portmask hmask
  apply filled_iff_alternating stack vt1211Lines _ _ _ _ _ _ _
    (vt1211_lineMap { v with portmask := v.portmask &&& 0x7F#8 } hnc) hports
  intro pn hpn
  have := hlast pn ((hports pn).mp hpn)
  rw [TTLinux.Model.Vt1211.GPIO_MAX]
  omega

/-! ## The resources of both drivers -/

/-- **The resources of the exported lines.** The arrays are filled if and only if the outputs alternate with
inputs from the first line on, and for the W83627DHG index 6 is not the only port.
SOURCE: w83627dhg-generic.patch:764-862; vt1211-generic.patch:543-638 -/
theorem resources_filled_iff (stack : ℕ → Resource) (w : TTLinux.Model.W83627dhg.Vars)
    (v : TTLinux.Model.Vt1211.Vars) (hwmask : w.portmask &&& 0x7E#8 ≠ 0)
    (hwnc : ∀ line, (w.iomap line).direction = .nc) (hvmask : v.portmask &&& 0x7F#8 ≠ 0)
    (hvnc : ∀ line, (v.iomap line).direction = .nc) :
    (Filled stack (w83627dhgMap w).1.iomap (w83627dhgMap w).2 8 TTLinux.Model.W83627dhg.GPIO_MAX ↔
      w.portmask &&& 0x7E#8 ≠ 0x40#8 ∧
        Alternating (maskDirection (fun _ => 8) (w.portmask &&& 0x3E#8) w.outmask)) ∧
    (Filled stack (vt1211Map v).1.iomap (vt1211Map v).2 0 TTLinux.Model.Vt1211.GPIO_MAX ↔
      Alternating (maskDirection vt1211Lines (v.portmask &&& 0x7F#8) v.outmask)) :=
  ⟨w83627dhg_filled_iff stack w hwmask hwnc, vt1211_filled_iff stack v hvmask hvnc⟩

/-- Port 2 of the W83627DHG and port 1 of the VT1211 with these outputs, and an empty stack. -/
def port2 (outmask : Byte) : TTLinux.Model.W83627dhg.Vars :=
  { (GpioMinors.w83627dhgLoaded 0x02#8).vars with outmask := fun _ => outmask }

def port1 (outmask : Byte) : TTLinux.Model.Vt1211.Vars :=
  { (GpioMinors.vt1211Loaded 0x01#8).vars with outmask := fun _ => outmask }

def emptyStack (_ : ℕ) : Resource := ⟨[], 0, 0, 0⟩

/-- The first and the third line are outputs. -/
theorem resources_filled_iff_alternate :
    Filled emptyStack (w83627dhgMap (port2 0x05#8)).1.iomap (w83627dhgMap (port2 0x05#8)).2 8
        TTLinux.Model.W83627dhg.GPIO_MAX ∧
      Filled emptyStack (vt1211Map (port1 0x05#8)).1.iomap (vt1211Map (port1 0x05#8)).2 0
        TTLinux.Model.Vt1211.GPIO_MAX := by
  have hboth := resources_filled_iff emptyStack (port2 0x05#8) (port1 0x05#8) (by decide) (fun _ => rfl) (by decide)
    (fun _ => rfl)
  exact ⟨hboth.1.mpr (by decide +kernel), hboth.2.mpr (by decide +kernel)⟩

/-- **The second line of a port is its only output:** one resource is counted, its end is stored past the array,
and the resource that is registered ends at what was on the stack.
SOURCE: w83627dhg-generic.patch:831; vt1211-generic.patch:610 -/
theorem second_line_ends_outside :
    (⟨.ores, .stop, 1, 9⟩ ∈
        (filling emptyStack (w83627dhgMap (port2 0x02#8)).1.iomap 8 TTLinux.Model.W83627dhg.GPIO_MAX).stores ∧
      (w83627dhgMap (port2 0x02#8)).2.output = 1 ∧
      resources emptyStack (w83627dhgMap (port2 0x02#8)).1.iomap (w83627dhgMap (port2 0x02#8)).2 8
        TTLinux.Model.W83627dhg.GPIO_MAX .ores = [⟨"unlock".toList, 9, 0, 1⟩] ∧
      ¬Filled emptyStack (w83627dhgMap (port2 0x02#8)).1.iomap (w83627dhgMap (port2 0x02#8)).2 8
        TTLinux.Model.W83627dhg.GPIO_MAX) ∧
    (⟨.ores, .stop, 1, 1⟩ ∈
        (filling emptyStack (vt1211Map (port1 0x02#8)).1.iomap 0 TTLinux.Model.Vt1211.GPIO_MAX).stores ∧
      (vt1211Map (port1 0x02#8)).2.output = 1 ∧
      resources emptyStack (vt1211Map (port1 0x02#8)).1.iomap (vt1211Map (port1 0x02#8)).2 0
        TTLinux.Model.Vt1211.GPIO_MAX .ores = [⟨"unlock".toList, 1, 0, 1⟩] ∧
      ¬Filled emptyStack (vt1211Map (port1 0x02#8)).1.iomap (vt1211Map (port1 0x02#8)).2 0
        TTLinux.Model.Vt1211.GPIO_MAX) := by
  have hw : ⟨.ores, .stop, 1, 9⟩ ∈
      (filling emptyStack (w83627dhgMap (port2 0x02#8)).1.iomap 8 TTLinux.Model.W83627dhg.GPIO_MAX).stores := by
    decide +kernel
  have hv : ⟨.ores, .stop, 1, 1⟩ ∈
      (filling emptyStack (vt1211Map (port1 0x02#8)).1.iomap 0 TTLinux.Model.Vt1211.GPIO_MAX).stores := by
    decide +kernel
  refine ⟨⟨hw, by decide +kernel, by decide +kernel, ?_⟩, hv, by decide +kernel, by decide +kernel, ?_⟩
  · intro hfilled
    exact absurd (hfilled.bounded _ hw) (by decide +kernel)
  · intro hfilled
    exact absurd (hfilled.bounded _ hv) (by decide +kernel)

end TTLinux.Analysis.GpioExports
