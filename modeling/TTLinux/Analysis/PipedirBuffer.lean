import Mathlib.Tactic.SplitIfs
import TTLinux.Model.Pipedir

/-!
# The buffer of `buildpipedir`

What the call builds is read off the buffer once the newline is cut; whether the byte that is
looked at for it lies in the buffer depends on the length alone.
-/

set_option autoImplicit false

namespace TTLinux.Analysis.PipedirBuffer

open TTLinux.Lib TTLinux.Model.Pipedir

/-- The text that the buffer is to hold: the content of the file, or `MINITROOT`. -/
def held (e : Environment) : Bytes := e.file.getD MINITROOT

/-- A text without one newline at its end. -/
def withoutNewline (text : Bytes) : Bytes :=
  if text.getLast? = some newline then text.dropLast else text

/-- The directory of the pipes. -/
def directory (e : Environment) : Bytes :=
  match e.file with
  | some content => withoutNewline content
  | none => MINITROOT

/-- Both paths are in the directory, and all accesses are to the buffer that holds it. -/
def BuildsPaths (e : Environment) (r : Result) : Prop :=
  r.inPath = some (directory e ++ ascii "/in".toList) ∧ r.outPath = some (directory e ++ ascii "/out".toList) ∧
    ∀ i ∈ r.accesses, 0 ≤ i ∧ i < (held e ++ [0]).length

/-- INTERNAL: a string ends in its buffer. -/
theorem stringAccesses_bounds (buf : Bytes) (h0 : (0 : UInt8) ∈ buf) :
    ∀ i ∈ stringAccesses buf, 0 ≤ i ∧ i < buf.length := by
  intro i hi
  obtain ⟨k, hk, rfl⟩ := List.mem_map.mp hi
  have hk := List.mem_range.mp hk
  have hle : (cstr buf).length < buf.length := by
    by_contra hge
    have hall : cstr buf = buf := (List.takeWhile_prefix _).eq_of_length_le (by rw [cstr] at hge; omega)
    have hzero := zero_notMem_cstr buf
    rw [hall] at hzero
    exact hzero h0
  omega

/-- INTERNAL: the last byte is cut off if it is a newline. -/
theorem withoutNewline_concat (front : Bytes) (b : UInt8) :
    withoutNewline (front ++ [b]) = if b = newline then front else front ++ [b] := by
  simp [withoutNewline]

/-- INTERNAL: what is looked at in a buffer with a byte before its terminator is that byte. -/
theorem peek_concat (around : ℤ → UInt8) (front : Bytes) (b : UInt8) :
    peek (front ++ [b] ++ [0]) around front.length = b := by
  rw [peek, if_pos (by simp only [List.length_append, List.length_singleton]; omega)]
  simp

/-- INTERNAL: a zero byte over the last one. -/
theorem poke_concat (front : Bytes) (b : UInt8) : poke (front ++ [b] ++ [0]) front.length 0 = front ++ [0, 0] := by
  rw [poke, if_pos (by simp only [List.length_append, List.length_singleton]; omega)]
  simp

/-- INTERNAL: **a file with a byte in it:** the newline is cut from the buffer, and the accesses are to
the byte before the terminator.
SOURCE: minit-0.10-roswitch.patch:105-106 -/
theorem cutNewline_content (around : ℤ → UInt8) (content : Bytes) (hne : content ≠ []) :
    ∃ zeros accesses, cutNewline around (some (content ++ [0])) content.length =
        (some (withoutNewline content ++ 0 :: zeros), accesses) ∧
      (withoutNewline content ++ 0 :: zeros).length = content.length + 1 ∧
      ∀ i ∈ accesses, i = (content.length : ℤ) - 1 := by
  obtain ⟨front, b, rfl⟩ : ∃ front b, content = front ++ [b] :=
    ⟨_, _, (List.dropLast_append_getLast hne).symm⟩
  have hlast : ((front ++ [b]).length : ℤ) - 1 = front.length := by
    rw [List.length_append, List.length_singleton]
    omega
  have hpeek := peek_concat around front b
  rw [cutNewline, hlast, withoutNewline_concat]
  simp only [hpeek, poke_concat]
  split_ifs with hb
  · exact ⟨[0], [front.length, front.length], rfl, by simp, by simp⟩
  · exact ⟨[], [(front.length : ℤ)], rfl, by simp, by simp⟩

/-- INTERNAL: a length of 0 leads to the byte before the buffer. -/
theorem cutNewline_zero (around : ℤ → UInt8) (buf : Bytes) :
    -1 ∈ (cutNewline around (some buf) 0).2 := by
  rw [cutNewline]
  split_ifs <;> simp

/-- INTERNAL: accesses of the parts of a call. -/
theorem mem_accesses (e : Environment) (i : ℤ) :
    i ∈ (buildpipedir true true e).accesses ↔
      i ∈ (cutNewline e.around (readPipedir e).1 (readPipedir e).2).2 ∨
        i ∈ (_buildpipedir (cutNewline e.around (readPipedir e).1 (readPipedir e).2).1 (ascii "in".toList)
          e.mallocIn).2 ∨
        i ∈ (_buildpipedir (cutNewline e.around (readPipedir e).1 (readPipedir e).2).1 (ascii "out".toList)
          e.mallocOut).2 := by
  simp [buildpipedir]

/-- INTERNAL: the part of a call that builds one path. -/
theorem buildpipedir_path (path fn : Bytes) (h0 : (0 : UInt8) ∈ path) (malloc : Bool) :
    (_buildpipedir (some path) fn malloc).1 = (if malloc then some (cstr path ++ ascii ['/'] ++ fn) else none) ∧
      ∀ i ∈ (_buildpipedir (some path) fn malloc).2, 0 ≤ i ∧ i < path.length := by
  have hbounds := stringAccesses_bounds path h0
  cases malloc with
  | false => exact ⟨rfl, hbounds⟩
  | true =>
    refine ⟨rfl, ?_⟩
    intro i hi
    rcases List.mem_append.mp hi with hi | hi
    · exact hbounds i hi
    · exact hbounds i hi

/-- INTERNAL: a path is in the directory when the string in the buffer is the directory. -/
theorem path_eq_iff (malloc : Bool) (buf dir : Bytes) (fn : List Char) :
    (if malloc then some (cstr buf ++ ascii ['/'] ++ ascii fn) else none) = some (dir ++ ascii ('/' :: fn)) ↔
      malloc = true ∧ cstr buf = dir := by
  have hname : ascii ('/' :: fn) = ascii ['/'] ++ ascii fn := rfl
  cases malloc with
  | false => simp
  | true => simp [hname]

/-- INTERNAL: a text without its newline has no NUL when the text has none. -/
theorem zero_mem_withoutNewline (content : Bytes) : (0 : UInt8) ∈ withoutNewline content ↔ (0 : UInt8) ∈ content := by
  by_cases hne : content = []
  · rw [hne]
    rfl
  · obtain ⟨front, b, rfl⟩ : ∃ front b, content = front ++ [b] :=
      ⟨_, _, (List.dropLast_append_getLast hne).symm⟩
    rw [withoutNewline_concat]
    split_ifs with hb
    · subst hb
      simp [newline]
    · rfl

/-- INTERNAL: the string behind which a terminator stands. -/
theorem cstr_eq_iff (text zeros : Bytes) : cstr (text ++ 0 :: zeros) = text ↔ (0 : UInt8) ∉ text := by
  rw [cstr_append]
  constructor
  · intro h
    rw [← h]
    exact zero_notMem_cstr text
  · exact cstr_eq_self text

/-- **When the paths are built from the buffer.** With pointers that are not null, `buildpipedir` sets
both paths to the ones in the directory and accesses only the buffer that holds the directory if
and only if the file can be read, has a byte in it and no NUL, and both allocations succeed. Without
the file, which is the default, and with an empty one the length is 0, and the byte before the
buffer is looked at.
SOURCE: minit-0.10-roswitch.patch:79-112 -/
theorem buildpipedir_in_buffer_iff (e : Environment) :
    BuildsPaths e (buildpipedir true true e) ↔
      (∃ content, e.file = some content ∧ content ≠ [] ∧ (0 : UInt8) ∉ content) ∧
        e.mallocIn = true ∧ e.mallocOut = true := by
  cases hfile : e.file with
  | none =>
    simp only [reduceCtorEq, false_and, exists_false, iff_false]
    rintro ⟨hin, -, hbounds⟩
    cases hdup : e.strdup with
    | false =>
      simp [buildpipedir, readPipedir, hfile, hdup, cutNewline, _buildpipedir] at hin
    | true =>
      have hread : readPipedir e = (some (MINITROOT ++ [0]), 0) := by simp [readPipedir, hfile, hdup]
      have hbefore := hbounds (-1) ((mem_accesses e (-1)).mpr (Or.inl (by
        rw [hread]
        exact cutNewline_zero e.around _)))
      omega
  | some content =>
    have hread : readPipedir e = (some (content ++ [0]), content.length) := by simp [readPipedir, hfile]
    by_cases hne : content = []
    · subst hne
      simp only [Option.some.injEq, ne_eq, exists_eq_left', not_true_eq_false, false_and, iff_false]
      rintro ⟨-, -, hbounds⟩
      have hbefore := hbounds (-1) ((mem_accesses e (-1)).mpr (Or.inl (by
        rw [hread]
        exact cutNewline_zero e.around _)))
      omega
    · obtain ⟨zeros, accesses, hcut, hlength, haccesses⟩ := cutNewline_content e.around content hne
      have hzero : (0 : UInt8) ∈ withoutNewline content ++ 0 :: zeros := by simp
      have hheld : (held e ++ [0]).length = content.length + 1 := by simp [held, hfile]
      obtain ⟨hin, hinBounds⟩ := buildpipedir_path _ (ascii "in".toList) hzero e.mallocIn
      obtain ⟨hout, houtBounds⟩ := buildpipedir_path _ (ascii "out".toList) hzero e.mallocOut
      have hbounds : ∀ i ∈ (buildpipedir true true e).accesses, 0 ≤ i ∧ i < (held e ++ [0]).length := by
        intro i hi
        have hpos : 0 < content.length := List.length_pos_iff.mpr hne
        rw [hheld, ← hlength]
        rw [mem_accesses, hread, hcut] at hi
        rcases hi with hi | hi | hi
        · rw [haccesses i hi, hlength]
          omega
        · exact hinBounds i hi
        · exact houtBounds i hi
      have hresult : (buildpipedir true true e).inPath =
            (_buildpipedir (some (withoutNewline content ++ 0 :: zeros)) (ascii "in".toList) e.mallocIn).1 ∧
          (buildpipedir true true e).outPath =
            (_buildpipedir (some (withoutNewline content ++ 0 :: zeros)) (ascii "out".toList) e.mallocOut).1 := by
        simp [buildpipedir, hread, hcut]
      have hpaths : BuildsPaths e (buildpipedir true true e) ↔
          (e.mallocIn = true ∧ cstr (withoutNewline content ++ 0 :: zeros) = withoutNewline content) ∧
            e.mallocOut = true ∧ cstr (withoutNewline content ++ 0 :: zeros) = withoutNewline content := by
        have hdir : directory e = withoutNewline content := by simp [directory, hfile]
        rw [BuildsPaths, hresult.1, hresult.2, hin, hout, hdir]
        rw [← path_eq_iff e.mallocIn _ _ "in".toList, ← path_eq_iff e.mallocOut _ _ "out".toList]
        constructor
        · rintro ⟨h, h', -⟩
          exact ⟨h, h'⟩
        · rintro ⟨h, h'⟩
          exact ⟨h, h', hbounds⟩
      rw [hpaths, cstr_eq_iff, zero_mem_withoutNewline]
      simp only [Option.some.injEq, exists_eq_left', hne, ne_eq, not_false_eq_true, true_and]
      tauto

/-- A system without the file, where the byte before a buffer is 0. -/
def defaultInstallation : Environment := ⟨none, true, true, true, fun _ => 0⟩

/-- **Without the file** the byte before the buffer is looked at.
SOURCE: minit-0.10-roswitch.patch:4-5, 100-106 -/
theorem default_installation_reads_before :
    -1 ∈ (buildpipedir true true defaultInstallation).accesses ∧
      ¬ BuildsPaths defaultInstallation (buildpipedir true true defaultInstallation) := by
  have hbefore : -1 ∈ (buildpipedir true true defaultInstallation).accesses := by decide
  refine ⟨hbefore, ?_⟩
  rintro ⟨-, -, hbounds⟩
  exact absurd (hbounds (-1) hbefore).1 (by decide)

end TTLinux.Analysis.PipedirBuffer
