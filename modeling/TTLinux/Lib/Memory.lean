import Mathlib.Data.List.GetD
import Mathlib.Tactic.Ring
import TTLinux.Lib.Bytes

/-!
# Memory with words

A memory gives each address its byte. A word is `w` bytes of it, in either byte order. What is written is read back
(`load_store`), what stands elsewhere stays (`load_of_outside`), and a piece that is moved reads as it did before
(`load_move`), also where source and target overlap.
-/

set_option autoImplicit false

namespace TTLinux.Lib.Memory

open TTLinux.Lib

/-- The byte at each address. -/
abbrev Mem := ℕ → UInt8

/-- The bytes at `k` addresses from `a` on. -/
def read (m : Mem) (a k : ℕ) : Bytes := (List.range k).map fun i => m (a + i)

/-- The memory with the bytes from `a` on. -/
def write (m : Mem) (a : ℕ) (bytes : Bytes) : Mem :=
  fun i => if a ≤ i ∧ i < a + bytes.length then bytes.getD (i - a) 0 else m i

/-- `memmove`: the bytes are read before any of them is written. -/
def move (m : Mem) (target source k : ℕ) : Mem := write m target (read m source k)

/-- INTERNAL: the number of bytes that are read. -/
@[simp] theorem length_read (m : Mem) (a k : ℕ) : (read m a k).length = k := by
  simp [read]

/-- INTERNAL: each of them. -/
theorem getD_read (m : Mem) (a k i : ℕ) (h : i < k) : (read m a k).getD i 0 = m (a + i) := by
  rw [List.getD_eq_getElem _ _ (by simpa using h)]
  simp [read]

/-- INTERNAL: reading depends on the bytes at these addresses. -/
theorem read_congr (m m' : Mem) (a k : ℕ) (h : ∀ i, a ≤ i → i < a + k → m i = m' i) :
    read m a k = read m' a k := by
  apply List.map_congr_left
  intro i hi
  exact h (a + i) (Nat.le_add_right a i) (Nat.add_lt_add_left (List.mem_range.mp hi) a)

/-- INTERNAL: writing leaves the other addresses. -/
theorem write_outside (m : Mem) (a : ℕ) (bytes : Bytes) (i : ℕ) (h : ¬ (a ≤ i ∧ i < a + bytes.length)) :
    write m a bytes i = m i := if_neg h

/-- INTERNAL: and stores each byte. -/
theorem write_inside (m : Mem) (a : ℕ) (bytes : Bytes) (i : ℕ) (h : i < bytes.length) :
    write m a bytes (a + i) = bytes.getD i 0 := by
  unfold write
  rw [if_pos ⟨Nat.le_add_right a i, Nat.add_lt_add_left h a⟩, Nat.add_sub_cancel_left]

/-- INTERNAL: what was written is read back. -/
theorem read_write (m : Mem) (a : ℕ) (bytes : Bytes) : read (write m a bytes) a bytes.length = bytes := by
  apply List.ext_getElem (length_read _ _ _)
  intro i _ hi
  rw [← List.getD_eq_getElem _ 0, ← List.getD_eq_getElem _ 0, getD_read _ _ _ _ hi, write_inside m a bytes i hi]

/-- INTERNAL: the first byte that is read and the others. -/
theorem read_succ (m : Mem) (a n : ℕ) : read m a (n + 1) = m a :: read m (a + 1) n := by
  unfold read
  rw [List.range_succ_eq_map, List.map_cons, List.map_map, Nat.add_zero]
  congr 1
  apply List.map_congr_left
  intro i _
  exact congrArg m (by omega)

/-- INTERNAL: a byte that is written behind others. -/
theorem read_snoc (m : Mem) (a t : ℕ) (b : UInt8) (h : a ≤ t) :
    read (write m t [b]) a (t + 1 - a) = read m a (t - a) ++ [b] := by
  have hsplit : t + 1 - a = t - a + 1 := by omega
  unfold read
  rw [hsplit, List.range_succ, List.map_append, List.map_singleton]
  congr 1
  · apply List.map_congr_left
    intro i hi
    have hi := List.mem_range.mp hi
    exact write_outside m t [b] (a + i) (by omega)
  · rw [Nat.add_sub_cancel' h]
    exact congrArg (fun c => [c]) (write_inside m t [b] 0 Nat.one_pos)

/-- INTERNAL: a piece of what was moved. -/
theorem read_move (m : Mem) (target source k o n : ℕ) (h : o + n ≤ k) :
    read (move m target source k) (target + o) n = read m (source + o) n := by
  apply List.map_congr_left
  intro i hi
  have hi := List.mem_range.mp hi
  have hlt : o + i < k := by omega
  unfold move
  rw [Nat.add_assoc, Nat.add_assoc, write_inside _ _ _ _ (by simpa using hlt), getD_read _ _ _ _ hlt]

/-! ## Words -/

/-- The number that `w` bytes hold, the low byte first. -/
def value : Bytes → ℕ
  | [] => 0
  | b :: bytes => b.toNat + 256 * value bytes

/-- The `w` low bytes of a number, the low byte first. -/
def digits : ℕ → ℕ → Bytes
  | 0, _ => []
  | w + 1, n => n.toUInt8 :: digits w (n / 256)

/-- INTERNAL: a number is written with `w` digits. -/
@[simp] theorem length_digits (w n : ℕ) : (digits w n).length = w := by
  induction w generalizing n with
  | zero => rfl
  | succ w ih => rw [digits, List.length_cons, ih]

/-- INTERNAL: and has their value. -/
theorem value_digits (w n : ℕ) (h : n < 256 ^ w) : value (digits w n) = n := by
  induction w generalizing n with
  | zero =>
    rw [Nat.pow_zero] at h
    exact (Nat.lt_one_iff.mp h).symm
  | succ w ih =>
    have hrest : n / 256 < 256 ^ w := by
      apply Nat.div_lt_of_lt_mul
      rw [← Nat.pow_succ']
      exact h
    have hbyte : n.toUInt8.toNat = n % 256 := by simp [Nat.toUInt8]
    rw [digits, value, ih _ hrest, hbyte, Nat.mod_add_div]

/-- How words are stored: their size, and whether the high byte comes first. -/
structure Words where
  w : ℕ
  pos : 0 < w
  big : Bool

variable (W : Words)

/-- The bytes in the order of the memory. -/
def Words.order (bytes : Bytes) : Bytes := if W.big then bytes.reverse else bytes

/-- INTERNAL: the order of the bytes is its own inverse. -/
theorem Words.order_order (bytes : Bytes) : W.order (W.order bytes) = bytes := by
  unfold Words.order
  cases W.big with
  | false => rfl
  | true => exact List.reverse_reverse bytes

/-- INTERNAL: and keeps their number. -/
@[simp] theorem Words.length_order (bytes : Bytes) : (W.order bytes).length = bytes.length := by
  unfold Words.order
  cases W.big with
  | false => rfl
  | true => exact List.length_reverse

def load (m : Mem) (a : ℕ) : ℕ := value (W.order (read m a W.w))

def storeWord (m : Mem) (a n : ℕ) : Mem := write m a (W.order (digits W.w n))

/-- **A word that is stored is loaded.** -/
theorem load_store (m : Mem) (a n : ℕ) (h : n < 256 ^ W.w) : load W (storeWord W m a n) a = n := by
  have hread := read_write m a (W.order (digits W.w n))
  rw [Words.length_order, length_digits] at hread
  unfold load storeWord
  rw [hread, Words.order_order, value_digits _ _ h]

/-- INTERNAL: loading depends on the bytes of the word. -/
theorem load_congr (m m' : Mem) (a : ℕ) (h : ∀ i, a ≤ i → i < a + W.w → m i = m' i) :
    load W m a = load W m' a := by
  unfold load
  rw [read_congr m m' a W.w h]

/-- INTERNAL: storing a word leaves the other addresses. -/
theorem storeWord_outside (m : Mem) (a n i : ℕ) (h : ¬ (a ≤ i ∧ i < a + W.w)) : storeWord W m a n i = m i := by
  apply write_outside
  rw [Words.length_order, length_digits]
  exact h

/-- **A word beside one that is stored stays.** -/
theorem load_of_outside (m : Mem) (a b n : ℕ) (h : b + W.w ≤ a ∨ a + W.w ≤ b) :
    load W (storeWord W m a n) b = load W m b := by
  apply load_congr
  intro i hlo hhi
  apply storeWord_outside
  omega

/-- INTERNAL: so does moving bytes. -/
theorem move_outside (m : Mem) (target source k i : ℕ) (h : ¬ (target ≤ i ∧ i < target + k)) :
    move m target source k i = m i := by
  apply write_outside
  rw [length_read]
  exact h

/-- **A word of a piece that is moved.** -/
theorem load_move (m : Mem) (target source k o : ℕ) (h : o + W.w ≤ k) :
    load W (move m target source k) (target + o) = load W m (source + o) := by
  unfold load
  rw [read_move m target source k o W.w h]

end TTLinux.Lib.Memory
