import Mathlib.Data.List.Infix

/-!
# Frames in a stream

A stream is made of frames, one behind the other, each with its own piece of the stream. A reader
that knows the frames and has some of the stream has some of them completely.
-/

set_option autoImplicit false

namespace TTLinux.Lib

variable {F α : Type}

/-- The pieces of some frames, one behind the other. -/
def stream (piece : F → List α) (frames : List F) : List α := (frames.map piece).flatten

/-- INTERNAL: no frame, no bytes. -/
@[simp] theorem stream_nil (piece : F → List α) : stream piece [] = [] := rfl

/-- INTERNAL: the bytes of the first frame stand in front. -/
@[simp] theorem stream_cons (piece : F → List α) (f : F) (frames : List F) :
    stream piece (f :: frames) = piece f ++ stream piece frames := rfl

/-- INTERNAL: the bytes of two parts. -/
@[simp] theorem stream_append (piece : F → List α) (frames more : List F) :
    stream piece (frames ++ more) = stream piece frames ++ stream piece more := by
  rw [stream, List.map_append, List.flatten_append]
  rfl

/-- The frames of which the whole piece is in the bytes that are there. -/
def complete [DecidableEq α] (piece : F → List α) : List F → List α → List F
  | [], _ => []
  | f :: frames, bytes =>
    if piece f <+: bytes then f :: complete piece frames (bytes.drop (piece f).length) else []

variable [DecidableEq α]

/-- INTERNAL: a frame whose piece is there, and what follows it. -/
theorem complete_cons (piece : F → List α) (f : F) (frames : List F) (bytes : List α) :
    complete piece (f :: frames) (piece f ++ bytes) = f :: complete piece frames bytes := by
  rw [complete, if_pos (List.prefix_append _ _), List.drop_left]

/-- INTERNAL: no frame is complete if the first is not. -/
theorem complete_cons_of_not_prefix (piece : F → List α) (f : F) (frames : List F) (bytes : List α)
    (h : ¬piece f <+: bytes) : complete piece (f :: frames) bytes = [] := by
  rw [complete, if_neg h]

/-- INTERNAL: frames that were taken off the stream do not change which of the others are complete. -/
theorem complete_append (piece : F → List α) (taken frames : List F) (bytes : List α) :
    complete piece (taken ++ frames) (stream piece taken ++ bytes) = taken ++ complete piece frames bytes := by
  induction taken with
  | nil => rfl
  | cons f taken ih =>
    rw [List.cons_append, stream_cons, List.append_assoc, complete_cons, ih]
    rfl

/-- INTERNAL: without a byte of the stream no frame is complete, if none has an empty piece. -/
theorem complete_nil_right (piece : F → List α) (frames : List F) (hpiece : ∀ f ∈ frames, piece f ≠ []) :
    complete piece frames [] = [] := by
  cases frames with
  | nil => rfl
  | cons f frames =>
    apply complete_cons_of_not_prefix
    exact fun h => hpiece f List.mem_cons_self (List.prefix_nil.mp h)

end TTLinux.Lib
