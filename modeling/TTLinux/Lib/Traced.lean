import Mathlib.Data.List.Basic

/-!
# Computations that leave a trace

A computation emits items and may have a result; one without a result has emitted what it did so far.
`bind` continues a computation with its result, behind its items.
-/

set_option autoImplicit false

namespace TTLinux.Lib

/-- What a computation emits, and its result. -/
structure Traced (E α : Type) where
  items : List E
  result : Option α

namespace Traced

variable {E α β : Type}

/-- A computation that emits items and returns. -/
def give (items : List E) (a : α) : Traced E α := ⟨items, some a⟩

/-- A computation that does not return. -/
def stuck : Traced E α := ⟨[], none⟩

/-- A result without items, if there is one. -/
def lift (o : Option α) : Traced E α := ⟨[], o⟩

/-- Items in front of a computation. -/
def after (items : List E) (x : Traced E α) : Traced E α := ⟨items ++ x.items, x.result⟩

/-- Go on with the result. -/
def bind (x : Traced E α) (f : α → Traced E β) : Traced E β :=
  match x.result with
  | some a => after x.items (f a)
  | none => ⟨x.items, none⟩

/-- INTERNAL: what is shown with a value. -/
@[simp] theorem give_items (items : List E) (a : α) : (give items a).items = items := rfl

/-- INTERNAL: a computation that is stuck has none. -/
@[simp] theorem stuck_result : (stuck : Traced E α).result = none := rfl

/-- INTERNAL: a computation that is lifted shows nothing. -/
@[simp] theorem lift_items (o : Option α) : (lift o : Traced E α).items = [] := rfl

/-- INTERNAL: and has its value. -/
@[simp] theorem lift_result (o : Option α) : (lift o : Traced E α).result = o := rfl

/-- INTERNAL: items in front are shown first. -/
@[simp] theorem after_items (items : List E) (x : Traced E α) : (after items x).items = items ++ x.items := rfl

/-- INTERNAL: and do not change the value. -/
@[simp] theorem after_result (items : List E) (x : Traced E α) : (after items x).result = x.result := rfl

/-- INTERNAL: the value of two computations in turn. -/
theorem bind_result (x : Traced E α) (f : α → Traced E β) :
    (x.bind f).result = x.result.bind fun a => (f a).result := by
  unfold bind
  cases x.result <;> rfl

/-- INTERNAL: the second one, behind what the first showed. -/
theorem bind_of_result {x : Traced E α} {a : α} (h : x.result = some a) (f : α → Traced E β) :
    x.bind f = after x.items (f a) := by
  simp only [bind, h]

/-- INTERNAL: its value. -/
theorem bind_result_of {x : Traced E α} {a : α} (h : x.result = some a) (f : α → Traced E β) :
    (x.bind f).result = (f a).result := by
  rw [bind_of_result h, after_result]

/-- INTERNAL: a computation that is stuck is not followed. -/
theorem bind_of_stuck {x : Traced E α} (h : x.result = none) (f : α → Traced E β) :
    x.bind f = ⟨x.items, none⟩ := by
  simp only [bind, h]

/-- INTERNAL: what both showed. -/
theorem bind_eq_give {x : Traced E α} {f : α → Traced E β} {items : List E} {b : β} (h : x.bind f = give items b) :
    ∃ i a j, x = give i a ∧ f a = give j b ∧ items = i ++ j := by
  obtain ⟨i, _ | a⟩ := x
  · cases h
  · refine ⟨i, a, (f a).items, rfl, ?_, ?_⟩
    · have hresult : (f a).result = some b := congrArg result h
      rw [give, ← hresult]
    · exact (congrArg Traced.items h).symm

/-- INTERNAL: what is shown behind items. -/
theorem after_eq_give {x : Traced E β} {i items : List E} {b : β} (h : after i x = give items b) :
    ∃ j, x = give j b ∧ items = i ++ j := by
  have hresult : x.result = some b := congrArg result h
  refine ⟨x.items, ?_, (congrArg Traced.items h).symm⟩
  rw [give, ← hresult]

/-! ## Loops -/

/-- Go through a list. -/
def foldl (f : β → α → Traced E β) : List α → β → Traced E β
  | [], b => give [] b
  | a :: l, b => (f b a).bind (foldl f l)

/-- INTERNAL: the value of a fold. -/
theorem foldl_result {f : β → α → Traced E β} {g : β → α → β} (h : ∀ b a, (f b a).result = some (g b a)) (l : List α)
    (b : β) : (foldl f l b).result = some (l.foldl g b) := by
  induction l generalizing b with
  | nil => rfl
  | cons a l ih => rw [foldl, bind_result, h, Option.bind_some, ih, List.foldl_cons]

/-! ## What is emitted -/

/-- All items have this property. -/
def Emits (P : E → Prop) (x : Traced E α) : Prop := ∀ e ∈ x.items, P e

variable {P : E → Prop}

/-- INTERNAL: nothing is shown. -/
theorem emits_nil (a : α) : Emits P (give [] a) := fun _ he => absurd he List.not_mem_nil

/-- INTERNAL: one item is shown. -/
theorem emits_one {e : E} (h : P e) (a : α) : Emits P (give [e] a) := fun _ he => List.mem_singleton.mp he ▸ h

/-- INTERNAL: the items of two computations in turn. -/
theorem Emits.bind {x : Traced E α} {f : α → Traced E β} (hx : Emits P x)
    (hf : ∀ a, x.result = some a → Emits P (f a)) : Emits P (x.bind f) := by
  intro e he
  cases hr : x.result with
  | none =>
    rw [bind_of_stuck hr] at he
    exact hx e he
  | some a =>
    rw [bind_of_result hr, after_items, List.mem_append] at he
    exact he.elim (hx e) (hf a hr e)

/-- INTERNAL: the items of a fold. -/
theorem emits_foldl {f : β → α → Traced E β} (l : List α) (h : ∀ a ∈ l, ∀ b, Emits P (f b a)) (b : β) :
    Emits P (foldl f l b) := by
  induction l generalizing b with
  | nil => exact emits_nil b
  | cons a l ih =>
    apply (h a List.mem_cons_self b).bind
    intro c _
    exact ih (fun x hx => h x (List.mem_cons_of_mem a hx)) c

end Traced

end TTLinux.Lib
