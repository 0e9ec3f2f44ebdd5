import TTLinux.Lib.Traced

/-!
# Computations that are interrupted

An item of a trace may ask to stop with a value. `Cut` compares a computation with one in which nobody asks:
they are the same, or the first has no result, or it stops at the first item that asks and shows nothing more.
-/

set_option autoImplicit false

namespace TTLinux.Lib

/-- What can be seen of an item, and the value with which it asks to stop. -/
structure Watch (E γ ρ : Type) where
  seen : E → Option γ
  asks : E → Option ρ

namespace Watch

variable {E γ ρ α β : Type} (q : Watch E γ ρ)

/-- No item asks to stop. -/
def Calm (items : List E) : Prop := ∀ e ∈ items, q.asks e = none

/-- What can be seen. -/
def visible (items : List E) : List γ := items.filterMap q.seen

/-- INTERNAL: no item asks to stop. -/
theorem calm_nil : q.Calm [] := by
  intro e he
  cases he

/-- INTERNAL: an item that does not ask. -/
theorem calm_one (e : E) (h : q.asks e = none) : q.Calm [e] := by
  intro e' he
  obtain rfl := List.mem_singleton.mp he
  exact h

/-- INTERNAL: no item of two parts asks. -/
theorem calm_append (a b : List E) : q.Calm (a ++ b) ↔ q.Calm a ∧ q.Calm b := List.forall_mem_append

/-- INTERNAL: what can be seen of two parts. -/
theorem visible_append (a b : List E) : q.visible (a ++ b) = q.visible a ++ q.visible b := List.filterMap_append

/-- **The first computation is the second one, cut short.** `stop r a` says that `a` is how the computation
returns after an item has asked to stop with `r`. -/
inductive Cut (stop : ρ → α → Prop) (x y : Traced E α) : Prop where
  | same (heq : x = y) (hcalm : q.Calm x.items)
  | short (hresult : x.result = none) (hcalm : q.Calm x.items) (hbegins : q.visible x.items <+: q.visible y.items)
  | stopped (pre : List E) (e : E) (post : List E) (r : ρ) (a : α) (hitems : x.items = pre ++ e :: post)
    (hcalm : q.Calm pre) (hasks : q.asks e = some r) (hpost : q.visible post = []) (hresult : x.result = some a)
    (hstop : stop r a) (hbegins : q.visible (pre ++ [e]) <+: q.visible y.items)

/-- How a stopped computation goes on: nothing is seen, and it returns. -/
def GoesOn (stop : β → Prop) (x : Traced E β) : Prop := q.visible x.items = [] ∧ ∃ b, x.result = some b ∧ stop b

variable {q}

/-- INTERNAL: without a result nothing is compared. -/
theorem Cut.stuck (stop : ρ → α → Prop) (y : Traced E α) : q.Cut stop .stuck y :=
  .short rfl q.calm_nil (List.nil_prefix)

/-- INTERNAL: a computation that shows nothing. -/
theorem Cut.give (stop : ρ → α → Prop) (a : α) : q.Cut stop (.give [] a) (.give [] a) := .same rfl q.calm_nil

/-- INTERNAL: a computation that shows an item which does not ask. -/
theorem Cut.one (stop : ρ → α → Prop) (e : E) (he : q.asks e = none) (a : α) :
    q.Cut stop (.give [e] a) (.give [e] a) :=
  .same rfl (q.calm_one e he)

/-- INTERNAL: a computation that has stopped. -/
theorem GoesOn.give (stop : β → Prop) (b : β) (h : stop b) : q.GoesOn stop (.give [] b) := ⟨rfl, b, rfl, h⟩

/-- INTERNAL: items in front that do not ask. -/
theorem Cut.after {stop : ρ → α → Prop} {x y : Traced E α} (items : List E) (hitems : q.Calm items)
    (h : q.Cut stop x y) : q.Cut stop (.after items x) (.after items y) := by
  cases h with
  | same heq hcalm =>
    subst heq
    exact .same rfl ((q.calm_append items x.items).mpr ⟨hitems, hcalm⟩)
  | short hresult hcalm hbegins =>
    refine .short hresult ((q.calm_append items x.items).mpr ⟨hitems, hcalm⟩) ?_
    rw [Traced.after_items, Traced.after_items, q.visible_append, q.visible_append]
    exact (List.prefix_append_right_inj _).mpr hbegins
  | stopped pre e post r a hx hcalm hasks hpost hresult hstop hbegins =>
    refine .stopped (items ++ pre) e post r a ?_ ((q.calm_append items pre).mpr ⟨hitems, hcalm⟩) hasks hpost hresult
      hstop ?_
    · rw [Traced.after_items, hx, List.append_assoc]
    · rw [List.append_assoc, Traced.after_items, q.visible_append, q.visible_append items]
      exact (List.prefix_append_right_inj _).mpr hbegins

/-- INTERNAL: a computation that goes on shows what it has shown before. -/
theorem visible_begins_bind (y : Traced E α) (g : α → Traced E β) : q.visible y.items <+: q.visible (y.bind g).items := by
  cases hy : y.result with
  | none =>
    have hsame : (y.bind g).items = y.items := by rw [Traced.bind_of_stuck hy]
    exact ⟨[], by rw [hsame, List.append_nil]⟩
  | some a =>
    rw [Traced.bind_of_result hy, Traced.after_items, q.visible_append]
    exact List.prefix_append _ _

/-- INTERNAL: **two computations in sequence**: the second one is cut short, and goes on after a stop. -/
theorem Cut.bind {stop : ρ → α → Prop} {stop' : ρ → β → Prop} {x y : Traced E α} {f g : α → Traced E β}
    (h : q.Cut stop x y) (hnext : ∀ a, q.Cut stop' (f a) (g a))
    (hstopped : ∀ r a, stop r a → q.GoesOn (stop' r) (f a)) : q.Cut stop' (x.bind f) (y.bind g) := by
  cases h with
  | same heq hcalm =>
    subst heq
    cases hx : x.result with
    | none =>
      rw [Traced.bind_of_stuck hx, Traced.bind_of_stuck hx]
      exact .same rfl hcalm
    | some a =>
      rw [Traced.bind_of_result hx, Traced.bind_of_result hx]
      exact (hnext a).after x.items hcalm
  | short hresult hcalm hbegins =>
    rw [Traced.bind_of_stuck hresult]
    exact .short rfl hcalm (hbegins.trans (visible_begins_bind y g))
  | stopped pre e post r a hx hcalm hasks hpost hresult hstop hbegins =>
    obtain ⟨hquiet, b, hb, hstop'⟩ := hstopped r a hstop
    rw [Traced.bind_of_result hresult]
    refine .stopped pre e (post ++ (f a).items) r b ?_ hcalm hasks ?_ hb hstop'
      (hbegins.trans (visible_begins_bind y g))
    · rw [Traced.after_items, hx, List.append_assoc, List.cons_append]
    · rw [q.visible_append, hpost, hquiet, List.append_nil]

/-- INTERNAL: what is seen of a computation that is cut short is a beginning. -/
theorem Cut.visible_begins {stop : ρ → α → Prop} {x y : Traced E α} (h : q.Cut stop x y) :
    q.visible x.items <+: q.visible y.items := by
  cases h with
  | same heq hcalm => exact heq ▸ List.prefix_rfl
  | short hresult hcalm hbegins => exact hbegins
  | stopped pre e post r a hx hcalm hasks hpost hresult hstop hbegins =>
    have hall : x.items = pre ++ [e] ++ post := by rw [hx, List.append_assoc, List.singleton_append]
    rw [hall, q.visible_append, hpost, List.append_nil]
    exact hbegins

/-- INTERNAL: **the item that asks to stop is the last one that is seen**, and the computation returns. -/
theorem Cut.of_asks {stop : ρ → α → Prop} {x y : Traced E α} (h : q.Cut stop x y)
    (hseen : ∀ e, q.seen e = none → q.asks e = none) {e : E} {r : ρ} (he : e ∈ x.items) (hasks : q.asks e = some r) :
    ∃ pre post a, x.items = pre ++ e :: post ∧ q.visible post = [] ∧ x.result = some a ∧ stop r a := by
  have hnone : q.asks e ≠ none := by simp [hasks]
  cases h with
  | same heq hcalm => exact absurd (hcalm e he) hnone
  | short hresult hcalm hbegins => exact absurd (hcalm e he) hnone
  | stopped pre e' post r' a hx hcalm hasks' hpost hresult hstop hbegins =>
    rw [hx, List.mem_append, List.mem_cons] at he
    rcases he with he | rfl | he
    · exact absurd (hcalm e he) hnone
    · rw [hasks] at hasks'
      cases hasks'
      exact ⟨pre, post, a, hx, hpost, hresult, hstop⟩
    · have hunseen := List.filterMap_eq_nil_iff.mp hpost e he
      exact absurd (hseen e hunseen) hnone

end Watch

end TTLinux.Lib
