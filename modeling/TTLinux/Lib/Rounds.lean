import Mathlib.Data.Nat.Notation
import Mathlib.Tactic.Basic

/-!
# Loops that go round until they have a result

A loop is its round: a function that ends with a result or hands on the next state. `run` bounds the rounds by fuel,
`Reached` says which states a run comes through, `exists_run_of_rank` that a loop whose rounds lower a rank ends, and
`run_rule` carries an invariant to the result.
-/

set_option autoImplicit false

namespace TTLinux.Lib.Rounds

variable {σ ρ : Type*}

/-- The loop, for at most as many rounds as there is fuel. -/
def run (round : σ → ρ ⊕ σ) : ℕ → σ → Option ρ
  | 0, _ => none
  | fuel + 1, s =>
    match round s with
    | .inl r => some r
    | .inr s' => run round fuel s'

/-- The states that the loop comes to. -/
inductive Reached (round : σ → ρ ⊕ σ) (s : σ) : σ → Prop where
  | start : Reached round s s
  | next (t t' : σ) (before : Reached round s t) (round_eq : round t = .inr t') : Reached round s t'

variable (round : σ → ρ ⊕ σ)

/-- INTERNAL: a round that ends the loop. -/
theorem run_succ_inl (fuel : ℕ) (s : σ) (r : ρ) (h : round s = .inl r) : run round (fuel + 1) s = some r := by
  rw [run, h]

/-- INTERNAL: a round that goes on. -/
theorem run_succ_inr (fuel : ℕ) (s s' : σ) (h : round s = .inr s') :
    run round (fuel + 1) s = run round fuel s' := by
  rw [run, h]

/-- INTERNAL: a round in front of the states that are reached. -/
theorem Reached.head (s s' t : σ) (h : round s = .inr s') (hreached : Reached round s' t) : Reached round s t := by
  induction hreached with
  | start => exact .next s s' .start h
  | next u u' _ hround ih => exact .next u u' ih hround

/-- **What the rounds preserve holds of every state that is reached.** -/
theorem Reached.invariant (P : σ → Prop) (s t : σ) (hreached : Reached round s t) (hstart : P s)
    (hround : ∀ u u', P u → round u = .inr u' → P u') : P t := by
  induction hreached with
  | start => exact hstart
  | next u u' _ h ih => exact hround u u' ih h

/-- **A result is a result of the round in a state that is reached.** -/
theorem reached_of_run (fuel : ℕ) (s : σ) (r : ρ) (h : run round fuel s = some r) :
    ∃ t, Reached round s t ∧ round t = .inl r := by
  induction fuel generalizing s with
  | zero => cases h
  | succ fuel ih =>
    cases hround : round s with
    | inl r' =>
      rw [run_succ_inl round fuel s r' hround] at h
      exact ⟨s, .start, hround.trans (congrArg _ (Option.some.inj h))⟩
    | inr s' =>
      rw [run_succ_inr round fuel s s' hround] at h
      obtain ⟨t, hreached, ht⟩ := ih s' h
      exact ⟨t, hreached.head round s s' t hround, ht⟩

/-- **The loop rule**: an invariant that the rounds preserve, and that gives the postcondition in the last one. -/
theorem run_rule (P : σ → Prop) (Q : ρ → Prop) (fuel : ℕ) (s : σ) (r : ρ) (h : run round fuel s = some r)
    (hstart : P s) (hround : ∀ t t', P t → round t = .inr t' → P t') (hend : ∀ t r, P t → round t = .inl r → Q r) :
    Q r := by
  obtain ⟨t, hreached, ht⟩ := reached_of_run round fuel s r h
  exact hend t r (hreached.invariant round P s t hstart hround) ht

/-- **A loop whose rounds lower a rank ends**, and more fuel than the rank is enough for its result. -/
theorem exists_run_of_rank (rank : σ → ℕ) (s : σ)
    (h : ∀ t t', Reached round s t → round t = .inr t' → rank t' < rank t) :
    ∃ r, ∀ fuel, rank s < fuel → run round fuel s = some r := by
  induction hrank : rank s using Nat.strongRecOn generalizing s with
  | ind n ih =>
    cases hround : round s with
    | inl r =>
      refine ⟨r, fun fuel hfuel => ?_⟩
      obtain ⟨fuel, rfl⟩ := Nat.exists_eq_succ_of_ne_zero (Nat.ne_of_gt (Nat.zero_lt_of_lt hfuel))
      exact run_succ_inl round fuel s r hround
    | inr s' =>
      have hlower := h s s' .start hround
      obtain ⟨r, hr⟩ := ih (rank s') (hrank ▸ hlower) s'
        (fun t t' hreached => h t t' (hreached.head round s s' t hround)) rfl
      refine ⟨r, fun fuel hfuel => ?_⟩
      obtain ⟨fuel, rfl⟩ := Nat.exists_eq_succ_of_ne_zero (Nat.ne_of_gt (Nat.zero_lt_of_lt hfuel))
      rw [run_succ_inr round fuel s s' hround]
      exact hr fuel (by omega)

end TTLinux.Lib.Rounds
