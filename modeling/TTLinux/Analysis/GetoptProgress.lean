import TTLinux.Lib.Rounds
import TTLinux.Model.Getopt

/-!
# Progress through the arguments

A program calls `getopt_long` until it returns -1, so each call for a long option has to move `optind` on, and not
behind the end of `argv`. `progress_iff_proceeds` says for which calls the block does so, and that a loop of such calls
ends. The code around the block is not part of the patch: `Around` stands for it, and `Around.Contract` says what it is
relied on for.
-/

set_option autoImplicit false

namespace TTLinux.Analysis.GetoptProgress

open TTLinux.Lib TTLinux.Lib.Rounds
open TTLinux.Model.Getopt

/-! ## One call -/

/-- The block of either function. How `getopt_long_only` comes to its argument is not part of the patch.
SOURCE: dietlibc-getopt.patch:5-140 -/
inductive Variant where
  | long
  | only (arg : ℕ → Bytes)

/-- The argument that the block looks up. -/
def Variant.arg (v : Variant) (c : Call) (g : Globals) : Bytes :=
  match v with
  | .long => ((c.argv g.optind).getD []).drop 2
  | .only arg => arg g.optind

/-- The block. -/
def Variant.run (v : Variant) (c : Call) (g : Globals) : Outcome × Globals :=
  match v with
  | .long => getoptLong c g
  | .only arg => getoptLongOnly c (arg g.optind) g

/-- `argv` holds `argc` strings and a null pointer. -/
structure Arguments (c : Call) (argc : ℕ) : Prop where
  present : ∀ i, i < argc → (c.argv i).isSome
  ended : c.argv argc = none

/-- The argument selects an entry that takes an argument. -/
def TakesArgument (c : Call) (arg : Bytes) : Prop := ∃ i o, selected c.longopts arg = some (i, o) ∧ 0 < o.hasArg

/-- **A call makes progress**: `optind` moves on and stays in `argv`, and the argument of an option is the text behind
the `=` or an existing argument of `argv`. -/
structure Progress (c : Call) (argc : ℕ) (arg : Bytes) (g g' : Globals) : Prop where
  advances : g.optind < g'.optind
  bounded : g'.optind ≤ argc
  optarg : TakesArgument c arg → ∀ a, g'.optarg = some a →
    behind arg = some a ∨ g.optind + 1 < argc ∧ c.argv (g.optind + 1) = some a
  kept : ¬ TakesArgument c arg → g'.optarg = g.optarg

/-- **The block proceeds**: an argument that selects no entry is not met with `:` in front of the option string; and an
option that takes an argument and is the last of `argv`, without `=`, requires it and is not met with `:` either. -/
def Proceeds (c : Call) (argc : ℕ) (arg : Bytes) (g : Globals) : Prop :=
  match selected c.longopts arg with
  | none => c.quiet = false
  | some (_, o) => 0 < o.hasArg → behind arg = none → g.optind + 1 = argc → o.hasArg = 1 ∧ c.quiet = false

/-- INTERNAL: the block for an entry that is selected. -/
theorem run_selected (v : Variant) (c : Call) (g : Globals) (i : ℕ) (o : LongOption)
    (h : selected c.longopts (v.arg c g) = some (i, o)) : v.run c g = accept c (v.arg c g) i o g := by
  cases v with
  | long =>
    unfold Variant.run getoptLong lookup
    dsimp only [Variant.arg] at h ⊢
    rw [h]
  | only arg =>
    unfold Variant.run getoptLongOnly lookup
    dsimp only [Variant.arg] at h ⊢
    rw [h]

/-- INTERNAL: the block for an argument that selects no entry. -/
theorem run_rejected (v : Variant) (c : Call) (g : Globals) (h : selected c.longopts (v.arg c g) = none)
    (hlong : (v.run c g).1 ≠ .shortopt) :
    v.run c g = (if c.quiet then .returned 0x3A else .invalid, g) := by
  cases v with
  | long =>
    unfold Variant.run getoptLong lookup
    dsimp only [Variant.arg] at h ⊢
    rw [h]
  | only arg =>
    unfold Variant.run getoptLongOnly lookup at hlong ⊢
    dsimp only [Variant.arg] at h hlong ⊢
    rw [h] at hlong ⊢
    dsimp only at hlong ⊢
    by_cases hdash : ((c.argv g.optind).getD [])[1]? ≠ some 0x2D
    · rw [if_pos hdash] at hlong
      exact absurd rfl hlong
    · rw [if_neg hdash]

/-- INTERNAL: an option that is finished is passed. -/
theorem finish_optind (o : LongOption) (g : Globals) : (finish o g).2.optind = g.optind + 1 := by
  unfold finish
  cases o.flag <;> rfl

/-- INTERNAL: its argument stays. -/
theorem finish_optarg (o : LongOption) (g : Globals) : (finish o g).2.optarg = g.optarg := by
  unfold finish
  cases o.flag <;> rfl

/-- INTERNAL: the call ends with it. -/
theorem finish_returned (o : LongOption) (g : Globals) : ∃ r, (finish o g).1 = .returned r := by
  unfold finish
  cases o.flag with
  | none => exact ⟨o.val, rfl⟩
  | some a => exact ⟨0, rfl⟩

/-- INTERNAL: a selected entry ends in a value. -/
theorem accept_returned (c : Call) (arg : Bytes) (i : ℕ) (o : LongOption) (g : Globals) :
    ∃ r, (accept c arg i o g).1 = .returned r := by
  unfold accept
  generalize (if c.longindex then { g with longindex := some i } else g) = g₁
  dsimp only
  by_cases harg : 0 < o.hasArg
  · rw [if_pos harg]
    cases behind arg with
    | some a => exact finish_returned _ _
    | none =>
      dsimp only
      split_ifs
      · exact ⟨_, rfl⟩
      · exact ⟨_, rfl⟩
      · exact finish_returned _ _
  · rw [if_neg harg]
    exact finish_returned _ _

/-- INTERNAL: the end of a call that has found its argument, if it takes one. -/
theorem progress_of_finish (c : Call) (argc : ℕ) (arg : Bytes) (o : LongOption) (g g₁ : Globals)
    (hlow : g.optind ≤ g₁.optind) (hhigh : g₁.optind < argc)
    (harg : TakesArgument c arg → ∀ a, g₁.optarg = some a →
      behind arg = some a ∨ g.optind + 1 < argc ∧ c.argv (g.optind + 1) = some a)
    (hkept : ¬ TakesArgument c arg → g₁.optarg = g.optarg) : Progress c argc arg g (finish o g₁).2 := by
  constructor
  · rw [finish_optind]
    exact Nat.lt_succ_of_le hlow
  · rw [finish_optind]
    exact Nat.succ_le_of_lt hhigh
  · rw [finish_optarg]
    exact harg
  · rw [finish_optarg]
    exact hkept

/-- INTERNAL: **an option that is selected** makes progress exactly if it proceeds.
SOURCE: dietlibc-getopt.patch:39-67, 109-137 -/
theorem accept_progress_iff (c : Call) (argc : ℕ) (hargs : Arguments c argc) (arg : Bytes) (i : ℕ) (o : LongOption)
    (hsel : selected c.longopts arg = some (i, o)) (g : Globals) (hg : g.optind < argc) :
    Progress c argc arg g (accept c arg i o g).2 ↔
      (0 < o.hasArg → behind arg = none → g.optind + 1 = argc → o.hasArg = 1 ∧ c.quiet = false) := by
  have htakes : TakesArgument c arg ↔ 0 < o.hasArg := by
    constructor
    · rintro ⟨i', o', hsel', harg⟩
      rw [hsel] at hsel'
      cases hsel'
      exact harg
    · exact fun harg => ⟨i, o, hsel, harg⟩
  unfold accept
  generalize hindex : (if c.longindex then { g with longindex := some i } else g) = g₁
  have hoptind : g₁.optind = g.optind := by rw [← hindex]; split_ifs <;> rfl
  have hoptarg : g₁.optarg = g.optarg := by rw [← hindex]; split_ifs <;> rfl
  dsimp only
  by_cases harg : 0 < o.hasArg
  · rw [if_pos harg]
    have htaken : ¬ ¬ TakesArgument c arg := not_not_intro (htakes.mpr harg)
    cases hbehind : behind arg with
    | some a =>
      apply iff_of_true
      · apply progress_of_finish c argc arg o g { g₁ with optarg := some a } hoptind.ge (hoptind.trans_lt hg)
        · exact fun _ b hb => Or.inl (hbehind.trans hb)
        · exact fun h => absurd h htaken
      · intro _ hnone
        cases hnone
    | none =>
      dsimp only
      rw [hoptind]
      by_cases hlast : g.optind + 1 = argc
      · have hnone : c.argv (g.optind + 1) = none := hlast ▸ hargs.ended
        rw [hnone]
        by_cases hone : o.hasArg = 1
        · rw [if_pos ⟨rfl, hone⟩]
          cases hquiet : c.quiet with
          | true =>
            -- the value `:` is returned in front of the increment
            apply iff_of_false
            · intro h
              exact absurd h.advances (Nat.lt_irrefl _)
            · intro h
              exact Bool.noConfusion (h harg rfl hlast).2
          | false =>
            apply iff_of_true
            · refine ⟨Nat.lt_succ_self _, hg, fun _ b hb => ?_, fun h => absurd h htaken⟩
              cases hb
            · exact fun _ _ _ => ⟨hone, rfl⟩
        · rw [if_neg fun h => hone h.2]
          -- the argument that may be missing is counted all the same
          apply iff_of_false
          · intro h
            have hbounded := h.bounded
            rw [finish_optind] at hbounded
            dsimp only at hbounded
            omega
          · intro h
            exact hone (h harg rfl hlast).1
      · obtain ⟨b, hb⟩ := Option.isSome_iff_exists.mp (hargs.present (g.optind + 1) (by omega))
        rw [hb, if_neg fun h => Option.some_ne_none _ h.1]
        apply iff_of_true
        · have hnext : g.optind + 1 < argc := Nat.lt_of_le_of_ne hg hlast
          apply progress_of_finish c argc arg o g { g₁ with optind := g.optind + 1, optarg := some b } (Nat.le_succ _)
            hnext
          · exact fun _ a ha => Or.inr ⟨hnext, hb.trans ha⟩
          · exact fun h => absurd h htaken
        · exact fun _ _ h => absurd h hlast
  · rw [if_neg harg]
    apply iff_of_true
    · apply progress_of_finish c argc arg o g g₁ hoptind.ge (hoptind.trans_lt hg)
      · exact fun h => absurd (htakes.mp h) harg
      · exact fun _ => hoptarg
    · exact fun h => absurd h harg

/-! ## The code around the block -/

/-- What is kept from call to call; `pos` is the position in a group of short options. -/
structure State where
  globals : Globals
  pos : ℕ

/-- What the patch does not show of either function. -/
structure Around where
  /-- The argument is handed to the block. -/
  comes : State → Bool
  /-- What is done for an invalid option before `?` is returned. -/
  after : Globals → Globals
  /-- What is done with any other argument; without a value the function starts again. -/
  other : State → Option ℤ × State

/-- What the unseen code is relied on for. It hands only arguments of `argv` to the block, counts an invalid option,
and otherwise returns -1 or comes on, either to another argument or in a group of at most `len` short options. -/
structure Around.Contract (a : Around) (argc len : ℕ) : Prop where
  comes : ∀ s, a.comes s → s.globals.optind < argc
  after_optind : ∀ g, (a.after g).optind = g.optind + 1
  after_optarg : ∀ g, (a.after g).optarg = g.optarg
  other : ∀ s, (a.other s).1 = some (-1) ∨
    s.globals.optind < (a.other s).2.globals.optind ∧ (a.other s).2.globals.optind ≤ argc ∨
    (a.other s).2.globals.optind = s.globals.optind ∧ s.pos < (a.other s).2.pos ∧ (a.other s).2.pos ≤ len

/-- The way from the start of the function to a value, or back to its start. -/
def Around.pass (a : Around) (v : Variant) (c : Call) (s : State) : Option ℤ × State :=
  if a.comes s then
    let (outcome, g) := v.run c s.globals
    match outcome with
    | .returned r => (some r, { s with globals := g })
    | .invalid => (some 0x3F, { s with globals := a.after g })
    | .shortopt => a.other { s with globals := g }
  else a.other s

/-- The argument is a long option for the block. -/
def Around.Consumes (a : Around) (v : Variant) (c : Call) (s : State) : Prop :=
  a.comes s ∧ (v.run c s.globals).1 ≠ .shortopt

/-- One round of a program that calls the function until it returns -1. -/
def Around.round (a : Around) (v : Variant) (c : Call) (s : State) : State ⊕ State :=
  let (r, s') := a.pass v c s
  if r = some (-1) then .inl s' else .inr s'

variable (a : Around) (v : Variant) (c : Call)

/-- INTERNAL: the block gives no entry, and the function is left for the short options, with its state unchanged. -/
theorem run_shortopt (g : Globals) (h : (v.run c g).1 = .shortopt) : (v.run c g).2 = g := by
  cases hsel : selected c.longopts (v.arg c g) with
  | some e =>
    obtain ⟨r, hr⟩ := accept_returned c (v.arg c g) e.1 e.2 g
    rw [run_selected v c g e.1 e.2 hsel, hr] at h
    cases h
  | none =>
    cases v with
    | long =>
      unfold Variant.run getoptLong lookup
      dsimp only [Variant.arg] at hsel ⊢
      rw [hsel]
    | only arg =>
      unfold Variant.run getoptLongOnly lookup
      dsimp only [Variant.arg] at hsel ⊢
      rw [hsel]

/-- INTERNAL: what a pass does that is not a long option for the block. -/
theorem pass_other (s : State) (h : ¬ a.Consumes v c s) : a.pass v c s = a.other s := by
  unfold Around.pass
  by_cases hcomes : a.comes s
  · have hshort : (v.run c s.globals).1 = .shortopt := by
      by_contra hlong
      exact h ⟨hcomes, hlong⟩
    have hkept := run_shortopt v c s.globals hshort
    rw [if_pos hcomes]
    dsimp only
    rw [hshort, hkept]
  · rw [if_neg hcomes]

/-- INTERNAL: what a pass does that the block gives an entry. -/
theorem pass_selected (s : State) (hcomes : a.comes s) (i : ℕ) (o : LongOption)
    (hsel : selected c.longopts (v.arg c s.globals) = some (i, o)) :
    (a.pass v c s).2.globals = (accept c (v.arg c s.globals) i o s.globals).2 := by
  obtain ⟨r, hr⟩ := accept_returned c (v.arg c s.globals) i o s.globals
  unfold Around.pass
  rw [if_pos hcomes, run_selected v c s.globals i o hsel]
  dsimp only
  rw [hr]

/-- INTERNAL: what a pass does that the block gives no entry. -/
theorem pass_rejected (s : State) (h : a.Consumes v c s) (hsel : selected c.longopts (v.arg c s.globals) = none) :
    (a.pass v c s).2.globals = if c.quiet then s.globals else a.after s.globals := by
  unfold Around.pass
  rw [if_pos h.1, run_rejected v c s.globals hsel h.2]
  cases c.quiet <;> rfl

/-- INTERNAL: **a long option** makes progress exactly if the block proceeds. -/
theorem pass_progress_iff (argc len : ℕ) (hargs : Arguments c argc) (ha : a.Contract argc len) (s : State)
    (h : a.Consumes v c s) :
    Progress c argc (v.arg c s.globals) s.globals (a.pass v c s).2.globals ↔
      Proceeds c argc (v.arg c s.globals) s.globals := by
  have hlt := ha.comes s h.1
  unfold Proceeds
  cases hsel : selected c.longopts (v.arg c s.globals) with
  | some e =>
    rw [pass_selected a v c s h.1 e.1 e.2 hsel]
    exact accept_progress_iff c argc hargs _ e.1 e.2 hsel s.globals hlt
  | none =>
    rw [pass_rejected a v c s h hsel]
    dsimp only
    cases hquiet : c.quiet with
    | true =>
      refine iff_of_false ?_ Bool.noConfusion
      intro hprogress
      exact absurd hprogress.advances (Nat.lt_irrefl _)
    | false =>
      refine iff_of_true ⟨?_, ?_, ?_, fun _ => ha.after_optarg _⟩ rfl
      · exact (ha.after_optind _).ge
      · exact (ha.after_optind _).trans_le hlt
      · rintro ⟨i, o, hselected, -⟩
        rw [hsel] at hselected
        cases hselected

/-! ## The loop of the program -/

/-- What is left: the arguments behind `optind`, then the options behind `pos`. -/
def rank (argc len : ℕ) (s : State) : ℕ := (argc - s.globals.optind) * (len + 1) + (len - s.pos)

/-- INTERNAL: the rank falls when the next argument is reached. -/
theorem rank_lt_of_optind (argc len : ℕ) (s s' : State) (h : s.globals.optind < s'.globals.optind)
    (hbounded : s'.globals.optind ≤ argc) : rank argc len s' < rank argc len s := by
  have harguments : (argc - s'.globals.optind + 1) * (len + 1) ≤ (argc - s.globals.optind) * (len + 1) :=
    Nat.mul_le_mul_right _ (by omega)
  have hsplit : (argc - s'.globals.optind + 1) * (len + 1) =
      (argc - s'.globals.optind) * (len + 1) + (len + 1) := Nat.succ_mul _ _
  unfold rank
  omega

/-- INTERNAL: and when the next character is. -/
theorem rank_lt_of_pos (argc len : ℕ) (s s' : State) (h : s'.globals.optind = s.globals.optind)
    (hpos : s.pos < s'.pos) (hbounded : s'.pos ≤ len) : rank argc len s' < rank argc len s := by
  unfold rank
  rw [h]
  omega

/-- INTERNAL: a round that goes on comes closer to the end. -/
theorem rank_lt (argc len : ℕ) (hargs : Arguments c argc) (ha : a.Contract argc len) (s s' : State)
    (hproceeds : a.Consumes v c s → Proceeds c argc (v.arg c s.globals) s.globals)
    (h : a.round v c s = .inr s') : rank argc len s' < rank argc len s := by
  have hpass : (a.pass v c s).1 ≠ some (-1) ∧ (a.pass v c s).2 = s' := by
    unfold Around.round at h
    dsimp only at h
    split_ifs at h with hend
    exact ⟨hend, Sum.inr.inj h⟩
  obtain ⟨hvalue, rfl⟩ := hpass
  by_cases hconsumes : a.Consumes v c s
  · have hprogress := (pass_progress_iff a v c argc len hargs ha s hconsumes).mpr (hproceeds hconsumes)
    exact rank_lt_of_optind argc len s _ hprogress.advances hprogress.bounded
  · rw [pass_other a v c s hconsumes] at hvalue ⊢
    rcases ha.other s with hend | ⟨hoptind, hbounded⟩ | ⟨hoptind, hpos, hbounded⟩
    · exact absurd hend hvalue
    · exact rank_lt_of_optind argc len s _ hoptind hbounded
    · exact rank_lt_of_pos argc len s _ hoptind hpos hbounded

/-- **A call for a long option makes progress exactly if the block proceeds**, and a program that calls the function
until it returns -1 comes to an end if the block proceeds in every call of it.
SOURCE: dietlibc-getopt.patch:5-140 -/
theorem progress_iff_proceeds (v : Variant) (c : Call) (argc : ℕ) (hargs : Arguments c argc) (a : Around) (len : ℕ)
    (ha : a.Contract argc len) :
    (∀ s, a.Consumes v c s →
      (Progress c argc (v.arg c s.globals) s.globals (a.pass v c s).2.globals ↔
        Proceeds c argc (v.arg c s.globals) s.globals)) ∧
    ∀ s, (∀ t, Reached (a.round v c) s t → a.Consumes v c t → Proceeds c argc (v.arg c t.globals) t.globals) →
      (∀ t, Reached (a.round v c) s t → a.Consumes v c t →
        Progress c argc (v.arg c t.globals) t.globals (a.pass v c t).2.globals) ∧
      ∃ s', ∀ fuel, rank argc len s < fuel → run (a.round v c) fuel s = some s' := by
  refine ⟨pass_progress_iff a v c argc len hargs ha, fun s hproceeds => ⟨fun t ht hconsumes => ?_, ?_⟩⟩
  · exact (pass_progress_iff a v c argc len hargs ha t hconsumes).mpr (hproceeds t ht hconsumes)
  · apply exists_run_of_rank (a.round v c) (rank argc len) s
    intro t t' ht hround
    exact rank_lt a v c argc len hargs ha t t' (hproceeds t ht) hround

/-- INTERNAL: an `argv` of the texts. -/
theorem arguments_of_texts (texts : List Bytes) (optstring : Bytes) (longopts : List LongOption) (longindex : Bool) :
    Arguments ⟨fun i => texts[i]?, optstring, longopts, longindex⟩ texts.length where
  present := by
    intro i hi
    exact Option.isSome_iff_exists.mpr ⟨texts[i], List.getElem?_eq_getElem hi⟩
  ended := List.getElem?_eq_none le_rfl

/-- The code around the block where all arguments are long options. -/
def plain (argc : ℕ) : Around where
  comes s := s.globals.optind < argc
  after g := { g with optind := g.optind + 1 }
  other s := (some (-1), s)

/-- INTERNAL: the code around keeps its contract where all arguments are long options. -/
theorem plain_contract (argc : ℕ) : (plain argc).Contract argc 0 where
  comes := by
    intro s hs
    exact of_decide_eq_true hs
  after_optind := fun _ => rfl
  after_optarg := fun _ => rfl
  other := fun _ => Or.inl rfl

/-- The state in front of the first argument. -/
def fresh : State := ⟨⟨1, none, none, fun _ => 0, []⟩, 0⟩

/-- `prog --x` for a program without long options, whose option string begins with `:`. -/
def unknownCall : Call := ⟨fun i => [ascii "prog".toList, ascii "--x".toList][i]?, ascii ":".toList, [], false⟩

/-- `prog --x` for a program whose option `x` may have an argument. -/
def optionalCall : Call :=
  ⟨fun i => [ascii "prog".toList, ascii "--x".toList][i]?, [], [⟨ascii "x".toList, 2, none, 0x78⟩], false⟩

/-- **An unknown option does not move `optind` where the option string begins with `:`**, and the loop of the program
never ends; and an optional argument that is not there moves `optind` behind `argc`. -/
theorem unknown_option_stays :
    (Arguments unknownCall 2 ∧ (plain 2).Contract 2 0 ∧ (plain 2).Consumes .long unknownCall fresh ∧
      ¬ Progress unknownCall 2 (Variant.long.arg unknownCall fresh.globals) fresh.globals
        ((plain 2).pass .long unknownCall fresh).2.globals ∧
      ∀ fuel, run ((plain 2).round .long unknownCall) fuel fresh = none) ∧
    Arguments optionalCall 2 ∧ (plain 2).Consumes .long optionalCall fresh ∧
      ((plain 2).pass .long optionalCall fresh).2.globals.optind = 3 := by
  have hround : (plain 2).round .long unknownCall fresh = .inr fresh := rfl
  refine ⟨⟨arguments_of_texts _ _ _ _, plain_contract 2, ⟨rfl, by decide⟩, ?_, ?_⟩, arguments_of_texts _ _ _ _,
    ⟨rfl, by decide⟩, by decide⟩
  · intro h
    exact absurd h.advances (by decide)
  · intro fuel
    induction fuel with
    | zero => rfl
    | succ fuel ih => rw [run_succ_inr _ fuel fresh fresh hround, ih]

/-- `prog --x=1` for the same program. -/
def equalsCall : Call := { optionalCall with argv := fun i => [ascii "prog".toList, ascii "--x=1".toList][i]? }

/-- `progress_iff_proceeds` where the optional argument stands behind a `=`: the call makes progress. -/
theorem progress_with_equals :
    Progress equalsCall 2 (Variant.long.arg equalsCall fresh.globals) fresh.globals
      ((plain 2).pass .long equalsCall fresh).2.globals := by
  have hcall := progress_iff_proceeds .long equalsCall 2
    (arguments_of_texts [ascii "prog".toList, ascii "--x=1".toList] _ _ _) (plain 2) 0 (plain_contract 2)
  apply (hcall.1 fresh ⟨rfl, by decide⟩).mpr
  intro _ hbehind
  exact absurd hbehind (by decide)

end TTLinux.Analysis.GetoptProgress
