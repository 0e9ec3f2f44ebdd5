import TTLinux.Analysis.ExternGroupFetch

/-!
# The order of the external groups

The loop over the groups stops at the first group that authorises and otherwise keeps
what the last group left. `mergeExternalGroups_groupBuffer` says so in one equation, and
`order_irrelevant_iff` reads off which group lists are decided the same way in every
order. `checkExternalGroups_delivered` puts it behind the fetch: a reply that is delivered
is decided by the groups that it names.
-/

set_option autoImplicit false

namespace TTLinux.Analysis.ExternGroupOrder

open TTLinux.Lib TTLinux.Model.ExternGroups
open TTLinux.Analysis.ExternGroupFetch (Delivers Works)

/-- The buffer that holds a list of groups: one line each, and the zero byte. -/
def groupBuffer (names : List Bytes) : Bytes :=
  (names.map fun name => name ++ [newline]).flatten ++ [0]

/-- A name that can stand on a line of the buffer. -/
def IsGroupName (name : Bytes) : Prop := newline ∉ name ∧ (0 : UInt8) ∉ name

section

variable {F : Type} (addr_open : Bytes → Option F) (check_and_get_addr_loop : F → Result × Bool)

/-- The result of a group's address file, if there is one. -/
def permission (name : Bytes) : Option Result :=
  (addr_open name).map fun addr_file => (check_and_get_addr_loop addr_file).1

/-- No address file of the listed groups has a syntax error. -/
def NoSyntaxError (names : List Bytes) : Prop :=
  ∀ name ∈ names, ∀ addr_file, addr_open name = some addr_file →
    (check_and_get_addr_loop addr_file).2 = false

/-- What a group that does not authorise amounts to when it is the last one: its result,
or the prior one when it has no address file or one that finds nothing. -/
def amountsTo (prior : Result) (name : Bytes) : Result :=
  match permission addr_open check_and_get_addr_loop name with
  | none => prior
  | some .errorNotFound => prior
  | some res => res

/-- What the loop holds after a group that does not authorise. -/
def leaves (name : Bytes) : Result :=
  (permission addr_open check_and_get_addr_loop name).getD .errorNotFound

/-- INTERNAL: the caller keeps the prior result where the loop holds `ERROR_NOT_FOUND`.
SOURCE: externgroups.patch:91-92 -/
theorem ite_leaves (prior : Result) (name : Bytes) :
    (if leaves addr_open check_and_get_addr_loop name ≠ .errorNotFound
      then leaves addr_open check_and_get_addr_loop name else prior) =
      amountsTo addr_open check_and_get_addr_loop prior name := by
  unfold leaves amountsTo
  cases permission addr_open check_and_get_addr_loop name with
  | none => rfl
  | some res => cases res <;> simp

/-- INTERNAL: **one group**: an authorising group ends the loop, any other one replaces
the result.
SOURCE: externgroups.patch:198-260 -/
theorem groupLoop_cons (name : Bytes) (rest : Bytes) (result : Result)
    (hname : IsGroupName name) (hres : result ≠ .authorized)
    (hparsed : ∀ addr_file, addr_open name = some addr_file →
      (check_and_get_addr_loop addr_file).2 = false) :
    groupLoop addr_open check_and_get_addr_loop result (name ++ newline :: rest) =
      if permission addr_open check_and_get_addr_loop name = some .authorized then .authorized
      else groupLoop addr_open check_and_get_addr_loop
        (leaves addr_open check_and_get_addr_loop name) rest := by
  rw [groupLoop, cutLine_line name rest hname.1 hname.2]
  unfold leaves permission
  cases hopen : addr_open name with
  | none => simp [hopen]
  | some addr_file =>
    have herr := hparsed addr_file hopen
    cases hloop : check_and_get_addr_loop addr_file with
    | mk res_tmp err =>
      rw [hloop] at herr
      simp only at herr
      simp [hopen, hloop, herr, hres]

/-- INTERNAL: **the whole loop**: authorised if some group authorises, else what the
last group left. What stands behind the list does not matter.
SOURCE: externgroups.patch:198-260 -/
theorem groupLoop_groupBuffer (names : List Bytes) (buf : Bytes) (hbuf : groupBuffer names <+: buf) (result : Result)
    (hnames : ∀ name ∈ names, IsGroupName name)
    (hparsed : NoSyntaxError addr_open check_and_get_addr_loop names)
    (hres : result ≠ .authorized) :
    groupLoop addr_open check_and_get_addr_loop result buf =
      if ∃ name ∈ names, permission addr_open check_and_get_addr_loop name = some .authorized
      then .authorized
      else (names.getLast?.map (leaves addr_open check_and_get_addr_loop)).getD result := by
  induction names generalizing buf result with
  | nil =>
    obtain ⟨rest, rfl⟩ := hbuf
    have hcut : cutLine (groupBuffer [] ++ rest) = none := rfl
    rw [groupLoop, hcut]
    simp
  | cons name names ih =>
    obtain ⟨rest, rfl⟩ := hbuf
    have hsplit : groupBuffer (name :: names) ++ rest = name ++ newline :: (groupBuffer names ++ rest) := by
      simp [groupBuffer]
    rw [hsplit, groupLoop_cons addr_open check_and_get_addr_loop name _ result
      (hnames name List.mem_cons_self) hres (hparsed name List.mem_cons_self)]
    by_cases hauth : permission addr_open check_and_get_addr_loop name = some .authorized
    · rw [if_pos hauth, if_pos ⟨name, List.mem_cons_self, hauth⟩]
    · have hleaves : leaves addr_open check_and_get_addr_loop name ≠ .authorized := by
        unfold leaves
        intro h
        cases hp : permission addr_open check_and_get_addr_loop name with
        | none => simp [hp] at h
        | some res => simp_all
      rw [if_neg hauth, ih _ (List.prefix_append _ _) _ (fun n hn => hnames n (List.mem_cons_of_mem name hn))
        (fun n hn => hparsed n (List.mem_cons_of_mem name hn)) hleaves]
      simp only [List.mem_cons, exists_eq_or_imp, hauth, false_or]
      -- the last group is the head only if there is no other group
      cases names with
      | nil => simp
      | cons n ns =>
        obtain ⟨last, hlast⟩ := Option.ne_none_iff_exists'.mp
          (List.getLast?_eq_none_iff.not.mpr (List.cons_ne_nil n ns))
        rw [List.getLast?_cons_cons, hlast]
        simp

/-- INTERNAL: what `check_and_get_addr` holds: the decision of an authorising group, else
what the last group amounts to; without any group the service is refused.
SOURCE: externgroups.patch:67-97, 170-263 -/
theorem mergeExternalGroups_groupBuffer (prior : Result) (names : List Bytes) (buf : Bytes)
    (hbuf : groupBuffer names <+: buf) (hnames : ∀ name ∈ names, IsGroupName name)
    (hparsed : NoSyntaxError addr_open check_and_get_addr_loop names) :
    mergeExternalGroups addr_open check_and_get_addr_loop prior (some buf) =
      if ∃ name ∈ names, permission addr_open check_and_get_addr_loop name = some .authorized
      then .authorized
      else (names.getLast?.map (amountsTo addr_open check_and_get_addr_loop prior)).getD
        .unauthorizedService := by
  unfold mergeExternalGroups checkExternalGroupPermissions
  simp only
  rw [groupLoop_groupBuffer addr_open check_and_get_addr_loop names buf hbuf _ hnames hparsed (by simp)]
  by_cases hauth : ∃ name ∈ names, permission addr_open check_and_get_addr_loop name =
      some .authorized
  · simp only [if_pos hauth]
    rfl
  · simp only [if_neg hauth]
    cases hlast : names.getLast? with
    | none => rfl
    | some name => exact ite_leaves addr_open check_and_get_addr_loop prior name

/-- **The groups of a reply that is delivered decide**, whatever `realloc` leaves behind them in the buffer: the block
of `check_and_get_addr` returns, with the decision of an authorising group, else with what the last group amounts to.
SOURCE: externgroups.patch:67-97, 170-263, 267-378 -/
theorem checkExternalGroups_delivered (sys : System) (hsys : Works sys) (login : Bytes) (prior : Result)
    (names chunks : List Bytes) (hnames : ∀ name ∈ names, IsGroupName name)
    (hparsed : NoSyntaxError addr_open check_and_get_addr_loop names)
    (hdelivers : Delivers login (names.map fun name => name ++ [newline]) chunks)
    (hdaemon : sys.daemon (request login) = chunks.map .data) :
    checkExternalGroups addr_open check_and_get_addr_loop sys login prior = some
      (if ∃ name ∈ names, permission addr_open check_and_get_addr_loop name = some .authorized
      then .authorized
      else (names.getLast?.map (amountsTo addr_open check_and_get_addr_loop prior)).getD
        .unauthorizedService) := by
  obtain ⟨buf, hcall, hbuf⟩ := hdelivers sys hsys hdaemon
  unfold checkExternalGroups
  rw [hcall]
  dsimp only
  rw [mergeExternalGroups_groupBuffer addr_open check_and_get_addr_loop prior names buf hbuf hnames hparsed]

/-- INTERNAL: every listed group is the last one of some order. -/
theorem exists_perm_getLast (names : List Bytes) (name : Bytes) (h : name ∈ names) :
    ∃ names' : List Bytes, names'.Perm names ∧ names'.getLast? = some name := by
  refine ⟨names.erase name ++ [name], ?_, by simp⟩
  have hfront : (names.erase name ++ [name]).Perm (name :: names.erase name) :=
    List.perm_append_singleton name (names.erase name)
  exact hfront.trans (List.perm_cons_erase h).symm

/-- **The order of the groups is irrelevant** exactly when some group authorises or all
groups amount to the same result.
SOURCE: externgroups.patch:67-97, 170-263 -/
theorem order_irrelevant_iff (prior : Result) (names : List Bytes)
    (hnames : ∀ name ∈ names, IsGroupName name)
    (hparsed : NoSyntaxError addr_open check_and_get_addr_loop names) :
    (∀ names' : List Bytes, names'.Perm names →
      mergeExternalGroups addr_open check_and_get_addr_loop prior (some (groupBuffer names')) =
        mergeExternalGroups addr_open check_and_get_addr_loop prior (some (groupBuffer names))) ↔
    (∃ name ∈ names, permission addr_open check_and_get_addr_loop name = some .authorized) ∨
      ∀ name ∈ names, ∀ name' ∈ names, amountsTo addr_open check_and_get_addr_loop prior name =
        amountsTo addr_open check_and_get_addr_loop prior name' := by
  have hmerge : ∀ names' : List Bytes, names'.Perm names →
      mergeExternalGroups addr_open check_and_get_addr_loop prior (some (groupBuffer names')) =
        if ∃ name ∈ names, permission addr_open check_and_get_addr_loop name = some .authorized
        then .authorized
        else (names'.getLast?.map (amountsTo addr_open check_and_get_addr_loop prior)).getD
          .unauthorizedService := by
    intro names' hperm
    rw [mergeExternalGroups_groupBuffer addr_open check_and_get_addr_loop prior names' _ List.prefix_rfl
      (fun n hn => hnames n (hperm.mem_iff.mp hn)) (fun n hn => hparsed n (hperm.mem_iff.mp hn))]
    simp only [hperm.mem_iff]
  by_cases hauth : ∃ name ∈ names, permission addr_open check_and_get_addr_loop name =
      some .authorized
  · refine iff_of_true ?_ (Or.inl hauth)
    intro names' hperm
    rw [hmerge names' hperm, hmerge names (List.Perm.refl names), if_pos hauth, if_pos hauth]
  · simp only [if_neg hauth] at hmerge
    constructor
    · intro hinv
      right
      -- move each of the two groups to the end of the list
      have hend : ∀ name ∈ names, amountsTo addr_open check_and_get_addr_loop prior name =
          mergeExternalGroups addr_open check_and_get_addr_loop prior (some (groupBuffer names)) := by
        intro name hmem
        obtain ⟨names', hperm, hlast⟩ := exists_perm_getLast names name hmem
        rw [← hinv names' hperm, hmerge names' hperm, hlast]
        rfl
      intro name hmem name' hmem'
      rw [hend name hmem, hend name' hmem']
    · intro hcond names' hperm
      have hsame := hcond.resolve_left hauth
      rw [hmerge names' hperm, hmerge names (List.Perm.refl names)]
      cases hlast : names.getLast? with
      | none =>
        have hnil : names = [] := List.getLast?_eq_none_iff.mp hlast
        have hnil' : names' = [] := List.Perm.eq_nil (hnil ▸ hperm)
        rw [hnil']
        simp
      | some last =>
        have hmem : last ∈ names := List.mem_of_getLast? hlast
        cases hlast' : names'.getLast? with
        | none =>
          have hnil' : names' = [] := List.getLast?_eq_none_iff.mp hlast'
          have hnil : names = [] := List.Perm.eq_nil (hnil' ▸ hperm.symm)
          simp [hnil] at hmem
        | some last' =>
          have hmem' : last' ∈ names := hperm.mem_iff.mp (List.mem_of_getLast? hlast')
          simp only [Option.map_some, Option.getD_some]
          exact hsame last' hmem' last hmem

end

/-- The groups of the examples: `a` has an address file that refuses the service, `b`
has none. -/
def refusingFile (name : Bytes) : Option Unit :=
  if name = ascii ['a'] then some () else none

/-- With a refused prior result the missing file amounts to a refusal as well, and the order of
the two groups is irrelevant.
SOURCE: externgroups.patch:67-97, 170-263 -/
theorem order_irrelevant_iff_refused :
    NoSyntaxError refusingFile (fun _ => (.unauthorizedService, false)) [ascii ['a'], ascii ['b']] ∧
    ∀ names' : List Bytes, names'.Perm [ascii ['a'], ascii ['b']] →
      mergeExternalGroups refusingFile (fun _ => (.unauthorizedService, false))
          .unauthorizedService (some (groupBuffer names')) =
        mergeExternalGroups refusingFile (fun _ => (.unauthorizedService, false))
          .unauthorizedService (some (groupBuffer [ascii ['a'], ascii ['b']])) := by
  have hparsed : NoSyntaxError refusingFile (fun _ => (.unauthorizedService, false))
      [ascii ['a'], ascii ['b']] := by
    intro name _ addr_file _
    rfl
  refine ⟨hparsed, ?_⟩
  refine (order_irrelevant_iff refusingFile (fun _ => (.unauthorizedService, false))
    .unauthorizedService [ascii ['a'], ascii ['b']] ?_ hparsed).mpr (Or.inr ?_)
  · simp only [IsGroupName]
    decide
  · decide

/-- The refusal of group `a` is lost when group `b`, which has no address file, is listed
behind it: the order of the groups decides.
SOURCE: externgroups.patch:67-97, 170-263 -/
theorem refusal_lost_behind_missing_file :
    (∀ name ∈ [ascii ['a'], ascii ['b']], IsGroupName name) ∧
      NoSyntaxError refusingFile (fun _ => (.unauthorizedService, false)) [ascii ['a'], ascii ['b']] ∧
      mergeExternalGroups refusingFile (fun _ => (.unauthorizedService, false)) .authorized
          (some (groupBuffer [ascii ['a'], ascii ['b']])) = .authorized ∧
      mergeExternalGroups refusingFile (fun _ => (.unauthorizedService, false)) .authorized
          (some (groupBuffer [ascii ['b'], ascii ['a']])) = .unauthorizedService := by
  have hnames : ∀ name ∈ [ascii ['a'], ascii ['b']], IsGroupName name := by
    simp only [IsGroupName]
    decide
  have hparsed : ∀ names, NoSyntaxError refusingFile (fun _ => (.unauthorizedService, false)) names :=
    fun _ _ _ _ _ => rfl
  have hperm : [ascii ['b'], ascii ['a']].Perm [ascii ['a'], ascii ['b']] := List.Perm.swap _ _ _
  refine ⟨hnames, hparsed _, ?_, ?_⟩
  · rw [mergeExternalGroups_groupBuffer _ _ _ _ _ List.prefix_rfl hnames (hparsed _)]
    decide
  · rw [mergeExternalGroups_groupBuffer _ _ _ _ _ List.prefix_rfl (fun n hn => hnames n (hperm.mem_iff.mp hn)) (hparsed _)]
    decide

end TTLinux.Analysis.ExternGroupOrder
