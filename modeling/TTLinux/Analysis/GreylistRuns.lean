import TTLinux.Analysis.GreylistCleanup

/-!
# Runs of the greylist

What a run of the five functions leaves in the table, against the history of the writes that took
effect. The row of a triple is the one that its last effective write has left, unless it is
expired and was deleted, by a cleanup or by a lookup. `find_entry` does not tell the two apart.
-/

set_option autoImplicit false

namespace TTLinux.Analysis.GreylistRuns

open TTLinux.Lib TTLinux.Model.Greylist TTLinux.Analysis.GreylistCleanup

/-! ## What a call does to the rows -/

/-- The row under a key is kept, or it is expired and is gone. -/
def Drops (cfg : Settings) (now : ℤ) (before after : Option Entry) : Prop :=
  after = before ∨ after = none ∧ ∃ e, before = some e ∧ expired cfg now e = true

/-- INTERNAL: an entry that stays. -/
theorem Drops.refl (cfg : Settings) (now : ℤ) (e : Option Entry) : Drops cfg now e e := Or.inl rfl

/-- INTERNAL: what was dropped earlier may be dropped later. -/
theorem Drops.mono (cfg : Settings) (now now' : ℤ) (hlater : now ≤ now') (a b : Option Entry)
    (h : Drops cfg now a b) : Drops cfg now' a b :=
  h.imp id fun ⟨hb, e, ha, hexp⟩ => ⟨hb, e, ha, expired_mono cfg now now' hlater e hexp⟩

/-- INTERNAL: an entry that goes in one of two steps. -/
theorem Drops.trans (cfg : Settings) (now : ℤ) (a b c : Option Entry) (hab : Drops cfg now a b)
    (hbc : Drops cfg now b c) : Drops cfg now a c := by
  rcases hbc with rfl | ⟨rfl, e, rfl, hexp⟩
  · exact hab
  · rcases hab with rfl | ⟨hnone, -⟩
    · exact Or.inr ⟨rfl, e, rfl, hexp⟩
    · contradiction

/-- INTERNAL: the clean-up drops entries that have expired only. -/
theorem drops_filter (cfg : Settings) (now : ℤ) (e : Option Entry) :
    Drops cfg now e (e.filter fun e => !expired cfg now e) := by
  cases e with
  | none => exact Drops.refl cfg now none
  | some e =>
    cases h : expired cfg now e with
    | true => exact Or.inr ⟨by simp [Option.filter, h], e, rfl, h⟩
    | false => exact Or.inl (by simp [Option.filter, h])

/-- INTERNAL: what was dropped is not found later, and would not have been found. -/
theorem answer_of_drops (cfg : Settings) (now : ℤ) (a b : Option Entry) (h : Drops cfg now a b) :
    answer cfg now b = answer cfg now a := by
  rcases h with rfl | ⟨rfl, e, rfl, hexp⟩
  · rfl
  · simp [answer, hexp]

/-- INTERNAL: closing the data base keeps its table. -/
@[simp] theorem exit_greylist (s : State) : s.exit.2.greylist = s.greylist := rfl

/-- INTERNAL: and its file. -/
@[simp] theorem exit_file (s : State) : s.exit.2.file = s.file := rfl

/-- INTERNAL: setting a parameter leaves the table. -/
@[simp] theorem setParameter_greylist (s : State) (i : Fin 4) (v : Slot) :
    (s.setParameter i v).greylist = s.greylist := rfl

/-- INTERNAL: the table of an open data base after it was set. -/
theorem setGreylist_greylist (s : State) (hfile : s.file.isSome) (t : KeyedTable Triple Entry) :
    (s.setGreylist t).greylist = t := by
  obtain ⟨d, hd⟩ := Option.isSome_iff_exists.mp hfile
  simp [State.setGreylist, State.greylist, hd]

/-- INTERNAL: the data base stays open. -/
@[simp] theorem setGreylist_file (s : State) (t : KeyedTable Triple Entry) :
    (s.setGreylist t).file.isSome = s.file.isSome := by
  simp [State.setGreylist]

/-- INTERNAL: and its parameters stay. -/
@[simp] theorem setGreylist_whereTriple (s : State) (t : KeyedTable Triple Entry) :
    (s.setGreylist t).whereTriple = s.whereTriple := rfl

/-- INTERNAL: the fourth parameter is none of the triple. -/
@[simp] theorem setParameter_three_whereTriple (s : State) (v : Slot) :
    (s.setParameter 3 v).whereTriple = s.whereTriple := by
  simp [State.setParameter, State.whereTriple, State.glParameter, Function.update_of_ne]

section Calls

variable (s : State) (hdb : s.db = true) (hfile : s.file.isSome)

include hdb hfile in
/-- INTERNAL: `delete_entry` removes the row of its triple. -/
theorem deleteEntry_lookup (t : Triple) (ht : s.whereTriple = some t) (t' : Triple) :
    (deleteEntry s).2.greylist.lookup t' = if t' = t then none else s.greylist.lookup t' := by
  simp only [deleteEntry, hdb, Bool.not_true, Bool.false_eq_true, if_false, ht,
    setGreylist_greylist s hfile, KeyedTable.lookup_deleteWhere]
  by_cases hk : t' = t
  · cases s.greylist.lookup t' <;> simp [hk, Option.filter]
  · cases s.greylist.lookup t' <;> simp [hk, Option.filter]

include hdb hfile in
/-- INTERNAL: `find_entry` deletes the row of its triple if it is expired. -/
theorem findEntry_lookup (cfg : Settings) (now : ℤ) (t t' : Triple) :
    Drops cfg now (s.greylist.lookup t') ((findEntry cfg now t s).2.greylist.lookup t') ∧
      (t' ≠ t → (findEntry cfg now t s).2.greylist.lookup t' = s.greylist.lookup t') := by
  simp only [findEntry, setTriple_db, hdb, Bool.not_true, Bool.false_eq_true, if_false,
    setTriple_whereTriple, setTriple_greylist, Option.bind_some]
  cases hl : s.greylist.lookup t with
  | none => exact ⟨Drops.refl cfg now _, fun _ => rfl⟩
  | some e =>
    dsimp only
    split_ifs with hhead hexp
    · exact ⟨Drops.refl cfg now _, fun _ => rfl⟩
    · -- the expired row is deleted by the parameters that the lookup has set
      have hdel := deleteEntry_lookup (s.setTriple t) hdb hfile t (setTriple_whereTriple s t) t'
      rw [setTriple_greylist] at hdel
      rw [hdel]
      by_cases hk : t' = t
      · rw [if_pos hk, hk, hl]
        exact ⟨Or.inr ⟨rfl, e, rfl, hexp⟩, fun h => absurd rfl h⟩
      · rw [if_neg hk]
        exact ⟨Drops.refl cfg now _, fun _ => rfl⟩
    · exact ⟨Drops.refl cfg now _, fun _ => rfl⟩
    · exact ⟨Drops.refl cfg now _, fun _ => rfl⟩

include hdb hfile in
/-- INTERNAL: `update_entry` renews the row of its triple, if there is one. -/
theorem updateEntry_lookup (now : ℤ) (h0 : 0 ≤ now) (hnow : now < 2 ^ 32) (t : Triple)
    (ht : s.whereTriple = some t) (t' : Triple) :
    (updateEntry now s).2.greylist.lookup t' =
      if t' = t then (s.greylist.lookup t').map fun _ => ⟨flagGood, hexText 8 now.toNat⟩
      else s.greylist.lookup t' := by
  have hdb' : (s.setParameter 3 .dangling).db = true := hdb
  have hfile' : (s.setParameter 3 .dangling).file.isSome := hfile
  simp only [updateEntry, timeAsString_eq now h0 hnow, hdb', Bool.not_true, Bool.false_eq_true, if_false,
    setParameter_three_whereTriple, ht, setGreylist_greylist _ hfile', setParameter_greylist,
    KeyedTable.lookup_modify]

include hdb hfile in
/-- INTERNAL: `add_entry` adds a row, unless the triple has one. -/
theorem addEntry_lookup (now : ℤ) (h0 : 0 ≤ now) (hnow : now < 2 ^ 32) (t t' : Triple) :
    (addEntry now t s).2.greylist.lookup t' =
      if t' = t ∧ s.greylist.lookup t = none then some ⟨flagWaiting, hexText 8 now.toNat⟩
      else s.greylist.lookup t' := by
  have hdb' : ((s.setTriple t).setParameter 3 .dangling).db = true := hdb
  have hfile' : ((s.setTriple t).setParameter 3 .dangling).file.isSome := hfile
  simp only [addEntry, timeAsString_eq now h0 hnow, hdb', Bool.not_true, Bool.false_eq_true, if_false,
    setParameter_greylist, setTriple_greylist]
  cases hins : s.greylist.insert t ⟨flagWaiting, hexText 8 now.toNat⟩ with
  | none =>
    have hsome := (KeyedTable.insert_eq_none _ t _).mp hins
    have hne : s.greylist.lookup t ≠ none := Option.isSome_iff_ne_none.mp hsome
    rw [if_neg fun h => hne h.2]
    rfl
  | some greylist =>
    have hnone : s.greylist.lookup t = none := by
      rw [← Option.not_isSome_iff_eq_none, ← KeyedTable.insert_eq_none _ t ⟨flagWaiting, hexText 8 now.toNat⟩,
        hins]
      simp
    simp only [setGreylist_greylist _ hfile', KeyedTable.lookup_insert _ greylist t t' _ hins, hnone, and_true]

include hdb in
/-- INTERNAL: `delete_entry` keeps the file and the triple. -/
theorem deleteEntry_process :
    (deleteEntry s).2.file.isSome = s.file.isSome ∧ (deleteEntry s).2.whereTriple = s.whereTriple := by
  simp only [deleteEntry, hdb, Bool.not_true, Bool.false_eq_true, if_false]
  cases h : s.whereTriple with
  | none => exact ⟨rfl, h⟩
  | some t => exact ⟨setGreylist_file _ _, h⟩

include hdb in
/-- INTERNAL: `find_entry` keeps the file and sets the triple. -/
theorem findEntry_process (cfg : Settings) (now : ℤ) (t : Triple) :
    (findEntry cfg now t s).2.file.isSome = s.file.isSome ∧
      (findEntry cfg now t s).2.whereTriple = some t := by
  have hdel := deleteEntry_process (s.setTriple t) hdb
  rw [setTriple_whereTriple] at hdel
  have hself : (s.setTriple t).file.isSome = s.file.isSome ∧ (s.setTriple t).whereTriple = some t :=
    ⟨rfl, setTriple_whereTriple s t⟩
  simp only [findEntry, setTriple_db, hdb, Bool.not_true, Bool.false_eq_true, if_false,
    setTriple_whereTriple, setTriple_greylist, Option.bind_some]
  cases s.greylist.lookup t with
  | none => exact hself
  | some e =>
    dsimp only
    split_ifs
    · exact hself
    · exact hdel
    · exact hself
    · exact hself

include hdb in
/-- INTERNAL: `update_entry` keeps the file and the triple. -/
theorem updateEntry_process (now : ℤ) (h0 : 0 ≤ now) (hnow : now < 2 ^ 32) :
    (updateEntry now s).2.file.isSome = s.file.isSome ∧
      (updateEntry now s).2.whereTriple = s.whereTriple := by
  have hdb' : (s.setParameter 3 .dangling).db = true := hdb
  have hwhere := setParameter_three_whereTriple s .dangling
  simp only [updateEntry, timeAsString_eq now h0 hnow, hdb', Bool.not_true, Bool.false_eq_true, if_false]
  cases h : (s.setParameter 3 .dangling).whereTriple with
  | none => exact ⟨rfl, hwhere⟩
  | some t => exact ⟨setGreylist_file _ _, hwhere⟩

include hdb in
/-- INTERNAL: `add_entry` keeps its triple in the parameters, unless the process ends. -/
theorem addEntry_process (now : ℤ) (h0 : 0 ≤ now) (hnow : now < 2 ^ 32) (t : Triple)
    (hdb' : (addEntry now t s).2.db = true) :
    (addEntry now t s).2.file.isSome = s.file.isSome ∧ (addEntry now t s).2.whereTriple = some t := by
  have hset : ((s.setTriple t).setParameter 3 .dangling).db = true := hdb
  have hwhere := setParameter_three_whereTriple (s.setTriple t) .dangling
  rw [setTriple_whereTriple] at hwhere
  simp only [addEntry, timeAsString_eq now h0 hnow, hset, Bool.not_true, Bool.false_eq_true, if_false] at hdb' ⊢
  cases h : ((s.setTriple t).setParameter 3 .dangling).greylist.insert t ⟨flagWaiting, hexText 8 now.toNat⟩ with
  | none =>
    rw [h] at hdb'
    exact absurd hdb' Bool.false_ne_true
  | some greylist => exact ⟨setGreylist_file _ _, hwhere⟩

end Calls

/-- INTERNAL: `opendb` leaves a file with tables, of which it has deleted expired rows at most. -/
theorem opendb_lookup (cfg : Settings) (now : ℤ) (hwait : cfg.maxWait ≤ now) (hgood : cfg.acceptGood ≤ now)
    (hnow : now < 2 ^ 32) (s : State)
    (htimes : ∀ t e, s.greylist.lookup t = some e → IsTimestamp e.timestamp) :
    (opendb cfg now s).2.file.isSome ∧
      ∀ t, Drops cfg now (s.greylist.lookup t) ((opendb cfg now s).2.greylist.lookup t) := by
  have htime := timeAsString_eq now (by omega) hnow
  cases hfile : s.file with
  | none =>
    have hempty : s.greylist = .empty := by simp [State.greylist, hfile]
    simp only [opendb, hfile, htime]
    refine ⟨rfl, fun t => Or.inl ?_⟩
    rw [hempty]
    rfl
  | some d =>
    have htable : s.greylist = d.greylist := by simp [State.greylist, hfile]
    rw [htable] at htimes ⊢
    simp only [opendb, hfile]
    split_ifs with hversion
    · exact ⟨rfl, fun t => Drops.refl cfg now _⟩
    cases hlast : d.lastCleanup with
    | none =>
      simp only [htime]
      exact ⟨rfl, fun t => Drops.refl cfg now _⟩
    | some last =>
      dsimp only
      split_ifs with hhead hold
      · exact ⟨rfl, fun t => Drops.refl cfg now _⟩
      · simp only [cleanup_eq cfg now hwait hgood hnow d]
        refine ⟨rfl, fun t => ?_⟩
        have hlookup := lookup_cleanup cfg now hwait hgood hnow d.greylist htimes t
        exact hlookup ▸ drops_filter cfg now (d.greylist.lookup t)
      · exact ⟨rfl, fun t => Drops.refl cfg now _⟩

/-! ## The history of a run -/

/-- The calls of a run. -/
inductive Op where
  | opendb
  | findEntry (t : Triple)
  | addEntry (t : Triple)
  | updateEntry
  | deleteEntry
deriving DecidableEq

/-- A call at the time `now`. -/
def Op.call (cfg : Settings) (now : ℤ) : Op → State → Outcome × State
  | .opendb => Model.Greylist.opendb cfg now
  | .findEntry t => Model.Greylist.findEntry cfg now t
  | .addEntry t => Model.Greylist.addEntry now t
  | .updateEntry => Model.Greylist.updateEntry now
  | .deleteEntry => Model.Greylist.deleteEntry

/-- The functions that write to a triple. -/
inductive Kind where
  | add
  | update
  | delete
deriving DecidableEq

/-- A write that took effect. -/
structure Write where
  triple : Triple
  kind : Kind
  time : ℤ
deriving DecidableEq

/-- A run so far: the process and its file, the writes that took effect with the last one first,
the time of the last call, and the triple of the last `find_entry` or `add_entry` since `opendb`. -/
structure World where
  state : State
  writes : List Write
  clock : ℤ
  current : Option Triple

/-- No file and no process yet. -/
def World.start : World := ⟨⟨false, none, fun _ => .null⟩, [], 0, none⟩

/-- The triple that a call is about. The last two functions are meant for the triple of the call
before them. -/
def World.subject (w : World) : Op → Option Triple
  | .opendb => none
  | .findEntry t => some t
  | .addEntry t => some t
  | .updateEntry => w.current
  | .deleteEntry => w.current

/-- The write that takes effect in a call: an insertion if the triple has no row, a change or a
deletion if it has one. -/
def World.effect (w : World) (now : ℤ) (op : Op) : Option Write :=
  (w.subject op).bind fun t =>
    match op with
    | .opendb => none
    | .findEntry _ => none
    | .addEntry _ => if (w.state.greylist.lookup t).isNone then some ⟨t, .add, now⟩ else none
    | .updateEntry => if (w.state.greylist.lookup t).isSome then some ⟨t, .update, now⟩ else none
    | .deleteEntry => if (w.state.greylist.lookup t).isSome then some ⟨t, .delete, now⟩ else none

/-- One call. -/
def World.step (cfg : Settings) (w : World) (now : ℤ) (op : Op) : World where
  state := (op.call cfg now w.state).2
  writes := (w.effect now op).toList ++ w.writes
  clock := now
  current := w.subject op

/-- The calls of a run: at times that do not decrease, are below `2 ^ 32` and not below the limits;
all but `opendb` on an open database, and the last two only after a `find_entry` or an
`add_entry` with no `opendb` since. -/
structure Admissible (cfg : Settings) (w : World) (now : ℤ) (op : Op) : Prop where
  later : w.clock ≤ now
  small : now < 2 ^ 32
  maxWait : cfg.maxWait ≤ now
  acceptGood : cfg.acceptGood ≤ now
  opened : op ≠ .opendb → w.state.db = true
  directly : op = .updateEntry ∨ op = .deleteEntry → w.current.isSome

/-- The states that a run can reach. -/
inductive Reachable (cfg : Settings) : World → Prop where
  | start : Reachable cfg World.start
  | step (w : World) (now : ℤ) (op : Op) :
      Reachable cfg w → Admissible cfg w now op → Reachable cfg (w.step cfg now op)

/-- The last write to a triple that took effect. -/
def World.lastWrite (w : World) (t : Triple) : Option Write := w.writes.find? fun x => x.triple = t

/-- The row that a write leaves. -/
def Write.entry (x : Write) : Option Entry :=
  match x.kind with
  | .add => some ⟨flagWaiting, hexText 8 x.time.toNat⟩
  | .update => some ⟨flagGood, hexText 8 x.time.toNat⟩
  | .delete => none

/-- The row that the last write to a triple has left. -/
def World.ledger (w : World) (t : Triple) : Option Entry := (w.lastWrite t).bind Write.entry

/-- What holds along every run. -/
structure Kept (cfg : Settings) (w : World) : Prop where
  /-- The table holds what the last writes have left, but for expired rows. -/
  rows : ∀ t, Drops cfg w.clock (w.ledger t) (w.state.greylist.lookup t)
  times : ∀ x ∈ w.writes, 0 ≤ x.time ∧ x.time < 2 ^ 32
  clock : 0 ≤ w.clock
  file : w.state.db = true → w.state.file.isSome
  /-- The first three parameters are those of the call before. -/
  parameters : w.state.db = true → ∀ t, w.current = some t → w.state.whereTriple = some t

/-- INTERNAL: the last write for a triple is one of its writes. -/
theorem lastWrite_mem (w : World) (t : Triple) (x : Write) (h : w.lastWrite t = some x) :
    x ∈ w.writes ∧ x.triple = t :=
  ⟨List.mem_of_find?_eq_some h, by simpa using List.find?_some h⟩

/-- INTERNAL: the entries that are kept have timestamps. -/
theorem Kept.timestamps (cfg : Settings) (w : World) (h : Kept cfg w) (t : Triple) (e : Entry)
    (he : w.state.greylist.lookup t = some e) : IsTimestamp e.timestamp := by
  have hledger : w.ledger t = some e := by
    rcases h.rows t with hsame | ⟨hnone, -⟩
    · rw [← hsame, he]
    · rw [he] at hnone
      contradiction
  obtain ⟨x, -, hx⟩ := Option.bind_eq_some_iff.mp hledger
  rw [Write.entry] at hx
  cases hkind : x.kind with
  | add =>
    simp only [hkind, Option.some.injEq] at hx
    rw [← hx]
    exact isTimestamp_hexText _
  | update =>
    simp only [hkind, Option.some.injEq] at hx
    rw [← hx]
    exact isTimestamp_hexText _
  | delete => simp [hkind] at hx

/-- INTERNAL: the rows that the history leaves after one more call. -/
theorem ledger_step (cfg : Settings) (w : World) (now : ℤ) (op : Op) (t : Triple) :
    (w.step cfg now op).ledger t =
      match w.effect now op with
      | none => w.ledger t
      | some x => if x.triple = t then x.entry else w.ledger t := by
  simp only [World.ledger, World.lastWrite, World.step]
  cases w.effect now op with
  | none => rfl
  | some x =>
    by_cases hx : x.triple = t
    · simp [hx]
    · simp [hx]

/-! ## One call of a run -/

section Step

variable (cfg : Settings) (w : World) (hkept : Kept cfg w) (now : ℤ) (op : Op)
variable (hadm : Admissible cfg w now op)

include hkept hadm

/-- INTERNAL: the triple that `update_entry` and `delete_entry` work on is the current one. -/
theorem whereTriple_of_directly (hop : op = .updateEntry ∨ op = .deleteEntry) :
    ∃ t, w.current = some t ∧ w.state.whereTriple = some t := by
  obtain ⟨t, ht⟩ := Option.isSome_iff_exists.mp (hadm.directly hop)
  have hdb : w.state.db = true := by
    apply hadm.opened
    rintro rfl
    simp at hop
  exact ⟨t, ht, hkept.parameters hdb t ht⟩

/-- INTERNAL: **the rows after a call** are those of the history, but for expired ones. -/
theorem rows_step (t : Triple) :
    Drops cfg now ((w.step cfg now op).ledger t) ((w.step cfg now op).state.greylist.lookup t) := by
  have hmono : Drops cfg now (w.ledger t) (w.state.greylist.lookup t) :=
    Drops.mono cfg w.clock now hadm.later _ _ (hkept.rows t)
  have h0 : 0 ≤ now := le_trans hkept.clock hadm.later
  rw [ledger_step]
  cases op with
  | opendb =>
    have hopen := (opendb_lookup cfg now hadm.maxWait hadm.acceptGood hadm.small w.state
      (Kept.timestamps cfg w hkept)).2 t
    exact Drops.trans cfg now _ _ _ hmono hopen
  | findEntry t₀ =>
    have hdb := hadm.opened (by simp)
    have hfind := (findEntry_lookup w.state hdb (hkept.file hdb) cfg now t₀ t).1
    exact Drops.trans cfg now _ _ _ hmono hfind
  | addEntry t₀ =>
    have hdb := hadm.opened (by simp)
    have hadd := addEntry_lookup w.state hdb (hkept.file hdb) now h0 hadm.small t₀ t
    simp only [World.step, Op.call, hadd, World.effect, World.subject, Option.bind_some]
    cases hl : w.state.greylist.lookup t₀ with
    | some e => simpa using hmono
    | none =>
      by_cases ht : t = t₀
      · simp [ht, Write.entry, Drops.refl]
      · simpa [ht, Ne.symm ht] using hmono
  | updateEntry =>
    have hdb := hadm.opened (by simp)
    obtain ⟨t₀, hcur, hwhere⟩ := whereTriple_of_directly cfg w hkept now _ hadm (Or.inl rfl)
    have hupd := updateEntry_lookup w.state hdb (hkept.file hdb) now h0 hadm.small t₀ hwhere t
    simp only [World.step, Op.call, hupd, World.effect, World.subject, hcur, Option.bind_some]
    cases hl : w.state.greylist.lookup t₀ with
    | none =>
      by_cases ht : t = t₀
      · subst ht
        simpa [hl] using hmono
      · simpa [ht] using hmono
    | some e =>
      by_cases ht : t = t₀
      · simp [ht, hl, Write.entry, Drops.refl]
      · simpa [ht, Ne.symm ht] using hmono
  | deleteEntry =>
    have hdb := hadm.opened (by simp)
    obtain ⟨t₀, hcur, hwhere⟩ := whereTriple_of_directly cfg w hkept now _ hadm (Or.inr rfl)
    have hdel := deleteEntry_lookup w.state hdb (hkept.file hdb) t₀ hwhere t
    simp only [World.step, Op.call, hdel, World.effect, World.subject, hcur, Option.bind_some]
    cases hl : w.state.greylist.lookup t₀ with
    | none =>
      by_cases ht : t = t₀
      · subst ht
        simpa [hl] using hmono
      · simpa [ht] using hmono
    | some e =>
      by_cases ht : t = t₀
      · simp [ht, Write.entry, Drops.refl]
      · simpa [ht, Ne.symm ht] using hmono

/-- INTERNAL: **the other rows** are left alone, or expired and removed by `opendb`. -/
theorem frame_step (t : Triple) (ht : w.subject op ≠ some t) :
    (w.step cfg now op).state.greylist.lookup t = w.state.greylist.lookup t ∨
      op = .opendb ∧ (w.step cfg now op).state.greylist.lookup t = none ∧
        ∃ e, w.state.greylist.lookup t = some e ∧ expired cfg now e = true := by
  have h0 : 0 ≤ now := le_trans hkept.clock hadm.later
  cases op with
  | opendb =>
    have hopen := (opendb_lookup cfg now hadm.maxWait hadm.acceptGood hadm.small w.state
      (Kept.timestamps cfg w hkept)).2 t
    exact hopen.imp id fun h => ⟨rfl, h⟩
  | findEntry t₀ =>
    have hdb := hadm.opened (by simp)
    have hne : t ≠ t₀ := fun h => ht (by rw [h]; rfl)
    exact Or.inl ((findEntry_lookup w.state hdb (hkept.file hdb) cfg now t₀ t).2 hne)
  | addEntry t₀ =>
    have hdb := hadm.opened (by simp)
    have hne : t ≠ t₀ := fun h => ht (by rw [h]; rfl)
    apply Or.inl
    exact (addEntry_lookup w.state hdb (hkept.file hdb) now h0 hadm.small t₀ t).trans (if_neg fun h => hne h.1)
  | updateEntry =>
    have hdb := hadm.opened (by simp)
    obtain ⟨t₀, hcur, hwhere⟩ := whereTriple_of_directly cfg w hkept now _ hadm (Or.inl rfl)
    have hne : t ≠ t₀ := fun h => ht (by rw [h]; exact hcur)
    apply Or.inl
    exact (updateEntry_lookup w.state hdb (hkept.file hdb) now h0 hadm.small t₀ hwhere t).trans (if_neg hne)
  | deleteEntry =>
    have hdb := hadm.opened (by simp)
    obtain ⟨t₀, hcur, hwhere⟩ := whereTriple_of_directly cfg w hkept now _ hadm (Or.inr rfl)
    have hne : t ≠ t₀ := fun h => ht (by rw [h]; exact hcur)
    apply Or.inl
    exact (deleteEntry_lookup w.state hdb (hkept.file hdb) t₀ hwhere t).trans (if_neg hne)

/-- INTERNAL: **the process after a call**: a file with tables, and the parameters of its triple. -/
theorem process_step (hdb' : (w.step cfg now op).state.db = true) :
    (w.step cfg now op).state.file.isSome ∧
      ∀ t, w.subject op = some t → (w.step cfg now op).state.whereTriple = some t := by
  have h0 : 0 ≤ now := le_trans hkept.clock hadm.later
  cases op with
  | opendb =>
    have hopen := opendb_lookup cfg now hadm.maxWait hadm.acceptGood hadm.small w.state
      (Kept.timestamps cfg w hkept)
    exact ⟨hopen.1, fun t ht => by simp [World.subject] at ht⟩
  | findEntry t₀ =>
    have hdb := hadm.opened (by simp)
    obtain ⟨hfile, hwhere⟩ := findEntry_process w.state hdb cfg now t₀
    exact ⟨hfile.trans (hkept.file hdb), fun t ht => hwhere.trans ht⟩
  | addEntry t₀ =>
    have hdb := hadm.opened (by simp)
    obtain ⟨hfile, hwhere⟩ := addEntry_process w.state hdb now h0 hadm.small t₀ hdb'
    exact ⟨hfile.trans (hkept.file hdb), fun t ht => hwhere.trans ht⟩
  | updateEntry =>
    have hdb := hadm.opened (by simp)
    obtain ⟨hfile, hwhere⟩ := updateEntry_process w.state hdb now h0 hadm.small
    exact ⟨hfile.trans (hkept.file hdb), fun t ht => hwhere.trans (hkept.parameters hdb t ht)⟩
  | deleteEntry =>
    have hdb := hadm.opened (by simp)
    obtain ⟨hfile, hwhere⟩ := deleteEntry_process w.state hdb
    exact ⟨hfile.trans (hkept.file hdb), fun t ht => hwhere.trans (hkept.parameters hdb t ht)⟩

/-- INTERNAL: the writes of one more step have times that fit. -/
theorem times_step (x : Write) (hx : x ∈ (w.step cfg now op).writes) : 0 ≤ x.time ∧ x.time < 2 ^ 32 := by
  rcases List.mem_append.mp hx with hnew | hold
  · have htime : x.time = now := by
      have heff : w.effect now op = some x := by simpa [Option.mem_toList] using hnew
      obtain ⟨t, -, ht⟩ := Option.bind_eq_some_iff.mp heff
      cases op <;> simp only [Option.ite_none_right_eq_some, reduceCtorEq] at ht
      all_goals rw [← Option.some.inj ht.2]
    rw [htime]
    exact ⟨le_trans hkept.clock hadm.later, hadm.small⟩
  · exact hkept.times x hold

/-- INTERNAL: **a call keeps the invariant.** -/
theorem kept_step : Kept cfg (w.step cfg now op) where
  rows := rows_step cfg w hkept now op hadm
  times := times_step cfg w hkept now op hadm
  clock := le_trans hkept.clock hadm.later
  file := fun hdb => (process_step cfg w hkept now op hadm hdb).1
  parameters := fun hdb => (process_step cfg w hkept now op hadm hdb).2

end Step

/-- INTERNAL: **every run keeps the invariant.** -/
theorem kept_of_reachable (cfg : Settings) (w : World) (h : Reachable cfg w) : Kept cfg w := by
  induction h with
  | start =>
    exact ⟨fun t => Drops.refl cfg _ none, by simp [World.start], le_rfl, by simp [World.start],
      by simp [World.start]⟩
  | step w now op _ hadm ih => exact kept_step cfg w ih now op hadm

/-! ## What a lookup answers -/

/-- An update not longer than `accept_good` ago, or an addition between `min_reject` and `max_wait`
ago. -/
def Good (cfg : Settings) (now : ℤ) (x : Write) : Prop :=
  x.kind = .update ∧ now - x.time ≤ cfg.acceptGood ∨
    x.kind = .add ∧ cfg.minReject ≤ now - x.time ∧ now - x.time ≤ cfg.maxWait

/-- An addition less than `min_reject`, and not longer than `max_wait`, ago. -/
def Waiting (cfg : Settings) (now : ℤ) (x : Write) : Prop :=
  x.kind = .add ∧ now - x.time < cfg.minReject ∧ now - x.time ≤ cfg.maxWait

/-- INTERNAL: the answer for the row that a write has left. -/
theorem answer_entry (cfg : Settings) (now : ℤ) (x : Write) (h0 : 0 ≤ x.time) (hlt : x.time < 2 ^ 32) :
    (0 < answer cfg now x.entry ↔ Good cfg now x) ∧ (answer cfg now x.entry = 0 ↔ Waiting cfg now x) := by
  have hparse := parseTimeString_hexText x.time h0 hlt
  have hhead := timestamp_head_ne_zero _ (isTimestamp_hexText x.time.toNat)
  have hflags : flagWaiting ≠ flagGood := by decide
  cases hkind : x.kind with
  | delete => simp [Write.entry, hkind, answer, Good, Waiting]
  | add =>
    have hanswer : answer cfg now x.entry =
        if now - x.time > cfg.maxWait then -1 else if now - x.time ≥ cfg.minReject then 1 else 0 := by
      simp only [Write.entry, hkind, answer, if_neg hhead, expired, hparse, hflags, decide_true, Bool.and_true,
        decide_false, Bool.and_false, Bool.or_false, decide_eq_true_eq, false_or]
    simp only [hanswer, Good, Waiting, hkind, reduceCtorEq, false_and, true_and, false_or]
    split_ifs
    · exact ⟨iff_of_false (by decide) (by omega), iff_of_false (by decide) (by omega)⟩
    · exact ⟨iff_of_true (by decide) (by omega), iff_of_false (by decide) (by omega)⟩
    · exact ⟨iff_of_false (by decide) (by omega), iff_of_true rfl (by omega)⟩
  | update =>
    have hanswer : answer cfg now x.entry = if now - x.time > cfg.acceptGood then -1 else 1 := by
      simp only [Write.entry, hkind, answer, if_neg hhead, expired, hparse, hflags.symm, decide_true,
        Bool.and_true, decide_false, Bool.and_false, Bool.false_or, decide_eq_true_eq, true_or, if_true]
    simp only [hanswer, Good, Waiting, hkind, reduceCtorEq, false_and, true_and, or_false]
    split_ifs
    · exact ⟨iff_of_false (by decide) (by omega), iff_of_false (by decide) id⟩
    · exact ⟨iff_of_true (by decide) (by omega), iff_of_false (by decide) id⟩

/-- **What a lookup answers, in every run.** `find_entry` returns a positive number exactly if the last
effective write to the triple was an update within `accept_good`, or an addition between
`min_reject` and `max_wait` ago; zero exactly if it was an addition less than `min_reject` and at most
`max_wait` ago. No call changes the row of another triple, but a cleanup may remove expired rows.
SOURCE: greylisting-spp-sqlite3.patch:159-407 -/
theorem findEntry_by_history (cfg : Settings) (w : World) (hreach : Reachable cfg w) (now : ℤ) :
    (∀ t, Admissible cfg w now (.findEntry t) →
      ∃ v, (findEntry cfg now t w.state).1 = .returned v ∧
        (0 < v ↔ ∃ x, w.lastWrite t = some x ∧ Good cfg now x) ∧
        (v = 0 ↔ ∃ x, w.lastWrite t = some x ∧ Waiting cfg now x)) ∧
      ∀ op, Admissible cfg w now op → ∀ t, w.subject op ≠ some t →
        (w.step cfg now op).state.greylist.lookup t = w.state.greylist.lookup t ∨
          op = .opendb ∧ (w.step cfg now op).state.greylist.lookup t = none ∧
            ∃ e, w.state.greylist.lookup t = some e ∧ expired cfg now e = true := by
  have hkept := kept_of_reachable cfg w hreach
  refine ⟨fun t hadm => ?_, fun op hadm t ht => frame_step cfg w hkept now op hadm t ht⟩
  have hdb := hadm.opened (by simp)
  refine ⟨_, findEntry_answer cfg now t w.state hdb, ?_⟩
  rw [answer_of_drops cfg now _ _ (Drops.mono cfg w.clock now hadm.later _ _ (hkept.rows t)), World.ledger]
  cases hlast : w.lastWrite t with
  | none => simp [answer]
  | some x =>
    obtain ⟨h0, hlt⟩ := hkept.times x (lastWrite_mem w t x hlast).1
    obtain ⟨hgood, hwaiting⟩ := answer_entry cfg now x h0 hlt
    simpa using ⟨hgood, hwaiting⟩

/-- A world after `opendb`, a first lookup and an addition in one second. -/
def World.afterAdd (t : Triple) : World :=
  ((World.start.step sampleSettings 4000000 .opendb).step sampleSettings 4000000 (.findEntry t)).step
    sampleSettings 4000000 (.addEntry t)

/-- **A triple tried again** five minutes after it was added is accepted. -/
theorem findEntry_by_history_retry :
    ∃ v, (findEntry sampleSettings 4000300 ⟨[49], [50], [51]⟩ (World.afterAdd ⟨[49], [50], [51]⟩).state).1 =
      .returned v ∧ 0 < v := by
  have hreach : Reachable sampleSettings (World.afterAdd ⟨[49], [50], [51]⟩) := by
    refine .step _ _ _ (.step _ _ _ (.step _ _ _ .start ?_) ?_) ?_
    all_goals exact ⟨by decide, by decide, by decide, by decide, by decide, by simp⟩
  have hadm : Admissible sampleSettings (World.afterAdd ⟨[49], [50], [51]⟩) 4000300
      (.findEntry ⟨[49], [50], [51]⟩) :=
    ⟨by decide, by decide, by decide, by decide, by decide, by simp⟩
  obtain ⟨v, hret, hgood, -⟩ := (findEntry_by_history sampleSettings _ hreach 4000300).1 _ hadm
  exact ⟨v, hret, hgood.mpr ⟨⟨⟨[49], [50], [51]⟩, .add, 4000000⟩, by decide, Or.inr (by decide)⟩⟩

end TTLinux.Analysis.GreylistRuns
