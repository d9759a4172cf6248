import TdhSocket.Execute.RowIndex

/-!
# A round of UPDATE

The loop of `do_find` with the handlers of UPDATE. A row that was changed takes its new place in the
index, and when that place is ahead of the cursor and still in the range, the loop comes to the row
again. The same happens when the row has a later key of an IN.

`RoundDoes` lists what a round can do to the table, and `round_does` is the only place that goes
through the code of a round. `Comes` has the visits the loop will still make, with one lemma for
each thing a round does to them.
-/

set_option autoImplicit false

namespace TdhSocket.Execute

open Protocol Decode Library

variable {Outside Record Place : Type} [LinearOrder Place] {entry : Entry Record}

/-! ### The change of a row -/

/-- One round of the value loop of `update_record` for SET, ADD and SUB. -/
def appliedField (field : Field Record) (value : ValueEntry) (record : Record) : Option Record :=
  match value.flag with
  | .set =>
    if value.value.length = 0 then some (field.setNull record)
    else
      let stored := field.store (content value.value) record
      if stored.1 < 0 then none else some stored.2
  | .add =>
    let stored := field.storeInt (wrapInt64 (field.valInt record + delta value.value)) record
    if stored.1 < 0 then none else some stored.2
  | .sub =>
    let stored := field.storeInt (wrapInt64 (field.valInt record - delta value.value)) record
    if stored.1 < 0 then none else some stored.2
  | .now => some record

/-- The value loop of `update_record` for SET, ADD and SUB. -/
def applied : List (Field Record × ValueEntry) → Record → Option Record
  | [], record => some record
  | pair :: pairs, record => (appliedField pair.1 pair.2 record).bind (applied pairs)

theorem updateFields_eq (world : World Outside Record) {pairs : List (Field Record × ValueEntry)}
    (hpairs : ∀ pair ∈ pairs, pair.2.flag ≠ .now) (record : Record)
    (context : Context Outside Record) :
    updateFields world pairs record context = some (applied pairs record, context) := by
  induction pairs generalizing record with
  | nil => rfl
  | cons pair pairs ih =>
    have hfield : updateField world pair.1 pair.2 record context =
        some (appliedField pair.1 pair.2 record, context) := by
      have hflag := hpairs pair List.mem_cons_self
      unfold updateField appliedField
      cases hget : pair.2.flag with
      | now => exact absurd hget hflag
      | set =>
        split_ifs <;> rfl
      | add | sub => rfl
    rw [updateFields, Program.bind_of_eq_some hfield, applied]
    cases appliedField pair.1 pair.2 record with
    | none => rfl
    | some next => exact ih (fun other hother ↦ hpairs other (List.mem_cons_of_mem _ hother)) next

theorem map_id_replaceRow (id : ℕ) (new : Record) (entries : List (Entry Record)) :
    (replaceRow id new entries).map Entry.id = entries.map Entry.id := by
  rw [replaceRow, List.map_map]
  refine List.map_congr_left fun entry _ ↦ ?_
  simp only [Function.comp]
  split_ifs with hid
  · exact hid.symm
  · rfl

theorem mem_replaceRow_iff {id : ℕ} {new : Record} {entries : List (Entry Record)}
    (hid : entry.id ≠ id) :
    entry ∈ replaceRow id new entries ↔ entry ∈ entries := by
  rw [replaceRow, List.mem_map]
  constructor
  · rintro ⟨old, hold, rfl⟩
    split_ifs at hid ⊢ with hsame
    · exact absurd rfl hid
    · exact hold
  · intro hentry
    exact ⟨entry, hentry, if_neg hid⟩

theorem mem_replaceRow_self {new : Record} {entries : List (Entry Record)}
    (hentry : entry ∈ entries) : ⟨entry.id, new⟩ ∈ replaceRow entry.id new entries :=
  List.mem_map.mpr ⟨entry, hentry, if_pos rfl⟩

/-- Assumes: the row has the identity alone. -/
theorem replaceRow_self {entries : List (Entry Record)} (hdistinct : IsDistinct entries)
    (hentry : entry ∈ entries) :
    replaceRow entry.id entry.record entries = entries := by
  refine (List.map_congr_left fun other hother ↦ ?_).trans (List.map_id _)
  split_ifs with hid
  · exact hdistinct.eq_of_id hentry hother hid.symm
  · rfl

/-- A call that changes a row returns the answer of the storage engine. -/
theorem rowCall_apply (world : World Outside Record) (owner : Owner) (table : Table Record)
    (call : RowCall Record) (context : Context Outside Record) :
    ∃ events, rowCall world owner table call context =
      some ((world.row table call context.outside).1,
        { context with
          outside := (world.row table call context.outside).2, events := events }) := by
  unfold rowCall noteRow noteDiscard
  simp only [ask, Program.bind_apply, Option.bind_some]
  split_ifs <;> exact ⟨_, rfl⟩

/-- The table after `ha_update_row` changed a row. -/
def TableState.change (state : TableState Record) (entry : Entry Record) (new : Record) :
    TableState Record :=
  { state with
    touched := state.touched ++ [entry.id]
    entries := replaceRow entry.id new state.entries }

theorem isDistinct_change {state : TableState Record} (hdistinct : IsDistinct state.entries)
    (new : Record) : IsDistinct (state.change entry new).entries := by
  unfold IsDistinct at hdistinct ⊢
  rwa [TableState.change, map_id_replaceRow]

/-- The call of `ha_update_row` in `update_record`: the row is changed, or the engine refuses the
change. Assumes: the row is one of the table. -/
theorem storeRecord_does {world : World Outside Record} {table : Table Record}
    {view : Outside → TableState Record} (hchanges : ChangesRows world table view) (owner : Owner)
    {context : Context Outside Record} (hcursor : (view context.outside).cursor = some entry)
    (hdistinct : IsDistinct (view context.outside).entries)
    (hentry : entry ∈ (view context.outside).entries) (new : Record) :
    ∃ dbRet after, storeRecord world owner table entry.record new context =
        some (⟨.ok, dbRet⟩, after) ∧
      ((dbRet = 0 ∧ view after.outside = (view context.outside).change entry new) ∨
        (dbRet = (world.row table (.haUpdateRow entry.record new) context.outside).1 ∧
          dbRet ≠ 0 ∧ dbRet ≠ haErrRecordIsTheSame ∧
          (view after.outside).touched = (view context.outside).touched ++ [entry.id])) := by
  have hview := hchanges.row_view entry new context.outside hcursor
  have hsame := hchanges.row_same entry new context.outside hcursor
  obtain ⟨events, hcall⟩ := rowCall_apply world owner table (.haUpdateRow entry.record new) context
  rw [storeRecord, Program.bind_of_eq_some hcall]
  split_ifs at hview ⊢ with hzero hunchanged
  · exact ⟨0, _, rfl, Or.inl ⟨rfl, hview⟩⟩
  · refine ⟨0, _, rfl, Or.inl ⟨rfl, hview.trans ?_⟩⟩
    rw [TableState.change, hsame hunchanged, replaceRow_self hdistinct hentry]
  · exact ⟨_, _, rfl, Or.inr ⟨rfl, hzero, hunchanged, congrArg TableState.touched hview⟩⟩

/-- The storage engine takes every change, and the thread is not killed. -/
structure Undisturbed (world : World Outside Record) (view : Outside → TableState Record)
    (table : Table Record) : Prop where
  alive : ∀ outside, ¬ (world.killed outside).1 = true
  accepts : ∀ entry new outside, (view outside).cursor = some entry →
    (world.row table (.haUpdateRow entry.record new) outside).1 = 0 ∨
      (world.row table (.haUpdateRow entry.record new) outside).1 = haErrRecordIsTheSame

/-! ### The job of an UPDATE -/

/-- An UPDATE of a table in an index: the plan of its loop, the fields with their values and the
rows before it. -/
structure Job (Record Place : Type) [LinearOrder Place] where
  stray : Stray
  index : RowIndex Record Place
  plan : FindPlan Record
  pairs : List (Field Record × ValueEntry)
  initial : List (Entry Record)

/-- The fields of an UPDATE with their values. -/
def updatePairs (world : World Outside Record) (plan : FindPlan Record)
    (values : TdhsRequestValues) : List (Field Record × ValueEntry) :=
  plan.fields.zip (entries values.entries world.stray.value plan.fields.length)

/-- The job of a request. -/
def updateJob (world : World Outside Record) (index : RowIndex Record Place)
    (plan : FindPlan Record) (values : TdhsRequestValues) (initial : List (Entry Record)) :
    Job Record Place :=
  ⟨world.stray, index, plan, updatePairs world plan values, initial⟩

namespace Job

variable (job : Job Record Place)

/-- The row as the values of the request change it. -/
def applied (entry : Entry Record) : Option Record := Execute.applied job.pairs entry.record

/-- The row is still to be read by the scan for a key. -/
abbrev Ahead (isFirst : Bool) (inIndex : ℕ) (state : TableState Record) (entry : Entry Record) :
    Prop :=
  Execute.Ahead job.stray job.index job.plan.get isFirst inIndex state entry

/-- The handler is in the scan for a key. -/
abbrev Scanning (isFirst : Bool) (inIndex : ℕ) (state : TableState Record) : Prop :=
  Execute.Scanning job.stray job.index job.plan.get isFirst inIndex state

/-- The row passes the filters. -/
def passes (entry : Entry Record) : Bool :=
  filterRecord entry.record job.plan.filters job.plan.filterBuf

/-- There is a further key of an IN, and it fits the index. -/
def HasNextKey (inIndex : ℕ) : Prop :=
  job.plan.get.findFlag = .inKeys ∧ inIndex + 1 < job.plan.get.keyNum ∧
    parseIndex job.plan.info (keyAt job.stray job.plan.get (inIndex + 1)) = true

/-- The loop may go on as far as the key. -/
def HasKey (key : ℕ) : Prop := ∀ earlier < key, job.HasNextKey earlier

/-- The loop has changed as many rows as the request allows. -/
def IsFull (vars : FindVars) : Prop := job.plan.get.limit ≠ 0 ∧ vars.limit = 0

/-! ### What a round does -/

section Rounds

variable (world : World Outside Record) (view : Outside → TableState Record)

/-- A read that found a row. -/
structure ReadsRow (vars : FindVars) (before after : TableState Record) (entry : Entry Record) :
    Prop where
  more : ¬ job.IsFull vars
  entries_eq : after.entries = before.entries
  touched_eq : after.touched = before.touched
  cursor_eq : after.cursor = some entry
  ahead : job.Ahead vars.isFirst vars.inIndex before entry
  scanning : job.Scanning false vars.inIndex after
  others : ∀ other, other ≠ entry →
    (job.Ahead vars.isFirst vars.inIndex before other ↔ job.Ahead false vars.inIndex after other)

/-- What a round of the loop does to the table. It leaves the loop at the limit, because it is
disturbed or because no row and no key is left; goes on with the next key; reads a row and leaves it
because of the filters or of the start; reads a row and fails to change it; or changes it. -/
inductive RoundDoes (vars : FindVars) (before : TableState Record) :
    FindVars ⊕ FindExit → TableState Record → Prop
  | leaves (exit : FindExit) (after : TableState Record)
      (hreason : job.IsFull vars ∨ ¬ Undisturbed world view job.plan.table ∨
        (∀ entry, ¬ job.Ahead vars.isFirst vars.inIndex before entry) ∧
          ¬ job.HasNextKey vars.inIndex)
      (htouched : after.touched = before.touched) : RoundDoes vars before (.inr exit) after
  | goesOn (r : ℤ) (after : TableState Record)
      (hnone : ∀ entry, ¬ job.Ahead vars.isFirst vars.inIndex before entry)
      (hmore : job.HasNextKey vars.inIndex)
      (hentries : after.entries = before.entries) (htouched : after.touched = before.touched) :
      RoundDoes vars before
        (.inl { vars with isFirst := true, inIndex := vars.inIndex + 1, r := r }) after
  | filtersOut (after : TableState Record) (entry : Entry Record)
      (hread : job.ReadsRow vars before after entry) (hfails : ¬ job.passes entry) :
      RoundDoes vars before (.inl { vars with isFirst := false, r := 0 }) after
  | skips (after : TableState Record) (entry : Entry Record)
      (hread : job.ReadsRow vars before after entry) (hpasses : job.passes entry)
      (hskip : 0 < vars.skip) :
      RoundDoes vars before
        (.inl { vars with isFirst := false, r := 0, skip := vars.skip - 1 }) after
  | fails (exit : FindExit) (middle after : TableState Record) (entry : Entry Record)
      (hread : job.ReadsRow vars before middle entry) (hpasses : job.passes entry)
      (hskip : vars.skip = 0)
      (hreason : (job.applied entry = none ∧ after.touched = before.touched) ∨
        (job.applied entry ≠ none ∧ ¬ Undisturbed world view job.plan.table ∧
          after.touched = before.touched ++ [entry.id])) :
      RoundDoes vars before (.inr exit) after
  | updates (middle : TableState Record) (entry : Entry Record) (new : Record)
      (hread : job.ReadsRow vars before middle entry) (hpasses : job.passes entry)
      (hskip : vars.skip = 0) (happlied : job.applied entry = some new) :
      RoundDoes vars before
        (.inl { vars with isFirst := false, r := 0, limit := vars.limit - 1 })
        (middle.change entry new)

/-- The loop is in the scan for a key that it may go on to. -/
structure InScan (vars : FindVars) (state : TableState Record) : Prop where
  distinct : IsDistinct state.entries
  scanning : job.Scanning vars.isFirst vars.inIndex state
  hasKey : job.HasKey vars.inIndex

variable {world} {view} {job} {vars : FindVars}

theorem ReadsRow.touched_change {before middle : TableState Record}
    (hread : job.ReadsRow vars before middle entry) (new : Record) :
    (middle.change entry new).touched = before.touched ++ [entry.id] :=
  hread.touched_eq ▸ rfl

/-- A round keeps the calls it finds and the place in the scan. -/
theorem RoundDoes.keeps {before after : TableState Record} {next : FindVars ⊕ FindExit}
    (hdoes : job.RoundDoes world view vars before next after) (hscan : job.InScan vars before) :
    before.touched <+: after.touched ∧ Sum.elim (job.InScan · after) (fun _ ↦ True) next := by
  cases hdoes with
  | leaves exit after hreason htouched => exact ⟨htouched ▸ List.prefix_rfl, trivial⟩
  | goesOn r after hnone hmore hentries htouched =>
    refine ⟨htouched ▸ List.prefix_rfl, hentries ▸ hscan.distinct, (fun h ↦ nomatch h), ?_⟩
    exact fun earlier hlt ↦ (Nat.eq_or_lt_of_le (Nat.le_of_lt_succ hlt)).elim (fun h ↦ h ▸ hmore)
      (hscan.hasKey earlier)
  | filtersOut after entry hread _ | skips after entry hread _ _ =>
    exact ⟨hread.touched_eq ▸ List.prefix_rfl, hread.entries_eq ▸ hscan.distinct, hread.scanning,
      hscan.hasKey⟩
  | fails exit middle after entry hread hpasses hskip hreason =>
    rcases hreason with ⟨-, htouched⟩ | ⟨-, -, htouched⟩
    · exact ⟨htouched ▸ List.prefix_rfl, trivial⟩
    · exact ⟨htouched ▸ List.prefix_append _ _, trivial⟩
  | updates middle entry new hread hpasses hskip happlied =>
    exact ⟨hread.touched_change new ▸ List.prefix_append _ _,
      isDistinct_change (hread.entries_eq ▸ hscan.distinct) new, hread.scanning, hscan.hasKey⟩

variable {index : RowIndex Record Place} {plan : FindPlan Record} {values : TdhsRequestValues}
  {context : Context Outside Record}

section

variable (hrewrites : Rewrites world plan.table plan.idxnum index view)
  (hpairs : ∀ pair ∈ updatePairs world plan values, pair.2.flag ≠ .now) (owner : Owner)
  {initial : List (Entry Record)} (hjob : job = updateJob world index plan values initial)

include hrewrites hpairs hjob

/-- A round on a row that passed the filters. -/
theorem visit_does {before : TableState Record} (hdistinct : IsDistinct before.entries)
    (hread : job.ReadsRow vars before (view context.outside) entry) (hpasses : job.passes entry) :
    ∃ next after, visit (updateHandlers world owner values) plan vars entry.record context =
        some (next, after) ∧
      job.RoundDoes world view vars before next (view after.outside) := by
  subst hjob
  unfold visit
  by_cases hskip : 0 < vars.skip
  · rw [if_pos hskip]
    exact ⟨_, _, rfl, .skips _ entry hread hpasses hskip⟩
  rw [if_neg hskip]
  have hzero := Nat.eq_zero_of_not_pos hskip
  have hfields := updateFields_eq world hpairs entry.record context
  change ∃ next after, (updateRecord world owner plan.table (updatePairs world plan values)
    entry.record >>= _) context = _ ∧ _
  cases happlied : Execute.applied (updatePairs world plan values) entry.record with
  | none =>
    rw [happlied] at hfields
    rw [Program.bind_of_eq_some (Program.bind_of_eq_some hfields), if_neg (fun h ↦ h rfl),
      if_pos (by decide : fieldStoreError ≠ 0 ∧ fieldStoreError ≠ haErrRecordDeleted)]
    exact ⟨_, _, rfl, .fails _ _ _ entry hread hpasses hzero (Or.inl ⟨happlied, hread.touched_eq⟩)⟩
  | some new =>
    rw [happlied] at hfields
    have hdeleted := hrewrites.row_code entry new context.outside hread.cursor_eq
    obtain ⟨dbRet, after, hstore, hdoes⟩ := storeRecord_does hrewrites.toChangesRows owner
      hread.cursor_eq (hread.entries_eq ▸ hdistinct) (hread.entries_eq ▸ hread.ahead.1) new
    rw [Program.bind_of_eq_some (show updateRecord world owner plan.table _ entry.record context = _
      from (Program.bind_of_eq_some hfields).trans hstore), if_neg (fun h ↦ h rfl)]
    rcases hdoes with ⟨rfl, hchange⟩ | ⟨rfl, hcode, hother, htouched⟩
    · exact ⟨_, _, rfl, hchange ▸ .updates _ entry new hread hpasses hzero happlied⟩
    · rw [if_pos ⟨hcode, hdeleted⟩]
      refine ⟨_, _, rfl, .fails _ _ _ entry hread hpasses hzero (Or.inr
        ⟨(fun hnone ↦ nomatch happlied.symm.trans hnone), fun h ↦
          (h.accepts entry new context.outside hread.cursor_eq).elim hcode hother, ?_⟩)⟩
      rw [htouched, hread.touched_eq]

/-- A round returns, and does one of the things listed. Assumes: the handler is in the scan of the
round, and no value is the current time. -/
theorem round_does (hscan : job.InScan vars (view context.outside)) :
    ∃ next after, findRound world owner (updateHandlers world owner values) plan vars context =
        some (next, after) ∧
      job.RoundDoes world view vars (view context.outside) next (view after.outside) := by
  subst hjob
  unfold findRound
  by_cases hlimit : plan.get.limit ≠ 0 ∧ vars.limit = 0
  · rw [if_pos hlimit]
    exact ⟨_, _, rfl, .leaves _ _ (Or.inl hlimit) rfl⟩
  rw [if_neg hlimit, Program.bind_of_eq_some (rfl : ask world.killed context = _)]
  have hview := hrewrites.killed_view context.outside
  by_cases hkilled : (world.killed context.outside).1 = true
  · rw [if_pos hkilled]
    exact ⟨_, _, rfl, .leaves _ _ (Or.inr (Or.inl fun h ↦ h.alive _ hkilled)) (congrArg _ hview)⟩
  rw [if_neg hkilled]
  obtain ⟨found, outside, events, hfetch, hentries, htouched, hfound⟩ :=
    @fetch_rewrites _ _ _ _ world index view plan hrewrites owner vars
      { context with outside := (world.killed context.outside).2 }
      (hview ▸ hscan.distinct) (hview ▸ hscan.scanning)
  rw [Program.bind_of_eq_some hfetch]
  simp only [hview] at hentries htouched hfound
  rcases hfound with ⟨hnoRow, hnone⟩ | ⟨entry, rfl, hcursor, hahead, hscanning, hothers⟩
  · have hcode : found.1 ≠ haErrRecordDeleted ∧ found.1 ≠ 0 ∧
        (found.1 = haErrEndOfFile ∨ found.1 = haErrKeyNotFound) := by
      rcases hnoRow with hcode | hcode <;> rw [hcode] <;> decide
    rw [if_neg hcode.1, if_pos hcode.2.1, nextKey]
    by_cases hmore : plan.get.findFlag = .inKeys ∧ vars.inIndex + 1 < plan.get.keyNum
    · rw [if_pos ⟨hmore.1, hmore.2, hcode.2.2⟩]
      by_cases hfits : parseIndex plan.info (keyAt world.stray plan.get (vars.inIndex + 1)) = true
      · rw [if_pos hfits]
        exact ⟨_, _, rfl, .goesOn _ _ hnone ⟨hmore.1, hmore.2, hfits⟩ hentries htouched⟩
      · rw [if_neg hfits]
        exact ⟨_, _, rfl, .leaves _ _ (Or.inr (Or.inr ⟨hnone, fun h ↦ hfits h.2.2⟩)) htouched⟩
    · rw [if_neg fun h ↦ hmore ⟨h.1, h.2.1⟩]
      exact ⟨_, _, rfl, .leaves _ _ (Or.inr (Or.inr ⟨hnone, fun h ↦ hmore ⟨h.1, h.2.1⟩⟩)) htouched⟩
  · have hread : (updateJob world index plan values initial).ReadsRow vars (view context.outside)
        (view outside) entry :=
      ⟨hlimit, hentries, htouched, hcursor, hahead, hscanning, hothers⟩
    by_cases hpasses : filterRecord entry.record plan.filters plan.filterBuf = true
    · rw [if_pos hpasses]
      exact visit_does hrewrites hpairs owner rfl hscan.distinct hread hpasses
    · rw [if_neg hpasses]
      exact ⟨_, _, rfl, .filtersOut _ entry hread hpasses⟩

end

end Rounds

/-! ### Visits -/

section Visits

/-- A visit of the loop: the number of a key and a row that the key leads to. -/
abbrev Visit (Record : Type) := ℕ × Entry Record

/-- The row is one that the request wants with the key. -/
def IsSought (visit : Visit Record) : Prop :=
  job.HasKey visit.1 ∧ matchesAt job.stray job.index job.plan.get visit.1 visit.2 = true ∧
    job.passes visit.2

/-- The order of the visits: by the keys, and with one key in the direction of the scan. -/
def Precedes (visit later : Visit Record) : Prop :=
  visit.1 < later.1 ∨
    (visit.1 = later.1 ∧ job.index.beyond (isBack job.plan.get.findFlag) visit.2 later.2 = true)

/-- The loop will come to the visit unless the table changes. -/
def Comes (isFirst : Bool) (inIndex : ℕ) (state : TableState Record) (visit : Visit Record) :
    Prop :=
  job.IsSought visit ∧
    ((visit.1 = inIndex ∧ job.Ahead isFirst inIndex state visit.2) ∨
      (inIndex < visit.1 ∧ visit.2 ∈ state.entries))

instance (visit : Visit Record) : Decidable (job.IsSought visit) :=
  inferInstanceAs (Decidable ((∀ earlier < visit.1, _ ∧ _) ∧ _))

instance (visit later : Visit Record) : Decidable (job.Precedes visit later) :=
  inferInstanceAs (Decidable (_ ∨ _))

variable {job} {vars : FindVars} {before middle after : TableState Record}
  {visit later : Visit Record} {inIndex : ℕ} {isFirst : Bool} {new : Record}

theorem HasKey.lt {key : ℕ} (hkey : job.HasKey key) : key < job.plan.get.keyNum + 1 := by
  cases key with
  | zero => exact Nat.succ_pos _
  | succ key => exact (hkey key (Nat.lt_succ_self key)).2.1.trans (Nat.lt_succ_self _)

theorem not_precedes_self (visit : Visit Record) : ¬ job.Precedes visit visit := by
  simp [Precedes, not_beyond_self]

theorem Precedes.trans {middle : Visit Record} (hfirst : job.Precedes visit middle)
    (hsecond : job.Precedes middle later) : job.Precedes visit later := by
  rcases hfirst with hfirst | ⟨hfirst, hbeyond⟩
  · exact Or.inl (hsecond.elim hfirst.trans fun h ↦ h.1 ▸ hfirst)
  · rcases hsecond with hsecond | ⟨hsecond, hbeyond'⟩
    · exact Or.inl (hfirst ▸ hsecond)
    · exact Or.inr ⟨hfirst.trans hsecond, beyond_trans hbeyond hbeyond'⟩

theorem Precedes.not_symm (hprecedes : job.Precedes visit later) : ¬ job.Precedes later visit :=
  fun hback ↦ not_precedes_self visit (hprecedes.trans hback)

/-- Behind a read, all visits that come are behind the row read. -/
theorem Comes.precedes (hcomes : job.Comes false inIndex after visit)
    (hcursor : after.cursor = some entry) : job.Precedes (inIndex, entry) visit := by
  rcases hcomes.2 with ⟨hkey, -, -, current, hcurrent, hbeyond⟩ | ⟨hlt, -⟩
  · cases hcursor.symm.trans hcurrent
    exact Or.inr ⟨hkey.symm, hbeyond⟩
  · exact Or.inl hlt

/-- The visits that come when the scan for a key begins. -/
theorem comes_first_iff : job.Comes true inIndex before visit ↔
    job.IsSought visit ∧ inIndex ≤ visit.1 ∧ visit.2 ∈ before.entries := by
  refine and_congr_right fun hsought ↦ ?_
  have hmatches := hsought.2.1
  rw [matchesAt, Bool.and_eq_true] at hmatches
  constructor
  · rintro (⟨rfl, hentry, -⟩ | ⟨hlt, hentry⟩)
    · exact ⟨le_rfl, hentry⟩
    · exact ⟨hlt.le, hentry⟩
  · rintro ⟨hle, hentry⟩
    rcases Nat.eq_or_lt_of_le hle with rfl | hlt
    · exact Or.inl ⟨rfl, hentry, hmatches.2, hmatches.1⟩
    · exact Or.inr ⟨hlt, hentry⟩

/-- Where the scan for a key is over, the visits of the later keys are left. -/
theorem comes_nextKey_iff (hentries : after.entries = before.entries)
    (hnone : ∀ entry, ¬ job.Ahead isFirst inIndex before entry) :
    job.Comes isFirst inIndex before visit ↔ job.Comes true (inIndex + 1) after visit := by
  rw [comes_first_iff, hentries, Comes]
  refine and_congr_right fun _ ↦ ⟨?_, Or.inr⟩
  rintro (⟨-, hahead⟩ | hlater)
  · exact absurd hahead (hnone _)
  · exact hlater

/-- A read comes to a visit and leaves the others. -/
theorem ReadsRow.comes_iff (hread : job.ReadsRow vars before after entry) :
    job.Comes vars.isFirst vars.inIndex before visit ↔
      (visit = (vars.inIndex, entry) ∧ job.IsSought visit) ∨
        job.Comes false vars.inIndex after visit := by
  by_cases hsame : visit = (vars.inIndex, entry)
  · subst hsame
    refine ⟨fun h ↦ Or.inl ⟨rfl, h.1⟩, fun h ↦ ?_⟩
    exact ⟨h.elim And.right And.left, Or.inl ⟨rfl, hread.ahead⟩⟩
  · rw [or_iff_right fun h ↦ hsame h.1, Comes, Comes, hread.entries_eq]
    refine and_congr_right fun _ ↦ or_congr_left (and_congr_right fun hkey ↦ ?_)
    exact hread.others _ fun h ↦ hsame (Prod.ext hkey h)

/-- No visit that comes precedes that of the row read. -/
theorem ReadsRow.precedes (hread : job.ReadsRow vars before after entry)
    (hcomes : job.Comes vars.isFirst vars.inIndex before visit)
    (hother : visit ≠ (vars.inIndex, entry)) : job.Precedes (vars.inIndex, entry) visit :=
  ((hread.comes_iff.mp hcomes).resolve_left fun h ↦ hother h.1).precedes hread.cursor_eq

theorem ReadsRow.not_precedes (hread : job.ReadsRow vars before after entry)
    (hcomes : job.Comes vars.isFirst vars.inIndex before visit) :
    ¬ job.Precedes visit (vars.inIndex, entry) := by
  intro hprecedes
  refine hprecedes.not_symm (hread.precedes hcomes ?_)
  rintro rfl
  exact not_precedes_self _ hprecedes

/-- A change of a row leaves the visits of the other rows. -/
theorem comes_change_iff (hid : visit.2.id ≠ entry.id) :
    job.Comes false inIndex middle visit ↔
      job.Comes false inIndex (middle.change entry new) visit := by
  unfold Comes Ahead Execute.Ahead
  rw [TableState.change, mem_replaceRow_iff hid]

/-- The loop comes to the changed row if that is one of the request and behind the row read. -/
theorem comes_changed (hcursor : middle.cursor = some entry) (hentry : entry ∈ middle.entries)
    (hrow : visit.2 = ⟨entry.id, new⟩) (hsought : job.IsSought visit)
    (hprecedes : job.Precedes (inIndex, entry) visit) :
    job.Comes false inIndex (middle.change entry new) visit := by
  have hmem : visit.2 ∈ (middle.change entry new).entries := hrow ▸ mem_replaceRow_self hentry
  refine ⟨hsought, hprecedes.elim (fun hlt ↦ Or.inr ⟨hlt, hmem⟩) ?_⟩
  rintro ⟨hkey, hbeyond⟩
  dsimp only at hkey
  have hmatches := hsought.2.1
  rw [← hkey, matchesAt, Bool.and_eq_true] at hmatches
  exact Or.inl ⟨hkey.symm, hmem, hmatches.2, entry, hcursor, hbeyond⟩

end Visits

end Job

end TdhSocket.Execute
