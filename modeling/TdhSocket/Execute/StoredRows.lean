import TdhSocket.Execute.IntegerColumn
import TdhSocket.Execute.Updating

/-!
# What UPDATE leaves in the rows

UPDATE with ADD or SUB, from the beginning of `do_find` to its answer. `StoresRows` is what is asked
of a storage engine here: reading changes no row, and `ha_update_row` changes the row that was read
last. Over the rounds of the loop each row holds its first number, changed as often as
`ha_update_row` was called for it (`Tracks`). `update_delta_exact` says for which numbers a row that
was changed once holds the sum or the difference when the answer is 200. A row is changed at most
once where the request ends before it comes to a row again (`RequestEndsInTime`).
-/

set_option autoImplicit false

namespace TdhSocket.Execute

open Protocol Decode Library Library.Program

variable {Outside Record Value Next : Type} {context final : Context Outside Record}

/-! ### The rows of a table -/

/-- The storage engine has the rows of a table: a read is of one of them, and `ha_update_row`
changes the row that was read last, unless it returns an error, which is none of the codes for the
end of a scan. -/
structure StoresRows (world : World Outside Record) (table : Table Record)
    (view : Outside → TableState Record) : Prop extends ChangesRows world table view where
  malloc_view : ∀ size outside, view (world.malloc size outside).2 = view outside
  easyBufCreate_view : ∀ size outside, view (world.easyBufCreate size outside).2 = view outside
  now_view : ∀ outside, view (world.now outside).2 = view outside
  index_view : ∀ idxnum call outside,
    (view (world.index table idxnum call outside).2).entries = (view outside).entries ∧
      (view (world.index table idxnum call outside).2).touched = (view outside).touched
  index_found : ∀ idxnum call outside, (world.index table idxnum call outside).1.1 = 0 →
    ∃ entry ∈ (view outside).entries,
      (view (world.index table idxnum call outside).2).cursor = some entry ∧
        (world.index table idxnum call outside).1.2 = entry.record
  row_code : ∀ entry new outside, (view outside).cursor = some entry →
    (world.row table (.haUpdateRow entry.record new) outside).1 = 0 ∨
      isScanEnd (world.row table (.haUpdateRow entry.record new) outside).1 = false

/-- Every row of the table holds its first number, changed as often as `ha_update_row` was called
for it. -/
structure Tracks (value : Record → ℤ) (step : ℤ → ℤ) (initial : List (Entry Record))
    (state : TableState Record) : Prop where
  distinct : IsDistinct state.entries
  rows : ∀ old ∈ initial, ∃ entry ∈ state.entries, entry.id = old.id ∧
    value entry.record = step^[state.touched.count old.id] (value old.record)

section Tracks

variable {value : Record → ℤ} {step : ℤ → ℤ} {initial : List (Entry Record)}
  {before after : TableState Record}

/-- A call of `ha_update_row` that succeeds. Assumes: the row is one of the table. -/
theorem Tracks.change (htracks : Tracks value step initial before) {entry : Entry Record}
    {new : Record} (hentry : entry ∈ before.entries)
    (hvalue : value new = step (value entry.record)) :
    Tracks value step initial (before.change entry new) := by
  refine ⟨isDistinct_change htracks.distinct new, fun old hold ↦ ?_⟩
  obtain ⟨row, hrow, hid, hnumber⟩ := htracks.rows old hold
  rw [TableState.change, List.count_append]
  by_cases hsame : entry.id = old.id
  · have hrow_eq : row = entry := htracks.distinct.eq_of_id hrow hentry (hid.trans hsame.symm)
    subst hrow_eq
    refine ⟨⟨row.id, new⟩, mem_replaceRow_self hentry, hid, ?_⟩
    rw [hsame, List.count_singleton_self, Function.iterate_succ_apply', ← hnumber]
    exact hvalue
  · refine ⟨row, (mem_replaceRow_iff fun h ↦ hsame (h.symm.trans hid)).mpr hrow, hid, ?_⟩
    rw [List.count_singleton, if_neg (by simpa using hsame), Nat.add_zero]
    exact hnumber

end Tracks

/-! ### Programs that leave the table alone -/

/-- The table is as it was. -/
def SameTable (view : Outside → TableState Record) (start final : Context Outside Record) : Prop :=
  view final.outside = view start.outside

section Rules

variable {view : Outside → TableState Record}

instance : Std.Refl (SameTable view) := ⟨fun _ ↦ rfl⟩

instance : Trans (SameTable view) (SameTable view) (SameTable view) :=
  ⟨fun hfirst hnext ↦ Eq.trans hnext hfirst⟩

theorem sameTable_ask {call : Outside → Value × Outside}
    (hcall : ∀ outside, view (call outside).2 = view outside) :
    Along (SameTable view) (ask call : Execution Outside Record Value) := by
  intro start value final hreturns
  cases hreturns
  exact hcall start.outside

theorem sameTable_setResponse (owner : Owner) (change : Response → Response) :
    Along (SameTable view) (setResponse owner change : Execution Outside Record Unit) :=
  along_modify fun _ ↦ rfl

variable {world : World Outside Record} {table : Table Record}

theorem sameTable_stackLiker (hstores : StoresRows world table view) (size : ℕ) :
    Along (SameTable view) (stackLiker world size) :=
  along_ite (along_pure _) (sameTable_ask (hstores.malloc_view size))

theorem sameTable_writeHeader (hstores : StoresRows world table view) (owner : Owner)
    (types : List UInt8) (allocSize : ℕ) :
    Along (SameTable view) (writeHeader world owner types allocSize) :=
  along_bind (sameTable_ask (hstores.easyBufCreate_view _)) fun _ ↦
    along_ite (along_bind (sameTable_setResponse owner _) fun _ ↦ along_pure _) (along_pure _)

theorem sameTable_endUpdateRecord (owner : Owner) :
    Along (SameTable view) (endUpdateRecord owner : Execution Outside Record Unit) :=
  along_bind (along_read _) fun _ ↦ along_bind (along_read _) fun _ ↦
    along_bind (sameTable_setResponse owner _) fun _ ↦ sameTable_setResponse owner _

theorem sameTable_updateField (hstores : StoresRows world table view) (field : Field Record)
    (value : ValueEntry) (record : Record) :
    Along (SameTable view) (updateField world field value record) := by
  unfold updateField
  cases value.flag with
  | set => exact along_ite (along_pure _) (along_pure _)
  | add | sub => exact along_pure _
  | now => exact along_bind (sameTable_ask hstores.now_view) fun _ ↦ along_pure _

theorem sameTable_updateFields (hstores : StoresRows world table view)
    (pairs : List (Field Record × ValueEntry)) (record : Record) :
    Along (SameTable view) (updateFields world pairs record) := by
  induction pairs generalizing record with
  | nil => exact along_pure _
  | cons pair pairs ih =>
    refine along_bind (sameTable_updateField hstores pair.1 pair.2 record) fun updated ↦ ?_
    cases updated with
    | none => exact along_pure _
    | some next => exact ih next

end Rules

/-! ### A round -/

section Rounds

variable {world : World Outside Record} {view : Outside → TableState Record}
  {plan : FindPlan Record} {value : Record → ℤ} {step : ℤ → ℤ} {initial : List (Entry Record)}
  {values : TdhsRequestValues}

/-- What a read leaves: the rows and the calls as they were, and the row it found under the cursor.
-/
structure ReadsTable (before after : TableState Record) (found : ℤ × Record) : Prop where
  entries_eq : after.entries = before.entries
  touched_eq : after.touched = before.touched
  cursor : found.1 = 0 → ∃ entry ∈ after.entries, after.cursor = some entry ∧
    found.2 = entry.record

section

variable (hstores : StoresRows world plan.table view)

include hstores

theorem indexCall_stores {owner : Owner} {call : IndexCall} {found : ℤ × Record}
    (hreturns : indexCall world owner plan.table plan.idxnum call context = some (found, final)) :
    ReadsTable (view context.outside) (view final.outside) found := by
  obtain ⟨events, happly⟩ := indexCall_apply world owner plan.table plan.idxnum call context
  cases hreturns.symm.trans happly
  obtain ⟨hentries, htouched⟩ := hstores.index_view plan.idxnum call context.outside
  refine ⟨hentries, htouched, fun hzero ↦ ?_⟩
  obtain ⟨entry, hentry, hfound⟩ := hstores.index_found plan.idxnum call context.outside hzero
  exact ⟨entry, hentries ▸ hentry, hfound⟩

/-- A read changes no row, and what it finds is a row. -/
theorem fetch_stores {owner : Owner} {vars : FindVars} {found : ℤ × Record}
    (hreturns : fetch world owner plan vars context = some (found, final)) :
    ReadsTable (view context.outside) (view final.outside) found := by
  unfold fetch at hreturns
  split_ifs at hreturns
  · exact indexCall_stores hstores hreturns
  · obtain ⟨before, middle, hindex, hreturns⟩ := bind_eq_some.mp hreturns
    obtain ⟨hentries, htouched, hfound⟩ := indexCall_stores hstores hindex
    split_ifs at hreturns
    · cases hreturns
      exact ⟨hentries, htouched, fun hzero ↦ absurd hzero (by decide : haErrEndOfFile ≠ 0)⟩
    · cases hreturns
      exact ⟨hentries, htouched, hfound⟩
  · exact indexCall_stores hstores hreturns

variable (hstep : ∀ {record new : Record} {context final : Context Outside Record},
  updateFields world (updatePairs world plan values) record context = some (some new, final) →
    value new = step (value record))

include hstep

/-- `update_record` on the row that was read last changes its number, or leaves a code that is none
for the end of a scan. -/
theorem updateRecord_tracks (owner : Owner) {entry : Entry Record} {processed : Processed}
    (htracks : Tracks value step initial (view context.outside))
    (hcursor : (view context.outside).cursor = some entry)
    (hentry : entry ∈ (view context.outside).entries)
    (hreturns : updateRecord world owner plan.table (updatePairs world plan values) entry.record
      context = some (processed, final)) :
    processed.ret = .ok ∧ (isScanEnd processed.dbRet = false ∨
      processed.dbRet = 0 ∧ Tracks value step initial (view final.outside)) := by
  obtain ⟨updated, middle, hupdated, hreturns⟩ := bind_eq_some.mp hreturns
  have hview : view middle.outside = view context.outside :=
    sameTable_updateFields hstores _ entry.record context updated middle hupdated
  cases updated with
  | none =>
    cases hreturns
    exact ⟨rfl, Or.inl (by decide)⟩
  | some new =>
    rw [← hview] at htracks hcursor hentry
    obtain ⟨dbRet, after, hstore, hdoes⟩ := storeRecord_does hstores.toChangesRows owner hcursor
      htracks.distinct hentry new
    cases hreturns.symm.trans hstore
    rcases hdoes with ⟨rfl, hchange⟩ | ⟨rfl, hzero, -, -⟩
    · exact ⟨rfl, Or.inr ⟨rfl, hchange ▸ htracks.change hentry (hstep hupdated)⟩⟩
    · exact ⟨rfl, Or.inl ((hstores.row_code entry new _ hcursor).resolve_left hzero)⟩

/-- When the loop ends as a scan ends, every row is tracked. -/
def LeavesTracked (value : Record → ℤ) (step : ℤ → ℤ) (initial : List (Entry Record))
    (state : TableState Record) : FindExit → Prop
  | .killed => True
  | .keyMismatch => True
  | .processed _ => False
  | .done r => isScanEnd r = true → Tracks value step initial state

/-- A round of UPDATE. -/
theorem findRound_tracks (owner : Owner) (vars : FindVars) :
    Triple (fun context ↦ Tracks value step initial (view context.outside))
      (findRound world owner (updateHandlers world owner values) plan vars) fun next context ↦
        Sum.elim (fun _ ↦ Tracks value step initial (view context.outside))
          (LeavesTracked value step initial (view context.outside)) next := by
  intro context next final htracks hreturns
  unfold findRound at hreturns
  split_ifs at hreturns with hlimit
  · cases hreturns
    exact fun _ ↦ htracks
  obtain ⟨killed, asked, hkilled, hreturns⟩ := bind_eq_some.mp hreturns
  have hasked : view asked.outside = view context.outside :=
    sameTable_ask hstores.killed_view context killed asked hkilled
  rw [← hasked] at htracks
  split_ifs at hreturns
  · cases hreturns
    trivial
  obtain ⟨found, fetched, hfetch, hreturns⟩ := bind_eq_some.mp hreturns
  obtain ⟨hentries, htouched, hfound⟩ := fetch_stores hstores hfetch
  have hfetched : Tracks value step initial (view fetched.outside) :=
    ⟨hentries ▸ htracks.distinct, by rw [hentries, htouched]; exact htracks.rows⟩
  split_ifs at hreturns with hdeleted hnone hpasses
  · cases hreturns
    exact hfetched
  · cases hreturns
    unfold nextKey
    split_ifs
    · exact hfetched
    · trivial
    · exact fun _ ↦ hfetched
  · unfold visit at hreturns
    split_ifs at hreturns
    · cases hreturns
      exact hfetched
    obtain ⟨entry, hentry, hcursor, hrecord⟩ := hfound (not_not.mp hnone)
    obtain ⟨processed, after, hprocess, hreturns⟩ := bind_eq_some.mp hreturns
    rw [hrecord] at hprocess
    obtain ⟨hret, hdone⟩ :=
      updateRecord_tracks hstores hstep owner hfetched hcursor hentry hprocess
    rw [hret, if_neg (fun h ↦ h rfl)] at hreturns
    rcases hdone with hfails | ⟨hzero, hafter⟩
    · -- the row was not changed, so the loop is left and the answer is an error
      have hcode : processed.dbRet ≠ 0 ∧ processed.dbRet ≠ haErrRecordDeleted := by
        refine ⟨fun h ↦ ?_, fun h ↦ ?_⟩ <;> rw [h] at hfails <;> exact absurd hfails (by decide)
      rw [if_pos hcode] at hreturns
      cases hreturns
      intro hend
      exact absurd hend (by rw [hfails]; decide)
    · rw [if_neg fun h ↦ h.1 hzero] at hreturns
      cases hreturns
      exact hafter
  · cases hreturns
    exact hfetched

end

end Rounds

/-! ### The request -/

section Request

variable {world : World Outside Record} {table : Table Record}
  {view : Outside → TableState Record} {type : IntegerType} {field : Field Record}
  {value : Record → ℤ} {flag : DeltaFlag} {text : TdhsString} {request : TdhsRequest}

/-- The column is one of the fields of the request, once, with ADD or SUB and a text for the number.
-/
def RequestsDelta (stray : Stray) (table : Table Record) (request : TdhsRequest)
    (value : Record → ℤ) (field : Field Record) (flag : DeltaFlag) (text : TdhsString) : Prop :=
  ∀ fields, parseField table
      (entries request.tableInfo.fields stray.field request.tableInfo.fieldNum) = some fields →
    ChangesColumn value field flag text
      (fields.zip (entries request.values.entries stray.value fields.length))

/-- The storage engine keeps the rows in the index of the request, no value is the current time, and
on the rows before it the request ends before it changes a row again. -/
def RequestEndsInTime {Place : Type} [LinearOrder Place] (world : World Outside Record)
    (index : RowIndex Record Place) (view : Outside → TableState Record) (table : Table Record)
    (request : TdhsRequest) (initial : List (Entry Record)) : Prop :=
  ∃ idxnum fields filters, tdhsOpenIndex table request.tableInfo.index = some idxnum ∧
    parseField table
      (entries request.tableInfo.fields world.stray.field request.tableInfo.fieldNum) =
        some fields ∧
    requestFilters world.stray table request.get.filter = some filters ∧
    Rewrites world table idxnum index view ∧
    (∀ pair ∈ updatePairs world (planOf request table idxnum fields filters) request.values,
      pair.2.flag ≠ .now) ∧
    (updateJob world index (planOf request table idxnum fields filters) request.values
      initial).EndsInTime

/-- An error response is not the answer 200. -/
theorem triple_error {owner : Owner} {pre : Context Outside Record → Prop}
    {post : RetCode → Context Outside Record → Prop} {status code : ℕ}
    (hstatus : status ≠ clientStatusOk) :
    Triple pre (tdhsResponseError world owner status code) fun ret final ↦
      (final.response owner).code = clientStatusOk → post ret final :=
  fun _ _ _ _ hreturns hanswered ↦
    absurd ((tdhsResponseError_answers hreturns).2.symm.trans hanswered) hstatus

/-- An UPDATE that is answered with 200 went through its loop, and left it as a scan ends. -/
theorem doFindLocked_answered (hstores : StoresRows world table view) (owner : Owner) (rounds : ℕ)
    (state : TableState Record) :
    Triple (fun context ↦ view context.outside = state)
      (doFindLocked world rounds owner request (updateHandlers world owner request.values) table)
      fun ret final ↦ (final.response owner).code = clientStatusOk →
        ∃ idxnum fields filters opened exit left,
          tdhsOpenIndex table request.tableInfo.index = some idxnum ∧
          parseField table (entries request.tableInfo.fields world.stray.field
            request.tableInfo.fieldNum) = some fields ∧
          requestFilters world.stray table request.get.filter = some filters ∧
          view opened.outside = state ∧ view final.outside = view left.outside ∧
          loop (findRound world owner (updateHandlers world owner request.values)
            (planOf request table idxnum fields filters)) rounds
            ⟨true, request.get.limit, request.get.start, 0, 0⟩ opened = some (exit, left) ∧
          (exit = .processed ret ∨ ∃ r, exit = .done r ∧ isScanEnd r = true) := by
  have hsame : ∀ {Value : Type} {program : Execution Outside Record Value},
      Along (SameTable view) program → Triple (fun context ↦ view context.outside = state) program
        fun _ context ↦ view context.outside = state :=
    fun halong context value final hstate hreturns ↦
      (halong context value final hreturns).trans hstate
  have hmemory := fun size ↦ hsame (sameTable_stackLiker hstores size)
  refine triple_bind _ (hsame (along_read _)) fun _ ↦
    triple_ite (fun _ ↦ triple_error (by decide)) fun _ ↦ ?_
  cases hindex : tdhsOpenIndex table request.tableInfo.index with
  | none => exact triple_error (by decide)
  | some idxnum =>
  rw [Option.elim_some, findOpened]
  cases hfields : parseField table
      (entries request.tableInfo.fields world.stray.field request.tableInfo.fieldNum) with
  | none => exact triple_error (by decide)
  | some fields =>
  cases hfilters : requestFilters world.stray table request.get.filter with
  | none => exact triple_error (by decide)
  | some filters =>
  refine triple_bind _ (hmemory _) fun _ ↦ triple_ite (fun _ ↦ triple_error (by decide)) fun _ ↦
    triple_bind _ (hmemory _) fun _ ↦ triple_bind _ (hmemory _) fun _ ↦
    triple_ite (fun _ ↦ triple_error (by decide)) fun _ ↦
    triple_bind _ (hsame (sameTable_setResponse owner _)) fun _ ↦
    triple_bind _ (hsame (sameTable_writeHeader hstores owner _ _)) fun _ ↦ ?_
  iterate 4 refine triple_ite (fun _ ↦ triple_error (by decide)) fun _ ↦ ?_
  intro opened ret final hopened hreturns hanswered
  obtain ⟨exit, left, hloop, hreturns⟩ := bind_eq_some.mp hreturns
  refine ⟨idxnum, fields, filters, opened, exit, left, rfl, rfl, rfl, hopened, ?_⟩
  cases exit with
  | killed | keyMismatch =>
    exact absurd hanswered (by rw [(tdhsResponseError_answers hreturns).2]; decide)
  | processed ret =>
    cases hreturns
    exact ⟨rfl, hloop, Or.inl rfl⟩
  | done r =>
    by_cases hend : isScanEnd r = true
    · rw [finishFind, if_pos hend] at hreturns
      obtain ⟨_, finished, hfinish, hreturns⟩ := bind_eq_some.mp hreturns
      cases hreturns
      exact ⟨sameTable_endUpdateRecord owner left _ final hfinish, hloop, Or.inr ⟨r, rfl, hend⟩⟩
    · rw [finishFind, if_neg hend] at hreturns
      exact absurd hanswered (by rw [(tdhsResponseError_answers hreturns).2]; decide)

/-- ADD and SUB are exact if and only if the number that results is one of the type and a
`long long`: for a row that `ha_update_row` was called for once, by an UPDATE that was answered with
200. It was called once at most if the request ends before it changes a row again. Assumes: the
storage engine has the rows of the table, the column is an integer column that the request changes
once, and the number of the request is a `long long`. -/
theorem update_delta_exact {Place : Type} [LinearOrder Place] (index : RowIndex Record Place)
    (hstores : StoresRows world table view)
    (hcolumn : IsIntegerColumn type field value) {number : ℤ} (htext : IsDeltaText number text)
    (hlower : -2 ^ 63 ≤ number) (hupper : number < 2 ^ 63)
    (hdelta : RequestsDelta world.stray table request value field flag text) {owner : Owner}
    {rounds : ℕ} {context final : Context Outside Record}
    (hdistinct : IsDistinct (view context.outside).entries)
    (huntouched : (view context.outside).touched = [])
    (hreturns : doFindLocked world rounds owner request
      (updateHandlers world owner request.values) table context = some (.ok, final))
    (hanswered : (final.response owner).code = clientStatusOk) {old : Entry Record}
    (hold : old ∈ (view context.outside).entries)
    (honce : (view final.outside).touched.count old.id = 1 ∨
      (old.id ∈ (view final.outside).touched ∧
        RequestEndsInTime world index view table request (view context.outside).entries)) :
    ∃ new ∈ (view final.outside).entries, new.id = old.id ∧
      (value new.record = flag.target (value old.record) number ↔
        type.lower ≤ flag.target (value old.record) number ∧
          flag.target (value old.record) number ≤ type.upper ∧
          flag.target (value old.record) number < 2 ^ 63) := by
  obtain ⟨idxnum, fields, filters, opened, exit, left, hindex, hfields, hfilters, hopened, hleft,
    hloop, hexit⟩ := doFindLocked_answered hstores owner rounds _ context .ok final rfl hreturns
      hanswered
  rw [← hopened] at hdistinct huntouched hold honce
  rw [hleft] at honce ⊢
  have hcount : (view left.outside).touched.count old.id = 1 := by
    rcases honce with hcount | ⟨htouched, _, _, _, hindex', hfields', hfilters', hrewrites, hpairs,
      hends⟩
    · exact hcount
    cases hindex.symm.trans hindex'
    cases hfields.symm.trans hfields'
    cases hfilters.symm.trans hfilters'
    obtain ⟨enough, hreturns⟩ := touchesOnce_of_endsInTime hrewrites hpairs owner hdistinct
      huntouched hends
    obtain ⟨exit', left', hloop', honly⟩ := hreturns (max rounds enough) (le_max_right _ _)
    cases (loop_of_le hloop (le_max_left _ _)).symm.trans hloop'
    exact List.count_eq_one_of_mem honly.nodup htouched
  have hstart : Tracks value (stored type flag (delta text)) (view opened.outside).entries
      (view opened.outside) := by
    refine ⟨hdistinct, fun row hrow ↦ ⟨row, hrow, rfl, ?_⟩⟩
    rw [huntouched]
    rfl
  have htracks := triple_loop _ (findRound_tracks hstores
    (fun h ↦ updateFields_delta hcolumn (hdelta fields hfields) h) owner) rounds _ opened
    exit left hstart hloop
  rcases hexit with rfl | ⟨r, rfl, hend⟩
  · exact htracks.elim
  obtain ⟨new, hnew, hid, hvalue⟩ := (htracks hend).rows old hold
  refine ⟨new, hnew, hid, ?_⟩
  rw [hvalue, hcount, Function.iterate_one, delta_of_isDeltaText htext hlower hupper]
  exact stored_eq_target_iff type flag number (value old.record)

end Request

/-! ### A column of bytes -/

theorem mem_of_reached {Place : Type} [LinearOrder Place] {index : RowIndex Record Place}
    {state : TableState Record} {call : IndexCall} {entry : Entry Record}
    (hreached : index.reached state call = some entry) : entry ∈ state.entries := by
  have hnearest : ∀ {back property}, index.nearest back property state.entries = some entry →
      entry ∈ state.entries := fun h ↦ List.mem_of_mem_filter (mem_of_nearest h)
  have hbeyond : ∀ {back}, (state.cursor.bind fun current ↦
      index.nearest back (index.beyond back current) state.entries) = some entry →
      entry ∈ state.entries := by
    intro back h
    obtain ⟨current, -, h⟩ := Option.bind_eq_some_iff.mp h
    exact hnearest h
  cases call with
  | indexReadMap key flag => cases flag <;> exact hnearest hreached
  | indexReadLastMap key => exact hnearest hreached
  | readRangeFirst startKey endKey => exact hnearest (Option.filter_eq_some_iff.mp hreached).1
  | readRangeNext | indexNextSame key => exact hbeyond (Option.filter_eq_some_iff.mp hreached).1
  | indexNext | indexPrev => exact hbeyond hreached

theorem byte_bits_le : 8 ≤ 64 := by decide

/-- The type `TINYINT UNSIGNED`. -/
def byteType : IntegerType := ⟨false, 8, le_rfl, byte_bits_le⟩

/-- The byte that is nearest to a number. -/
def nearestByte (number : ℤ) : Fin 256 := Fin.ofNat 256 (min number.toNat 255)

theorem length_pack_byte (value : List UInt8) :
    (BigEndian.toBytes (leadingNumber value)).length = 4 :=
  BigEndian.length_toBytes _

/-- A column of bytes. -/
def byteField : Field (Fin 256) where
  fieldName := [118]
  type := 1
  isBlob := false
  isNull _ := false
  setNull _ := 0
  store bytes _ := (0, nearestByte (leadingNumber bytes))
  storeInt number _ := (if 0 ≤ number ∧ number ≤ 255 then 0 else 1, nearestByte number)
  saveNow time _ := (0, nearestByte time)
  valInt record := record.val
  valStr record := decimal record.val
  packLength := 4
  pack value := BigEndian.toBytes (leadingNumber value)
  pack_length := length_pack_byte
  cmp record buffer := (record.val : ℤ) - BigEndian.ofBytes buffer

/-- The number of a record. -/
def byteValue (record : Fin 256) : ℤ := record.val

theorem byteType_bounds : byteType.lower = 0 ∧ byteType.upper = 255 := ⟨rfl, rfl⟩

theorem isIntegerColumn_byteField : IsIntegerColumn byteType byteField byteValue where
  value_mem record := by
    rw [byteType_bounds.1, byteType_bounds.2, byteValue]
    omega
  valInt_eq record := by
    rw [byteValue, wrapInt64_eq_self (by omega) (by omega)]
    rfl
  storeInt_value number record := by
    change ((min number.toNat 255 % 256 : ℕ) : ℤ) = _
    rw [IntegerType.nearest, byteType_bounds.1, byteType_bounds.2]
    omega
  storeInt_code number record := by
    rw [byteType_bounds.1, byteType_bounds.2]
    simp only [byteField]
    split_ifs <;> decide

/-- A table with a column of bytes. -/
def byteTable : Table (Fin 256) := ⟨[byteField], [⟨[80, 82, 73, 77, 65, 82, 89], [0], 4⟩], 0⟩

/-- The table is kept in an index of the bytes. -/
def byteWorld : World (TableState (Fin 256)) (Fin 256) := rewritingWorld Fin.val byteTable

theorem storesRows_byteWorld : StoresRows byteWorld byteTable id where
  malloc_view _ _ := rfl
  easyBufCreate_view _ _ := rfl
  now_view _ := rfl
  index_view _ _ _ := ⟨rfl, rfl⟩
  index_found _ call state hzero := by
    simp only [byteWorld, rewritingWorld, id] at hzero ⊢
    cases hreached : (valueRows Fin.val).reached state call with
    | none =>
      rw [hreached] at hzero
      exact absurd hzero (by decide : haErrEndOfFile ≠ 0)
    | some entry => exact ⟨entry, mem_of_reached hreached, rfl, rfl⟩
  row_code _ _ _ _ := Or.inl rfl
  toChangesRows := (rewrites_rewritingWorld Fin.val byteTable byteTable 0).toChangesRows

/-- UPDATE of the first byte from 1 on with ADD 10. -/
def addTen : TdhsRequest :=
  { findNumbers .ge [49] 0 1 with
    type := .update
    values := ⟨1, [⟨.add, [49, 48, 0]⟩]⟩ }

theorem isDeltaText_ten : IsDeltaText 10 [49, 48, 0] :=
  ⟨decimal 10, isDecimalOf_decimal 10, Or.inl ⟨by decide, Or.inl (by decide)⟩⟩

theorem requestsDelta_addTen :
    RequestsDelta byteWorld.stray byteTable addTen byteValue byteField .add [49, 48, 0] := by
  intro fields hfields
  cases hfields
  exact ⟨[], [], rfl, fun _ hpair ↦ nomatch hpair⟩

/-- The limit is reached before the byte is met again. -/
theorem addTen_endsInTime : RequestEndsInTime byteWorld (valueRows Fin.val) id byteTable addTen
    (tableContext [200, 5]).outside.entries := by
  refine ⟨0, [byteField], [], by decide, rfl, rfl,
    rewrites_rewritingWorld Fin.val byteTable byteTable 0, fun pair hpair ↦ ?_, by decide +kernel⟩
  rw [List.mem_singleton.mp hpair]
  decide

/-- 5 and 10 is 15. -/
theorem update_delta_exact_five :
    ∃ final, doFindLocked byteWorld 3 ⟨0, 0⟩ addTen (updateHandlers byteWorld ⟨0, 0⟩ addTen.values)
        byteTable (tableContext [200, 5]) = some (.ok, final) ∧
      ∃ new ∈ final.outside.entries, new.id = 1 ∧ byteValue new.record = 5 + 10 := by
  have hrun : (doFindLocked byteWorld 3 ⟨0, 0⟩ addTen
      (updateHandlers byteWorld ⟨0, 0⟩ addTen.values) byteTable (tableContext [200, 5])).map
        (fun outcome ↦ (outcome.1, (outcome.2.response ⟨0, 0⟩).code,
          outcome.2.outside.touched)) = some (.ok, 200, [1]) := by
    decide +kernel
  obtain ⟨⟨ret, final⟩, hreturns, hresult⟩ := Option.map_eq_some_iff.mp hrun
  obtain ⟨rfl, hrest⟩ := Prod.mk.inj hresult
  obtain ⟨hcode, htouched⟩ := Prod.mk.inj hrest
  have hrow : (⟨1, 5⟩ : Entry (Fin 256)) ∈ (id (tableContext [200, 5]).outside).entries :=
    List.mem_cons_of_mem _ List.mem_cons_self
  obtain ⟨new, hnew, hid, hexact⟩ := update_delta_exact (valueRows Fin.val) storesRows_byteWorld
    isIntegerColumn_byteField isDeltaText_ten (by decide) (by decide) requestsDelta_addTen
    (isDistinct_tableContext [200, 5]) rfl hreturns hcode hrow
    (Or.inr ⟨htouched ▸ List.mem_singleton_self _, addTen_endsInTime⟩)
  exact ⟨final, hreturns, new, hnew, hid, hexact.mpr (by decide)⟩

/-- 250 and 10 is stored as 255, and the answer is 200. -/
theorem add_to_byte_saturates :
    (doFindLocked byteWorld 3 ⟨0, 0⟩ addTen (updateHandlers byteWorld ⟨0, 0⟩ addTen.values)
        byteTable (tableContext [250])).map (fun outcome ↦ (outcome.1,
          (outcome.2.response ⟨0, 0⟩).code, outcome.2.outside.touched,
          outcome.2.outside.entries)) = some (.ok, 200, [0], [⟨0, 255⟩]) ∧
    byteValue 255 ≠ DeltaFlag.add.target (byteValue 250) 10 :=
  ⟨by decide +kernel, by decide⟩

end TdhSocket.Execute
