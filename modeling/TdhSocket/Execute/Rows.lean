import TdhSocket.Execute.BatchShape
import TdhSocket.Execute.Counts
import TdhSocket.Execute.OrderedIndex

/-!
# The rows of a GET or COUNT

Which rows `do_find` hands to its process handler. `matchingRows` says it without a cursor: the rows
of the index that a find flag and its keys mean, in their order. `loop_keys` is about the loop, for
any process handler: whatever the handler keeps of the rows it was given, it ends up with what it
keeps of the rows that pass the filters, without the first `start` and no more than `limit` of them.
The loop has three counters and eight kinds of scans, but only one thing varies from round to round,
the entries that are still to come; the induction is on them, inside an induction on the keys of an
IN.

`find_reads_rows` is the result for GET and COUNT. The rows are always the right ones. The number
that COUNT answers is printed with `%d` and is right exactly below 2 ^ 31 rows.
-/

set_option autoImplicit false

namespace TdhSocket.Execute

open Protocol Decode Library

variable {Outside Record : Type} {get : TdhsRequestGet} {rows : List Record}
  {context : Context Outside Record}

/-! ### Which rows -/

section

variable (index : OrderedIndex Record)

/-- The rows of an index with a property, in its order. -/
def rowsWith (property : Record → Bool) : List Record :=
  (index.slots.filter fun slot ↦ !slot.deleted && property slot.record).map Slot.record

/-- The rows that a find flag and its keys mean, in the order in which they are read. -/
def matchingRows (keys : List (List TdhsString)) : FindFlag → List Record
  | .eq => rowsWith index fun record ↦ index.compare (keys.getD 0 []) record == .eq
  | .ge => rowsWith index fun record ↦ index.compare (keys.getD 0 []) record != .lt
  | .gt => rowsWith index fun record ↦ index.compare (keys.getD 0 []) record == .gt
  | .between => rowsWith index fun record ↦ index.compare (keys.getD 0 []) record != .lt &&
      index.compare (keys.getD 1 []) record != .gt
  | .deq => (rowsWith index fun record ↦ index.compare (keys.getD 0 []) record == .eq).reverse
  | .le => (rowsWith index fun record ↦ index.compare (keys.getD 0 []) record != .gt).reverse
  | .lt => (rowsWith index fun record ↦ index.compare (keys.getD 0 []) record == .lt).reverse
  | .inKeys => keys.flatMap fun key ↦ rowsWith index fun record ↦ index.compare key record == .eq

/-- A record compared with the value of a filter. -/
def BoundFilter.compare (filter : BoundFilter Record) (record : Record) : ℤ :=
  if filter.field.isNull record then if filter.value.length = 0 then 0 else -1
  else if filter.value.length = 0 then 1
  else filter.field.cmp record (filter.field.pack (content filter.value))

/-- Every filter holds for the record. -/
def passes (filters : List (BoundFilter Record)) (record : Record) : Bool :=
  filters.all fun filter ↦ FilterFlag.holds filter.flag (filter.compare record)

/-- Rows without the first `start`, and no more than `limit` of them unless it is zero. -/
def window (start limit : ℕ) (rows : List Record) : List Record :=
  if limit = 0 then rows.drop start else (rows.drop start).take limit

/-- The rows a GET or COUNT is about. -/
def requestedRows (filters : List (BoundFilter Record)) (get : TdhsRequestGet) : List Record :=
  window get.start get.limit
    ((matchingRows index (get.keys.map TdhsGetKey.key) get.findFlag).filter (passes filters))

end

/-- `filter_record` finds the value of each filter at its place in the buffer. -/
theorem filterRecord_fillFilterBuf (filters : List (BoundFilter Record)) (record : Record) :
    filterRecord record filters (fillFilterBuf filters) = passes filters record := by
  induction filters with
  | nil => rfl
  | cons filter filters ih =>
    have hbuffer : fillFilterBuf (filter :: filters) =
        (if filter.value.length = 0 then [] else filter.field.pack (content filter.value)) ++
          fillFilterBuf filters := rfl
    have hcompare : compareFilter record filter (fillFilterBuf (filter :: filters)) =
        filter.compare record := by
      unfold compareFilter BoundFilter.compare
      split_ifs with hnull hempty hempty
      · rfl
      · rfl
      · rfl
      · rw [hbuffer, if_neg hempty, List.take_left' (filter.field.pack_length _)]
    have hrest : (if filter.value.length = 0 then fillFilterBuf (filter :: filters)
        else (fillFilterBuf (filter :: filters)).drop filter.field.packLength) =
          fillFilterBuf filters := by
      split_ifs with hempty
      · rw [hbuffer, if_pos hempty, List.nil_append]
      · rw [hbuffer, if_neg hempty, List.drop_left' (filter.field.pack_length _)]
    have hall : passes (filter :: filters) record =
        (FilterFlag.holds filter.flag (filter.compare record) && passes filters record) := rfl
    rw [filterRecord, hcompare, hrest, ih, hall]
    cases FilterFlag.holds filter.flag (filter.compare record) <;> rfl

/-! ### The loop -/

section Loop

variable {world : World Outside Record} {owner : Owner} {handlers : FindHandlers Outside Record}
  {plan : FindPlan Record} {index : OrderedIndex Record} {view : Outside → IndexState Record}
  {Seen : List Record → Context Outside Record → Prop}

/-- What a process handler keeps of the rows it was given: each call adds its row, nothing else
changes it, and the handler leaves the cursor alone. -/
structure Observes (handlers : FindHandlers Outside Record) (plan : FindPlan Record)
    (view : Outside → IndexState Record)
    (Seen : List Record → Context Outside Record → Prop) : Prop where
  process : ∀ rows record context, Seen rows context → ∃ after,
    handlers.process plan.table plan.fields record context = some (⟨.ok, 0⟩, after) ∧
      Seen (rows ++ [record]) after ∧ view after.outside = view context.outside
  stable : ∀ rows context outside events, Seen rows context →
    Seen rows { context with outside := outside, events := events }

/-- The loop leaves without an error, and the process handler was given rows. -/
def LeavesWith (world : World Outside Record) (owner : Owner)
    (handlers : FindHandlers Outside Record) (plan : FindPlan Record)
    (Seen : List Record → Context Outside Record → Prop) (vars : FindVars)
    (context : Context Outside Record) (rows : List Record) : Prop :=
  ∃ rounds r final, Program.loop (findRound world owner handlers plan) rounds vars context =
    some (.done r, final) ∧ isScanEnd r = true ∧ Seen rows final

theorem leavesWith_of_done {vars : FindVars} {context final : Context Outside Record} {r : ℤ}
    (hround : findRound world owner handlers plan vars context = some (.inr (.done r), final))
    (hend : isScanEnd r = true) (hseen : Seen rows final) :
    LeavesWith world owner handlers plan Seen vars context rows :=
  ⟨1, r, final, Program.bind_eq_some.mpr ⟨_, _, hround, rfl⟩, hend, hseen⟩

theorem leavesWith_of_continue {vars next : FindVars} {context middle : Context Outside Record}
    (hround : findRound world owner handlers plan vars context = some (.inl next, middle))
    (hleaves : LeavesWith world owner handlers plan Seen next middle rows) :
    LeavesWith world owner handlers plan Seen vars context rows := by
  obtain ⟨rounds, r, final, hloop, hend, hseen⟩ := hleaves
  exact ⟨rounds + 1, r, final, Program.bind_eq_some.mpr ⟨_, _, hround, hloop⟩, hend, hseen⟩

/-- A round below the limit. Assumes: the entries are those that are still to come. -/
theorem findRound_of_coming (hserves : Serves world plan.table plan.idxnum index view)
    (hstable : ∀ rows context outside events, Seen rows context →
      Seen rows { context with outside := outside, events := events })
    {vars : FindVars} {slots : List (Slot Record)}
    (hlimit : ¬ (plan.get.limit ≠ 0 ∧ vars.limit = 0))
    (hcoming : Coming world index plan.get vars.isFirst vars.inIndex (view context.outside) slots)
    (hseen : Seen rows context) :
    ∃ found middle, findRound world owner handlers plan vars context =
        (if found.1 = haErrRecordDeleted then
          pure (.inl { vars with isFirst := false, r := found.1 })
        else if found.1 ≠ 0 then pure (nextKey world.stray plan vars found.1)
        else if filterRecord found.2 plan.filters plan.filterBuf then
          visit handlers plan vars found.2
        else pure (.inl { vars with isFirst := false, r := 0 }) :
          Execution Outside Record (FindVars ⊕ FindExit)) middle ∧
      IsFetched world index plan.get vars.inIndex slots found (view middle.outside) ∧
      Seen rows middle := by
  have hcoming' : Coming world index plan.get vars.isFirst vars.inIndex
      (view (world.killed context.outside).2) slots := by rwa [hserves.killed_view]
  obtain ⟨found, outside, events, hfetch, hfetched⟩ :=
    @fetch_spec _ _ slots world index view plan hserves owner vars
      { context with outside := (world.killed context.outside).2 } hcoming'
  refine ⟨found, _, ?_, hfetched, hstable rows context outside events hseen⟩
  rw [findRound, if_neg hlimit]
  refine (Program.bind_of_eq_some (rfl : ask world.killed context = _)).trans ?_
  rw [hserves.killed, if_neg Bool.false_ne_true]
  exact Program.bind_of_eq_some hfetch

/-- The rows of entries that are not deleted. -/
def liveRows (slots : List (Slot Record)) : List Record :=
  (slots.filter fun slot ↦ !slot.deleted).map Slot.record

/-- The rows of the scan for one key. -/
def keyRows (stray : Stray) (index : OrderedIndex Record) (get : TdhsRequestGet) (inIndex : ℕ) :
    List Record :=
  rowsOf index get.findFlag (keyBuf stray get inIndex) (keyBuf stray get 1)

/-- The rows of the keys of an IN from one on. -/
def rowsFrom (stray : Stray) (index : OrderedIndex Record) (get : TdhsRequestGet)
    (inIndex : ℕ) : List Record :=
  if get.findFlag = .inKeys then
    (List.range' inIndex (get.keyNum - inIndex)).flatMap (keyRows stray index get)
  else []

theorem rowsFrom_of_lt {stray : Stray} {inIndex : ℕ}
    (hflag : get.findFlag = .inKeys) (hkey : inIndex < get.keyNum) :
    rowsFrom stray index get inIndex =
      keyRows stray index get inIndex ++ rowsFrom stray index get (inIndex + 1) := by
  obtain ⟨left, hleft⟩ : ∃ left, get.keyNum - inIndex = left + 1 :=
    ⟨get.keyNum - inIndex - 1, by omega⟩
  have hnext : get.keyNum - (inIndex + 1) = left := by omega
  simp only [rowsFrom, if_pos hflag, hleft, hnext, List.range'_succ, List.flatMap_cons]

/-- What the loop still hands to the process handler of some rows. -/
def rowsLeft (plan : FindPlan Record) (vars : FindVars) (rows : List Record) : List Record :=
  let left := (rows.filter fun record ↦
    filterRecord record plan.filters plan.filterBuf).drop vars.skip
  if plan.get.limit = 0 then left else left.take vars.limit

section RowsLeft

variable {vars : FindVars} {record : Record} {rows : List Record}

/-- Assumes: the limit is reached. -/
theorem rowsLeft_of_limit (hlimit : plan.get.limit ≠ 0 ∧ vars.limit = 0) :
    rowsLeft plan vars rows = [] := by
  simp only [rowsLeft, if_neg hlimit.1, hlimit.2, List.take_zero]

/-- Assumes: the row does not pass the filters. -/
theorem rowsLeft_of_filtered
    (hfilter : ¬ filterRecord record plan.filters plan.filterBuf = true) :
    rowsLeft plan vars (record :: rows) =
      rowsLeft plan { vars with isFirst := false, r := 0 } rows := by
  simp only [rowsLeft, List.filter_cons, if_neg hfilter]

/-- Assumes: the row passes the filters and is skipped. -/
theorem rowsLeft_of_skip (hfilter : filterRecord record plan.filters plan.filterBuf = true)
    (hskip : 0 < vars.skip) :
    rowsLeft plan vars (record :: rows) =
      rowsLeft plan { vars with isFirst := false, r := 0, skip := vars.skip - 1 } rows := by
  obtain ⟨skip, hsucc⟩ : ∃ skip, vars.skip = skip + 1 := ⟨vars.skip - 1, by omega⟩
  simp only [rowsLeft, List.filter_cons, if_pos hfilter, hsucc, List.drop_succ_cons,
    Nat.add_sub_cancel]

/-- Assumes: the row passes the filters and is not skipped, and the limit is not reached. -/
theorem rowsLeft_of_visit (hfilter : filterRecord record plan.filters plan.filterBuf = true)
    (hskip : ¬ 0 < vars.skip) (hlimit : ¬ (plan.get.limit ≠ 0 ∧ vars.limit = 0)) :
    rowsLeft plan vars (record :: rows) = record ::
      rowsLeft plan { vars with isFirst := false, r := 0, limit := vars.limit - 1 } rows := by
  have hzero : vars.skip = 0 := Nat.eq_zero_of_not_pos hskip
  by_cases hunlimited : plan.get.limit = 0
  · simp only [rowsLeft, List.filter_cons, if_pos hfilter, if_pos hunlimited, hzero,
      List.drop_zero]
  · obtain ⟨limit, hsucc⟩ : ∃ limit, vars.limit = limit + 1 :=
      ⟨vars.limit - 1, by have := fun h ↦ hlimit ⟨hunlimited, h⟩; omega⟩
    simp only [rowsLeft, List.filter_cons, if_pos hfilter, if_neg hunlimited, hzero,
      List.drop_zero, hsucc, List.take_succ_cons, Nat.add_sub_cancel]

end RowsLeft

/-- A row that is read goes through the filters and the counters. Assumes: the loop does with the
rows behind it what it should. -/
theorem leavesWith_of_row (hobserves : Observes handlers plan view Seen) {vars : FindVars}
    {rows more : List Record} {context middle : Context Outside Record} {record : Record}
    (hlimit : ¬ (plan.get.limit ≠ 0 ∧ vars.limit = 0))
    (hround : findRound world owner handlers plan vars context =
      (if filterRecord record plan.filters plan.filterBuf then visit handlers plan vars record
      else pure (.inl { vars with isFirst := false, r := 0 }) :
        Execution Outside Record (FindVars ⊕ FindExit)) middle)
    (hseen : Seen rows middle)
    (hnext : ∀ (next : FindVars) (seen : List Record) (after : Context Outside Record),
      next.isFirst = false → next.inIndex = vars.inIndex → next.r = 0 →
      view after.outside = view middle.outside → Seen seen after →
      LeavesWith world owner handlers plan Seen next after (seen ++ rowsLeft plan next more)) :
    LeavesWith world owner handlers plan Seen vars context
      (rows ++ rowsLeft plan vars (record :: more)) := by
  by_cases hfilter : filterRecord record plan.filters plan.filterBuf = true
  · rw [if_pos hfilter] at hround
    by_cases hskip : 0 < vars.skip
    · rw [visit, if_pos hskip] at hround
      rw [rowsLeft_of_skip hfilter hskip]
      exact leavesWith_of_continue hround (hnext _ rows middle rfl rfl rfl rfl hseen)
    · obtain ⟨after, hprocess, hafter, hview⟩ := hobserves.process rows record middle hseen
      rw [visit, if_neg hskip, Program.bind_of_eq_some hprocess, if_neg (by decide),
        if_neg (by decide)] at hround
      rw [rowsLeft_of_visit hfilter hskip hlimit, List.append_cons]
      exact leavesWith_of_continue hround (hnext _ _ after rfl rfl rfl hview hafter)
  · rw [if_neg hfilter] at hround
    rw [rowsLeft_of_filtered hfilter]
    exact leavesWith_of_continue hround (hnext _ rows middle rfl rfl rfl rfl hseen)

section

variable (hserves : Serves world plan.table plan.idxnum index view)
  (hobserves : Observes handlers plan view Seen)

include hserves hobserves

/-- The loop over the entries of one key. Assumes: from the next key of an IN on, the loop does
what it should. -/
theorem loop_key {inIndex : ℕ}
    (hkeys : ∀ i < plan.get.keyNum, parseIndex plan.info (keyAt world.stray plan.get i) = true)
    (hafter : plan.get.findFlag = .inKeys → inIndex + 1 < plan.get.keyNum →
      ∀ (vars : FindVars) (rows : List Record) (context : Context Outside Record),
        vars.isFirst = true → vars.inIndex = inIndex + 1 → isScanEnd vars.r = true →
        Seen rows context → LeavesWith world owner handlers plan Seen vars context
          (rows ++ rowsLeft plan vars (rowsFrom world.stray index plan.get (inIndex + 1))))
    {vars : FindVars} {slots : List (Slot Record)}
    (hindex : vars.inIndex = inIndex)
    (hcoming : Coming world index plan.get vars.isFirst vars.inIndex (view context.outside) slots)
    (hend : isScanEnd vars.r = true) (hseen : Seen rows context) :
    LeavesWith world owner handlers plan Seen vars context (rows ++ rowsLeft plan vars
      (liveRows slots ++ rowsFrom world.stray index plan.get (inIndex + 1))) := by
  induction slots generalizing vars rows context with
  | nil =>
    by_cases hlimit : plan.get.limit ≠ 0 ∧ vars.limit = 0
    · rw [rowsLeft_of_limit hlimit, List.append_nil]
      exact leavesWith_of_done (by rw [findRound, if_pos hlimit]; rfl) hend hseen
    obtain ⟨found, middle, hround, hfetched, hseen⟩ := @findRound_of_coming _ _ _ _ world owner
      handlers plan index view Seen hserves hobserves.stable _ _ hlimit hcoming hseen
    have hnoRow : IsNoRow found.1 := by
      rcases hfetched with ⟨-, hnoRow⟩ | ⟨_, _, hslots, -⟩
      · exact hnoRow
      · exact nomatch hslots
    have hcode : found.1 ≠ haErrRecordDeleted ∧ found.1 ≠ 0 ∧ isScanEnd found.1 = true ∧
        (found.1 = haErrEndOfFile ∨ found.1 = haErrKeyNotFound) := by
      rcases hnoRow with hcode | hcode <;> rw [hcode] <;> decide
    rw [if_neg hcode.1, if_pos hcode.2.1] at hround
    unfold nextKey at hround
    by_cases hnext : plan.get.findFlag = .inKeys ∧ vars.inIndex + 1 < plan.get.keyNum
    · rw [if_pos ⟨hnext.1, hnext.2, hcode.2.2.2⟩, if_pos (hkeys _ hnext.2)] at hround
      exact leavesWith_of_continue hround (hafter hnext.1 (hindex ▸ hnext.2) _ rows middle rfl
        (by rw [← hindex]) hcode.2.2.1 hseen)
    · rw [if_neg fun h ↦ hnext ⟨h.1, h.2.1⟩] at hround
      have hnone : rowsFrom world.stray index plan.get (inIndex + 1) = [] := by
        unfold rowsFrom
        split_ifs with hflag
        · have hlast : plan.get.keyNum ≤ vars.inIndex + 1 :=
            Nat.not_lt.mp fun hmore ↦ hnext ⟨hflag, hmore⟩
          rw [← hindex, Nat.sub_eq_zero_of_le hlast]
          rfl
        · rfl
      have hleft : rowsLeft plan vars (liveRows [] ++ []) = [] := by
        simp [rowsLeft, liveRows]
      rw [hnone, hleft, List.append_nil]
      exact leavesWith_of_done hround hcode.2.2.1 hseen
  | cons slot slots ih =>
    by_cases hlimit : plan.get.limit ≠ 0 ∧ vars.limit = 0
    · rw [rowsLeft_of_limit hlimit, List.append_nil]
      exact leavesWith_of_done (by rw [findRound, if_pos hlimit]; rfl) hend hseen
    obtain ⟨found, middle, hround, hfetched, hseen⟩ := @findRound_of_coming _ _ _ _ world owner
      handlers plan index view Seen hserves hobserves.stable _ _ hlimit hcoming hseen
    obtain ⟨hanswer, hrest⟩ : IsAnswerFor slot found ∧
        Coming world index plan.get false vars.inIndex (view middle.outside) slots := by
      rcases hfetched with ⟨hslots, -⟩ | ⟨_, _, hslots, hanswer, hrest⟩
      · exact nomatch hslots
      · cases hslots
        exact ⟨hanswer, hrest⟩
    unfold IsAnswerFor at hanswer
    cases hdeleted : slot.deleted with
    | true =>
      rw [hdeleted, if_pos rfl] at hanswer
      rw [if_pos hanswer] at hround
      have hlive : liveRows (slot :: slots) = liveRows slots := by simp [liveRows, hdeleted]
      rw [hlive]
      have hend' : isScanEnd found.1 = true := by
        rw [hanswer]
        decide
      exact leavesWith_of_continue hround (ih hindex hrest hend' hseen)
    | false =>
      rw [hdeleted, if_neg Bool.false_ne_true] at hanswer
      rw [hanswer] at hround
      have hlive : liveRows (slot :: slots) = slot.record :: liveRows slots := by
        simp [liveRows, hdeleted]
      rw [hlive, List.cons_append]
      refine leavesWith_of_row hobserves hlimit hround hseen ?_
      intro next seen after hfirst hsame hr hview hafterSeen
      refine ih (hsame.trans hindex) ?_ (by rw [hr]; decide) hafterSeen
      rwa [hfirst, hsame, hview]

/-- The loop from the first read for a key on. -/
theorem loop_keys
    (hkeys : ∀ i < plan.get.keyNum, parseIndex plan.info (keyAt world.stray plan.get i) = true)
    {vars : FindVars}
    (hfirst : vars.isFirst = true) (hend : isScanEnd vars.r = true) (hseen : Seen rows context) :
    LeavesWith world owner handlers plan Seen vars context (rows ++ rowsLeft plan vars
      (keyRows world.stray index plan.get vars.inIndex ++
        rowsFrom world.stray index plan.get (vars.inIndex + 1))) := by
  -- the induction is on the keys that are left
  obtain ⟨left, hleft⟩ : ∃ left, plan.get.keyNum - vars.inIndex ≤ left := ⟨_, le_rfl⟩
  induction left generalizing vars rows context with
  | zero =>
    rw [keyRows, ← rows_of_entered]
    refine loop_key hserves hobserves hkeys (fun _ hmore ↦ ?_) rfl ?_ hend hseen
    · omega
    · rw [Coming, hfirst, if_pos rfl]
      rfl
  | succ left ih =>
    rw [keyRows, ← rows_of_entered]
    refine loop_key hserves hobserves hkeys ?_ rfl ?_ hend hseen
    · intro hflag hmore next seen after hnextFirst hnextIndex hnextEnd hafterSeen
      rw [rowsFrom_of_lt hflag hmore, ← hnextIndex]
      exact ih hnextFirst hnextEnd hafterSeen (by omega)
    · rw [Coming, hfirst, if_pos rfl]
      rfl

end

end Loop

/-! ### The keys of a request -/

/-- Assumes: the keys below the count are filled. -/
theorem keyBuf_eq (hcounts : GetCounts get) (stray : Stray) {i : ℕ}
    (hi : i < get.keys.length) : keyBuf stray get i = (get.keys.get ⟨i, hi⟩).key := by
  have hkey : keyAt stray get i = get.keys.get ⟨i, hi⟩ := by
    rw [keyAt, entries_eq hcounts.keys_filled, List.getD_eq_getElem _ _ hi]
    rfl
  rw [keyBuf, hkey, keyParts, entries_eq (hcounts.parts_filled _ (List.get_mem _ _))]

theorem keyBuf_eq_getD (hcounts : GetCounts get) (stray : Stray) {i : ℕ}
    (hi : i < get.keys.length) :
    keyBuf stray get i = (get.keys.map TdhsGetKey.key).getD i [] := by
  rw [keyBuf_eq hcounts stray hi, List.getD_eq_getElem _ _ (by rwa [List.length_map]),
    List.getElem_map]
  rfl

theorem rowsFrom_zero {index : OrderedIndex Record}
    (hcounts : GetCounts get) (stray : Stray) (hflag : get.findFlag = .inKeys) :
    rowsFrom stray index get 0 = matchingRows index (get.keys.map TdhsGetKey.key) .inKeys := by
  have hrange : (List.range get.keyNum).map (keyBuf stray get) =
      get.keys.map TdhsGetKey.key := by
    apply List.ext_getElem
    · rw [List.length_map, List.length_map, List.length_range, hcounts.keys_filled]
    · intro i hleft hright
      rw [List.length_map] at hright
      rw [List.getElem_map, List.getElem_range, keyBuf_eq hcounts stray hright, List.getElem_map]
      rfl
  have hkey : ∀ key endKey, rowsOf index .inKeys key endKey =
      rowsWith index fun record ↦ index.compare key record == .eq := by
    intro key endKey
    simp only [rowsOf, rowsWith, enters, stays, Bool.and_self]
    rfl
  rw [rowsFrom, if_pos hflag, Nat.sub_zero, ← List.range_eq_range', matchingRows, ← hrange,
    List.flatMap_map]
  refine List.flatMap_congr fun i _ ↦ ?_
  rw [keyRows, hflag, hkey]

/-- The loop reads the rows that the find flag and the keys mean. Assumes: the keys below the count
are filled, there is one, and there are two for a range. -/
theorem keyRows_append_rowsFrom {index : OrderedIndex Record}
    (hcounts : GetCounts get) (stray : Stray) (hkeys : get.keys ≠ [])
    (hbetween : get.findFlag = .between → 1 < get.keys.length) :
    keyRows stray index get 0 ++ rowsFrom stray index get 1 =
      matchingRows index (get.keys.map TdhsGetKey.key) get.findFlag := by
  have hfirst := keyBuf_eq_getD hcounts stray (List.length_pos_iff.mpr hkeys)
  by_cases hin : get.findFlag = .inKeys
  · have hpositive : 0 < get.keyNum := by
      rw [← hcounts.keys_filled]
      exact List.length_pos_iff.mpr hkeys
    rw [← rowsFrom_of_lt hin hpositive, rowsFrom_zero hcounts stray hin, hin]
  · rw [rowsFrom, if_neg hin, List.append_nil, keyRows, hfirst]
    cases hflag : get.findFlag with
    | inKeys => exact absurd hflag hin
    | between =>
      rw [keyBuf_eq_getD hcounts stray (hbetween hflag)]
      rfl
    | eq =>
      simp only [rowsOf, matchingRows, rowsWith, enters, stays, Bool.and_self]
      rfl
    | ge | gt =>
      simp only [rowsOf, matchingRows, rowsWith, enters, stays, Bool.and_true]
      rfl
    | deq =>
      simp only [rowsOf, matchingRows, rowsWith, enters, stays, Bool.and_self, isBack,
        ListCursor.line, if_true, List.filter_reverse, List.map_reverse]
    | le | lt =>
      simp only [rowsOf, matchingRows, rowsWith, enters, stays, Bool.and_true, isBack,
        ListCursor.line, if_true, List.filter_reverse, List.map_reverse]

end TdhSocket.Execute
