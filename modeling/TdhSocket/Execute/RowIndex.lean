import Mathlib.Data.List.MinMax
import Mathlib.Data.List.Nodup
import TdhSocket.Execute.OrderedIndex

/-!
# Scans of an index that changes

UPDATE reads an index and changes it at the same time. Here the entries of the index are the rows
of the table as they are at the moment, each with an identity, and `place` is where an entry
stands. The cursor is the entry that was read last, as it was then, and the next read is of the
nearest entry beyond the place of that one. `Rewrites` says that a storage engine works like that:
a row that is changed takes its new place, and `touched` has the rows `ha_update_row` was called
for.

`fetch_rewrites` is the step of a scan. What a read finds is the nearest of the rows that are ahead,
and all the others stay ahead.
-/

set_option autoImplicit false

namespace TdhSocket.Execute

open Protocol Decode Library

variable {Outside Record Place : Type} [LinearOrder Place]

/-! ### The index -/

/-- A row of a table with its identity. -/
structure Entry (Record : Type) where
  id : ℕ
  record : Record
  deriving DecidableEq, Repr

/-- The order of an index: the places of entries, no two rows at one, and the comparison of records
with keys that goes with it. -/
structure RowIndex (Record Place : Type) [LinearOrder Place] where
  place : Entry Record → Place
  place_id : ∀ first second, place first = place second → first.id = second.id
  compare : List TdhsString → Record → Ordering
  sorted : ∀ key first later, place first ≤ place later →
    (compare key first.record = .gt → compare key later.record = .gt) ∧
      (compare key later.record = .lt → compare key first.record = .lt)

/-- The table as the handler has it: its rows, the entry read last, the end of the range of
`read_range_first`, and the rows `ha_update_row` was called for. -/
structure TableState (Record : Type) where
  entries : List (Entry Record)
  cursor : Option (Entry Record)
  endKey : List TdhsString
  touched : List ℕ

/-- The rows with one of them changed. -/
def replaceRow (id : ℕ) (new : Record) (entries : List (Entry Record)) : List (Entry Record) :=
  entries.map fun entry ↦ if entry.id = id then ⟨id, new⟩ else entry

namespace RowIndex

variable (index : RowIndex Record Place)

/-- The comparison with keys alone. -/
def comparison : OrderedIndex Record := ⟨[], index.compare, fun _ ↦ List.Pairwise.nil⟩

/-- An entry is behind another one in the direction of a scan. -/
def beyond (back : Bool) (first later : Entry Record) : Bool :=
  if back then decide (index.place later < index.place first)
  else decide (index.place first < index.place later)

/-- The first entry with a property in the direction of a scan. -/
def nearest (back : Bool) (property : Entry Record → Bool) (entries : List (Entry Record)) :
    Option (Entry Record) :=
  if back then (entries.filter property).argmax index.place
  else (entries.filter property).argmin index.place

/-- The entry a call finds. -/
def reached (state : TableState Record) : IndexCall → Option (Entry Record)
  | .indexReadMap key .keyExact =>
    index.nearest false (fun entry ↦ index.compare key entry.record == .eq) state.entries
  | .indexReadMap key .keyOrNext =>
    index.nearest false (fun entry ↦ index.compare key entry.record != .lt) state.entries
  | .indexReadMap key .afterKey =>
    index.nearest false (fun entry ↦ index.compare key entry.record == .gt) state.entries
  | .indexReadMap key .keyOrPrev =>
    index.nearest true (fun entry ↦ index.compare key entry.record != .gt) state.entries
  | .indexReadMap key .beforeKey =>
    index.nearest true (fun entry ↦ index.compare key entry.record == .lt) state.entries
  | .indexReadLastMap key =>
    index.nearest true (fun entry ↦ index.compare key entry.record == .eq) state.entries
  | .readRangeFirst startKey endKey =>
    (index.nearest false (fun entry ↦ index.compare startKey entry.record != .lt)
      state.entries).filter fun entry ↦ index.compare endKey entry.record != .gt
  | .readRangeNext => (state.cursor.bind fun current ↦
      index.nearest false (index.beyond false current) state.entries).filter fun entry ↦
        index.compare state.endKey entry.record != .gt
  | .indexNext => state.cursor.bind fun current ↦
      index.nearest false (index.beyond false current) state.entries
  | .indexPrev => state.cursor.bind fun current ↦
      index.nearest true (index.beyond true current) state.entries
  | .indexNextSame key => (state.cursor.bind fun current ↦
      index.nearest false (index.beyond false current) state.entries).filter fun entry ↦
        index.compare key entry.record == .eq

end RowIndex

/-- The end of the range behind a call. -/
def rangeEnd (endKey : List TdhsString) : IndexCall → List TdhsString
  | .readRangeFirst _ endKey => endKey
  | _ => endKey

/-- `ha_update_row` changes the row that was read last, unless it returns an error, and finds a row
the same only where it is. -/
structure ChangesRows (world : World Outside Record) (table : Table Record)
    (view : Outside → TableState Record) : Prop where
  killed_view : ∀ outside, view (world.killed outside).2 = view outside
  row_view : ∀ entry new outside, (view outside).cursor = some entry →
    view (world.row table (.haUpdateRow entry.record new) outside).2 =
      { view outside with
        touched := (view outside).touched ++ [entry.id]
        entries := if (world.row table (.haUpdateRow entry.record new) outside).1 = 0 then
          replaceRow entry.id new (view outside).entries else (view outside).entries }
  row_same : ∀ entry new outside, (view outside).cursor = some entry →
    (world.row table (.haUpdateRow entry.record new) outside).1 = haErrRecordIsTheSame →
      new = entry.record

/-- The storage engine keeps the rows of the table in an index and changes them there. -/
structure Rewrites (world : World Outside Record) (table : Table Record) (idxnum : ℕ)
    (index : RowIndex Record Place) (view : Outside → TableState Record) : Prop
    extends ChangesRows world table view where
  found : ∀ call outside entry, index.reached (view outside) call = some entry →
    (world.index table idxnum call outside).1 = (0, entry.record) ∧
      view (world.index table idxnum call outside).2 =
        { view outside with
          cursor := some entry, endKey := rangeEnd (view outside).endKey call }
  notFound : ∀ call outside, index.reached (view outside) call = none →
    IsNoRow (world.index table idxnum call outside).1.1 ∧
      ∃ cursor, view (world.index table idxnum call outside).2 =
        { view outside with cursor := cursor, endKey := rangeEnd (view outside).endKey call }
  keyCmp : ∀ key record, world.keyCmpIfSame table idxnum key record =
    (index.compare key record != .eq)
  row_code : ∀ entry new outside, (view outside).cursor = some entry →
    (world.row table (.haUpdateRow entry.record new) outside).1 ≠ haErrRecordDeleted

/-! ### Places -/

variable {entry : Entry Record} {entries : List (Entry Record)}

section Places

variable {index : RowIndex Record Place} {back : Bool}

theorem not_beyond_self (entry : Entry Record) : index.beyond back entry entry = false := by
  cases back <;> simp [RowIndex.beyond]

theorem beyond_trans {first second third : Entry Record}
    (hfirst : index.beyond back first second = true)
    (hsecond : index.beyond back second third = true) : index.beyond back first third = true := by
  cases back with
  | false =>
    simp only [RowIndex.beyond, Bool.false_eq_true, if_false, decide_eq_true_eq] at *
    exact hfirst.trans hsecond
  | true =>
    simp only [RowIndex.beyond, if_true, decide_eq_true_eq] at *
    exact hsecond.trans hfirst

/-- A comparison goes up in the direction of a scan. -/
theorem sorted_beyond {first later : Entry Record} (hbeyond : index.beyond back first later = true)
    (key : List TdhsString) : InOrder index.comparison back key first.record later.record := by
  cases back with
  | false =>
    simp only [RowIndex.beyond, Bool.false_eq_true, if_false, decide_eq_true_eq] at hbeyond
    exact index.sorted key first later hbeyond.le
  | true =>
    simp only [RowIndex.beyond, if_true, decide_eq_true_eq] at hbeyond
    simp only [InOrder, inDirection, if_true, Ordering.swap_eq_gt, Ordering.swap_eq_lt]
    have hsorted := index.sorted key later first hbeyond.le
    exact ⟨hsorted.2, hsorted.1⟩

/-- The rows have different identities. -/
def IsDistinct (entries : List (Entry Record)) : Prop := (entries.map Entry.id).Nodup

theorem IsDistinct.eq_of_id (hdistinct : IsDistinct entries)
    {first second : Entry Record} (hfirst : first ∈ entries) (hsecond : second ∈ entries)
    (hid : first.id = second.id) : first = second :=
  List.inj_on_of_nodup_map hdistinct hfirst hsecond hid

variable {property : Entry Record → Bool}

theorem nearest_eq_none (hnearest : index.nearest back property entries = none)
    (hentry : entry ∈ entries) : ¬ property entry = true := by
  have hempty : entries.filter property = [] := by
    cases back with
    | false => exact List.argmin_eq_none.mp hnearest
    | true => exact List.argmax_eq_none.mp hnearest
  exact List.filter_eq_nil_iff.mp hempty entry hentry

theorem mem_of_nearest (hnearest : index.nearest back property entries = some entry) :
    entry ∈ entries.filter property := by
  cases back with
  | false => exact List.argmin_mem hnearest
  | true => exact List.argmax_mem hnearest

/-- All other entries with the property are behind the nearest. -/
theorem nearest_eq_some (hdistinct : IsDistinct entries)
    (hnearest : index.nearest back property entries = some entry) :
    entry ∈ entries ∧ property entry = true ∧ ∀ other ∈ entries, property other = true →
      other ≠ entry → index.beyond back entry other = true := by
  obtain ⟨hentry, hproperty⟩ := List.mem_filter.mp (mem_of_nearest hnearest)
  refine ⟨hentry, hproperty, fun other hother hhas hne ↦ ?_⟩
  have hfilter : other ∈ entries.filter property := List.mem_filter.mpr ⟨hother, hhas⟩
  have hplaces : index.place entry ≠ index.place other := fun hsame ↦
    hne (hdistinct.eq_of_id hother hentry (index.place_id _ _ hsame).symm)
  cases back with
  | false =>
    have hle := List.le_of_mem_argmin hfilter hnearest
    simpa [RowIndex.beyond] using lt_of_le_of_ne hle hplaces
  | true =>
    have hle := List.le_of_mem_argmax hfilter hnearest
    simpa [RowIndex.beyond] using lt_of_le_of_ne hle hplaces.symm

end Places

/-! ### Scans -/

section Scans

variable (stray : Stray) (index : RowIndex Record Place) (get : TdhsRequestGet)

/-- The scan for a key may begin at the row. -/
def entersAt (inIndex : ℕ) (entry : Entry Record) : Bool :=
  enters index.comparison (keyBuf stray get inIndex) entry.record get.findFlag

/-- The scan for a key goes on behind the row. -/
def staysAt (inIndex : ℕ) (entry : Entry Record) : Bool :=
  stays index.comparison (keyBuf stray get inIndex) (keyBuf stray get 1) entry.record get.findFlag

/-- The row is in the range of the scan for a key. -/
def matchesAt (inIndex : ℕ) (entry : Entry Record) : Bool :=
  entersAt stray index get inIndex entry && staysAt stray index get inIndex entry

/-- The row is still to be read by the scan for a key. -/
def Ahead (isFirst : Bool) (inIndex : ℕ) (state : TableState Record) (entry : Entry Record) :
    Prop :=
  entry ∈ state.entries ∧ staysAt stray index get inIndex entry = true ∧
    if isFirst then entersAt stray index get inIndex entry = true
    else ∃ current, state.cursor = some current ∧
      index.beyond (isBack get.findFlag) current entry = true

/-- The handler is in the scan for a key: behind the first read the cursor is in its range and a
range has its end. -/
def Scanning (isFirst : Bool) (inIndex : ℕ) (state : TableState Record) : Prop :=
  isFirst = false → ∃ current, state.cursor = some current ∧
    entersAt stray index get inIndex current = true ∧
    (get.findFlag = .between → state.endKey = keyBuf stray get 1)

variable {stray} {index} {get} {inIndex : ℕ}

/-- Once a scan has begun, every row it goes on to is behind its beginning. -/
theorem entersAt_of_staysAt {first later : Entry Record}
    (hfirst : entersAt stray index get inIndex first = true)
    (hbeyond : index.beyond (isBack get.findFlag) first later = true)
    (hstays : staysAt stray index get inIndex later = true) :
    entersAt stray index get inIndex later = true := by
  by_cases hexact : IsExact get.findFlag
  · exact (stays_of_isExact hexact _ _ _).symm.trans hstays
  · exact enters_of_inOrder hexact (sorted_beyond hbeyond _) hfirst

/-- A row that is ahead is in the range. -/
theorem Ahead.matchesAt {isFirst : Bool} {state : TableState Record}
    (hahead : Ahead stray index get isFirst inIndex state entry)
    (hscanning : Scanning stray index get isFirst inIndex state) :
    matchesAt stray index get inIndex entry = true := by
  obtain ⟨-, hstays, hplace⟩ := hahead
  rw [Execute.matchesAt, Bool.and_eq_true]
  refine ⟨?_, hstays⟩
  cases isFirst with
  | true => exact hplace
  | false =>
    obtain ⟨current, hcursor, hbeyond⟩ := hplace
    obtain ⟨current', hcursor', henters, -⟩ := hscanning rfl
    cases hcursor.symm.trans hcursor'
    exact entersAt_of_staysAt henters hbeyond hstays

/-! ### A read -/

/-- The result of a read: the nearest of the rows ahead, and the others are still ahead, or no row
when none is. -/
def IsRead (stray : Stray) (index : RowIndex Record Place) (get : TdhsRequestGet) (isFirst : Bool)
    (inIndex : ℕ) (before after : TableState Record) (found : ℤ × Record) : Prop :=
  after.entries = before.entries ∧ after.touched = before.touched ∧
    ((IsNoRow found.1 ∧ ∀ entry, ¬ Ahead stray index get isFirst inIndex before entry) ∨
      ∃ entry, found = (0, entry.record) ∧ after.cursor = some entry ∧
        Ahead stray index get isFirst inIndex before entry ∧
        Scanning stray index get false inIndex after ∧
        ∀ other, other ≠ entry → (Ahead stray index get isFirst inIndex before other ↔
          Ahead stray index get false inIndex after other))

/-- What a read looks for: a property of the rows ahead that goes on in the direction of the scan
and that no row before the key of a scan for a key alone has. -/
structure LooksFor (stray : Stray) (index : RowIndex Record Place) (get : TdhsRequestGet)
    (isFirst : Bool) (inIndex : ℕ) (state : TableState Record)
    (property : Entry Record → Bool) : Prop where
  ahead_iff : ∀ entry, Ahead stray index get isFirst inIndex state entry ↔
    entry ∈ state.entries ∧ staysAt stray index get inIndex entry = true ∧ property entry = true
  onward : ∀ first later, property first = true →
    index.beyond (isBack get.findFlag) first later = true →
    staysAt stray index get inIndex later = true → property later = true
  notBefore : ∀ entry, property entry = true → IsExact get.findFlag →
    inDirection (isBack get.findFlag)
      (index.compare (keyBuf stray get inIndex) entry.record) ≠ .lt

variable {isFirst : Bool} {state : TableState Record} {property : Entry Record → Bool}

/-- The first read looks for a row at which the scan may begin. -/
theorem looksFor_first (inIndex : ℕ) (state : TableState Record) :
    LooksFor stray index get true inIndex state (entersAt stray index get inIndex) where
  ahead_iff _ := Iff.rfl
  onward _ _ hfirst hbeyond hstays := entersAt_of_staysAt hfirst hbeyond hstays
  notBefore entry henters hexact hbefore := by
    have hkey := (enters_iff_of_isExact hexact).mp henters
    exact nomatch hkey.symm.trans hbefore

/-- A later read looks for a row beyond the cursor. -/
theorem looksFor_next {current : Entry Record} (hcursor : state.cursor = some current)
    (henters : entersAt stray index get inIndex current = true) :
    LooksFor stray index get false inIndex state
      (index.beyond (isBack get.findFlag) current) where
  ahead_iff entry := by
    simp [Ahead, hcursor]
  onward _ _ hfirst hbeyond _ := beyond_trans hfirst hbeyond
  notBefore entry hbeyond hexact hbefore := by
    have hkey := (enters_iff_of_isExact hexact).mp henters
    exact nomatch hkey.symm.trans ((sorted_beyond hbeyond (keyBuf stray get inIndex)).2 hbefore)

section

variable (hlooks : LooksFor stray index get isFirst inIndex state property)
  (hdistinct : IsDistinct state.entries)

include hlooks hdistinct

/-- Assumes: the nearest row looked for is none, or one that the scan does not stay on. -/
theorem LooksFor.not_ahead
    (hnone : (index.nearest (isBack get.findFlag) property state.entries).filter
      (staysAt stray index get inIndex) = none) (entry : Entry Record) :
    ¬ Ahead stray index get isFirst inIndex state entry := by
  intro hahead
  obtain ⟨hmem, hstays, hproperty⟩ := (hlooks.ahead_iff entry).mp hahead
  cases hnearest : index.nearest (isBack get.findFlag) property state.entries with
  | none => exact nearest_eq_none hnearest hmem hproperty
  | some first =>
    obtain ⟨-, hfirst, hothers⟩ := nearest_eq_some hdistinct hnearest
    have hleaves : ¬ staysAt stray index get inIndex first = true := by
      intro hstay
      rw [hnearest, Option.filter_some, if_pos hstay] at hnone
      exact nomatch hnone
    by_cases hsame : entry = first
    · exact hleaves (hsame ▸ hstays)
    · have hbeyond := hothers entry hmem hproperty hsame
      exact hleaves (stays_of_inOrder (sorted_beyond hbeyond _) (sorted_beyond hbeyond _)
        (hlooks.notBefore first hfirst) hstays)

/-- Assumes: the row is the nearest looked for, and the scan stays on it. -/
theorem LooksFor.isRead {after : TableState Record}
    (hsome : (index.nearest (isBack get.findFlag) property state.entries).filter
      (staysAt stray index get inIndex) = some entry)
    (hscanning : Scanning stray index get isFirst inIndex state)
    (hentries : after.entries = state.entries) (htouched : after.touched = state.touched)
    (hcursor : after.cursor = some entry)
    (hendKey : get.findFlag = .between → after.endKey = keyBuf stray get 1) :
    IsRead stray index get isFirst inIndex state after (0, entry.record) := by
  obtain ⟨hnearest, hstays⟩ := Option.filter_eq_some_iff.mp hsome
  obtain ⟨hmem, hproperty, hothers⟩ := nearest_eq_some hdistinct hnearest
  have hahead := (hlooks.ahead_iff entry).mpr ⟨hmem, hstays, hproperty⟩
  have henters : entersAt stray index get inIndex entry = true := by
    have hmatches := hahead.matchesAt hscanning
    rw [Execute.matchesAt, Bool.and_eq_true] at hmatches
    exact hmatches.1
  refine ⟨hentries, htouched, Or.inr ⟨entry, rfl, hcursor, hahead,
    fun _ ↦ ⟨entry, hcursor, henters, hendKey⟩, fun other hne ↦ ?_⟩⟩
  rw [hlooks.ahead_iff]
  constructor
  · rintro ⟨hother, hstay, hhas⟩
    exact ⟨hentries ▸ hother, hstay, entry, hcursor, hothers other hother hhas hne⟩
  · rintro ⟨hother, hstay, current, hcursor', hbeyond⟩
    cases hcursor.symm.trans hcursor'
    exact ⟨hentries ▸ hother, hstay, hlooks.onward entry other hproperty hbeyond hstay⟩

end

/-! ### The calls of a scan -/

/-- A condition that what was found meets does not change it. -/
theorem filter_eq_self_of_forall {Item : Type} {item : Option Item} {condition : Item → Bool}
    (hcondition : ∀ found, item = some found → condition found = true) :
    item.filter condition = item := by
  cases item with
  | none => rfl
  | some found => rw [Option.filter_some, if_pos (hcondition found rfl)]

/-- The row behind the first call of a scan. -/
theorem reached_firstCall (state : TableState Record) (inIndex : ℕ) :
    index.reached state (firstCall stray get inIndex) =
      (index.nearest (isBack get.findFlag) (entersAt stray index get inIndex)
        state.entries).filter (staysAt stray index get inIndex) := by
  have henters : ∀ {flag : FindFlag}, get.findFlag = flag → entersAt stray index get inIndex =
      fun entry ↦ enters index.comparison (keyBuf stray get inIndex) entry.record flag := by
    rintro _ rfl
    rfl
  by_cases hbetween : get.findFlag = .between
  · have hstays : staysAt stray index get inIndex = fun entry ↦ stays index.comparison
        (keyBuf stray get inIndex) (keyBuf stray get 1) entry.record .between := by
      rw [← hbetween]
      rfl
    rw [henters hbetween, hstays]
    simp only [firstCall, hbetween]
    rfl
  · have hwhole : (index.nearest (isBack get.findFlag) (entersAt stray index get inIndex)
        state.entries).filter (staysAt stray index get inIndex) =
          index.nearest (isBack get.findFlag) (entersAt stray index get inIndex)
            state.entries := by
      refine filter_eq_self_of_forall fun entry hentry ↦ ?_
      exact stays_of_enters hbetween (List.mem_filter.mp (mem_of_nearest hentry)).2
    rw [hwhole]
    cases hflag : get.findFlag with
    | between => exact absurd hflag hbetween
    | _ =>
      rw [henters hflag]
      simp only [firstCall, hflag]
      rfl

/-- The row behind a later call of a scan. Assumes: the cursor stands on a row, and the handler
knows the end of a range. -/
theorem reached_nextCall {current : Entry Record} (inIndex : ℕ)
    (hcursor : state.cursor = some current) (hflag : get.findFlag ≠ .deq)
    (hendKey : get.findFlag = .between → state.endKey = keyBuf stray get 1) :
    index.reached state (nextCall stray get inIndex) =
      (index.nearest (isBack get.findFlag) (index.beyond (isBack get.findFlag) current)
        state.entries).filter (staysAt stray index get inIndex) := by
  have hstays : ∀ {flag : FindFlag}, get.findFlag = flag → staysAt stray index get inIndex =
      fun entry ↦ stays index.comparison (keyBuf stray get inIndex) (keyBuf stray get 1)
        entry.record flag := by
    rintro _ rfl
    rfl
  cases hget : get.findFlag with
  | deq => exact absurd hget hflag
  | between =>
    rw [hstays hget]
    simp only [nextCall, hget, haFindFlag, if_true, RowIndex.reached, hcursor, Option.bind_some,
      hendKey hget]
    rfl
  | eq | inKeys =>
    rw [hstays hget]
    simp only [nextCall, hget, haFindFlag, RowIndex.reached, hcursor, Option.bind_some]
    rfl
  | ge | gt | le | lt =>
    rw [hstays hget]
    refine Eq.trans ?_ (filter_eq_self_of_forall fun _ _ ↦ rfl).symm
    simp only [nextCall, hget, haFindFlag, RowIndex.reached, hcursor, Option.bind_some,
      reduceCtorEq, if_false]
    rfl

end Scans

/-! ### The reads of the loop -/

section Reads

variable {world : World Outside Record} {index : RowIndex Record Place}
  {view : Outside → TableState Record} {plan : FindPlan Record} {isFirst : Bool} {inIndex : ℕ}
  {property : Entry Record → Bool}

section

variable (hrewrites : Rewrites world plan.table plan.idxnum index view)

include hrewrites

/-- The call of a round that compares in the handler. Assumes: it finds the nearest of the rows
looked for, if the scan stays on it. -/
theorem indexCall_isRead (owner : Owner) (call : IndexCall) (context : Context Outside Record)
    (hlooks : LooksFor world.stray index plan.get isFirst inIndex (view context.outside) property)
    (hdistinct : IsDistinct (view context.outside).entries)
    (hscanning : Scanning world.stray index plan.get isFirst inIndex (view context.outside))
    (hcall : index.reached (view context.outside) call =
      (index.nearest (isBack plan.get.findFlag) property (view context.outside).entries).filter
        (staysAt world.stray index plan.get inIndex))
    (hendKey : plan.get.findFlag = .between → rangeEnd (view context.outside).endKey call =
      keyBuf world.stray plan.get 1) :
    ∃ found outside events, indexCall world owner plan.table plan.idxnum call context =
        some (found, { context with outside := outside, events := events }) ∧
      IsRead world.stray index plan.get isFirst inIndex (view context.outside) (view outside)
        found := by
  obtain ⟨events, happly⟩ := indexCall_apply world owner plan.table plan.idxnum call context
  refine ⟨_, _, events, happly, ?_⟩
  cases hreached : index.reached (view context.outside) call with
  | none =>
    obtain ⟨hcode, cursor, hview⟩ := hrewrites.notFound call context.outside hreached
    rw [hview]
    exact ⟨rfl, rfl, Or.inl ⟨hcode, hlooks.not_ahead hdistinct (hcall ▸ hreached)⟩⟩
  | some entry =>
    obtain ⟨hanswer, hview⟩ := hrewrites.found call context.outside entry hreached
    rw [hanswer, hview]
    exact hlooks.isRead hdistinct (hcall ▸ hreached) hscanning rfl rfl rfl hendKey

/-- `index_prev_same` compares the row that `index_prev` found. -/
theorem indexPrevSame_isRead (owner : Owner) (context : Context Outside Record)
    {current : Entry Record} (hflag : plan.get.findFlag = .deq)
    (hdistinct : IsDistinct (view context.outside).entries)
    (hscanning : Scanning world.stray index plan.get false inIndex (view context.outside))
    (hcursor : (view context.outside).cursor = some current)
    (henters : entersAt world.stray index plan.get inIndex current = true) :
    ∃ found outside events,
      indexPrevSame world owner plan (keyBuf world.stray plan.get inIndex) context =
        some (found, { context with outside := outside, events := events }) ∧
      IsRead world.stray index plan.get false inIndex (view context.outside) (view outside)
        found := by
  have hlooks := looksFor_next hcursor henters
  have hback : isBack plan.get.findFlag = true := by rw [hflag]; rfl
  have hnotBetween : plan.get.findFlag = .between → False := by
    rw [hflag]
    exact fun h ↦ nomatch h
  have hreached : index.reached (view context.outside) .indexPrev =
      index.nearest (isBack plan.get.findFlag)
        (index.beyond (isBack plan.get.findFlag) current) (view context.outside).entries := by
    rw [hback]
    simp only [RowIndex.reached, hcursor, Option.bind_some]
  have hstays : ∀ entry : Entry Record, staysAt world.stray index plan.get inIndex entry =
      (index.compare (keyBuf world.stray plan.get inIndex) entry.record == .eq) := by
    intro entry
    rw [staysAt, hflag]
    rfl
  obtain ⟨events, happly⟩ := indexPrevSame_apply world owner plan
    (keyBuf world.stray plan.get inIndex) context
  refine ⟨_, _, events, happly, ?_⟩
  cases hnearest : index.nearest (isBack plan.get.findFlag)
      (index.beyond (isBack plan.get.findFlag) current) (view context.outside).entries with
  | none =>
    obtain ⟨hcode, cursor, hview⟩ :=
      hrewrites.notFound .indexPrev context.outside (hreached.trans hnearest)
    have hnonzero : (world.index plan.table plan.idxnum .indexPrev context.outside).1.1 ≠ 0 := by
      rcases hcode with hcode | hcode <;> rw [hcode] <;> decide
    rw [sameOrEnd, if_neg fun h ↦ hnonzero h.1, hview]
    refine ⟨rfl, rfl, Or.inl ⟨hcode, hlooks.not_ahead hdistinct ?_⟩⟩
    rw [hnearest]
    rfl
  | some entry =>
    obtain ⟨hanswer, hview⟩ :=
      hrewrites.found .indexPrev context.outside entry (hreached.trans hnearest)
    by_cases hstay : staysAt world.stray index plan.get inIndex entry = true
    · have hsame : ¬ world.keyCmpIfSame plan.table plan.idxnum
          (keyBuf world.stray plan.get inIndex) entry.record = true := by
        rw [hrewrites.keyCmp, bne, ← hstays, hstay]
        decide
      rw [sameOrEnd, hanswer, if_neg fun h ↦ hsame h.2, hview]
      refine hlooks.isRead hdistinct ?_ hscanning rfl rfl rfl fun h ↦ (hnotBetween h).elim
      rw [hnearest, Option.filter_some, if_pos hstay]
    · have hdiffers : world.keyCmpIfSame plan.table plan.idxnum
          (keyBuf world.stray plan.get inIndex) entry.record = true := by
        rw [hrewrites.keyCmp, bne, ← hstays, Bool.eq_false_of_not_eq_true hstay]
        rfl
      rw [sameOrEnd, hanswer, if_pos ⟨rfl, hdiffers⟩, hview]
      refine ⟨rfl, rfl, Or.inl ⟨Or.inr rfl, hlooks.not_ahead hdistinct ?_⟩⟩
      rw [hnearest, Option.filter_some, if_neg hstay]

/-- A read finds the nearest of the rows that are ahead. -/
theorem fetch_rewrites (owner : Owner) {vars : FindVars} {context : Context Outside Record}
    (hdistinct : IsDistinct (view context.outside).entries)
    (hscanning : Scanning world.stray index plan.get vars.isFirst vars.inIndex
      (view context.outside)) :
    ∃ found outside events, fetch world owner plan vars context =
        some (found, { context with outside := outside, events := events }) ∧
      IsRead world.stray index plan.get vars.isFirst vars.inIndex (view context.outside)
        (view outside) found := by
  unfold fetch
  cases hfirst : vars.isFirst with
  | true =>
    rw [hfirst] at hscanning
    refine indexCall_isRead hrewrites owner _ context
      (looksFor_first vars.inIndex (view context.outside)) hdistinct hscanning
      (reached_firstCall _ _) fun hbetween ↦ ?_
    simp only [firstCall, hbetween]
    rfl
  | false =>
    rw [hfirst] at hscanning
    obtain ⟨current, hcursor, henters, hendKey⟩ := hscanning rfl
    by_cases hflag : plan.get.findFlag = .deq
    · rw [if_pos hflag]
      exact indexPrevSame_isRead hrewrites owner context hflag hdistinct hscanning hcursor henters
    · rw [if_neg hflag]
      refine indexCall_isRead hrewrites owner _ context (looksFor_next hcursor henters) hdistinct
        hscanning (reached_nextCall vars.inIndex hcursor hflag hendKey) fun hbetween ↦ ?_
      simp only [nextCall, hbetween]
      exact hendKey hbetween

end

end Reads

end TdhSocket.Execute
