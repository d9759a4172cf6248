import TdhSocket.Library.Runs
import TdhSocket.RowCache.IndexConfig

/-!
# The index filter of the row cache

`is_index_need_cache` decides under the configuration of the filter and keeps the decision by index
id. It decides under the shared lock and keeps the decision under the exclusive one, and
`reset_filter` can come between (`stale_decision_kept`). `filter_follows_configuration`: where it
does not, and where an id always belongs to one table and name, every answer is the configured one.
-/

set_option autoImplicit false

namespace TdhSocket.RowCache

open Library

/-- What `is_index_need_cache` reads of a `dict_index_t`. -/
structure DictIndex where
  id : UInt64
  tableName : List Char
  name : List Char
  deriving DecidableEq

/-- What `filter_lock` protects; the hash tables are the ids in them. -/
structure IndexFilter where
  innodbRowCacheIndexR : List Char
  hasFilter : Bool
  filteredInIndex : List UInt64
  filteredOutIndex : List UInt64
  deriving DecidableEq

/-- `INDEX_CONFIG_LEN`. -/
def indexConfigLen : ℕ := 2048

/-- The locked section of `reset_filter`; the argument is the string of `innodb_row_cache_index`. -/
def resetFilter (innodbRowCacheIndex : List Char) : IndexFilter :=
  let installed := innodbRowCacheIndex.take indexConfigLen
  ⟨installed, !installed.isEmpty, [], []⟩

/-- The first locked section of `is_index_need_cache`: `ret` and `is_in_hash`. -/
def lookUpIndex (filter : IndexFilter) (index : DictIndex) : Bool × Bool :=
  if !filter.hasFilter then (true, true)
  else if index.id ∈ filter.filteredInIndex then (true, true)
  else if index.id ∈ filter.filteredOutIndex then (false, true)
  else (compareIndexConfig index.tableName index.name filter.innodbRowCacheIndexR, false)

/-- `add_result_to_index_hash`, the second locked section. -/
def addResultToIndexHash (filter : IndexFilter) (treeId : UInt64) (isInFilter allocated : Bool) :
    IndexFilter :=
  if !allocated then filter
  else if isInFilter then { filter with filteredInIndex := treeId :: filter.filteredInIndex }
  else { filter with filteredOutIndex := treeId :: filter.filteredOutIndex }

/-- The filter, and the ids and decisions of the calls between their two sections. -/
structure FilterState where
  filter : IndexFilter
  calls : List (UInt64 × Bool)
  deriving DecidableEq

/-- The locked sections of the threads. -/
inductive FilterEvent
  | lookUp (index : DictIndex)
  | addResult (call : UInt64 × Bool) (allocated : Bool)
  | reset (innodbRowCacheIndex : List Char)

/-- One locked section. -/
def FilterState.step (state : FilterState) : FilterEvent → Option FilterState
  | .lookUp index =>
    let answer := lookUpIndex state.filter index
    some { state with
      calls := if answer.2 then state.calls else (index.id, answer.1) :: state.calls }
  | .addResult call allocated =>
    if call ∈ state.calls then
      some ⟨addResultToIndexHash state.filter call.1 call.2 allocated, state.calls.erase call⟩
    else none
  | .reset innodbRowCacheIndex => some { state with filter := resetFilter innodbRowCacheIndex }

/-- The configured decision about an index. -/
def configured (config : List Char) (index : DictIndex) : Bool :=
  config.isEmpty || compareIndexConfig index.tableName index.name config

section Follows

variable (naming : UInt64 → List Char × List Char)

/-- An id belongs to one table and name, and no reset falls between the two sections of a call. -/
def StaysNamed (state : FilterState) : FilterEvent → Prop
  | .lookUp index => (index.tableName, index.name) = naming index.id
  | .addResult _ _ => True
  | .reset _ => state.calls = []

/-- The decision that an id should be kept with. -/
def decisionFor (config : List Char) (id : UInt64) : Bool :=
  compareIndexConfig (naming id).1 (naming id).2 config

/-- What is kept and what will be is decided under the configuration of the filter. -/
structure IsCurrent (state : FilterState) : Prop where
  hasFilter : state.filter.hasFilter = !state.filter.innodbRowCacheIndexR.isEmpty
  filteredIn : ∀ id ∈ state.filter.filteredInIndex,
    decisionFor naming state.filter.innodbRowCacheIndexR id = true
  filteredOut : ∀ id ∈ state.filter.filteredOutIndex,
    decisionFor naming state.filter.innodbRowCacheIndexR id = false
  calls : ∀ call ∈ state.calls,
    decisionFor naming state.filter.innodbRowCacheIndexR call.1 = call.2

end Follows

variable {naming : UInt64 → List Char × List Char} {state : FilterState}

theorem isCurrent_resetFilter (config : List Char) :
    IsCurrent naming ⟨resetFilter config, []⟩ := by
  constructor <;> simp [resetFilter]

variable {index : DictIndex}

/-- Assumes: the index has the names of its id. -/
theorem IsCurrent.lookUpIndex_eq (hcurrent : IsCurrent naming state)
    (hnamed : (index.tableName, index.name) = naming index.id) :
    (lookUpIndex state.filter index).1 = configured state.filter.innodbRowCacheIndexR index := by
  have hdecision : decisionFor naming state.filter.innodbRowCacheIndexR index.id =
      compareIndexConfig index.tableName index.name state.filter.innodbRowCacheIndexR := by
    rw [decisionFor, ← hnamed]
  unfold lookUpIndex configured
  rw [hcurrent.hasFilter, Bool.not_not]
  split_ifs with hempty hin hout
  · rw [hempty, Bool.true_or]
  · rw [← hdecision, hcurrent.filteredIn _ hin, Bool.or_true]
  · rw [← hdecision, hcurrent.filteredOut _ hout, Bool.or_false, eq_false_of_ne_true hempty]
  · rw [eq_false_of_ne_true hempty, Bool.false_or]

theorem IsCurrent.step (hcurrent : IsCurrent naming state) {event : FilterEvent}
    {successor : FilterState} (hnamed : StaysNamed naming state event)
    (hstep : state.step event = some successor) : IsCurrent naming successor := by
  cases event with
  | lookUp index =>
    cases hstep
    refine ⟨hcurrent.hasFilter, hcurrent.filteredIn, hcurrent.filteredOut, fun call hcall ↦ ?_⟩
    split_ifs at hcall with hhash
    · exact hcurrent.calls call hcall
    · rcases List.mem_cons.mp hcall with rfl | hcall
      · rw [decisionFor, ← show _ = naming index.id from hnamed]
        unfold lookUpIndex at hhash ⊢
        split_ifs at hhash ⊢ <;> first | rfl | exact absurd rfl hhash
      · exact hcurrent.calls call hcall
  | addResult call allocated =>
    simp only [FilterState.step] at hstep
    split_ifs at hstep with hcall
    cases hstep
    have hdecision := hcurrent.calls call hcall
    have hcalls : ∀ other ∈ state.calls.erase call, _ := fun other hother ↦
      hcurrent.calls other (List.mem_of_mem_erase hother)
    unfold addResultToIndexHash
    split_ifs with hallocated hin
    · exact ⟨hcurrent.hasFilter, hcurrent.filteredIn, hcurrent.filteredOut, hcalls⟩
    · exact ⟨hcurrent.hasFilter, List.forall_mem_cons.mpr ⟨hdecision.trans hin,
        hcurrent.filteredIn⟩, hcurrent.filteredOut, hcalls⟩
    · exact ⟨hcurrent.hasFilter, hcurrent.filteredIn, List.forall_mem_cons.mpr
        ⟨hdecision.trans (eq_false_of_ne_true hin), hcurrent.filteredOut⟩, hcalls⟩
  | reset config =>
    cases hstep
    rw [show state.calls = [] from hnamed]
    exact isCurrent_resetFilter config

/-- Every answer is the configured decision. Assumes: an id belongs to one table and name, and no
reset falls between the two sections of a call. -/
theorem filter_follows_configuration (naming : UInt64 → List Char × List Char) (config : List Char)
    {state : FilterState}
    (hreached : Reached FilterState.step (StaysNamed naming) ⟨resetFilter config, []⟩ state)
    (index : DictIndex) (hnamed : (index.tableName, index.name) = naming index.id) :
    (lookUpIndex state.filter index).1 = configured state.filter.innodbRowCacheIndexR index := by
  have hcurrent := hreached.invariant (IsCurrent naming) (isCurrent_resetFilter config)
    fun hbefore hmeets hstep ↦ hbefore.step hmeets hstep
  exact hcurrent.lookUpIndex_eq hnamed

/-- An index of a table that the first configuration leaves out. -/
def plainIndex : DictIndex := ⟨7, ['t'], ['k']⟩

theorem filter_follows_configuration_kept :
    (lookUpIndex ⟨['u', ':', '*'], true, [], [7]⟩ plainIndex).1 = false := by
  have hlook : Reached FilterState.step (StaysNamed fun _ ↦ (['t'], ['k']))
      ⟨resetFilter ['u', ':', '*'], []⟩ ⟨resetFilter ['u', ':', '*'], [(7, false)]⟩ :=
    .next (.lookUp plainIndex) .start rfl rfl
  have hadd : Reached FilterState.step (StaysNamed fun _ ↦ (['t'], ['k']))
      ⟨resetFilter ['u', ':', '*'], []⟩ ⟨⟨['u', ':', '*'], true, [], [7]⟩, []⟩ :=
    .next (.addResult (7, false) true) hlook trivial rfl
  exact (filter_follows_configuration _ _ hadd plainIndex rfl).trans (by decide +kernel)

/-- A decision of the first configuration is kept behind the reset and answers later calls. -/
theorem stale_decision_kept : ∃ state : FilterState,
    run FilterState.step ⟨resetFilter ['u', ':', '*'], []⟩ [.lookUp plainIndex,
      .reset ['*', ':', '*'], .addResult (7, false) true] = some state ∧
      (lookUpIndex state.filter plainIndex).1 = false ∧
      configured state.filter.innodbRowCacheIndexR plainIndex = true :=
  ⟨_, rfl, by decide +kernel, by decide +kernel⟩

end TdhSocket.RowCache
