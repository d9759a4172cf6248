import TdhSocket.Library.Runs

/-!
# The row cache during a rollback

Readers put the record they see into the row cache while they hold the latch of its page. Before a
rollback changes a record of a unique secondary index, a hook removes the record from the cache; the
latch is taken later, by `row_undo_*`. `undone_record_not_cached`: where no reader puts the record
in between, and the hook looks into the cell that holds it, nothing that the rollback took from the
index can be read from the cache behind it. `undone_record_cached` has a run for each of the two
cases.
-/

set_option autoImplicit false

namespace TdhSocket.RowCache

open Library

/-- A `row_cache_value_t`: the copy of a record, `FLAG_VALUE_IS_REMOVED` and `ref_num`. -/
structure RowCacheValue (Version : Type) where
  record : Version
  isRemoved : Bool
  refNum : ℕ

section Functions

variable {Version : Type} (value : Option (RowCacheValue Version))

/-- `put_rec_to_row_cache` for the record on a page, none if it is delete-marked or not there.
`value` is what `search_row_cache_value` finds, `needed` whether the index is to be cached. -/
def putRecToRowCache (needed allocated : Bool) :
    Option Version → Option (RowCacheValue Version)
  | none => value
  | some record =>
    if needed ∧ value.all fun old ↦ old.isRemoved ∧ old.refNum = 0 then
      if allocated then some ⟨record, false, 0⟩ else none
    else value

/-- `get_from_row_cache_low`; `queued` is whether the value could be added to the mtr. -/
def getFromRowCacheLow (queued : Bool) : Option (RowCacheValue Version) :=
  value.bind fun found ↦
    if found.isRemoved then if found.refNum = 0 then none else some found
    else if queued then some { found with refNum := found.refNum + 1 } else some found

/-- `remove_from_row_cache_low`. -/
def removeFromRowCacheLow : Option (RowCacheValue Version) :=
  value.bind fun found ↦ if found.refNum = 0 then none else some { found with isRemoved := true }

/-- The version that a reader would get. -/
def readable : Option Version :=
  value.bind fun found ↦ if found.isRemoved then none else some found.record

end Functions

/-- The entry that a rollback builds for a record of a unique index: the columns of the key and
behind them those of the primary key; and the cell of the hash table by the columns folded. -/
structure UndoneEntry (Field : Type) where
  fields : List Field
  nUnique : ℕ
  cell : List Field → ℕ

/-- The hook folds all columns of the entry, `put_rec_to_row_cache` those of the key. -/
def UndoneEntry.IsFound {Field : Type} (entry : UndoneEntry Field) : Prop :=
  entry.cell entry.fields = entry.cell (entry.fields.take entry.nUnique)

instance {Field : Type} (entry : UndoneEntry Field) : Decidable entry.IsFound :=
  inferInstanceAs (Decidable (_ = _))

/-- How far the rollback of the record is. -/
inductive UndoPhase
  | pending
  | hooked
  | latched
  | finished
  deriving DecidableEq

/-- A record: what is in the index and not delete-marked, what is in the row cache, and the readers
with the latch of its page. -/
structure RecordState (Version : Type) where
  inIndex : Option Version
  value : Option (RowCacheValue Version)
  readers : ℕ
  undo : UndoPhase

/-- What readers, the LRU list and the rollback do. -/
inductive RecordEvent (Version : Type)
  | latch
  | unlatch
  | put (needed allocated : Bool)
  | get (queued : Bool)
  | release
  | evict
  | hook
  | undoLatch
  | undoChange (inIndex : Option Version)
  | undoUnlatch (done : Bool)

variable {Field Version : Type}

/-- One event. An attempt of `row_undo_*` that has to be repeated gives the latch back first. -/
def RecordState.step (entry : UndoneEntry Field) (state : RecordState Version) :
    RecordEvent Version → Option (RecordState Version)
  | .latch =>
    if state.undo = .latched then none else some { state with readers := state.readers + 1 }
  | .unlatch => if state.readers = 0 then none else some { state with readers := state.readers - 1 }
  | .put needed allocated =>
    if state.readers = 0 then none
    else some { state with value := putRecToRowCache state.value needed allocated state.inIndex }
  | .get queued => some { state with value := getFromRowCacheLow state.value queued }
  | .release =>
    if state.value.all fun found ↦ found.refNum = 0 then none else some
      { state with value := state.value.map fun found ↦ { found with refNum := found.refNum - 1 } }
  | .evict => some { state with value := state.value.filter fun found ↦ found.refNum ≠ 0 }
  | .hook =>
    if state.undo = .pending then some
      { state with
        value := if entry.IsFound then removeFromRowCacheLow state.value else state.value
        undo := .hooked }
    else none
  | .undoLatch =>
    if state.undo = .hooked ∧ state.readers = 0 then some { state with undo := .latched } else none
  | .undoChange inIndex => if state.undo = .latched then some { state with inIndex } else none
  | .undoUnlatch done =>
    if state.undo = .latched then some { state with undo := if done then .finished else .hooked }
    else none

/-- No reader puts the record between the hook and the latch, and the hook finds its cell. -/
def UndoesSafely (entry : UndoneEntry Field) (state : RecordState Version) :
    RecordEvent Version → Prop
  | .put _ _ => state.undo ≠ .hooked
  | .hook => entry.IsFound
  | _ => True

/-- Behind the hook, what can be read is in the index, and nothing can be before the end. -/
structure IsCoherent (state : RecordState Version) : Prop where
  fresh : state.undo ≠ .pending →
    ∀ version, readable state.value = some version → state.inIndex = some version
  removed : state.undo = .hooked ∨ state.undo = .latched → readable state.value = none
  alone : state.undo = .latched → state.readers = 0

variable {value : Option (RowCacheValue Version)} {state successor : RecordState Version}
  {version : Version}

theorem readable_put {needed allocated : Bool} {inIndex : Option Version}
    (hput : readable (putRecToRowCache value needed allocated inIndex) = some version) :
    readable value = some version ∨ inIndex = some version := by
  unfold putRecToRowCache at hput
  cases inIndex with
  | none => exact Or.inl hput
  | some record =>
    split_ifs at hput
    · exact Or.inr hput
    · cases hput
    · exact Or.inl hput

theorem readable_get {queued : Bool}
    (hget : readable (getFromRowCacheLow value queued) = some version) :
    readable value = some version := by
  cases value with
  | none => cases hget
  | some found =>
    by_cases hremoved : found.isRemoved = true
    · by_cases hfree : found.refNum = 0 <;>
        simp [readable, getFromRowCacheLow, hremoved, hfree] at hget
    · cases queued <;> simpa [readable, getFromRowCacheLow, hremoved] using hget

theorem readable_remove : readable (removeFromRowCacheLow value) = none := by
  cases value with
  | none => rfl
  | some found =>
    by_cases hfree : found.refNum = 0 <;> simp [readable, removeFromRowCacheLow, hfree]

/-- What makes no other version readable. -/
theorem IsCoherent.of_value (hcoherent : IsCoherent state)
    (hvalue : ∀ version, readable value = some version → readable state.value = some version) :
    IsCoherent { state with value := value } := by
  refine ⟨fun hundo version hread ↦ hcoherent.fresh hundo version (hvalue version hread),
    fun hundo ↦ ?_, hcoherent.alone⟩
  rw [Option.eq_none_iff_forall_ne_some]
  intro version hread
  rw [hcoherent.removed hundo] at hvalue
  cases hvalue version hread

theorem IsCoherent.step {entry : UndoneEntry Field} {event : RecordEvent Version}
    (hcoherent : IsCoherent state) (hsafe : UndoesSafely entry state event)
    (hstep : state.step entry event = some successor) : IsCoherent successor := by
  have ⟨hfresh, hremoved, halone⟩ := hcoherent
  cases event with
  | latch =>
    obtain ⟨hfree, ⟨⟩⟩ := Option.ite_none_left_eq_some.mp hstep
    exact ⟨hfresh, hremoved, fun hundo ↦ absurd hundo hfree⟩
  | unlatch =>
    obtain ⟨hreads, ⟨⟩⟩ := Option.ite_none_left_eq_some.mp hstep
    exact ⟨hfresh, hremoved, fun hundo ↦ absurd (halone hundo) hreads⟩
  | put needed allocated =>
    obtain ⟨hreads, ⟨⟩⟩ := Option.ite_none_left_eq_some.mp hstep
    refine ⟨fun hundo version hread ↦ (readable_put hread).elim (hfresh hundo version) id,
      fun hundo ↦ ?_, halone⟩
    exact absurd (halone (hundo.resolve_left hsafe)) hreads
  | get queued =>
    cases hstep
    exact hcoherent.of_value fun _ ↦ readable_get
  | release =>
    obtain ⟨-, ⟨⟩⟩ := Option.ite_none_left_eq_some.mp hstep
    refine hcoherent.of_value fun _ hread ↦ ?_
    cases hvalue : state.value with
    | none => rw [hvalue] at hread; cases hread
    | some found => rwa [hvalue] at hread
  | evict =>
    cases hstep
    refine hcoherent.of_value fun _ hread ↦ ?_
    obtain ⟨found, hfound, hread⟩ := Option.bind_eq_some_iff.mp hread
    exact Option.bind_eq_some_iff.mpr ⟨found, (Option.filter_eq_some_iff.mp hfound).1, hread⟩
  | hook =>
    obtain ⟨-, ⟨⟩⟩ := Option.ite_none_right_eq_some.mp hstep
    have hfound : entry.IsFound := hsafe
    have hnone : readable (if entry.IsFound then removeFromRowCacheLow state.value
        else state.value) = none := by
      rw [if_pos hfound, readable_remove]
    refine ⟨fun _ version hread ↦ ?_, fun _ ↦ hnone, fun hundo ↦ by cases hundo⟩
    cases hnone.symm.trans hread
  | undoLatch =>
    obtain ⟨⟨hhooked, hreaders⟩, ⟨⟩⟩ := Option.ite_none_right_eq_some.mp hstep
    exact ⟨fun _ ↦ hfresh (by rw [hhooked]; decide), fun _ ↦ hremoved (Or.inl hhooked),
      fun _ ↦ hreaders⟩
  | undoChange inIndex =>
    obtain ⟨hlatched, ⟨⟩⟩ := Option.ite_none_right_eq_some.mp hstep
    refine ⟨fun _ version hread ↦ ?_, hremoved, halone⟩
    cases (hremoved (Or.inr hlatched)).symm.trans hread
  | undoUnlatch done =>
    obtain ⟨hlatched, ⟨⟩⟩ := Option.ite_none_right_eq_some.mp hstep
    refine ⟨fun _ ↦ hfresh (by rw [hlatched]; decide), fun _ ↦ hremoved (Or.inr hlatched), ?_⟩
    cases done <;> exact fun hundo ↦ by cases hundo

/-- Behind the rollback, every version that can be read from the row cache is in the index. Assumes:
no reader puts the record between the hook and the latch, and the hook finds its cell. -/
theorem undone_record_not_cached (entry : UndoneEntry Field) {initial : RecordState Version}
    (hpending : initial.undo = .pending)
    (hreached : Reached (RecordState.step entry) (UndoesSafely entry) initial state)
    (hfinished : state.undo = .finished) (hread : readable state.value = some version) :
    state.inIndex = some version := by
  have hstart : IsCoherent initial := by
    refine ⟨fun hundo ↦ absurd hpending hundo, fun hundo ↦ ?_, fun hundo ↦ ?_⟩
    · rcases hundo with hundo | hundo <;> cases hpending.symm.trans hundo
    · cases hpending.symm.trans hundo
  have hcoherent := hreached.invariant IsCoherent hstart IsCoherent.step
  exact hcoherent.fresh (by rw [hfinished]; decide) version hread

/-- The key is 5, and the hash table has three cells. -/
def undoneEntry (primaryKey : ℕ) : UndoneEntry ℕ :=
  ⟨[5, primaryKey], 1, (List.foldr Nat.add 0 · % 3)⟩

/-- An update is undone, and a reader puts the old version behind it. -/
theorem undone_record_not_cached_put : ∃ state : RecordState ℕ,
    Reached (RecordState.step (undoneEntry 3)) (UndoesSafely (undoneEntry 3))
      ⟨some 1, some ⟨1, false, 0⟩, 0, .pending⟩ state ∧
    state.undo = .finished ∧ readable state.value = some 0 ∧ state.inIndex = some 0 := by
  have hreached : Reached (RecordState.step (undoneEntry 3)) (UndoesSafely (undoneEntry 3))
      ⟨some 1, some ⟨1, false, 0⟩, 0, .pending⟩ ⟨some 0, some ⟨0, false, 0⟩, 1, .finished⟩ :=
    .next (.put true true) (.next .latch (.next (.undoUnlatch true) (.next (.undoChange (some 0))
      (.next .undoLatch (.next .hook .start rfl rfl) trivial rfl) trivial rfl) trivial rfl) trivial
        rfl) UndoPhase.noConfusion rfl
  exact ⟨_, hreached, rfl, rfl, undone_record_not_cached (undoneEntry 3) rfl hreached rfl rfl⟩

/-- Two undone inserts that stay in the cache: a reader puts the record behind the hook, and the
hook looks into the cell of all columns. -/
theorem undone_record_cached :
    (run (RecordState.step (undoneEntry 3)) ⟨some 1, none, 0, .pending⟩
      [.hook, .latch, .put true true, .unlatch, .undoLatch, .undoChange none,
        .undoUnlatch true]).map (fun state ↦ (state.undo, readable state.value, state.inIndex)) =
      some (.finished, some 1, none) ∧
    (run (RecordState.step (undoneEntry 1)) ⟨some 1, none, 0, .pending⟩
      [.latch, .put true true, .unlatch, .hook, .undoLatch, .undoChange none,
        .undoUnlatch true]).map (fun state ↦ (state.undo, readable state.value, state.inIndex)) =
      some (.finished, some 1, none) :=
  ⟨rfl, rfl⟩

end TdhSocket.RowCache
