import TdhSocket.Execute.Log
import TdhSocket.Execute.Opening

/-!
# The ends of statements

A statement is a piece of the log: row changes and one end (`IsStatement`). It is rolled back
exactly when an error was noted, and its changes are committed exactly when it was neither rolled
back nor failed to commit (`IsStatement.committed_eq_nil`, `IsStatement.committed_eq_changesOf`).
`tdhs_unlock_table` ends a statement that has a lock (`tdhsUnlockTable_ends`), and the two
rewriting loops behind a statement that was not committed leave no packet with a status of success
(`rewritePackets_silences`, `rewriteUntilError_silences`).
-/

set_option autoImplicit false

namespace TdhSocket.Execute

open Protocol Decode Library Library.Program

variable {Outside Record : Type} {world : World Outside Record} {rounds : ℕ} {bulk : Bool}

/-! ### Statements in the log -/

/-- A statement for some packets: nothing, or events of these packets and an end. It is rolled back
exactly when an error was noted. -/
def IsStatement (world : World Outside Record) (request : Option ℕ) (owners : Set Owner)
    (failed : Bool) (events : List (Event Record)) : Prop :=
  events = [] ∨ ∃ more ending, events = more ++ [.ended request ending] ∧
    (∀ event ∈ more, ∃ owner ∈ owners, event.By world owner) ∧
    (ending = .rolledBack ↔ failed = true)

/-- The storage engine undoes at most the failing row. -/
def UndoesOnlyTheRow (world : World Outside Record) : Prop := ∀ code, world.discards code = false

variable {event : Event Record} {owners : Set Owner} {more : List (Event Record)} {tables : List ℕ}
  {value : Unit} {middle : Context Outside Record}

/-- Where no error discards the transaction, the events of packets are row changes. -/
theorem Event.By.isSome_change? (hundoes : UndoesOnlyTheRow world) {owner : Owner}
    (hevent : event.By world owner) : event.change?.isSome := by
  cases event with
  | changed other call => rfl
  | discarded other =>
    obtain ⟨-, code, hdiscards⟩ := hevent
    rw [hundoes code] at hdiscards
    cases hdiscards
  | ended request ending => cases hevent

/-- The changes of an event are those of its packet. -/
theorem Event.By.owner_eq {owner : Owner} (hevent : event.By world owner) {change : Change Record}
    (hchange : event.change? = some change) : change.owner = owner := by
  cases event with
  | changed other call =>
    cases hchange
    exact hevent
  | discarded other => cases hchange
  | ended request ending => cases hchange

variable {request : Option ℕ} {start final : Context Outside Record} {ret : RetCode} {failed : Bool}
  {events : List (Event Record)}

theorem IsStatement.owner_mem (hstatement : IsStatement world request owners failed events)
    {change : Change Record} (hchange : change ∈ changesOf events) : change.owner ∈ owners := by
  rcases hstatement with rfl | ⟨more, ending, rfl, hby, -⟩
  · exact absurd hchange List.not_mem_nil
  · rw [changesOf_append, changesOf_ended, List.append_nil] at hchange
    obtain ⟨event, hevent, hsome⟩ := List.mem_filterMap.mp hchange
    obtain ⟨owner, howner, hevent⟩ := hby event hevent
    rw [hevent.owner_eq hsome]
    exact howner

/-- A statement leaves nothing pending. -/
theorem IsStatement.pending_eq_nil (hstatement : IsStatement world request owners failed events) :
    (replay events).pending = [] := by
  rcases hstatement with rfl | ⟨more, ending, rfl, -, -⟩
  · rfl
  · rw [replay_concat_ended]

/-- The statement was rolled back or failed to commit. -/
def IsDropped (request : Option ℕ) (failed : Bool) (events : List (Event Record)) : Prop :=
  failed = true ∨ .ended request .commitFailed ∈ events

theorem isDropped_concat_ended_iff {ending : Ending}
    (hby : ∀ event ∈ more, ∃ owner ∈ owners, event.By world owner)
    (hrolledBack : ending = .rolledBack ↔ failed = true) :
    IsDropped request failed (more ++ [.ended request ending]) ↔ ending ≠ .committed := by
  constructor
  · rintro (hfailed | hmem) rfl
    · cases hrolledBack.mpr hfailed
    · rcases List.mem_append.mp hmem with hmem | hmem
      · obtain ⟨_, -, hevent⟩ := hby _ hmem
        exact hevent
      · cases List.mem_singleton.mp hmem
  · intro hending
    cases ending with
    | committed => exact absurd rfl hending
    | commitFailed => exact Or.inr (List.mem_append_right _ (List.mem_singleton_self _))
    | rolledBack => exact Or.inl (hrolledBack.mp rfl)

/-- A statement that was dropped left nothing, whatever the storage engine discards. -/
theorem IsStatement.committed_eq_nil (hstatement : IsStatement world request owners failed events)
    (hdropped : IsDropped request failed events) : (replay events).committed = [] := by
  rcases hstatement with rfl | ⟨more, ending, rfl, hby, hrolledBack⟩
  · rfl
  · have hending := (isDropped_concat_ended_iff hby hrolledBack).mp hdropped
    rw [replay_concat_ended, if_neg hending, List.append_nil]
    exact committed_eq_nil_of_no_end fun event hevent hended ↦ by
      obtain ⟨_, -, hevent⟩ := hby event hevent
      cases event with
      | changed owner call => cases hended
      | discarded owner => cases hended
      | ended request ending => exact hevent

/-- Any other statement is committed as a whole. Assumes: the storage engine undoes at most the
failing row. -/
theorem IsStatement.committed_eq_changesOf (hundoes : UndoesOnlyTheRow world)
    (hstatement : IsStatement world request owners failed events)
    (hdropped : ¬IsDropped request failed events) :
    (replay events).committed = changesOf events := by
  rcases hstatement with rfl | ⟨more, ending, rfl, hby, hrolledBack⟩
  · rfl
  · have hchanges : ∀ event ∈ more, (Event.change? event).isSome := by
      intro event hevent
      obtain ⟨owner, -, hevent⟩ := hby event hevent
      exact hevent.isSome_change? hundoes
    have hending : ending = .committed := by
      by_contra hnot
      exact hdropped ((isDropped_concat_ended_iff hby hrolledBack).mpr hnot)
    rw [replay_concat_ended, replay, foldl_apply_of_only_changes hchanges, changesOf_append,
      changesOf_ended, List.append_nil, List.nil_append, if_pos hending]
    exact List.nil_append _

/-! ### Beginning and ending a statement -/

/-- What asking for the table lock does to the context, apart from the lock. -/
structure Locks (start final : Context Outside Record) : Prop where
  writeError : final.writeError = start.writeError
  inBatch : final.inBatch = start.inBatch
  retcode : final.retcode = start.retcode
  response : final.response = start.response
  events : final.events = start.events
  started : final.started = start.started
  outcomes : final.outcomes = start.outcomes

theorem lockTable_locks (hreturns : lockTable world true tables start = some (value, final)) :
    Locks start final := by
  cases hreturns
  exact ⟨rfl, rfl, rfl, rfl, rfl, rfl, rfl⟩

/-- Assumes: no group commit, and not inside a batch. -/
theorem lockTables_locks (hinBatch : start.inBatch = false)
    (hreturns : lockTables world false tables start = some (value, final)) :
    Locks start final := by
  obtain ⟨inBatch, _, hread, hreturns⟩ := bind_eq_some.mp hreturns
  cases hread
  rw [hinBatch] at hreturns
  cases hreturns
  exact ⟨rfl, rfl, rfl, rfl, rfl, rfl, rfl⟩

/-- What the end of a statement does to the context. -/
structure Ends (request : Option ℕ) (ret : RetCode) (start final : Context Outside Record) :
    Prop where
  lock : final.lock = false
  inBatch : final.inBatch = start.inBatch
  retcode : final.retcode = start.retcode
  response : final.response = start.response
  started : final.started = start.started
  outcomes : final.outcomes = start.outcomes
  events : (start.lock = false ∧ ret = .ok ∧ final.events = start.events) ∨
    (start.lock = true ∧ ∃ ending, final.events = start.events ++ [.ended request ending] ∧
      (ret = .ok ↔ ending = .committed) ∧ (ending = .rolledBack ↔ start.writeError = true))

theorem tdhsUnlockTable_ends
    (hreturns : tdhsUnlockTable world request start = some (ret, final)) :
    Ends request ret start final := by
  obtain ⟨lock, _, hlock, hreturns⟩ := bind_eq_some.mp hreturns
  cases hlock
  cases hlocked : start.lock with
  | false =>
    rw [hlocked] at hreturns
    cases hreturns
    exact ⟨hlocked, rfl, rfl, rfl, rfl, rfl, Or.inl ⟨hlocked, rfl, rfl⟩⟩
  | true =>
    rw [hlocked] at hreturns
    obtain ⟨writeError, _, hwriteError, hreturns⟩ := bind_eq_some.mp hreturns
    cases hwriteError
    obtain ⟨_, _, hmodify, hreturns⟩ := bind_eq_some.mp hreturns
    cases hmodify
    cases hnoted : start.writeError with
    | true =>
      rw [hnoted] at hreturns
      cases hreturns
      exact ⟨rfl, rfl, rfl, rfl, rfl, rfl,
        Or.inr ⟨hlocked, .rolledBack, rfl, by simp, by simp [hnoted]⟩⟩
    | false =>
      rw [hnoted] at hreturns
      obtain ⟨committed, _, hcommit, hreturns⟩ := bind_eq_some.mp hreturns
      cases hcommit
      split_ifs at hreturns
      · cases hreturns
        exact ⟨rfl, rfl, rfl, rfl, rfl, rfl,
          Or.inr ⟨hlocked, .committed, rfl, by simp, by simp [hnoted]⟩⟩
      · cases hreturns
        exact ⟨rfl, rfl, rfl, rfl, rfl, rfl,
          Or.inr ⟨hlocked, .commitFailed, rfl, by simp, by simp [hnoted]⟩⟩

/-- The work behind a lock and the end are a statement, which was dropped exactly when its end
returned an error. Assumes: an error is noted exactly when the work failed, and without the lock
nothing was done. -/
theorem Ends.isStatement (hends : Ends request ret middle final) {before : List (Event Record)}
    (hmore : middle.events = before ++ more)
    (hby : ∀ event ∈ more, ∃ owner ∈ owners, event.By world owner)
    (hnoted : middle.writeError = failed) (hunlocked : middle.lock = false → more = []) :
    ∃ segment, final.events = before ++ segment ∧
      IsStatement world request owners failed segment ∧
      ((middle.lock = false ∧ ret = .ok) ∨
        (middle.lock = true ∧ (IsDropped request failed segment ↔ ret ≠ .ok))) := by
  rcases hends.events with ⟨hlock, hret, hevents⟩ | ⟨hlock, ending, hevents, hret, hrolledBack⟩
  · refine ⟨[], ?_, Or.inl rfl, Or.inl ⟨hlock, hret⟩⟩
    rw [hevents, hmore, hunlocked hlock]
  · rw [hnoted] at hrolledBack
    refine ⟨more ++ [.ended request ending], ?_, Or.inr ⟨more, ending, rfl, hby, hrolledBack⟩,
      Or.inr ⟨hlock, ?_⟩⟩
    · rw [hevents, hmore, List.append_assoc]
    · rw [isDropped_concat_ended_iff hby hrolledBack, Ne, Ne, hret]

/-- A packet behind a batch failed. -/
def batchFailed (outs : List Outcome) : Bool := outs.any Outcome.failedInBatch

/-- A piece of work and the end of its statement. Assumes: no error was noted before. -/
theorem Shares.isStatement {outs : List Outcome} (hshares : Shares world owners outs start middle)
    (hwriteError : start.writeError = false)
    (hends : Ends request ret middle final) :
    ∃ segment, final.events = start.events ++ segment ∧
      IsStatement world request owners (batchFailed outs) segment ∧
      ((start.lock = false ∧ ret = .ok) ∨
        (IsDropped request (batchFailed outs) segment ↔ ret ≠ .ok)) := by
  obtain ⟨more, hmore, hby⟩ := hshares.events
  have hnoted : middle.writeError = batchFailed outs := by
    rw [hshares.writeError, hwriteError, Bool.false_or]
    rfl
  have hunlocked : middle.lock = false → more = [] := by
    intro hlock
    have hsame := (hshares.unlocked (hshares.lock.symm.trans hlock)).1
    rw [hmore] at hsame
    exact List.append_right_eq_self.mp hsame
  obtain ⟨segment, hsegment, hstatement, hcases⟩ :=
    hends.isStatement hmore hby hnoted hunlocked
  refine ⟨segment, hsegment, hstatement, ?_⟩
  rcases hcases with ⟨hlock, hret⟩ | ⟨-, hdropped⟩
  · exact Or.inl ⟨hshares.lock.symm.trans hlock, hret⟩
  · exact Or.inr hdropped

/-! ### Rewriting responses -/

/-- An error response executes nothing. -/
theorem tdhsResponseError_idle {owner : Owner} {status code : ℕ} (hstatus : IsErrorStatus status)
    (hreturns : tdhsResponseError world owner status code start = some (ret, final)) :
    Idle start final ∧ isSuccess (final.response owner).code = false := by
  have hshares := shares_of_tdhsResponseError hstatus hreturns
  have hworks := keeps_tdhsResponseError world owner status code start start ret final
    (Works.refl world owner start) hreturns
  obtain ⟨hevents, hcode⟩ := tdhsResponseError_answers hreturns
  refine ⟨⟨hworks.lock, hworks.writeError, hworks.inBatch, hworks.retcode, hevents,
    hworks.started, hworks.outcomes, fun other hother ↦ ?_⟩, ?_⟩
  · rcases hshares.success other hother with hstart | ⟨_, hout, -⟩
    · exact hstart
    · exact absurd hout List.not_mem_nil
  · rw [hcode]
    exact isSuccess_of_isErrorStatus hstatus

/-- The rewriting loop of the write loop leaves no success on the packets of a request. -/
theorem rewritePackets_silences {owners : List Owner} {retcode : RetCode}
    (hreturns : rewritePackets world retcode owners start = some (ret, final)) :
    Idle start final ∧ ∀ owner ∈ owners, isSuccess (final.response owner).code = false := by
  induction owners generalizing retcode start with
  | nil =>
    cases hreturns
    exact ⟨Idle.refl _, List.forall_mem_nil _⟩
  | cons owner owners ih =>
    obtain ⟨response, _, hread, hreturns⟩ := bind_eq_some.mp hreturns
    cases hread
    split_ifs at hreturns with hsuccess
    · obtain ⟨errorRet, middle, herror, hreturns⟩ := bind_eq_some.mp hreturns
      obtain ⟨hidle, hfresh⟩ := tdhsResponseError_idle (by decide : 400 ≤ 500) herror
      obtain ⟨hrest, hothers⟩ := ih hreturns
      exact ⟨hidle.trans hrest, List.forall_mem_cons.mpr ⟨hrest.fresh hfresh, hothers⟩⟩
    · obtain ⟨hrest, hothers⟩ := ih hreturns
      have hfresh := Bool.eq_false_of_not_eq_true hsuccess
      exact ⟨hrest, List.forall_mem_cons.mpr ⟨hrest.fresh hfresh, hothers⟩⟩

/-- The rewriting loop of `do_batch_with_lock` leaves no success, unless it returns an error. -/
theorem rewriteUntilError_silences {owners : List Owner}
    (hreturns : rewriteUntilError world owners start = some (ret, final)) :
    Idle start final ∧
      (ret = .ok → ∀ owner ∈ owners, isSuccess (final.response owner).code = false) := by
  induction owners generalizing start with
  | nil =>
    cases hreturns
    exact ⟨Idle.refl _, fun _ ↦ List.forall_mem_nil _⟩
  | cons owner owners ih =>
    obtain ⟨response, _, hread, hreturns⟩ := bind_eq_some.mp hreturns
    cases hread
    split_ifs at hreturns with hsuccess
    · obtain ⟨errorRet, middle, herror, hreturns⟩ := bind_eq_some.mp hreturns
      obtain ⟨hidle, hfresh⟩ := tdhsResponseError_idle (by decide : 400 ≤ 500) herror
      split_ifs at hreturns with hret
      · cases hreturns
        exact ⟨hidle, fun hok ↦ by cases hok⟩
      · obtain ⟨hrest, hothers⟩ := ih hreturns
        exact ⟨hidle.trans hrest,
          fun hok ↦ List.forall_mem_cons.mpr ⟨hrest.fresh hfresh, hothers hok⟩⟩
    · obtain ⟨hrest, hothers⟩ := ih hreturns
      have hfresh := Bool.eq_false_of_not_eq_true hsuccess
      exact ⟨hrest, fun hok ↦ List.forall_mem_cons.mpr ⟨hrest.fresh hfresh, hothers hok⟩⟩

/-- The answers behind a failed commit: those that are handed over without an error have no packet
with a status of success. -/
theorem each_rewriteDone_silences {dones rewritten : List Done}
    (hreturns : Program.each (rewriteDone world) dones start = some (rewritten, final)) :
    Idle start final ∧ ∀ done ∈ rewritten, done.retcode = .ok →
      ∀ owner ∈ done.packets, isSuccess (final.response owner).code = false := by
  induction dones generalizing start rewritten with
  | nil =>
    cases hreturns
    exact ⟨Idle.refl _, List.forall_mem_nil _⟩
  | cons done dones ih =>
    obtain ⟨first, middle, hfirst, hreturns⟩ := bind_eq_some.mp hreturns
    obtain ⟨others, _, hothers, hreturns⟩ := bind_eq_some.mp hreturns
    cases hreturns
    obtain ⟨hrest, hsilent⟩ := ih hothers
    unfold rewriteDone at hfirst
    split_ifs at hfirst with hok
    · obtain ⟨retcode, _, hrewrite, hfirst⟩ := bind_eq_some.mp hfirst
      cases hfirst
      obtain ⟨hidle, hfresh⟩ := rewritePackets_silences hrewrite
      refine ⟨hidle.trans hrest, List.forall_mem_cons.mpr ⟨fun _ owner howner ↦ ?_, hsilent⟩⟩
      exact hrest.fresh (hfresh owner howner)
    · cases hfirst
      exact ⟨hrest, List.forall_mem_cons.mpr ⟨fun hret ↦ absurd hret hok, hsilent⟩⟩

end TdhSocket.Execute
