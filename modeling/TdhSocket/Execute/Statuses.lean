import TdhSocket.Execute.Shared
import TdhSocket.Execute.Steps

/-!
# The status of an answer

When response buffers can be had, and what is handed to `write_data_to_response` is written, every
exit of `execute` returns `EASY_OK` and leaves a final status in its packet: 200 or an error. The
status is set to 200 before the first row is read, kept by the row handlers, and replaced by every
error path behind, by the destructor of the table locker and by the loops that report a failed
commit. `concludes_dispatch` says so for GET, COUNT, UPDATE, DELETE and INSERT; for a batch of plain
writes the first packet has the status 207 and every packet behind it a final one
(`executeWith_batch_concludes`).

`Poised` is what holds between two calls on the way, for a property of the outside that lasts
(`Lasting`).
-/

set_option autoImplicit false

namespace TdhSocket.Execute

open Protocol Decode Library Library.Program

variable {Outside Record Value : Type} {world : World Outside Record} {rounds : ℕ} {bulk : Bool}

/-! ### Programs that answer -/

/-- Memory and response buffers can be had. -/
structure Allocates (world : World Outside Record) : Prop where
  malloc : ∀ size outside, (world.malloc size outside).1 = true
  easyBufCreate : ∀ size outside, (world.easyBufCreate size outside).1 = true

/-- A program that returns `EASY_OK`. -/
def Answers (program : Execution Outside Record RetCode) : Prop := Returns (· = .ok) program

theorem answers_tdhsResponseError (hallocates : Allocates world) (owner : Owner)
    (status code : ℕ) : Answers (tdhsResponseError world owner status code) := by
  intro start ret final hreturns
  obtain ⟨_, opened, -, hreturns⟩ := bind_eq_some.mp hreturns
  obtain ⟨created, middle, hcreated, hreturns⟩ := bind_eq_some.mp hreturns
  cases hcreated
  rw [hallocates.easyBufCreate, if_pos rfl] at hreturns
  cases hreturns
  rfl

theorem returns_stackLiker (hallocates : Allocates world) (size : ℕ) :
    Returns (· = true) (stackLiker world size) := by
  refine returns_ite (returns_pure rfl) fun start memory final hreturns ↦ ?_
  cases hreturns
  exact hallocates.malloc _ _

/-- Row handlers whose process handler never returns an error. -/
def ProcessesOk (handlers : FindHandlers Outside Record) : Prop :=
  ∀ table fields record, Returns (fun processed ↦ processed.ret = .ok)
    (handlers.process table fields record)

theorem processesOk_deleteHandlers (owner : Owner) :
    ProcessesOk (deleteHandlers world owner) := fun _ _ _ ↦
  returns_bind (returns_any _) fun _ _ ↦
    returns_ite (returns_bind (returns_any _) fun _ _ ↦ returns_pure rfl) (returns_pure rfl)

theorem processesOk_updateHandlers (owner : Owner) (values : TdhsRequestValues) :
    ProcessesOk (updateHandlers world owner values) := by
  intro table fields record
  have hstore : ∀ new, Returns (fun processed ↦ processed.ret = .ok)
      (storeRecord world owner table record new) := fun new ↦
    returns_bind (returns_any _) fun _ _ ↦
      returns_ite (returns_bind (returns_any _) fun _ _ ↦ returns_pure rfl)
        (returns_ite (returns_bind (returns_any _) fun _ _ ↦ returns_pure rfl)
          (returns_pure rfl))
  refine returns_bind (returns_any _) fun updated _ ↦ ?_
  cases updated with
  | none => exact returns_pure rfl
  | some new => exact hstore new

/-- The loop of `do_find` is not left by its process handler. -/
def IsOwnExit (exit : FindExit) : Prop := ∀ ret, exit ≠ .processed ret

/-! ### Between two calls -/

/-- A status of a final frame: 200 or an error. -/
def IsFinalStatus (code : ℕ) : Prop := code = clientStatusOk ∨ IsErrorStatus code

/-- The outside is sound, no other return value was noted for `execute`, and the status of the
packet has a property. -/
structure Poised (Sound : Outside → Prop) (owner : Owner) (status : ℕ → Prop)
    (context : Context Outside Record) : Prop where
  outside : Sound context.outside
  retcode : context.retcode = .ok
  code : status (context.response owner).code

variable {status : ℕ → Prop} {rights : Rights} {program : Execution Outside Record Value}

theorem Poised.mono {Sound : Outside → Prop} {owner : Owner} {weaker : ℕ → Prop}
    {context : Context Outside Record} (hpoised : Poised Sound owner status context)
    (hweaker : ∀ code, status code → weaker code) : Poised Sound owner weaker context :=
  ⟨hpoised.outside, hpoised.retcode, hweaker _ hpoised.code⟩

/-- The end of an execution: `EASY_OK` and a final status. -/
def Concluded (Sound : Outside → Prop) (owner : Owner) (ret : RetCode)
    (context : Context Outside Record) : Prop :=
  ret = .ok ∧ Poised Sound owner IsFinalStatus context

/-- What is handed to `write_data_to_response` is written. -/
def Writes (world : World Outside Record) (streams : Bool) (Sound : Outside → Prop) : Prop :=
  streams = true → ∀ data outside, Sound outside → (world.writeData data outside).1 = true

/-- Moves without the right to set the status keep it. -/
theorem Moves.code_eq {owner : Owner} {start final : Context Outside Record}
    (hmoves : Moves world owner rights start final) (hrecodes : rights.recodes = false) :
    (final.response owner).code = (start.response owner).code := by
  induction hmoves with
  | refl => rfl
  | tail _ hmove ih =>
    cases hmove with
    | called _ => exact ih
    | logged _ => exact ih
    | responded hcode =>
      rw [← ih]
      exact (congrArg Response.code (Function.update_self _ _ _)).trans (hcode hrecodes _)
    | counted _ _ => exact ih

/-- The status is 200 before the first row is read. -/
theorem poised_tdhsInitResponse (Sound : Outside → Prop) (owner : Owner) :
    Triple (Poised Sound owner fun _ ↦ True)
      (tdhsInitResponse owner : Execution Outside Record Unit)
      fun _ ↦ Poised Sound owner (· = clientStatusOk) := by
  refine triple_modify fun context hpoised ↦ ⟨hpoised.outside, hpoised.retcode, ?_⟩
  simp only [Function.update_self]

section Poised

variable {streams : Bool} {Sound : Outside → Prop} (hlasting : Lasting world streams Sound)
  {owner : Owner}

include hlasting

/-- Assumes: the program does not set the status. -/
theorem poised_of_moves (hle : rights.Le (fullRights streams)) (hrecodes : rights.recodes = false)
    (hmoves : Along (Moves world owner rights) program) (status : ℕ → Prop) :
    Triple (Poised Sound owner status) program fun _ ↦ Poised Sound owner status := by
  intro start value final hpoised hreturns
  have hmoved := hmoves start value final hreturns
  have hsteps : Steps world (· = owner) streams start final := (hmoved.mono hle).steps rfl
  refine ⟨hsteps.sound hlasting hpoised.outside, ?_, ?_⟩
  · rw [hmoved.works.retcode]
    exact hpoised.retcode
  · rw [hmoved.code_eq hrecodes]
    exact hpoised.code

theorem poised_of_row (hmoves : Along (Moves world owner (rowRights streams)) program) :
    Triple (Poised Sound owner status) program fun _ ↦ Poised Sound owner status :=
  poised_of_moves hlasting (rowRights_le_fullRights streams) rfl hmoves status

/-- Assumes: the program belongs to no packet. -/
theorem poised_of_statement (hsteps : Along (Steps world (fun _ ↦ False) streams) program)
    (status : ℕ → Prop) :
    Triple (Poised Sound owner status) program fun _ ↦ Poised Sound owner status := by
  intro start value final hpoised hreturns
  have hstepped := hsteps start value final hreturns
  refine ⟨hstepped.sound hlasting hpoised.outside, ?_, ?_⟩
  · rw [hstepped.retcode_eq fun _ ↦ not_false]
    exact hpoised.retcode
  · rw [hstepped.response_eq not_false]
    exact hpoised.code

/-- An error is a final answer. -/
theorem concludes_error (hallocates : Allocates world) {number : ℕ} (hnumber : 400 ≤ number)
    (code : ℕ) :
    Triple (Poised Sound owner status) (tdhsResponseError world owner number code)
      (Concluded Sound owner) := by
  intro start ret final hpoised hreturns
  have hmoved := carries_tdhsResponseError (carries_along world owner (fullRights streams)) number
    code 0 start ret final hreturns
  have hsteps : Steps world (· = owner) streams start final := hmoved.steps rfl
  refine ⟨answers_tdhsResponseError hallocates owner number code start ret final hreturns,
    hsteps.sound hlasting hpoised.outside, ?_, .inr ?_⟩
  · rw [hmoved.works.retcode]
    exact hpoised.retcode
  · rw [(tdhsResponseError_answers hreturns).2]
    exact hnumber

/-! ### do_find -/

variable {handlers : FindHandlers Outside Record}

theorem RowHandlers.processes
    (hhandlers : RowHandlers world owner streams handlers) (hwrites : Writes world streams Sound)
    (table : Table Record) (fields : List (Field Record)) (record : Record) :
    Triple (fun context ↦ Sound context.outside) (handlers.process table fields record)
      fun processed _ ↦ processed.ret = .ok := by
  cases hhandlers with
  | get hstreams =>
    subst hstreams
    have hfields : ∀ fields, Triple (fun context : Context Outside Record ↦ Sound context.outside)
        (responseFields world owner record fields) fun ret _ ↦ ret = .ok := by
      intro fields
      induction fields with
      | nil => exact triple_pure fun _ _ ↦ rfl
      | cons field fields ih =>
        refine triple_bind (fun written context ↦ written = true ∧ Sound context.outside) ?_
          fun written ↦ triple_and fun hwritten ↦ ?_
        · intro start written final hsound hreturns
          cases hreturns
          exact ⟨hwrites rfl _ _ hsound, hlasting.called (.writeData rfl _ _) hsound⟩
        · rw [if_pos hwritten]
          exact triple_bind _ (triple_modify fun _ hsound ↦ hsound) fun _ ↦ ih
    exact triple_bind _ (hfields fields) fun ret ↦ triple_pure fun _ hret ↦ hret
  | count =>
    intro start processed final _ hreturns
    cases hreturns
    rfl
  | update values =>
    exact fun start processed final _ ↦
      processesOk_updateHandlers owner values table fields record start processed final
  | delete =>
    exact fun start processed final _ ↦
      processesOk_deleteHandlers owner table fields record start processed final

/-- The loop of `do_find` is left for reasons of its own. -/
theorem findRound_ownExit
    (hhandlers : RowHandlers world owner streams handlers) (hwrites : Writes world streams Sound)
    (plan : FindPlan Record) (vars : FindVars) :
    Triple (fun context ↦ Sound context.outside) (findRound world owner handlers plan vars)
      fun next _ ↦ Sum.elim (fun _ ↦ True) IsOwnExit next := by
  have hdone : ∀ r, IsOwnExit (.done r) := fun _ _ hexit ↦ by cases hexit
  have hkilled : Triple (fun context : Context Outside Record ↦ Sound context.outside)
      (ask world.killed) fun _ context ↦ Sound context.outside := by
    intro start killed final hsound hreturns
    cases hreturns
    exact hlasting.called (.killed _) hsound
  have hfetch : Triple (fun context : Context Outside Record ↦ Sound context.outside)
      (fetch world owner plan vars) fun _ context ↦ Sound context.outside := by
    intro start found final hsound hreturns
    have hmoved := carries_fetch (carries_along world owner (scanRights streams)).silent rfl plan
      vars 0
      start found final hreturns
    have hsteps : Steps world (· = owner) streams start final :=
      (hmoved.mono (scanRights_le_fullRights streams)).steps rfl
    exact hsteps.sound hlasting hsound
  have hvisit : ∀ record, Triple (fun context : Context Outside Record ↦ Sound context.outside)
      (visit handlers plan vars record) fun next _ ↦ Sum.elim (fun _ ↦ True) IsOwnExit next := by
    intro record
    refine triple_ite (fun _ ↦ triple_pure fun _ _ ↦ trivial) fun _ ↦ ?_
    refine triple_bind _ (hhandlers.processes hlasting hwrites plan.table plan.fields record)
      fun processed ↦ triple_ite (fun hbad ↦ ?_) fun _ ↦ ?_
    · exact triple_pure fun _ hok ↦ absurd hok hbad
    · exact triple_ite (fun _ ↦ triple_pure fun _ _ ↦ hdone _)
        fun _ ↦ triple_pure fun _ _ ↦ trivial
  refine triple_ite (fun _ ↦ triple_pure fun _ _ ↦ hdone _) fun _ ↦ ?_
  refine triple_bind _ hkilled fun killed ↦ triple_ite (fun _ ↦ ?_) fun _ ↦ ?_
  · exact triple_pure fun _ _ _ hexit ↦ by cases hexit
  refine triple_bind _ hfetch fun found ↦ triple_ite (fun _ ↦ ?_) fun _ ↦ ?_
  · exact triple_pure fun _ _ ↦ trivial
  refine triple_ite (fun _ ↦ ?_) fun _ ↦ triple_ite (fun _ ↦ hvisit found.2) fun _ ↦ ?_
  · refine triple_pure fun _ _ ↦ ?_
    unfold nextKey
    split_ifs
    · trivial
    · exact fun _ hexit ↦ by cases hexit
    · exact hdone _
  · exact triple_pure fun _ _ ↦ trivial

variable (hallocates : Allocates world)

include hallocates

/-- `do_find` from the response header on: the status is 200 until an error replaces it. -/
theorem concludes_findRows
    (hhandlers : RowHandlers world owner streams handlers) (hwrites : Writes world streams Sound)
    (betweenBuf : Bool) (plan : FindPlan Record) :
    Triple (Poised Sound owner fun _ ↦ True)
      (findRows world rounds owner handlers betweenBuf plan) (Concluded Sound owner) := by
  have hrow := carries_along world owner (rowRights streams)
  have hhold := hhandlers.hold hrow
  have hround : ∀ vars, Triple (Poised Sound owner (· = clientStatusOk))
      (findRound world owner handlers plan vars) fun next context ↦
        Sum.elim (fun _ ↦ Poised Sound owner (· = clientStatusOk) context)
          (fun exit ↦ IsOwnExit exit ∧ Poised Sound owner (· = clientStatusOk) context) next := by
    intro vars start next final hpoised hreturns
    have hscan := carries_along world owner (scanRights streams)
    have hmoves := carries_findRound hscan
      (hhandlers.hold (hscan.mono (rowRights_le_scanRights streams))) plan vars 0
    have hafter := poised_of_moves hlasting (scanRights_le_fullRights streams) rfl hmoves _ start
      next final hpoised hreturns
    have hexit := findRound_ownExit hlasting hhandlers hwrites plan vars start next final
      hpoised.outside hreturns
    cases next with
    | inl vars => exact hafter
    | inr exit => exact ⟨hexit, hafter⟩
  have hfinish : ∀ exit, Triple
      (fun context ↦ IsOwnExit exit ∧ Poised Sound owner (· = clientStatusOk) context)
      (finishFind world owner handlers exit) (Concluded Sound owner) := by
    intro exit
    refine triple_and fun hexit ↦ ?_
    cases exit with
    | killed => exact concludes_error hlasting hallocates (by decide) _
    | keyMismatch => exact concludes_error hlasting hallocates (by decide) _
    | processed ret => exact absurd rfl (hexit ret)
    | done r =>
      refine triple_ite (fun _ ↦ ?_) fun _ ↦ concludes_error hlasting hallocates (by decide) _
      refine triple_bind _ (poised_of_row hlasting (hhold.finish 0)) fun _ ↦
        triple_pure fun _ hpoised ↦ ?_
      exact ⟨rfl, hpoised.mono fun _ ↦ .inl⟩
  refine triple_bind _ (poised_tdhsInitResponse Sound owner) fun _ ↦
    triple_bind _ (poised_of_row hlasting (hhold.create plan.fields 0)) fun created ↦
      triple_ite (fun _ ↦ concludes_error hlasting hallocates (by decide) _) fun _ ↦ ?_
  refine triple_ite (fun _ ↦ concludes_error hlasting hallocates (by decide) _) fun _ ↦
    triple_ite (fun _ ↦ concludes_error hlasting hallocates (by decide) _) fun _ ↦
      triple_ite (fun _ ↦ concludes_error hlasting hallocates (by decide) _) fun _ ↦ ?_
  exact triple_bind _ (triple_loop (fun _ ↦ Poised Sound owner (· = clientStatusOk)) hround
    rounds _) hfinish

theorem concludes_doFindLocked
    (hhandlers : RowHandlers world owner streams handlers) (hwrites : Writes world streams Sound)
    (request : TdhsRequest) (table : Table Record) :
    Triple (Poised Sound owner fun _ ↦ True)
      (doFindLocked world rounds owner request handlers table) (Concluded Sound owner) := by
  have hmemory : ∀ size, Triple (Poised Sound owner fun _ ↦ True) (stackLiker world size)
      fun _ ↦ Poised Sound owner fun _ ↦ True := fun size ↦
    poised_of_row hlasting
      (carries_stackLiker (carries_along world owner (rowRights streams)).silent size 0)
  refine triple_bind _ (triple_read fun _ hpoised ↦ hpoised) fun _ ↦
    triple_ite (fun _ ↦ concludes_error hlasting hallocates (by decide) _) fun _ ↦
      triple_elim (concludes_error hlasting hallocates (by decide) _)
      (fun idxnum ↦ triple_elim (concludes_error hlasting hallocates (by decide) _) (fun fields ↦
        triple_elim (concludes_error hlasting hallocates (by decide) _) (fun filters ↦ ?_) _) _) _
  refine triple_bind _ (hmemory _) fun _ ↦
    triple_ite (fun _ ↦ concludes_error hlasting hallocates (by decide) _) fun _ ↦ ?_
  refine triple_bind _ (hmemory _) fun _ ↦ triple_bind _ (hmemory _) fun betweenBuf ↦
    triple_ite (fun _ ↦ concludes_error hlasting hallocates (by decide) _) fun _ ↦ ?_
  exact concludes_findRows hlasting hallocates hhandlers hwrites betweenBuf _

/-! ### do_insert -/

theorem concludes_doInsertLocked (request : TdhsRequest) (table : Table Record) :
    Triple (Poised Sound owner fun _ ↦ True) (doInsertLocked world owner request table)
      (Concluded Sound owner) := by
  have hrow := carries_along world owner (rowRights streams)
  refine triple_bind _ (triple_read fun _ hpoised ↦ hpoised) fun _ ↦
    triple_ite (fun _ ↦ concludes_error hlasting hallocates (by decide) _) fun _ ↦
      triple_elim (concludes_error hlasting hallocates (by decide) _)
      (fun fields ↦ ?_) _
  refine triple_bind _ (poised_tdhsInitResponse Sound owner) fun _ ↦
    triple_bind _ (poised_of_row hlasting (carries_writeHeader hrow _ _ 0)) fun _ ↦
      triple_ite (fun _ ↦ concludes_error hlasting hallocates (by decide) _) fun _ ↦ ?_
  refine triple_bind _ (poised_of_row hlasting (carries_insertFields hrow.silent _ _ 0))
    fun record ↦
    triple_elim (concludes_error hlasting hallocates (by decide) _) (fun record ↦ ?_) record
  refine triple_bind _ (poised_of_row hlasting (carries_rowCall hrow.silent table _ 0)) fun _ ↦
    triple_bind _ (poised_of_row hlasting (carries_ask hrow.silent (fun _ ↦ .insertId _) 0)) fun _ ↦
      triple_ite (fun _ ↦ ?_) fun _ ↦ concludes_error hlasting hallocates (by decide) _
  refine triple_bind _ (poised_of_row hlasting (carries_appendValue hrow _ 0)) fun _ ↦
    triple_pure fun _ hpoised ↦ ?_
  exact ⟨rfl, hpoised.mono fun _ ↦ .inl⟩

/-! ### execute -/

/-- A body in the scope of a table locker, for the table that is open. -/
theorem concludes_withOpenedTable {body : Table Record → Execution Outside Record RetCode}
    (hbody : ∀ table, Triple (Poised Sound owner fun _ ↦ True) (body table)
      (Concluded Sound owner)) (opened : OpenedTable Record) :
    Triple (Poised Sound owner fun _ ↦ True)
      (withOpenedTable world owner (fun address table ↦
        withTableLocker world bulk owner address (body table)) opened)
      (Concluded Sound owner) := by
  have hstatement := conducts_along world (fun _ ↦ False) streams
  have hrelease : Triple (Poised Sound owner IsFinalStatus) (releaseTableLocker world bulk owner)
      fun _ ↦ Poised Sound owner IsFinalStatus := by
    refine triple_bind _ (poised_of_statement hlasting
      (conducts_unlockTables hstatement bulk _ 0) _) fun _ ↦
        triple_bind _ (triple_read fun _ hpoised ↦ hpoised) fun _ ↦
          triple_ite (fun _ ↦ ?_) fun _ ↦ triple_pure fun _ hpoised ↦ hpoised
    refine triple_bind _ (concludes_error hlasting hallocates (by decide) _) fun retcode ↦
      triple_and fun hok ↦ ?_
    exact triple_modify fun _ hpoised ↦ ⟨hpoised.outside, hok, hpoised.code⟩
  cases opened with
  | noMemory => exact concludes_error hlasting hallocates (by decide) _
  | notOpened => exact concludes_error hlasting hallocates (by decide) _
  | opened address table =>
    refine triple_bind _ (poised_of_statement hlasting
      (conducts_lockTables hstatement bulk _ 0) _) fun _ ↦
        triple_bind _ (hbody table) fun ret ↦ triple_and fun hok ↦ ?_
    exact triple_bind _ hrelease fun _ ↦ triple_pure fun _ hpoised ↦ ⟨hok, hpoised⟩

theorem concludes_doFind
    (hhandlers : RowHandlers world owner streams handlers) (hwrites : Writes world streams Sound)
    (request : TdhsRequest) (opened : OpenedTable Record) :
    Triple (Poised Sound owner fun _ ↦ True)
      (doFind world rounds bulk owner request opened handlers) (Concluded Sound owner) :=
  triple_bind _ (triple_modify fun _ hpoised ↦ ⟨hpoised.outside, hpoised.retcode, trivial⟩)
    fun _ ↦ concludes_withOpenedTable hlasting hallocates (fun table ↦
      concludes_doFindLocked hlasting hallocates hhandlers hwrites request table) opened

omit owner in
/-- The dispatch of a request that is no batch. -/
theorem concludes_dispatch {work : Work Record} (hbatch : work.request.type ≠ .batch)
    (hget : work.request.type = .get → streams = true) (hwrites : Writes world streams Sound)
    (rest : List (Work Record)) (loop : Execution Outside Record RetCode) :
    Triple (Poised Sound work.owner fun _ ↦ True) (dispatch world rounds bulk work rest loop)
      (Concluded Sound work.owner) := by
  unfold dispatch
  cases htype : work.request.type with
  | get => exact concludes_doFind hlasting hallocates (.get (hget htype)) hwrites _ _
  | count => exact concludes_doFind hlasting hallocates .count hwrites _ _
  | update => exact concludes_doFind hlasting hallocates (.update _) hwrites _ _
  | delete => exact concludes_doFind hlasting hallocates .delete hwrites _ _
  | insert =>
    exact concludes_withOpenedTable hlasting hallocates (fun table ↦
      concludes_doInsertLocked hlasting hallocates _ table) _
  | batch => exact absurd htype hbatch

end Poised

end TdhSocket.Execute
