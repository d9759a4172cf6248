import TdhSocket.Execute.Frame

/-!
# Requests inside a shared statement

With group commit, and inside a batch, a plain request neither locks nor ends a statement
(`withTableLocker_of_shared`). `Executed` says what `execute` does to the context for one such
packet (`executed_of_shared`): it adds one entry to each of the two logs of calls and events of its
own to the log of the storage engine, notes no error, and answers nothing but its own packet.
Without the table lock it changes no row and answers an error.
-/

set_option autoImplicit false

namespace TdhSocket.Execute

open Protocol Decode Library Library.Program

variable {Outside Record : Type} {world : World Outside Record} {rounds : ℕ} {bulk : Bool}

/-! ### Error responses -/

/-- A status that is neither a success nor that of a batch. -/
def IsErrorStatus (code : ℕ) : Prop := 400 ≤ code

variable {owner : Owner} {start final : Context Outside Record} {ret : RetCode} {work : Work Record}

/-- A response without rows sets its status first, whether or not its buffer can be had, and logs
nothing. Assumes: what is written into the buffer is not the status. -/
theorem response_answers {status size : ℕ} {header fill : Response → Response}
    (hreturns : (do
      setResponse owner header
      let created ← ask (world.easyBufCreate size)
      if created then do
        setResponse owner fill
        pure RetCode.ok
      else pure RetCode.error : Execution Outside Record RetCode) start = some (ret, final))
    (hheader : ∀ response, (header response).code = status)
    (hfill : ∀ response, (fill response).code = response.code) :
    final.events = start.events ∧ (final.response owner).code = status := by
  obtain ⟨_, opened, hopened, hreturns⟩ := bind_eq_some.mp hreturns
  cases hopened
  obtain ⟨created, middle, hcreated, hreturns⟩ := bind_eq_some.mp hreturns
  cases hcreated
  have hset : ∀ (responses : Owner → Response) (response : Response),
      (Function.update responses owner response owner).code = response.code := by
    intro responses response
    rw [Function.update_self]
  split_ifs at hreturns
  · cases hreturns
    exact ⟨rfl, (hset _ _).trans ((hfill _).trans ((hset _ _).trans (hheader _)))⟩
  · cases hreturns
    exact ⟨rfl, (hset _ _).trans (hheader _)⟩

theorem tdhsResponseError_answers {status code : ℕ}
    (hreturns : tdhsResponseError world owner status code start = some (ret, final)) :
    final.events = start.events ∧ (final.response owner).code = status :=
  response_answers hreturns (fun _ ↦ rfl) fun _ ↦ rfl

theorem tdhsResponseBatch_answers
    (hreturns : tdhsResponseBatch world owner start = some (ret, final)) :
    final.events = start.events ∧
      (final.response owner).code = clientStatusMultiStatus :=
  response_answers hreturns (fun _ ↦ rfl) fun _ ↦ rfl

/-- A context in which a request does not lock or end statements of its own. -/
def IsShared (bulk : Bool) (context : Context Outside Record) : Prop :=
  (bulk || context.inBatch) = true

theorem IsShared.of_works
    (hshared : IsShared bulk start) (hworks : Works world owner start final) :
    IsShared bulk final := by
  unfold IsShared
  rw [hworks.inBatch]
  exact hshared

variable {context : Context Outside Record} {rest : List (Work Record)}

theorem lockTables_of_shared (hshared : IsShared bulk context) (tables : List ℕ) :
    lockTables world bulk tables context = some ((), context) := by
  have hcondition : (bulk || context.inBatch) = true := hshared
  unfold lockTables
  rw [bind_of_eq_some (read_apply _ _), if_pos hcondition]
  rfl

theorem unlockTables_of_shared (hshared : IsShared bulk context) (request : ℕ) :
    unlockTables world bulk request context = some (.ok, context) := by
  have hcondition : (bulk || context.inBatch) = true := hshared
  unfold unlockTables
  rw [bind_of_eq_some (read_apply _ _), if_pos hcondition]
  rfl

/-- Inside a shared statement the table locker does nothing. Assumes: the body does no more than the
execution of a packet may. -/
theorem withTableLocker_of_shared {body : Execution Outside Record RetCode}
    (hbody : Keeps world owner body) (hshared : IsShared bulk context) (address : ℕ) :
    withTableLocker world bulk owner address body context = body context := by
  unfold withTableLocker
  rw [bind_of_eq_some (lockTables_of_shared hshared _), bind_apply]
  cases hreturns : body context with
  | none => rfl
  | some outcome =>
    obtain ⟨ret, final⟩ := outcome
    have hworks := hbody context context ret final (Works.refl world owner context) hreturns
    have hfinal := hshared.of_works hworks
    have hrelease : releaseTableLocker world bulk owner final = some ((), final) := by
      unfold releaseTableLocker
      rw [bind_of_eq_some (unlockTables_of_shared hfinal _), bind_of_eq_some (read_apply _ _),
        if_neg fun hfailed ↦ hfailed.1 rfl]
      rfl
    show (releaseTableLocker world bulk owner >>= fun _ ↦ pure ret) final = _
    rw [bind_of_eq_some hrelease]
    rfl

/-! ### Plain writes -/

/-- The body that a plain write runs under the table lock. -/
def lockedBody (world : World Outside Record) (rounds : ℕ) (work : Work Record)
    (table : Table Record) : Execution Outside Record RetCode :=
  if work.request.type = .update then
    doFindLocked world rounds work.owner work.request
      (updateHandlers world work.owner work.request.values) table
  else if work.request.type = .delete then
    doFindLocked world rounds work.owner work.request (deleteHandlers world work.owner) table
  else doInsertLocked world work.owner work.request table

/-- What a plain write does before it looks at its table. -/
def resetCounters (work : Work Record) : Execution Outside Record Unit :=
  if work.request.type = .insert then pure ()
  else Program.modify fun context ↦ { context with updateRowNum := 0, changeRowNum := 0 }

/-- A plain write looks at its table and runs its body in the scope of a table locker. -/
theorem dispatch_of_isPlainWrite (hplain : IsPlainWrite work.request.type)
    (rest : List (Work Record)) (loop : Execution Outside Record RetCode) :
    dispatch world rounds bulk work rest loop = (do
      resetCounters work
      withOpenedTable world work.owner (fun address table ↦
        withTableLocker world bulk work.owner address (lockedBody world rounds work table))
        work.opened) := by
  unfold dispatch lockedBody resetCounters
  rcases hplain with htype | htype | htype
  · rw [htype]
    rfl
  · rw [htype]
    rfl
  · rw [htype]
    rfl

theorem dispatch_of_batch (htype : work.request.type = .batch)
    (rest : List (Work Record)) (loop : Execution Outside Record RetCode) :
    dispatch world rounds bulk work rest loop =
      if bulk then doBatch world work.owner loop
      else doBatchWithLock world bulk work rest loop := by
  unfold dispatch
  rw [htype]

theorem keeps_lockedBody (work : Work Record) (table : Table Record) :
    Keeps world work.owner (lockedBody world rounds work table) :=
  keeps_ite
    (keeps_doFindLocked
      (handlersKeep_of_hold (handlersHold_updateHandlers (carries_keeps _) _)) _ _ _)
    (keeps_ite
      (keeps_doFindLocked
        (handlersKeep_of_hold (handlersHold_deleteHandlers (carries_keeps _))) _ _ _)
      (carries_doInsertLocked (carries_keeps (fullRights true)) _ _ 0))

theorem keeps_resetCounters (work : Work Record) :
    Keeps world work.owner (resetCounters work : Execution Outside Record Unit) :=
  keeps_ite (keeps_pure _)
    ((carries_keeps (rowRights false)).move (goes_modify fun _ ↦ .counted _ _) 0)

/-- Without the table lock the body answers an error. -/
theorem lockedBody_of_unlocked {table : Table Record} (hlock : start.lock = false)
    (hreturns : lockedBody world rounds work table start = some (ret, final)) :
    final.events = start.events ∧ IsErrorStatus (final.response work.owner).code := by
  have herror : tdhsResponseError world work.owner clientStatusServerError
      ClientErrorCode.failedToLockTable.code start = some (ret, final) := by
    unfold lockedBody doFindLocked doInsertLocked at hreturns
    split_ifs at hreturns
    all_goals
      rw [bind_of_eq_some (read_apply _ _), hlock] at hreturns
      exact hreturns
  obtain ⟨hevents, hcode⟩ := tdhsResponseError_answers herror
  refine ⟨hevents, ?_⟩
  rw [hcode]
  exact (by decide : 400 ≤ 500)

/-- A plain write inside a shared statement. -/
def plainBody (world : World Outside Record) (rounds : ℕ) (work : Work Record) :
    Execution Outside Record RetCode := do
  resetCounters work
  withOpenedTable world work.owner (fun _ table ↦ lockedBody world rounds work table) work.opened

theorem keeps_plainBody (work : Work Record) :
    Keeps world work.owner (plainBody world rounds work) := by
  refine keeps_bind (keeps_resetCounters work) fun _ ↦ ?_
  cases work.opened with
  | noMemory => exact keeps_tdhsResponseError world work.owner _ _
  | notOpened => exact keeps_tdhsResponseError world work.owner _ _
  | opened address table => exact keeps_lockedBody work table

/-- Assumes: the request does not lock or end statements of its own. -/
theorem dispatch_of_shared (hplain : IsPlainWrite work.request.type)
    (hshared : IsShared bulk context) (rest : List (Work Record))
    (loop : Execution Outside Record RetCode) :
    dispatch world rounds bulk work rest loop context = plainBody world rounds work context := by
  rw [dispatch_of_isPlainWrite hplain]
  unfold plainBody
  rw [bind_apply, bind_apply]
  cases hreset : resetCounters work context with
  | none => rfl
  | some outcome =>
    have hworks := keeps_resetCounters work context context outcome.1 outcome.2
      (Works.refl world work.owner context) hreset
    cases work.opened with
    | noMemory => rfl
    | notOpened => rfl
    | opened address table =>
      exact withTableLocker_of_shared (keeps_lockedBody work table) (hshared.of_works hworks)
        address

/-- Without the table lock a plain write changes no row and is answered with an error. -/
theorem plainBody_of_unlocked (hlock : start.lock = false)
    (hreturns : plainBody world rounds work start = some (ret, final)) :
    final.events = start.events ∧ IsErrorStatus (final.response work.owner).code := by
  obtain ⟨_, middle, hreset, hbody⟩ := bind_eq_some.mp hreturns
  have hmiddle : middle.lock = start.lock ∧ middle.events = start.events := by
    unfold resetCounters at hreset
    split_ifs at hreset
    all_goals
      cases hreset
      exact ⟨rfl, rfl⟩
  have herror : ∀ status code, IsErrorStatus status →
      tdhsResponseError world work.owner status code middle = some (ret, final) →
        final.events = middle.events ∧ IsErrorStatus (final.response work.owner).code := by
    intro status code hstatus hresponse
    obtain ⟨hevents, hcode⟩ := tdhsResponseError_answers hresponse
    rw [hcode]
    exact ⟨hevents, hstatus⟩
  rw [← hmiddle.2]
  cases hopened : work.opened with
  | noMemory =>
    rw [hopened] at hbody
    exact herror _ _ (by decide : 400 ≤ 500) hbody
  | notOpened =>
    rw [hopened] at hbody
    exact herror _ _ (by decide : 400 ≤ 404) hbody
  | opened address table =>
    rw [hopened] at hbody
    exact lockedBody_of_unlocked (hmiddle.1.trans hlock) hbody

/-- The context in which `execute` dispatches. -/
def opening (owner : Owner) (context : Context Outside Record) : Context Outside Record :=
  { context with retcode := .ok, started := context.started ++ [owner] }

/-- The context in which `execute` returns. -/
def closing (owner : Owner) (ret : RetCode) (context : Context Outside Record) :
    Context Outside Record :=
  { context with
    outcomes := context.outcomes ++ [⟨owner, ret, (context.response owner).code⟩] }

/-- `execute` is its dispatch between two entries of the logs. -/
theorem executeWith_eq_some {loop : Execution Outside Record RetCode} :
    executeWith world rounds bulk work rest loop start = some (ret, final) ↔
      ∃ bodyRet middle,
        dispatch world rounds bulk work rest loop (opening work.owner start) =
          some (bodyRet, middle) ∧
        ret = (if middle.retcode ≠ .ok then middle.retcode else bodyRet) ∧
        final = closing work.owner ret middle := by
  constructor
  · intro hreturns
    obtain ⟨_, _, hmodify, hreturns⟩ := bind_eq_some.mp hreturns
    cases hmodify
    obtain ⟨bodyRet, middle, hbody, hreturns⟩ := bind_eq_some.mp hreturns
    cases hreturns
    exact ⟨bodyRet, middle, hbody, rfl, rfl⟩
  · rintro ⟨bodyRet, middle, hbody, rfl, rfl⟩
    exact bind_eq_some.mpr ⟨(), _, rfl, bind_eq_some.mpr ⟨bodyRet, middle, hbody, rfl⟩⟩

/-- What `execute` does to the context for a plain write inside a shared statement. -/
structure Executed (world : World Outside Record) (owner : Owner) (ret : RetCode)
    (start final : Context Outside Record) : Prop where
  lock : final.lock = start.lock
  writeError : final.writeError = start.writeError
  inBatch : final.inBatch = start.inBatch
  retcode : final.retcode = .ok
  started : final.started = start.started ++ [owner]
  outcomes : final.outcomes = start.outcomes ++ [⟨owner, ret, (final.response owner).code⟩]
  response : ∀ other, other ≠ owner → final.response other = start.response other
  events : ∃ more, final.events = start.events ++ more ∧ ∀ event ∈ more, event.By world owner
  unlocked : start.lock = false →
    final.events = start.events ∧ IsErrorStatus (final.response owner).code

/-- Assumes: a plain write, and a context in which it shares its statement. -/
theorem executed_of_shared (hplain : IsPlainWrite work.request.type)
    (hshared : IsShared bulk start)
    {loop : Execution Outside Record RetCode}
    (hreturns : executeWith world rounds bulk work rest loop start = some (ret, final)) :
    Executed world work.owner ret start final := by
  obtain ⟨bodyRet, middle, hbody, -, rfl⟩ := executeWith_eq_some.mp hreturns
  have hopened : IsShared bulk (opening work.owner start) := hshared
  rw [dispatch_of_shared hplain hopened] at hbody
  have hworks := keeps_plainBody work _ _ bodyRet middle (Works.refl world work.owner _) hbody
  have hunlocked := fun hlock ↦ plainBody_of_unlocked hlock hbody
  exact ⟨hworks.lock, hworks.writeError, hworks.inBatch, hworks.retcode, hworks.started,
    congrArg (· ++ _) hworks.outcomes, hworks.response, hworks.events, hunlocked⟩

end TdhSocket.Execute
