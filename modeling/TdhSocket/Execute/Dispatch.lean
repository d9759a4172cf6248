import TdhSocket.Execute.Find

/-!
# Executing a list of requests

`tdhs_dbcontext::execute` with everything it dispatches to, and the write loop of
`tdh_socket_request_thread.cpp` around it. Table locks and the ends of statements follow the four
variants of the source: with group commit one lock and one statement for the whole list, without it
one for each batch and one for each plain request.

A batch is executed along its packet chain. `executeBatch` runs `execute` on each packet, and
`execute` on a packet that is itself a BATCH runs the loop over the rest of the chain.
-/

set_option autoImplicit false

namespace TdhSocket.Execute

open Protocol Decode Library

variable {Outside Record : Type}

/-! ### Locks and statements -/

variable (world : World Outside Record)

/-- `tdhs_unlock_table` and `tdhs_unlock_table_lite`: roll back when an error was noted, else
commit. A missing lock leaves nothing to do. -/
def tdhsUnlockTable (request : Option ℕ) : Execution Outside Record RetCode := do
  let lock ← Program.read Context.lock
  if !lock then pure .ok
  else do
    let writeError ← Program.read Context.writeError
    Program.modify fun context ↦ { context with lock := false }
    if writeError then do
      emit (.ended request .rolledBack)
      pure .error
    else do
      let committed ← ask world.transCommitStmt
      if committed then do
        emit (.ended request .committed)
        pure .ok
      else do
        emit (.ended request .commitFailed)
        pure .error

/-- `lock_table`, with group commit. -/
def lockTable (bulk : Bool) (tables : List ℕ) : Execution Outside Record Unit :=
  if bulk then do
    let locked ← ask (world.lockTables tables)
    Program.modify fun context ↦ { context with lock := locked }
  else pure ()

/-- `unlock_table`, with group commit. -/
def unlockTable (bulk : Bool) : Execution Outside Record RetCode :=
  if bulk then do
    let ret ← tdhsUnlockTable world none
    Program.modify fun context ↦ { context with writeError := false }
    pure ret
  else pure .ok

/-- `lock_table` for some tables, without group commit and outside a batch. -/
def lockTables (bulk : Bool) (tables : List ℕ) : Execution Outside Record Unit := do
  let inBatch ← Program.read Context.inBatch
  if bulk || inBatch then pure ()
  else do
    let locked ← ask (world.lockTables tables)
    Program.modify fun context ↦ { context with lock := locked }

/-- `unlock_table` for some tables, without group commit and outside a batch. -/
def unlockTables (bulk : Bool) (request : ℕ) : Execution Outside Record RetCode := do
  let inBatch ← Program.read Context.inBatch
  if bulk || inBatch then pure .ok
  else do
    let ret ← tdhsUnlockTable world (some request)
    Program.modify fun context ↦ { context with writeError := false }
    pure ret

/-- A status of success other than that of a batch. -/
def isSuccess (code : ℕ) : Bool :=
  decide (200 ≤ code) && decide (code < 300) && code != clientStatusMultiStatus

variable (owner : Owner)

/-- A response that reports a failed commit. -/
def responseFailedToCommit : Execution Outside Record RetCode :=
  tdhsResponseError world owner clientStatusServerError ClientErrorCode.failedToCommit.code

/-- The destructor of `table_locker_for_context`. -/
def releaseTableLocker (bulk : Bool) (owner : Owner) : Execution Outside Record Unit := do
  let unlocked ← unlockTables world bulk owner.request
  let response ← Program.read fun context ↦ context.response owner
  if unlocked ≠ .ok ∧ isSuccess response.code = true then do
    let retcode ← responseFailedToCommit world owner
    Program.modify fun context ↦ { context with retcode := retcode }
  else pure ()

/-- A body in the scope of a `table_locker_for_context`. -/
def withTableLocker (bulk : Bool) (owner : Owner) (address : ℕ)
    (body : Execution Outside Record RetCode) : Execution Outside Record RetCode := do
  lockTables world bulk [address]
  let ret ← body
  releaseTableLocker world bulk owner
  pure ret

/-- The checks of `opened_table`, and a body for the table that is open. -/
def withOpenedTable (body : ℕ → Table Record → Execution Outside Record RetCode) :
    OpenedTable Record → Execution Outside Record RetCode
  | .noMemory => tdhsResponseError world owner clientStatusServerError
      ClientErrorCode.notEnoughMemory.code
  | .notOpened => tdhsResponseError world owner clientStatusNotFound
      ClientErrorCode.failedToOpenTable.code
  | .opened address table => body address table

/-! ### Plain requests -/

variable (rounds : ℕ)

/-- `do_find`. -/
def doFind (bulk : Bool) (owner : Owner) (request : TdhsRequest) (opened : OpenedTable Record)
    (handlers : FindHandlers Outside Record) : Execution Outside Record RetCode := do
  Program.modify fun context ↦ { context with updateRowNum := 0, changeRowNum := 0 }
  withOpenedTable world owner (fun address table ↦
    withTableLocker world bulk owner address
      (doFindLocked world rounds owner request handlers table)) opened

/-- The new record of one round of the value loop of `do_insert`, or none for a store error. -/
def insertField (field : Field Record) (value : ValueEntry) (record : Record) :
    Execution Outside Record (Option Record) :=
  if value.flag = .now then do
    let time ← ask world.now
    let stored := field.saveNow time record
    pure (if stored.1 < 0 then none else some stored.2)
  else if value.value.length = 0 then pure (some (field.setNull record))
  else
    let stored := field.store (content value.value) record
    pure (if stored.1 < 0 then none else some stored.2)

/-- The value loop of `do_insert`. -/
def insertFields :
    List (Field Record × ValueEntry) → Record → Execution Outside Record (Option Record)
  | [], record => pure (some record)
  | pair :: pairs, record => do
    let updated ← insertField world pair.1 pair.2 record
    updated.elim (pure none) fun next ↦ insertFields pairs next

/-- The part of `do_insert` that writes the row. -/
def insertRow (table : Table Record) (record : Record) : Execution Outside Record RetCode := do
  let r ← rowCall world owner table (.haWriteRow record)
  let insertId ← ask world.insertId
  if r = 0 then do
    writeInsertEnderToResponse owner insertId
    pure .ok
  else tdhsResponseError world owner clientStatusDbError (errorNumber r)

/-- The part of `do_insert` for parsed fields. -/
def insertParsed (request : TdhsRequest) (table : Table Record) (fields : List (Field Record)) :
    Execution Outside Record RetCode := do
  tdhsInitResponse owner
  let created ← writeUpdateHeaderToResponse world owner mysqlTypeLong 48 1
  if created ≠ .ok then
    tdhsResponseError world owner clientStatusServerError ClientErrorCode.notEnoughMemory.code
  else do
    let record ← insertFields world
      (fields.zip (entries request.values.entries world.stray.value fields.length))
      table.emptyRecord
    record.elim
      (tdhsResponseError world owner clientStatusDbError (errorNumber fieldStoreError))
      fun record ↦ insertRow world owner table record

/-- The part of `do_insert` under the table lock. -/
def doInsertLocked (request : TdhsRequest) (table : Table Record) :
    Execution Outside Record RetCode := do
  let lock ← Program.read Context.lock
  if !lock then
    tdhsResponseError world owner clientStatusServerError ClientErrorCode.failedToLockTable.code
  else
    (parseField table
        (entries request.tableInfo.fields world.stray.field request.tableInfo.fieldNum)).elim
      (tdhsResponseError world owner clientStatusNotFound
        ClientErrorCode.failedToMissingField.code)
      fun fields ↦ insertParsed world owner request table fields

/-- `do_insert`. -/
def doInsert (bulk : Bool) (owner : Owner) (request : TdhsRequest) (opened : OpenedTable Record) :
    Execution Outside Record RetCode :=
  withOpenedTable world owner (fun address table ↦
    withTableLocker world bulk owner address (doInsertLocked world owner request table)) opened

/-! ### Batches -/

/-- A packet that is to be executed: its request, its `reserved` word and its opened table. -/
structure Work (Record : Type) where
  owner : Owner
  request : TdhsRequest
  reserved : ℕ
  opened : OpenedTable Record

/-- `do_batch`, for its loop. -/
def doBatch (loop : Execution Outside Record RetCode) : Execution Outside Record RetCode := do
  let ret ← tdhsResponseBatch world owner
  if ret ≠ .ok then pure .error
  else do
    Program.modify fun context ↦ { context with inBatch := true }
    let ret ← loop
    Program.modify fun context ↦ { context with inBatch := false }
    pure ret

/-- The table loop of `do_batch_with_lock`: the addresses collected so far, and the bits of the
bloom filter that are set. -/
def collectTables : List (OpenedTable Record) → List ℕ → List ℕ → List ℕ
  | [], _, tables => tables
  | .opened address _ :: rest, bloom, tables =>
    if bloom.contains (address % 32) && tables.contains address then
      collectTables rest bloom tables
    else collectTables rest (address % 32 :: bloom) (tables ++ [address])
  | _ :: rest, bloom, tables => collectTables rest bloom tables

/-- The rewriting loop of `do_batch_with_lock`. -/
def rewriteUntilError : List Owner → Execution Outside Record RetCode
  | [] => pure .ok
  | owner :: owners => do
    let response ← Program.read fun context ↦ context.response owner
    if isSuccess response.code then do
      let ret ← responseFailedToCommit world owner
      if ret ≠ .ok then pure .error else rewriteUntilError owners
    else rewriteUntilError owners

section

variable (bulk : Bool)

/-- `do_batch_with_lock`, for the rest of the chain and the loop over it. -/
def doBatchWithLock (head : Work Record) (rest : List (Work Record))
    (loop : Execution Outside Record RetCode) : Execution Outside Record RetCode := do
  let memory ← stackLiker world (8 * head.reserved * 2)
  if !memory then
    tdhsResponseError world head.owner clientStatusServerError
      ClientErrorCode.notEnoughMemory.code
  else do
    lockTables world bulk (collectTables (rest.map Work.opened) [] [])
    let ret ← doBatch world head.owner loop
    let unlocked ← unlockTables world bulk head.owner.request
    if unlocked ≠ .ok ∧ ret = .ok then
      rewriteUntilError world (head.owner :: rest.map Work.owner)
    else pure ret

/-- The dispatch of `execute` on the request type. -/
def dispatch (work : Work Record) (rest : List (Work Record))
    (loop : Execution Outside Record RetCode) : Execution Outside Record RetCode :=
  match work.request.type with
  | .get => doFind world rounds bulk work.owner work.request work.opened
      (getHandlers world work.owner)
  | .count => doFind world rounds bulk work.owner work.request work.opened
      (countHandlers world work.owner)
  | .update => doFind world rounds bulk work.owner work.request work.opened
      (updateHandlers world work.owner work.request.values)
  | .delete => doFind world rounds bulk work.owner work.request work.opened
      (deleteHandlers world work.owner)
  | .insert => doInsert world bulk work.owner work.request work.opened
  | .batch =>
    if bulk then doBatch world work.owner loop
    else doBatchWithLock world bulk work rest loop

/-- `execute`, for the rest of the chain and the batch loop over it. -/
def executeWith (work : Work Record) (rest : List (Work Record))
    (loop : Execution Outside Record RetCode) : Execution Outside Record RetCode := do
  Program.modify fun context ↦
    { context with retcode := .ok, started := context.started ++ [work.owner] }
  let ret ← dispatch world rounds bulk work rest loop
  let retcode ← Program.read Context.retcode
  let result := if retcode ≠ .ok then retcode else ret
  Program.modify fun context ↦
    { context with
      outcomes := context.outcomes ++ [⟨work.owner, result, (context.response work.owner).code⟩] }
  pure result

/-- The loop of `do_batch` over the packets of a chain. -/
def executeBatch : List (Work Record) → Execution Outside Record RetCode
  | [] => pure .ok
  | work :: rest => do
    let ret ← executeWith world rounds bulk work rest (executeBatch rest)
    if ret ≠ .ok then do
      Program.modify fun context ↦ { context with writeError := true }
      pure ret
    else do
      Program.modify fun context ↦
        { context with
          writeError := context.writeError || decide (300 ≤ (context.response work.owner).code) }
      executeBatch rest

/-- `execute` on the first packet of a chain. -/
def execute (head : Work Record) (rest : List (Work Record)) : Execution Outside Record RetCode :=
  executeWith world rounds bulk head rest (executeBatch world rounds bulk rest)

end

/-! ### The write loop -/

/-- A decoded chain on the list of a request thread. -/
structure EasyRequest where
  head : TdhsRequest
  reserved : ℕ
  next : List TdhsRequest

/-- A request whose response goes to its IO thread, with the packets behind `opacket`. -/
structure Done where
  request : ℕ
  retcode : RetCode
  packets : List Owner
  deriving DecidableEq, Repr

/-- The command of a request type, which is the status of its packet before the response. -/
def commandOf : RequestType → ℕ
  | .get => 0
  | .count => 1
  | .update => 10
  | .delete => 11
  | .insert => 12
  | .batch => requestTypeBatch

/-- `open_table` on one packet, which leaves the packet of a batch alone. -/
def openWork (reserved : ℕ) (request : TdhsRequest) : Execution Outside Record (Work Record) := do
  setResponse owner fun _ ↦ ⟨commandOf request.type, 0, [], []⟩
  if request.type = .batch then pure ⟨owner, request, reserved, .noMemory⟩
  else do
    let opened ← ask (world.openTable request.tableInfo)
    pure ⟨owner, request, reserved, opened⟩

/-- `open_table` on the packets behind the first. -/
def openRest (number : ℕ) : ℕ → List TdhsRequest → Execution Outside Record (List (Work Record))
  | _, [] => pure []
  | position, request :: requests => do
    let work ← openWork world ⟨number, position⟩ 0 request
    let works ← openRest number (position + 1) requests
    pure (work :: works)

/-- A chain with its opened tables. -/
structure OpenedChain (Record : Type) where
  number : ℕ
  head : Work Record
  rest : List (Work Record)

/-- The loop of `tdhs_request_doreq_for_write` that opens the tables. -/
def openAll : ℕ → List EasyRequest → Execution Outside Record (List (OpenedChain Record))
  | _, [] => pure []
  | number, request :: requests => do
    let head ← openWork world ⟨number, 0⟩ request.reserved request.head
    let rest ← openRest world number 1 request.next
    let chains ← openAll (number + 1) requests
    pure (⟨number, head, rest⟩ :: chains)

/-- `on_server_process` without a row cache: the answer to a request that waited too long, or
`execute`. The error response unlinks the rest of the chain. -/
def onServerProcess (bulk : Bool) (chain : OpenedChain Record) : Execution Outside Record Done := do
  let timedOut ← ask (world.timedOut chain.number)
  if timedOut then do
    let ret ← tdhsResponseError world chain.head.owner clientStatusRequestTimeOut
      ClientErrorCode.requestTimeOut.code
    pure ⟨chain.number, ret, [chain.head.owner]⟩
  else do
    let ret ← execute world rounds bulk chain.head chain.rest
    pure ⟨chain.number, ret, chain.head.owner :: chain.rest.map Work.owner⟩

/-- The process loop for one request. -/
def processRequest (bulk : Bool) (chain : OpenedChain Record) : Execution Outside Record Done := do
  let closed ← ask (world.connectionClosed chain.number)
  if closed then pure ⟨chain.number, .error, []⟩ else onServerProcess world rounds bulk chain

/-- The rewriting loop of `tdhs_request_doreq_for_write` over the packets of one request. -/
def rewritePackets : RetCode → List Owner → Execution Outside Record RetCode
  | retcode, [] => pure retcode
  | retcode, owner :: owners => do
    let response ← Program.read fun context ↦ context.response owner
    if isSuccess response.code then do
      let ret ← responseFailedToCommit world owner
      rewritePackets ret owners
    else rewritePackets retcode owners

/-- The replacement of the response of one request after a failed commit. -/
def rewriteDone (done : Done) : Execution Outside Record Done :=
  if done.retcode = .ok then do
    let retcode ← rewritePackets world .ok done.packets
    pure { done with retcode := retcode }
  else pure done

/-- `tdhs_request_doreq_for_write` on a list of requests, up to the hand-over to the IO threads. A
request that returned `EASY_ASYNC` is dropped. -/
def tdhsRequestDoreqForWrite (groupCommit : Bool) (requests : List EasyRequest) :
    Execution Outside Record (List Done) := do
  let chains ← openAll world 0 requests
  if requests.length = 0 then pure []
  else do
    lockTable world groupCommit
      (collectTables ((chains.flatMap fun chain ↦ chain.head :: chain.rest).map Work.opened) [] [])
    let processed ← Program.each (processRequest world rounds groupCommit) chains
    let done := processed.filter fun one ↦ one.retcode != .async
    let commitRet ← unlockTable world groupCommit
    if commitRet ≠ .ok then Program.each (rewriteDone world) done else pure done

end TdhSocket.Execute
