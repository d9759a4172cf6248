import TdhSocket.Execute.World

/-!
# Finding rows

`do_find` and the row handlers of GET, COUNT, UPDATE and DELETE. `findRound` is one round of its
loop, from the test of the limit to the counters; the loop leaves with a reason (`FindExit`), and
what is answered for it is `finishFind`. Every early return of the source is a call of
`tdhsResponseError` whose value is returned.
-/

set_option autoImplicit false

namespace TdhSocket.Execute

open Protocol Decode Library

variable {Outside Record : Type}

/-! ### Row handlers -/

/-- What a process handler leaves: its return value and `process_db_ret`. -/
structure Processed where
  ret : RetCode
  dbRet : ℤ
  deriving DecidableEq, Repr

/-- The three handlers of `do_find`. -/
structure FindHandlers (Outside Record : Type) where
  create : List (Field Record) → Execution Outside Record RetCode
  process : Table Record → List (Field Record) → Record → Execution Outside Record Processed
  finish : Execution Outside Record Unit

/-- The value that `response_record` writes for a field: nothing for NULL and one zero byte for the
empty string. -/
def responseValue (field : Field Record) (record : Record) : List UInt8 :=
  if field.isNull record then []
  else if field.valStr record = [] then [0]
  else field.valStr record

variable (world : World Outside Record) (owner : Owner)

/-- The loop of `response_record` over the fields. -/
def responseFields (record : Record) : List (Field Record) → Execution Outside Record RetCode
  | [] => pure .ok
  | field :: fields => do
    let written ← ask (world.writeData (responseValue field record))
    if written then do
      setResponse owner fun response ↦
        { response with data := response.data ++ [responseValue field record] }
      responseFields record fields
    else pure .async

/-- `response_record`. -/
def responseRecord (fields : List (Field Record)) (record : Record) :
    Execution Outside Record Processed := do
  let ret ← responseFields world owner record fields
  pure ⟨ret, 0⟩

/-- `count_record`. -/
def countRecord : Execution Outside Record Processed := do
  Program.modify fun context ↦
    { context with changeRowNum := (context.changeRowNum + 1) % 2 ^ 32 }
  pure ⟨.ok, 0⟩

/-- A sum or difference of two `long long`. -/
def wrapInt64 (number : ℤ) : ℤ := number.bmod (2 ^ 64)

/-- The delta of ADD and SUB. -/
def delta (value : TdhsString) : ℤ := if value.length = 0 then 0 else atoll value

/-- The new record of one round of the value loop of `update_record`, or none for a store error. -/
def updateField (field : Field Record) (value : ValueEntry) (record : Record) :
    Execution Outside Record (Option Record) :=
  match value.flag with
  | .set =>
    if value.value.length = 0 then pure (some (field.setNull record))
    else
      let stored := field.store (content value.value) record
      pure (if stored.1 < 0 then none else some stored.2)
  | .add =>
    let stored := field.storeInt (wrapInt64 (field.valInt record + delta value.value)) record
    pure (if stored.1 < 0 then none else some stored.2)
  | .sub =>
    let stored := field.storeInt (wrapInt64 (field.valInt record - delta value.value)) record
    pure (if stored.1 < 0 then none else some stored.2)
  | .now => do
    let time ← ask world.now
    let stored := field.saveNow time record
    pure (if stored.1 < 0 then none else some stored.2)

/-- The value loop of `update_record`. -/
def updateFields :
    List (Field Record × ValueEntry) → Record → Execution Outside Record (Option Record)
  | [], record => pure (some record)
  | pair :: pairs, record => do
    let updated ← updateField world pair.1 pair.2 record
    updated.elim (pure none) fun next ↦ updateFields pairs next

/-- One more row matched, and changed if it was. -/
def countRow (changed : Bool) : Execution Outside Record Unit :=
  Program.modify fun context ↦
    { context with
      updateRowNum := (context.updateRowNum + 1) % 2 ^ 32
      changeRowNum :=
        if changed then (context.changeRowNum + 1) % 2 ^ 32 else context.changeRowNum }

/-- The call of `ha_update_row` in `update_record`. -/
def storeRecord (table : Table Record) (record new : Record) :
    Execution Outside Record Processed := do
  let ret ← rowCall world owner table (.haUpdateRow record new)
  if ret = 0 then do
    countRow true
    pure ⟨.ok, 0⟩
  else if ret = haErrRecordIsTheSame then do
    countRow false
    pure ⟨.ok, 0⟩
  else pure ⟨.ok, ret⟩

/-- `update_record`. The assignments to `write_error` are commented out in the source. -/
def updateRecord (table : Table Record) (pairs : List (Field Record × ValueEntry))
    (record : Record) : Execution Outside Record Processed := do
  let updated ← updateFields world pairs record
  updated.elim (pure ⟨.ok, fieldStoreError⟩) fun new ↦ storeRecord world owner table record new

/-- `delete_record`. -/
def deleteRecord (table : Table Record) (record : Record) : Execution Outside Record Processed := do
  let ret ← rowCall world owner table (.haDeleteRow record)
  if ret = 0 then do
    countRow true
    pure ⟨.ok, 0⟩
  else pure ⟨.ok, ret⟩

/-- The handlers of GET: `create_response_for_data` and `response_record`. -/
def getHandlers : FindHandlers Outside Record where
  create fields := writeDataHeaderToResponse world owner
    (fields.map fun field ↦ UInt8.ofNat field.type)
  process _ fields record := responseRecord world owner fields record
  finish := pure ()

/-- The handlers of COUNT. -/
def countHandlers : FindHandlers Outside Record where
  create _ := writeUpdateHeaderToResponse world owner mysqlTypeLong 10 1
  process _ _ _ := countRecord
  finish := do
    let count ← Program.read Context.changeRowNum
    writeCountEnderToResponse owner count

/-- `end_update_record`. -/
def endUpdateRecord : Execution Outside Record Unit := do
  let updateRowNum ← Program.read Context.updateRowNum
  let changeRowNum ← Program.read Context.changeRowNum
  writeUpdateEnderToResponse owner updateRowNum changeRowNum

/-- The handlers of UPDATE. The value loop runs over as many values as there are fields. -/
def updateHandlers (values : TdhsRequestValues) : FindHandlers Outside Record where
  create _ := writeUpdateHeaderToResponse world owner mysqlTypeLong 10 2
  process table fields record := updateRecord world owner table
    (fields.zip (entries values.entries world.stray.value fields.length)) record
  finish := endUpdateRecord owner

/-- The handlers of DELETE. -/
def deleteHandlers : FindHandlers Outside Record where
  create _ := writeUpdateHeaderToResponse world owner mysqlTypeLong 10 2
  process table _ record := deleteRecord world owner table record
  finish := endUpdateRecord owner

/-! ### The loop -/

/-- `find_flag` for the handler. -/
def haFindFlag : FindFlag → HaRkeyFunction
  | .eq => .keyExact
  | .deq => .keyExact
  | .ge => .keyOrNext
  | .between => .keyOrNext
  | .le => .keyOrPrev
  | .gt => .afterKey
  | .lt => .beforeKey
  | .inKeys => .keyExact

/-- What the loop of `do_find` does not change: the table with the open index, the fields, the
filters with their buffer, and the request. -/
structure FindPlan (Record : Type) where
  table : Table Record
  idxnum : ℕ
  info : KeyInfo
  fields : List (Field Record)
  filters : List (BoundFilter Record)
  filterBuf : List UInt8
  get : TdhsRequestGet

/-- The local variables of the loop. -/
structure FindVars where
  isFirst : Bool
  limit : ℕ
  skip : ℕ
  inIndex : ℕ
  r : ℤ
  deriving DecidableEq, Repr

/-- Why the loop is left. -/
inductive FindExit
  | killed
  | keyMismatch
  | processed (ret : RetCode)
  | done (r : ℤ)
  deriving DecidableEq, Repr

variable (stray : Stray) (get : TdhsRequestGet)

/-- `keys[i]`. -/
def keyAt (i : ℕ) : TdhsGetKey :=
  (entries get.keys stray.key get.keyNum).getD i (stray.key i)

/-- The key buffer for `keys[i]`. -/
def keyBuf (i : ℕ) : List TdhsString :=
  keyParts stray (keyAt stray get i)

/-- The first call of a scan. -/
def firstCall (inIndex : ℕ) : IndexCall :=
  if get.findFlag = .deq then .indexReadLastMap (keyBuf stray get inIndex)
  else if get.findFlag = .between then
    .readRangeFirst (keyBuf stray get inIndex) (keyBuf stray get 1)
  else .indexReadMap (keyBuf stray get inIndex) (haFindFlag get.findFlag)

/-- The calls behind the first, for every find flag but DEQ. -/
def nextCall (inIndex : ℕ) : IndexCall :=
  match haFindFlag get.findFlag with
  | .beforeKey => .indexPrev
  | .keyOrPrev => .indexPrev
  | .afterKey => .indexNext
  | .keyOrNext => if get.findFlag = .between then .readRangeNext else .indexNext
  | .keyExact => .indexNextSame (keyBuf stray get inIndex)

/-- `index_prev_same`. -/
def indexPrevSame (plan : FindPlan Record) (key : List TdhsString) :
    Execution Outside Record (ℤ × Record) := do
  let found ← indexCall world owner plan.table plan.idxnum .indexPrev
  if found.1 = 0 ∧ world.keyCmpIfSame plan.table plan.idxnum key found.2 = true then
    pure (haErrEndOfFile, found.2)
  else pure found

/-- The read of one round. -/
def fetch (plan : FindPlan Record) (vars : FindVars) : Execution Outside Record (ℤ × Record) :=
  if vars.isFirst then
    indexCall world owner plan.table plan.idxnum (firstCall world.stray plan.get vars.inIndex)
  else if plan.get.findFlag = .deq then
    indexPrevSame world owner plan (keyBuf world.stray plan.get vars.inIndex)
  else indexCall world owner plan.table plan.idxnum (nextCall world.stray plan.get vars.inIndex)

/-- What follows a read that found no row: the next key of an IN, or the end. -/
def nextKey (plan : FindPlan Record) (vars : FindVars) (r : ℤ) : FindVars ⊕ FindExit :=
  if plan.get.findFlag = .inKeys ∧ vars.inIndex + 1 < plan.get.keyNum ∧
      (r = haErrEndOfFile ∨ r = haErrKeyNotFound) then
    if parseIndex plan.info (keyAt stray plan.get (vars.inIndex + 1)) then
      .inl { vars with isFirst := true, inIndex := vars.inIndex + 1, r := r }
    else .inr .keyMismatch
  else .inr (.done r)

variable (handlers : FindHandlers Outside Record)

/-- A row that passed the filters: it is skipped, or handed to the process handler. -/
def visit (plan : FindPlan Record) (vars : FindVars) (record : Record) :
    Execution Outside Record (FindVars ⊕ FindExit) :=
  if 0 < vars.skip then
    pure (.inl { vars with isFirst := false, r := 0, skip := vars.skip - 1 })
  else do
    let processed ← handlers.process plan.table plan.fields record
    if processed.ret ≠ .ok then pure (.inr (.processed processed.ret))
    else if processed.dbRet ≠ 0 ∧ processed.dbRet ≠ haErrRecordDeleted then
      pure (.inr (.done processed.dbRet))
    else pure (.inl { vars with isFirst := false, r := 0, limit := vars.limit - 1 })

/-- One round of the loop of `do_find`. A request without a limit is unlimited; `limit - 1` stays
zero there. -/
def findRound (plan : FindPlan Record) (vars : FindVars) :
    Execution Outside Record (FindVars ⊕ FindExit) :=
  if plan.get.limit ≠ 0 ∧ vars.limit = 0 then pure (.inr (.done vars.r))
  else do
    let killed ← ask world.killed
    if killed then pure (.inr .killed)
    else do
      let found ← fetch world owner plan vars
      if found.1 = haErrRecordDeleted then
        pure (.inl { vars with isFirst := false, r := found.1 })
      else if found.1 ≠ 0 then pure (nextKey world.stray plan vars found.1)
      else if filterRecord found.2 plan.filters plan.filterBuf then
        visit handlers plan vars found.2
      else pure (.inl { vars with isFirst := false, r := 0 })

/-! ### do_find -/

/-- The code `r` of the loop is no error. -/
def isScanEnd (r : ℤ) : Bool :=
  r == 0 || r == haErrRecordDeleted || r == haErrKeyNotFound || r == haErrEndOfFile

/-- A return value of the storage engine as the `uint32_t` of `tdhs_response_error`. -/
def errorNumber (r : ℤ) : ℕ := (r % 2 ^ 32).toNat

/-- What `do_find` does behind its loop. -/
def finishFind : FindExit → Execution Outside Record RetCode
  | .killed => tdhsResponseError world owner clientStatusServiceUnavailable
      ClientErrorCode.killed.code
  | .keyMismatch => tdhsResponseError world owner clientStatusNotFound
      ClientErrorCode.failedToMatchKeyNum.code
  | .processed ret => pure ret
  | .done r =>
    if isScanEnd r then do
      handlers.finish
      pure .ok
    else tdhsResponseError world owner clientStatusDbError (errorNumber r)

/-- The part of `do_find` from the response header on, for an open index and parsed fields and
filters. -/
def findRows (rounds : ℕ) (owner : Owner) (handlers : FindHandlers Outside Record)
    (betweenBuf : Bool) (plan : FindPlan Record) : Execution Outside Record RetCode := do
  tdhsInitResponse owner
  let created ← handlers.create plan.fields
  if created ≠ .ok then
    tdhsResponseError world owner clientStatusServerError ClientErrorCode.notEnoughMemory.code
  else if !parseIndex plan.info (keyAt world.stray plan.get 0) then
    tdhsResponseError world owner clientStatusNotFound ClientErrorCode.failedToMatchKeyNum.code
  else if plan.get.findFlag = .between ∧ betweenBuf = false then
    tdhsResponseError world owner clientStatusServerError ClientErrorCode.notEnoughMemory.code
  else if plan.get.findFlag = .between ∧
      parseIndex plan.info (keyAt world.stray plan.get 1) = false then
    tdhsResponseError world owner clientStatusNotFound ClientErrorCode.failedToMatchKeyNum.code
  else do
    let exit ← Program.loop (findRound world owner handlers plan) rounds
      ⟨true, plan.get.limit, plan.get.start, 0, 0⟩
    finishFind world owner handlers exit

/-- The filters of a request, bound to their fields. -/
def requestFilters (table : Table Record) (filter : TdhsFilter) :
    Option (List (BoundFilter Record)) :=
  parseFilter table (entries filter.entries stray.filter filter.filterNum)

/-- The memory `do_find` asks for: the filter buffer and the two key buffers. The second key buffer
is looked at only for BETWEEN. -/
def findBuffers (filterBufSize keyLength : ℕ) (rest : Bool → Execution Outside Record RetCode) :
    Execution Outside Record RetCode := do
  let filterBuf ← stackLiker world filterBufSize
  if !filterBuf then
    tdhsResponseError world owner clientStatusServerError ClientErrorCode.notEnoughMemory.code
  else do
    let keyBuf ← stackLiker world keyLength
    let betweenBuf ← stackLiker world keyLength
    if !keyBuf then
      tdhsResponseError world owner clientStatusServerError ClientErrorCode.notEnoughMemory.code
    else rest betweenBuf

/-- The part of `do_find` for an open index. -/
def findOpened (rounds : ℕ) (owner : Owner) (request : TdhsRequest)
    (handlers : FindHandlers Outside Record) (table : Table Record) (idxnum : ℕ) :
    Execution Outside Record RetCode :=
  (parseField table
      (entries request.tableInfo.fields world.stray.field request.tableInfo.fieldNum)).elim
    (tdhsResponseError world owner clientStatusNotFound ClientErrorCode.failedToMissingField.code)
    fun fields ↦
  (requestFilters world.stray table request.get.filter).elim
    (tdhsResponseError world owner clientStatusNotFound
      ClientErrorCode.failedToMissingFieldInFilterOrUseBlob.code) fun filters ↦
  let info := table.keyInfo.getD idxnum ⟨[], [], 0⟩
  let size := if filters.length = 0 then 0 else calcFilterBufSize filters
  findBuffers world owner size info.keyLength fun betweenBuf ↦
    findRows world rounds owner handlers betweenBuf
      ⟨table, idxnum, info, fields, filters, fillFilterBuf filters, request.get⟩

/-- The part of `do_find` under the table lock. -/
def doFindLocked (rounds : ℕ) (owner : Owner) (request : TdhsRequest)
    (handlers : FindHandlers Outside Record) (table : Table Record) :
    Execution Outside Record RetCode := do
  let lock ← Program.read Context.lock
  if !lock then
    tdhsResponseError world owner clientStatusServerError ClientErrorCode.failedToLockTable.code
  else
    (tdhsOpenIndex table request.tableInfo.index).elim
      (tdhsResponseError world owner clientStatusNotFound ClientErrorCode.failedToOpenIndex.code)
      fun idxnum ↦ findOpened world rounds owner request handlers table idxnum

end TdhSocket.Execute
