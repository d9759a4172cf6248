import Mathlib.Data.Nat.Digits.Defs
import TdhSocket.Execute.Table
import TdhSocket.Library.Program

/-!
# The state behind a request thread

`tdhs_dbcontext` executes requests against MySQL. Everything that is not decided by its own code is
a call of `World`: the storage engine, the table locks, memory, the clock and the connections. A
world answers from a state of its own, so any order of answers is some world.

`Context` is what the code keeps between two calls, with two logs. `events` is what the storage
engine was made to do: row changes, errors that discard the transaction, and the ends of
statements. What is committed in the end is a function of the events (`replay`). `outcomes` has the
result of every call of `execute`.
-/

set_option autoImplicit false

namespace TdhSocket.Execute

open Protocol Decode Library

/-! ### Codes -/

/-- `EASY_OK`, `EASY_ERROR` and `EASY_ASYNC`. -/
inductive RetCode
  | ok
  | error
  | async
  deriving DecidableEq, Repr

/-- `CLIENT_STATUS_OK`. -/
def clientStatusOk : ℕ := 200

/-- `CLIENT_STATUS_MULTI_STATUS`. -/
def clientStatusMultiStatus : ℕ := 207

/-- `CLIENT_STATUS_NOT_FOUND`. -/
def clientStatusNotFound : ℕ := 404

/-- `CLIENT_STATUS_REQUEST_TIME_OUT`. -/
def clientStatusRequestTimeOut : ℕ := 408

/-- `CLIENT_STATUS_SERVER_ERROR`. -/
def clientStatusServerError : ℕ := 500

/-- `CLIENT_STATUS_DB_ERROR`. -/
def clientStatusDbError : ℕ := 502

/-- `CLIENT_STATUS_SERVICE_UNAVAILABLE`. -/
def clientStatusServiceUnavailable : ℕ := 503

/-- `tdhs_client_error_code_t`, as far as execution uses it. -/
inductive ClientErrorCode
  | failedToOpenTable
  | failedToOpenIndex
  | failedToMissingField
  | failedToMatchKeyNum
  | failedToLockTable
  | notEnoughMemory
  | failedToMissingFieldInFilterOrUseBlob
  | failedToCommit
  | requestTimeOut
  | killed
  deriving DecidableEq, Repr

/-- The number of an error code. -/
def ClientErrorCode.code : ClientErrorCode → ℕ
  | .failedToOpenTable => 1
  | .failedToOpenIndex => 2
  | .failedToMissingField => 3
  | .failedToMatchKeyNum => 4
  | .failedToLockTable => 5
  | .notEnoughMemory => 6
  | .failedToMissingFieldInFilterOrUseBlob => 8
  | .failedToCommit => 9
  | .requestTimeOut => 11
  | .killed => 13

/-- `HA_ERR_KEY_NOT_FOUND`. -/
def haErrKeyNotFound : ℤ := 120

/-- `HA_ERR_RECORD_DELETED`. -/
def haErrRecordDeleted : ℤ := 134

/-- `HA_ERR_END_OF_FILE`. -/
def haErrEndOfFile : ℤ := 137

/-- `HA_ERR_RECORD_IS_THE_SAME`. -/
def haErrRecordIsTheSame : ℤ := 169

/-- `FIELD_STORE_ERROR`. -/
def fieldStoreError : ℤ := 198

/-! ### Calls of the handler -/

/-- `ha_rkey_function`, as far as it is used. -/
inductive HaRkeyFunction
  | keyExact
  | keyOrNext
  | keyOrPrev
  | afterKey
  | beforeKey
  deriving DecidableEq, Repr

/-- The calls that move the cursor of an index. A key is the list of its parts. -/
inductive IndexCall
  | indexReadMap (key : List TdhsString) (flag : HaRkeyFunction)
  | indexReadLastMap (key : List TdhsString)
  | readRangeFirst (startKey endKey : List TdhsString)
  | readRangeNext
  | indexNext
  | indexPrev
  | indexNextSame (key : List TdhsString)
  deriving DecidableEq, Repr

/-- The calls that change a row. -/
inductive RowCall (Record : Type)
  | haUpdateRow (old new : Record)
  | haDeleteRow (record : Record)
  | haWriteRow (record : Record)
  deriving DecidableEq, Repr

/-! ### The log of the storage engine -/

/-- A packet of a list of requests: the number of the request and the position in its chain. -/
structure Owner where
  request : ℕ
  position : ℕ
  deriving DecidableEq, Repr

/-- How a statement ended. -/
inductive Ending
  | committed
  | commitFailed
  | rolledBack
  deriving DecidableEq, Repr

/-- What the storage engine was made to do: a row was changed, an error discarded the changes of the
transaction, or a statement ended, that of one request or that of the whole list. -/
inductive Event (Record : Type)
  | changed (owner : Owner) (call : RowCall Record)
  | discarded (owner : Owner)
  | ended (request : Option ℕ) (ending : Ending)
  deriving DecidableEq, Repr

/-- A row change with the packet it was made for. -/
structure Change (Record : Type) where
  owner : Owner
  call : RowCall Record
  deriving DecidableEq, Repr

/-- The changes that are committed and those that are not yet. -/
structure Store (Record : Type) where
  committed : List (Change Record)
  pending : List (Change Record)
  deriving DecidableEq, Repr

variable {Record : Type}

/-- The effect of an event on the store. -/
def Store.apply (store : Store Record) : Event Record → Store Record
  | .changed owner call => { store with pending := store.pending ++ [⟨owner, call⟩] }
  | .discarded _ => { store with pending := [] }
  | .ended _ .committed => ⟨store.committed ++ store.pending, []⟩
  | .ended _ .commitFailed => { store with pending := [] }
  | .ended _ .rolledBack => { store with pending := [] }

/-- The store that a log leaves. -/
def replay (events : List (Event Record)) : Store Record := events.foldl Store.apply ⟨[], []⟩

/-! ### The world -/

/-- What `open_table` leaves in `opened_table`: no memory for the node, no table, or a table at an
address. -/
inductive OpenedTable (Record : Type)
  | noMemory
  | notOpened
  | opened (address : ℕ) (table : Table Record)

/-- Everything outside the code. `keyCmpIfSame` is true when the record and the key differ, as the
function returns it. `discards` tells the error codes with which the storage engine gives up the
whole transaction. -/
structure World (Outside Record : Type) where
  stray : Stray
  discards : ℤ → Bool
  malloc : ℕ → Outside → Bool × Outside
  easyBufCreate : ℕ → Outside → Bool × Outside
  killed : Outside → Bool × Outside
  now : Outside → ℕ × Outside
  connectionClosed : ℕ → Outside → Bool × Outside
  timedOut : ℕ → Outside → Bool × Outside
  openTable : TdhsRequestTable → Outside → OpenedTable Record × Outside
  lockTables : List ℕ → Outside → Bool × Outside
  transCommitStmt : Outside → Bool × Outside
  index : Table Record → ℕ → IndexCall → Outside → (ℤ × Record) × Outside
  keyCmpIfSame : Table Record → ℕ → List TdhsString → Record → Bool
  row : Table Record → RowCall Record → Outside → ℤ × Outside
  insertId : Outside → ℕ × Outside
  writeData : List UInt8 → Outside → Bool × Outside
  writeBuffSize : ℕ

/-! ### The context -/

/-- The response side of a packet. `data` is what was handed to `write_data_to_response`. -/
structure Response where
  code : ℕ
  length : ℕ
  wbuff : List UInt8
  data : List (List UInt8)
  deriving DecidableEq, Repr

/-- How a call of `execute` ended: its return value and the status of the packet. -/
structure Outcome where
  owner : Owner
  ret : RetCode
  code : ℕ
  deriving DecidableEq, Repr

/-- `tdhs_dbcontext` with the row counters of `tdhs_table_t`, the packets and the two logs.
`started` has the packets `execute` was called on. -/
structure Context (Outside Record : Type) where
  outside : Outside
  lock : Bool
  writeError : Bool
  inBatch : Bool
  retcode : RetCode
  updateRowNum : ℕ
  changeRowNum : ℕ
  response : Owner → Response
  events : List (Event Record)
  started : List Owner
  outcomes : List Outcome

variable {Outside : Type}

/-- A program of a request thread. -/
abbrev Execution (Outside Record Value : Type) : Type := Program (Context Outside Record) Value

/-- A call of the world. -/
def ask {Value : Type} (call : Outside → Value × Outside) : Execution Outside Record Value :=
  fun context ↦ some ((call context.outside).1,
    { context with outside := (call context.outside).2 })

/-- An entry of the log of the storage engine. -/
def emit (event : Event Record) : Execution Outside Record Unit :=
  Program.modify fun context ↦ { context with events := context.events ++ [event] }

/-- A change of the response side of a packet. -/
def setResponse (owner : Owner) (change : Response → Response) : Execution Outside Record Unit :=
  Program.modify fun context ↦
    { context with
      response := Function.update context.response owner (change (context.response owner)) }

variable (world : World Outside Record) (owner : Owner)

/-- An answer of the storage engine that may be an error that discards the transaction. -/
def noteDiscard (code : ℤ) : Execution Outside Record Unit :=
  if world.discards code then emit (.discarded owner) else pure ()

/-- A call that moves the cursor of an index. -/
def indexCall (table : Table Record) (idxnum : ℕ) (call : IndexCall) :
    Execution Outside Record (ℤ × Record) := do
  let found ← ask (world.index table idxnum call)
  noteDiscard world owner found.1
  pure found

/-- The log entry for the answer to a call that changes a row. -/
def noteRow (call : RowCall Record) (code : ℤ) : Execution Outside Record Unit :=
  if code = 0 then emit (.changed owner call) else noteDiscard world owner code

/-- A call that changes a row. -/
def rowCall (table : Table Record) (call : RowCall Record) : Execution Outside Record ℤ := do
  let code ← ask (world.row table call)
  noteRow world owner call code
  pure code

/-- `CACHE_MEMORY_SIZE`. -/
def cacheMemorySize : ℕ := 512

/-- `stack_liker` has memory. -/
def stackLiker (size : ℕ) : Execution Outside Record Bool :=
  if size ≤ cacheMemorySize then pure true else ask (world.malloc size)

/-! ### Responses -/

/-- `tdhs_response_error`. The status is set before the buffer is asked for. -/
def tdhsResponseError (status code : ℕ) : Execution Outside Record RetCode := do
  setResponse owner fun response ↦ { response with code := status, length := 4 }
  let created ← ask (world.easyBufCreate (4 + tdhSocketHeaderLength))
  if created then do
    setResponse owner fun response ↦ { response with wbuff := BigEndian.toBytes code, data := [] }
    pure .ok
  else pure .error

/-- `tdhs_response_batch`. -/
def tdhsResponseBatch : Execution Outside Record RetCode := do
  setResponse owner fun response ↦ { response with code := clientStatusMultiStatus, length := 0 }
  let created ← ask (world.easyBufCreate tdhSocketHeaderLength)
  if created then do
    setResponse owner fun response ↦ { response with wbuff := [], data := [] }
    pure .ok
  else pure .error

/-- `tdhs_init_response`. -/
def tdhsInitResponse : Execution Outside Record Unit :=
  setResponse owner fun response ↦ { response with code := clientStatusOk, length := 0 }

/-- A response header: a fresh buffer with the number of columns and their types. -/
def writeHeader (types : List UInt8) (allocSize : ℕ) : Execution Outside Record RetCode := do
  let created ← ask (world.easyBufCreate (allocSize + tdhSocketHeaderLength))
  if created then do
    setResponse owner fun response ↦
      { response with
        wbuff := BigEndian.toBytes types.length ++ types
        data := []
        length := response.length + (4 + types.length) }
    pure .ok
  else pure .error

/-- `write_data_header_to_response`. -/
def writeDataHeaderToResponse (fieldTypes : List UInt8) : Execution Outside Record RetCode :=
  writeHeader world owner fieldTypes (max (4 + fieldTypes.length) world.writeBuffSize)

/-- `MYSQL_TYPE_LONG`. -/
def mysqlTypeLong : UInt8 := 3

/-- `write_update_header_to_response`. -/
def writeUpdateHeaderToResponse (type : UInt8) (fieldSize num : ℕ) :
    Execution Outside Record RetCode :=
  writeHeader world owner (List.replicate num type) (4 + num + (4 + fieldSize) * num)

/-- The decimal digits of a number. -/
def decimal (number : ℕ) : List UInt8 :=
  if number = 0 then [48]
  else (Nat.digits 10 number).reverse.map fun digit ↦ UInt8.ofNat (48 + digit)

/-- The text `%d` prints for a `uint32_t`. -/
def printInt (number : ℕ) : List UInt8 :=
  if number < 2 ^ 31 then decimal number else 45 :: decimal (2 ^ 32 - number)

/-- What is copied of a `char value[11]` after `snprintf(value, 11, …)`: its return value is the
length of the whole text, of which ten characters and a zero are in the buffer. -/
def printedValue (text : List UInt8) : List UInt8 := (text.take 10 ++ [0]).take text.length

/-- A text with its length in front, behind what the response has. -/
def appendValue (text : List UInt8) : Execution Outside Record Unit :=
  setResponse owner fun response ↦
    { response with
      wbuff := response.wbuff ++ (BigEndian.toBytes text.length ++ text)
      length := response.length + (4 + text.length) }

/-- `write_update_ender_to_response`. -/
def writeUpdateEnderToResponse (updateRowNum changeRowNum : ℕ) : Execution Outside Record Unit := do
  appendValue owner (printedValue (printInt updateRowNum))
  appendValue owner (printedValue (printInt changeRowNum))

/-- `write_count_ender_to_response`. -/
def writeCountEnderToResponse (count : ℕ) : Execution Outside Record Unit :=
  appendValue owner (printedValue (printInt count))

/-- `write_insert_ender_to_response`. -/
def writeInsertEnderToResponse (key : ℕ) : Execution Outside Record Unit :=
  appendValue owner (decimal key)

end TdhSocket.Execute
