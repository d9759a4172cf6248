import TdhSocket.Connection.ReadPath
import TdhSocket.Decode.Context
import TdhSocket.Dispatch.Balance

/-!
# Processing a frame in the IO thread

`on_server_io_process` in `tdh_socket_handler.cpp`. The first frame of a connection has to be the
handshake. Every later one is decoded, classified by `optimize`, checked against the permissions of
the connection and pushed to a thread of one of the three pools, or it is answered with an error.

`EASY_ERROR` makes the event loop destroy the connection, `EASY_OK` means that the error answer in
the packet is to be sent, `EASY_AGAIN` that a request thread has the request or, behind the
handshake, that there is nothing to send.
-/

set_option autoImplicit false

namespace TdhSocket.Dispatch

open Connection Decode Protocol

/-! ### The server -/

/-- What the IO thread sees of a thread pool. The number of stream chunks a thread is sending is
missing while the thread is being initialised. -/
structure PoolView where
  threadCount : ℕ
  useStreamCount : ℕ → Option ℕ
  taskListCount : ℕ → ℕ
  taskCountLimit : ℕ

/-- What `on_server_io_process` depends on besides the connection and the frame: the authentication
settings, what the choices of pool and thread depend on, the view of the three pools, the address of
the connection, and the memory. -/
structure Server where
  authOn : Bool
  authReadCode : Option (List UInt8)
  authWriteCode : Option (List UInt8)
  balance : BalanceSettings
  optimizeOn : Bool
  hasFilters : Bool
  filterCheck : TdhsRequest → Bool
  slowReadLimit : Bool
  poolOf : OptimizeType → PoolView
  connection : UInt64
  memoryOk : Bool
  pool : EasyPool
  stray : ℕ → ℕ

/-- `MAX_AUTH_CODE_LENGTH`. -/
def maxAuthCodeLength : ℕ := 256

/-- What `reset_auth_read_code` and `reset_auth_write_code` keep of a code: its C string, cut to the
length of the array, or the empty string when there is none. -/
def resetAuthCode (code : Option (List UInt8)) : TdhsString :=
  code.elim [] fun bytes ↦ (bytes.takeWhile (· ≠ 0)).take (maxAuthCodeLength - 1) ++ [0]

/-- `tdhs_auth_read`. -/
def tdhsAuthRead (server : Server) (code : TdhsString) : Bool :=
  code == resetAuthCode server.authReadCode

/-- `tdhs_auth_write`. -/
def tdhsAuthWrite (server : Server) (code : TdhsString) : Bool :=
  code == resetAuthCode server.authWriteCode

/-- `CLIENT_STATUS_BAD_REQUEST`. -/
def clientStatusBadRequest : ℕ := 400

/-- `CLIENT_STATUS_FORBIDDEN`. -/
def clientStatusForbidden : ℕ := 403

/-- `CLIENT_STATUS_SERVER_ERROR`. -/
def clientStatusServerError : ℕ := 500

/-- `CLIENT_STATUS_SERVICE_UNAVAILABLE`. -/
def clientStatusServiceUnavailable : ℕ := 503

/-- `CLIENT_ERROR_CODE_NOT_ENOUGH_MEMORY`. -/
def notEnoughMemory : ℕ := 6

/-- `CLIENT_ERROR_CODE_DECODE_REQUEST_FAILED`. -/
def decodeRequestFailed : ℕ := 7

/-- `CLIENT_ERROR_CODE_UNAUTHENTICATION`. -/
def unauthentication : ℕ := 12

/-- `CLIENT_ERROR_CODE_THROTTLED`. -/
def throttled : ℕ := 14

/-- An error answer. -/
structure ErrorAnswer where
  status : ℕ
  code : ℕ
  deriving DecidableEq, Repr

/-- A request in the task list of a thread: the pool, the thread, and the packet chain with the
requests decoded from it. -/
structure Push where
  type : OptimizeType
  thread : ℕ
  requests : List TdhsRequest
  deriving DecidableEq, Repr

/-- What `on_server_io_process` leaves. -/
structure Processed where
  ret : ProcessRet
  context : ConnectionContext
  counters : Counters
  answer : Option ErrorAnswer
  pushed : Option Push

/-! ### The pool -/

/-- The choice of `optimize` under the second strategy: the two pools in turn. -/
def optimizeInTurn (settings : BalanceSettings) (counters : Counters) : OptimizeType × Counters :=
  let hash := easyHashKey counters.pollKey
  (if hash % (settings.threadNum + settings.activeSlowReadThreadNum) ≤ settings.threadNum
    then .quick else .slow, { counters with pollKey := counters.pollKey + 1 })

section

variable (server : Server)

/-- The choice of `optimize` for GET and COUNT. -/
def optimizeRead (counters : Counters) (request : TdhsRequest) : OptimizeType × Counters :=
  match server.balance.threadStrategy with
  | .lv1 => (.quick, counters)
  | .lv2 => optimizeInTurn server.balance counters
  | .lv3 =>
    if server.optimizeOn ∧ server.hasFilters then
      (if server.filterCheck request then .quick else .slow, counters)
    else optimizeInTurn server.balance counters

/-- `optimize`. -/
def optimize (counters : Counters) (request : TdhsRequest) : OptimizeType × Counters :=
  match request.type with
  | .get => optimizeRead server counters request
  | .count => optimizeRead server counters request
  | _ => (.write, counters)

variable (context : ConnectionContext)

/-- `can_read`. -/
def canRead : Bool :=
  !server.authOn || context.canRead

/-- `can_write`. -/
def canWrite : Bool :=
  !server.authOn || context.canWrite

/-- The check of the permissions for the pool of a request. -/
def isPermitted (type : OptimizeType) : Bool :=
  if type = .write then canWrite server context else canRead server context

/-! ### The thread -/

/-- `MAX_STREAM_COUNT_FOR_IGNORE`. -/
def maxStreamCountForIgnore : ℕ := 2

/-- `need_redispatch`: the next thread, when that of the hash is busy with streams. -/
def needRedispatch (view : PoolView) (connection hv : UInt64) : UInt64 :=
  let chosen := if hv = 0 then easyHashKey connection else hv
  if (view.useStreamCount (chosen.toNat % view.threadCount)).any (maxStreamCountForIgnore < ·) then
    chosen + 1
  else chosen

/-- `easy_thread_pool_push_for_limited`: the thread, if its list has room. -/
def pushForLimited (view : PoolView) (connection hv : UInt64) : Option ℕ :=
  let thread := threadOf view.threadCount connection hv
  if 0 < view.taskCountLimit ∧ view.taskCountLimit < view.taskListCount thread then none
  else some thread

/-! ### `on_server_io_process` -/

variable (counters : Counters)

/-- `tdhs_response_error_global` in the packet of the request. -/
def responseError (status code : ℕ) : Processed :=
  if server.memoryOk then ⟨.ok, context, counters, some ⟨status, code⟩, none⟩
  else ⟨.error, context, counters, none, none⟩

/-- A request is pushed under a hash, or throttled. -/
def pushRequest (type : OptimizeType) (hv : UInt64) (requests : List TdhsRequest) : Processed :=
  match pushForLimited (server.poolOf type) server.connection hv with
  | none => responseError server context counters clientStatusServiceUnavailable throttled
  | some thread => ⟨.again, context, counters, none, some ⟨type, thread, requests⟩⟩

/-- The hash of a request for its pool: that of the packet behind the first one, if there is one,
for writes, and that of the first packet for reads. -/
def hashFor (type : OptimizeType) (first : TdhsRequest) (others : List TdhsRequest) (reserved : ℕ) :
    UInt64 × Counters :=
  if type = .write then
    tableNeedBalance server.balance counters (others.headD first) type (UInt64.ofNat reserved)
  else
    let hash := tableNeedBalance server.balance counters first type (UInt64.ofNat reserved)
    (needRedispatch (server.poolOf type) server.connection hash.1, hash.2)

/-- `on_server_io_process` behind the decoders. -/
def dispatch (first : TdhsRequest) (others : List TdhsRequest) (reserved : ℕ) : Processed :=
  let chosen := optimize server counters first
  if isPermitted server context chosen.1 = false then
    responseError server context chosen.2 clientStatusForbidden unauthentication
  else if chosen.1 = .slow ∧ server.balance.threadStrategy = .lv3 ∧ server.optimizeOn ∧
      server.slowReadLimit then
    responseError server context chosen.2 clientStatusServiceUnavailable throttled
  else
    let hash := hashFor server chosen.2 chosen.1 first others reserved
    pushRequest server context hash.2 chosen.1 hash.1 (first :: others)

/-- The request of the packet at a position of the chain. -/
def requestAt (calls : List Call) (position : ℕ) : Option TdhsRequest :=
  (calls.find? fun call ↦ call.position == position).bind (·.request)

/-- The requests of the packets behind the first one, in order. -/
def otherRequests (calls : List Call) (chain : PacketChain) : List TdhsRequest :=
  (List.range chain.next.length).filterMap fun i ↦ requestAt calls (i + 1)

/-- The answer to a chain that was not decoded. -/
def decodeFailure : ReturnCode → Processed
  | .errorOutOfIn =>
    responseError server context counters clientStatusServerError notEnoughMemory
  | .easyError =>
    responseError server context counters clientStatusBadRequest decodeRequestFailed

/-- `on_server_io_process` behind the handshake. A connection that is shaken has a decoder, and a
chain that was decoded has a first request. -/
def decodeAndDispatch (chain : PacketChain) : Processed :=
  match context.decodeRequest with
  | none => ⟨.error, context, counters, none, none⟩
  | some version =>
    let decoded := decodeRequest ⟨version, server.pool, server.stray⟩ chain
    match decoded.ret, requestAt decoded.calls 0 with
    | some code, _ => decodeFailure server context counters code
    | none, none => ⟨.error, context, counters, none, none⟩
    | none, some first =>
      dispatch server context counters first (otherRequests decoded.calls chain)
        chain.packet.reserved

/-- `on_server_io_process` for a new frame. -/
def onServerIoProcess (chain : PacketChain) : Processed :=
  let shaken := shakeHandsIf (tdhsAuthRead server) (tdhsAuthWrite server) context chain.packet
  match shaken.ret with
  | .error => ⟨.error, shaken.context, counters, none, none⟩
  | .again => ⟨.again, shaken.context, counters, none, none⟩
  | .ok => decodeAndDispatch server shaken.context counters chain

/-! ### What is pushed -/

theorem pushed_responseError (status code : ℕ) :
    (responseError server context counters status code).pushed = none ∧
      (responseError server context counters status code).context = context := by
  unfold responseError
  split_ifs
  · exact ⟨rfl, rfl⟩
  · exact ⟨rfl, rfl⟩

end

theorem thread_of_pushForLimited {view : PoolView} {connection hv : UInt64} {thread : ℕ}
    (hpushed : pushForLimited view connection hv = some thread) :
    thread = threadOf view.threadCount connection hv := by
  unfold pushForLimited at hpushed
  dsimp only at hpushed
  split_ifs at hpushed
  exact (Option.some.inj hpushed).symm

variable {server : Server} {context : ConnectionContext} {counters : Counters} {push : Push}

/-- A pushed request was permitted, and is on the thread of its hash. -/
theorem of_dispatch_pushed {first : TdhsRequest} {others : List TdhsRequest} {reserved : ℕ}
    (hpushed : (dispatch server context counters first others reserved).pushed = some push) :
    isPermitted server context push.type = true ∧
      push.type = (optimize server counters first).1 ∧
      push.thread = threadOf (server.poolOf push.type).threadCount server.connection
        (hashFor server (optimize server counters first).2 push.type first others reserved).1 ∧
      push.requests = first :: others := by
  unfold dispatch at hpushed
  dsimp only at hpushed
  split_ifs at hpushed with hforbidden hslow
  · rw [(pushed_responseError _ _ _ _ _).1] at hpushed
    cases hpushed
  · rw [(pushed_responseError _ _ _ _ _).1] at hpushed
    cases hpushed
  · unfold pushRequest at hpushed
    split at hpushed
    · rw [(pushed_responseError _ _ _ _ _).1] at hpushed
      cases hpushed
    · next thread hthread =>
      cases hpushed
      exact ⟨Bool.not_eq_false _ ▸ hforbidden, rfl, thread_of_pushForLimited hthread, rfl⟩

theorem context_dispatch (server : Server) (context : ConnectionContext) (counters : Counters)
    (first : TdhsRequest) (others : List TdhsRequest) (reserved : ℕ) :
    (dispatch server context counters first others reserved).context = context := by
  unfold dispatch
  dsimp only
  split_ifs
  · exact (pushed_responseError _ _ _ _ _).2
  · exact (pushed_responseError _ _ _ _ _).2
  · unfold pushRequest
    split
    · exact (pushed_responseError _ _ _ _ _).2
    · rfl

theorem decodeFailure_pushed (server : Server) (context : ConnectionContext) (counters : Counters)
    (code : ReturnCode) :
    (decodeFailure server context counters code).pushed = none ∧
      (decodeFailure server context counters code).context = context := by
  cases code with
  | errorOutOfIn => exact pushed_responseError _ _ _ _ _
  | easyError => exact pushed_responseError _ _ _ _ _

/-- A request that is pushed behind the handshake was decoded by the decoder of the connection. -/
theorem of_decodeAndDispatch_pushed {chain : PacketChain}
    (hpushed : (decodeAndDispatch server context counters chain).pushed = some push) :
    ∃ version first, context.decodeRequest = some version ∧
      (decodeRequest ⟨version, server.pool, server.stray⟩ chain).ret = none ∧
      requestAt (decodeRequest ⟨version, server.pool, server.stray⟩ chain).calls 0 = some first ∧
      (dispatch server context counters first
        (otherRequests (decodeRequest ⟨version, server.pool, server.stray⟩ chain).calls chain)
        chain.packet.reserved).pushed = some push := by
  unfold decodeAndDispatch at hpushed
  split at hpushed
  · cases hpushed
  · next version hversion =>
    dsimp only at hpushed
    split at hpushed
    · rw [(decodeFailure_pushed _ _ _ _).1] at hpushed
      cases hpushed
    · cases hpushed
    · next first hret hfirst => exact ⟨version, first, hversion, hret, hfirst, hpushed⟩

theorem context_decodeAndDispatch (server : Server) (context : ConnectionContext)
    (counters : Counters) (chain : PacketChain) :
    (decodeAndDispatch server context counters chain).context = context := by
  unfold decodeAndDispatch
  split
  · rfl
  · dsimp only
    split
    · exact (decodeFailure_pushed _ _ _ _).2
    · rfl
    · exact context_dispatch _ _ _ _ _ _

end TdhSocket.Dispatch
