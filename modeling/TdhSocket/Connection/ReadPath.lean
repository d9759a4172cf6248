import TdhSocket.Protocol.Packet

/-!
# The read path of a server connection

`easy_connection.c` and `easy_message.c`. A read event runs `easy_connection_on_readable`: the
bytes go into the last message of the connection when that message is waiting for more
(`EASY_MESG_READ_AGAIN`), else into a new one; `easy_connection_do_request` decodes as many frames
as the buffer holds, lets `easy_connection_recycle_message` replace a message that was used for
sixteen reads and still holds bytes, and then calls `handler->process` on every request in the
message's request list. Between two reads the answers of the request threads come back
(`easy_connection_send_response`) and messages without outstanding requests go away.

The state keeps what these functions read and write: the message list with, for each message, its
status, its buffered bytes and the space behind them, `next_read_len`, `recycle_cnt`, the request
list and the counter of unanswered requests. Two members observe the run: `processed` lists the
packet chains handed to `handler->process`, and `intact` says that everything so far was stored
inside the memory allocated for it: the packets of a frame in their block, the bytes that move to a
new message in its buffer.
-/

set_option autoImplicit false

namespace TdhSocket.Connection

open Protocol

/-! ### Messages -/

/-- The values of `m->status` in an open connection: zero and `EASY_MESG_READ_AGAIN`. -/
inductive MessageStatus
  | idle
  | readAgain
  deriving DecidableEq, Repr

/-- `easy_message_t`. `input` is the data between `pos` and `last`, `space` what is left between
`last` and `end`. -/
structure EasyMessage where
  status : MessageStatus
  recycleCnt : ℕ
  input : List UInt8
  space : ℤ
  nextReadLen : ℕ
  poolMax : ℕ
  requestList : List PacketChain
  requestListCount : ℕ
  deriving DecidableEq, Repr

/-- `easy_connection_t`, with the two observations of the run. -/
structure EasyConnection where
  defaultMessageLen : ℕ
  messageList : List EasyMessage
  doingRequestCount : ℕ
  processed : List PacketChain
  intact : Bool
  deriving DecidableEq, Repr

/-- `easy_connection_new`: everything is zero and the message list is empty. -/
def easyConnectionNew : EasyConnection := ⟨0, [], 0, [], true⟩

/-- `sizeof(easy_pool_t)`. -/
def sizeofEasyPool : ℕ := 64

/-- `sizeof(easy_message_t)`. -/
def sizeofEasyMessage : ℕ := 96

/-- `sizeof(easy_buf_t)`. -/
def sizeofEasyBuf : ℕ := 64

/-- `EASY_IO_BUFFER_SIZE`. -/
def easyIoBufferSize : ℕ := 8192 - sizeofEasyPool

/-- `EASY_CONN_DOING_REQ_CNT`. -/
def easyConnDoingReqCnt : ℕ := 1024

/-- `EASY_IOTH_DOING_REQ_CNT`. -/
def easyIothDoingReqCnt : ℕ := 8192

/-- The number of reads after which `easy_connection_recycle_message` replaces a message. -/
def recycleLimit : ℕ := 16

/-- `size` in `easy_message_create`: what the pool leaves behind the message and the buffer
header. -/
def messageBufferSize (defaultMessageLen : ℕ) : ℕ :=
  let left : ℤ := easyAlign (defaultMessageLen + sizeofEasyPool) easyPoolAlignment -
    sizeofEasyPool - sizeofEasyMessage - sizeofEasyBuf
  if left < 0 then easyPoolAlignment else left.toNat

/-- `easy_message_create` for a connection whose `default_message_len` is the argument. -/
def easyMessageCreate (defaultMessageLen : ℕ) : EasyMessage where
  status := .idle
  recycleCnt := 0
  input := []
  space := messageBufferSize defaultMessageLen
  nextReadLen := messageBufferSize defaultMessageLen
  poolMax := easyAlign (defaultMessageLen + sizeofEasyPool) easyPoolAlignment - sizeofEasyPool
  requestList := []
  requestListCount := 0

/-! ### Events and outcomes -/

/-- What `handler->process` returns. -/
inductive ProcessRet
  | ok
  | again
  | error
  deriving DecidableEq, Repr

/-- What a read event depends on besides the connection: the `doing_request_count` of the IO thread,
whether the allocations succeed, the return values of the calls of `handler->process`, and whether
the socket takes the answers written meanwhile. -/
structure ReadEnv where
  iothDoing : ℕ
  memoryOk : Bool
  ret : ℕ → ProcessRet
  writeOk : Bool

/-- One thing that happens to a connection: `read()` returned a chunk of bytes, or a request of the
message at a position was answered. -/
inductive Event
  | read (chunk : List UInt8) (env : ReadEnv)
  | response (position : ℕ)

/-- Why a connection is destroyed: too many requests in progress, an allocation that failed, bytes
that `tdhs_decode` rejects, `EASY_ERROR` from `handler->process`, or `EASY_ABORT` from
`easy_connection_write_socket`. -/
inductive Closed
  | limit
  | memory
  | decode
  | process
  | write
  deriving DecidableEq, Repr

/-! ### `easy_connection_do_request` -/

/-- The message of the decode loop, the number of requests it added and whether all packets were
stored inside their blocks. -/
structure DecodeLoop where
  message : EasyMessage
  count : ℕ
  intact : Bool
  deriving DecidableEq, Repr

/-- The pool of a message, with allocations that succeed or fail. -/
def messagePool (message : EasyMessage) (memoryOk : Bool) : EasyPool where
  max := message.poolMax
  blockOk := fun _ ↦ memoryOk
  reallocOk := fun _ ↦ memoryOk

/-- Every packet `tdhs_decode` wrote lies inside the block it obtained. -/
def packetsFit (outcome : DecodeOutcome) : Bool :=
  match outcome.block with
  | some (some room) => decide (sizeofTdhsPacket * outcome.written ≤ room)
  | _ => true

/-- The decode loop of `easy_connection_do_request`, for at most `fuel` frames. -/
def decodeLoop (memoryOk : Bool) : ℕ → DecodeLoop → Except Closed DecodeLoop
  | 0, state => .ok state
  | fuel + 1, state =>
    if state.message.input = [] then .ok state
    else
      let outcome := tdhsDecode (messagePool state.message memoryOk) state.message.input
      match outcome.answer with
      | .again none => .ok state
      | .again (some nextReadLen) =>
        .ok { state with message := { state.message with nextReadLen := nextReadLen } }
      | .error => .error (if outcome.block = some none then .memory else .decode)
      | .packet chain rest =>
        decodeLoop memoryOk fuel
          { message := { state.message with
              input := rest
              requestList := state.message.requestList ++ [chain] }
            count := state.count + 1
            intact := state.intact && packetsFit outcome }

/-- What `easy_connection_recycle_message` leaves: the messages in front, the message to go on with
and whether the leftover bytes it copied fit the buffer of that message. -/
structure Recycled where
  older : List EasyMessage
  message : EasyMessage
  copyFits : Bool
  deriving DecidableEq, Repr

/-- `easy_connection_recycle_message`. The leftover bytes move to the new message, the request list
stays with the old one. -/
def easyConnectionRecycleMessage (memoryOk : Bool) (defaultMessageLen : ℕ)
    (older : List EasyMessage) (message : EasyMessage) : Except Closed Recycled :=
  if message.recycleCnt < recycleLimit ∨ message.input = [] then .ok ⟨older, message, true⟩
  else if memoryOk = false then .error .memory
  else
    let newMessage := easyMessageCreate (defaultMessageLen + message.input.length)
    .ok {
      older := if message.requestListCount = 0 then older
        else older ++ [{ message with status := .idle }]
      message := { newMessage with
        input := message.input
        space := newMessage.space - message.input.length }
      copyFits := decide ((message.input.length : ℤ) ≤ newMessage.space) }

/-- What the process loop has done so far: the requests it handed to `handler->process`, and how
many of them were answered at once. -/
structure ProcessLoop where
  handed : List PacketChain
  finished : ℕ
  deriving DecidableEq, Repr

/-- The process loop of `easy_connection_do_request`. Each round takes the first request out of the
list and calls `handler->process` with it. -/
def processLoop (ret : ℕ → ProcessRet) : List PacketChain → ProcessLoop → Except Closed ProcessLoop
  | [], state => .ok state
  | request :: requests, state =>
    match ret state.handed.length with
    | .error => .error .process
    | .ok => processLoop ret requests ⟨state.handed ++ [request], state.finished + 1⟩
    | .again => processLoop ret requests ⟨state.handed ++ [request], state.finished⟩

/-- The message and the counters after the decode loop. -/
def countRequests (loop : DecodeLoop) : EasyMessage :=
  { loop.message with
    requestListCount := loop.message.requestListCount + loop.count
    recycleCnt := if loop.count = 0 then loop.message.recycleCnt
      else loop.message.recycleCnt + 1 }

/-- The end of `easy_connection_do_request`: the requests in the list of the message are handed to
`handler->process`, the answers that are ready are written, and a message without unanswered
requests that waits for no bytes is destroyed. -/
def processRequests (env : ReadEnv) (conn : EasyConnection) (older : List EasyMessage)
    (message : EasyMessage) : Except Closed EasyConnection :=
  match processLoop env.ret message.requestList ⟨[], 0⟩ with
  | .error reason => .error reason
  | .ok loop =>
    if env.writeOk = false then .error .write
    else
      let left := message.requestListCount - loop.finished
      .ok { conn with
        messageList := if left = 0 ∧ message.status ≠ .readAgain then older
          else older ++ [{ message with requestList := [], requestListCount := left }]
        doingRequestCount := conn.doingRequestCount - loop.finished
        processed := conn.processed ++ loop.handed }

/-- `easy_connection_do_request` behind its decode loop. -/
def recycleAndProcess (env : ReadEnv) (conn : EasyConnection) (older : List EasyMessage)
    (loop : DecodeLoop) : Except Closed EasyConnection :=
  match easyConnectionRecycleMessage env.memoryOk conn.defaultMessageLen older
      (countRequests loop) with
  | .error reason => .error reason
  | .ok recycled =>
    processRequests env
      { conn with
        doingRequestCount := conn.doingRequestCount + loop.count
        intact := loop.intact && recycled.copyFits }
      recycled.older
      { recycled.message with
        status := if recycled.message.input = [] then .idle else .readAgain }

/-- `easy_connection_do_request` on a message of the connection, whose other messages are
`older`. -/
def easyConnectionDoRequest (env : ReadEnv) (conn : EasyConnection) (older : List EasyMessage)
    (message : EasyMessage) : Except Closed EasyConnection :=
  match decodeLoop env.memoryOk (message.input.length + 1) ⟨message, 0, conn.intact⟩ with
  | .error reason => .error reason
  | .ok loop => recycleAndProcess env conn older loop

/-! ### `easy_connection_on_readable` -/

/-- The last message of the connection, if it waits for more bytes. -/
def pendingMessage (conn : EasyConnection) : Option EasyMessage :=
  conn.messageList.getLast?.filter fun message ↦ message.status = .readAgain

/-- The message `easy_connection_on_readable` reads into. -/
def readMessage (conn : EasyConnection) : EasyMessage :=
  (pendingMessage conn).getD (easyMessageCreate conn.defaultMessageLen)

/-- The messages in front of the one `easy_connection_on_readable` reads into. -/
def olderMessages (conn : EasyConnection) : List EasyMessage :=
  if (pendingMessage conn).isSome then conn.messageList.dropLast else conn.messageList

/-- The buffer is long enough for `next_read_len` more bytes. -/
def hasReadSpace (message : EasyMessage) : Bool :=
  decide ((message.nextReadLen : ℤ) ≤ message.space)

/-- `easy_buf_check_read_space`: a buffer too short for the next read is copied into a block of
whole pages. -/
def easyBufCheckReadSpace (message : EasyMessage) : EasyMessage :=
  if hasReadSpace message then message
  else
    { message with
      space := easyAlign (message.nextReadLen + message.input.length) easyPoolPageSize -
        message.input.length }

/-- The `default_message_len` after a read of `count` bytes. -/
def nextDefaultMessageLen (conn : EasyConnection) (count : ℕ) : ℕ :=
  if conn.defaultMessageLen < easyIoBufferSize ∧ (readMessage conn).nextReadLen = count then
    easyIoBufferSize
  else conn.defaultMessageLen

/-- `easy_connection_on_readable` on a server connection, for the bytes `read()` returned. Memory is
needed for a new message and for a longer buffer. -/
def easyConnectionOnReadable (conn : EasyConnection) (chunk : List UInt8) (env : ReadEnv) :
    Except Closed EasyConnection :=
  if conn.doingRequestCount > easyConnDoingReqCnt ∨ env.iothDoing > easyIothDoingReqCnt then
    .error .limit
  else if env.memoryOk = false ∧
      ((pendingMessage conn).isNone ∨ hasReadSpace (readMessage conn) = false) then
    .error .memory
  else
    let message := easyBufCheckReadSpace (readMessage conn)
    easyConnectionDoRequest env
      { conn with defaultMessageLen := nextDefaultMessageLen conn chunk.length }
      (olderMessages conn)
      { message with
        input := message.input ++ chunk
        space := message.space - chunk.length }

/-- `easy_connection_send_response` for one answered request of the message at a position: the
counters go down, and a message without unanswered requests that waits for no bytes is destroyed.
A request still in a request list was never handed out, so no answer to it comes back. -/
def easyConnectionSendResponse (conn : EasyConnection) (position : ℕ) : EasyConnection :=
  match conn.messageList[position]? with
  | none => conn
  | some message =>
    if message.requestListCount ≤ message.requestList.length then conn
    else
      let left := message.requestListCount - 1
      { conn with
        messageList :=
          if left = 0 ∧ message.status ≠ .readAgain then conn.messageList.eraseIdx position
          else conn.messageList.set position { message with requestListCount := left }
        doingRequestCount := conn.doingRequestCount - 1 }

/-- One event of a connection. -/
def step (conn : EasyConnection) : Event → Except Closed EasyConnection
  | .read chunk env => easyConnectionOnReadable conn chunk env
  | .response position => .ok (easyConnectionSendResponse conn position)

/-- A run of a connection, up to the event that destroys it. -/
def run (conn : EasyConnection) : List Event → Except Closed EasyConnection
  | [] => .ok conn
  | event :: events =>
    match step conn event with
    | .error reason => .error reason
    | .ok next => run next events

end TdhSocket.Connection
