import TdhSocket.Connection.References
import TdhSocket.Encode.Packet

/-!
# A request between writing and sending

A request with its packets, between the threads that write and send its response. A request thread
writes by a script; when the buffer of a GET is full, `send_stream` gives the request to the IO
thread, waits, and empties the buffer. `tdhs_request_doreq_for_write` may rewrite the packets after
a failed commit. The IO thread takes the request from its list and hands the packets to
`tdhs_encode`, writes to the socket, and may answer a request itself or destroy the connection.
Where the request is and what the threads wait for is that of `Connection.References`.

`step` is one event, and `handed` has the packets as `tdhs_encode` got them.
-/

set_option autoImplicit false

namespace TdhSocket.Encode

open Execute Library
open Connection (References.Request References.RequestEvent)
open Connection.References (IsEnabled applyRequest cleanupRequest newRequest)

/-! ### The two threads -/

/-- Where `write_data_to_response` is: not called, before the space for the length is looked at,
before the length is written, before bytes are copied, or with a full buffer and bytes left. -/
inductive Stage
  | idle
  | begin (owner : Owner) (dataLength : ℕ)
  | word (owner : Owner) (dataLength : ℕ)
  | copy (owner : Owner) (left : ℕ)
  | full (owner : Owner) (left : ℕ)
  deriving DecidableEq, Repr

/-- The packet data is written to. -/
def Stage.owner : Stage → Option Owner
  | .idle => none
  | .begin owner _ | .word owner _ | .copy owner _ | .full owner _ => some owner

/-- The packet for which the thread is in `send_stream`. -/
def Stage.parked : Stage → Option Owner
  | .begin owner _ | .full owner _ => some owner
  | .idle | .word _ _ | .copy _ _ => none

/-- A request with its packets. `head` is the packet `ipacket` points to; `chain` are the packets
that go back with the final answer; `todo` is left to be written, and `rewriting` is what is written
behind `execute`, after a failed commit. -/
structure Exchange where
  request : References.Request
  isClosing : Bool
  hasOpacket : Bool
  head : Owner
  chain : List Owner
  packets : Owner → ResponsePacket
  stage : Stage
  todo : Script
  rewriting : Script
  handed : List (Owner × ResponsePacket)

/-- A request with what is going to be written. -/
structure Plan where
  head : Owner
  chain : List Owner
  packets : Owner → ResponsePacket
  writes : Script
  rewriting : Script

/-- A decoded request. -/
def newExchange (plan : Plan) : Exchange where
  request := newRequest
  isClosing := false
  hasOpacket := false
  head := plan.head
  chain := plan.chain
  packets := plan.packets
  stage := .idle
  todo := plan.writes
  rewriting := plan.rewriting
  handed := []

/-- What the threads do: the IO thread answers the request itself, a request thread writes, the
request goes on, the IO thread writes to the socket, or the connection is destroyed. -/
inductive Event
  | answer (status : ℕ)
  | write
  | request (event : References.RequestEvent)
  | socket (count : ℕ)
  | destroy
  deriving DecidableEq, Repr

variable (exchange : Exchange)

namespace Exchange

/-- A packet is changed. -/
def setPacket (owner : Owner) (packet : ResponsePacket) : Exchange :=
  { exchange with packets := Function.update exchange.packets owner packet }

/-- The next step of the thread that writes, up to a call of `send_stream`. -/
def writeStep : Option Exchange :=
  match exchange.stage with
  | .idle =>
    match exchange.todo with
    | [] => none
    | (owner, .data bytes) :: rest =>
      some { exchange with stage := .begin owner bytes.length, todo := rest }
    | (owner, write) :: rest =>
      some { exchange.setPacket owner ((exchange.packets owner).perform write) with todo := rest }
  | .begin owner dataLength =>
    if (exchange.packets owner).room < 4 then none
    else some { exchange with stage := .word owner dataLength }
  | .word owner dataLength =>
    some { exchange.setPacket owner ((exchange.packets owner).append 4) with
      stage := if dataLength = 0 then .idle else .copy owner dataLength }
  | .copy owner left =>
    let writeLen := min (exchange.packets owner).room left
    some { exchange.setPacket owner ((exchange.packets owner).append writeLen) with
      stage := if left - writeLen = 0 then .idle else .full owner (left - writeLen) }
  | .full _ _ => none

/-- The packet for which `send_stream` is called. -/
def pending : Option Owner :=
  match exchange.stage with
  | .begin owner _ => if (exchange.packets owner).room < 4 then some owner else none
  | .full owner _ => some owner
  | _ => none

/-- `send_stream` behind its wait, on a connection that is not closed. -/
def resumed : Exchange :=
  match exchange.stage with
  | .begin owner dataLength =>
    { exchange.setPacket owner (resetStream (exchange.packets owner)) with
      stage := .word owner dataLength }
  | .full owner left =>
    { exchange.setPacket owner (resetStream (exchange.packets owner)) with
      stage := .copy owner left }
  | _ => exchange

/-- The packets `r->opacket` leads to: the one of a GET while chunks are sent, and the whole chain
with the final answer. -/
def opackets : List Owner :=
  if exchange.request.retcode = .again then [exchange.head] else exchange.chain

/-- `easy_connection_send_response` calls `tdhs_encode`. -/
def isEncoded : Bool :=
  exchange.request.retcode != .error && exchange.hasOpacket

/-- What the place in the code adds to the conditions of an event. A redispatch happens between two
writes, in the source before the first one. -/
def IsGuarded : References.RequestEvent → Prop
  | .answer => False
  | .redispatch => exchange.stage = .idle
  | .sendStream => exchange.pending.isSome = true
  | .finish failed => exchange.stage = .idle ∧ (failed = false → exchange.todo = [])
  | .handOver => exchange.request.retcode = .ok → exchange.todo = []
  | .sendResponse encoded => encoded = exchange.isEncoded
  | _ => True

instance (exchange : Exchange) (event : References.RequestEvent) :
    Decidable (exchange.IsGuarded event) :=
  match event with
  | .answer => inferInstanceAs (Decidable False)
  | .redispatch | .sendStream | .sendResponse _ => inferInstanceAs (Decidable (_ = _))
  | .finish _ => inferInstanceAs (Decidable (_ ∧ (_ → _)))
  | .handOver => inferInstanceAs (Decidable (_ → _))
  | .push | .take | .start | .refuse | .wait | .wake | .check | .leave | .drain =>
    inferInstanceAs (Decidable True)

/-- What an event of the request does to the packets. -/
def follow : References.RequestEvent → Exchange
  | .start => { exchange with hasOpacket := true }
  | .sendStream =>
    exchange.pending.elim exchange fun owner ↦
      exchange.setPacket owner { exchange.packets owner with code := clientStatusAccept }
  | .check =>
    if exchange.request.isClosed then exchange else { exchange.resumed with hasOpacket := true }
  | .finish failed => { exchange with todo := if failed then [] else exchange.rewriting }
  | .sendResponse encoded =>
    if encoded then
      { exchange with
        hasOpacket := exchange.request.retcode != .again
        handed := exchange.handed ++
          exchange.opackets.map fun owner ↦ (owner, exchange.packets owner) }
    else exchange
  | _ => exchange

/-- The IO thread answers with an error, and encodes at once. -/
def answered (status : ℕ) : Exchange :=
  { exchange.setPacket exchange.head (tdhsResponseError status) with
    request := (applyRequest exchange.request .answer).1
    handed := exchange.handed ++ [(exchange.head, tdhsResponseError status)] }

/-- Bytes of the buffer in the output are written. -/
def socketWritten (count : ℕ) : Exchange :=
  let packet := exchange.packets exchange.head
  exchange.setPacket exchange.head
    { packet with
      wbuff := packet.wbuff.map fun b ↦ { b with pos := min (b.pos + count) b.last } }

/-- The thread that has the request may write: within `execute`, or after a failed commit. -/
def CanWrite : Prop :=
  exchange.request.phase = .running ∨
    (exchange.request.spot = .executed ∧ exchange.request.retcode = .ok)

instance (exchange : Exchange) : Decidable exchange.CanWrite :=
  inferInstanceAs (Decidable (_ ∨ (_ ∧ _)))

/-- `cleanup_request` does not wait for the mutex. -/
def CanDestroy : Prop :=
  exchange.request.spot = .sessionList → exchange.request.hasArgs = true →
    exchange.request.phase ≠ .sending

instance (exchange : Exchange) : Decidable exchange.CanDestroy :=
  inferInstanceAs (Decidable (_ → _ → _))

end Exchange

/-- One event. -/
def step : Event → Option Exchange
  | .answer status =>
    if IsEnabled exchange.isClosing exchange.request .answer ∧
        400 ≤ status then some (exchange.answered status)
    else none
  | .write => if exchange.CanWrite then exchange.writeStep else none
  | .request event =>
    if IsEnabled exchange.isClosing exchange.request event ∧
        exchange.IsGuarded event then
      some { exchange.follow event with
        request := (applyRequest exchange.request event).1 }
    else none
  | .socket count =>
    if exchange.request.spot = .sessionList then some (exchange.socketWritten count) else none
  | .destroy =>
    if exchange.CanDestroy then
      some { exchange with
        isClosing := true
        request := cleanupRequest exchange.request }
    else none

/-- A wait that returns was signalled. -/
def IsSignalled : Event → Prop
  | .request .wake => exchange.request.isSignalled = true
  | _ => True

/-- The condition concerns the return of a wait only. -/
theorem isSignalled_iff (event : Event) :
    (event = .request .wake → exchange.request.isSignalled = true) ↔
      IsSignalled exchange event := by
  unfold IsSignalled
  split
  · exact ⟨fun h ↦ h rfl, fun h _ ↦ h⟩
  · next hother => exact ⟨fun _ ↦ trivial, fun _ hwake ↦ absurd hwake hother⟩

instance (exchange : Exchange) (event : Event) : Decidable (IsSignalled exchange event) :=
  decidable_of_iff _ (isSignalled_iff exchange event)

end TdhSocket.Encode
