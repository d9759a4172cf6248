import TdhSocket.Decode.Decoder

/-!
# The connection context

`tdh_socket_connection_context.cpp`: `shake_hands_if` looks at the first request of a connection and
fixes the protocol version, `decode` runs the decoder of that version on every later one.

A BATCH request is decoded along the packet chain. `decode_to_batch` calls the general entry point
on every packet behind it, and for a packet that is itself a BATCH that entry point walks the rest
of the chain once more (`decodeBatch`). The calls are listed in order, each with its position in
the chain, its packet, its trace and the request it left.
-/

set_option autoImplicit false

namespace TdhSocket.Decode

open Protocol Library

/-! ### Shaking hands -/

/-- `REQUEST_TYPE_SHAKE_HANDS`. -/
def requestTypeShakeHands : ℕ := 0xFFFF

/-- `TDH_SOCKET_SHAKE_HANDS_HEADER`. -/
def shakeHandsHeader : List UInt8 := [84, 68, 72, 83]

/-- `TDH_SOCKET_SHAKE_HANDS_TOTAL_SIZE`: the header, the protocol version and the time-out. -/
def shakeHandsTotalSize : ℕ := 12

/-- `TDHS_PROTOCOL_END`. -/
def protocolEnd : ℕ := 3

/-- `decode_request_array`. -/
def decodeRequestArray (protocolVersion : ℕ) : Option Version :=
  if protocolVersion = 1 then some binary
  else if protocolVersion = 2 then some binaryV2
  else none

/-- `tdh_socket_connection_context`. -/
structure ConnectionContext where
  isShaked : Bool
  decodeRequest : Option Version
  timeOut : ℕ
  canRead : Bool
  canWrite : Bool

/-- What `shake_hands_if` returns. -/
inductive ShakeRet
  | ok
  | again
  | error
  deriving DecidableEq, Repr

/-- What `shake_hands_if` leaves, with the payload bytes it read. -/
structure ShakeOutcome where
  ret : ShakeRet
  context : ConnectionContext
  trace : List (Access Place)

/-- The read and the write code behind the time-out. -/
def readCodes : Decoder (TdhsString × TdhsString) := do
  let readCode ← readString none
  let writeCode ← readString none
  pure (readCode, writeCode)

/-- The last part of `shake_hands_if`, for a decoder that was found. -/
def authenticate (authRead authWrite : TdhsString → Bool) (context : ConnectionContext)
    (packet : TdhsPacket) : ShakeOutcome :=
  let outcome := readCodes packet.rdata
    ⟨shakeHandsTotalSize, packet.length - shakeHandsTotalSize⟩
  let trace := .read 0 4 :: .read 4 4 :: .read 8 4 :: outcome.trace
  match outcome.result with
  | .error _ => ⟨.error, context, trace⟩
  | .ok (readCode, writeCode) =>
    ⟨.again, { context with
      isShaked := true
      canRead := context.canRead || authRead readCode
      canWrite := context.canWrite || authWrite writeCode }, trace⟩

/-- `shake_hands_if`. The failing branch copies `TDH_SOCKET_SHAKE_HANDS_TOTAL_SIZE` bytes for its
warning, also when the length was the reason to fail. -/
def shakeHandsIf (authRead authWrite : TdhsString → Bool) (context : ConnectionContext)
    (packet : TdhsPacket) : ShakeOutcome :=
  if context.isShaked then ⟨.ok, context, []⟩
  else if packet.commandIdOrResponseCode ≠ requestTypeShakeHands ∨
      packet.length < shakeHandsTotalSize then
    ⟨.error, context, [.read 0 shakeHandsTotalSize]⟩
  else if packet.rdata.take 4 ≠ shakeHandsHeader then
    ⟨.error, context, [.read 0 4, .read 0 shakeHandsTotalSize]⟩
  else
    let protocolVersion := BigEndian.ofBytes (packet.rdata.drop 4)
    if protocolEnd ≤ protocolVersion then ⟨.error, context, [.read 0 4, .read 4 4]⟩
    else
      match decodeRequestArray protocolVersion with
      | none => ⟨.error, { context with decodeRequest := none }, [.read 0 4, .read 4 4]⟩
      | some version =>
        authenticate authRead authWrite
          { context with
            decodeRequest := some version
            timeOut := BigEndian.ofBytes (packet.rdata.drop 8) } packet

/-! ### Decoding a chain -/

/-- What the decoders depend on besides the packet: the protocol version, the pool of the packets
and the memory behind the filled keys. -/
structure DecodeEnv where
  version : Version
  pool : EasyPool
  stray : ℕ → ℕ

/-- A run of a decoder on a packet: `read_len` starts as `packet.length`, `pos` as
`packet.rdata`. -/
def runDecoder {Value : Type} (decoder : Decoder Value) (packet : TdhsPacket) :
    Outcome Place ReturnCode Value :=
  decoder packet.rdata ⟨0, packet.length⟩

/-- One call of `decode_request_by_binary` or `decode_request_by_binary_v2`. -/
structure Call where
  position : ℕ
  packet : TdhsPacket
  trace : List (Access Place)
  request : Option TdhsRequest

/-- What decoding a chain leaves: the return code, none for `EASY_OK`, and the calls in order. -/
structure ChainOutcome where
  ret : Option ReturnCode
  calls : List Call

variable (env : DecodeEnv)

/-- The call for a packet of a type other than BATCH. -/
def decodeSingle (position : ℕ) (packet : TdhsPacket) (type : RequestType) : ChainOutcome :=
  let outcome := runDecoder (decoderOf env.version env.pool env.stray type) packet
  match outcome.result with
  | .ok request => ⟨none, [⟨position, packet, outcome.trace, some request⟩]⟩
  | .error code => ⟨some code, [⟨position, packet, outcome.trace, none⟩]⟩

/-- The request of a BATCH packet, of which only the type is set. -/
def batchRequest : TdhsRequest := ⟨.batch, zeroTable, zeroGet, zeroValues⟩

/-- The call for a packet, where `rest` is what decoding the chain behind it leaves. -/
def decodeCall (position : ℕ) (packet : TdhsPacket) (rest : ChainOutcome) : ChainOutcome :=
  match requestTypeOf packet.commandIdOrResponseCode with
  | none => ⟨some .easyError, [⟨position, packet, [], none⟩]⟩
  | some .batch => ⟨rest.ret, ⟨position, packet, [], some batchRequest⟩ :: rest.calls⟩
  | some type => decodeSingle env position packet type

/-- The request types that `decode_to_batch` refuses. -/
def isReadRequest (packet : TdhsPacket) : Bool :=
  requestTypeOf packet.commandIdOrResponseCode == some .get ||
    requestTypeOf packet.commandIdOrResponseCode == some .count

/-- The loop of `decode_to_batch` over the packets from a position on. -/
def decodeBatch : ℕ → List TdhsPacket → ChainOutcome
  | _, [] => ⟨none, []⟩
  | position, packet :: packets =>
    let rest := decodeBatch (position + 1) packets
    let first := decodeCall env position packet rest
    if first.ret ≠ none ∨ isReadRequest packet then ⟨some .easyError, first.calls⟩
    else ⟨rest.ret, first.calls ++ rest.calls⟩

/-- `decode_request_by_binary` or `decode_request_by_binary_v2` on the first packet of a chain. -/
def decodeRequest (chain : PacketChain) : ChainOutcome :=
  decodeCall env 0 chain.packet (decodeBatch env 1 chain.next)

end TdhSocket.Decode
