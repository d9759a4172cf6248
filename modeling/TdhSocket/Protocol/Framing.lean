import TdhSocket.Protocol.Frames

/-!
# What `tdhs_decode` accepts

`tdhs_decode` on any input buffer. `BeginsWithFrame` describes the buffers it answers with a
packet: the magic code, a payload of at most 64M that is there, and for the command BATCH as many
sub-frames at the start of the payload as `reserved` says. `tdhsDecodeOn` is the call with what it
leaves in the message: the bytes that are still in front of `pos`, `next_read_len` and the status.

The payloads of the packets of a chain are parts of one payload. `sliceOffsets` has the places where
`rdata` points to, and `AreSlices` says that the parts follow each other inside the payload.

`framing_of_tdhsDecode` puts the parts together.
-/

set_option autoImplicit false

namespace TdhSocket.Protocol

open Library

/-! ### Input buffers -/

/-- The bytes between `pos` and `last` of an `easy_buf_t`. Its block is allocated with a `uint32_t`
size. -/
structure InputBuffer where
  bytes : List UInt8
  length_lt : bytes.length < 2 ^ 32

theorem InputBuffer.inputLen_eq (input : InputBuffer) :
    inputLen input.bytes = input.bytes.length := Nat.mod_eq_of_lt input.length_lt

/-- The part of `easy_message_t` that `tdhs_decode` reads and writes. -/
structure DecodedMessage where
  input : List UInt8
  nextReadLen : ℕ
  isError : Bool
  deriving DecidableEq, Repr

/-- `tdhs_decode` on a message: the packet it returns, if any, and the message it leaves. The batch
loop gives up when `pos` is already behind the header. -/
def tdhsDecodeOn (pool : EasyPool) (message : DecodedMessage) :
    Option PacketChain × DecodedMessage :=
  let outcome := tdhsDecode pool message.input
  match outcome.answer with
  | .again none => (none, message)
  | .again (some nextReadLen) => (none, { message with nextReadLen := nextReadLen })
  | .error =>
    if outcome.written = 0 then (none, { message with isError := true })
    else (none, { message with
      input := message.input.drop tdhSocketHeaderLength
      isError := true })
  | .packet chain rest => (some chain, { message with input := rest })

/-! ### Accepted buffers -/

/-- The length of the frame that a header announces. -/
def frameLength (input : List UInt8) : ℕ :=
  tdhSocketHeaderLength + (getHeaderInfo input).datalen

/-- The payload of the frame that a header announces. -/
def framePayload (input : List UInt8) : List UInt8 :=
  (input.drop tdhSocketHeaderLength).take (getHeaderInfo input).datalen

/-- The buffer begins with a frame: magic code, header, a payload of at most 64M and, for the
command BATCH, the sub-frames at the start of the payload. -/
structure BeginsWithFrame (input : List UInt8) : Prop where
  magic : Frame.magicBytes <+: input
  header : tdhSocketHeaderLength ≤ input.length
  datalen : (getHeaderInfo input).datalen ≤ maxDataLength
  payload : frameLength input ≤ input.length
  subFrames : (getHeaderInfo input).command = requestTypeBatch →
    StartsWithSubFrames (getHeaderInfo input).reverse (framePayload input)

/-- The packet block of `tdhs_decode` was allocated and holds the packets of the chain. -/
def HoldsPackets (pool : EasyPool) (count : ℕ) : Prop :=
  ∃ room, easyPoolCalloc pool (packetBlockSize count) = some room ∧
    sizeofTdhsPacket * (1 + count) ≤ room

/-- Assumes: four bytes are there. They are the magic code if `tdhs_decode` reads it there. -/
theorem magicBytes_begins_iff {input : List UInt8} (hfour : 4 ≤ input.length) :
    Frame.magicBytes <+: input ↔ BigEndian.ofBytes input = tdhsMagicCode := by
  constructor
  · rintro ⟨rest, rfl⟩
    exact BigEndian.ofBytes_toBytes_append _ _ (by norm_num [tdhsMagicCode])
  · intro hmagic
    refine ⟨input.drop 4, ?_⟩
    rw [Frame.magicBytes, ← hmagic]
    exact BigEndian.toBytes_ofBytes_append_drop input hfour

/-- The batch loop comes to its end exactly on a payload that starts with the expected sub-frames.
-/
theorem batchLoop_complete_iff (count : ℕ) (payload : List UInt8) :
    (batchLoop count payload).complete = true ↔ StartsWithSubFrames count payload := by
  constructor
  · intro hcomplete
    obtain ⟨subs, tail, hpayload, -, hlength⟩ := batchLoop_eq count payload
    exact ⟨subs, hlength.mp hcomplete, tail, hpayload.symm⟩
  · rintro ⟨subs, rfl, tail, rfl⟩
    have hloop := batchLoop_encodeAll subs tail 0
    rw [Nat.add_zero] at hloop
    rw [hloop]
    rfl

variable {input : InputBuffer} {pool : EasyPool} {nextReadLen : Option ℕ} {more : List UInt8}

/-- Assumes: the packet block can be allocated. -/
theorem isAccepted_iff (hblock : HoldsPackets pool (batchRequestNum (getHeaderInfo input.bytes))) :
    IsAccepted pool input.bytes ↔ BeginsWithFrame input.bytes := by
  have hlen := input.inputLen_eq
  have hfour : tdhSocketHeaderLength ≤ input.bytes.length → 4 ≤ input.bytes.length := by
    unfold tdhSocketHeaderLength
    omega
  constructor
  · intro haccepted
    have hheader := hlen ▸ haccepted.header
    have hpayload := hlen ▸ haccepted.payload
    refine ⟨(magicBytes_begins_iff (hfour hheader)).mpr haccepted.magic, hheader,
      haccepted.datalen, by unfold frameLength; omega, fun hbatch ↦ ?_⟩
    have hcomplete := haccepted.complete
    rwa [batchOutcome, batchLoop_complete_iff, batchRequestNum, if_pos hbatch] at hcomplete
  · intro hbegins
    have hpayload := hbegins.payload
    obtain ⟨room, hroom, -⟩ := hblock
    refine ⟨hlen ▸ hbegins.header, (magicBytes_begins_iff (hfour hbegins.header)).mp hbegins.magic,
      hbegins.datalen, ?_, ?_, ?_⟩
    · unfold frameLength at hpayload
      omega
    · rw [hroom]
      rfl
    · rw [batchOutcome, batchLoop_complete_iff, batchRequestNum]
      split_ifs with hbatch
      · exact hbegins.subFrames hbatch
      · exact ⟨[], rfl, List.nil_prefix⟩

/-! ### Parts of the payload -/

/-- Where the payloads of the packets of a chain begin, from a position of the payload on: each
behind a header. -/
def sliceOffsets : ℕ → List TdhsPacket → List ℕ
  | _, [] => []
  | start, packet :: packets =>
    (start + tdhSocketHeaderLength) ::
      sliceOffsets (start + tdhSocketHeaderLength + packet.length) packets

/-- The packets point to parts of the payload, each behind the header that follows the one before
and as long as the length field of that header says. -/
structure AreSlices (payload : List UInt8) (packets : List TdhsPacket) : Prop where
  length_eq : ∀ slice ∈ (sliceOffsets 0 packets).zip packets,
    slice.2.length = (getHeaderInfo (payload.drop (slice.1 - tdhSocketHeaderLength))).datalen
  rdata_eq : ∀ slice ∈ (sliceOffsets 0 packets).zip packets,
    slice.2.rdata = (payload.drop slice.1).take slice.2.length
  inside : ∀ slice ∈ (sliceOffsets 0 packets).zip packets,
    slice.1 + slice.2.length ≤ payload.length
  disjoint : ((sliceOffsets 0 packets).zip packets).Pairwise fun slice next ↦
    slice.1 + slice.2.length + tdhSocketHeaderLength ≤ next.1

/-- Every part begins at or behind a header from the start on. -/
theorem le_of_mem_sliceOffsets {start : ℕ} {packets : List TdhsPacket} {slice : ℕ × TdhsPacket}
    (hslice : slice ∈ (sliceOffsets start packets).zip packets) :
    start + tdhSocketHeaderLength ≤ slice.1 := by
  induction packets generalizing start with
  | nil => cases hslice
  | cons packet packets ih =>
    rcases List.mem_cons.mp hslice with rfl | hlater
    · exact le_rfl
    · have hle := ih hlater
      omega

/-- The parts that sub-frames behind some bytes have. -/
theorem areSlices_encodeAll (before tail : List UInt8) (subs : List SubFrame) :
    let payload := before ++ (SubFrame.encodeAll subs ++ tail)
    let slices := (sliceOffsets before.length (subs.map SubFrame.packet)).zip
      (subs.map SubFrame.packet)
    (∀ slice ∈ slices, slice.2.length =
      (getHeaderInfo (payload.drop (slice.1 - tdhSocketHeaderLength))).datalen) ∧
    (∀ slice ∈ slices, slice.2.rdata = (payload.drop slice.1).take slice.2.length) ∧
    (∀ slice ∈ slices, slice.1 + slice.2.length ≤ payload.length) ∧
    slices.Pairwise fun slice next ↦
      slice.1 + slice.2.length + tdhSocketHeaderLength ≤ next.1 := by
  induction subs generalizing before with
  | nil =>
    exact ⟨by simp [sliceOffsets], by simp [sliceOffsets], by simp [sliceOffsets],
      List.Pairwise.nil⟩
  | cons sub subs ih =>
    -- the later sub-frames are behind `before` and the first one
    have hlength : (before ++ sub.encode).length =
        before.length + tdhSocketHeaderLength + sub.packet.length := by
      rw [List.length_append, SubFrame.length_encode, Nat.add_assoc]
      rfl
    have hpayload : before ++ sub.encode ++ (SubFrame.encodeAll subs ++ tail) =
        before ++ (SubFrame.encodeAll (sub :: subs) ++ tail) := by
      rw [SubFrame.encodeAll_cons]
      simp only [List.append_assoc]
    obtain ⟨hfields, hrdata, hinside, hdisjoint⟩ := ih (before ++ sub.encode)
    rw [hpayload, hlength] at hfields hrdata hinside
    rw [hlength] at hdisjoint
    have hdrop : (before ++ (SubFrame.encodeAll (sub :: subs) ++ tail)).drop
        (before.length + tdhSocketHeaderLength) = sub.payload ++
          (SubFrame.encodeAll subs ++ tail) := by
      rw [← List.drop_drop, List.drop_left, SubFrame.encodeAll_cons, List.append_assoc,
        SubFrame.drop_encode]
    simp only [List.map_cons, sliceOffsets, List.zip_cons_cons, List.forall_mem_cons,
      List.pairwise_cons]
    refine ⟨⟨?_, hfields⟩, ⟨?_, hrdata⟩, ⟨?_, hinside⟩, ?_, hdisjoint⟩
    · rw [Nat.add_sub_cancel, List.drop_left, SubFrame.encodeAll_cons, List.append_assoc,
        SubFrame.getHeaderInfo_encode]
      rfl
    · rw [hdrop]
      exact (List.take_left' rfl).symm
    · rw [← hpayload, List.length_append, hlength]
      exact Nat.le_add_right _ _
    · intro slice hslice
      exact le_of_mem_sliceOffsets hslice

/-- The packets of the batch loop are parts of the payload. -/
theorem areSlices_batchLoop (count : ℕ) (payload : List UInt8) :
    AreSlices payload (batchLoop count payload).packets := by
  obtain ⟨subs, tail, hpayload, hpackets, -⟩ := batchLoop_eq count payload
  obtain ⟨hfields, hrdata, hinside, hdisjoint⟩ := areSlices_encodeAll [] tail subs
  rw [List.nil_append, ← hpayload, List.length_nil, ← hpackets] at hfields hrdata hinside
  rw [List.length_nil, ← hpackets] at hdisjoint
  exact ⟨hfields, hrdata, hinside, hdisjoint⟩

/-- Assumes: the batch loop came to its end. It wrote a packet for each expected sub-frame. -/
theorem length_batchLoop {count : ℕ} {payload : List UInt8}
    (hcomplete : (batchLoop count payload).complete = true) :
    (batchLoop count payload).packets.length = count := by
  obtain ⟨subs, tail, -, hpackets, hlength⟩ := batchLoop_eq count payload
  rw [hpackets, List.length_map, hlength.mp hcomplete]

/-! ### Buffers that are not complete -/

/-- `tdhs_decode` asks for more bytes exactly while the header is not complete, or while the
payload of a header it accepts is not. -/
theorem tdhsDecode_eq_again_iff :
    (tdhsDecode pool input.bytes).answer = .again nextReadLen ↔
      (input.bytes.length < tdhSocketHeaderLength ∧ nextReadLen = none) ∨
      (tdhSocketHeaderLength ≤ input.bytes.length ∧
        BigEndian.ofBytes input.bytes = tdhsMagicCode ∧
        (getHeaderInfo input.bytes).datalen ≤ maxDataLength ∧
        input.bytes.length < frameLength input.bytes ∧
        nextReadLen = some (frameLength input.bytes - input.bytes.length)) := by
  have hmissing : tdhSocketHeaderLength ≤ input.bytes.length →
      (getHeaderInfo input.bytes).datalen - (input.bytes.length - tdhSocketHeaderLength) =
        frameLength input.bytes - input.bytes.length := by
    unfold frameLength
    omega
  have hframe : ∀ answer, (decodeFrame pool input.bytes).answer = answer →
      answer ≠ .again nextReadLen := by
    rintro answer rfl
    unfold decodeFrame
    split
    · simp
    · simp only [fillPackets]
      split_ifs <;> simp
  unfold tdhsDecode
  rw [input.inputLen_eq]
  split_ifs with hshort hmagic hlong hpart
  · simp only [DecodeAnswer.again.injEq]
    constructor
    · rintro rfl
      exact Or.inl ⟨hshort, rfl⟩
    · rintro (⟨-, rfl⟩ | ⟨hheader, -⟩)
      · rfl
      · omega
  · simp only [false_iff, not_or, not_and]
    exact ⟨fun h ↦ absurd h hshort, fun _ h ↦ absurd h hmagic⟩
  · simp only [false_iff, not_or, not_and]
    exact ⟨fun h ↦ absurd h hshort, fun _ _ h ↦ absurd h (not_le.mpr hlong)⟩
  · rw [hmissing (not_lt.mp hshort), DecodeAnswer.again.injEq]
    constructor
    · rintro rfl
      refine Or.inr ⟨not_lt.mp hshort, not_not.mp hmagic, not_lt.mp hlong, ?_, rfl⟩
      unfold frameLength
      omega
    · rintro (⟨h, -⟩ | ⟨-, -, -, -, rfl⟩)
      · exact absurd h hshort
      · rfl
  · refine ⟨fun h ↦ absurd h (hframe _ rfl), ?_⟩
    rintro (⟨h, -⟩ | ⟨-, -, -, h, -⟩)
    · exact absurd h hshort
    · unfold frameLength at h
      omega

/-- A message for which `tdhs_decode` asks for more bytes keeps the ones it has. -/
theorem tdhsDecodeOn_of_again {message : DecodedMessage}
    (hagain : (tdhsDecode pool message.input).answer = .again nextReadLen) :
    tdhsDecodeOn pool message =
      (none, { message with nextReadLen := nextReadLen.getD message.nextReadLen }) := by
  cases nextReadLen with
  | none => simp only [tdhsDecodeOn, hagain, Option.getD_none]
  | some nextReadLen => simp only [tdhsDecodeOn, hagain, Option.getD_some]

/-- The header words of a buffer with a complete header do not change when bytes are appended. -/
theorem getHeaderInfo_append {input : List UInt8} (hheader : tdhSocketHeaderLength ≤ input.length) :
    getHeaderInfo (input ++ more) = getHeaderInfo input := by
  rw [← encodeHeader_getHeaderInfo input hheader, List.append_assoc]
  have hfour : (input.take 4).length = 4 := by
    rw [List.length_take]
    unfold tdhSocketHeaderLength at hheader
    omega
  rw [getHeaderInfo_encodeHeader _ _ _ hfour (BigEndian.ofBytes_lt _) (BigEndian.ofBytes_lt _)
    (BigEndian.ofBytes_lt _) (BigEndian.ofBytes_lt _),
    getHeaderInfo_encodeHeader _ _ _ hfour (BigEndian.ofBytes_lt _) (BigEndian.ofBytes_lt _)
    (BigEndian.ofBytes_lt _) (BigEndian.ofBytes_lt _)]

/-- An accepted buffer is accepted with the same packets when bytes are appended to it. Assumes: the
longer buffer still fits. -/
theorem tdhsDecode_append {whole : InputBuffer} {rest : List UInt8} {chain : PacketChain}
    (hwhole : whole.bytes = input.bytes ++ more)
    (hpacket : (tdhsDecode pool input.bytes).answer = .packet chain rest) :
    (tdhsDecode pool whole.bytes).answer = .packet chain (rest ++ more) := by
  obtain ⟨haccepted, rfl, rfl⟩ := tdhsDecode_eq_packet_iff.mp hpacket
  have hheader := input.inputLen_eq ▸ haccepted.header
  have hpayload := input.inputLen_eq ▸ haccepted.payload
  have hwords : getHeaderInfo whole.bytes = getHeaderInfo input.bytes := by
    rw [hwhole, getHeaderInfo_append hheader]
  have hlength : whole.bytes.length = input.bytes.length + more.length := by
    rw [hwhole, List.length_append]
  have hdrop : whole.bytes.drop tdhSocketHeaderLength =
      input.bytes.drop tdhSocketHeaderLength ++ more := by
    rw [hwhole, List.drop_append_of_le_length hheader]
  have hleft : (getHeaderInfo input.bytes).datalen ≤
      (input.bytes.drop tdhSocketHeaderLength).length := by
    rw [List.length_drop]
    exact hpayload
  have hhead : headPacket whole.bytes = headPacket input.bytes := by
    simp only [headPacket, hwords, hdrop, List.take_append_of_le_length hleft]
  have hloop : batchOutcome whole.bytes = batchOutcome input.bytes := by
    rw [batchOutcome, batchOutcome, hwords, hhead]
  have hmagic : BigEndian.ofBytes whole.bytes = tdhsMagicCode := by
    have hfour : 4 ≤ input.bytes.length := by
      unfold tdhSocketHeaderLength at hheader
      omega
    rw [← magicBytes_begins_iff (by omega), hwhole]
    exact ((magicBytes_begins_iff hfour).mpr haccepted.magic).trans (List.prefix_append _ _)
  refine tdhsDecode_eq_packet_iff.mpr ⟨⟨?_, hmagic, ?_, ?_, ?_, ?_⟩, ?_, ?_⟩
  · rw [whole.inputLen_eq]
    omega
  · rw [hwords]
    exact haccepted.datalen
  · rw [whole.inputLen_eq, hwords]
    omega
  · rw [hwords]
    exact haccepted.block
  · rw [hloop]
    exact haccepted.complete
  · rw [hhead, hloop]
  · rw [hwords, hdrop, List.drop_append_of_le_length hleft]

/-! ### The framing -/

/-- What a packet of `tdhs_decode` says about the buffer: the whole frame was used up, and the
chain has the expected packets behind its first one, in parts of the payload. -/
structure IsFraming (input rest : List UInt8) (chain : PacketChain) : Prop where
  used : rest = input.drop (frameLength input)
  length_rest : rest.length + frameLength input = input.length
  payload : chain.packet.rdata = framePayload input
  length_next : chain.next.length = batchRequestNum (getHeaderInfo input)
  slices : AreSlices (framePayload input) chain.next

/-- `tdhs_decode` on any input buffer: the buffers it answers with a packet, what it uses up of
them and what the packets point to; the bytes it asks for where the frame is not complete; and its
answer to longer buffers. Assumes: the packet block is allocated and holds the packets. -/
theorem framing_of_tdhsDecode (pool : EasyPool) (input : InputBuffer)
    (hblock : HoldsPackets pool (batchRequestNum (getHeaderInfo input.bytes))) :
    ((∃ chain rest, (tdhsDecode pool input.bytes).answer = .packet chain rest) ↔
      BeginsWithFrame input.bytes) ∧
    (∀ chain rest, (tdhsDecode pool input.bytes).answer = .packet chain rest →
      IsFraming input.bytes rest chain ∧
      ∀ nextReadLen isError, tdhsDecodeOn pool ⟨input.bytes, nextReadLen, isError⟩ =
        (some chain, ⟨rest, nextReadLen, isError⟩)) ∧
    (∀ nextReadLen, (tdhsDecode pool input.bytes).answer = .again nextReadLen →
      (nextReadLen = if input.bytes.length < tdhSocketHeaderLength then none
        else some (frameLength input.bytes - input.bytes.length)) ∧
      (tdhSocketHeaderLength ≤ input.bytes.length →
        input.bytes.length < frameLength input.bytes) ∧
      ∀ old isError, tdhsDecodeOn pool ⟨input.bytes, old, isError⟩ =
        (none, ⟨input.bytes, nextReadLen.getD old, isError⟩)) ∧
    ∀ (more : List UInt8) (whole : InputBuffer), whole.bytes = input.bytes ++ more →
      (∀ nextReadLen, (tdhsDecode pool input.bytes).answer = .again nextReadLen →
        ∀ old isError,
          let left := (tdhsDecodeOn pool ⟨input.bytes, old, isError⟩).2
          tdhsDecode pool (left.input ++ more) = tdhsDecode pool whole.bytes) ∧
      ∀ chain rest, (tdhsDecode pool input.bytes).answer = .packet chain rest →
        (tdhsDecode pool whole.bytes).answer = .packet chain (rest ++ more) := by
  refine ⟨?_, ?_, ?_, ?_⟩
  · rw [← isAccepted_iff hblock]
    constructor
    · rintro ⟨chain, rest, hpacket⟩
      exact (tdhsDecode_eq_packet_iff.mp hpacket).1
    · intro haccepted
      exact ⟨_, _, tdhsDecode_eq_packet_iff.mpr ⟨haccepted, rfl, rfl⟩⟩
  · intro chain rest hpacket
    refine ⟨?_, fun nextReadLen isError ↦ by simp only [tdhsDecodeOn, hpacket]⟩
    obtain ⟨haccepted, rfl, rfl⟩ := tdhsDecode_eq_packet_iff.mp hpacket
    have hbegins := (isAccepted_iff hblock).mp haccepted
    have hpayload := hbegins.payload
    refine ⟨List.drop_drop, ?_, rfl, length_batchLoop haccepted.complete,
      areSlices_batchLoop _ _⟩
    rw [List.drop_drop, List.length_drop]
    unfold frameLength at hpayload ⊢
    omega
  · intro nextReadLen hagain
    refine ⟨?_, ?_, fun old isError ↦ tdhsDecodeOn_of_again hagain⟩
    · rcases tdhsDecode_eq_again_iff.mp hagain with ⟨hshort, rfl⟩ | ⟨hheader, -, -, -, rfl⟩
      · rw [if_pos hshort]
      · rw [if_neg (not_lt.mpr hheader)]
    · intro hheader
      rcases tdhsDecode_eq_again_iff.mp hagain with ⟨hshort, -⟩ | ⟨-, -, -, hpart, -⟩
      · exact absurd hshort (not_lt.mpr hheader)
      · exact hpart
  · intro more whole hwhole
    refine ⟨fun nextReadLen hagain old isError ↦ ?_, fun chain rest ↦ tdhsDecode_append hwhole⟩
    rw [tdhsDecodeOn_of_again hagain, hwhole]

/-- A BATCH frame with one sub-frame of one byte and a byte behind it. -/
def batchOfOne : List UInt8 :=
  [255, 255, 255, 255, 0, 0, 0, 20, 0, 0, 0, 1, 0, 0, 0, 1, 0, 0, 0, 21,
    0, 0, 0, 0, 0, 0, 0, 12, 0, 0, 0, 2, 0, 0, 0, 0, 0, 0, 0, 1, 7, 9]

theorem framing_of_tdhsDecode_batchOfOne :
    IsFraming batchOfOne [9]
      ⟨⟨20, 1, 1, 21, framePayload batchOfOne⟩, [⟨12, 2, 0, 1, [7]⟩]⟩ :=
  ((framing_of_tdhsDecode roomyPool ⟨batchOfOne, by decide⟩
    ⟨45048, by decide +kernel, by decide +kernel⟩).2.1 _ _ (by decide +kernel)).1

end TdhSocket.Protocol
