import TdhSocket.Library.Codewords
import TdhSocket.Protocol.Packet

/-!
# Well-formed frames on the wire

The abstract side of `tdhs_decode`. A `SubFrame` is one request inside a batch: its header words,
of which the magic code is not looked at, and its payload. A `Frame` is what a client sends:
the header words within 32 bits, a payload of at most 64M and, for the command BATCH, as many
sub-frames at the start of the payload as `reserved` says. `Frame.chain` is the packet chain such a
frame stands for.

`batchLoop_encodeAll` runs the batch loop over encoded sub-frames and `startsWithSubFrames_iff`
reads the number of packets it writes back as a property of the payload. For whole frames,
`tdhsDecode_encode` is the answer to a complete frame in front of any bytes, and
`tdhsDecode_take` the answer to a proper part of one. `stream_determines_packets` is that no two
lists of requests look the same on the wire.
-/

set_option autoImplicit false

namespace TdhSocket.Protocol

open Library

/-! ### Headers -/

/-- The 20 bytes of a header behind four bytes of magic code. -/
def encodeHeader (magic : List UInt8) (header : HeaderInfo) : List UInt8 :=
  magic ++ (BigEndian.toBytes header.command ++ (BigEndian.toBytes header.seqId ++
    (BigEndian.toBytes header.reverse ++ BigEndian.toBytes header.datalen)))

theorem length_encodeHeader (magic : List UInt8) (header : HeaderInfo)
    (hmagic : magic.length = 4) :
    (encodeHeader magic header).length = tdhSocketHeaderLength := by
  simp [encodeHeader, hmagic, tdhSocketHeaderLength]

/-- Assumes: four bytes of magic code and header words within 32 bits. `GET_HEADER_INFO` reads the
words of an encoded header back. -/
theorem getHeaderInfo_encodeHeader (magic rest : List UInt8) (header : HeaderInfo)
    (hmagic : magic.length = 4) (hcommand : header.command < 2 ^ 32)
    (hseqId : header.seqId < 2 ^ 32) (hreverse : header.reverse < 2 ^ 32)
    (hdatalen : header.datalen < 2 ^ 32) :
    getHeaderInfo (encodeHeader magic header ++ rest) = header := by
  have hfour : ∀ tail : List UInt8, (magic ++ tail).drop 4 = tail := fun tail ↦ by
    rw [List.drop_append_of_le_length (by omega), ← hmagic, List.drop_length, List.nil_append]
  have hword : ∀ (value : ℕ) (tail : List UInt8),
      (BigEndian.toBytes value ++ tail).drop 4 = tail := fun _ _ ↦ rfl
  have hstep : ∀ (n : ℕ) (bytes : List UInt8), bytes.drop (n + 4) = (bytes.drop 4).drop n :=
    fun n bytes ↦ by rw [List.drop_drop, Nat.add_comm]
  unfold getHeaderInfo encodeHeader
  simp only [List.append_assoc, hstep 12, hstep 8, hstep 4, hfour, hword]
  simp only [BigEndian.ofBytes_toBytes_append _ _ hcommand,
    BigEndian.ofBytes_toBytes_append _ _ hseqId, BigEndian.ofBytes_toBytes_append _ _ hreverse,
    BigEndian.ofBytes_toBytes_append _ _ hdatalen]

/-- Assumes: a header is there. It is the encoding of what `GET_HEADER_INFO` reads. -/
theorem encodeHeader_getHeaderInfo (pos : List UInt8)
    (hlength : tdhSocketHeaderLength ≤ pos.length) :
    encodeHeader (pos.take 4) (getHeaderInfo pos) ++ pos.drop tdhSocketHeaderLength = pos := by
  have hword : ∀ k, k + 4 ≤ pos.length →
      BigEndian.toBytes (BigEndian.ofBytes (pos.drop k)) ++ pos.drop (k + 4) = pos.drop k := by
    intro k hk
    have hsplit := BigEndian.toBytes_ofBytes_append_drop (pos.drop k)
      (by rw [List.length_drop]; omega)
    rwa [List.drop_drop] at hsplit
  unfold tdhSocketHeaderLength at hlength ⊢
  simp only [encodeHeader, getHeaderInfo, List.append_assoc]
  rw [hword 16 (by omega), hword 12 (by omega), hword 8 (by omega), hword 4 (by omega),
    List.take_append_drop]

/-! ### Sub-frames -/

/-- One request of a batch as it stands in the payload. -/
structure SubFrame where
  magic : List UInt8
  command : ℕ
  seqId : ℕ
  reserved : ℕ
  payload : List UInt8
  magic_length : magic.length = 4
  command_lt : command < 2 ^ 32
  seqId_lt : seqId < 2 ^ 32
  reserved_lt : reserved < 2 ^ 32
  payload_lt : payload.length < 2 ^ 32

namespace SubFrame

variable (sub : SubFrame)

/-- The header words of a sub-frame. -/
def header : HeaderInfo :=
  ⟨sub.command, sub.seqId, sub.reserved, sub.payload.length⟩

/-- The bytes of a sub-frame. -/
def encode : List UInt8 := encodeHeader sub.magic sub.header ++ sub.payload

/-- The bytes of consecutive sub-frames. -/
def encodeAll (subs : List SubFrame) : List UInt8 := (subs.map encode).flatten

/-- The packet of a sub-frame, whose `reserved` is not set. -/
def packet : TdhsPacket :=
  ⟨sub.command, sub.seqId, 0, sub.payload.length, sub.payload⟩

theorem encodeAll_cons (subs : List SubFrame) :
    encodeAll (sub :: subs) = sub.encode ++ encodeAll subs := rfl

theorem length_encode : sub.encode.length = tdhSocketHeaderLength + sub.payload.length := by
  rw [encode, List.length_append, length_encodeHeader _ _ sub.magic_length]

theorem getHeaderInfo_encode (rest : List UInt8) :
    getHeaderInfo (sub.encode ++ rest) = sub.header := by
  rw [encode, List.append_assoc]
  exact getHeaderInfo_encodeHeader _ _ _ sub.magic_length sub.command_lt sub.seqId_lt
    sub.reserved_lt sub.payload_lt

/-- Behind the header of a sub-frame its payload begins. -/
theorem drop_encode (rest : List UInt8) :
    (sub.encode ++ rest).drop tdhSocketHeaderLength = sub.payload ++ rest := by
  rw [encode, List.append_assoc,
    List.drop_left' (length_encodeHeader _ _ sub.magic_length)]

theorem batchPacket_encode (rest : List UInt8) : batchPacket (sub.encode ++ rest) = sub.packet := by
  simp only [batchPacket, getHeaderInfo_encode, drop_encode, header, packet, List.take_left']

/-- The sub-frame that begins at a position. Assumes: its header and its payload are there. -/
def ofBytes (pos : List UInt8) (hheader : tdhSocketHeaderLength ≤ pos.length)
    (hpayload : (getHeaderInfo pos).datalen ≤ (pos.drop tdhSocketHeaderLength).length) :
    SubFrame where
  magic := pos.take 4
  command := (getHeaderInfo pos).command
  seqId := (getHeaderInfo pos).seqId
  reserved := (getHeaderInfo pos).reverse
  payload := (pos.drop tdhSocketHeaderLength).take (getHeaderInfo pos).datalen
  magic_length := by
    rw [List.length_take]
    unfold tdhSocketHeaderLength at hheader
    omega
  command_lt := BigEndian.ofBytes_lt _
  seqId_lt := BigEndian.ofBytes_lt _
  reserved_lt := BigEndian.ofBytes_lt _
  payload_lt := by
    rw [List.length_take, Nat.min_eq_left hpayload]
    exact BigEndian.ofBytes_lt _

/-- The bytes at a position are the sub-frame there and what is behind it. -/
theorem encode_ofBytes (pos : List UInt8) (hheader : tdhSocketHeaderLength ≤ pos.length)
    (hpayload : (getHeaderInfo pos).datalen ≤ (pos.drop tdhSocketHeaderLength).length) :
    (ofBytes pos hheader hpayload).encode ++
      (pos.drop tdhSocketHeaderLength).drop (getHeaderInfo pos).datalen = pos := by
  have hheaderEq : (ofBytes pos hheader hpayload).header = getHeaderInfo pos := by
    simp only [header, ofBytes, List.length_take, Nat.min_eq_left hpayload]
  rw [encode, hheaderEq, List.append_assoc]
  simp only [ofBytes, List.take_append_drop]
  exact encodeHeader_getHeaderInfo pos hheader

end SubFrame

/-- The bytes start with `count` whole sub-frames. -/
def StartsWithSubFrames (count : ℕ) (bytes : List UInt8) : Prop :=
  ∃ subs : List SubFrame, subs.length = count ∧ SubFrame.encodeAll subs <+: bytes

/-! ### The batch loop over sub-frames -/

/-- Assumes: at least as many sub-frames are expected as are there. The batch loop writes their
packets and goes on behind them. -/
theorem batchLoop_encodeAll (subs : List SubFrame) (tail : List UInt8) (count : ℕ) :
    batchLoop (subs.length + count) (SubFrame.encodeAll subs ++ tail) =
      ⟨subs.map SubFrame.packet ++ (batchLoop count tail).packets,
        (batchLoop count tail).complete⟩ := by
  induction subs with
  | nil => simp [SubFrame.encodeAll]
  | cons sub subs ih =>
    have hnext : (sub :: subs).length + count = subs.length + count + 1 := by
      simp only [List.length_cons]
      omega
    rw [hnext, SubFrame.encodeAll_cons, List.append_assoc, batchLoop,
      SubFrame.getHeaderInfo_encode, SubFrame.drop_encode, SubFrame.batchPacket_encode]
    have hheader : ¬ (sub.encode ++ (SubFrame.encodeAll subs ++ tail)).length <
        tdhSocketHeaderLength := by
      rw [List.length_append, SubFrame.length_encode]
      omega
    have hpayload : ¬ (sub.payload ++ (SubFrame.encodeAll subs ++ tail)).length <
        sub.header.datalen := by
      rw [List.length_append]
      exact not_lt.mpr (Nat.le_add_right _ _)
    rw [if_neg hheader, if_neg hpayload, SubFrame.header, List.drop_left' rfl, ih]
    rfl

/-- The packets the batch loop wrote are those of sub-frames the payload starts with, all the
expected ones if it came to its end. -/
theorem batchLoop_eq (count : ℕ) (pos : List UInt8) :
    ∃ (subs : List SubFrame) (tail : List UInt8), pos = SubFrame.encodeAll subs ++ tail ∧
      (batchLoop count pos).packets = subs.map SubFrame.packet ∧
      ((batchLoop count pos).complete = true ↔ subs.length = count) := by
  induction count generalizing pos with
  | zero => exact ⟨[], pos, rfl, rfl, by simp [batchLoop]⟩
  | succ count ih =>
    by_cases hheader : pos.length < tdhSocketHeaderLength
    · refine ⟨[], pos, rfl, ?_, ?_⟩ <;> simp [batchLoop, hheader]
    · by_cases hpayload :
        (pos.drop tdhSocketHeaderLength).length < (getHeaderInfo pos).datalen
      · refine ⟨[], pos, rfl, ?_, ?_⟩ <;>
          simp only [batchLoop, if_neg hheader, if_pos hpayload] <;> simp
      · obtain ⟨subs, tail, hpos, hpackets, hcomplete⟩ :=
          ih ((pos.drop tdhSocketHeaderLength).drop (getHeaderInfo pos).datalen)
        have hsub := SubFrame.encode_ofBytes pos (not_lt.mp hheader) (not_lt.mp hpayload)
        have hpacket : batchPacket pos =
            (SubFrame.ofBytes pos (not_lt.mp hheader) (not_lt.mp hpayload)).packet := by
          conv_lhs => rw [← hsub]
          exact SubFrame.batchPacket_encode _ _
        refine ⟨SubFrame.ofBytes pos (not_lt.mp hheader) (not_lt.mp hpayload) :: subs, tail, ?_,
          ?_, ?_⟩
        · rw [SubFrame.encodeAll_cons, List.append_assoc, ← hpos, hsub]
        · rw [batchLoop, if_neg hheader, if_neg hpayload, List.map_cons, ← hpackets, hpacket]
        · rw [batchLoop, if_neg hheader, if_neg hpayload]
          simpa using hcomplete

/-! ### Accepted frames -/

/-- The batch loop of `tdhs_decode` over the payload of the frame at the start of `input`. -/
def batchOutcome (input : List UInt8) : BatchOutcome :=
  batchLoop (batchRequestNum (getHeaderInfo input)) (headPacket input).rdata

/-- What `tdhs_decode` looks at before it answers with a packet. -/
structure IsAccepted (pool : EasyPool) (input : List UInt8) : Prop where
  header : tdhSocketHeaderLength ≤ inputLen input
  magic : BigEndian.ofBytes input = tdhsMagicCode
  datalen : (getHeaderInfo input).datalen ≤ maxDataLength
  payload : (getHeaderInfo input).datalen ≤ inputLen input - tdhSocketHeaderLength
  block : (easyPoolCalloc pool
    (packetBlockSize (batchRequestNum (getHeaderInfo input)))).isSome = true
  complete : (batchOutcome input).complete = true

variable {pool : EasyPool} {input rest : List UInt8}

/-- `tdhs_decode` answers with a packet exactly for an accepted input, with the chain of the batch
loop and the bytes behind the frame. -/
theorem tdhsDecode_eq_packet_iff {chain : PacketChain} :
    (tdhsDecode pool input).answer = .packet chain rest ↔
      IsAccepted pool input ∧ chain = ⟨headPacket input, (batchOutcome input).packets⟩ ∧
        rest = (input.drop tdhSocketHeaderLength).drop (getHeaderInfo input).datalen := by
  constructor
  · intro hdecoded
    unfold tdhsDecode at hdecoded
    split_ifs at hdecoded with hshort hmagic hlong hmissing
    unfold decodeFrame at hdecoded
    cases hroom : easyPoolCalloc pool
        (packetBlockSize (batchRequestNum (getHeaderInfo input))) with
    | none =>
      rw [hroom] at hdecoded
      cases hdecoded
    | some room =>
      rw [hroom] at hdecoded
      simp only [fillPackets] at hdecoded
      split_ifs at hdecoded with hcomplete
      cases hdecoded
      refine ⟨⟨not_lt.mp hshort, not_not.mp hmagic, not_lt.mp hlong, not_lt.mp hmissing, ?_,
        hcomplete⟩, rfl, rfl⟩
      rw [hroom]
      rfl
  · rintro ⟨haccepted, rfl, rfl⟩
    obtain ⟨room, hroom⟩ := Option.isSome_iff_exists.mp haccepted.block
    have hcomplete : (batchLoop (batchRequestNum (getHeaderInfo input))
        (headPacket input).rdata).complete = true := haccepted.complete
    unfold tdhsDecode decodeFrame fillPackets
    rw [if_neg (not_lt.mpr haccepted.header), if_neg (not_not.mpr haccepted.magic),
      if_neg (not_lt.mpr haccepted.datalen), if_neg (not_lt.mpr haccepted.payload), hroom]
    simp only [if_pos hcomplete]
    rfl

/-- The payload of an accepted frame has the length of its header. -/
theorem IsAccepted.length_rdata (haccepted : IsAccepted pool input) :
    (headPacket input).rdata.length = (getHeaderInfo input).datalen := by
  have hinput : inputLen input ≤ input.length := Nat.mod_le _ _
  have hpayload := haccepted.payload
  simp only [headPacket, List.length_take, List.length_drop]
  omega

/-- The `length` of every packet that `tdhs_decode` hands over is that of its payload. -/
theorem length_of_tdhsDecode {chain : PacketChain}
    (hdecoded : (tdhsDecode pool input).answer = .packet chain rest) :
    ∀ packet ∈ chain.packet :: chain.next, packet.length = packet.rdata.length := by
  obtain ⟨haccepted, rfl, -⟩ := tdhsDecode_eq_packet_iff.mp hdecoded
  intro packet hpacket
  rcases List.mem_cons.mp hpacket with rfl | hsub
  · exact haccepted.length_rdata.symm
  · obtain ⟨subs, -, -, hpackets, -⟩ :=
      batchLoop_eq (batchRequestNum (getHeaderInfo input)) (headPacket input).rdata
    have hmem : packet ∈ subs.map SubFrame.packet := hpackets ▸ hsub
    obtain ⟨sub, -, rfl⟩ := List.mem_map.mp hmem
    rfl

/-- The batch loop writes at most as many packets as sub-frames are expected. -/
theorem length_batchLoop_le (count : ℕ) (pos : List UInt8) :
    (batchLoop count pos).packets.length ≤ count := by
  induction count generalizing pos with
  | zero => exact le_rfl
  | succ count ih =>
    unfold batchLoop
    split_ifs
    · exact Nat.zero_le _
    · exact Nat.zero_le _
    · exact Nat.succ_le_succ (ih _)

/-- The number of packets the batch loop writes, as a property of the payload. Assumes: not more
sub-frames are asked for than are expected. -/
theorem startsWithSubFrames_iff (count limit : ℕ) (pos : List UInt8) (hcount : count ≤ limit) :
    StartsWithSubFrames count pos ↔ count ≤ (batchLoop limit pos).packets.length := by
  constructor
  · rintro ⟨subs, rfl, tail, rfl⟩
    obtain ⟨extra, rfl⟩ := Nat.exists_eq_add_of_le hcount
    rw [batchLoop_encodeAll, List.length_append, List.length_map]
    omega
  · intro hle
    obtain ⟨subs, tail, hpos, hpackets, -⟩ := batchLoop_eq limit pos
    rw [hpackets, List.length_map] at hle
    refine ⟨subs.take count, by simpa using hle, ?_⟩
    have hsplit : SubFrame.encodeAll subs =
        SubFrame.encodeAll (subs.take count) ++ SubFrame.encodeAll (subs.drop count) := by
      simp only [SubFrame.encodeAll, ← List.flatten_append, ← List.map_append,
        List.take_append_drop]
    rw [hpos, hsplit, List.append_assoc]
    exact List.prefix_append _ _

/-! ### Frames -/

/-- A well-formed frame: header words within 32 bits, a payload of at most 64M and, for the command
BATCH, `reserved` sub-frames at the start of the payload. -/
structure Frame where
  command : ℕ
  seqId : ℕ
  reserved : ℕ
  payload : List UInt8
  subFrames : List SubFrame
  command_lt : command < 2 ^ 32
  seqId_lt : seqId < 2 ^ 32
  reserved_lt : reserved < 2 ^ 32
  payload_le : payload.length ≤ maxDataLength
  subFrames_eq : command ≠ requestTypeBatch → subFrames = []
  subFrames_length : command = requestTypeBatch → subFrames.length = reserved
  subFrames_start : SubFrame.encodeAll subFrames <+: payload

namespace Frame

/-- The four bytes of the magic code. -/
def magicBytes : List UInt8 := BigEndian.toBytes tdhsMagicCode

variable (frame : Frame)

/-- The header words of a frame. -/
def header : HeaderInfo :=
  ⟨frame.command, frame.seqId, frame.reserved, frame.payload.length⟩

/-- The bytes of a frame. -/
def encode : List UInt8 := encodeHeader magicBytes frame.header ++ frame.payload

/-- The bytes of consecutive frames. -/
def encodeAll (frames : List Frame) : List UInt8 := (frames.map encode).flatten

/-- The packet chain of a frame. -/
def chain : PacketChain :=
  ⟨⟨frame.command, frame.seqId, frame.reserved, frame.payload.length, frame.payload⟩,
    frame.subFrames.map SubFrame.packet⟩

theorem encodeAll_cons (frames : List Frame) :
    encodeAll (frame :: frames) = frame.encode ++ encodeAll frames := rfl

theorem payload_lt : frame.payload.length < 2 ^ 32 :=
  lt_of_le_of_lt frame.payload_le (by norm_num [maxDataLength])

theorem length_encode : frame.encode.length = tdhSocketHeaderLength + frame.payload.length := by
  rw [encode, List.length_append, length_encodeHeader _ _ rfl]

theorem getHeaderInfo_encode (rest : List UInt8) :
    getHeaderInfo (frame.encode ++ rest) = frame.header := by
  rw [encode, List.append_assoc]
  exact getHeaderInfo_encodeHeader _ _ _ rfl frame.command_lt frame.seqId_lt frame.reserved_lt
    frame.payload_lt

theorem drop_encode (rest : List UInt8) :
    (frame.encode ++ rest).drop tdhSocketHeaderLength = frame.payload ++ rest := by
  rw [encode, List.append_assoc, List.drop_left' (length_encodeHeader _ _ rfl)]

theorem headPacket_encode (rest : List UInt8) :
    headPacket (frame.encode ++ rest) = frame.chain.packet := by
  simp only [headPacket, getHeaderInfo_encode, drop_encode, header, chain, List.take_left']

theorem ofBytes_encode (rest : List UInt8) :
    BigEndian.ofBytes (frame.encode ++ rest) = tdhsMagicCode := by
  exact BigEndian.ofBytes_toBytes_append _ _ (by norm_num [tdhsMagicCode])

/-- `tdhs_decode` expects as many packets behind the first as the frame has sub-frames. -/
theorem batchRequestNum_header : batchRequestNum frame.header = frame.subFrames.length := by
  unfold batchRequestNum
  split_ifs with hbatch
  · exact (frame.subFrames_length hbatch).symm
  · rw [frame.subFrames_eq hbatch, List.length_nil]

theorem subFrames_length_lt : frame.subFrames.length < 2 ^ 32 := by
  rw [← batchRequestNum_header, batchRequestNum]
  split_ifs
  · exact frame.reserved_lt
  · norm_num

/-- The batch loop runs over exactly the sub-frames of a well-formed frame. -/
theorem batchLoop_payload :
    batchLoop (batchRequestNum frame.header) frame.payload =
      ⟨frame.subFrames.map SubFrame.packet, true⟩ := by
  obtain ⟨tail, htail⟩ := frame.subFrames_start
  rw [batchRequestNum_header, ← htail, ← Nat.add_zero frame.subFrames.length,
    batchLoop_encodeAll]
  simp [batchLoop]

/-- No frame begins another one: the header says where a frame ends. -/
theorem noWordBeginsAnother_encode : Codewords.NoWordBeginsAnother (Set.range encode) := by
  rintro _ ⟨frame, rfl⟩ _ ⟨other, rfl⟩ hbegins
  refine hbegins.eq_of_length ?_
  obtain ⟨rest, hrest⟩ := hbegins
  have hheader : frame.header = other.header := by
    rw [← getHeaderInfo_encode frame rest, hrest, ← getHeaderInfo_encode other [],
      List.append_nil]
  rw [length_encode, length_encode]
  exact congrArg (tdhSocketHeaderLength + HeaderInfo.datalen ·) hheader

/-- `tdhs_decode` on a complete frame in front of any bytes comes to the allocation. Assumes: the
bytes fit the `uint32_t` length. -/
theorem tdhsDecode_encode_append (pool : EasyPool) (frame : Frame) (rest : List UInt8)
    (hlength : (frame.encode ++ rest).length < 2 ^ 32) :
    tdhsDecode pool (frame.encode ++ rest) = decodeFrame pool (frame.encode ++ rest) := by
  have hlen : (frame.encode ++ rest).length =
      tdhSocketHeaderLength + frame.payload.length + rest.length := by
    rw [List.length_append, length_encode]
  have hdatalen : frame.header.datalen = frame.payload.length := rfl
  have hinput : inputLen (frame.encode ++ rest) =
      tdhSocketHeaderLength + frame.payload.length + rest.length := by
    rw [inputLen, Nat.mod_eq_of_lt hlength, hlen]
  unfold tdhsDecode
  rw [hinput, ofBytes_encode, getHeaderInfo_encode, hdatalen, if_neg (by omega),
    if_neg (by simp), if_neg (not_lt.mpr frame.payload_le), if_neg (by omega)]

/-- The answer to a complete frame in front of any bytes. Assumes: the bytes fit the `uint32_t`
length and the packet block was allocated. -/
theorem tdhsDecode_encode (pool : EasyPool) (frame : Frame) (rest : List UInt8) (room : ℕ)
    (hlength : (frame.encode ++ rest).length < 2 ^ 32)
    (hroom : easyPoolCalloc pool (packetBlockSize (batchRequestNum frame.header)) = some room) :
    tdhsDecode pool (frame.encode ++ rest) =
      ⟨.packet frame.chain rest, some (some room), 1 + frame.subFrames.length⟩ := by
  have hdatalen : frame.header.datalen = frame.payload.length := rfl
  have hrdata : frame.chain.packet.rdata = frame.payload := rfl
  rw [tdhsDecode_encode_append pool frame rest hlength, decodeFrame, getHeaderInfo_encode, hroom]
  simp only [fillPackets, getHeaderInfo_encode, headPacket_encode, hrdata, batchLoop_payload,
    drop_encode, hdatalen, List.drop_left', List.length_map, if_true]
  rfl

/-- The answer to a proper part of a frame: more bytes are needed, and once the header is there
`next_read_len` is what is missing of the frame. Assumes: the part is proper. -/
theorem tdhsDecode_take (pool : EasyPool) (frame : Frame) (count : ℕ)
    (hcount : count < frame.encode.length) :
    tdhsDecode pool (frame.encode.take count) =
      ⟨.again (if count < tdhSocketHeaderLength then none
        else some (frame.encode.length - count)), none, 0⟩ := by
  have hbound : frame.encode.length < 2 ^ 32 := by
    rw [length_encode]
    have hpayload := frame.payload_le
    unfold maxDataLength at hpayload
    unfold tdhSocketHeaderLength
    omega
  have hlen : (frame.encode.take count).length = count := by
    rw [List.length_take, Nat.min_eq_left hcount.le]
  have hinput : inputLen (frame.encode.take count) = count := by
    rw [inputLen, hlen, Nat.mod_eq_of_lt (hcount.trans hbound)]
  unfold tdhsDecode
  rw [hinput]
  by_cases hheader : count < tdhSocketHeaderLength
  · rw [if_pos hheader, if_pos hheader]
  · have hsplit : frame.encode.take count = encodeHeader magicBytes frame.header ++
        frame.payload.take (count - tdhSocketHeaderLength) := by
      rw [encode, List.take_append, length_encodeHeader _ _ rfl, List.take_of_length_le]
      exact not_lt.mp hheader
    have hwords : getHeaderInfo (frame.encode.take count) = frame.header := by
      rw [hsplit]
      exact getHeaderInfo_encodeHeader _ _ _ rfl frame.command_lt frame.seqId_lt
        frame.reserved_lt frame.payload_lt
    have hmagic : BigEndian.ofBytes (frame.encode.take count) = tdhsMagicCode := by
      rw [hsplit, encodeHeader]
      exact BigEndian.ofBytes_toBytes_append _ _ (by norm_num [tdhsMagicCode])
    have hdatalen : frame.header.datalen = frame.payload.length := rfl
    have htotal := frame.length_encode
    have hmissing : frame.payload.length - (count - tdhSocketHeaderLength) =
        frame.encode.length - count := by omega
    rw [hwords, hmagic, hdatalen, if_neg hheader, if_neg (by simp),
      if_neg (not_lt.mpr frame.payload_le), if_pos (by omega), if_neg hheader, hmissing]

/-- The packets, read off the bytes of a frame. -/
def readChain (bytes : List UInt8) : PacketChain :=
  ⟨headPacket bytes, (batchLoop (batchRequestNum (getHeaderInfo bytes))
    (bytes.drop tdhSocketHeaderLength)).packets⟩

theorem readChain_encode : readChain frame.encode = frame.chain := by
  have hhead := frame.headPacket_encode []
  have hheader := frame.getHeaderInfo_encode []
  have hpayload := frame.drop_encode []
  rw [List.append_nil] at hhead hheader
  rw [List.append_nil, List.append_nil] at hpayload
  rw [readChain, hhead, hheader, hpayload, batchLoop_payload]
  rfl

/-- A byte stream determines its requests: whatever frames it is seen as, with the first bytes of a
further one behind them, the packets are the same, and so is what is left. -/
theorem stream_determines_packets {frames others : List Frame} {part rest : List UInt8}
    {further another : Frame} (hpart : Codewords.ProperPart part further.encode)
    (hrest : Codewords.ProperPart rest another.encode)
    (hsame : encodeAll frames ++ part = encodeAll others ++ rest) :
    frames.map chain = others.map chain ∧ part = rest := by
  obtain ⟨hwords, hleft⟩ := Codewords.flatten_append_inj noWordBeginsAnother_encode _ _ (by simp)
    (by simp) ⟨_, ⟨further, rfl⟩, hpart⟩ ⟨_, ⟨another, rfl⟩, hrest⟩ hsame
  have hchains := congrArg (List.map readChain) hwords
  have hread : readChain ∘ encode = chain := funext readChain_encode
  rw [List.map_map, List.map_map, hread] at hchains
  exact ⟨hchains, hleft⟩

/-- A frame with one byte. -/
def bare : Frame :=
  have hone : 1 < 2 ^ 32 := by decide
  ⟨1, 1, 1, [1], [], hone, hone, hone, by decide, fun _ ↦ rfl, nofun, List.nil_prefix⟩

/-- A sub-frame with one byte. -/
def bareSub (byte : UInt8) : SubFrame :=
  have hbyte : byte.toNat < 2 ^ 32 := byte.toNat_lt.trans (by decide)
  ⟨magicBytes, byte.toNat, byte.toNat, byte.toNat, [byte], rfl, hbyte, hbyte, hbyte,
    (by decide : 1 < 2 ^ 32)⟩

/-- A BATCH of the requests 10 and 11, with these bytes. -/
def twoRequests (payload : List UInt8)
    (hpayload : payload = SubFrame.encodeAll [bareSub 10, bareSub 11]) : Frame :=
  ⟨requestTypeBatch, 7, 2, payload, [bareSub 10, bareSub 11], by decide, by decide,
    (by decide : [bareSub 10, bareSub 11].length < 2 ^ 32), hpayload ▸ by decide, nofun,
    fun _ ↦ rfl, hpayload ▸ List.prefix_rfl⟩

/-- Three frames with a BATCH, and the first bytes of two different further ones. -/
theorem stream_determines_packets_batch :
    Codewords.ProperPart [255, 255] bare.encode ∧
    Codewords.ProperPart [255, 255] (twoRequests _ rfl).encode ∧
    [bare, twoRequests _ rfl, bare].map chain =
      [bare, twoRequests [255, 255, 255, 255, 0, 0, 0, 10, 0, 0, 0, 10, 0, 0, 0, 10, 0, 0, 0, 1, 10,
        255, 255, 255, 255, 0, 0, 0, 11, 0, 0, 0, 11, 0, 0, 0, 11, 0, 0, 0, 1, 11] (by decide),
        bare].map chain :=
  have hpart : Codewords.ProperPart [255, 255] bare.encode := ⟨by decide, by decide⟩
  have hother : Codewords.ProperPart [255, 255] (twoRequests _ rfl).encode :=
    ⟨by decide, by decide⟩
  ⟨hpart, hother, (stream_determines_packets hpart hother (by decide)).1⟩

end Frame

end TdhSocket.Protocol
