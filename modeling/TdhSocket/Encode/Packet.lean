import TdhSocket.Execute.Scripts

/-!
# The response side of a packet

`packet.length` and the pointers `pos`, `last` and `end` of `packet.wbuff`, as the functions of
`tdh_socket_encode_response.hpp` change them, each on its own. `tdhsEncodeAsserts` are the
assertions with which `tdhs_encode` looks at a packet, in the arithmetic of `uint32_t`.

`IsReady` is what a packet is like behind every write but the bytes of a value
(`isReady_perform`): its buffer starts at `pos`, and `length` counts what is behind the space for
the header. A packet that is ready passes the assertions (`IsReady.isEncodable`,
`IsReady.asserts`).
-/

set_option autoImplicit false

namespace TdhSocket.Encode

open Protocol Execute

/-! ### Buffers -/

/-- A number as a `uint32_t`. -/
def toUint32 (number : ℤ) : ℕ := (number % 2 ^ 32).toNat

theorem toUint32_natCast {number : ℕ} (hnumber : number < 2 ^ 32) :
    toUint32 (number : ℤ) = number := by
  unfold toUint32
  omega

/-- `pos`, `last` and `end` of `easy_buf_t`, counted from the start of its memory. -/
structure EasyBuf where
  pos : ℕ
  last : ℕ
  stop : ℕ
  deriving DecidableEq, Repr

/-- The response side of `tdhs_packet_t`: `command_id_or_response_code`, `length` and `wbuff`. What
`stream_buffer` points to is the start of the memory of `wbuff` whenever it is used, since data is
written behind the header that set both. -/
structure ResponsePacket where
  code : ℕ
  length : ℕ
  wbuff : Option EasyBuf
  deriving DecidableEq, Repr

/-- `easy_buf_create` with the space for the header left free. -/
def easyBufCreate (size : ℕ) : EasyBuf := ⟨0, tdhSocketHeaderLength, size⟩

section

variable (packet : ResponsePacket)

/-- `(uint32_t) (b->end - b->last)`. -/
def ResponsePacket.room : ℕ :=
  (packet.wbuff.map fun b ↦ toUint32 ((b.stop : ℤ) - b.last)).getD 0

/-- Bytes are written at `b->last` and counted. -/
def ResponsePacket.append (count : ℕ) : ResponsePacket :=
  { packet with
    length := (packet.length + count) % 2 ^ 32
    wbuff := packet.wbuff.map fun b ↦ { b with last := b.last + count } }

/-! ### The writers -/

/-- `CLIENT_STATUS_ACCEPT`. -/
def clientStatusAccept : ℕ := 202

/-- `tdhs_response_batch`. -/
def tdhsResponseBatch : ResponsePacket :=
  ⟨clientStatusMultiStatus, 0, some (easyBufCreate tdhSocketHeaderLength)⟩

/-- `tdhs_response_error`. -/
def tdhsResponseError (status : ℕ) : ResponsePacket :=
  { code := status
    length := 4
    wbuff := some ⟨0, tdhSocketHeaderLength + 4, 4 + tdhSocketHeaderLength⟩ }

/-- `tdhs_init_response`. -/
def tdhsInitResponse : ResponsePacket :=
  { packet with code := clientStatusOk, length := 0 }

/-- The part of the two header functions behind the size of the buffer: a fresh buffer with the
number of columns and their types. -/
def writeHeader (num allocSize : ℕ) : ResponsePacket :=
  ResponsePacket.append
    { packet with wbuff := some (easyBufCreate ((allocSize + tdhSocketHeaderLength) % 2 ^ 32)) }
    (4 + num)

/-- `write_data_header_to_response`. -/
def writeDataHeaderToResponse (fieldNum writeBuffSize : ℕ) : ResponsePacket :=
  let size := (4 + fieldNum) % 2 ^ 32
  writeHeader packet fieldNum (if writeBuffSize < size then size else writeBuffSize)

/-- `write_update_header_to_response`. -/
def writeUpdateHeaderToResponse (fieldSize num : ℕ) : ResponsePacket :=
  writeHeader packet num ((4 + num + (4 + fieldSize) * num) % 2 ^ 32)

/-- One value of the enders: its length and its text. -/
def writeEnder (writeLen : ℕ) : ResponsePacket :=
  (packet.append 4).append writeLen

/-- A write that hands nothing over on the way. The bytes of a value are written in stages. -/
def ResponsePacket.perform : Write → ResponsePacket
  | .batch => tdhsResponseBatch
  | .error status _ => tdhsResponseError status
  | .dataHeader types writeBuffSize =>
    writeDataHeaderToResponse (tdhsInitResponse packet) types.length writeBuffSize
  | .updateHeader _ fieldSize num =>
    writeUpdateHeaderToResponse (tdhsInitResponse packet) fieldSize num
  | .value text => writeEnder packet text.length
  | .data _ => packet

/-- What `send_stream` does to the packet behind its wait. -/
def resetStream : ResponsePacket :=
  { tdhsInitResponse packet with
    wbuff := packet.wbuff.map fun b ↦ { b with pos := 0, last := tdhSocketHeaderLength } }

/-! ### The assertions -/

/-- The assertions of `tdhs_encode` on one packet. -/
def tdhsEncodeAsserts : Bool :=
  match packet.wbuff with
  | none => false
  | some b =>
    (if packet.code = clientStatusMultiStatus then packet.length == 0
      else decide (0 < packet.length)) &&
    (if packet.code = clientStatusMultiStatus ∨ packet.code = requestTypeBatch then
      toUint32 ((b.last : ℤ) - b.pos) == tdhSocketHeaderLength
    else packet.length ==
      toUint32 ((toUint32 ((b.last : ℤ) - b.pos) : ℤ) - tdhSocketHeaderLength))

/-- What a packet that is handed to `tdhs_encode` has to be like: it has a buffer, which is only the
space for the header for the status 207, and otherwise as many bytes more as `length` says, at least
one. -/
def IsEncodable : Prop :=
  ∃ b, packet.wbuff = some b ∧
    if packet.code = clientStatusMultiStatus then
      packet.length = 0 ∧ b.last = b.pos + tdhSocketHeaderLength
    else 0 < packet.length ∧ b.last = b.pos + tdhSocketHeaderLength + packet.length

end

/-- A status of a frame that is no header of a batch. -/
def IsFrameStatus (code : ℕ) : Prop :=
  code = clientStatusOk ∨ code = clientStatusAccept ∨ 400 ≤ code

/-- The buffer starts at `pos`, and `length` counts what is behind the space for the header. -/
structure IsCounted (packet : ResponsePacket) (b : EasyBuf) : Prop where
  wbuff : packet.wbuff = some b
  pos : b.pos = 0
  last : b.last = tdhSocketHeaderLength + packet.length
  lt : b.last < 2 ^ 32

/-- A packet that may be handed to `tdhs_encode`. -/
def IsReady (packet : ResponsePacket) : Prop :=
  ∃ b, IsCounted packet b ∧
    ((packet.code = clientStatusMultiStatus ∧ packet.length = 0) ∨
      (IsFrameStatus packet.code ∧ 0 < packet.length))

theorem IsFrameStatus.ne {code : ℕ} (hcode : IsFrameStatus code) :
    code ≠ clientStatusMultiStatus ∧ code ≠ requestTypeBatch := by
  unfold IsFrameStatus clientStatusOk clientStatusAccept at hcode
  unfold clientStatusMultiStatus requestTypeBatch
  omega

variable {packet : ResponsePacket}

theorem IsReady.isEncodable (hready : IsReady packet) :
    IsEncodable packet := by
  obtain ⟨b, hcounted, hstatus⟩ := hready
  refine ⟨b, hcounted.wbuff, ?_⟩
  rw [hcounted.last, hcounted.pos, Nat.zero_add]
  rcases hstatus with ⟨hcode, hlength⟩ | ⟨hcode, hlength⟩
  · rw [if_pos hcode, hlength]
    exact ⟨rfl, rfl⟩
  · rw [if_neg hcode.ne.1]
    exact ⟨hlength, rfl⟩

theorem IsReady.asserts (hready : IsReady packet) :
    tdhsEncodeAsserts packet = true := by
  obtain ⟨b, hcounted, hstatus⟩ := hready
  have hspan : toUint32 ((b.last : ℤ) - b.pos) = tdhSocketHeaderLength + packet.length := by
    rw [hcounted.pos, Nat.cast_zero, Int.sub_zero, toUint32_natCast hcounted.lt, hcounted.last]
  have hlt : packet.length < 2 ^ 32 := by
    have hlast := hcounted.last
    have hbound := hcounted.lt
    omega
  have hcount : toUint32 (((tdhSocketHeaderLength + packet.length : ℕ) : ℤ) -
      tdhSocketHeaderLength) = packet.length := by
    rw [Nat.cast_add, add_sub_cancel_left, toUint32_natCast hlt]
  unfold tdhsEncodeAsserts
  rw [hcounted.wbuff]
  dsimp only
  rw [hspan]
  rcases hstatus with ⟨hcode, hlength⟩ | ⟨hcode, hlength⟩
  · rw [if_pos hcode, if_pos (.inl hcode), hlength]
    rfl
  · rw [if_neg hcode.ne.1, if_neg (not_or.mpr hcode.ne), hcount]
    simp [hlength]

/-! ### What may be written next -/

/-- The buffer of a GET: it has space for the length of a value behind the header. -/
structure IsFilling (packet : ResponsePacket) (b : EasyBuf) : Prop extends IsCounted packet b where
  code : packet.code = clientStatusOk
  last_le : b.last ≤ b.stop
  stop : tdhSocketHeaderLength + 4 ≤ b.stop
  stop_lt : b.stop < 2 ^ 32

/-- What a packet is like when data or values may be written to it. Three values of 48 characters
are far below the limits of a `uint32_t`. -/
def Accepts : Openness → ResponsePacket → Prop
  | .shut, _ => True
  | .forData, packet => ∃ b, IsFilling packet b
  | .forValues left, packet =>
    ∃ b, IsCounted packet b ∧ packet.code = clientStatusOk ∧ 0 < packet.length ∧
      b.last + 52 * left ≤ 200

/-- Bytes that fit a `uint32_t`. -/
theorem IsCounted.append {b : EasyBuf} (hcounted : IsCounted packet b)
    {count : ℕ} (hcount : b.last + count < 2 ^ 32) :
    IsCounted (packet.append count) { b with last := b.last + count } ∧
      (packet.append count).length = packet.length + count := by
  have hlast := hcounted.last
  have hlength : (packet.append count).length = packet.length + count :=
    Nat.mod_eq_of_lt (by omega)
  refine ⟨⟨?_, hcounted.pos, ?_, hcount⟩, hlength⟩
  · simp [ResponsePacket.append, hcounted.wbuff]
  · dsimp only
    omega

/-- A header behind `tdhs_init_response`. Assumes: its length is a `uint32_t`. -/
theorem isCounted_writeHeader (packet : ResponsePacket) {num : ℕ} (allocSize : ℕ)
    (hnum : tdhSocketHeaderLength + (4 + num) < 2 ^ 32) :
    IsCounted (writeHeader (tdhsInitResponse packet) num allocSize)
        ⟨0, tdhSocketHeaderLength + (4 + num), (allocSize + tdhSocketHeaderLength) % 2 ^ 32⟩ ∧
      (writeHeader (tdhsInitResponse packet) num allocSize).length = 4 + num := by
  have hfresh : IsCounted
      { tdhsInitResponse packet with
        wbuff := some (easyBufCreate ((allocSize + tdhSocketHeaderLength) % 2 ^ 32)) }
      (easyBufCreate ((allocSize + tdhSocketHeaderLength) % 2 ^ 32)) :=
    ⟨rfl, rfl, rfl, Nat.lt_of_le_of_lt (Nat.le_add_right _ _) hnum⟩
  obtain ⟨hcounted, hlength⟩ := hfresh.append hnum
  exact ⟨hcounted, hlength.trans (Nat.zero_add _)⟩

/-- Every write but data that comes in its order leaves a packet ready, and open for what may come
next. -/
theorem isReady_perform {openness after : Openness} {write : Write}
    (haccepts : Accepts openness packet) (hnext : openness.next write = some after)
    (hdata : ∀ bytes, write ≠ .data bytes) :
    IsReady (packet.perform write) ∧ Accepts after (packet.perform write) := by
  have hheader : tdhSocketHeaderLength = 20 := rfl
  cases write with
  | batch =>
    obtain rfl : Openness.shut = after := by
      cases openness <;> exact Option.some.inj hnext
    exact ⟨⟨_, ⟨rfl, rfl, rfl, by decide⟩, .inl ⟨rfl, rfl⟩⟩, trivial⟩
  | error status code =>
    obtain ⟨hstatus, rfl⟩ : 400 ≤ status ∧ Openness.shut = after := by
      cases openness <;> simpa [Openness.next] using hnext
    exact ⟨⟨_, ⟨rfl, rfl, rfl, by decide⟩, .inr ⟨.inr (.inr hstatus), Nat.zero_lt_succ 3⟩⟩,
      trivial⟩
  | dataHeader types writeBuffSize =>
    obtain ⟨hsize, rfl⟩ : max (4 + types.length) writeBuffSize + tdhSocketHeaderLength < 2 ^ 32 ∧
        Openness.forData = after := by
      cases openness <;> simpa [Openness.next] using hnext
    have hmod : (4 + types.length) % 2 ^ 32 = 4 + types.length := Nat.mod_eq_of_lt (by omega)
    have halloc : (if writeBuffSize < 4 + types.length then 4 + types.length
        else writeBuffSize) = max (4 + types.length) writeBuffSize := by
      split_ifs <;> omega
    obtain ⟨hcounted, hlength⟩ := isCounted_writeHeader packet
      (max (4 + types.length) writeBuffSize)
      (by omega : tdhSocketHeaderLength + (4 + types.length) < _)
    have hperform : packet.perform (.dataHeader types writeBuffSize) =
        writeHeader (tdhsInitResponse packet) types.length
          (max (4 + types.length) writeBuffSize) := by
      simp only [ResponsePacket.perform, writeDataHeaderToResponse, hmod, halloc]
    rw [hperform]
    rw [Nat.mod_eq_of_lt hsize] at hcounted
    refine ⟨⟨_, hcounted, .inr ⟨.inl rfl, ?_⟩⟩, _, hcounted, rfl, ?_, ?_, hsize⟩
    · omega
    · dsimp only
      omega
    · dsimp only
      omega
  | updateHeader type fieldSize num =>
    obtain ⟨hnum, rfl⟩ : num ≤ 2 ∧ Openness.forValues num = after := by
      cases openness <;> simpa [Openness.next] using hnext
    obtain ⟨hcounted, hlength⟩ := isCounted_writeHeader packet
      ((4 + num + (4 + fieldSize) * num) % 2 ^ 32)
      (by omega : tdhSocketHeaderLength + (4 + num) < _)
    have hpositive : 0 < (packet.perform (.updateHeader type fieldSize num)).length :=
      Nat.lt_of_lt_of_eq (by omega) hlength.symm
    refine ⟨⟨_, hcounted, .inr ⟨.inl rfl, hpositive⟩⟩, _, hcounted, rfl, hpositive, ?_⟩
    dsimp only
    omega
  | value text =>
    cases openness with
    | shut => cases hnext
    | forData => cases hnext
    | forValues left =>
      cases left with
      | zero => cases hnext
      | succ left =>
        obtain ⟨htext, rfl⟩ : text.length ≤ 48 ∧ Openness.forValues left = after := by
          simpa [Openness.next] using hnext
        obtain ⟨b, hcounted, hcode, hpositive, hbound⟩ := haccepts
        obtain ⟨hword, hwordLength⟩ := hcounted.append (by omega : b.last + 4 < 2 ^ 32)
        obtain ⟨htextCounted, hlength⟩ := hword.append
          (by dsimp only; omega : _ + text.length < 2 ^ 32)
        have hgrown : 0 < (packet.perform (.value text)).length :=
          Nat.lt_of_lt_of_eq (by omega) hlength.symm
        refine ⟨⟨_, htextCounted, .inr ⟨.inl hcode, hgrown⟩⟩, _, htextCounted, hcode, hgrown, ?_⟩
        dsimp only
        omega
  | data bytes => exact absurd rfl (hdata bytes)

/-! ### The buffer of a stream -/

section Filling

variable {packet : ResponsePacket} {b : EasyBuf} (hfilling : IsFilling packet b)

include hfilling

theorem IsFilling.room : packet.room = b.stop - b.last := by
  have hle := hfilling.last_le
  have hlt := hfilling.stop_lt
  unfold ResponsePacket.room
  rw [hfilling.wbuff, Option.map_some, Option.getD_some, ← Nat.cast_sub hle]
  exact toUint32_natCast (by omega)

/-- Bytes for which there is room. -/
theorem IsFilling.append {count : ℕ} (hcount : count ≤ packet.room) :
    IsFilling (packet.append count) { b with last := b.last + count } ∧
      (packet.append count).length = packet.length + count := by
  rw [hfilling.room] at hcount
  have hle := hfilling.last_le
  have hlt := hfilling.stop_lt
  obtain ⟨hcounted, hlength⟩ := hfilling.toIsCounted.append
    (by omega : b.last + count < 2 ^ 32)
  refine ⟨⟨hcounted, hfilling.code, ?_, hfilling.stop, hlt⟩, hlength⟩
  dsimp only
  omega

end Filling

/-- The buffer behind the wait of `send_stream` is empty, and has room for the length of a value. -/
theorem IsFilling.resetStream {b : EasyBuf}
    (hfilling : IsFilling packet b) :
    (∃ emptied, IsFilling (resetStream packet) emptied) ∧ 4 ≤ (resetStream packet).room := by
  have hstop := hfilling.stop
  have hlt := hfilling.stop_lt
  have hemptied : IsFilling (Encode.resetStream packet)
      { b with pos := 0, last := tdhSocketHeaderLength } := by
    refine ⟨⟨?_, rfl, rfl, ?_⟩, rfl, ?_, hstop, hlt⟩
    · simp [Encode.resetStream, hfilling.wbuff]
    · dsimp only
      omega
    · dsimp only
      omega
  refine ⟨⟨_, hemptied⟩, ?_⟩
  rw [hemptied.room]
  dsimp only
  omega

end TdhSocket.Encode
