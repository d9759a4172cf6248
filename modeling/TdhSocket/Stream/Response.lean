import TdhSocket.Library.BigEndian

/-!
# Writing a result into frames

`tdh_socket_encode_response.hpp` and `response_record`. The result of a GET is written into one
buffer: the number of columns and their types, then for each value its length in four bytes and its
bytes. Whenever the buffer is full its content is sent as a frame with the status 202 and writing
goes on at its start; what is left at the end is the frame with the status 200.

Values and even their bytes are cut anywhere. `streamedResponse_eq_some` says that the payloads in a
row are nevertheless the whole result, and that each frame has the length of its payload.
-/

set_option autoImplicit false

namespace TdhSocket.Stream

open Library

/-! ### The buffer -/

/-- `TDH_SOCKET_HEADER_LENGTH`. -/
def headerLength : ℕ := 20

/-- `CLIENT_STATUS_OK`. -/
def statusOk : ℕ := 200

/-- `CLIENT_STATUS_ACCEPT`. -/
def statusAccept : ℕ := 202

/-- A frame of a response: the status, the length field and the payload. -/
structure ResponseFrame where
  status : ℕ
  length : ℕ
  payload : List UInt8
  deriving DecidableEq, Repr

/-- The response of a request: the size of its buffer behind the space for the header, the bytes
written there, `packet.length`, and the frames sent so far. -/
structure ResponseBuffer where
  capacity : ℕ
  payload : List UInt8
  length : ℕ
  sent : List ResponseFrame
  deriving DecidableEq, Repr

variable (buffer : ResponseBuffer)

namespace ResponseBuffer

/-- `b->end - b->last`. -/
def room : ℕ := buffer.capacity - buffer.payload.length

/-- Bytes are copied to `b->last`. -/
def append (bytes : List UInt8) : ResponseBuffer :=
  { buffer with
    payload := buffer.payload ++ bytes
    length := buffer.length + bytes.length }

/-- `send_stream` on a connection that stays open. -/
def sendStream : ResponseBuffer :=
  { buffer with
    payload := []
    length := 0
    sent := buffer.sent ++ [⟨statusAccept, buffer.length, buffer.payload⟩] }

end ResponseBuffer

/-- `write_data_header_to_response`, for a value of `tdhs_write_buff_size`. -/
def writeDataHeaderToResponse (writeBuffSize : ℕ) (fieldTypes : List UInt8) : ResponseBuffer :=
  let size := (4 + fieldTypes.length) % 2 ^ 32
  let allocSize := if writeBuffSize < size then size else writeBuffSize
  { capacity := (allocSize + headerLength) % 2 ^ 32 - headerLength
    payload := BigEndian.toBytes fieldTypes.length ++ fieldTypes
    length := size
    sent := [] }

/-- The loop of `write_data_to_response` over the bytes that are left, for at most `fuel` rounds. -/
def writeLoop : ℕ → List UInt8 → ResponseBuffer → Option ResponseBuffer
  | 0, _, _ => none
  | fuel + 1, data, buffer =>
    let writeLen := min buffer.room data.length
    let written := buffer.append (data.take writeLen)
    if writeLen < data.length then writeLoop fuel (data.drop writeLen) written.sendStream
    else some written

/-- The buffer has space for the length of a value. -/
def makeRoom : ResponseBuffer :=
  if buffer.room < 4 then buffer.sendStream else buffer

/-- `write_data_to_response`. -/
def writeDataToResponse (data : List UInt8) (buffer : ResponseBuffer) : Option ResponseBuffer :=
  let started := (makeRoom buffer).append (BigEndian.toBytes data.length)
  if data = [] then some started else writeLoop (data.length + 1) data started

/-- What `response_record` writes for a value: nothing for NULL, one zero byte for the empty
string. -/
def dataOf : Option (List UInt8) → List UInt8
  | none => []
  | some [] => [0]
  | some bytes => bytes

/-- `response_record` on the values of a row. -/
def responseRecord : List (Option (List UInt8)) → ResponseBuffer → Option ResponseBuffer
  | [], buffer => some buffer
  | value :: values, buffer =>
    (writeDataToResponse (dataOf value) buffer).bind (responseRecord values)

/-- The process handler of a GET is called for each row. -/
def responseRecords : List (List (Option (List UInt8))) → ResponseBuffer → Option ResponseBuffer
  | [], buffer => some buffer
  | row :: rows, buffer => (responseRecord row buffer).bind (responseRecords rows)

/-- The last frame has what is in the buffer. -/
def allFrames : List ResponseFrame :=
  buffer.sent ++ [⟨statusOk, buffer.length, buffer.payload⟩]

/-- The frames of a result. -/
def streamedResponse (writeBuffSize : ℕ) (fieldTypes : List UInt8)
    (rows : List (List (Option (List UInt8)))) : Option (List ResponseFrame) :=
  (responseRecords rows (writeDataHeaderToResponse writeBuffSize fieldTypes)).map allFrames

/-! ### What was written -/

/-- The payloads of frames in a row. -/
def payloads (frames : List ResponseFrame) : List UInt8 := frames.flatMap ResponseFrame.payload

/-- The buffer holds what it says, and so do the frames sent. -/
structure IsFilled (buffer : ResponseBuffer) : Prop where
  length_eq : buffer.length = buffer.payload.length
  length_le : buffer.payload.length ≤ buffer.capacity
  sent_eq : ∀ frame ∈ buffer.sent,
    frame.status = statusAccept ∧ frame.length = frame.payload.length

/-- Bytes were written to a buffer and, where it was full, sent. -/
structure Extends (before after : ResponseBuffer) (data : List UInt8) : Prop where
  filled : IsFilled after
  capacity_eq : after.capacity = before.capacity
  content_eq : payloads after.sent ++ after.payload =
    payloads before.sent ++ before.payload ++ data

variable {data : List UInt8} {buffer}

theorem Extends.trans {first second third : ResponseBuffer} {more : List UInt8}
    (hfirst : Extends first second data) (hsecond : Extends second third more) :
    Extends first third (data ++ more) where
  filled := hsecond.filled
  capacity_eq := hsecond.capacity_eq.trans hfirst.capacity_eq
  content_eq := by rw [hsecond.content_eq, hfirst.content_eq, List.append_assoc]

/-- Assumes: there is room for the bytes. -/
theorem extends_append (hfilled : IsFilled buffer) {bytes : List UInt8}
    (hroom : bytes.length ≤ buffer.room) : Extends buffer (buffer.append bytes) bytes where
  filled := by
    obtain ⟨hlength, hle, hsent⟩ := hfilled
    refine ⟨?_, ?_, hsent⟩
    · simp [ResponseBuffer.append, hlength]
    · simp only [ResponseBuffer.append, List.length_append]
      unfold ResponseBuffer.room at hroom
      omega
  capacity_eq := rfl
  content_eq := (List.append_assoc _ _ _).symm

theorem extends_sendStream (hfilled : IsFilled buffer) :
    Extends buffer buffer.sendStream [] where
  filled := by
    refine ⟨rfl, Nat.zero_le _, fun frame hframe ↦ ?_⟩
    rcases List.mem_append.mp hframe with hold | hnew
    · exact hfilled.sent_eq frame hold
    · rw [List.mem_singleton.mp hnew]
      exact ⟨rfl, hfilled.length_eq⟩
  capacity_eq := rfl
  content_eq := by simp [ResponseBuffer.sendStream, payloads]

/-- The loop writes all its bytes. Each round but a first one that finds the buffer full writes at
least one byte. Assumes: there is a buffer, and a round for each byte and for a full buffer. -/
theorem writeLoop_eq_some {fuel : ℕ} (hfilled : IsFilled buffer) (hcapacity : 0 < buffer.capacity)
    (hdata : data ≠ []) (hfuel : data.length + (if buffer.room = 0 then 1 else 0) ≤ fuel) :
    ∃ after, writeLoop fuel data buffer = some after ∧ Extends buffer after data := by
  induction fuel generalizing data buffer with
  | zero =>
    have hpositive := List.length_pos_iff.mpr hdata
    omega
  | succ fuel ih =>
    have hwritten : Extends buffer (buffer.append (data.take (min buffer.room data.length)))
        (data.take (min buffer.room data.length)) :=
      extends_append hfilled ((List.length_take_le _ _).trans (Nat.min_le_left _ _))
    unfold writeLoop
    dsimp only
    split_ifs with hmore
    · have hsent := hwritten.trans (extends_sendStream hwritten.filled)
      have hleft : (data.drop (min buffer.room data.length)).length =
          data.length - min buffer.room data.length := List.length_drop
      have hrest : data.drop (min buffer.room data.length) ≠ [] :=
        List.ne_nil_of_length_pos (by omega)
      -- The buffer was just sent, so the next round writes a byte.
      have hrounds : (data.drop (min buffer.room data.length)).length +
          (if buffer.capacity = 0 then 1 else 0) ≤ fuel := by
        rw [hleft, if_neg hcapacity.ne']
        split_ifs at hfuel <;> omega
      obtain ⟨after, hloop, hafter⟩ := ih hsent.filled hcapacity hrest hrounds
      refine ⟨after, hloop, ?_⟩
      have hall := hsent.trans hafter
      rwa [List.append_nil, List.take_append_drop] at hall
    · rw [List.take_of_length_le (by omega)] at hwritten ⊢
      exact ⟨_, rfl, hwritten⟩

/-- A value is written behind its length. Assumes: the buffer has space for a length. -/
theorem writeDataToResponse_eq_some (hfilled : IsFilled buffer) (hcapacity : 4 ≤ buffer.capacity)
    (data : List UInt8) :
    ∃ after, writeDataToResponse data buffer = some after ∧
      Extends buffer after (BigEndian.toBytes data.length ++ data) := by
  have hready : Extends buffer (makeRoom buffer) [] ∧ 4 ≤ (makeRoom buffer).room := by
    unfold makeRoom
    split_ifs with hfull
    · exact ⟨extends_sendStream hfilled, hcapacity⟩
    · exact ⟨⟨hfilled, rfl, (List.append_nil _).symm⟩, not_lt.mp hfull⟩
  have hlength : (BigEndian.toBytes data.length).length ≤ (makeRoom buffer).room := by
    exact hready.2
  have hstarted := hready.1.trans (extends_append hready.1.filled hlength)
  unfold writeDataToResponse
  split_ifs with hnone
  · subst hnone
    exact ⟨_, rfl, by rwa [List.append_nil]⟩
  · have hcapacity' : 0 < ((makeRoom buffer).append (BigEndian.toBytes data.length)).capacity := by
      rw [hstarted.capacity_eq]
      omega
    have hrounds : data.length +
        (if ((makeRoom buffer).append (BigEndian.toBytes data.length)).room = 0 then 1 else 0) ≤
        data.length + 1 := by
      split_ifs <;> omega
    obtain ⟨after, hloop, hafter⟩ := writeLoop_eq_some hstarted.filled hcapacity' hnone hrounds
    exact ⟨after, hloop, hstarted.trans hafter⟩

/-- The bytes of a value. -/
def encodeValue (value : Option (List UInt8)) : List UInt8 :=
  BigEndian.toBytes (dataOf value).length ++ dataOf value

/-- The bytes of a result. -/
def encodeResult (fieldTypes : List UInt8) (rows : List (List (Option (List UInt8)))) :
    List UInt8 :=
  BigEndian.toBytes fieldTypes.length ++ fieldTypes ++ rows.flatMap (·.flatMap encodeValue)

theorem responseRecord_eq_some (hfilled : IsFilled buffer) (hcapacity : 4 ≤ buffer.capacity)
    (row : List (Option (List UInt8))) :
    ∃ after, responseRecord row buffer = some after ∧
      Extends buffer after (row.flatMap encodeValue) := by
  induction row generalizing buffer with
  | nil => exact ⟨buffer, rfl, hfilled, rfl, (List.append_nil _).symm⟩
  | cons value row ih =>
    obtain ⟨middle, hvalue, hmiddle⟩ := writeDataToResponse_eq_some hfilled hcapacity (dataOf value)
    obtain ⟨after, hrow, hafter⟩ := ih hmiddle.filled (hmiddle.capacity_eq ▸ hcapacity)
    exact ⟨after, Option.bind_eq_some_iff.mpr ⟨middle, hvalue, hrow⟩, hmiddle.trans hafter⟩

theorem responseRecords_eq_some (hfilled : IsFilled buffer) (hcapacity : 4 ≤ buffer.capacity)
    (rows : List (List (Option (List UInt8)))) :
    ∃ after, responseRecords rows buffer = some after ∧
      Extends buffer after (rows.flatMap (·.flatMap encodeValue)) := by
  induction rows generalizing buffer with
  | nil => exact ⟨buffer, rfl, hfilled, rfl, (List.append_nil _).symm⟩
  | cons row rows ih =>
    obtain ⟨middle, hrow, hmiddle⟩ := responseRecord_eq_some hfilled hcapacity row
    obtain ⟨after, hrows, hafter⟩ := ih hmiddle.filled (hmiddle.capacity_eq ▸ hcapacity)
    exact ⟨after, Option.bind_eq_some_iff.mpr ⟨middle, hrow, hrows⟩, hmiddle.trans hafter⟩

/-- Every frame of a result has the length of its payload, all but the last have the status 202, and
the payloads in a row are the bytes of the result. Assumes: the buffer is below 4 GiB. -/
theorem streamedResponse_eq_some (writeBuffSize : ℕ) (fieldTypes : List UInt8)
    (rows : List (List (Option (List UInt8))))
    (halloc : max (4 + fieldTypes.length) writeBuffSize + headerLength < 2 ^ 32) :
    ∃ chunks last, streamedResponse writeBuffSize fieldTypes rows = some (chunks ++ [last]) ∧
      payloads (chunks ++ [last]) = encodeResult fieldTypes rows ∧
      (∀ frame ∈ chunks ++ [last], frame.length = frame.payload.length) ∧
      (∀ frame ∈ chunks, frame.status = statusAccept) ∧ last.status = statusOk := by
  have hsize : (4 + fieldTypes.length) % 2 ^ 32 = 4 + fieldTypes.length :=
    Nat.mod_eq_of_lt (by omega)
  have hcapacity : (writeDataHeaderToResponse writeBuffSize fieldTypes).capacity =
      max (4 + fieldTypes.length) writeBuffSize := by
    have hmax : (if writeBuffSize < 4 + fieldTypes.length then 4 + fieldTypes.length
        else writeBuffSize) = max (4 + fieldTypes.length) writeBuffSize := by
      split_ifs <;> omega
    simp only [writeDataHeaderToResponse, hsize, hmax, Nat.mod_eq_of_lt halloc]
    omega
  have hheader : IsFilled (writeDataHeaderToResponse writeBuffSize fieldTypes) := by
    refine ⟨?_, ?_, fun _ h ↦ absurd h List.not_mem_nil⟩
    · simp only [writeDataHeaderToResponse, hsize, List.length_append, BigEndian.length_toBytes]
    · rw [hcapacity]
      simp [writeDataHeaderToResponse]
  obtain ⟨after, hrows, hafter⟩ := responseRecords_eq_some hheader (by omega) rows
  refine ⟨after.sent, ⟨statusOk, after.length, after.payload⟩, ?_, ?_, ?_, ?_, rfl⟩
  · rw [streamedResponse, hrows]
    rfl
  · have hcontent := hafter.content_eq
    simpa [payloads, encodeResult, writeDataHeaderToResponse] using hcontent
  · intro frame hframe
    rcases List.mem_append.mp hframe with hsent | hlast
    · exact (hafter.filled.sent_eq frame hsent).2
    · rw [List.mem_singleton.mp hlast]
      exact hafter.filled.length_eq
  · exact fun frame hframe ↦ (hafter.filled.sent_eq frame hframe).1

end TdhSocket.Stream
