import TdhSocket.Connection.Delivery
import TdhSocket.Protocol.Framing

/-!
# The bytes that move to a new message

`easy_connection_recycle_message` copies the bytes that a message has left into a new message. The
buffer of the new one is what a pool of `default_message_len` and that many bytes more leaves behind
its headers, which can be less than the bytes.

With a `default_message_len` of `EASY_IO_BUFFER_SIZE` it is always enough. Before that value is set
no read has filled the space it asked for, and `IsTidy` says what the message that is read into then
looks like: it holds a part of a header and asks for a buffer as it was created, or it asks for
exactly the rest of a frame, or it was just recycled and is not recycled next. A read that completes
a frame and recycles is of the first kind and has used up more than it held before, so that what is
left is less than one read.
-/

set_option autoImplicit false

namespace TdhSocket.Connection

open Protocol Library

/-! ### What the decode loop leaves -/

/-- The message asks for exactly the bytes its frame lacks. -/
structure AsksForRest (message : EasyMessage) : Prop where
  header : tdhSocketHeaderLength ≤ message.input.length
  next : message.input.length + message.nextReadLen = frameLength message.input
  bound : frameLength message.input ≤ tdhSocketHeaderLength + maxDataLength

/-- What the decode loop does to the message. -/
structure IsDecoded (before after : DecodeLoop) : Prop where
  recycleCnt : after.message.recycleCnt = before.message.recycleCnt
  count_le : before.count ≤ after.count
  kept : after.count = before.count → after.message.input = before.message.input
  used : before.count < after.count → after.message.input.length +
    frameLength before.message.input ≤ before.message.input.length
  rest : (after.message.input.length < tdhSocketHeaderLength ∧
      after.message.nextReadLen = before.message.nextReadLen) ∨ AsksForRest after.message

/-- A packet uses up its frame. -/
theorem length_rest_of_packet {pool : EasyPool} {input : InputBuffer} {chain : PacketChain}
    {rest : List UInt8} (hpacket : (tdhsDecode pool input.bytes).answer = .packet chain rest) :
    rest.length + frameLength input.bytes = input.bytes.length := by
  obtain ⟨haccepted, -, rfl⟩ := tdhsDecode_eq_packet_iff.mp hpacket
  have hheader := input.inputLen_eq ▸ haccepted.header
  have hpayload := input.inputLen_eq ▸ haccepted.payload
  rw [List.length_drop, List.length_drop]
  unfold frameLength
  omega

/-- The decode loop uses up frames from the front. Assumes: enough fuel for the input, and an input
within the `uint32_t` length. -/
theorem decodeLoop_isDecoded (memoryOk : Bool) (fuel : ℕ) (before after : DecodeLoop)
    (hfuel : before.message.input.length < fuel)
    (hlength : before.message.input.length < 2 ^ 32)
    (hloop : decodeLoop memoryOk fuel before = .ok after) : IsDecoded before after := by
  induction fuel generalizing before with
  | zero => exact absurd hfuel (Nat.not_lt_zero _)
  | succ fuel ih =>
    unfold decodeLoop at hloop
    split_ifs at hloop with hempty
    · cases hloop
      refine ⟨rfl, le_rfl, fun _ ↦ rfl, fun hless ↦ absurd hless (lt_irrefl _), Or.inl ⟨?_, rfl⟩⟩
      rw [hempty]
      exact Nat.zero_lt_succ _
    · let buffer : InputBuffer := ⟨before.message.input, hlength⟩
      dsimp only at hloop
      split at hloop
      · rename_i hagain
        have hbuffer : (tdhsDecode (messagePool before.message memoryOk) buffer.bytes).answer =
            .again none := hagain
        cases hloop
        refine ⟨rfl, le_rfl, fun _ ↦ rfl, fun hless ↦ absurd hless (lt_irrefl _), Or.inl ⟨?_, rfl⟩⟩
        rcases tdhsDecode_eq_again_iff.mp hbuffer with hshort | hpart
        · exact hshort.1
        · cases hpart.2.2.2.2
      · rename_i nextReadLen hagain
        have hbuffer : (tdhsDecode (messagePool before.message memoryOk) buffer.bytes).answer =
            .again (some nextReadLen) := hagain
        cases hloop
        refine ⟨rfl, le_rfl, fun _ ↦ rfl, fun hless ↦ absurd hless (lt_irrefl _), Or.inr ?_⟩
        rcases tdhsDecode_eq_again_iff.mp hbuffer with hshort | hpart
        · cases hshort.2
        · obtain ⟨hheader, -, hdatalen, hless, hnext⟩ := hpart
          cases hnext
          exact ⟨hheader, Nat.add_sub_cancel' hless.le, Nat.add_le_add_left hdatalen _⟩
      · cases hloop
      · rename_i chain rest hpacket
        have hrest : rest.length + frameLength buffer.bytes = buffer.bytes.length :=
          length_rest_of_packet hpacket
        have hframe : tdhSocketHeaderLength ≤ frameLength before.message.input :=
          Nat.le_add_right _ _
        have htwenty : tdhSocketHeaderLength = 20 := rfl
        dsimp only [buffer] at hrest
        have hdecoded := ih _ (by dsimp only; omega) (by dsimp only; omega) hloop
        have hless : before.count < after.count := hdecoded.count_le
        have hleft : after.message.input.length ≤ rest.length := by
          rcases hdecoded.count_le.eq_or_lt with hsame | hmore
          · rw [hdecoded.kept hsame.symm]
          · exact Nat.le_of_add_right_le (hdecoded.used hmore)
        refine ⟨hdecoded.recycleCnt, hless.le, fun hsame ↦ absurd hsame hless.ne', fun _ ↦ ?_,
          hdecoded.rest⟩
        omega

/-! ### The buffers of new messages -/

/-- The buffer of a message that is created while `default_message_len` is zero. -/
def firstBufferSize : ℕ := 288

theorem messageBufferSize_small {length : ℕ} (hlength : length ≤ firstBufferSize) :
    messageBufferSize (0 + length) = firstBufferSize := by
  unfold firstBufferSize at hlength ⊢
  rw [messageBufferSize_eq]
  omega

/-! ### The message that is read into -/

/-- The message that is read into while `default_message_len` is zero: just recycled, with a part of
a header, or with a part of a frame. -/
inductive IsTidy (message : EasyMessage) : Prop
  | fresh (hrecycle : message.recycleCnt = 0) (hnext : message.nextReadLen = firstBufferSize)
      (hinput : message.input.length ≤ firstBufferSize)
  | short (hrecycle : message.recycleCnt < recycleLimit)
      (hnext : message.nextReadLen = firstBufferSize)
      (hinput : message.input.length < tdhSocketHeaderLength)
  | part (hrecycle : message.recycleCnt < recycleLimit) (hrest : AsksForRest message)

variable {message : EasyMessage} {conn : EasyConnection} {chunk : List UInt8}

/-- Whether a message is tidy does not depend on its requests and its status. -/
theorem IsTidy.marked (htidy : IsTidy message) (status : MessageStatus)
    (requestList : List PacketChain) (left : ℕ) :
    IsTidy { message with
      status := status, requestList := requestList, requestListCount := left } := by
  cases htidy with
  | fresh hrecycle hnext hinput => exact .fresh hrecycle hnext hinput
  | short hrecycle hnext hinput => exact .short hrecycle hnext hinput
  | part hrecycle hrest => exact .part hrecycle ⟨hrest.header, hrest.next, hrest.bound⟩

/-- `default_message_len` has one of its two values, and the message that is read into is tidy
before it gets the large one. -/
structure IsTidyConnection (conn : EasyConnection) : Prop where
  default : conn.defaultMessageLen = 0 ∨ conn.defaultMessageLen = easyIoBufferSize
  reads : ReadsInto conn fun message ↦ conn.defaultMessageLen = 0 → IsTidy message

theorem isTidy_new : IsTidy (easyMessageCreate 0) :=
  .short (Nat.zero_lt_succ _) (messageBufferSize_small (Nat.zero_le _)) (Nat.zero_lt_succ _)

variable {next : EasyConnection} {env : ReadEnv} {recycled : Recycled} {loop : DecodeLoop}

/-! ### One read -/

/-- A read into a message that asks for the rest of its frame completes no frame, or leaves
nothing. -/
theorem decoded_of_asksForRest
    (hrest : AsksForRest (readMessage conn))
    (hchunk : chunk.length ≤ (readMessage conn).nextReadLen)
    (hdecoded : IsDecoded ⟨filledMessage conn chunk, 0, conn.intact⟩ loop) :
    loop.count = 0 ∨ loop.message.input = [] := by
  rcases Nat.eq_zero_or_pos loop.count with hnone | hsome
  · exact Or.inl hnone
  · right
    have huse := hdecoded.used hsome
    have hheader : getHeaderInfo ((readMessage conn).input ++ chunk) =
        getHeaderInfo (readMessage conn).input := getHeaderInfo_append hrest.header
    have hwhole := hrest.next
    simp only [filledMessage_fields, List.length_append] at huse
    unfold frameLength at huse hwhole
    rw [hheader] at huse
    exact List.length_eq_zero_iff.mp (by omega)

section

variable (htidy : IsTidy (readMessage conn))

include htidy

section

variable (hless : chunk.length < (readMessage conn).nextReadLen)
  (hdecoded : IsDecoded ⟨filledMessage conn chunk, 0, conn.intact⟩ loop)

include hless hdecoded

/-- While `default_message_len` stays zero, a read that recycles leaves less than a buffer behind.
Assumes: the message that is read into is tidy, and the read returned less than was asked for. -/
theorem length_le_of_recycled
    (hlimit : recycleLimit ≤ (countRequests loop).recycleCnt) (hinput : loop.message.input ≠ []) :
    loop.message.input.length ≤ firstBufferSize := by
  have hcnt := hdecoded.recycleCnt
  have hused := hdecoded.used
  simp only [filledMessage_fields, List.length_append] at hcnt hused
  have hcounted : (countRequests loop).recycleCnt =
      if loop.count = 0 then loop.message.recycleCnt else loop.message.recycleCnt + 1 := rfl
  rw [hcounted, hcnt] at hlimit
  have hframe : tdhSocketHeaderLength ≤
      frameLength ((readMessage conn).input ++ chunk) := Nat.le_add_right _ _
  have hsixteen : recycleLimit = 16 := rfl
  cases htidy with
  | fresh hrecycle hnext hlength =>
    -- the sixteenth read of a message is not its first
    split_ifs at hlimit <;> omega
  | short hrecycle hnext hlength =>
    split_ifs at hlimit with hnone
    · omega
    · omega
  | part hrecycle hrest =>
    rcases decoded_of_asksForRest hrest hless.le hdecoded with hnone | hempty
    · rw [if_pos hnone] at hlimit
      omega
    · exact absurd hempty hinput

/-- What the decode loop of a read leaves, if it leaves anything and `default_message_len` is still
zero, is tidy. -/
theorem isTidy_of_decoded
    (hrecycle : (countRequests loop).recycleCnt < recycleLimit) (hinput : loop.message.input ≠ []) :
    IsTidy (countRequests loop) := by
  rcases hdecoded.rest with ⟨hshort, hnext⟩ | hrest
  · rw [filledMessage_fields.2.2.1] at hnext
    cases htidy with
    | fresh _ hfirst _ => exact .short hrecycle (hnext.trans hfirst) hshort
    | short _ hfirst _ => exact .short hrecycle (hnext.trans hfirst) hshort
    | part _ hpart =>
      rcases decoded_of_asksForRest hpart hless.le hdecoded with hnone | hempty
      · have hbefore := hpart.header
        rw [hdecoded.kept hnone, filledMessage_fields.1, List.length_append] at hshort
        omega
      · exact absurd hempty hinput
  · exact .part hrecycle ⟨hrest.header, hrest.next, hrest.bound⟩

end

/-- The bytes of a tidy message and of a read into it are few. -/
theorem length_filledMessage_lt (hchunk : chunk.length ≤ (readMessage conn).nextReadLen) :
    (filledMessage conn chunk).input.length < 2 ^ 32 := by
  rw [filledMessage_fields.1, List.length_append]
  have hfirst : firstBufferSize = 288 := rfl
  have htwenty : tdhSocketHeaderLength = 20 := rfl
  have hlarge : maxDataLength = 67108864 := rfl
  cases htidy with
  | fresh _ hnext hlength => omega
  | short _ hnext hlength => omega
  | part _ hrest =>
    have hnext := hrest.next
    have hbound := hrest.bound
    omega

end

/-- After a read that leaves `default_message_len` at zero, it was zero before and the read returned
less than was asked for. -/
theorem less_of_nextDefaultMessageLen {count : ℕ}
    (hcount : count ≤ (readMessage conn).nextReadLen)
    (hzero : nextDefaultMessageLen conn count = 0) :
    conn.defaultMessageLen = 0 ∧ count < (readMessage conn).nextReadLen := by
  have hlarge : easyIoBufferSize = 8128 := rfl
  unfold nextDefaultMessageLen at hzero
  split_ifs at hzero with hfull
  · omega
  · refine ⟨hzero, lt_of_le_of_ne hcount fun hsame ↦ hfull ⟨?_, hsame.symm⟩⟩
    omega

theorem nextDefaultMessageLen_cases (count : ℕ)
    (hdefault : conn.defaultMessageLen = 0 ∨ conn.defaultMessageLen = easyIoBufferSize) :
    nextDefaultMessageLen conn count = 0 ∨
      nextDefaultMessageLen conn count = easyIoBufferSize := by
  unfold nextDefaultMessageLen
  split_ifs
  · exact Or.inr rfl
  · exact hdefault

section

variable (hconn : IsTidyConnection conn)

include hconn

/-- The bytes that are copied in a read fit. Assumes: the connection is tidy, and `read()` returned
at most what was asked for. -/
theorem IsTidyConnection.copyFits (hchunk : chunk.length ≤ (readMessage conn).nextReadLen)
    (hparts : ReadParts conn chunk env loop recycled) : recycled.copyFits = true := by
  rcases easyConnectionRecycleMessage_eq_ok hparts.recycle with
    ⟨-, rfl⟩ | ⟨hlimit, hinput, -, -, -, -, -, hfits⟩
  · rfl
  · rw [hfits, decide_eq_true_iff]
    rcases nextDefaultMessageLen_cases chunk.length hconn.default with hzero | hlarge
    · obtain ⟨hbefore, hless⟩ := less_of_nextDefaultMessageLen hchunk hzero
      have htidy := hconn.reads.readMessage.1 hbefore
      have hdecoded := decodeLoop_isDecoded _ _ _ _ (Nat.lt_succ_self _)
        (length_filledMessage_lt htidy hchunk) hparts.decode
      have hsmall : (countRequests loop).input.length ≤ firstBufferSize :=
        length_le_of_recycled htidy hless hdecoded hlimit hinput
      rw [hzero, messageBufferSize_small hsmall]
      exact hsmall
    · -- the large default leaves room for any bytes
      have hsize : easyIoBufferSize = 8128 := rfl
      rw [hlarge, messageBufferSize_eq, hsize]
      omega

/-- A read keeps the connection tidy. -/
theorem IsTidyConnection.read (hchunk : chunk.length ≤ (readMessage conn).nextReadLen)
    (hread : easyConnectionOnReadable conn chunk env = .ok next) : IsTidyConnection next := by
  rcases easyConnectionOnReadable_cases conn chunk env with
    ⟨reason, herror, -⟩ | ⟨loop, recycled, other, hok, hparts, hdoes⟩
  · cases herror.symm.trans hread
  cases hok.symm.trans hread
  obtain ⟨hmessage, hidle⟩ := hconn.reads.readMessage
  have hdefault := hdoes.defaultMessageLen
  refine ⟨hdefault ▸ nextDefaultMessageLen_cases chunk.length hconn.default,
    hdoes.reads _ ?_ (fun _ hzero ↦ ?_) fun hinput left hzero ↦ ?_⟩
  · rcases easyConnectionRecycleMessage_eq_ok hparts.recycle with ⟨-, rfl⟩ | ⟨-, -, holder, -⟩
    · exact hidle
    · exact holder hidle
  · rw [← hdefault, hzero]
    exact isTidy_new
  · -- the message that goes on, where `default_message_len` is still zero and bytes are left
    rw [hdefault] at hzero
    obtain ⟨hbefore, hless⟩ := less_of_nextDefaultMessageLen hchunk hzero
    have htidy := hmessage hbefore
    have hdecoded := decodeLoop_isDecoded _ _ _ _ (Nat.lt_succ_self _)
      (length_filledMessage_lt htidy hchunk) hparts.decode
    rcases easyConnectionRecycleMessage_eq_ok hparts.recycle with
      ⟨hkeep, rfl⟩ | ⟨hlimit, hsome, -, hbytes, -, hcnt, hnext, -⟩
    · exact (isTidy_of_decoded htidy hless hdecoded (hkeep.resolve_right hinput) hinput).marked
        _ _ _
    · have hsmall : (countRequests loop).input.length ≤ firstBufferSize :=
        length_le_of_recycled htidy hless hdecoded hlimit hsome
      rw [hzero, messageBufferSize_small hsmall] at hnext
      exact .fresh hcnt hnext (by rw [hbytes]; exact hsmall)

/-- An answered request keeps the connection tidy. -/
theorem IsTidyConnection.response (position : ℕ) :
    IsTidyConnection (easyConnectionSendResponse conn position) := by
  have hdefault := (easyConnectionSendResponse_eq conn position).1
  refine ⟨hdefault ▸ hconn.default, ?_⟩
  rw [hdefault]
  exact hconn.reads.response (fun _ _ htidy hzero ↦ (htidy hzero).marked _ _ _) position

end

/-! ### Runs -/

/-- Every connection that a run reaches is tidy. Assumes: `read()` returns at most what was asked
for. -/
theorem isTidyConnection_of_run {final : EasyConnection} {events : List Event}
    (hconn : IsTidyConnection conn) (hadmissible : Admissible conn events)
    (hrun : run conn events = .ok final) : IsTidyConnection final := by
  induction events generalizing conn with
  | nil =>
    cases hrun
    exact hconn
  | cons event events ih =>
    unfold run at hrun
    obtain ⟨hevent, hrest⟩ := hadmissible
    cases hstep : step conn event with
    | error reason =>
      rw [hstep] at hrun
      cases hrun
    | ok next =>
      rw [hstep] at hrun hrest
      refine ih ?_ hrest hrun
      cases event with
      | read chunk env => exact hconn.read hevent.2 hstep
      | response position =>
        cases hstep
        exact hconn.response position

/-- In every connection that a run of reads and answers reaches, whatever the bytes are, the bytes
that the next read copies into a new message fit its buffer. -/
theorem recycled_input_fits (events : List Event) (conn : EasyConnection) (chunk : List UInt8)
    (env : ReadEnv) (loop : DecodeLoop) (recycled : Recycled)
    (hadmissible : Admissible easyConnectionNew events)
    (hrun : run easyConnectionNew events = .ok conn)
    (hread : AdmissibleRead conn (.read chunk env))
    (hparts : ReadParts conn chunk env loop recycled) : recycled.copyFits = true := by
  have hnew : IsTidyConnection easyConnectionNew :=
    ⟨Or.inl rfl, readsInto_new fun _ ↦ isTidy_new⟩
  exact (isTidyConnection_of_run hnew hadmissible hrun).copyFits hread.2 hparts

/-- A connection behind fifteen reads that each complete a frame and leave a byte. -/
def lateConnection : EasyConnection :=
  (run easyConnectionNew (lateChunks 15)).toOption.getD easyConnectionNew

/-- The sixteenth of these reads. -/
def lateChunk : List UInt8 := ((Frame.encodeAll (emptyFrames 17)).drop 301).take 20

/-- What its decode loop leaves. -/
def lateLoop : DecodeLoop :=
  (decodeLoop true ((filledMessage lateConnection lateChunk).input.length + 1)
    ⟨filledMessage lateConnection lateChunk, 0, true⟩).toOption.getD
    ⟨filledMessage lateConnection lateChunk, 0, true⟩

/-- The new message of the sixteenth read. -/
def lateRecycled : Recycled :=
  (easyConnectionRecycleMessage true 0 (olderMessages lateConnection)
    (countRequests lateLoop)).toOption.getD ⟨[], easyMessageCreate 0, false⟩

theorem recycled_input_fits_sixteenthRead :
    (countRequests lateLoop).recycleCnt = recycleLimit ∧ lateRecycled.message.recycleCnt = 0 ∧
      lateRecycled.message.input.length = 1 ∧ lateRecycled.copyFits = true := by
  have hrun : run easyConnectionNew (lateChunks 15) = .ok lateConnection := by decide +kernel
  have hparts : ReadParts lateConnection lateChunk calmEnv lateLoop lateRecycled :=
    ⟨by decide +kernel, by decide +kernel⟩
  exact ⟨by decide +kernel, by decide +kernel, by decide +kernel,
    recycled_input_fits (lateChunks 15) lateConnection lateChunk calmEnv lateLoop lateRecycled
      (by decide +kernel) hrun (by decide +kernel) hparts⟩

end TdhSocket.Connection
