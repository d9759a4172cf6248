import TdhSocket.Connection.ReadPath
import TdhSocket.Protocol.Frames

/-!
# Delivery of the frames of a stream

What `handler->process` sees of a byte stream that is a concatenation of well-formed frames and a
part of one more, however `read()` cuts it. The decode loop of one read is computed in
`decodeLoop_frames`, one read in `easyConnectionOnReadable_frames`, a whole run in `run_delivers`.

A read that replaces the message (`Recycles`) leaves the requests it decoded in the request list of
the old message, which nobody looks at again. In every other read each complete frame reaches
`handler->process` once, in order. `delivered_iff` puts the two together: the frames of the stream
are delivered exactly when no read recycles its message and the packets of every batch fit the
block that `tdhs_decode` asks for.
-/

set_option autoImplicit false

namespace TdhSocket.Connection

open Protocol Library

/-! ### The decode loop over frames -/

/-- The packets of a frame fit the block `tdhs_decode` allocates for them. -/
def fitsBlock (frame : Frame) : Bool :=
  decide (sizeofTdhsPacket * (1 + frame.subFrames.length) < 2 ^ 32)

theorem packetsFit_eq_fitsBlock {pool : EasyPool} {frame : Frame} {room : ℕ}
    {answer : DecodeAnswer}
    (hroom : easyPoolCalloc pool (packetBlockSize (batchRequestNum frame.header)) = some room) :
    packetsFit ⟨answer, some (some room), 1 + frame.subFrames.length⟩ = fitsBlock frame := by
  rw [Frame.batchRequestNum_header] at hroom
  simp only [packetsFit, fitsBlock, le_packetBlock_iff frame.subFrames_length_lt hroom]

/-- Where memory is there, packets that fit a block get one. -/
theorem easyPoolCalloc_of_fitsBlock {frame : Frame} (message : EasyMessage)
    (hfits : fitsBlock frame = true) :
    easyPoolCalloc (messagePool message true) (packetBlockSize (batchRequestNum frame.header)) ≠
      none := by
  have hlt := of_decide_eq_true hfits
  rw [sizeofTdhsPacket_eq] at hlt
  rw [Frame.batchRequestNum_header, packetBlockSize, sizeofTdhsPacket_eq,
    Nat.mod_eq_of_lt (by omega : 1 + frame.subFrames.length < 2 ^ 32), easyPoolCalloc,
    Nat.mod_eq_of_lt (hlt.trans (by norm_num)), Nat.mod_eq_of_lt hlt, easyPoolAlloc]
  split_ifs with hsmall hblock
  · exact Option.some_ne_none _
  · exact absurd rfl hblock
  · -- no multiple of the size of a packet is so near below 4 GiB that the aligned sum wraps to zero
    have htotal : easyAlign (22360 * (1 + frame.subFrames.length) + sizeofEasyPoolLarge)
        easyPoolAlignment % 2 ^ 32 ≠ 0 := by
      have hcount : frame.subFrames.length ≤ 192081 := by omega
      simp only [easyAlign, sizeofEasyPoolLarge, easyPoolAlignment]
      rw [Nat.mod_eq_of_lt (by omega)]
      omega
    rw [easyPoolAllocLarge, if_neg htotal]
    exact Option.some_ne_none _

/-- The decode loop on a proper part of a frame. -/
theorem decodeLoop_part (memoryOk : Bool) (fuel : ℕ) (state : DecodeLoop) (frame : Frame)
    (hpart : Codewords.ProperPart state.message.input frame.encode) :
    ∃ nextReadLen, nextReadLen ≤ max state.message.nextReadLen frame.encode.length ∧
      decodeLoop memoryOk (fuel + 1) state =
        .ok { state with message := { state.message with nextReadLen := nextReadLen } } := by
  unfold decodeLoop
  by_cases hempty : state.message.input = []
  · rw [if_pos hempty]
    exact ⟨_, le_max_left _ _, rfl⟩
  · rw [if_neg hempty, List.prefix_iff_eq_take.mp hpart.1, Frame.tdhsDecode_take _ _ _ hpart.2]
    split_ifs
    · exact ⟨_, le_max_left _ _, rfl⟩
    · exact ⟨_, (Nat.sub_le _ _).trans (le_max_right _ _), rfl⟩

/-- The decode loop on a list of frames and a proper part of one more: unless an allocation fails,
the frames are in the request list and the part stays in the buffer. Assumes: enough fuel for the
frames and an input within the `uint32_t` length. -/
theorem decodeLoop_frames (memoryOk : Bool) (frames : List Frame) (part : List UInt8)
    (further : Frame) (hpart : Codewords.ProperPart part further.encode) (fuel : ℕ)
    (hfuel : frames.length < fuel) (state : DecodeLoop)
    (hinput : state.message.input = Frame.encodeAll frames ++ part)
    (hlength : state.message.input.length < 2 ^ 32) :
    (decodeLoop memoryOk fuel state = .error .memory ∧
        ¬ (memoryOk = true ∧ frames.all fitsBlock = true)) ∨
      ∃ nextReadLen, nextReadLen ≤ max state.message.nextReadLen further.encode.length ∧
        decodeLoop memoryOk fuel state = .ok
          { message := { state.message with
              input := part
              nextReadLen := nextReadLen
              requestList := state.message.requestList ++ frames.map Frame.chain }
            count := state.count + frames.length
            intact := state.intact && frames.all fitsBlock } := by
  induction frames generalizing fuel state with
  | nil =>
    obtain ⟨fuel, rfl⟩ := Nat.exists_eq_succ_of_ne_zero (Nat.ne_of_gt hfuel)
    have hinput' : state.message.input = part := hinput
    obtain ⟨nextReadLen, hle, hloop⟩ := decodeLoop_part memoryOk fuel state further
      (hinput' ▸ hpart)
    refine Or.inr ⟨nextReadLen, hle, ?_⟩
    rw [hloop, ← hinput']
    simp
  | cons frame frames ih =>
    obtain ⟨fuel, rfl⟩ := Nat.exists_eq_succ_of_ne_zero (Nat.ne_of_gt (Nat.zero_lt_of_lt hfuel))
    rw [Frame.encodeAll_cons, List.append_assoc] at hinput
    have hnonempty : state.message.input ≠ [] := by
      rw [hinput, ← List.length_pos_iff, List.length_append, Frame.length_encode,
        tdhSocketHeaderLength]
      omega
    unfold decodeLoop
    rw [if_neg hnonempty, hinput]
    rw [hinput] at hlength
    cases hroom : easyPoolCalloc (messagePool state.message memoryOk)
        (packetBlockSize (batchRequestNum frame.header)) with
    | none =>
      rw [Frame.tdhsDecode_encode_append _ _ _ hlength, decodeFrame, Frame.getHeaderInfo_encode,
        hroom]
      refine Or.inl ⟨rfl, ?_⟩
      rintro ⟨rfl, hfits⟩
      rw [List.all_cons, Bool.and_eq_true] at hfits
      exact easyPoolCalloc_of_fitsBlock _ hfits.1 hroom
    | some room =>
      rw [Frame.tdhsDecode_encode _ _ _ _ hlength hroom]
      dsimp only
      rw [packetsFit_eq_fitsBlock hroom]
      have hrest : (Frame.encodeAll frames ++ part).length < 2 ^ 32 := by
        rw [List.length_append] at hlength
        omega
      rcases ih fuel (by simpa using hfuel)
        { message := { state.message with
            input := Frame.encodeAll frames ++ part
            requestList := state.message.requestList ++ [frame.chain] }
          count := state.count + 1
          intact := state.intact && fitsBlock frame } rfl hrest with ⟨hfailed, hnot⟩ | hdone
      · refine Or.inl ⟨hfailed, fun hfits ↦ hnot ⟨hfits.1, ?_⟩⟩
        exact (Bool.and_eq_true _ _ ▸ hfits.2 : _ ∧ _).2
      · obtain ⟨nextReadLen, hle, hloop⟩ := hdone
        refine Or.inr ⟨nextReadLen, hle, ?_⟩
        rw [hloop]
        simp only [List.append_assoc, List.singleton_append, List.map_cons, List.length_cons,
          List.all_cons, Bool.and_assoc, Except.ok.injEq, DecodeLoop.mk.injEq, true_and, and_true]
        omega

/-! ### The message that waits for bytes -/

variable {conn next : EasyConnection} {older : List EasyMessage} {message : EasyMessage}
  {part : List UInt8} {event : Event} {events : List Event} {property : EasyMessage → Prop}

/-- Only the last message of a connection waits for bytes, and the message that is read into next,
the last or a new one, has a property. -/
def ReadsInto (conn : EasyConnection) (property : EasyMessage → Prop) : Prop :=
  ∃ (older : List EasyMessage) (last : Option EasyMessage),
    conn.messageList = older ++ last.toList ∧ (∀ message ∈ older, message.status = .idle) ∧
    (∀ message ∈ last, message.status = .readAgain) ∧
    property (last.getD (easyMessageCreate conn.defaultMessageLen))

theorem ReadsInto.readMessage (hreads : ReadsInto conn property) :
    property (readMessage conn) ∧ ∀ message ∈ olderMessages conn, message.status = .idle := by
  obtain ⟨older, last, hlist, hidle, hwaits, hproperty⟩ := hreads
  have hpending : pendingMessage conn = last := by
    cases last with
    | none =>
      rw [pendingMessage, Option.filter_eq_none_iff, hlist, Option.toList_none, List.append_nil]
      intro message hlast
      simp [hidle message (List.mem_of_getLast? hlast)]
    | some message => simp [pendingMessage, hlist, hwaits message rfl]
  rw [Connection.readMessage, olderMessages, hpending]
  refine ⟨hproperty, ?_⟩
  cases last <;> simpa [hlist] using hidle

/-- A new connection reads into a new message. -/
theorem readsInto_new (hproperty : property (easyMessageCreate 0)) :
    ReadsInto easyConnectionNew property :=
  ⟨[], none, rfl, List.forall_mem_nil _, (fun _ hnone ↦ nomatch hnone), hproperty⟩

/-- An answered request leaves the message that is read into, but for the counter of its unanswered
requests. -/
theorem ReadsInto.response (hreads : ReadsInto conn property)
    (hcount : ∀ message left, property message →
      property { message with requestListCount := left }) (position : ℕ) :
    ReadsInto (easyConnectionSendResponse conn position) property := by
  obtain ⟨older, last, hlist, hidle, hwaits, hproperty⟩ := hreads
  unfold easyConnectionSendResponse
  cases hmessage : conn.messageList[position]? with
  | none => exact ⟨older, last, hlist, hidle, hwaits, hproperty⟩
  | some message =>
    rw [hlist] at hmessage
    by_cases hposition : position < older.length
    · rw [List.getElem?_append_left hposition] at hmessage
      have hmember := List.mem_of_getElem? hmessage
      dsimp only
      split_ifs with hnone hdestroy
      · exact ⟨older, last, hlist, hidle, hwaits, hproperty⟩
      · refine ⟨older.eraseIdx position, last, ?_,
          fun other hother ↦ hidle other (List.mem_of_mem_eraseIdx hother), hwaits, hproperty⟩
        rw [hlist, List.eraseIdx_append_of_lt_length hposition]
      · refine ⟨_, last, by rw [hlist]; exact List.set_append_left _ _ hposition,
          fun other hother ↦ ?_, hwaits, hproperty⟩
        rcases List.mem_or_eq_of_mem_set hother with hold | rfl
        · exact hidle other hold
        · exact hidle message hmember
    · -- the message that waits for bytes is not destroyed
      rw [List.getElem?_append_right (not_lt.mp hposition)] at hmessage
      have hlast : message ∈ last := Option.mem_toList.mp (List.mem_of_getElem? hmessage)
      obtain rfl : last = some message := hlast
      have hzero : position - older.length = 0 := by
        have hbound := (List.getElem?_eq_some_iff.mp hmessage).1
        simpa using hbound
      dsimp only
      split_ifs with hnone hdestroy
      · exact ⟨older, some message, hlist, hidle, hwaits, hproperty⟩
      · exact absurd (hwaits message rfl) hdestroy.2
      · refine ⟨older, some { message with requestListCount := message.requestListCount - 1 }, ?_,
          hidle, ?_, hcount message _ hproperty⟩
        · rw [hlist, List.set_append_right _ _ (not_lt.mp hposition), hzero]
          rfl
        · rintro other ⟨⟩
          exact hwaits message rfl

theorem easyConnectionSendResponse_eq (conn : EasyConnection) (position : ℕ) :
    (easyConnectionSendResponse conn position).defaultMessageLen = conn.defaultMessageLen ∧
      (easyConnectionSendResponse conn position).processed = conn.processed ∧
      (easyConnectionSendResponse conn position).intact = conn.intact := by
  unfold easyConnectionSendResponse
  split
  · exact ⟨rfl, rfl, rfl⟩
  · split <;> exact ⟨rfl, rfl, rfl⟩

/-! ### One read -/

/-- Nothing that a read depends on closes the connection: the requests in progress are within the
limits, allocations succeed, no call of `handler->process` returns `EASY_ERROR`, and the socket
takes the answers. -/
structure IsCalm (conn : EasyConnection) (env : ReadEnv) : Prop where
  doing : conn.doingRequestCount ≤ easyConnDoingReqCnt
  iothDoing : env.iothDoing ≤ easyIothDoingReqCnt
  memory : env.memoryOk = true
  process : ∀ call, env.ret call ≠ .error
  write : env.writeOk = true

/-- The process loop hands over all requests, in order, unless a call returns `EASY_ERROR`. -/
theorem processLoop_handed (ret : ℕ → ProcessRet) (requests : List PacketChain)
    (state : ProcessLoop) :
    match processLoop ret requests state with
    | .ok loop => loop.handed = state.handed ++ requests
    | .error reason => reason = .process ∧ ∃ call, ret call = .error := by
  induction requests generalizing state with
  | nil => exact (List.append_nil _).symm
  | cons request requests ih =>
    unfold processLoop
    cases hret : ret state.handed.length with
    | error => exact ⟨rfl, _, hret⟩
    | ok =>
      have hrest := ih ⟨state.handed ++ [request], state.finished + 1⟩
      rwa [List.append_assoc] at hrest
    | again =>
      have hrest := ih ⟨state.handed ++ [request], state.finished⟩
      rwa [List.append_assoc] at hrest

/-- The messages stay idle when one that is idle is kept. -/
theorem idle_of_mem_ite {drops : Prop} [Decidable drops] {other : EasyMessage}
    (hidle : ∀ other ∈ older, other.status = .idle) (hstatus : message.status = .idle)
    (hother : other ∈ if drops then older else older ++ [message]) : other.status = .idle := by
  split_ifs at hother
  · exact hidle other hother
  · exact (List.mem_append.mp hother).elim (hidle other) fun hlast ↦
      List.mem_singleton.mp hlast ▸ hstatus

section

variable {memoryOk : Bool} {defaultMessageLen : ℕ}

theorem easyConnectionRecycleMessage_eq_error {reason : Closed}
    (hrecycle : easyConnectionRecycleMessage memoryOk defaultMessageLen older message =
      .error reason) : reason = .memory ∧ memoryOk = false := by
  unfold easyConnectionRecycleMessage at hrecycle
  split_ifs at hrecycle with hkeep hmemory
  cases hrecycle
  exact ⟨rfl, hmemory⟩

/-- What `easy_connection_recycle_message` returns: the same message, or, where that was used for
sixteen reads and holds bytes, a new one with the bytes and an empty request list. -/
theorem easyConnectionRecycleMessage_eq_ok {recycled : Recycled}
    (hrecycle : easyConnectionRecycleMessage memoryOk defaultMessageLen older message =
      .ok recycled) :
    ((message.recycleCnt < recycleLimit ∨ message.input = []) ∧
      recycled = ⟨older, message, true⟩) ∨
    (recycleLimit ≤ message.recycleCnt ∧ message.input ≠ [] ∧
      ((∀ other ∈ older, other.status = .idle) →
        ∀ other ∈ recycled.older, other.status = .idle) ∧
      recycled.message.input = message.input ∧ recycled.message.requestList = [] ∧
      recycled.message.recycleCnt = 0 ∧ recycled.message.nextReadLen =
        messageBufferSize (defaultMessageLen + message.input.length) ∧
      recycled.copyFits = decide (message.input.length ≤
        messageBufferSize (defaultMessageLen + message.input.length))) := by
  unfold easyConnectionRecycleMessage at hrecycle
  by_cases hkeep : message.recycleCnt < recycleLimit ∨ message.input = []
  · rw [if_pos hkeep] at hrecycle
    cases hrecycle
    exact Or.inl ⟨hkeep, rfl⟩
  · by_cases hmemory : memoryOk = false
    · rw [if_neg hkeep, if_pos hmemory] at hrecycle
      cases hrecycle
    rw [if_neg hkeep, if_neg hmemory] at hrecycle
    cases hrecycle
    obtain ⟨hlimit, hinput⟩ := not_or.mp hkeep
    refine Or.inr ⟨not_lt.mp hlimit, hinput, fun hidle other hother ↦ ?_, rfl, rfl, rfl, rfl,
      by simp [easyMessageCreate]⟩
    exact idle_of_mem_ite hidle rfl hother

end

variable {env : ReadEnv} {chunk : List UInt8} {loop : DecodeLoop} {recycled : Recycled}

/-- The message with the bytes that `read()` returned. -/
def filledMessage (conn : EasyConnection) (chunk : List UInt8) : EasyMessage :=
  let message := easyBufCheckReadSpace (readMessage conn)
  { message with
    input := message.input ++ chunk
    space := message.space - chunk.length }

/-- Besides the input, a read changes the space at most. -/
@[simp] theorem filledMessage_fields :
    (filledMessage conn chunk).input = (readMessage conn).input ++ chunk ∧
      (filledMessage conn chunk).recycleCnt = (readMessage conn).recycleCnt ∧
      (filledMessage conn chunk).nextReadLen = (readMessage conn).nextReadLen ∧
      (filledMessage conn chunk).requestList = (readMessage conn).requestList := by
  unfold filledMessage easyBufCheckReadSpace
  split_ifs <;> exact ⟨rfl, rfl, rfl, rfl⟩

/-- The decode loop and the recycling of one read. -/
structure ReadParts (conn : EasyConnection) (chunk : List UInt8) (env : ReadEnv)
    (loop : DecodeLoop) (recycled : Recycled) : Prop where
  decode : decodeLoop env.memoryOk ((filledMessage conn chunk).input.length + 1)
    ⟨filledMessage conn chunk, 0, conn.intact⟩ = .ok loop
  recycle : easyConnectionRecycleMessage env.memoryOk (nextDefaultMessageLen conn chunk.length)
    (olderMessages conn) (countRequests loop) = .ok recycled

/-- What a read that goes through its parts leaves: the requests of the message are handed over, and
the message is read into again if it has bytes left. -/
structure ReadDoes (conn : EasyConnection) (chunk : List UInt8) (loop : DecodeLoop)
    (recycled : Recycled) (next : EasyConnection) : Prop where
  defaultMessageLen : next.defaultMessageLen = nextDefaultMessageLen conn chunk.length
  processed : next.processed = conn.processed ++ recycled.message.requestList
  intact : next.intact = (loop.intact && recycled.copyFits)
  reads : ∀ property : EasyMessage → Prop,
    (∀ other ∈ recycled.older, other.status = .idle) →
    (recycled.message.input = [] →
      property (easyMessageCreate (nextDefaultMessageLen conn chunk.length))) →
    (recycled.message.input ≠ [] → ∀ left, property
      { recycled.message with status := .readAgain, requestList := [], requestListCount := left }) →
    ReadsInto next property

/-- The end of `easy_connection_do_request`. -/
theorem processRequests_cases (conn : EasyConnection) (chunk : List UInt8) (env : ReadEnv)
    (loop : DecodeLoop) (recycled : Recycled) (doing : ℕ) :
    let result := processRequests env
      { conn with
        defaultMessageLen := nextDefaultMessageLen conn chunk.length
        doingRequestCount := doing
        intact := loop.intact && recycled.copyFits }
      recycled.older
      { recycled.message with
        status := if recycled.message.input = [] then .idle else .readAgain }
    (∃ reason, result = .error reason ∧ reason ≠ .decode ∧ ¬ IsCalm conn env) ∨
      ∃ next, result = .ok next ∧ ReadDoes conn chunk loop recycled next := by
  have hhanded := processLoop_handed env.ret recycled.message.requestList ⟨[], 0⟩
  unfold processRequests
  cases hloop : processLoop env.ret recycled.message.requestList ⟨[], 0⟩ with
  | error reason =>
    rw [hloop] at hhanded
    obtain ⟨rfl, call, herror⟩ := hhanded
    exact Or.inl ⟨_, rfl, Closed.noConfusion, fun h ↦ h.process call herror⟩
  | ok done =>
    rw [hloop] at hhanded
    dsimp only at hhanded ⊢
    by_cases hwrite : env.writeOk = false
    · rw [if_pos hwrite]
      exact Or.inl ⟨_, rfl, Closed.noConfusion, fun h ↦
        Bool.false_ne_true (hwrite.symm.trans h.write)⟩
    rw [if_neg hwrite]
    refine Or.inr ⟨_, rfl, rfl, congrArg _ hhanded, rfl, fun property hidle hnew hleft ↦ ?_⟩
    by_cases hempty : recycled.message.input = []
    · simp only [hempty, if_true]
      exact ⟨_, none, (List.append_nil _).symm, fun _ hother ↦ idle_of_mem_ite hidle rfl hother,
        (fun _ hnone ↦ nomatch hnone), hnew hempty⟩
    · simp only [hempty, if_false, ne_eq, not_true_eq_false, and_false]
      refine ⟨recycled.older, some _, rfl, hidle, ?_, hleft hempty _⟩
      rintro other ⟨⟩
      rfl

/-- A read closes the connection, because things are not calm or the decode loop fails, or goes
through its parts. -/
theorem easyConnectionOnReadable_cases (conn : EasyConnection) (chunk : List UInt8)
    (env : ReadEnv) :
    (∃ reason, easyConnectionOnReadable conn chunk env = .error reason ∧
      ((reason ≠ .decode ∧ ¬ IsCalm conn env) ∨
        decodeLoop env.memoryOk ((filledMessage conn chunk).input.length + 1)
          ⟨filledMessage conn chunk, 0, conn.intact⟩ = .error reason)) ∨
    ∃ loop recycled next, easyConnectionOnReadable conn chunk env = .ok next ∧
      ReadParts conn chunk env loop recycled ∧ ReadDoes conn chunk loop recycled next := by
  unfold easyConnectionOnReadable
  split_ifs with hbusy hmemory
  · exact Or.inl ⟨_, rfl, Or.inl ⟨Closed.noConfusion, fun h ↦
      hbusy.elim (not_lt.mpr h.doing) (not_lt.mpr h.iothDoing)⟩⟩
  · exact Or.inl ⟨_, rfl, Or.inl ⟨Closed.noConfusion, fun h ↦
      Bool.false_ne_true (hmemory.1.symm.trans h.memory)⟩⟩
  change (∃ reason, easyConnectionDoRequest env _ _ (filledMessage conn chunk) = _ ∧ _) ∨
    ∃ loop recycled next, easyConnectionDoRequest env _ _ (filledMessage conn chunk) = _ ∧ _
  unfold easyConnectionDoRequest
  cases hloop : decodeLoop env.memoryOk ((filledMessage conn chunk).input.length + 1)
      ⟨filledMessage conn chunk, 0, conn.intact⟩ with
  | error reason => exact Or.inl ⟨reason, rfl, Or.inr rfl⟩
  | ok loop =>
    dsimp only [recycleAndProcess]
    cases hrecycle : easyConnectionRecycleMessage env.memoryOk
        (nextDefaultMessageLen conn chunk.length) (olderMessages conn) (countRequests loop) with
    | error reason =>
      obtain ⟨rfl, hmemory⟩ := easyConnectionRecycleMessage_eq_error hrecycle
      exact Or.inl ⟨_, rfl, Or.inl ⟨Closed.noConfusion, fun h ↦
        Bool.false_ne_true (hmemory.symm.trans h.memory)⟩⟩
    | ok recycled =>
      rcases processRequests_cases conn chunk env loop recycled _ with
        ⟨reason, herror, hreason⟩ | ⟨next, hok, hdoes⟩
      · exact Or.inl ⟨reason, herror, Or.inl hreason⟩
      · exact Or.inr ⟨loop, recycled, next, hok, ⟨hloop, hrecycle⟩, hdoes⟩

/-! ### A read of frames -/

/-- The message holds the bytes `part` of an unfinished frame, and may be used for one more read. -/
structure IsPart (part : List UInt8) (message : EasyMessage) : Prop where
  input_eq : message.input = part
  requestList_eq : message.requestList = []
  recycleCnt_lt : message.recycleCnt < recycleLimit
  nextReadLen_le : message.nextReadLen ≤ 2 ^ 27

/-- The state of a connection between two reads, with the bytes `part` of an unfinished frame in the
message that is read into next. -/
structure Waiting (conn : EasyConnection) (part : List UInt8) : Prop where
  defaultMessageLen_le : conn.defaultMessageLen ≤ easyIoBufferSize
  reads : ReadsInto conn (IsPart part)

theorem messageBufferSize_eq (defaultMessageLen : ℕ) :
    messageBufferSize defaultMessageLen = (defaultMessageLen + 575) / 512 * 512 - 224 := by
  unfold messageBufferSize
  dsimp only
  split <;>
    simp only [easyAlign, easyPoolAlignment, sizeofEasyPool, sizeofEasyMessage,
      sizeofEasyBuf] at * <;>
    omega

theorem messageBufferSize_le (defaultMessageLen : ℕ) :
    messageBufferSize defaultMessageLen ≤ defaultMessageLen + 1024 := by
  rw [messageBufferSize_eq]
  omega

theorem isPart_new {defaultMessageLen : ℕ} (hdefault : defaultMessageLen ≤ easyIoBufferSize) :
    IsPart [] (easyMessageCreate defaultMessageLen) := by
  refine ⟨rfl, rfl, Nat.zero_lt_succ _, (messageBufferSize_le defaultMessageLen).trans ?_⟩
  have hbound : easyIoBufferSize = 8128 := rfl
  omega

/-- A connection goes on with a property, or is closed, though not because of the bytes and not
where things are calm. -/
def GoesOn (calm : Prop) (property : EasyConnection → Prop) : Except Closed EasyConnection → Prop
  | .error reason => reason ≠ .decode ∧ ¬ calm
  | .ok next => property next

theorem GoesOn.mono {calm calmer : Prop} {property weaker : EasyConnection → Prop}
    {result : Except Closed EasyConnection} (hgoesOn : GoesOn calm property result)
    (hcalmer : calmer → calm) (hweaker : ∀ next, property next → weaker next) :
    GoesOn calmer weaker result := by
  cases result with
  | error reason => exact ⟨hgoesOn.1, fun h ↦ hgoesOn.2 (hcalmer h)⟩
  | ok next => exact hweaker next hgoesOn

theorem length_encode_le (frame : Frame) : frame.encode.length ≤ 20 + 2 ^ 26 := by
  have hpayload := frame.payload_le
  rw [Frame.length_encode]
  unfold tdhSocketHeaderLength
  unfold maxDataLength at hpayload
  omega

theorem length_le_encodeAll (frames : List Frame) :
    frames.length ≤ (Frame.encodeAll frames).length := by
  induction frames with
  | nil => exact Nat.zero_le _
  | cons frame frames ih =>
    rw [Frame.encodeAll_cons, List.length_append, Frame.length_encode, List.length_cons]
    unfold tdhSocketHeaderLength
    omega

/-- The connection waits for the rest of a part. The frames in front of it were handed over unless
the message was replaced, in which case none was. -/
def HandsOver (conn : EasyConnection) (recycleCnt : ℕ) (frames : List Frame) (part : List UInt8)
    (next : EasyConnection) : Prop :=
  Waiting next part ∧
    if recycleLimit ≤ recycleCnt + 1 ∧ frames ≠ [] ∧ part ≠ [] then
      next.processed = conn.processed
    else next.processed = conn.processed ++ frames.map Frame.chain ∧
      next.intact = (conn.intact && frames.all fitsBlock)

/-- The end of a read of frames. Assumes: the decode loop found the frames and left the part. -/
theorem ReadDoes.handsOver (hwaiting : Waiting conn (readMessage conn).input) {nextReadLen : ℕ}
    (hnext : nextReadLen ≤ 2 ^ 27) {frames : List Frame} (hpart : part.length ≤ 2 ^ 26 + 20)
    (hloop : loop = ⟨{ filledMessage conn chunk with
      input := part
      nextReadLen := nextReadLen
      requestList := frames.map Frame.chain }, frames.length, conn.intact && frames.all fitsBlock⟩)
    (hparts : ReadParts conn chunk env loop recycled)
    (hdoes : ReadDoes conn chunk loop recycled next) :
    HandsOver conn (readMessage conn).recycleCnt frames part next := by
  obtain ⟨hread, hidle⟩ := hwaiting.reads.readMessage
  have hbuffer : easyIoBufferSize = 8128 := rfl
  have hdefault : nextDefaultMessageLen conn chunk.length ≤ easyIoBufferSize := by
    unfold nextDefaultMessageLen
    split_ifs
    · exact le_rfl
    · exact hwaiting.defaultMessageLen_le
  have hle := hdoes.defaultMessageLen.trans_le hdefault
  have hinput : (countRequests loop).input = part := by
    rw [hloop]
    rfl
  have hcounted : (countRequests loop).recycleCnt = if frames = [] then
      (readMessage conn).recycleCnt else (readMessage conn).recycleCnt + 1 := by
    simp [hloop, countRequests]
  rw [HandsOver]
  rcases easyConnectionRecycleMessage_eq_ok hparts.recycle with
    ⟨hkeep, rfl⟩ | ⟨hlimit, hleft, holder, hbytes, hrequests, hreads, hsize, -⟩
  · rw [hinput] at hkeep
    rw [if_neg]
    · refine ⟨⟨hle, hdoes.reads _ hidle (fun hempty ↦ ?_) fun hleft left ↦ ?_⟩, ?_, ?_⟩
      · rw [← hinput, show (countRequests loop).input = [] from hempty]
        exact isPart_new hdefault
      · exact ⟨hinput, rfl, hkeep.resolve_right (hinput ▸ hleft), by rw [hloop]; exact hnext⟩
      · rw [hdoes.processed, hloop]
        rfl
      · rw [hdoes.intact, hloop]
        exact Bool.and_true _
    · rintro ⟨hlimit, hframes, hrest⟩
      rw [hcounted, if_neg hframes] at hkeep
      exact hkeep.elim (not_lt.mpr hlimit) hrest
  · rw [hinput] at hbytes hleft hsize
    have hframes : frames ≠ [] := fun hnone ↦ by
      rw [hcounted, if_pos hnone] at hlimit
      exact absurd hread.recycleCnt_lt (not_lt.mpr hlimit)
    rw [hcounted, if_neg hframes] at hlimit
    rw [if_pos ⟨hlimit, hframes, hleft⟩]
    refine ⟨⟨hle, hdoes.reads _ (holder hidle) (fun hempty ↦ ?_) fun _ left ↦ ?_⟩, ?_⟩
    · exact absurd (hbytes.symm.trans hempty) hleft
    · refine ⟨hbytes, rfl, hreads.trans_lt (Nat.zero_lt_succ _), hsize.le.trans ?_⟩
      exact (messageBufferSize_le _).trans (by omega)
    · rw [hdoes.processed, hrequests, List.append_nil]

/-- One read of a waiting connection. Assumes: `read()` returns at most `next_read_len` bytes, and
with the bytes already there they are whole frames and a proper part of one more. -/
theorem easyConnectionOnReadable_frames {buffered : List UInt8}
    (hwaiting : Waiting conn buffered) (hbuffered : buffered.length ≤ 2 ^ 27)
    (chunk : List UInt8) (env : ReadEnv) (hchunk : chunk.length ≤ (readMessage conn).nextReadLen)
    (frames : List Frame) (part : List UInt8) (further : Frame)
    (hpart : Codewords.ProperPart part further.encode)
    (hbytes : buffered ++ chunk = Frame.encodeAll frames ++ part) :
    GoesOn (IsCalm conn env ∧ frames.all fitsBlock = true)
      (HandsOver conn (readMessage conn).recycleCnt frames part)
      (easyConnectionOnReadable conn chunk env) := by
  obtain ⟨hread, -⟩ := hwaiting.reads.readMessage
  have hinput : (filledMessage conn chunk).input = Frame.encodeAll frames ++ part := by
    rw [filledMessage_fields.1, hread.input_eq, hbytes]
  have hlength : (filledMessage conn chunk).input.length < 2 ^ 32 := by
    have hbound := hchunk.trans hread.nextReadLen_le
    rw [filledMessage_fields.1, hread.input_eq, List.length_append]
    omega
  have hfuel : frames.length < (filledMessage conn chunk).input.length + 1 := by
    have hcount := length_le_encodeAll frames
    rw [hinput, List.length_append]
    omega
  have hfurther := length_encode_le further
  have hdecode := decodeLoop_frames env.memoryOk frames part further hpart _ hfuel
    ⟨filledMessage conn chunk, 0, conn.intact⟩ hinput hlength
  rcases easyConnectionOnReadable_cases conn chunk env with
    ⟨reason, herror, hreason⟩ | ⟨loop, recycled, next, hok, hparts, hdoes⟩
  · rw [herror]
    rcases hreason with ⟨hreason, hcalm⟩ | hfailed
    · exact ⟨hreason, fun h ↦ hcalm h.1⟩
    · rcases hdecode with ⟨hmemory, hnot⟩ | ⟨_, _, hloop⟩
      · cases hmemory.symm.trans hfailed
        exact ⟨Closed.noConfusion, fun h ↦ hnot ⟨h.1.memory, h.2⟩⟩
      · cases hloop.symm.trans hfailed
  · rw [hok]
    rcases hdecode with ⟨hmemory, -⟩ | ⟨nextReadLen, hle, hloop⟩
    · cases hmemory.symm.trans hparts.decode
    · refine ReadDoes.handsOver (hread.input_eq ▸ hwaiting) (hle.trans (max_le ?_ ?_)) ?_
        ?_ hparts hdoes
      · simpa using hread.nextReadLen_le
      · omega
      · have hshort := hpart.2
        omega
      · rw [Except.ok.inj (hparts.decode.symm.trans hloop)]
        simp [hread.requestList_eq]

/-! ### Runs -/

/-- The bytes that the reads of a run return, in order. -/
def bytesRead : List Event → List UInt8
  | [] => []
  | .read chunk _ :: events => chunk ++ bytesRead events
  | .response _ :: events => bytesRead events

/-- `read()` returns between one and `next_read_len` bytes. -/
def AdmissibleRead (conn : EasyConnection) : Event → Prop
  | .read chunk _ => chunk ≠ [] ∧ chunk.length ≤ (readMessage conn).nextReadLen
  | .response _ => True

/-- A condition holds of every event of a run, up to the one that destroys the connection. -/
def AlongRun (holds : EasyConnection → Event → Prop) (conn : EasyConnection) : List Event → Prop
  | [] => True
  | event :: events => holds conn event ∧
    match step conn event with
    | .ok next => AlongRun holds next events
    | .error _ => True

theorem alongRun_cons {holds : EasyConnection → Event → Prop} {next : EasyConnection}
    (hstep : step conn event = .ok next) :
    AlongRun holds conn (event :: events) ↔ holds conn event ∧ AlongRun holds next events := by
  simp only [AlongRun, hstep]

theorem AlongRun.mono {holds weaker : EasyConnection → Event → Prop}
    (hweaker : ∀ conn, ∀ event ∈ events, holds conn event → weaker conn event)
    (halong : AlongRun holds conn events) : AlongRun weaker conn events := by
  induction events generalizing conn with
  | nil => trivial
  | cons event events ih =>
    refine ⟨hweaker conn event List.mem_cons_self halong.1, ?_⟩
    cases hstep : step conn event with
    | error reason => trivial
    | ok next =>
      exact ih (fun conn other hother ↦ hweaker conn other (List.mem_cons_of_mem _ hother))
        ((alongRun_cons hstep).mp halong).2

/-- Every read of a run is admissible. -/
def Admissible (conn : EasyConnection) (events : List Event) : Prop :=
  AlongRun AdmissibleRead conn events

instance decidableAdmissibleRead (conn : EasyConnection) :
    (event : Event) → Decidable (AdmissibleRead conn event)
  | .read chunk _ =>
    inferInstanceAs (Decidable (chunk ≠ [] ∧ chunk.length ≤ (readMessage conn).nextReadLen))
  | .response _ => inferInstanceAs (Decidable True)

instance decidableAlongRun (holds : EasyConnection → Event → Prop)
    [∀ conn event, Decidable (holds conn event)] :
    (conn : EasyConnection) → (events : List Event) → Decidable (AlongRun holds conn events)
  | _, [] => inferInstanceAs (Decidable True)
  | conn, event :: events =>
    match hstep : step conn event with
    | .ok next =>
      match decidableAlongRun holds next events with
      | .isTrue hrest => decidable_of_iff (holds conn event) (by simp [AlongRun, hstep, hrest])
      | .isFalse hrest => .isFalse (by simp [AlongRun, hstep, hrest])
    | .error _ => decidable_of_iff (holds conn event) (by simp [AlongRun, hstep])

instance (conn : EasyConnection) (events : List Event) : Decidable (Admissible conn events) :=
  inferInstanceAs (Decidable (AlongRun AdmissibleRead conn events))

/-- A read that makes `easy_connection_recycle_message` replace the message: it is the sixteenth one
of this message to complete a frame, and it leaves the beginning of another frame behind. -/
def Recycles (conn : EasyConnection) : Event → Prop
  | .read chunk _ => recycleLimit ≤ (readMessage conn).recycleCnt + 1 ∧
    ∃ (frames : List Frame) (part : List UInt8) (further : Frame), frames ≠ [] ∧ part ≠ [] ∧
      Codewords.ProperPart part further.encode ∧
      (readMessage conn).input ++ chunk = Frame.encodeAll frames ++ part
  | .response _ => False

/-- No read of a run replaces its message. -/
def NeverRecycles (conn : EasyConnection) (events : List Event) : Prop :=
  AlongRun (fun conn event ↦ ¬ Recycles conn event) conn events

/-- Whatever a read depends on is calm. -/
def CalmRead (conn : EasyConnection) : Event → Prop
  | .read _ env => IsCalm conn env
  | .response _ => True

/-- Every read of a run is calm. -/
def Unhindered (conn : EasyConnection) (events : List Event) : Prop :=
  AlongRun CalmRead conn events

/-- Whether a read replaces its message can be seen from any way to cut its bytes into frames. -/
theorem recycles_read_iff {chunk : List UInt8} (env : ReadEnv) {frames : List Frame}
    {further : Frame} (hpart : Codewords.ProperPart part further.encode)
    (hbytes : (readMessage conn).input ++ chunk = Frame.encodeAll frames ++ part) :
    Recycles conn (.read chunk env) ↔
      recycleLimit ≤ (readMessage conn).recycleCnt + 1 ∧ frames ≠ [] ∧ part ≠ [] := by
  constructor
  · rintro ⟨hlimit, others, rest, other, hothers, hrest, hproper, hsame⟩
    obtain ⟨hwords, hparts⟩ := Codewords.flatten_append_inj Frame.noWordBeginsAnother_encode
      (frames.map Frame.encode) (others.map Frame.encode) (by simp) (by simp)
      ⟨_, ⟨further, rfl⟩, hpart⟩ ⟨_, ⟨other, rfl⟩, hproper⟩ (hbytes.symm.trans hsame)
    refine ⟨hlimit, ?_, hparts ▸ hrest⟩
    rintro rfl
    exact hothers (List.map_eq_nil_iff.mp hwords.symm)
  · rintro ⟨hlimit, hframes, hrest⟩
    exact ⟨hlimit, frames, part, further, hframes, hrest, hpart, hbytes⟩

/-- Assumes: the bytes at hand and those to come are frames and a proper part of one more. The bytes
at hand are the first of these frames and a proper part of a frame. -/
theorem exists_frames_split (frames : List Frame) (further : Frame) (tail : List UInt8)
    (htail : Codewords.ProperPart tail further.encode) (bytes rest : List UInt8)
    (hstream : bytes ++ rest = Frame.encodeAll frames ++ tail) :
    ∃ (now later : List Frame) (part : List UInt8), frames = now ++ later ∧
      bytes = Frame.encodeAll now ++ part ∧ part ++ rest = Frame.encodeAll later ++ tail ∧
      ∃ frame : Frame, Codewords.ProperPart part frame.encode := by
  obtain ⟨count, part, -, hbytes, hrest, word, hword, hpart⟩ :=
    Codewords.exists_split (frames.map Frame.encode) further.encode tail htail bytes rest hstream
  rw [← List.map_take] at hbytes
  rw [← List.map_drop] at hrest
  refine ⟨frames.take count, frames.drop count, part, (List.take_append_drop _ _).symm, hbytes,
    hrest, ?_⟩
  rcases List.mem_append.mp hword with hframe | hfurther
  · obtain ⟨frame, -, rfl⟩ := List.mem_map.mp hframe
    exact ⟨frame, hpart⟩
  · rw [List.mem_singleton.mp hfurther] at hpart
    exact ⟨further, hpart⟩

/-- What a run leaves of a stream of frames: the chains it hands to `handler->process`, all of them
if no read replaces its message, and fewer if one does. -/
def Delivers (conn next : EasyConnection) (events : List Event) (frames : List Frame) : Prop :=
  ∃ delivered, next.processed = conn.processed ++ delivered ∧
    delivered.length ≤ frames.length ∧
    (¬ NeverRecycles conn events → delivered.length < frames.length) ∧
    (NeverRecycles conn events → delivered = frames.map Frame.chain ∧
      next.intact = (conn.intact && frames.all fitsBlock))

/-- An event that hands over what it completed, in front of a run. -/
theorem Delivers.cons_of_keeps {next last : EasyConnection} (now : List Frame) {later : List Frame}
    (hstep : step conn event = .ok next) (hkeeps : ¬ Recycles conn event)
    (hprocessed : next.processed = conn.processed ++ now.map Frame.chain)
    (hintact : next.intact = (conn.intact && now.all fitsBlock))
    (hdelivers : Delivers next last events later) :
    Delivers conn last (event :: events) (now ++ later) := by
  obtain ⟨delivered, hlast, hle, hlost, hall⟩ := hdelivers
  have hnever : NeverRecycles conn (event :: events) ↔ NeverRecycles next events :=
    (alongRun_cons hstep).trans (and_iff_right hkeeps)
  refine ⟨now.map Frame.chain ++ delivered, ?_, ?_, ?_, ?_⟩
  · rw [hlast, hprocessed, List.append_assoc]
  · simpa using hle
  · intro hsome
    simpa using hlost (hnever.not.mp hsome)
  · intro hnone
    obtain ⟨hchains, hfits⟩ := hall (hnever.mp hnone)
    rw [hchains, hfits, hintact, List.map_append, List.all_append, Bool.and_assoc]
    exact ⟨rfl, rfl⟩

/-- A read that replaces its message, in front of a run: what it completed is lost. -/
theorem Delivers.cons_of_recycles {next last : EasyConnection} {now later : List Frame}
    (hrecycles : Recycles conn event) (hprocessed : next.processed = conn.processed)
    (hnow : now ≠ []) (hdelivers : Delivers next last events later) :
    Delivers conn last (event :: events) (now ++ later) := by
  obtain ⟨delivered, hlast, hle, -, -⟩ := hdelivers
  have hlost : delivered.length < (now ++ later).length := by
    have hpositive := List.length_pos_iff.mpr hnow
    rw [List.length_append]
    omega
  exact ⟨delivered, by rw [hlast, hprocessed], hlost.le, fun _ ↦ hlost,
    fun hnone ↦ absurd hrecycles hnone.1⟩

/-- Every run on a stream of frames. Assumes: the connection waits for the rest of a part of a
frame, and with that part the bytes of the run are frames and a proper part of one more. -/
theorem run_delivers (events : List Event) (further : Frame) (tail : List UInt8)
    (htail : Codewords.ProperPart tail further.encode) (conn : EasyConnection)
    (buffered : List UInt8) (frames : List Frame) (hwaiting : Waiting conn buffered)
    (hbuffered : ∃ frame : Frame, Codewords.ProperPart buffered frame.encode)
    (hadmissible : Admissible conn events)
    (hstream : buffered ++ bytesRead events = Frame.encodeAll frames ++ tail) :
    GoesOn (Unhindered conn events ∧ frames.all fitsBlock = true)
      (fun next ↦ Delivers conn next events frames) (run conn events) := by
  induction events generalizing conn buffered frames with
  | nil =>
    obtain ⟨frame, hframe⟩ := hbuffered
    have hnone : frames = [] := by
      have hsame : ([] : List (List UInt8)).flatten ++ buffered =
          (frames.map Frame.encode).flatten ++ tail := by
        simpa [bytesRead, Frame.encodeAll] using hstream
      have hwords := (Codewords.flatten_append_inj Frame.noWordBeginsAnother_encode []
        (frames.map Frame.encode) (by simp) (by simp) ⟨_, ⟨frame, rfl⟩, hframe⟩
        ⟨_, ⟨further, rfl⟩, htail⟩ hsame).1
      exact List.map_eq_nil_iff.mp hwords.symm
    subst hnone
    exact ⟨[], by simp, le_rfl, fun hnever ↦ absurd trivial hnever, fun _ ↦ by simp⟩
  | cons event events ih =>
    cases event with
    | response position =>
      obtain ⟨hdefault, hprocessed, hintact⟩ := easyConnectionSendResponse_eq conn position
      have hreads := hwaiting.reads.response
        (fun _ _ hpart ↦ ⟨hpart.1, hpart.2, hpart.3, hpart.4⟩) position
      exact (ih (easyConnectionSendResponse conn position) buffered frames
        ⟨hdefault.trans_le hwaiting.defaultMessageLen_le, hreads⟩ hbuffered hadmissible.2
          hstream).mono (fun h ↦ ⟨h.1.2, h.2⟩) fun _ hdelivers ↦
            hdelivers.cons_of_keeps [] rfl (fun hnot ↦ hnot) (by simpa using hprocessed)
              (by simpa using hintact)
    | read chunk env =>
      obtain ⟨frame, hframe⟩ := hbuffered
      have hshort : buffered.length ≤ 2 ^ 27 := by
        have hlt := hframe.2
        have hle := length_encode_le frame
        omega
      obtain ⟨now, later, part, rfl, hbytes, hrest, next, hpart⟩ :=
        exists_frames_split frames further tail htail (buffered ++ chunk) (bytesRead events)
          (by rw [List.append_assoc]; exact hstream)
      have hrecycles := recycles_read_iff env hpart
        (hwaiting.reads.readMessage.1.input_eq.symm ▸ hbytes)
      have hgoesOn := easyConnectionOnReadable_frames hwaiting hshort chunk env hadmissible.1.2 now
        part next hpart hbytes
      cases hstep : easyConnectionOnReadable conn chunk env with
      | error reason =>
        rw [hstep] at hgoesOn
        simp only [run, step, hstep]
        refine ⟨hgoesOn.1, fun h ↦ hgoesOn.2 ⟨h.1.1, ?_⟩⟩
        rw [List.all_append, Bool.and_eq_true] at h
        exact h.2.1
      | ok result =>
        have hsteps : step conn (.read chunk env) = .ok result := hstep
        rw [hstep] at hgoesOn
        obtain ⟨hresult, hprocessed⟩ := hgoesOn
        simp only [run, step, hstep]
        refine (ih result part later hresult ⟨next, hpart⟩
          ((alongRun_cons hsteps).mp hadmissible).2 hrest).mono (fun h ↦ ?_) fun _ hdelivers ↦ ?_
        · rw [List.all_append, Bool.and_eq_true] at h
          exact ⟨((alongRun_cons hsteps).mp h.1).2, h.2.2⟩
        · split_ifs at hprocessed with hreplace
          · exact hdelivers.cons_of_recycles (hrecycles.mpr hreplace) hprocessed hreplace.2.1
          · exact hdelivers.cons_of_keeps now hstep (hrecycles.not.mpr hreplace) hprocessed.1
              hprocessed.2

/-- What was handed over when a run is over. -/
theorem Delivers.complete_iff {last : EasyConnection} {frames : List Frame}
    (hdelivers : Delivers easyConnectionNew last events frames) :
    (last.processed = frames.map Frame.chain ∧ last.intact = true) ↔
      NeverRecycles easyConnectionNew events ∧ frames.all fitsBlock = true := by
  obtain ⟨delivered, hprocessed, -, hlost, hall⟩ := hdelivers
  rw [show easyConnectionNew.processed = [] from rfl, List.nil_append] at hprocessed
  rw [show easyConnectionNew.intact = true from rfl, Bool.true_and] at hall
  constructor
  · rintro ⟨hchains, hfits⟩
    have hnever : NeverRecycles easyConnectionNew events := by
      by_contra hsome
      have hfewer := hlost hsome
      rw [← hprocessed, hchains, List.length_map] at hfewer
      exact absurd hfewer (lt_irrefl _)
    exact ⟨hnever, (hall hnever).2 ▸ hfits⟩
  · rintro ⟨hnever, hfits⟩
    obtain ⟨hchains, hsame⟩ := hall hnever
    exact ⟨hprocessed.trans hchains, hsame.trans hfits⟩

/-- A stream of well-formed frames and a part of one more, cut in any way into reads, with answers
coming back in between. Where every read is calm, the connection stays open and every complete frame
reaches `handler->process` exactly once and in order, with all packets stored inside their blocks,
if and only if no read replaces its message and the packets of every frame take less than 4 GiB.
Where not every read is calm, the same holds as long as the connection is open, and it is never
closed because of the bytes. -/
theorem delivered_iff (frames : List Frame) (further : Frame) (count : ℕ)
    (hcount : count < further.encode.length) (events : List Event)
    (hadmissible : Admissible easyConnectionNew events)
    (hstream : bytesRead events = Frame.encodeAll frames ++ further.encode.take count) :
    (Unhindered easyConnectionNew events →
      ((∃ conn, run easyConnectionNew events = .ok conn ∧
          conn.processed = frames.map Frame.chain ∧ conn.intact = true) ↔
        (NeverRecycles easyConnectionNew events ∧
          ∀ frame ∈ frames, sizeofTdhsPacket * (1 + frame.subFrames.length) < 2 ^ 32))) ∧
    match run easyConnectionNew events with
    | .ok conn => (conn.processed = frames.map Frame.chain ∧ conn.intact = true) ↔
      (NeverRecycles easyConnectionNew events ∧
        ∀ frame ∈ frames, sizeofTdhsPacket * (1 + frame.subFrames.length) < 2 ^ 32)
    | .error reason => reason ≠ .decode := by
  have htail : Codewords.ProperPart (further.encode.take count) further.encode :=
    ⟨List.take_prefix _ _, by rwa [List.length_take, Nat.min_eq_left hcount.le]⟩
  have hempty : Codewords.ProperPart [] further.encode :=
    ⟨List.nil_prefix, Nat.zero_lt_of_lt hcount⟩
  have hdelivers := run_delivers events further _ htail easyConnectionNew [] frames
    ⟨Nat.zero_le _, readsInto_new (isPart_new (Nat.zero_le _))⟩ ⟨further, hempty⟩ hadmissible
    hstream
  have hfits : (∀ frame ∈ frames, sizeofTdhsPacket * (1 + frame.subFrames.length) < 2 ^ 32) ↔
      frames.all fitsBlock = true := by
    simp only [List.all_eq_true, fitsBlock, decide_eq_true_eq]
  rw [hfits]
  cases hrun : run easyConnectionNew events with
  | ok conn =>
    rw [hrun] at hdelivers
    have hiff := Delivers.complete_iff hdelivers
    exact ⟨fun _ ↦ by simpa using hiff, hiff⟩
  | error reason =>
    rw [hrun] at hdelivers
    refine ⟨fun hunhindered ↦ ⟨?_, fun h ↦ absurd ⟨hunhindered, h.2⟩ hdelivers.2⟩, hdelivers.1⟩
    rintro ⟨conn, hopen, -⟩
    cases hopen

/-- The frame of a GET request without payload. -/
def emptyFrame (seqId : UInt32) : Frame where
  command := 0
  seqId := seqId.toNat
  reserved := 0
  payload := []
  subFrames := []
  command_lt := by norm_num
  seqId_lt := seqId.toNat_lt
  reserved_lt := by norm_num
  payload_le := Nat.zero_le _
  subFrames_eq := fun _ ↦ rfl
  subFrames_length := fun _ ↦ rfl
  subFrames_start := List.nil_prefix

/-- Memory is there, the socket takes every answer and the request threads get every request. -/
def calmEnv : ReadEnv := ⟨0, true, fun _ ↦ .again, true⟩

theorem isCalm_calmEnv (hdoing : conn.doingRequestCount ≤ easyConnDoingReqCnt) :
    IsCalm conn calmEnv :=
  ⟨hdoing, Nat.zero_le _, rfl, fun _ ↦ ProcessRet.noConfusion, rfl⟩

/-- Empty frames with the sequence ids below a number. -/
def emptyFrames (count : ℕ) : List Frame :=
  (List.range count).map fun seqId ↦ emptyFrame (UInt32.ofNat seqId)

/-- Reads of one frame each, where the first read brings one byte more: the first byte of the next
frame is always left behind. -/
def lateChunks (count : ℕ) : List Event :=
  (List.range count).map fun index ↦ .read
    (if index = 0 then (Frame.encodeAll (emptyFrames (count + 1))).take 21
      else ((Frame.encodeAll (emptyFrames (count + 1))).drop (20 * index + 1)).take 20) calmEnv

/-- The sixteenth of these reads replaces the message: sixteen frames are complete, the last of them
is lost. -/
theorem recycled_frame_lost :
    Unhindered easyConnectionNew (lateChunks 16) ∧
    Admissible easyConnectionNew (lateChunks 16) ∧
    bytesRead (lateChunks 16) =
      Frame.encodeAll (emptyFrames 16) ++ (emptyFrame 16).encode.take 1 ∧
    (run easyConnectionNew (lateChunks 16)).toOption.map EasyConnection.processed =
      some ((emptyFrames 15).map Frame.chain) ∧
    (emptyFrames 15).map Frame.chain ≠ (emptyFrames 16).map Frame.chain := by
  have hdoing : AlongRun (fun conn _ ↦ conn.doingRequestCount ≤ easyConnDoingReqCnt)
      easyConnectionNew (lateChunks 16) := by decide +kernel
  refine ⟨hdoing.mono fun conn event hevent hlimit ↦ ?_, by decide +kernel⟩
  obtain ⟨index, -, rfl⟩ := List.mem_map.mp hevent
  exact isCalm_calmEnv hlimit

/-- A frame, a BATCH, a frame and the beginning of one more, in three reads. -/
def pipelined : List Event :=
  let stream := Frame.encodeAll [.bare, .twoRequests _ rfl, .bare] ++ Frame.bare.encode.take 5
  [.read (stream.take 30) calmEnv, .response 0, .read ((stream.drop 30).take 60) calmEnv,
    .read (stream.drop 90) calmEnv]

theorem delivered_iff_pipelined :
    ∃ conn, run easyConnectionNew pipelined = .ok conn ∧
      conn.processed = [Frame.bare, .twoRequests _ rfl, .bare].map Frame.chain ∧
      conn.intact = true := by
  have halong : AlongRun (fun conn _ ↦ conn.doingRequestCount ≤ easyConnDoingReqCnt ∧
      (readMessage conn).recycleCnt + 1 < recycleLimit) easyConnectionNew pipelined := by
    decide +kernel
  refine ((delivered_iff [.bare, .twoRequests _ rfl, .bare] .bare 5 (by decide) pipelined
    (by decide +kernel) (by decide +kernel)).1 (halong.mono ?_)).mpr ⟨halong.mono ?_, by decide⟩
  · intro conn event hevent hlimits
    cases event with
    | response position => trivial
    | read chunk env =>
      have henv : env = calmEnv := by
        simp only [pipelined, List.mem_cons, Event.read.injEq, reduceCtorEq, List.not_mem_nil]
          at hevent
        tauto
      exact henv ▸ isCalm_calmEnv hlimits.1
  · intro conn event _ hlimits hrecycles
    cases event with
    | response position => exact hrecycles
    | read chunk env => exact absurd hrecycles.1 (not_le.mpr hlimits.2)

end TdhSocket.Connection
