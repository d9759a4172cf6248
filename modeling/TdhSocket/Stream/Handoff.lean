import TdhSocket.Library.Runs

/-!
# A streamed request between its two threads

A GET whose result does not fit the buffer sends it in chunks. `send_stream` hands the request to
its IO thread with `easy_request_wakeup` and sleeps in `pthread_cond_wait`. The IO thread encodes
the chunk into the output of the connection and drops the references of the request
(`easy_connection_send_response`); when the output is written it takes the references again and
signals (`easy_connection_write_again`, `on_server_io_process`). A connection that is destroyed
meanwhile signals too, sets `is_closed` (`cleanup_request`) and releases the message with the
request in it.

The mutex of `client_wait` is held from the wakeup of the IO thread to the wait, and within the two
signalling functions. `chunk_written_before_reuse` says when the buffer is only reused after its
chunk was written, and `untouched_after_release` when the request thread keeps its hands off a
released request.
-/

set_option autoImplicit false

namespace TdhSocket.Stream

open Library

/-! ### The two threads -/

/-- Where the request thread is: it executes the request, is in `send_stream` before, in and behind
`pthread_cond_wait`, leaves `execute` because the connection was closed, has left it with
`EASY_ASYNC`, or has given the request back with its final answer. -/
inductive Phase
  | running
  | sending
  | waiting
  | resumed
  | leaving
  | left
  | finished
  deriving DecidableEq, Repr

/-- Where the request is: with its thread, in `request_list` of the IO thread, or in `session_list`
of the connection with its buffer in the output. -/
inductive Location
  | withThread
  | requestList
  | output
  deriving DecidableEq, Repr

/-- A streamed request: the bytes of the buffer in the space for the header and behind it, and
`b->pos` as the number of bytes sent; whether the request has references on the pools of its
connection and message; the members of `tdhs_client_wait_t`, whether the wait was signalled, and
whether `r->args` refers to it; whether the message was released. `chunks` lists the contents given
to `send_stream`, and `wire` the bytes written to the socket. -/
structure StreamedRequest where
  phase : Phase
  headerSpace : List UInt8
  payload : List UInt8
  sent : ℕ
  location : Location
  isHeld : Bool
  isInited : Bool
  isWaiting : Bool
  isClosed : Bool
  isSignalled : Bool
  hasArgs : Bool
  isReleased : Bool
  chunks : List (List UInt8)
  wire : List UInt8
  deriving DecidableEq, Repr

/-- `execute` has made the response buffer. -/
def newStream : StreamedRequest where
  phase := .running
  headerSpace := []
  payload := []
  sent := 0
  location := .withThread
  isHeld := true
  isInited := false
  isWaiting := false
  isClosed := false
  isSignalled := false
  hasArgs := false
  isReleased := false
  chunks := []
  wire := []

/-- The bytes of the buffer up to `b->last`. -/
def StreamedRequest.bytes (stream : StreamedRequest) : List UInt8 :=
  stream.headerSpace ++ stream.payload

/-- What the two threads do. The request thread fills the buffer, calls `send_stream` up to the
wait, waits, returns from the wait, reads `is_closed`, leaves `execute`, gives the final answer;
the IO thread sends the response, writes bytes, finds the output written, destroys the connection.
A leave knows whether the tables could not be unlocked and whether `tdhs_optimize_on && filters`; a
destroyed connection whether other requests hold references on it. -/
inductive Event
  | fill (payload : List UInt8)
  | sendStream
  | wait
  | wake
  | check
  | leave (unlockFails optimizes : Bool)
  | finish
  | sendResponse
  | write (count : ℕ)
  | drain
  | destroy (othersHold : Bool)
  deriving DecidableEq, Repr

/-- When an event can happen. A wait may return at any time. `on_server_io_process` and
`cleanup_request` wait for the mutex while the request thread has it, and `on_server_io_process`
ends the server when a request that has arguments is not waiting. -/
def IsEnabled (stream : StreamedRequest) : Event → Prop
  | .fill _ | .sendStream | .finish => stream.phase = .running
  | .wait => stream.phase = .sending
  | .wake => stream.phase = .waiting
  | .check => stream.phase = .resumed
  | .leave _ _ => stream.phase = .leaving
  | .sendResponse => stream.location = .requestList
  | .write _ => stream.location = .output ∧ stream.isReleased = false
  | .drain => stream.location = .output ∧ stream.isReleased = false ∧
      stream.sent = stream.bytes.length ∧
      (stream.hasArgs = true → stream.phase ≠ .sending ∧ stream.isWaiting = true)
  | .destroy _ => stream.isReleased = false ∧
      (stream.location = .output → stream.hasArgs = true → stream.phase ≠ .sending)

instance (stream : StreamedRequest) (event : Event) : Decidable (IsEnabled stream event) :=
  match event with
  | .fill _ | .sendStream | .finish => inferInstanceAs (Decidable (_ = _))
  | .wait | .wake | .check => inferInstanceAs (Decidable (_ = _))
  | .leave _ _ | .sendResponse => inferInstanceAs (Decidable (_ = _))
  | .write _ => inferInstanceAs (Decidable (_ ∧ _))
  | .drain => inferInstanceAs (Decidable (_ ∧ _ ∧ _ ∧ (_ → _ ∧ _)))
  | .destroy _ => inferInstanceAs (Decidable (_ ∧ (_ → _ → _)))

/-- `cleanup_request` on a request in `session_list`. -/
def cleanupRequest (stream : StreamedRequest) : StreamedRequest :=
  if stream.location = .output ∧ stream.hasArgs = true then
    { stream with
      isSignalled := stream.isSignalled || stream.isWaiting
      isClosed := true
      hasArgs := false }
  else stream

/-- `easy_connection_destroy`: the message goes with the connection when no reference is left. -/
def easyConnectionDestroy (othersHold : Bool) (stream : StreamedRequest) : StreamedRequest :=
  let cleaned := cleanupRequest stream
  { cleaned with isReleased := !(cleaned.isHeld || othersHold) }

section

variable (stream : StreamedRequest)

/-- `on_server_io_process` on a request in `session_list`. -/
def onServerIoProcess : StreamedRequest :=
  if stream.hasArgs = true then
    { stream with location := .withThread, isHeld := true, isSignalled := true }
  else { stream with location := .withThread }

/-- `send_stream` behind the wait. -/
def afterWait : StreamedRequest :=
  if stream.isClosed = true then { stream with phase := .leaving }
  else { stream with phase := .running, payload := [], sent := 0 }

/-- The request thread goes on exactly when the connection is not closed. -/
theorem afterWait_phase : (afterWait stream).phase = .running ↔ stream.isClosed = false := by
  unfold afterWait
  split_ifs with hclosed
  · simp [hclosed]
  · simp [hclosed]

theorem afterWait_location : (afterWait stream).location = stream.location := by
  unfold afterWait
  split_ifs <;> rfl

end

/-- What an event does. `header` is what `tdhs_encode` writes in front of a chunk. -/
def apply (header : List UInt8 → List UInt8) (stream : StreamedRequest) : Event → StreamedRequest
  | .fill payload => { stream with payload := payload }
  | .sendStream =>
    { stream with
      phase := .sending
      isInited := true
      hasArgs := stream.hasArgs || !stream.isInited
      location := .requestList
      chunks := stream.chunks ++ [stream.payload] }
  | .wait => { stream with phase := .waiting, isWaiting := true, isSignalled := false }
  | .wake => { stream with phase := .resumed, isWaiting := false, isSignalled := false }
  | .check => afterWait stream
  | .leave _ _ => { stream with phase := .left }
  | .finish => { stream with phase := .finished, isHeld := false }
  | .sendResponse =>
    { stream with
      headerSpace := header stream.payload
      location := .output
      isHeld := false }
  | .write count =>
    { stream with
      sent := min (stream.sent + count) stream.bytes.length
      wire := stream.wire ++ (stream.bytes.drop stream.sent).take count }
  | .drain => onServerIoProcess stream
  | .destroy othersHold => easyConnectionDestroy othersHold stream

/-- One event of one of the threads. -/
def step (header : List UInt8 → List UInt8) (stream : StreamedRequest) (event : Event) :
    Option StreamedRequest :=
  if IsEnabled stream event then some (apply header stream event) else none

variable {header : List UInt8 → List UInt8} {stream after : StreamedRequest} {event : Event}

/-- What an event needs and does. -/
theorem step_eq_some (hstep : step header stream event = some after) :
    IsEnabled stream event ∧ after = apply header stream event := by
  unfold step at hstep
  split_ifs at hstep with henabled
  exact ⟨henabled, (Option.some.inj hstep).symm⟩

/-! ### Who has the request -/

/-- The request thread has the request. -/
structure IsReturned (stream : StreamedRequest) : Prop where
  location : stream.location = .withThread
  held : stream.isHeld = true
  notClosed : stream.isClosed = false
  notReleased : stream.isReleased = false
  args : stream.isInited = true → stream.hasArgs = true

/-- The IO thread has the request. -/
structure IsSent (stream : StreamedRequest) : Prop where
  location : stream.location ≠ .withThread
  held : stream.isHeld = true ↔ stream.location = .requestList
  notClosed : stream.isClosed = false
  notReleased : stream.isReleased = false
  inited : stream.isInited = true
  args : stream.hasArgs = true

/-- The connection was destroyed while the IO thread had the request. -/
structure IsAbandoned (stream : StreamedRequest) : Prop where
  closed : stream.isClosed = true
  args : stream.hasArgs = false

/-- Who has the request in each phase, when no wait returned without a signal. -/
def IsOwned (stream : StreamedRequest) : Prop :=
  match stream.phase with
  | .running => IsReturned stream ∧ stream.sent = 0
  | .sending => IsSent stream
  | .waiting => stream.isWaiting = true ∧
      (stream.isSignalled = false → IsSent stream) ∧
      (stream.isSignalled = true → IsReturned stream ∨ IsAbandoned stream)
  | .resumed => IsReturned stream ∨ IsAbandoned stream
  | .leaving => IsAbandoned stream
  | .left => True
  | .finished => stream.location = .withThread

/-- A wait that returns was signalled. -/
def IsSignalledWake (stream : StreamedRequest) : Event → Prop
  | .wake => stream.isSignalled = true
  | _ => True

section Phases

variable {stream : StreamedRequest} (howned : IsOwned stream)

include howned

theorem IsOwned.running (hphase : stream.phase = .running) :
    IsReturned stream ∧ stream.sent = 0 := by
  unfold IsOwned at howned
  rwa [hphase] at howned

theorem IsOwned.sending (hphase : stream.phase = .sending) : IsSent stream := by
  unfold IsOwned at howned
  rwa [hphase] at howned

theorem IsOwned.waiting (hphase : stream.phase = .waiting) :
    stream.isWaiting = true ∧ (stream.isSignalled = false → IsSent stream) ∧
      (stream.isSignalled = true → IsReturned stream ∨ IsAbandoned stream) := by
  unfold IsOwned at howned
  rwa [hphase] at howned

theorem IsOwned.resumed (hphase : stream.phase = .resumed) :
    IsReturned stream ∨ IsAbandoned stream := by
  unfold IsOwned at howned
  rwa [hphase] at howned

theorem IsOwned.finished (hphase : stream.phase = .finished) :
    stream.location = .withThread := by
  unfold IsOwned at howned
  rwa [hphase] at howned

end Phases

/-- What the IO thread does keeps the owner of the request, or returns it with a signal. -/
theorem IsOwned.of_io (howned : IsOwned stream)
    (hphase : after.phase = stream.phase) (hwaiting : after.isWaiting = stream.isWaiting)
    (hsignalled : stream.isSignalled = true → after.isSignalled = true)
    (hlocation : stream.location = .withThread → after.location = .withThread)
    (hreturned : IsReturned stream → IsReturned after ∧ after.sent = stream.sent)
    (habandoned : IsAbandoned stream → IsAbandoned after)
    (hsent : IsSent stream → (IsSent after ∧ after.isSignalled = stream.isSignalled) ∨
      (stream.phase ≠ .sending ∧ (stream.isWaiting = true → after.isSignalled = true) ∧
        (IsReturned after ∨ IsAbandoned after))) : IsOwned after := by
  unfold IsOwned
  rw [hphase]
  cases hcase : stream.phase with
  | running =>
    obtain ⟨hback, hzero⟩ := howned.running hcase
    exact ⟨(hreturned hback).1, (hreturned hback).2.trans hzero⟩
  | sending =>
    rcases hsent (howned.sending hcase) with ⟨hafter, -⟩ | ⟨hphase, -⟩
    · exact hafter
    · exact absurd hcase hphase
  | waiting =>
    obtain ⟨hwaits, hunsignalled, hdone⟩ := howned.waiting hcase
    refine ⟨hwaiting.trans hwaits, ?_⟩
    cases hsignal : stream.isSignalled with
    | true =>
      rw [hsignalled hsignal]
      refine ⟨fun hno ↦ absurd hno (by decide), fun _ ↦ ?_⟩
      rcases hdone hsignal with hback | hgone
      · exact Or.inl (hreturned hback).1
      · exact Or.inr (habandoned hgone)
    | false =>
      rcases hsent (hunsignalled hsignal) with ⟨hafter, hsame⟩ | ⟨-, hsignals, hafter⟩
      · rw [hsame, hsignal]
        exact ⟨fun _ ↦ hafter, fun hyes ↦ absurd hyes (by decide)⟩
      · rw [hsignals hwaits]
        exact ⟨fun hno ↦ absurd hno (by decide), fun _ ↦ hafter⟩
  | resumed =>
    rcases howned.resumed hcase with hback | hgone
    · exact Or.inl (hreturned hback).1
    · exact Or.inr (habandoned hgone)
  | leaving =>
    unfold IsOwned at howned
    rw [hcase] at howned
    exact habandoned howned
  | left => trivial
  | finished => exact hlocation (howned.finished hcase)

theorem IsOwned.destroy (othersHold : Bool) (howned : IsOwned stream)
    (henabled : IsEnabled stream (.destroy othersHold)) :
    IsOwned (easyConnectionDestroy othersHold stream) := by
  obtain ⟨-, hmutex⟩ := henabled
  by_cases hcleans : stream.location = .output ∧ stream.hasArgs = true
  · -- the IO thread has the request: it is signalled and abandoned
    have hcleaned : cleanupRequest stream = { stream with
        isSignalled := stream.isSignalled || stream.isWaiting
        isClosed := true
        hasArgs := false } := if_pos hcleans
    unfold easyConnectionDestroy
    rw [hcleaned]
    refine howned.of_io rfl rfl (fun h ↦ by simp [h]) id (fun h ↦ ?_) (fun _ ↦ ⟨rfl, rfl⟩)
      (fun _ ↦ Or.inr ⟨hmutex hcleans.1 hcleans.2, fun h ↦ by simp [h], Or.inr ⟨rfl, rfl⟩⟩)
    rw [h.location] at hcleans
    exact absurd hcleans.1 (by decide)
  · unfold easyConnectionDestroy
    rw [cleanupRequest, if_neg hcleans]
    refine howned.of_io rfl rfl id id (fun h ↦ ⟨⟨h.location, h.held, h.notClosed, ?_, h.args⟩, rfl⟩)
      (fun h ↦ ⟨h.closed, h.args⟩) (fun h ↦ Or.inl ⟨?_, rfl⟩)
    · simp [h.held]
    · have hlist : stream.location = .requestList := by
        cases hlocation : stream.location with
        | withThread => exact absurd hlocation h.location
        | requestList => rfl
        | output => exact absurd ⟨hlocation, h.args⟩ hcleans
      exact ⟨h.location, h.held, h.notClosed, by simp [h.held.mpr hlist], h.inited, h.args⟩

theorem IsOwned.drain (howned : IsOwned stream)
    (henabled : IsEnabled stream .drain) : IsOwned (onServerIoProcess stream) := by
  obtain ⟨houtput, hreleased, -, hmutex⟩ := henabled
  have hnotReturned : ¬IsReturned stream := fun h ↦ by
    rw [h.location] at houtput
    cases houtput
  unfold onServerIoProcess
  split_ifs with hargs
  · refine howned.of_io rfl rfl (fun _ ↦ rfl) (fun _ ↦ rfl) (fun h ↦ absurd h hnotReturned)
      (fun h ↦ ⟨h.closed, h.args⟩) (fun h ↦ Or.inr ⟨(hmutex hargs).1, fun _ ↦ rfl, Or.inl ?_⟩)
    exact ⟨rfl, rfl, h.notClosed, hreleased, fun _ ↦ hargs⟩
  · exact howned.of_io rfl rfl id (fun _ ↦ rfl) (fun h ↦ absurd h hnotReturned)
      (fun h ↦ ⟨h.closed, h.args⟩) (fun h ↦ absurd h.args hargs)

theorem IsOwned.step (howned : IsOwned stream) (hsignal : IsSignalledWake stream event)
    (hstep : step header stream event = some after) : IsOwned after := by
  obtain ⟨henabled, rfl⟩ := step_eq_some hstep
  cases event with
  | fill payload =>
    obtain ⟨h, hsent⟩ := howned.running henabled
    unfold IsOwned
    simp only [apply]
    rw [show stream.phase = .running from henabled]
    exact ⟨⟨h.location, h.held, h.notClosed, h.notReleased, h.args⟩, hsent⟩
  | sendStream =>
    obtain ⟨h, -⟩ := howned.running henabled
    refine ⟨nofun, ⟨fun _ ↦ rfl, fun _ ↦ h.held⟩, h.notClosed, h.notReleased, rfl, ?_⟩
    cases hinited : stream.isInited with
    | true => simp [apply, h.args hinited]
    | false => simp [apply, hinited]
  | wait =>
    have h := howned.sending henabled
    exact ⟨rfl, fun _ ↦ ⟨h.location, h.held, h.notClosed, h.notReleased, h.inited, h.args⟩, nofun⟩
  | wake =>
    rcases (howned.waiting henabled).2.2 hsignal with h | h
    · exact Or.inl ⟨h.location, h.held, h.notClosed, h.notReleased, h.args⟩
    · exact Or.inr ⟨h.closed, h.args⟩
  | check =>
    have hresumed := howned.resumed henabled
    simp only [apply, afterWait]
    split_ifs with hclosed
    · rcases hresumed with h | h
      · rw [h.notClosed] at hclosed
        cases hclosed
      · exact ⟨h.closed, h.args⟩
    · rcases hresumed with h | h
      · exact ⟨⟨h.location, h.held, h.notClosed, h.notReleased, h.args⟩, rfl⟩
      · exact absurd h.closed hclosed
  | leave unlockFails optimizes => trivial
  | finish => exact (howned.running henabled).1.location
  | sendResponse =>
    have hlist : stream.location = .requestList := henabled
    have hnotThread : stream.location ≠ .withThread := by
      rw [hlist]
      decide
    exact howned.of_io rfl rfl id (fun h ↦ absurd h hnotThread)
      (fun h ↦ absurd h.location hnotThread) (fun h ↦ ⟨h.closed, h.args⟩)
      (fun h ↦ Or.inl ⟨⟨nofun, ⟨nofun, nofun⟩, h.notClosed, h.notReleased, h.inited, h.args⟩, rfl⟩)
  | write count =>
    obtain ⟨houtput, -⟩ := henabled
    have hnotThread : stream.location ≠ .withThread := by
      rw [houtput]
      decide
    exact howned.of_io rfl rfl id id
      (fun h ↦ absurd h.location hnotThread) (fun h ↦ ⟨h.closed, h.args⟩)
      (fun h ↦ Or.inl ⟨⟨h.location, h.held, h.notClosed, h.notReleased, h.inited, h.args⟩, rfl⟩)
  | drain => exact howned.drain henabled
  | destroy othersHold => exact howned.destroy othersHold henabled

/-! ### What is on the wire -/

/-- The frames of a list of chunks. -/
def frames (header : List UInt8 → List UInt8) (chunks : List (List UInt8)) : List UInt8 :=
  chunks.flatMap fun payload ↦ header payload ++ payload

/-- The wire has the frames of the chunks, up to where the one in the output is written. -/
def IsWritten (header : List UInt8 → List UInt8) (stream : StreamedRequest) : Prop :=
  match stream.location with
  | .withThread => stream.wire = frames header stream.chunks
  | .requestList => ∃ done, stream.chunks = done ++ [stream.payload] ∧ stream.sent = 0 ∧
      stream.wire = frames header done
  | .output => ∃ done, stream.chunks = done ++ [stream.payload] ∧
      stream.headerSpace = header stream.payload ∧
      stream.wire = frames header done ++ stream.bytes.take stream.sent

section Wire

variable {header : List UInt8 → List UInt8} {stream : StreamedRequest}
  (hwritten : IsWritten header stream)

include hwritten

theorem IsWritten.withThread (hlocation : stream.location = .withThread) :
    stream.wire = frames header stream.chunks := by
  unfold IsWritten at hwritten
  rwa [hlocation] at hwritten

theorem IsWritten.requestList (hlocation : stream.location = .requestList) :
    ∃ done, stream.chunks = done ++ [stream.payload] ∧ stream.sent = 0 ∧
      stream.wire = frames header done := by
  unfold IsWritten at hwritten
  rwa [hlocation] at hwritten

theorem IsWritten.output (hlocation : stream.location = .output) :
    ∃ done, stream.chunks = done ++ [stream.payload] ∧
      stream.headerSpace = header stream.payload ∧
      stream.wire = frames header done ++ stream.bytes.take stream.sent := by
  unfold IsWritten at hwritten
  rwa [hlocation] at hwritten

/-- The wire never has anything but the frames in order. -/
theorem IsWritten.isPrefix : stream.wire <+: frames header stream.chunks := by
  cases hlocation : stream.location with
  | withThread =>
    exact ⟨[], by rw [List.append_nil, hwritten.withThread hlocation]⟩
  | requestList =>
    obtain ⟨done, hchunks, -, hwire⟩ := hwritten.requestList hlocation
    rw [hwire, hchunks, frames, frames, List.flatMap_append]
    exact List.prefix_append _ _
  | output =>
    obtain ⟨done, hchunks, hheader, hwire⟩ := hwritten.output hlocation
    rw [hwire, hchunks, frames, frames, List.flatMap_append, List.flatMap_singleton,
      StreamedRequest.bytes, hheader]
    exact (List.prefix_append_right_inj _).mpr (List.take_prefix _ _)

/-- Nothing of what the wire depends on changes. -/
theorem IsWritten.of_eq (hlocation : after.location = stream.location)
    (hspace : after.headerSpace = stream.headerSpace) (hpayload : after.payload = stream.payload)
    (hsent : after.sent = stream.sent) (hchunks : after.chunks = stream.chunks)
    (hwire : after.wire = stream.wire) : IsWritten header after := by
  unfold IsWritten StreamedRequest.bytes at hwritten ⊢
  rwa [hlocation, hspace, hpayload, hsent, hchunks, hwire]

/-- A request that is back with its thread has its frames on the wire, whatever the buffer holds. -/
theorem IsWritten.of_withThread
    (hlocation : stream.location = .withThread) (hafter : after.location = .withThread)
    (hchunks : after.chunks = stream.chunks) (hwire : after.wire = stream.wire) :
    IsWritten header after := by
  unfold IsWritten
  rw [hafter, hchunks, hwire]
  exact hwritten.withThread hlocation

theorem IsWritten.write (count : ℕ) (hlocation : stream.location = .output) :
    IsWritten header (apply header stream (.write count)) := by
  obtain ⟨done, hchunks, hheader, hwire⟩ := hwritten.output hlocation
  unfold IsWritten
  simp only [apply, hlocation]
  refine ⟨done, hchunks, hheader, ?_⟩
  rw [hwire, List.append_assoc, List.append_cancel_left_eq]
  simp only [StreamedRequest.bytes]
  rw [← List.take_add, List.take_eq_take_iff]
  simp

theorem IsWritten.drain (henabled : IsEnabled stream .drain) :
    IsWritten header (onServerIoProcess stream) := by
  obtain ⟨hlocation, -, hsent, -⟩ := henabled
  obtain ⟨done, hchunks, hheader, hwire⟩ := hwritten.output hlocation
  have hall : stream.wire = frames header stream.chunks := by
    rw [hwire, hchunks, hsent, List.take_length, frames, frames, List.flatMap_append,
      List.flatMap_singleton, StreamedRequest.bytes, hheader]
  unfold onServerIoProcess
  split_ifs
  · exact hall
  · exact hall

end Wire

theorem IsWritten.step (hwritten : IsWritten header stream) (howned : IsOwned stream)
    (hstep : step header stream event = some after) : IsWritten header after := by
  obtain ⟨henabled, rfl⟩ := step_eq_some hstep
  cases event with
  | fill payload =>
    have hlocation := (howned.running henabled).1.location
    exact hwritten.of_withThread hlocation hlocation rfl rfl
  | sendStream =>
    obtain ⟨hreturned, hsent⟩ := howned.running henabled
    exact ⟨stream.chunks, rfl, hsent, hwritten.withThread hreturned.location⟩
  | wait => exact hwritten.of_eq rfl rfl rfl rfl rfl rfl
  | wake => exact hwritten.of_eq rfl rfl rfl rfl rfl rfl
  | check =>
    simp only [apply, afterWait]
    split_ifs with hclosed
    · exact hwritten.of_eq rfl rfl rfl rfl rfl rfl
    · rcases howned.resumed henabled with h | h
      · exact hwritten.of_withThread h.location h.location rfl rfl
      · exact absurd h.closed hclosed
  | leave unlockFails optimizes => exact hwritten.of_eq rfl rfl rfl rfl rfl rfl
  | finish => exact hwritten.of_eq rfl rfl rfl rfl rfl rfl
  | sendResponse =>
    obtain ⟨done, hchunks, hsent, hwire⟩ := hwritten.requestList henabled
    refine ⟨done, hchunks, rfl, ?_⟩
    simp [apply, hsent, hwire]
  | write count => exact hwritten.write count henabled.1
  | drain => exact hwritten.drain henabled
  | destroy othersHold =>
    simp only [apply, easyConnectionDestroy, cleanupRequest]
    split_ifs
    · exact hwritten.of_eq rfl rfl rfl rfl rfl rfl
    · exact hwritten.of_eq rfl rfl rfl rfl rfl rfl

/-- In a run in which every wait returns behind a signal, the request has its owner and the wire its
frames. -/
theorem isOwned_of_reached
    (hreached : Reached (step header) IsSignalledWake newStream stream) :
    IsOwned stream ∧ IsWritten header stream :=
  hreached.invariant (fun stream ↦ IsOwned stream ∧ IsWritten header stream)
    ⟨⟨⟨rfl, rfl, rfl, rfl, nofun⟩, rfl⟩, rfl⟩
    fun hbefore hsignal hstep ↦ ⟨hbefore.1.step hsignal hstep, hbefore.2.step hbefore.1 hstep⟩

/-! ### Reusing the buffer -/

/-- In a run in which every wait returns behind a signal, the wire has the frames of the chunks in
order, each once and as it was given to `send_stream`, and the request thread goes on only when all
of them are written and the request is back. A wait that returns without a signal lets it go on
while the IO thread has the request. -/
theorem chunk_written_before_reuse (header : List UInt8 → List UInt8) :
    (∀ stream, Reached (step header) IsSignalledWake newStream stream →
      stream.wire <+: frames header stream.chunks ∧
      (stream.phase = .running ∨ stream.phase = .finished →
        stream.location = .withThread ∧ stream.wire = frames header stream.chunks)) ∧
    ∀ stream after, Reached (step header) IsSignalledWake newStream stream →
      stream.phase = .waiting → run (step header) stream [.wake, .check] = some after →
      ((after.phase = .running → after.location = .withThread) ↔ stream.isSignalled = true) := by
  constructor
  · intro stream hreached
    obtain ⟨howned, hwritten⟩ := isOwned_of_reached hreached
    refine ⟨hwritten.isPrefix, fun hphase ↦ ?_⟩
    have hlocation : stream.location = .withThread := by
      rcases hphase with hrunning | hfinished
      · exact (howned.running hrunning).1.location
      · exact howned.finished hfinished
    exact ⟨hlocation, hwritten.withThread hlocation⟩
  · intro stream after hreached hphase hrun
    obtain ⟨howned, -⟩ := isOwned_of_reached hreached
    obtain ⟨woken, hwake, hrest⟩ := Option.bind_eq_some_iff.mp hrun
    obtain ⟨checked, hcheck, hend⟩ := Option.bind_eq_some_iff.mp hrest
    cases hend
    obtain ⟨-, rfl⟩ := step_eq_some hwake
    obtain ⟨-, rfl⟩ := step_eq_some hcheck
    obtain ⟨-, hunsignalled, hsignalled⟩ := howned.waiting hphase
    simp only [apply, afterWait_phase, afterWait_location]
    constructor
    · intro hback
      by_contra hno
      have hsent := hunsignalled (Bool.not_eq_true _ ▸ hno)
      exact hsent.location (hback hsent.notClosed)
    · intro hyes hnotClosed
      rcases hsignalled hyes with h | h
      · exact h.location
      · rw [h.closed] at hnotClosed
        cases hnotClosed

/-- A header of one byte, for examples: the length of the chunk. -/
def lengthHeader (payload : List UInt8) : List UInt8 := [UInt8.ofNat payload.length]

/-- One chunk is written and the wait returns. -/
theorem chunk_written_before_reuse_oneChunk :
    (∃ stream, Reached (step lengthHeader) IsSignalledWake newStream stream ∧
      stream.phase = .running ∧ stream.chunks = [[7]] ∧
      stream.wire = frames lengthHeader stream.chunks) ∧
    ∃ stream after, Reached (step lengthHeader) IsSignalledWake newStream stream ∧
      run (step lengthHeader) stream [.wake, .check] = some after ∧
      (after.phase = .running → after.location = .withThread) := by
  have hwaiting : ∃ stream, Reached (step lengthHeader) IsSignalledWake newStream stream ∧
      run (step lengthHeader) newStream
        [.fill [7], .sendStream, .wait, .sendResponse, .write 2, .drain] = some stream :=
    ⟨_, .next .drain (.next (.write 2) (.next .sendResponse (.next .wait (.next .sendStream
      (.next (.fill [7]) .start trivial rfl) trivial rfl) trivial rfl) trivial rfl) trivial rfl)
      trivial rfl, rfl⟩
  obtain ⟨stream, hreached, hrun⟩ := hwaiting
  cases hrun
  have hresumed := hreached.next Event.wake rfl rfl
  have hback := hresumed.next Event.check trivial rfl
  exact ⟨⟨_, hback, rfl, rfl, (((chunk_written_before_reuse lengthHeader).1 _ hback).2
    (Or.inl rfl)).2⟩, _, _, hreached, rfl,
    ((chunk_written_before_reuse lengthHeader).2 _ _ hreached rfl rfl).mpr rfl⟩

/-- The wait returns without a signal before the chunk is written; the next one overwrites it. -/
theorem overwritten_chunk_sent :
    ∃ stream, run (step lengthHeader) newStream [.fill [7], .sendStream, .wait, .sendResponse,
        .wake, .check, .fill [8], .write 2] = some stream ∧
      stream.phase = .running ∧ stream.location = .output ∧ stream.chunks = [[7]] ∧
      stream.wire = [1, 8] :=
  ⟨_, rfl, rfl, rfl, rfl, rfl⟩

/-! ### A request that was released -/

/-- The event is one of the request thread that reads or writes the packet, the `tdhs_request_t` or
the `easy_request_t`. Behind the wait `send_stream` reads `is_closed`, which is on the stack of the
request thread, and resets the packet when it is false; a request thread that leaves reads the
response in `~table_locker_for_context` when the tables could not be unlocked, and the request in
`add_optimize` when the optimizer has its filters. -/
def touches (stream : StreamedRequest) : Event → Bool
  | .fill _ | .sendStream | .finish => true
  | .check => !stream.isClosed
  | .leave unlockFails optimizes => unlockFails || optimizes
  | _ => false

/-- A wait returns behind a signal, and a request thread that leaves unlocks its tables with the
optimizer off or without filters. -/
def IsCareful (stream : StreamedRequest) : Event → Prop
  | .wake => stream.isSignalled = true
  | .leave unlockFails optimizes => unlockFails = false ∧ optimizes = false
  | _ => True

theorem IsCareful.isSignalledWake (hcareful : IsCareful stream event) :
    IsSignalledWake stream event := by
  cases event with
  | wake => exact hcareful
  | _ => trivial

/-- A connection closed while the request thread sleeps and the chunk is in the output releases the
message, and the request thread goes on to leave. -/
theorem IsSent.closed
    (hsent : IsSent stream) (hphase : stream.phase = .waiting)
    (houtput : stream.location = .output) :
    ∃ closed, run (step header) stream [.destroy false, .wake, .check] = some closed ∧
      closed.phase = .leaving ∧ closed.isReleased = true := by
  have hheld : stream.isHeld = false := by
    rw [← Bool.not_eq_true, hsent.held, houtput]
    decide
  have hcleaned : cleanupRequest stream = { stream with
      isSignalled := stream.isSignalled || stream.isWaiting
      isClosed := true
      hasArgs := false } := if_pos ⟨houtput, hsent.args⟩
  refine ⟨{ stream with
    phase := .leaving
    isWaiting := false
    isClosed := true
    isSignalled := false
    hasArgs := false
    isReleased := true }, ?_, rfl, rfl⟩
  simp [run, step, apply, easyConnectionDestroy, hcleaned, hheld, IsEnabled, hphase,
    hsent.notReleased, afterWait]

/-- In a careful run no event of the request thread touches a request that was released. When the
connection is closed while the request thread sleeps and its chunk is in the output, the request is
released, and the thread touches it exactly when it does not leave carefully. -/
theorem untouched_after_release (header : List UInt8 → List UInt8) :
    (∀ stream event after, Reached (step header) IsCareful newStream stream →
      IsCareful stream event → step header stream event = some after →
      touches stream event = true → stream.isReleased = false) ∧
    ∀ stream, Reached (step header) IsCareful newStream stream → stream.phase = .waiting →
      stream.isSignalled = false → stream.location = .output →
      ∃ closed, run (step header) stream [.destroy false, .wake, .check] = some closed ∧
        closed.phase = .leaving ∧ closed.isReleased = true ∧
        ∀ unlockFails optimizes, touches closed (.leave unlockFails optimizes) = false ↔
          IsCareful closed (.leave unlockFails optimizes) := by
  constructor
  · intro stream event after hreached hcareful hstep htouches
    have howned := (isOwned_of_reached (hreached.mono fun _ _ h ↦ h.isSignalledWake)).1
    obtain ⟨henabled, -⟩ := step_eq_some hstep
    cases event with
    | fill payload => exact (howned.running henabled).1.notReleased
    | sendStream => exact (howned.running henabled).1.notReleased
    | finish => exact (howned.running henabled).1.notReleased
    | check =>
      rcases howned.resumed henabled with h | h
      · exact h.notReleased
      · simp [touches, h.closed] at htouches
    | leave unlockFails optimizes =>
      obtain ⟨rfl, rfl⟩ := hcareful
      cases htouches
    | _ => cases htouches
  · intro stream hreached hphase hunsignalled houtput
    have howned := (isOwned_of_reached (hreached.mono fun _ _ h ↦ h.isSignalledWake)).1
    have hsent := (howned.waiting hphase).2.1 hunsignalled
    obtain ⟨closed, hrun, hleaving, hreleased⟩ := hsent.closed hphase houtput
    refine ⟨closed, hrun, hleaving, hreleased, fun unlockFails optimizes ↦ ?_⟩
    simp [touches, IsCareful]

/-- The connection is closed while the chunk is in its output; the request thread leaves. -/
def closedRun : List Event :=
  [.fill [7], .sendStream, .wait, .sendResponse, .destroy false, .wake, .check]

/-- The request thread leaves a released request without touching it. -/
theorem untouched_after_release_closed :
    (∃ stream, run (step lengthHeader) newStream closedRun = some stream ∧
      stream.isReleased = true ∧ stream.phase = .leaving ∧
      ∀ event after, IsCareful stream event → step lengthHeader stream event = some after →
        touches stream event = false) ∧
    ∃ stream closed, run (step lengthHeader) stream [.destroy false, .wake, .check] = some closed ∧
      closed.isReleased = true ∧ touches closed (.leave false false) = false := by
  have hsleeping : ∃ stream, Reached (step lengthHeader) IsCareful newStream stream ∧
      run (step lengthHeader) newStream [.fill [7], .sendStream, .wait, .sendResponse] =
        some stream :=
    ⟨_, .next .sendResponse (.next .wait (.next .sendStream (.next (.fill [7]) .start trivial rfl)
      trivial rfl) trivial rfl) trivial rfl, rfl⟩
  obtain ⟨stream, hreached, hrun⟩ := hsleeping
  cases hrun
  have hclosed := hreached.next (Event.destroy false) trivial rfl
  have hresumed := hclosed.next Event.wake rfl rfl
  have hleaving := hresumed.next Event.check trivial rfl
  refine ⟨⟨_, rfl, rfl, rfl, fun event after hcareful hstep ↦ ?_⟩, ?_⟩
  · by_contra htouches
    have hnotReleased := (untouched_after_release lengthHeader).1 _ event after hleaving hcareful
      hstep (by simpa using htouches)
    cases hnotReleased
  · obtain ⟨closed, hclose, -, hreleased, htouches⟩ :=
      (untouched_after_release lengthHeader).2 _ hreached rfl rfl rfl
    exact ⟨_, closed, hclose, hreleased, (htouches false false).mpr ⟨rfl, rfl⟩⟩

/-- With the optimizer on, `add_optimize` reads the request behind its release. -/
theorem released_request_optimized :
    ∃ stream, run (step lengthHeader) newStream closedRun = some stream ∧
      stream.isReleased = true ∧ (step lengthHeader stream (.leave false true)).isSome = true ∧
      touches stream (.leave false true) = true :=
  ⟨_, rfl, rfl, rfl, rfl⟩

end TdhSocket.Stream
