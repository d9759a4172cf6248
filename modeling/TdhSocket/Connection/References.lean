import Mathlib.Data.Int.Notation
import TdhSocket.Library.Runs

/-!
# References of requests on their connection

`c->pool->ref` of a server connection. It grows when a request is pushed to a request thread
(`easy_thread_pool_push`) and when a streamed request goes on (`on_server_io_process`), and shrinks
when the IO thread takes a request from its `request_list` (`easy_connection_send_response`), which
it does for the final answer and for every chunk of a stream. A row-cache redispatch moves a request
to another thread and keeps the reference. `easy_connection_destroy` releases the pool of the
connection when no reference is left.

`Fine` says for each phase of the request thread where its request is; every step keeps it and
changes the counter as it changes what is counted (`requestStep_fine`). `ref_counts_requests` is the
result for all interleavings in which a wait returns behind a signal.
-/

set_option autoImplicit false

namespace TdhSocket.Connection.References

open Library

/-! ### Requests -/

/-- Where a request is: in the list of its message, in the task list of a request thread, among the
requests that the thread took, with the thread, among those it has executed, in `request_list` of
the IO thread, in `session_list` of the connection, or in no list. -/
inductive Spot
  | messageList
  | taskList
  | taken
  | withThread
  | executed
  | requestList
  | sessionList
  | nowhere
  deriving DecidableEq, Repr

/-- Where the request thread is: not executing the request, executing it, in `send_stream` before,
in and behind `pthread_cond_wait`, or leaving `execute` because the connection was closed. -/
inductive Phase
  | idle
  | running
  | sending
  | waiting
  | resumed
  | leaving
  deriving DecidableEq, Repr

/-- `r->retcode`. -/
inductive RetCode
  | ok
  | again
  | error
  deriving DecidableEq, Repr

/-- A request: its place, the phase of its thread, `r->retcode`, whether the IO thread has collected
a chunk and not given the request back, the members of `tdhs_client_wait_t`, whether the wait was
signalled, and whether `r->args` refers to it. -/
structure Request where
  spot : Spot
  phase : Phase
  retcode : RetCode
  isCollected : Bool
  isInited : Bool
  isWaiting : Bool
  isClosed : Bool
  isSignalled : Bool
  hasArgs : Bool
  deriving DecidableEq, Repr

/-- A request that was decoded. -/
def newRequest : Request := ⟨.messageList, .idle, .ok, false, false, false, false, false, false⟩

variable (r : Request)

/-- The request is in the task list or among the requests of a thread, is executed without a chunk
collected by the IO thread, or waits in the list of the IO thread. -/
def isCounted : Bool :=
  r.spot == .taskList || r.spot == .taken || r.spot == .executed || r.spot == .requestList ||
    (r.phase != .idle && !r.isCollected)

/-! ### Steps of one request -/

/-- What happens to a request. The IO thread answers it itself, pushes it, sends its response or
finds the output written. A request thread takes it from its task list, starts it or refuses it
because the connection is closed, redispatches it, calls `send_stream` up to the wait, waits,
returns from the wait, reads `is_closed`, leaves `execute`, finishes it or hands it to the IO
thread. -/
inductive RequestEvent
  | answer
  | push
  | take
  | start
  | refuse
  | redispatch
  | sendStream
  | wait
  | wake
  | check
  | leave
  | finish (failed : Bool)
  | handOver
  | sendResponse (encoded : Bool)
  | drain
  deriving DecidableEq, Repr

/-- The steps of the IO thread. -/
def RequestEvent.isIo : RequestEvent → Bool
  | .answer | .push | .sendResponse _ | .drain => true
  | _ => false

/-- When an event can happen. `on_server_io_process` waits for the mutex while the request thread
has it, and ends the server when a request that has arguments is not waiting. -/
def IsEnabled (isClosing : Bool) (r : Request) : RequestEvent → Prop
  | .answer | .push => r.spot = .messageList
  | .take => r.spot = .taskList
  | .start => r.spot = .taken ∧ isClosing = false
  | .refuse => r.spot = .taken ∧ isClosing = true
  | .redispatch => r.phase = .running ∧ r.isInited = false
  | .sendStream => r.phase = .running
  | .wait => r.phase = .sending
  | .wake => r.phase = .waiting
  | .check => r.phase = .resumed
  | .leave => r.phase = .leaving
  | .finish _ => r.phase = .running
  | .handOver => r.spot = .executed
  | .sendResponse _ => r.spot = .requestList
  | .drain => r.spot = .sessionList ∧
      (r.hasArgs = true → r.phase ≠ .sending ∧ r.isWaiting = true)

instance (isClosing : Bool) (r : Request) (event : RequestEvent) :
    Decidable (IsEnabled isClosing r event) :=
  match event with
  | .answer | .push | .take | .sendStream | .wait | .wake => inferInstanceAs (Decidable (_ = _))
  | .check | .leave | .finish _ | .handOver | .sendResponse _ =>
    inferInstanceAs (Decidable (_ = _))
  | .start | .refuse | .redispatch => inferInstanceAs (Decidable (_ ∧ _))
  | .drain => inferInstanceAs (Decidable (_ ∧ (_ → _ ∧ _)))

/-- `easy_connection_request_done`, as far as lists are concerned: a chunk that is encoded waits in
`session_list` until the output is written. -/
def easyConnectionRequestDone (encoded : Bool) (r : Request) : Request :=
  if r.retcode = .again then
    { r with isCollected := true, spot := if encoded then .sessionList else .nowhere }
  else { r with spot := .nowhere }

/-- `on_server_io_process` on a request from `session_list`, and what it adds to the counter. -/
def onServerIoProcess : Request × ℤ :=
  if r.hasArgs then
    ({ r with spot := .withThread, isCollected := false, isSignalled := true }, 1)
  else ({ r with spot := .nowhere }, 0)

/-- What an event does to the request, and what it adds to the counter. -/
def applyRequest : RequestEvent → Request × ℤ
  | .answer => ({ r with spot := .nowhere }, 0)
  | .push => ({ r with spot := .taskList, retcode := .again }, 1)
  | .take => ({ r with spot := .taken }, 0)
  | .start => ({ r with spot := .withThread, phase := .running, retcode := .again }, 0)
  | .refuse => ({ r with spot := .executed, retcode := .error }, 0)
  | .redispatch => ({ r with spot := .taskList, phase := .idle, retcode := .again }, 0)
  | .sendStream =>
    ({ r with
        phase := .sending
        isInited := true
        hasArgs := r.hasArgs || !r.isInited
        spot := .requestList }, 0)
  | .wait => ({ r with phase := .waiting, isWaiting := true, isSignalled := false }, 0)
  | .wake => ({ r with phase := .resumed, isWaiting := false, isSignalled := false }, 0)
  | .check => ({ r with phase := if r.isClosed then .leaving else .running }, 0)
  | .leave => ({ r with phase := .idle }, 0)
  | .finish failed =>
    ({ r with
        phase := .idle
        spot := .executed
        retcode := if failed then .error else .ok
        isInited := false
        hasArgs := false }, 0)
  | .handOver => ({ r with spot := .requestList }, 0)
  | .sendResponse encoded => (easyConnectionRequestDone encoded r, -1)
  | .drain => onServerIoProcess r

/-! ### The connection -/

/-- A server connection: `c->pool->ref`, whether its status is `EASY_CONN_CLOSE`, its requests, and
the value of the counter when the pool was destroyed. -/
structure ServerConnection where
  ref : ℤ
  isClosing : Bool
  requests : List Request
  releasedAt : Option ℤ
  deriving DecidableEq, Repr

/-- A connection that was accepted. -/
def newConnection : ServerConnection := ⟨0, false, [], none⟩

/-- What happens to a connection: a request is decoded, something happens to the request at a
position, or `easy_connection_destroy` is called. -/
inductive Event
  | decode
  | request (position : ℕ) (event : RequestEvent)
  | destroy
  deriving DecidableEq, Repr

/-- `cleanup_request`. -/
def cleanupRequest : Request :=
  if r.spot = .sessionList ∧ r.hasArgs = true then
    { r with
      isSignalled := r.isSignalled || r.isWaiting
      isClosed := true
      hasArgs := false }
  else r

variable (conn : ServerConnection)

/-- `easy_connection_destroy`, when the IO library is not stopping. -/
def easyConnectionDestroy : ServerConnection :=
  let cleaned :=
    { conn with
      isClosing := conn.isClosing || decide (0 < conn.ref)
      requests := conn.requests.map cleanupRequest }
  if 0 < conn.ref then cleaned else { cleaned with releasedAt := some conn.ref }

/-- `cleanup_request` waits for the mutex while a request thread has it. -/
def canCleanup : Bool :=
  conn.requests.all fun r ↦ !(r.spot == .sessionList && r.hasArgs && r.phase == .sending)

/-- A request at a position is changed. -/
def stepRequest (position : ℕ) (event : RequestEvent) : Option ServerConnection :=
  (conn.requests[position]?).bind fun r ↦
    if IsEnabled conn.isClosing r event then
      some { conn with
        ref := conn.ref + (applyRequest r event).2
        requests := conn.requests.set position (applyRequest r event).1 }
    else none

/-- One event. Behind the release of the pool the IO thread does nothing more. -/
def step : Event → Option ServerConnection
  | .decode =>
    if conn.releasedAt = none then some { conn with requests := conn.requests ++ [newRequest] }
    else none
  | .request position event =>
    if event.isIo = true → conn.releasedAt = none then stepRequest conn position event else none
  | .destroy =>
    if conn.releasedAt = none ∧ canCleanup conn = true then some (easyConnectionDestroy conn)
    else none

/-- A wait that returns was signalled. -/
def IsSignalledWake : Event → Prop
  | .request position .wake => ∀ r, conn.requests[position]? = some r → r.isSignalled = true
  | _ => True

/-! ### Where a request is in each phase -/

/-- No thread executes the request, and it is in its list. -/
structure IsOutside (r : Request) : Prop where
  spot : r.spot ≠ .withThread ∧ r.spot ≠ .sessionList
  collected : r.isCollected = false
  inited : r.isInited = false
  args : r.hasArgs = false
  closed : r.isClosed = false
  retcode : r.spot = .executed ∨ r.spot = .requestList → r.retcode ≠ .again

/-- The request thread has the request. -/
structure IsReturned (r : Request) : Prop where
  spot : r.spot = .withThread
  collected : r.isCollected = false
  closed : r.isClosed = false
  args : r.hasArgs = r.isInited
  retcode : r.retcode = .again

/-- The request was sent to the IO thread with a chunk, which may have been collected. -/
structure IsSent (r : Request) : Prop where
  spot : (r.spot = .requestList ∧ r.isCollected = false) ∨
    ((r.spot = .sessionList ∨ r.spot = .nowhere) ∧ r.isCollected = true)
  closed : r.isClosed = false
  inited : r.isInited = true
  args : r.hasArgs = true
  retcode : r.retcode = .again

/-- The connection was destroyed while the IO thread had the request. -/
structure IsAbandoned (r : Request) : Prop where
  spot : r.spot = .sessionList ∨ r.spot = .nowhere
  collected : r.isCollected = true
  closed : r.isClosed = true
  args : r.hasArgs = false

/-- Where the request is in each phase of its thread. -/
def Fine : Prop :=
  match r.phase with
  | .idle => IsOutside r ∨ IsAbandoned r
  | .running => IsReturned r
  | .sending => IsSent r
  | .waiting => r.isWaiting = true ∧ (r.isSignalled = false → IsSent r) ∧
      (r.isSignalled = true → IsReturned r ∨ IsAbandoned r)
  | .resumed => IsReturned r ∨ IsAbandoned r
  | .leaving => IsAbandoned r

/-! ### One request -/

/-- What a request adds to the count. -/
def countOf : ℤ := if isCounted r then 1 else 0

theorem countOf_of_counted {r : Request} (hcounted : isCounted r = true) : countOf r = 1 :=
  if_pos hcounted

theorem countOf_of_not {r : Request} (hcounted : isCounted r = false) : countOf r = 0 :=
  if_neg (Bool.eq_false_iff.mp hcounted)

variable {r}

/-- A thread that executes a request which it has. -/
theorem IsReturned.countOf (hreturned : IsReturned r) (hphase : r.phase ≠ .idle) :
    countOf r = 1 := by
  refine countOf_of_counted ?_
  simp [isCounted, hreturned.spot, hreturned.collected, hphase]

/-- A request that was sent counts until its chunk is collected. -/
theorem IsSent.countOf (hsent : IsSent r) : countOf r = if r.isCollected then 0 else 1 := by
  rcases hsent.spot with ⟨hspot, hcollected⟩ | ⟨hspot | hspot, hcollected⟩
  · rw [hcollected]
    exact countOf_of_counted (by simp [isCounted, hspot])
  · rw [hcollected]
    exact countOf_of_not (by simp [isCounted, hspot, hcollected])
  · rw [hcollected]
    exact countOf_of_not (by simp [isCounted, hspot, hcollected])

/-- An abandoned request does not count. -/
theorem IsAbandoned.countOf (habandoned : IsAbandoned r) : countOf r = 0 := by
  refine countOf_of_not ?_
  rcases habandoned.spot with hspot | hspot
  · simp [isCounted, hspot, habandoned.collected]
  · simp [isCounted, hspot, habandoned.collected]

/-- A request that no thread executes counts in the lists of the threads. -/
def spotCount (spot : Spot) : ℤ :=
  if spot = .taskList ∨ spot = .taken ∨ spot = .executed ∨ spot = .requestList then 1 else 0

theorem countOf_idle (hphase : r.phase = .idle) : countOf r = spotCount r.spot := by
  unfold countOf isCounted
  rw [hphase]
  cases r.spot <;> rfl

section Phases

variable (hfine : Fine r)

include hfine

theorem Fine.idle (hphase : r.phase = .idle) : IsOutside r ∨ IsAbandoned r := by
  unfold Fine at hfine
  rwa [hphase] at hfine

theorem Fine.running (hphase : r.phase = .running) : IsReturned r := by
  unfold Fine at hfine
  rwa [hphase] at hfine

theorem Fine.sending (hphase : r.phase = .sending) : IsSent r := by
  unfold Fine at hfine
  rwa [hphase] at hfine

theorem Fine.waiting (hphase : r.phase = .waiting) : r.isWaiting = true ∧
    (r.isSignalled = false → IsSent r) ∧
      (r.isSignalled = true → IsReturned r ∨ IsAbandoned r) := by
  unfold Fine at hfine
  rwa [hphase] at hfine

theorem Fine.resumed (hphase : r.phase = .resumed) : IsReturned r ∨ IsAbandoned r := by
  unfold Fine at hfine
  rwa [hphase] at hfine

theorem Fine.leaving (hphase : r.phase = .leaving) : IsAbandoned r := by
  unfold Fine at hfine
  rwa [hphase] at hfine

/-- The kinds of requests. -/
theorem Fine.cases : (r.phase = .idle ∧ IsOutside r) ∨ (r.phase ≠ .idle ∧ IsReturned r) ∨
    ((r.phase = .sending ∨ r.phase = .waiting ∧ r.isSignalled = false) ∧ IsSent r) ∨
      IsAbandoned r := by
  cases hphase : r.phase with
  | idle =>
    rcases hfine.idle hphase with houtside | habandoned
    · exact .inl ⟨rfl, houtside⟩
    · exact .inr (.inr (.inr habandoned))
  | running => exact .inr (.inl ⟨by decide, hfine.running hphase⟩)
  | sending => exact .inr (.inr (.inl ⟨.inl rfl, hfine.sending hphase⟩))
  | waiting =>
    obtain ⟨-, hsent, hback⟩ := hfine.waiting hphase
    cases hsignal : r.isSignalled with
    | false => exact .inr (.inr (.inl ⟨.inr ⟨rfl, rfl⟩, hsent hsignal⟩))
    | true =>
      rcases hback hsignal with hreturned | habandoned
      · exact .inr (.inl ⟨by decide, hreturned⟩)
      · exact .inr (.inr (.inr habandoned))
  | resumed =>
    rcases hfine.resumed hphase with hreturned | habandoned
    · exact .inr (.inl ⟨by decide, hreturned⟩)
    · exact .inr (.inr (.inr habandoned))
  | leaving => exact .inr (.inr (.inr (hfine.leaving hphase)))

/-- A request that the IO thread has for writing was sent and is collected, or it was given up. -/
theorem Fine.inSession (hspot : r.spot = .sessionList) :
    ((r.phase = .sending ∨ r.phase = .waiting ∧ r.isSignalled = false) ∧ IsSent r ∧
      r.isCollected = true) ∨ IsAbandoned r := by
  rcases hfine.cases with ⟨-, houtside⟩ | ⟨-, hreturned⟩ | ⟨hphase, hsent⟩ | habandoned
  · exact absurd hspot houtside.spot.2
  · exact absurd (hspot.symm.trans hreturned.spot) (by decide)
  · rcases hsent.spot with ⟨hother, -⟩ | ⟨-, hcollected⟩
    · exact absurd (hspot.symm.trans hother) (by decide)
    · exact .inl ⟨hphase, hsent, hcollected⟩
  · exact .inr habandoned

/-- A request in a list of the threads, or of its message, is executed by none. -/
theorem Fine.outside (hspot : r.spot = .messageList ∨ r.spot = .taskList ∨ r.spot = .taken ∨
    r.spot = .executed) : r.phase = .idle ∧ IsOutside r := by
  rcases hfine.cases with houtside | ⟨-, hreturned⟩ | ⟨-, hsent⟩ | habandoned
  · exact houtside
  · simp [hreturned.spot] at hspot
  · rcases hsent.spot with ⟨hother, -⟩ | ⟨hother | hother, -⟩ <;> simp [hother] at hspot
  · rcases habandoned.spot with hother | hother <;> simp [hother] at hspot

end Phases

theorem fine_idle (hphase : r.phase = .idle) (houtside : IsOutside r) : Fine r := by
  unfold Fine
  rw [hphase]
  exact .inl houtside

theorem fine_returned (hreturned : IsReturned r)
    (hphase : r.phase = .running ∨ r.phase = .resumed ∨
      (r.phase = .waiting ∧ r.isWaiting = true ∧ r.isSignalled = true)) : Fine r := by
  unfold Fine
  rcases hphase with hphase | hphase | ⟨hphase, hwaiting, hsignal⟩
  · rw [hphase]
    exact hreturned
  · rw [hphase]
    exact .inl hreturned
  · rw [hphase, hsignal]
    exact ⟨hwaiting, fun hno ↦ absurd hno (by decide), fun _ ↦ .inl hreturned⟩

theorem fine_sent (hsent : IsSent r)
    (hphase : r.phase = .sending ∨
      (r.phase = .waiting ∧ r.isWaiting = true ∧ r.isSignalled = false)) : Fine r := by
  unfold Fine
  rcases hphase with hphase | ⟨hphase, hwaiting, hsignal⟩
  · rw [hphase]
    exact hsent
  · rw [hphase, hsignal]
    exact ⟨hwaiting, fun _ ↦ hsent, fun hyes ↦ absurd hyes (by decide)⟩

theorem fine_abandoned (habandoned : IsAbandoned r)
    (hphase : r.phase = .idle ∨ r.phase = .resumed ∨ r.phase = .leaving) : Fine r := by
  unfold Fine
  rcases hphase with hphase | hphase | hphase
  · rw [hphase]
    exact .inr habandoned
  · rw [hphase]
    exact .inr habandoned
  · rw [hphase]
    exact habandoned

/-- An abandoned request stays fine while its thread does nothing. -/
theorem Fine.abandoned {other : Request} (hfine : Fine r) (hbefore : IsAbandoned r)
    (hafter : IsAbandoned other) (hphase : other.phase = r.phase)
    (hwaiting : other.isWaiting = r.isWaiting) (hsignal : other.isSignalled = r.isSignalled) :
    Fine other := by
  have hnotReturned : ¬ IsReturned r := fun hreturned ↦
    absurd (hreturned.closed.symm.trans hbefore.closed) (by decide)
  have hnotSent : ¬ IsSent r := fun hsent ↦
    absurd (hsent.closed.symm.trans hbefore.closed) (by decide)
  unfold Fine
  rw [hphase, hwaiting, hsignal]
  cases hcase : r.phase with
  | idle => exact .inr hafter
  | running => exact absurd (hfine.running hcase) hnotReturned
  | sending => exact absurd (hfine.sending hcase) hnotSent
  | waiting =>
    obtain ⟨hwaits, hsent, -⟩ := hfine.waiting hcase
    exact ⟨hwaits, fun hno ↦ absurd (hsent hno) hnotSent, fun _ ↦ .inr hafter⟩
  | resumed => exact .inr hafter
  | leaving => exact hafter

/-- A request that no thread executes moves to another list. -/
theorem moved_fine (hphase : r.phase = .idle) (houtside : IsOutside r) {old : Spot}
    (hold : r.spot = old) (spot : Spot) (retcode : RetCode)
    (hspot : spot ≠ .withThread ∧ spot ≠ .sessionList)
    (hretcode : spot = .executed ∨ spot = .requestList → retcode ≠ .again) {change : ℤ}
    (hchange : spotCount spot = spotCount old + change) :
    Fine { r with spot := spot, retcode := retcode } ∧
      countOf { r with spot := spot, retcode := retcode } = countOf r + change := by
  refine ⟨fine_idle hphase ⟨hspot, houtside.collected, houtside.inited, houtside.args,
    houtside.closed, hretcode⟩, ?_⟩
  rw [countOf_idle hphase, hold, ← hchange]
  exact countOf_idle hphase

/-! ### Steps of the IO thread -/

/-- The IO thread takes a request from its list. -/
theorem sendResponse_fine (hfine : Fine r) (hspot : r.spot = .requestList) (encoded : Bool) :
    Fine (easyConnectionRequestDone encoded r) ∧
      countOf (easyConnectionRequestDone encoded r) = countOf r - 1 := by
  unfold easyConnectionRequestDone
  rcases hfine.cases with ⟨hphase, houtside⟩ | ⟨-, hreturned⟩ | ⟨hphase, hsent⟩ | habandoned
  · rw [if_neg (houtside.retcode (.inr hspot))]
    exact moved_fine hphase houtside hspot .nowhere r.retcode (by decide) (by simp) rfl
  · exact absurd (hspot.symm.trans hreturned.spot) (by decide)
  · have hcollected : r.isCollected = false := by
      rcases hsent.spot with ⟨-, hcollected⟩ | ⟨hother, -⟩
      · exact hcollected
      · simp [hspot] at hother
    have hafter : IsSent { r with
        isCollected := true
        spot := if encoded then .sessionList else .nowhere } := by
      refine ⟨.inr ⟨?_, rfl⟩, hsent.closed, hsent.inited, hsent.args, hsent.retcode⟩
      cases encoded
      · exact .inr rfl
      · exact .inl rfl
    rw [if_pos hsent.retcode]
    refine ⟨fine_sent hafter (hphase.imp_right fun h ↦ ⟨h.1, (hfine.waiting h.1).1, h.2⟩), ?_⟩
    rw [hafter.countOf, hsent.countOf, hcollected]
    rfl
  · have hother := habandoned.spot
    simp [hspot] at hother

/-- The IO thread finds the output written. -/
theorem drain_fine (hfine : Fine r) (hspot : r.spot = .sessionList)
    (hargs : r.hasArgs = true → r.phase ≠ .sending ∧ r.isWaiting = true) :
    Fine (onServerIoProcess r).1 ∧
      countOf (onServerIoProcess r).1 = countOf r + (onServerIoProcess r).2 := by
  unfold onServerIoProcess
  rcases hfine.inSession hspot with ⟨hphase, hsent, hcollected⟩ | habandoned
  · obtain ⟨hnot, hwaiting⟩ := hargs hsent.args
    have hwaits : r.phase = .waiting := (hphase.resolve_left hnot).1
    have hafter : IsReturned { r with
        spot := .withThread, isCollected := false, isSignalled := true } :=
      ⟨rfl, rfl, hsent.closed, hsent.args.trans hsent.inited.symm, hsent.retcode⟩
    rw [if_pos hsent.args]
    refine ⟨fine_returned hafter (.inr (.inr ⟨hwaits, hwaiting, rfl⟩)), ?_⟩
    rw [hafter.countOf (by rw [hwaits]; decide), hsent.countOf, hcollected]
    rfl
  · have hafter : IsAbandoned { r with spot := .nowhere } :=
      ⟨.inr rfl, habandoned.collected, habandoned.closed, habandoned.args⟩
    rw [if_neg (by rw [habandoned.args]; decide)]
    refine ⟨hfine.abandoned habandoned hafter rfl rfl rfl, ?_⟩
    rw [hafter.countOf, habandoned.countOf]
    rfl

/-! ### Steps of a request thread -/

/-- The thread of a request goes on that came back to it or was given up: behind its wait, and where
it reads `is_closed`. -/
theorem resumed_fine (hback : IsReturned r ∨ IsAbandoned r) (hphase : r.phase ≠ .idle)
    (phase : Phase) (isWaiting isSignalled : Bool)
    (hreturns : IsReturned r → phase = .running ∨ phase = .resumed)
    (hleaves : IsAbandoned r → phase = .resumed ∨ phase = .leaving) :
    Fine { r with phase := phase, isWaiting := isWaiting, isSignalled := isSignalled } ∧
      countOf { r with phase := phase, isWaiting := isWaiting, isSignalled := isSignalled } =
        countOf r + 0 := by
  rw [Int.add_zero]
  rcases hback with hreturned | habandoned
  · have hgoes := hreturns hreturned
    have hafter : IsReturned { r with
        phase := phase, isWaiting := isWaiting, isSignalled := isSignalled } :=
      ⟨hreturned.spot, hreturned.collected, hreturned.closed, hreturned.args, hreturned.retcode⟩
    refine ⟨fine_returned hafter (hgoes.imp_right .inl), ?_⟩
    rw [hafter.countOf (by rcases hgoes with rfl | rfl <;> simp), hreturned.countOf hphase]
  · have hafter : IsAbandoned { r with
        phase := phase, isWaiting := isWaiting, isSignalled := isSignalled } :=
      ⟨habandoned.spot, habandoned.collected, habandoned.closed, habandoned.args⟩
    refine ⟨fine_abandoned hafter (.inr (hleaves habandoned)), ?_⟩
    rw [hafter.countOf, habandoned.countOf]

/-- What an event of a request does to the count. -/
theorem requestStep_fine {isClosing : Bool} (hfine : Fine r) {event : RequestEvent}
    (henabled : IsEnabled isClosing r event)
    (hsignal : event = .wake → r.isSignalled = true) :
    Fine (applyRequest r event).1 ∧
      countOf (applyRequest r event).1 = countOf r + (applyRequest r event).2 := by
  cases event with
  | answer =>
    obtain ⟨hphase, houtside⟩ := hfine.outside (.inl henabled)
    exact moved_fine hphase houtside henabled .nowhere r.retcode (by decide) (by simp) rfl
  | push =>
    obtain ⟨hphase, houtside⟩ := hfine.outside (.inl henabled)
    exact moved_fine hphase houtside henabled .taskList .again (by decide) (by simp) rfl
  | take =>
    obtain ⟨hphase, houtside⟩ := hfine.outside (.inr (.inl henabled))
    exact moved_fine hphase houtside henabled .taken r.retcode (by decide) (by simp) rfl
  | start =>
    obtain ⟨hphase, houtside⟩ := hfine.outside (.inr (.inr (.inl henabled.1)))
    have hafter : IsReturned (applyRequest r .start).1 :=
      ⟨rfl, houtside.collected, houtside.closed, houtside.args.trans houtside.inited.symm, rfl⟩
    refine ⟨fine_returned hafter (.inl rfl), ?_⟩
    rw [hafter.countOf (by simp [applyRequest]), countOf_idle hphase, henabled.1]
    rfl
  | refuse =>
    obtain ⟨hphase, houtside⟩ := hfine.outside (.inr (.inr (.inl henabled.1)))
    exact moved_fine hphase houtside henabled.1 .executed .error (by decide) (by simp) rfl
  | redispatch =>
    have hreturned := hfine.running henabled.1
    have hafter : IsOutside (applyRequest r .redispatch).1 :=
      ⟨by simp [applyRequest], hreturned.collected, henabled.2, hreturned.args.trans henabled.2,
        hreturned.closed, by simp [applyRequest]⟩
    refine ⟨fine_idle rfl hafter, ?_⟩
    rw [countOf_idle rfl, hreturned.countOf (by rw [henabled.1]; decide)]
    rfl
  | sendStream =>
    have hphase : r.phase = .running := henabled
    have hreturned := hfine.running hphase
    have hargs : (r.hasArgs || !r.isInited) = true := by
      rw [hreturned.args]
      cases r.isInited <;> rfl
    have hafter : IsSent (applyRequest r .sendStream).1 :=
      ⟨.inl ⟨rfl, hreturned.collected⟩, hreturned.closed, rfl, hargs, hreturned.retcode⟩
    have hcollected : (applyRequest r .sendStream).1.isCollected = false := hreturned.collected
    refine ⟨fine_sent hafter (.inl rfl), ?_⟩
    rw [hafter.countOf, hcollected, hreturned.countOf (by rw [hphase]; decide)]
    rfl
  | wait =>
    have hsent := hfine.sending henabled
    have hafter : IsSent (applyRequest r .wait).1 :=
      ⟨hsent.spot, hsent.closed, hsent.inited, hsent.args, hsent.retcode⟩
    refine ⟨fine_sent hafter (.inr ⟨rfl, rfl, rfl⟩), ?_⟩
    rw [hafter.countOf, hsent.countOf]
    exact (Int.add_zero _).symm
  | wake =>
    have hphase : r.phase = .waiting := henabled
    exact resumed_fine ((hfine.waiting hphase).2.2 (hsignal rfl)) (by rw [hphase]; decide) .resumed
      false false (fun _ ↦ .inr rfl) fun _ ↦ .inl rfl
  | check =>
    have hphase : r.phase = .resumed := henabled
    exact resumed_fine (hfine.resumed hphase) (by rw [hphase]; decide) _ r.isWaiting r.isSignalled
      (fun hreturned ↦ .inl (by rw [hreturned.closed]; rfl))
      fun habandoned ↦ .inr (by rw [habandoned.closed]; rfl)
  | leave =>
    have habandoned := hfine.leaving henabled
    have hafter : IsAbandoned (applyRequest r .leave).1 :=
      ⟨habandoned.spot, habandoned.collected, habandoned.closed, habandoned.args⟩
    refine ⟨fine_abandoned hafter (.inl rfl), ?_⟩
    rw [hafter.countOf, habandoned.countOf]
    rfl
  | finish failed =>
    have hphase : r.phase = .running := henabled
    have hreturned := hfine.running hphase
    have hafter : IsOutside (applyRequest r (.finish failed)).1 := by
      refine ⟨by simp [applyRequest], hreturned.collected, rfl, rfl, hreturned.closed, fun _ ↦ ?_⟩
      cases failed <;> simp [applyRequest]
    refine ⟨fine_idle rfl hafter, ?_⟩
    rw [countOf_idle rfl, hreturned.countOf (by rw [hphase]; decide)]
    rfl
  | handOver =>
    obtain ⟨hphase, houtside⟩ := hfine.outside (.inr (.inr (.inr henabled)))
    exact moved_fine hphase houtside henabled .requestList r.retcode (by decide)
      (fun _ ↦ houtside.retcode (.inl henabled)) rfl
  | sendResponse encoded => exact sendResponse_fine hfine henabled encoded
  | drain => exact drain_fine hfine henabled.1 henabled.2

/-! ### Closing -/

/-- A request whose thread waits is given up. Assumes: its thread does not have the mutex. -/
theorem cleanupRequest_fine (hfine : Fine r)
    (hfree : r.spot = .sessionList → r.hasArgs = true → r.phase ≠ .sending) :
    Fine (cleanupRequest r) := by
  by_cases hgiven : r.spot = .sessionList ∧ r.hasArgs = true
  · obtain ⟨hspot, hargs⟩ := hgiven
    rcases hfine.inSession hspot with ⟨hphase, hsent, hcollected⟩ | habandoned
    · obtain ⟨hwaits, -⟩ := hphase.resolve_left (hfree hspot hargs)
      have hwaiting := (hfine.waiting hwaits).1
      have hafter : IsAbandoned { r with
          isSignalled := r.isSignalled || r.isWaiting, isClosed := true, hasArgs := false } :=
        ⟨.inl hspot, hcollected, rfl, rfl⟩
      unfold cleanupRequest Fine
      rw [if_pos ⟨hspot, hargs⟩, hwaits]
      refine ⟨hwaiting, fun hno ↦ ?_, fun _ ↦ .inr (hwaits ▸ hafter)⟩
      simp [hwaiting] at hno
    · exact absurd (hargs.symm.trans habandoned.args) (by decide)
  · unfold cleanupRequest
    rw [if_neg hgiven]
    exact hfine

/-! ### Every interleaving -/

/-- The count behind a change of one request. -/
theorem countP_set_request {requests : List Request} {position : ℕ}
    (hget : requests[position]? = some r) (other : Request) :
    ((requests.set position other).countP isCounted : ℤ) =
      requests.countP isCounted - countOf r + countOf other := by
  induction requests generalizing position with
  | nil => simp at hget
  | cons head tail ih =>
    cases position with
    | zero =>
      have hhead : head = r := by simpa using hget
      subst hhead
      simp only [List.set_cons_zero, List.countP_cons, countOf]
      split_ifs <;> omega
    | succ position =>
      have htail : tail[position]? = some r := by simpa using hget
      have hcount := ih htail
      simp only [List.set_cons_succ, List.countP_cons]
      omega

/-- The counter is exact, and the pool was destroyed without references. -/
structure Counts (conn : ServerConnection) : Prop where
  fine : ∀ r ∈ conn.requests, Fine r
  ref : conn.ref = conn.requests.countP isCounted
  released : ∀ ref, conn.releasedAt = some ref → ref = 0

variable {conn} {after : ServerConnection}

theorem Counts.decode (hcounts : Counts conn) :
    Counts { conn with requests := conn.requests ++ [newRequest] } := by
  refine ⟨fun r hmem ↦ ?_, ?_, hcounts.released⟩
  · rcases List.mem_append.mp hmem with hold | hnew
    · exact hcounts.fine r hold
    · rw [List.mem_singleton.mp hnew]
      exact fine_idle rfl ⟨by decide, rfl, rfl, rfl, rfl, by decide⟩
  · have hnew : [newRequest].countP isCounted = 0 := by decide
    rw [List.countP_append, hnew, hcounts.ref]
    rfl

theorem Counts.stepRequest {position : ℕ} {event : RequestEvent} (hcounts : Counts conn)
    (hsignal : IsSignalledWake conn (.request position event))
    (hstep : stepRequest conn position event = some after) : Counts after := by
  obtain ⟨r, hget, hstep⟩ := Option.bind_eq_some_iff.mp hstep
  by_cases henabled : IsEnabled conn.isClosing r event
  · rw [if_pos henabled] at hstep
    have hwake : event = .wake → r.isSignalled = true := by
      rintro rfl
      exact hsignal r hget
    obtain ⟨hfine, hcount⟩ :=
      requestStep_fine (hcounts.fine r (List.mem_of_getElem? hget)) henabled hwake
    rw [← Option.some.inj hstep]
    refine ⟨fun other hmem ↦ ?_, ?_, hcounts.released⟩
    · rcases List.mem_or_eq_of_mem_set hmem with hold | hnew
      · exact hcounts.fine other hold
      · exact hnew ▸ hfine
    · have hset := countP_set_request hget (applyRequest r event).1
      have href := hcounts.ref
      dsimp only
      omega
  · rw [if_neg henabled] at hstep
    cases hstep

theorem Counts.destroy (hcounts : Counts conn) (hfree : canCleanup conn = true) :
    Counts (easyConnectionDestroy conn) := by
  have hfine : ∀ r ∈ conn.requests.map cleanupRequest, Fine r := by
    intro r hmem
    obtain ⟨old, hold, rfl⟩ := List.mem_map.mp hmem
    refine cleanupRequest_fine (hcounts.fine old hold) fun hspot hargs hphase ↦ ?_
    have hbusy := List.all_eq_true.mp hfree old hold
    simp [hspot, hargs, hphase] at hbusy
  have hcount : (conn.requests.map cleanupRequest).countP isCounted =
      conn.requests.countP isCounted := by
    rw [List.countP_map]
    refine List.countP_congr fun r _ ↦ ?_
    rw [Function.comp_apply, cleanupRequest]
    split <;> rfl
  unfold easyConnectionDestroy
  by_cases href : 0 < conn.ref
  · rw [if_pos href]
    exact ⟨hfine, hcount ▸ hcounts.ref, hcounts.released⟩
  · rw [if_neg href]
    refine ⟨hfine, hcount ▸ hcounts.ref, fun ref hreleased ↦ ?_⟩
    have hzero := hcounts.ref
    have hsome := Option.some.inj hreleased
    omega

theorem Counts.step {event : Event} (hcounts : Counts conn) (hsignal : IsSignalledWake conn event)
    (hstep : step conn event = some after) : Counts after := by
  cases event with
  | decode =>
    obtain ⟨-, rfl⟩ : conn.releasedAt = none ∧
        { conn with requests := conn.requests ++ [newRequest] } = after := by
      simpa [References.step] using hstep
    exact hcounts.decode
  | request position event =>
    obtain ⟨-, hstep⟩ : (event.isIo = true → conn.releasedAt = none) ∧
        References.stepRequest conn position event = some after := by
      simpa [References.step] using hstep
    exact hcounts.stepRequest hsignal hstep
  | destroy =>
    obtain ⟨⟨-, hfree⟩, rfl⟩ : (conn.releasedAt = none ∧ canCleanup conn = true) ∧
        easyConnectionDestroy conn = after := by
      simpa [References.step] using hstep
    exact hcounts.destroy hfree

/-- The counter of a connection in every interleaving: it is the number of the requests in the lists
of request threads, executing without a collected chunk, or waiting for the IO thread; it is never
negative, and the pool is destroyed when it is zero. Assumes: a wait in `send_stream` returns behind
a signal. -/
theorem ref_counts_requests (hreached : Reached step IsSignalledWake newConnection conn) :
    conn.ref = (conn.requests.countP isCounted : ℤ) ∧ 0 ≤ conn.ref ∧
      ∀ ref, conn.releasedAt = some ref → ref = 0 := by
  have hstart : Counts newConnection :=
    ⟨List.forall_mem_nil _, rfl, fun _ hnone ↦ by cases hnone⟩
  have hcounts : Counts conn := hreached.invariant Counts hstart Counts.step
  refine ⟨hcounts.ref, ?_, hcounts.released⟩
  rw [hcounts.ref]
  exact Int.natCast_nonneg _

/-- The request of a connection up to the wait of its first chunk. -/
def toWait : List Event :=
  .decode :: ([.push, .take, .start, .sendStream, .wait].map (.request 0))

/-- One chunk is sent, and the request is finished behind the signal. -/
theorem ref_counts_requests_oneChunk :
    ∃ conn, Reached step IsSignalledWake newConnection conn ∧ conn.ref = 1 ∧
      conn.ref = (conn.requests.countP isCounted : ℤ) := by
  have hrun : run step newConnection
      (toWait ++ [.request 0 (.sendResponse true), .request 0 .drain]) =
      some ⟨1, false, [⟨.withThread, .waiting, .again, false, true, true, false, true, true⟩],
        none⟩ := rfl
  have hsignalled : Reached step IsSignalledWake newConnection _ :=
    reached_run .start (by simp [toWait, IsSignalledWake]) hrun
  have hresumed := hsignalled.next (Event.request 0 RequestEvent.wake)
    (fun r hget ↦ by rw [← Option.some.inj hget]) rfl
  have hback := hresumed.next (Event.request 0 RequestEvent.check) trivial rfl
  have hdone := hback.next (Event.request 0 (RequestEvent.finish false)) trivial rfl
  exact ⟨_, hdone, rfl, (ref_counts_requests hdone).1⟩

/-- The wait returns without a signal while the chunk is in the output: the answer waits for the IO
thread without a reference, and the counter becomes negative when it is sent. -/
theorem ref_negative_behind_unsignalled_wake :
    (∃ conn, run step newConnection (toWait ++ [.request 0 (.sendResponse true),
        .request 0 .wake, .request 0 .check, .request 0 (.finish false),
        .request 0 .handOver]) = some conn ∧
      conn.ref = 0 ∧ conn.requests.countP isCounted = 1) ∧
    ∃ conn, run step newConnection (toWait ++ [.request 0 (.sendResponse true),
        .request 0 .wake, .request 0 .check, .request 0 (.finish false),
        .request 0 .handOver, .request 0 (.sendResponse true)]) = some conn ∧
      conn.ref = -1 ∧ conn.requests.countP isCounted = 0 :=
  ⟨⟨_, rfl, rfl, rfl⟩, _, rfl, rfl, rfl⟩

end TdhSocket.Connection.References
