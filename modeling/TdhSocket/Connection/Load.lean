import Mathlib.Algebra.Order.BigOperators.Group.List
import TdhSocket.Connection.ReadPath
import TdhSocket.Library.Runs

/-!
# The load of an IO thread

`easy_connection.c`. `easy_connection_do_request` adds the requests it decoded to the
`doing_request_count` of the connection and of its IO thread, `easy_connection_request_done` takes
one away for each final answer, and `easy_connection_on_readable` destroys a connection when one of
the two counts is too high. Nothing else changes them: not the handshake, which
`on_server_io_process` ends with `EASY_AGAIN` and without an answer, and not
`easy_connection_destroy`.

`load_accounting` says what the count of the thread is worth: it is the number of requests in
progress on the open connections exactly when no connection completed its handshake and none was
destroyed with a request unanswered.

The callbacks of the IO thread are cut into their parts (reading, each request, each response). A
callback that fails destroys the connection next; here any other event may come before.
-/

set_option autoImplicit false

namespace TdhSocket.Connection.Load

open Library

/-! ### Connections and the thread -/

/-- A connection is open, destroyed but still referenced (`EASY_CONN_CLOSE`), or released. -/
inductive Status
  | ok
  | close
  | released
  deriving DecidableEq, Repr

/-- `easy_connection_t`: its count, the requests in the request lists of its messages, the
references held by request threads (one for each request they have), and the requests in
`session_list`. `unanswered` and `handshakes` observe the run: the requests received and not
finally answered, completed handshakes apart, and the completed handshakes. -/
structure ServerConnection where
  status : Status
  doingRequestCount : ℕ
  listed : ℕ
  poolRef : ℕ
  sessionList : ℕ
  unanswered : ℕ
  handshakes : ℕ
  deriving DecidableEq, Repr

/-- `easy_io_thread_t`, with all the connections it ever had. -/
structure IoThread where
  doingRequestCount : ℕ
  connections : List ServerConnection
  deriving DecidableEq, Repr

/-- A connection that was accepted. -/
def easyConnectionNew : ServerConnection := ⟨.ok, 0, 0, 0, 0, 0, 0⟩

/-- A thread that was started. -/
def newIoThread : IoThread := ⟨0, []⟩

/-- A connection with the count of its thread: what a callback works on. -/
abbrev Counted : Type := ℕ × ServerConnection

variable (counted : Counted)

/-- The check at the start of `easy_connection_on_readable`. -/
def isRefused : Prop :=
  easyConnDoingReqCnt < counted.2.doingRequestCount ∨ easyIothDoingReqCnt < counted.1

instance (counted : Counted) : Decidable (isRefused counted) :=
  inferInstanceAs (Decidable (_ ∨ _))

/-- `easy_connection_destroy`: the connection is released when no request thread refers to it. -/
def easyConnectionDestroy : Counted :=
  (counted.1, { counted.2 with status := if counted.2.poolRef = 0 then .released else .close })

/-- `easy_connection_on_readable` up to the counting of the decoded requests. -/
def easyConnectionOnReadable (cnt : ℕ) (counted : Counted) : Counted :=
  if isRefused counted then easyConnectionDestroy counted
  else
    (counted.1 + cnt,
      { counted.2 with
        doingRequestCount := counted.2.doingRequestCount + cnt
        listed := counted.2.listed + cnt
        unanswered := counted.2.unanswered + cnt })

variable (retcode : ProcessRet)

/-- `easy_connection_request_done` for a request whose answer can be encoded or not. -/
def easyConnectionRequestDone (encodeOk : Bool) (counted : Counted) : Counted :=
  if encodeOk = false then counted
  else
    match retcode with
    | .ok =>
      (counted.1 - 1,
        { counted.2 with
          doingRequestCount := counted.2.doingRequestCount - 1
          unanswered := counted.2.unanswered - 1 })
    | .again => (counted.1, { counted.2 with sessionList := counted.2.sessionList + 1 })
    | .error => counted

/-- The first request of the list is taken out of it. -/
def takeListed : Counted :=
  (counted.1, { counted.2 with listed := counted.2.listed - 1 })

/-- A request that completes the handshake: `on_server_io_process` returns `EASY_AGAIN`. -/
def shakeHands : Counted :=
  (counted.1,
    { counted.2 with
      unanswered := counted.2.unanswered - 1
      handshakes := counted.2.handshakes + 1 })

/-- Any other request: `on_server_io_process` answers it, pushes it to a request thread or fails. -/
def process (ret : ProcessRet) (encodeOk : Bool) (counted : Counted) : Counted :=
  match ret with
  | .ok => easyConnectionRequestDone .ok encodeOk counted
  | .again => (counted.1, { counted.2 with poolRef := counted.2.poolRef + 1 })
  | .error => counted

/-- `easy_connection_send_response` for one request that comes back from its thread. -/
def easyConnectionSendResponse (encodeOk : Bool) (counted : Counted) : Counted :=
  let done := easyConnectionRequestDone retcode encodeOk counted
  (done.1, { done.2 with poolRef := done.2.poolRef - 1 })

/-- `easy_connection_write_again` when the output is written: the requests in `session_list` go on
in their threads. -/
def easyConnectionWriteAgain : Counted :=
  (counted.1,
    { counted.2 with
      poolRef := counted.2.poolRef + counted.2.sessionList
      sessionList := 0 })

/-- What happens on an IO thread. The connection is given by its position, and the requests by what
`on_server_io_process` or the request thread made of them. -/
inductive Event
  | accept
  | read (id cnt : ℕ)
  | shakeHands (id : ℕ)
  | process (id : ℕ) (ret : ProcessRet) (encodeOk : Bool)
  | sendResponse (id : ℕ) (retcode : ProcessRet) (encodeOk : Bool)
  | writeAgain (id : ℕ)
  | destroy (id : ℕ)
  deriving DecidableEq, Repr

/-- A part of a callback on the connection at a position, if it is in the state the part needs. -/
def onConnection (thread : IoThread) (id : ℕ) (needs : ServerConnection → Prop)
    [DecidablePred needs] (change : Counted → Counted) : Option IoThread :=
  (thread.connections[id]?.filter fun conn ↦ needs conn).map fun conn ↦
    { doingRequestCount := (change (thread.doingRequestCount, conn)).1
      connections := thread.connections.set id (change (thread.doingRequestCount, conn)).2 }

/-- One event of an IO thread. -/
def step (thread : IoThread) : Event → Option IoThread
  | .accept => some { thread with connections := thread.connections ++ [easyConnectionNew] }
  | .read id cnt =>
    onConnection thread id (fun conn ↦ conn.status = .ok) (easyConnectionOnReadable cnt)
  | .shakeHands id =>
    onConnection thread id (fun conn ↦ conn.status = .ok ∧ 0 < conn.listed)
      fun counted ↦ shakeHands (takeListed counted)
  | .process id ret encodeOk =>
    onConnection thread id (fun conn ↦ conn.status = .ok ∧ 0 < conn.listed)
      fun counted ↦ process ret encodeOk (takeListed counted)
  | .sendResponse id retcode encodeOk =>
    onConnection thread id (fun conn ↦ conn.status ≠ .released ∧ 0 < conn.poolRef)
      (easyConnectionSendResponse retcode encodeOk)
  | .writeAgain id =>
    onConnection thread id (fun conn ↦ conn.status ≠ .released) easyConnectionWriteAgain
  | .destroy id =>
    onConnection thread id (fun conn ↦ conn.status ≠ .released) easyConnectionDestroy

/-! ### One connection -/

/-- The count of a connection has its unanswered requests and its handshakes, and every request that
is in a list or with a thread is unanswered. -/
structure IsAccounted (conn : ServerConnection) : Prop where
  count : conn.doingRequestCount = conn.unanswered + conn.handshakes
  held : conn.listed + conn.poolRef + conn.sessionList ≤ conn.unanswered

/-- A part of a callback keeps the connection accounted, and the count of the thread moves with the
count of the connection. -/
structure Accounts (before after : Counted) : Prop where
  conn : IsAccounted after.2
  counts : after.1 + before.2.doingRequestCount = before.1 + after.2.doingRequestCount

variable {counted} {thread after : IoThread}

theorem accounts_destroy (hconn : IsAccounted counted.2) :
    Accounts counted (easyConnectionDestroy counted) :=
  ⟨⟨hconn.count, hconn.held⟩, rfl⟩

theorem accounts_read (hconn : IsAccounted counted.2) (cnt : ℕ) :
    Accounts counted (easyConnectionOnReadable cnt counted) := by
  obtain ⟨hcount, hheld⟩ := hconn
  unfold easyConnectionOnReadable
  split_ifs
  · exact accounts_destroy ⟨hcount, hheld⟩
  · refine ⟨⟨?_, ?_⟩, ?_⟩
    all_goals dsimp only
    all_goals omega

/-- Assumes: the request is in no list and the counts are not zero. -/
theorem accounts_requestDone {retcode : ProcessRet} {encodeOk : Bool}
    (hcount : counted.2.doingRequestCount = counted.2.unanswered + counted.2.handshakes)
    (hheld : counted.2.listed + counted.2.poolRef + counted.2.sessionList < counted.2.unanswered)
    (hthread : counted.2.doingRequestCount ≤ counted.1) :
    Accounts counted (easyConnectionRequestDone retcode encodeOk counted) := by
  unfold easyConnectionRequestDone
  split_ifs
  · exact ⟨⟨hcount, hheld.le⟩, rfl⟩
  · cases retcode
    all_goals
      refine ⟨⟨?_, ?_⟩, ?_⟩
      all_goals dsimp only
      all_goals omega

theorem accounts_shakeHands (hconn : IsAccounted counted.2)
    (hlisted : 0 < counted.2.listed) : Accounts counted (shakeHands (takeListed counted)) := by
  obtain ⟨hcount, hheld⟩ := hconn
  refine ⟨⟨?_, ?_⟩, rfl⟩
  all_goals
    dsimp only [shakeHands, takeListed]
    omega

theorem accounts_process (hconn : IsAccounted counted.2)
    (hlisted : 0 < counted.2.listed) (hthread : counted.2.doingRequestCount ≤ counted.1)
    (ret : ProcessRet) (encodeOk : Bool) :
    Accounts counted (process ret encodeOk (takeListed counted)) := by
  obtain ⟨hcount, hheld⟩ := hconn
  have hdone := @accounts_requestDone (takeListed counted) .ok encodeOk hcount
    (by dsimp only [takeListed]; omega) hthread
  cases ret with
  | ok => exact ⟨hdone.conn, hdone.counts⟩
  | again =>
    refine ⟨⟨hcount, ?_⟩, rfl⟩
    dsimp only [process, takeListed]
    omega
  | error =>
    refine ⟨⟨hcount, ?_⟩, rfl⟩
    dsimp only [process, takeListed]
    omega

/-- The reference of a request that comes back is dropped behind `easy_connection_request_done`. -/
theorem sendResponse_eq (encodeOk : Bool) (counted : Counted) :
    easyConnectionSendResponse retcode encodeOk counted =
      easyConnectionRequestDone retcode encodeOk
        (counted.1, { counted.2 with poolRef := counted.2.poolRef - 1 }) := by
  unfold easyConnectionSendResponse easyConnectionRequestDone
  split_ifs
  · rfl
  · cases retcode <;> rfl

theorem accounts_sendResponse (hconn : IsAccounted counted.2)
    (href : 0 < counted.2.poolRef) (hthread : counted.2.doingRequestCount ≤ counted.1)
    (retcode : ProcessRet) (encodeOk : Bool) :
    Accounts counted (easyConnectionSendResponse retcode encodeOk counted) := by
  obtain ⟨hcount, hheld⟩ := hconn
  rw [sendResponse_eq]
  have hdone := @accounts_requestDone
    (counted.1, { counted.2 with poolRef := counted.2.poolRef - 1 }) retcode encodeOk hcount
    (by dsimp only; omega) hthread
  exact ⟨hdone.conn, hdone.counts⟩

theorem accounts_writeAgain (hconn : IsAccounted counted.2) :
    Accounts counted (easyConnectionWriteAgain counted) := by
  obtain ⟨hcount, hheld⟩ := hconn
  refine ⟨⟨hcount, ?_⟩, rfl⟩
  dsimp only [easyConnectionWriteAgain]
  omega

/-! ### The thread -/

/-- The sum of a list in which one element is replaced. -/
theorem sum_map_set {Element : Type} (value : Element → ℕ) (elements : List Element) (index : ℕ)
    (old new : Element) (hold : elements[index]? = some old) :
    ((elements.set index new).map value).sum + value old =
      (elements.map value).sum + value new := by
  induction elements generalizing index with
  | nil => simp at hold
  | cons first rest ih =>
    cases index with
    | zero =>
      obtain rfl : first = old := by simpa using hold
      simp only [List.set_cons_zero, List.map_cons, List.sum_cons]
      omega
    | succ index =>
      have hrest := ih index (by simpa using hold)
      simp only [List.set_cons_succ, List.map_cons, List.sum_cons]
      omega

/-- Sums of which one is below the other term by term are equal exactly when the terms are. -/
theorem sum_map_eq_iff {Element : Type} (low high : Element → ℕ) (elements : List Element)
    (hle : ∀ element ∈ elements, low element ≤ high element) :
    (elements.map high).sum = (elements.map low).sum ↔
      ∀ element ∈ elements, high element = low element := by
  induction elements with
  | nil => simp
  | cons first rest ih =>
    have hfirst := hle first List.mem_cons_self
    have hrest : ∀ element ∈ rest, low element ≤ high element :=
      fun element helement ↦ hle element (List.mem_cons_of_mem _ helement)
    have hsum : (rest.map low).sum ≤ (rest.map high).sum := List.sum_le_sum hrest
    rw [List.forall_mem_cons, ← ih hrest]
    simp only [List.map_cons, List.sum_cons]
    omega

/-- The requests received on an open connection and not finally answered. -/
def inProgress (conn : ServerConnection) : ℕ :=
  if conn.status = .ok then conn.unanswered else 0

/-- The requests in progress on the open connections of a thread. -/
def IoThread.inProgress (thread : IoThread) : ℕ :=
  (thread.connections.map Load.inProgress).sum

/-- Every connection is accounted, and the count of the thread is the sum of theirs, those of the
connections that are gone included. -/
structure IsBalanced (thread : IoThread) : Prop where
  conns : ∀ conn ∈ thread.connections, IsAccounted conn
  count : thread.doingRequestCount = (thread.connections.map (·.doingRequestCount)).sum

variable {id : ℕ} {needs : ServerConnection → Prop} {change : Counted → Counted}

/-- A part of a callback works on a connection of the thread. -/
theorem onConnection_eq_some [DecidablePred needs]
    (hstep : onConnection thread id needs change = some after) :
    ∃ conn, thread.connections[id]? = some conn ∧ conn ∈ thread.connections ∧ needs conn ∧
      after = ⟨(change (thread.doingRequestCount, conn)).1,
        thread.connections.set id (change (thread.doingRequestCount, conn)).2⟩ := by
  obtain ⟨conn, hconn, rfl⟩ := Option.map_eq_some_iff.mp hstep
  obtain ⟨hsome, hneeds⟩ := Option.filter_eq_some_iff.mp hconn
  exact ⟨conn, hsome, List.mem_of_getElem? hsome, of_decide_eq_true hneeds, rfl⟩

theorem IsBalanced.onConnection [DecidablePred needs]
    (hbalanced : IsBalanced thread)
    (hchange : ∀ counted : Counted, IsAccounted counted.2 → needs counted.2 →
      counted.2.doingRequestCount ≤ counted.1 → Accounts counted (change counted))
    (hstep : onConnection thread id needs change = some after) : IsBalanced after := by
  obtain ⟨conn, hget, hmem, hneeds, rfl⟩ := onConnection_eq_some hstep
  have hle : conn.doingRequestCount ≤ thread.doingRequestCount := by
    rw [hbalanced.count]
    exact List.single_le_sum (fun _ _ ↦ Nat.zero_le _) _ (List.mem_map_of_mem hmem)
  obtain ⟨hconn, hcounts⟩ :=
    hchange (thread.doingRequestCount, conn) (hbalanced.conns conn hmem) hneeds hle
  refine ⟨fun other hother ↦ ?_, ?_⟩
  · rcases List.mem_or_eq_of_mem_set hother with hold | rfl
    · exact hbalanced.conns other hold
    · exact hconn
  · have hsum := sum_map_set (·.doingRequestCount) thread.connections id conn
      (change (thread.doingRequestCount, conn)).2 hget
    have hcount := hbalanced.count
    dsimp only at hcounts hsum ⊢
    omega

/-- Every event keeps the thread balanced. -/
theorem IsBalanced.step {event : Event} (hbalanced : IsBalanced thread)
    (hstep : step thread event = some after) : IsBalanced after := by
  cases event with
  | accept =>
    cases hstep
    refine ⟨fun conn hconn ↦ ?_, ?_⟩
    · rcases List.mem_append.mp hconn with hold | hnew
      · exact hbalanced.conns conn hold
      · rw [List.mem_singleton.mp hnew]
        exact ⟨rfl, Nat.le_refl 0⟩
    · simp [hbalanced.count, easyConnectionNew]
  | read id cnt => exact hbalanced.onConnection (fun _ h _ _ ↦ accounts_read h cnt) hstep
  | shakeHands id =>
    exact hbalanced.onConnection (fun _ h hneeds _ ↦ accounts_shakeHands h hneeds.2) hstep
  | process id ret encodeOk =>
    exact hbalanced.onConnection
      (fun _ h hneeds hle ↦ accounts_process h hneeds.2 hle ret encodeOk) hstep
  | sendResponse id retcode encodeOk =>
    exact hbalanced.onConnection
      (fun _ h hneeds hle ↦ accounts_sendResponse h hneeds.2 hle retcode encodeOk) hstep
  | writeAgain id => exact hbalanced.onConnection (fun _ h _ _ ↦ accounts_writeAgain h) hstep
  | destroy id => exact hbalanced.onConnection (fun _ h _ _ ↦ accounts_destroy h) hstep

theorem isBalanced_of_reached {Meets : IoThread → Event → Prop}
    (hreached : Reached step Meets newIoThread thread) : IsBalanced thread :=
  hreached.invariant IsBalanced ⟨fun _ h ↦ (List.not_mem_nil h).elim, rfl⟩
    fun hbefore _ hstep ↦ hbefore.step hstep

/-! ### What is left in the count -/

/-- Nothing of the connection is in the count of the thread but requests in progress. -/
def LeavesNothing (conn : ServerConnection) : Prop :=
  conn.handshakes = 0 ∧ (conn.status ≠ .ok → conn.unanswered = 0)

/-- The count of a balanced thread is the number of requests in progress exactly when no connection
leaves anything else in it. -/
theorem IsBalanced.count_eq_iff (hbalanced : IsBalanced thread) :
    thread.doingRequestCount = thread.inProgress ↔
      ∀ conn ∈ thread.connections, LeavesNothing conn := by
  have hterm : ∀ conn ∈ thread.connections, inProgress conn ≤ conn.doingRequestCount ∧
      (conn.doingRequestCount = inProgress conn ↔ LeavesNothing conn) := by
    intro conn hconn
    have hcount := (hbalanced.conns conn hconn).count
    unfold inProgress LeavesNothing
    split_ifs with hopen
    · refine ⟨by omega, ?_⟩
      constructor
      · intro hequal
        exact ⟨by omega, fun hclosed ↦ absurd hopen hclosed⟩
      · rintro ⟨hnone, -⟩
        omega
    · refine ⟨Nat.zero_le _, ?_⟩
      constructor
      · intro hequal
        exact ⟨by omega, fun _ ↦ by omega⟩
      · rintro ⟨hnone, hunanswered⟩
        have hzero := hunanswered hopen
        omega
  rw [hbalanced.count, IoThread.inProgress,
    sum_map_eq_iff _ _ _ fun conn hconn ↦ (hterm conn hconn).1]
  exact forall₂_congr fun conn hconn ↦ (hterm conn hconn).2

/-- The event completes no handshake and destroys no connection that has an unanswered request. -/
def Settles (thread : IoThread) : Event → Prop
  | .shakeHands _ => False
  | .read id _ => ∀ conn, thread.connections[id]? = some conn →
      isRefused (thread.doingRequestCount, conn) → conn.unanswered = 0
  | .destroy id => ∀ conn, thread.connections[id]? = some conn → conn.unanswered = 0
  | _ => True

/-- A part of a callback that completes no handshake and leaves the status alone, or destroys a
connection without unanswered requests. -/
theorem leavesNothing_of_change [DecidablePred needs]
    (hnothing : ∀ conn ∈ thread.connections, LeavesNothing conn)
    (hchange : ∀ conn, thread.connections[id]? = some conn → needs conn → LeavesNothing conn →
      LeavesNothing (change (thread.doingRequestCount, conn)).2)
    (hstep : onConnection thread id needs change = some after) :
    ∀ conn ∈ after.connections, LeavesNothing conn := by
  obtain ⟨conn, hget, hmem, hneeds, rfl⟩ := onConnection_eq_some hstep
  intro other hother
  rcases List.mem_or_eq_of_mem_set hother with hold | rfl
  · exact hnothing other hold
  · exact hchange conn hget hneeds (hnothing conn hmem)

theorem leavesNothing_requestDone (encodeOk : Bool) (hnothing : LeavesNothing counted.2) :
    LeavesNothing (easyConnectionRequestDone retcode encodeOk counted).2 := by
  unfold easyConnectionRequestDone
  split_ifs
  · exact hnothing
  · cases retcode with
    | ok =>
      refine ⟨hnothing.1, fun hclosed ↦ ?_⟩
      have hzero := hnothing.2 hclosed
      dsimp only
      omega
    | again => exact hnothing
    | error => exact hnothing

theorem leavesNothing_step {event : Event}
    (hnothing : ∀ conn ∈ thread.connections, LeavesNothing conn)
    (hsettles : Settles thread event) (hstep : step thread event = some after) :
    ∀ conn ∈ after.connections, LeavesNothing conn := by
  cases event with
  | accept =>
    cases hstep
    intro conn hconn
    rcases List.mem_append.mp hconn with hold | hnew
    · exact hnothing conn hold
    · rw [List.mem_singleton.mp hnew]
      exact ⟨rfl, fun _ ↦ rfl⟩
  | read id cnt =>
    refine leavesNothing_of_change hnothing (fun conn hget hopen hconn ↦ ?_) hstep
    unfold easyConnectionOnReadable
    split_ifs with hrefused
    · exact ⟨hconn.1, fun _ ↦ hsettles conn hget hrefused⟩
    · exact ⟨hconn.1, fun hclosed ↦ absurd hopen hclosed⟩
  | shakeHands id => exact hsettles.elim
  | process id ret encodeOk =>
    simp only [step] at hstep
    refine leavesNothing_of_change hnothing (fun conn _ _ hconn ↦ ?_) hstep
    cases ret with
    | ok => exact leavesNothing_requestDone .ok encodeOk hconn
    | again => exact hconn
    | error => exact hconn
  | sendResponse id retcode encodeOk =>
    refine leavesNothing_of_change hnothing (fun conn _ _ hconn ↦ ?_) hstep
    exact leavesNothing_requestDone retcode encodeOk hconn
  | writeAgain id => exact leavesNothing_of_change hnothing (fun _ _ _ hconn ↦ hconn) hstep
  | destroy id =>
    exact leavesNothing_of_change hnothing
      (fun conn hget _ hconn ↦ ⟨hconn.1, fun _ ↦ hsettles conn hget⟩) hstep

/-- In a run that completes no handshake and destroys no connection with an unanswered request, the
count of the thread is the number of requests in progress, and a connection refused for the load of
the thread is refused for requests in progress. In any run, the count is that number exactly when no
connection completed its handshake and none that is closed has an unanswered request. -/
theorem load_accounting (thread : IoThread) :
    (Reached step Settles newIoThread thread →
      thread.doingRequestCount = thread.inProgress ∧
      ∀ conn ∈ thread.connections, conn.status = .ok →
        isRefused (thread.doingRequestCount, conn) →
        easyConnDoingReqCnt < conn.unanswered ∨ easyIothDoingReqCnt < thread.inProgress) ∧
    (Reached step anyEvent newIoThread thread →
      (thread.doingRequestCount = thread.inProgress ↔
        ∀ conn ∈ thread.connections,
          conn.handshakes = 0 ∧ (conn.status ≠ .ok → conn.unanswered = 0))) := by
  constructor
  · intro hreached
    have hbalanced := isBalanced_of_reached hreached
    have hnothing : ∀ conn ∈ thread.connections, LeavesNothing conn :=
      hreached.invariant (fun thread ↦ ∀ conn ∈ thread.connections, LeavesNothing conn)
        (fun _ h ↦ (List.not_mem_nil h).elim) leavesNothing_step
    have hcount := hbalanced.count_eq_iff.mpr hnothing
    refine ⟨hcount, fun conn hconn _ hrefused ↦ ?_⟩
    have hconnCount := (hbalanced.conns conn hconn).count
    have hhandshakes := (hnothing conn hconn).1
    rcases hrefused with hconnection | hthread
    · left
      dsimp only at hconnection
      omega
    · exact Or.inr (hcount ▸ hthread)
  · intro hreached
    exact (isBalanced_of_reached hreached).count_eq_iff

/-- Of three requests on a connection one is answered, one is with its thread and one is listed.
Another connection is closed. -/
def busyThread : IoThread := ⟨2, [⟨.ok, 2, 1, 1, 0, 2, 0⟩, ⟨.released, 0, 0, 0, 0, 0, 0⟩]⟩

theorem load_accounting_busyThread :
    busyThread.inProgress = 2 ∧ busyThread.doingRequestCount = busyThread.inProgress ∧
      ∀ conn ∈ busyThread.connections, conn.handshakes = 0 := by
  have hreached : Reached step Settles newIoThread busyThread := by
    refine .next (.destroy 1) (.next (.process 0 .ok true) (.next (.process 0 .again true)
      (.next (.read 0 3) (.next .accept (.next .accept .start trivial rfl) trivial rfl) ?_ rfl)
        trivial rfl) trivial rfl) ?_ rfl
    · intro conn hconn hrefused
      cases hconn
      exact absurd hrefused (by decide)
    · intro conn hconn
      cases hconn
      rfl
  have hcount := ((load_accounting busyThread).1 hreached).1
  exact ⟨rfl, hcount, fun conn hconn ↦ (((load_accounting busyThread).2
    (hreached.mono fun _ _ _ ↦ trivial)).mp hcount conn hconn).1⟩

/-- A part of a callback on the connection that was accepted last. -/
theorem onConnection_last (count : ℕ) (others : List ServerConnection) (conn : ServerConnection)
    (needs : ServerConnection → Prop) [DecidablePred needs] (change : Counted → Counted)
    (hneeds : needs conn) :
    onConnection ⟨count, others ++ [conn]⟩ others.length needs change =
      some ⟨(change (count, conn)).1, others ++ [(change (count, conn)).2]⟩ := by
  simp [onConnection, hneeds]

/-- A connection that completed its handshake. -/
def shakenConnection : ServerConnection := ⟨.ok, 1, 0, 0, 0, 0, 1⟩

/-- A client that connects and completes its handshake leaves one request in the count. -/
theorem reached_handshakes (number : ℕ) (hnumber : number ≤ easyIothDoingReqCnt + 1) :
    Reached step anyEvent newIoThread ⟨number, List.replicate number shakenConnection⟩ := by
  induction number with
  | zero => exact .start
  | succ number ih =>
    have hbefore := ih (Nat.le_of_succ_le hnumber)
    -- the new connection is read at a count that is still within the limit
    have hnotRefused : ¬isRefused (number, easyConnectionNew) := by
      rintro (hconnection | hthread)
      · exact absurd hconnection (Nat.not_lt_zero _)
      · omega
    have hread : step ⟨number, List.replicate number shakenConnection ++ [easyConnectionNew]⟩
        (.read number 1) =
        some ⟨number + 1, List.replicate number shakenConnection ++ [⟨.ok, 1, 1, 0, 0, 1, 0⟩]⟩ := by
      have hlast := onConnection_last number (List.replicate number shakenConnection)
        easyConnectionNew (fun conn ↦ conn.status = .ok) (easyConnectionOnReadable 1) rfl
      rwa [List.length_replicate, easyConnectionOnReadable, if_neg hnotRefused] at hlast
    have hshake : step
        ⟨number + 1, List.replicate number shakenConnection ++ [⟨.ok, 1, 1, 0, 0, 1, 0⟩]⟩
        (.shakeHands number) =
        some ⟨number + 1, List.replicate number shakenConnection ++ [shakenConnection]⟩ := by
      have hlast := onConnection_last (number + 1) (List.replicate number shakenConnection)
        ⟨.ok, 1, 1, 0, 0, 1, 0⟩ (fun conn ↦ conn.status = .ok ∧ 0 < conn.listed)
        (fun counted ↦ shakeHands (takeListed counted)) (by decide)
      rwa [List.length_replicate] at hlast
    rw [List.replicate_succ']
    exact .next (.shakeHands number) (.next (.read number 1) (.next .accept hbefore trivial rfl)
      trivial hread) trivial hshake

/-- Behind enough completed handshakes every connection is refused, and nothing is in progress. -/
theorem refused_with_nothing_in_progress :
    ∃ thread, Reached step anyEvent newIoThread thread ∧ thread.inProgress = 0 ∧
      thread.doingRequestCount ≠ thread.inProgress ∧
      ∀ conn ∈ thread.connections, isRefused (thread.doingRequestCount, conn) := by
  have hnothing : ∀ number,
      (IoThread.mk number (List.replicate number shakenConnection)).inProgress = 0 := by
    intro number
    simp [IoThread.inProgress, inProgress, shakenConnection]
  refine ⟨_, reached_handshakes (easyIothDoingReqCnt + 1) (Nat.le_refl _), hnothing _, ?_, ?_⟩
  · rw [hnothing]
    exact Nat.succ_ne_zero _
  · exact fun conn _ ↦ Or.inr (Nat.lt_succ_self _)

end TdhSocket.Connection.Load
