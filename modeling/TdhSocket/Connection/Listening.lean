import Mathlib.Data.Fintype.Basic
import TdhSocket.Library.Runs

/-!
# Passing the listening sockets between the IO threads

`easy_connection_on_accept`, `easy_connection_on_listen` and `easy_io_on_thread_start` with
`listen_all` off and at least two IO threads. The thread that has the accept watcher of a socket
stops it when it accepts a connection, gives the lock of the socket back and sends a listen wakeup
to some IO thread; a listen wakeup takes every socket whose lock is free.

The callbacks are cut where other threads can come between: a start into `ev_async_start` and the
notification, the end of an accept into stopping the watcher, the unlock and the notification, a
listen wakeup into one visit for each socket. A notification sets `sent`; the event loop of the
thread clears it when it feeds the event (`fed`), and then runs the callback.

`IsPlaced` says where the token of a socket is, `IsAwaited` that a free one is waited for, and
`listener_token` has both for every run.
-/

set_option autoImplicit false

namespace TdhSocket.Connection.Listening

open Library

/-! ### The threads and the sockets -/

/-- `easy_listen_t`. A watcher is active in the event loop of a thread, or not. -/
structure EasyListen (threads : ℕ) where
  cur : Fin 2
  old : Fin 2
  listenLock : Bool
  currIoth : Option (Fin threads)
  oldIoth : Option (Fin threads)
  readWatcher : Fin 2 → Option (Fin threads)

/-- What an IO thread does: it was not started, it has started its listen watcher and not sent
itself the notification, it waits for events, it visits the sockets in a listen wakeup, or it hands
a socket over to another thread, with the lock or without. -/
inductive Doing (threads sockets : ℕ)
  | fresh
  | starting
  | idle
  | listening (rest : List (Fin sockets))
  | handing (socket : Fin sockets) (next : Fin threads) (isLocked : Bool)
  deriving DecidableEq, Repr

/-- `easy_io_thread_t` with its listen watcher. -/
structure IoThread (threads sockets : ℕ) where
  sent : Bool
  fed : Bool
  doing : Doing threads sockets
  deriving DecidableEq, Repr

/-- The listening sockets and the IO threads of `easy_io_t`. -/
structure EasyIo (threads sockets : ℕ) where
  listen : Fin sockets → EasyListen threads
  ioThread : Fin threads → IoThread threads sockets

variable {extra sockets : ℕ}

/-- Before any thread was started: everything is zero. -/
def newEasyIo : EasyIo (extra + 2) sockets where
  listen _ := ⟨0, 0, false, none, none, fun _ ↦ none⟩
  ioThread _ := ⟨false, false, .fresh⟩

/-- `ev_io_start`, which leaves an active watcher alone. -/
def evIoStart {threads : ℕ} (listen : EasyListen threads) (watcher : Fin 2)
    (ioth : Fin threads) : EasyListen threads :=
  if (listen.readWatcher watcher).isSome then listen
  else { listen with readWatcher := Function.update listen.readWatcher watcher (some ioth) }

/-- `ev_io_stop`. -/
def evIoStop {threads : ℕ} (listen : EasyListen threads) (watcher : Fin 2) :
    EasyListen threads :=
  { listen with readWatcher := Function.update listen.readWatcher watcher none }

/-- `th_idx` for a value of `connect_num`, which other threads count up too. -/
def nextIoth (connectNum : ℤ) : Fin (extra + 2) where
  val := (connectNum.tmod (extra + 2 : ℕ)).natAbs
  isLt := by
    rw [Int.natAbs_tmod]
    exact Nat.mod_lt _ (Nat.succ_pos _)

/-- What `easy_connection_on_accept` does to a socket it hands over. -/
def giveUp {threads : ℕ} (listen : EasyListen threads) : EasyListen threads :=
  { evIoStop { listen with old := listen.cur, currIoth := none } listen.cur with oldIoth := none }

/-- What `easy_connection_on_listen` does to a socket. -/
def tryListen {threads : ℕ} (listen : EasyListen threads) (ioth : Fin threads) :
    EasyListen threads :=
  if listen.listenLock then listen
  else
    let locked := { listen with listenLock := true }
    if locked.oldIoth = some ioth then { locked with oldIoth := none, currIoth := some ioth }
    else { evIoStart { locked with cur := locked.cur + 1 } (locked.cur + 1) ioth with
      currIoth := some ioth }

/-- Replaces an IO thread. -/
def setIoth {threads : ℕ} (eio : EasyIo threads sockets) (ioth : Fin threads)
    (thread : IoThread threads sockets) : EasyIo threads sockets :=
  { eio with ioThread := Function.update eio.ioThread ioth thread }

/-- Replaces a listening socket. -/
def setListen {threads : ℕ} (eio : EasyIo threads sockets) (socket : Fin sockets)
    (listen : EasyListen threads) : EasyIo threads sockets :=
  { eio with listen := Function.update eio.listen socket listen }

/-- `ev_async_send` to the listen watcher of a thread. -/
def evAsyncSend {threads : ℕ} (eio : EasyIo threads sockets) (ioth : Fin threads) :
    EasyIo threads sockets :=
  setIoth eio ioth { eio.ioThread ioth with sent := true }

/-- The thread has an active accept watcher for the socket. -/
def HasWatcher {threads : ℕ} (eio : EasyIo threads sockets) (ioth : Fin threads)
    (socket : Fin sockets) : Prop :=
  ∃ watcher, (eio.listen socket).readWatcher watcher = some ioth

instance {threads : ℕ} (eio : EasyIo threads sockets) (ioth : Fin threads)
    (socket : Fin sockets) : Decidable (HasWatcher eio ioth socket) :=
  inferInstanceAs (Decidable (∃ watcher, (eio.listen socket).readWatcher watcher = some ioth))

/-- What happens: a thread starts its listen watcher, and sends itself a notification; a connection
comes for a watcher, and is accepted under a value of `connect_num` or not; the thread goes on to
unlock the socket, and to notify the next thread; an event loop feeds a notification, runs the
callback, and the callback goes to the next socket. -/
inductive Event (threads sockets : ℕ)
  | start (ioth : Fin threads)
  | sendSelf (ioth : Fin threads)
  | accept (ioth : Fin threads) (socket : Fin sockets) (connectNum : Option ℤ)
  | unlock (ioth : Fin threads)
  | sendNext (ioth : Fin threads)
  | feed (ioth : Fin threads)
  | wakeup (ioth : Fin threads)
  | visit (ioth : Fin threads)

/-- One event. -/
def step (eio : EasyIo (extra + 2) sockets) :
    Event (extra + 2) sockets → Option (EasyIo (extra + 2) sockets)
  | .start ioth =>
    match (eio.ioThread ioth).doing with
    | .fresh => some (setIoth eio ioth
        { eio.ioThread ioth with sent := false, doing := .starting })
    | _ => none
  | .sendSelf ioth =>
    match (eio.ioThread ioth).doing with
    | .starting => some (evAsyncSend
        (setIoth eio ioth { eio.ioThread ioth with doing := .idle }) ioth)
    | _ => none
  | .accept ioth socket connectNum =>
    match (eio.ioThread ioth).doing with
    | .idle =>
      if HasWatcher eio ioth socket then
        match connectNum with
        | none => some eio
        | some connectNum =>
          if (eio.listen socket).oldIoth = none ∧ (eio.listen socket).currIoth = some ioth then
            some (setIoth (setListen eio socket (giveUp (eio.listen socket))) ioth
              { eio.ioThread ioth with doing := .handing socket (nextIoth connectNum) true })
          else some eio
      else none
    | _ => none
  | .unlock ioth =>
    match (eio.ioThread ioth).doing with
    | .handing socket next true => some
        (setIoth (setListen eio socket { eio.listen socket with listenLock := false }) ioth
          { eio.ioThread ioth with doing := .handing socket next false })
    | _ => none
  | .sendNext ioth =>
    match (eio.ioThread ioth).doing with
    | .handing _ next false => some (evAsyncSend
        (setIoth eio ioth { eio.ioThread ioth with doing := .idle }) next)
    | _ => none
  | .feed ioth =>
    match (eio.ioThread ioth).doing, (eio.ioThread ioth).sent with
    | .idle, true => some (setIoth eio ioth { eio.ioThread ioth with sent := false, fed := true })
    | _, _ => none
  | .wakeup ioth =>
    match (eio.ioThread ioth).doing, (eio.ioThread ioth).fed with
    | .idle, true => some (setIoth eio ioth
        { eio.ioThread ioth with fed := false, doing := .listening (List.finRange sockets) })
    | _, _ => none
  | .visit ioth =>
    match (eio.ioThread ioth).doing with
    | .listening [] => some (setIoth eio ioth { eio.ioThread ioth with doing := .idle })
    | .listening (socket :: rest) => some
        (setIoth (setListen eio socket (tryListen (eio.listen socket) ioth)) ioth
          { eio.ioThread ioth with doing := .listening rest })
    | _ => none

/-! ### What an event does -/

/-- Everything an event does. -/
inductive Advances (eio : EasyIo (extra + 2) sockets) : EasyIo (extra + 2) sockets → Prop
  | same : Advances eio eio
  | start (ioth : Fin (extra + 2)) (hdoing : (eio.ioThread ioth).doing = .fresh) :
      Advances eio (setIoth eio ioth
        { eio.ioThread ioth with sent := false, doing := .starting })
  | sendSelf (ioth : Fin (extra + 2)) (hdoing : (eio.ioThread ioth).doing = .starting) :
      Advances eio (evAsyncSend
        (setIoth eio ioth { eio.ioThread ioth with doing := .idle }) ioth)
  | accept (ioth : Fin (extra + 2)) (socket : Fin sockets) (connectNum : ℤ)
      (hdoing : (eio.ioThread ioth).doing = .idle) (hwatcher : HasWatcher eio ioth socket)
      (hcurr : (eio.listen socket).currIoth = some ioth) :
      Advances eio (setIoth (setListen eio socket (giveUp (eio.listen socket))) ioth
        { eio.ioThread ioth with doing := .handing socket (nextIoth connectNum) true })
  | unlock (ioth next : Fin (extra + 2)) (socket : Fin sockets)
      (hdoing : (eio.ioThread ioth).doing = .handing socket next true) :
      Advances eio
        (setIoth (setListen eio socket { eio.listen socket with listenLock := false }) ioth
          { eio.ioThread ioth with doing := .handing socket next false })
  | sendNext (ioth next : Fin (extra + 2)) (socket : Fin sockets)
      (hdoing : (eio.ioThread ioth).doing = .handing socket next false) :
      Advances eio (evAsyncSend
        (setIoth eio ioth { eio.ioThread ioth with doing := .idle }) next)
  | feed (ioth : Fin (extra + 2)) (hdoing : (eio.ioThread ioth).doing = .idle) :
      Advances eio (setIoth eio ioth { eio.ioThread ioth with sent := false, fed := true })
  | wakeup (ioth : Fin (extra + 2)) (hdoing : (eio.ioThread ioth).doing = .idle) :
      Advances eio (setIoth eio ioth
        { eio.ioThread ioth with fed := false, doing := .listening (List.finRange sockets) })
  | leave (ioth : Fin (extra + 2)) (hdoing : (eio.ioThread ioth).doing = .listening []) :
      Advances eio (setIoth eio ioth { eio.ioThread ioth with doing := .idle })
  | visit (ioth : Fin (extra + 2)) (socket : Fin sockets) (rest : List (Fin sockets))
      (hdoing : (eio.ioThread ioth).doing = .listening (socket :: rest)) :
      Advances eio
        (setIoth (setListen eio socket (tryListen (eio.listen socket) ioth)) ioth
          { eio.ioThread ioth with doing := .listening rest })

variable {eio after : EasyIo (extra + 2) sockets} {ioth : Fin (extra + 2)}
  {thread : IoThread (extra + 2) sockets}

theorem advances_of_step {event : Event (extra + 2) sockets} (hstep : step eio event = some after) :
    Advances eio after := by
  cases event with
  | start ioth =>
    simp only [step] at hstep
    split at hstep
    · rename_i hdoing
      cases hstep
      exact .start ioth hdoing
    · cases hstep
  | sendSelf ioth =>
    simp only [step] at hstep
    split at hstep
    · rename_i hdoing
      cases hstep
      exact .sendSelf ioth hdoing
    · cases hstep
  | accept ioth socket connectNum =>
    simp only [step] at hstep
    split at hstep
    · rename_i hdoing
      cases connectNum with
      | none =>
        dsimp only at hstep
        split_ifs at hstep
        cases hstep
        exact .same
      | some connectNum =>
        split_ifs at hstep with hwatcher hcurr
        · cases hstep
          exact .accept ioth socket connectNum hdoing hwatcher hcurr.2
        · cases hstep
          exact .same
    · cases hstep
  | unlock ioth =>
    simp only [step] at hstep
    split at hstep
    · rename_i socket next hdoing
      cases hstep
      exact .unlock ioth next socket hdoing
    · cases hstep
  | sendNext ioth =>
    simp only [step] at hstep
    split at hstep
    · rename_i socket next hdoing
      cases hstep
      exact .sendNext ioth next socket hdoing
    · cases hstep
  | feed ioth =>
    simp only [step] at hstep
    split at hstep
    · rename_i hdoing _
      cases hstep
      exact .feed ioth hdoing
    · cases hstep
  | wakeup ioth =>
    simp only [step] at hstep
    split at hstep
    · rename_i hdoing _
      cases hstep
      exact .wakeup ioth hdoing
    · cases hstep
  | visit ioth =>
    simp only [step] at hstep
    split at hstep
    · rename_i hdoing
      cases hstep
      exact .leave ioth hdoing
    · rename_i socket rest hdoing
      cases hstep
      exact .visit ioth socket rest hdoing
    · cases hstep

/-! ### Where the token is -/

/-- The thread hands the socket over and still has its lock. -/
def HandsLocked {threads : ℕ} (eio : EasyIo threads sockets) (socket : Fin sockets)
    (ioth : Fin threads) : Prop :=
  ∃ next, (eio.ioThread ioth).doing = .handing socket next true

/-- The right to accept from a socket is with the thread whose watcher is active, with a thread that
hands it over, or nowhere. -/
inductive IsPlaced {threads : ℕ} (eio : EasyIo threads sockets) (socket : Fin sockets) : Prop
  | held (ioth : Fin threads) (hlock : (eio.listen socket).listenLock = true)
      (hcurr : (eio.listen socket).currIoth = some ioth)
      (hcur : (eio.listen socket).readWatcher (eio.listen socket).cur = some ioth)
      (hother : ∀ watcher, watcher ≠ (eio.listen socket).cur →
        (eio.listen socket).readWatcher watcher = none)
      (hnone : ∀ other, ¬HandsLocked eio socket other)
  | handed (ioth : Fin threads) (hlock : (eio.listen socket).listenLock = true)
      (hcurr : (eio.listen socket).currIoth = none)
      (hwatchers : ∀ watcher, (eio.listen socket).readWatcher watcher = none)
      (hhands : HandsLocked eio socket ioth)
      (hunique : ∀ other, HandsLocked eio socket other → other = ioth)
  | free (hlock : (eio.listen socket).listenLock = false)
      (hcurr : (eio.listen socket).currIoth = none)
      (hwatchers : ∀ watcher, (eio.listen socket).readWatcher watcher = none)
      (hnone : ∀ other, ¬HandsLocked eio socket other)

variable {threads : ℕ} {socket : Fin sockets}

section

variable (eio : EasyIo threads sockets)

@[simp] theorem setIoth_listen (ioth : Fin threads) (thread : IoThread threads sockets) :
    (setIoth eio ioth thread).listen = eio.listen := rfl

@[simp] theorem setIoth_ioThread_self (ioth : Fin threads) (thread : IoThread threads sockets) :
    (setIoth eio ioth thread).ioThread ioth = thread := Function.update_self ..

theorem setIoth_ioThread_of_ne {ioth other : Fin threads} (hother : other ≠ ioth)
    (thread : IoThread threads sockets) :
    (setIoth eio ioth thread).ioThread other = eio.ioThread other :=
  Function.update_of_ne hother ..

@[simp] theorem setListen_ioThread (socket : Fin sockets) (listen : EasyListen threads) :
    (setListen eio socket listen).ioThread = eio.ioThread := rfl

@[simp] theorem setListen_listen_self (socket : Fin sockets) (listen : EasyListen threads) :
    (setListen eio socket listen).listen socket = listen := Function.update_self ..

theorem setListen_listen_of_ne {socket other : Fin sockets} (hother : other ≠ socket)
    (listen : EasyListen threads) : (setListen eio socket listen).listen other = eio.listen other :=
  Function.update_of_ne hother ..

@[simp] theorem evAsyncSend_sent (ioth : Fin threads) :
    ((evAsyncSend eio ioth).ioThread ioth).sent = true := by
  simp [evAsyncSend]

/-- A notification does not change what a thread does. -/
@[simp] theorem evAsyncSend_doing (ioth other : Fin threads) :
    ((evAsyncSend eio ioth).ioThread other).doing = (eio.ioThread other).doing := by
  by_cases hother : other = ioth
  · rw [hother]
    simp [evAsyncSend]
  · rw [evAsyncSend, setIoth_ioThread_of_ne eio hother]

end

/-- Where the token of a socket is depends on the socket and on who hands it over. Assumes: only one
thread acts, and it hands the socket over with its lock neither before nor after. -/
theorem IsPlaced.congr {eio after : EasyIo threads sockets}
    (hplaced : IsPlaced eio socket) (ioth : Fin threads)
    (hlisten : after.listen socket = eio.listen socket)
    (hothers : ∀ other, other ≠ ioth →
      (after.ioThread other).doing = (eio.ioThread other).doing)
    (hbefore : ¬HandsLocked eio socket ioth) (hafter : ¬HandsLocked after socket ioth) :
    IsPlaced after socket := by
  have hhands : ∀ other, HandsLocked after socket other ↔ HandsLocked eio socket other := by
    intro other
    by_cases hother : other = ioth
    · rw [hother]
      exact iff_of_false hafter hbefore
    · unfold HandsLocked
      rw [hothers other hother]
  cases hplaced with
  | held holder hlock hcurr hcur hother hnone =>
    refine .held holder ?_ ?_ ?_ ?_ fun other hhand ↦ hnone other ((hhands other).mp hhand)
    all_goals rwa [hlisten]
  | handed holder hlock hcurr hwatchers hhand hunique =>
    refine .handed holder ?_ ?_ ?_ ((hhands holder).mpr hhand)
      fun other hother ↦ hunique other ((hhands other).mp hother)
    all_goals rwa [hlisten]
  | free hlock hcurr hwatchers hnone =>
    refine .free ?_ ?_ ?_ fun other hhand ↦ hnone other ((hhands other).mp hhand)
    all_goals rwa [hlisten]

/-- A thread that does something else does not hand a socket over. -/
theorem not_handsLocked {eio : EasyIo threads sockets} {ioth : Fin threads}
    {doing : Doing threads sockets}
    (hdoing : (eio.ioThread ioth).doing = doing)
    (hother : ∀ next, doing ≠ .handing socket next true) : ¬HandsLocked eio socket ioth := by
  rintro ⟨next, hhanding⟩
  exact hother next (hdoing.symm.trans hhanding)

/-- No watcher of a socket is active but that of the thread it is held by. -/
theorem IsPlaced.currIoth_of_hasWatcher {eio : EasyIo threads sockets}
    {ioth : Fin threads} (hplaced : IsPlaced eio socket)
    (hwatcher : HasWatcher eio ioth socket) : (eio.listen socket).currIoth = some ioth := by
  obtain ⟨watcher, hactive⟩ := hwatcher
  cases hplaced with
  | held holder _ hcurr hcur hother _ =>
    by_cases hsame : watcher = (eio.listen socket).cur
    · rw [hsame, hcur] at hactive
      rw [hcurr, hactive]
    · rw [hother watcher hsame] at hactive
      cases hactive
  | handed _ _ _ hwatchers _ _ =>
    rw [hwatchers watcher] at hactive
    cases hactive
  | free _ _ hwatchers _ =>
    rw [hwatchers watcher] at hactive
    cases hactive

/-- A visit to a free socket. -/
theorem tryListen_of_free {listen : EasyListen threads} (ioth : Fin threads)
    (hlock : listen.listenLock = false) (hold : listen.oldIoth = none)
    (hwatchers : ∀ watcher, listen.readWatcher watcher = none) :
    tryListen listen ioth =
      { listen with
        listenLock := true
        cur := listen.cur + 1
        currIoth := some ioth
        readWatcher := Function.update listen.readWatcher (listen.cur + 1) (some ioth) } := by
  simp [tryListen, evIoStart, hlock, hold, hwatchers]

/-- A visit to a socket whose lock is taken. -/
theorem tryListen_of_locked {listen : EasyListen threads} (ioth : Fin threads)
    (hlock : listen.listenLock = true) : tryListen listen ioth = listen := by
  simp [tryListen, hlock]

/-- Behind a visit, the lock of the socket is taken. -/
theorem tryListen_listenLock (listen : EasyListen threads) (ioth : Fin threads) :
    (tryListen listen ioth).listenLock = true := by
  cases hlock : listen.listenLock with
  | true => rwa [tryListen_of_locked ioth hlock]
  | false =>
    simp only [tryListen, hlock, Bool.false_eq_true, if_false, evIoStart]
    split_ifs <;> rfl

/-- The token of every socket has a place, and `old_ioth` is not used. -/
structure IsOrderly (eio : EasyIo (extra + 2) sockets) : Prop where
  old_none : ∀ socket, (eio.listen socket).oldIoth = none
  placed : ∀ socket, IsPlaced eio socket

theorem isOrderly_new : IsOrderly (newEasyIo : EasyIo (extra + 2) sockets) where
  old_none _ := rfl
  placed _ := .free rfl rfl (fun _ ↦ rfl) fun _ hhands ↦ by
    obtain ⟨next, hnext⟩ := hhands
    cases hnext

/-- An event of one thread that changes no socket. Assumes: the thread hands no socket over with its
lock, before or after. -/
theorem IsOrderly.of_thread (horderly : IsOrderly eio) (ioth : Fin (extra + 2))
    (hlisten : after.listen = eio.listen)
    (hothers : ∀ other, other ≠ ioth →
      (after.ioThread other).doing = (eio.ioThread other).doing)
    (hbefore : ∀ socket, ¬HandsLocked eio socket ioth)
    (hafter : ∀ socket, ¬HandsLocked after socket ioth) : IsOrderly after where
  old_none socket := by
    rw [hlisten]
    exact horderly.old_none socket
  placed socket := (horderly.placed socket).congr ioth (by rw [hlisten]) hothers
    (hbefore socket) (hafter socket)

/-- An event of one thread that changes one socket. -/
theorem IsOrderly.of_socket (horderly : IsOrderly eio)
    {listen : EasyListen (extra + 2)}
    (hbefore : ∀ other, other ≠ socket → ¬HandsLocked eio other ioth)
    (hafter : ∀ other next, other ≠ socket → thread.doing ≠ .handing other next true)
    (hold : listen.oldIoth = none)
    (hplaced : IsPlaced (setIoth (setListen eio socket listen) ioth thread) socket) :
    IsOrderly (setIoth (setListen eio socket listen) ioth thread) where
  old_none other := by
    rw [setIoth_listen]
    by_cases hother : other = socket
    · rw [hother, setListen_listen_self]
      exact hold
    · rw [setListen_listen_of_ne _ hother]
      exact horderly.old_none other
  placed other := by
    by_cases hother : other = socket
    · rw [hother]
      exact hplaced
    · refine (horderly.placed other).congr ioth ?_ ?_ (hbefore other hother) ?_
      · rw [setIoth_listen, setListen_listen_of_ne _ hother]
      · intro thread' hthread
        rw [setIoth_ioThread_of_ne _ hthread, setListen_ioThread]
      · rintro ⟨next, hnext⟩
        rw [setIoth_ioThread_self] at hnext
        exact hafter other next hother hnext

/-- A thread that hands over after an event of another thread did so before. -/
theorem handsLocked_of_ne {other : Fin (extra + 2)} {socket any : Fin sockets}
    {listen : EasyListen (extra + 2)} (hother : other ≠ ioth)
    (hhands : HandsLocked (setIoth (setListen eio socket listen) ioth thread) any other) :
    HandsLocked eio any other := by
  obtain ⟨next, hnext⟩ := hhands
  rw [setIoth_ioThread_of_ne _ hother, setListen_ioThread] at hnext
  exact ⟨next, hnext⟩

/-- A socket whose lock is free has no active watcher, and nobody hands it over with the lock. -/
theorem IsPlaced.of_unlocked {eio : EasyIo threads sockets}
    (hplaced : IsPlaced eio socket) (hlock : (eio.listen socket).listenLock = false) :
    (∀ watcher, (eio.listen socket).readWatcher watcher = none) ∧
      ∀ other, ¬HandsLocked eio socket other := by
  cases hplaced with
  | held _ hlocked => simp [hlocked] at hlock
  | handed _ hlocked => simp [hlocked] at hlock
  | free _ _ hwatchers hnone => exact ⟨hwatchers, hnone⟩

section

variable (horderly : IsOrderly eio)

include horderly

/-- The visit of a listen wakeup to a socket takes it if it is free. -/
theorem IsOrderly.visit {rest : List (Fin sockets)}
    (hdoing : (eio.ioThread ioth).doing = .listening (socket :: rest)) :
    IsOrderly (setIoth (setListen eio socket (tryListen (eio.listen socket) ioth)) ioth
      { eio.ioThread ioth with doing := .listening rest }) := by
  have hself : ∀ any, ¬HandsLocked eio any ioth := fun any ↦ not_handsLocked hdoing (by simp)
  have hnew : ∀ listen any, ¬HandsLocked (setIoth (setListen eio socket listen) ioth
      { eio.ioThread ioth with doing := .listening rest }) any ioth := by
    rintro listen any ⟨next, hnext⟩
    rw [setIoth_ioThread_self] at hnext
    cases hnext
  cases hlock : (eio.listen socket).listenLock with
  | true =>
    rw [tryListen_of_locked ioth hlock]
    refine horderly.of_thread ioth (Function.update_eq_self socket eio.listen) ?_ hself
      (hnew _)
    intro other hother
    rw [setIoth_ioThread_of_ne _ hother, setListen_ioThread]
  | false =>
    obtain ⟨hwatchers, hnone⟩ := (horderly.placed socket).of_unlocked hlock
    have hold := horderly.old_none socket
    rw [tryListen_of_free ioth hlock hold hwatchers]
    refine horderly.of_socket (fun other _ ↦ hself other) (fun _ _ _ ↦ by simp) hold ?_
    refine .held ioth ?_ ?_ ?_ ?_ ?_
    · simp
    · simp
    · simp
    · intro watcher hwatcher
      simp only [setIoth_listen, setListen_listen_self] at hwatcher ⊢
      rw [Function.update_of_ne hwatcher]
      exact hwatchers watcher
    · intro other hhands
      by_cases hother : other = ioth
      · rw [hother] at hhands
        exact hnew _ socket hhands
      · exact hnone other (handsLocked_of_ne hother hhands)

/-- An accepted connection: the thread that held the socket hands it over. -/
theorem IsOrderly.accept {next : Fin (extra + 2)} (hdoing : (eio.ioThread ioth).doing = .idle)
    (hcurr : (eio.listen socket).currIoth = some ioth) :
    IsOrderly (setIoth (setListen eio socket (giveUp (eio.listen socket))) ioth
      { eio.ioThread ioth with doing := .handing socket next true }) := by
  refine horderly.of_socket (fun other _ ↦ not_handsLocked hdoing (by simp)) ?_ rfl ?_
  · intro other next' hother hhanding
    cases hhanding
    exact hother rfl
  · cases horderly.placed socket with
    | held holder hlock _ _ hother hnone =>
      refine .handed ioth ?_ ?_ ?_ ⟨next, by simp⟩ ?_
      · simpa [giveUp, evIoStop] using hlock
      · simp [giveUp, evIoStop]
      · intro watcher
        by_cases hwatcher : watcher = (eio.listen socket).cur
        · rw [hwatcher]
          simp [giveUp, evIoStop]
        · simpa [giveUp, evIoStop, Function.update_of_ne hwatcher] using hother watcher hwatcher
      · intro other hhands
        by_contra hne
        exact hnone other (handsLocked_of_ne hne hhands)
    | handed _ _ hnobody =>
      rw [hnobody] at hcurr
      cases hcurr
    | free _ hnobody =>
      rw [hnobody] at hcurr
      cases hcurr

/-- The lock is given back: the socket is free. -/
theorem IsOrderly.unlock {next : Fin (extra + 2)}
    (hdoing : (eio.ioThread ioth).doing = .handing socket next true) :
    IsOrderly (setIoth (setListen eio socket { eio.listen socket with listenLock := false }) ioth
      { eio.ioThread ioth with doing := .handing socket next false }) := by
  have hself : HandsLocked eio socket ioth := ⟨next, hdoing⟩
  refine horderly.of_socket ?_ (fun _ _ _ ↦ by simp) (horderly.old_none socket) ?_
  · intro other hother
    refine not_handsLocked hdoing fun next' hhanding ↦ ?_
    cases hhanding
    exact hother rfl
  · cases horderly.placed socket with
    | held _ _ _ _ _ hnone => exact absurd hself (hnone ioth)
    | free _ _ _ hnone => exact absurd hself (hnone ioth)
    | handed holder _ hcurr hwatchers _ hunique =>
      refine .free ?_ ?_ ?_ ?_
      · simp
      · simpa using hcurr
      · simpa using hwatchers
      · intro other hhands
        by_cases hother : other = ioth
        · obtain ⟨next', hnext⟩ := hhands
          rw [hother, setIoth_ioThread_self] at hnext
          cases hnext
        · have hholder := hunique other (handsLocked_of_ne hother hhands)
          exact hother (hholder.trans (hunique ioth hself).symm)

/-- A thread that hands nothing over with a lock and goes on to something like that. -/
theorem IsOrderly.setIoth {doing : Doing (extra + 2) sockets}
    (hdoing : (eio.ioThread ioth).doing = doing)
    (hbefore : ∀ socket next, doing ≠ .handing socket next true)
    (hafter : ∀ socket next, thread.doing ≠ .handing socket next true) :
    IsOrderly (setIoth eio ioth thread) := by
  refine horderly.of_thread ioth rfl ?_ (fun socket ↦ not_handsLocked hdoing (hbefore socket)) ?_
  · intro other hother
    rw [setIoth_ioThread_of_ne eio hother]
  · rintro socket ⟨next, hnext⟩
    rw [setIoth_ioThread_self] at hnext
    exact hafter socket next hnext

/-- A notification changes nothing about the sockets. -/
theorem IsOrderly.evAsyncSend (ioth : Fin (extra + 2)) : IsOrderly (evAsyncSend eio ioth) := by
  have hhands : ∀ socket other,
      HandsLocked (Listening.evAsyncSend eio ioth) socket other ↔
        HandsLocked eio socket other := by
    intro socket other
    unfold HandsLocked
    rw [evAsyncSend_doing]
  refine ⟨horderly.old_none, fun socket ↦ ?_⟩
  cases horderly.placed socket with
  | held holder hlock hcurr hcur hother hnone =>
    exact .held holder hlock hcurr hcur hother
      fun other hhand ↦ hnone other ((hhands socket other).mp hhand)
  | handed holder hlock hcurr hwatchers hhand hunique =>
    exact .handed holder hlock hcurr hwatchers ((hhands socket holder).mpr hhand)
      fun other hother ↦ hunique other ((hhands socket other).mp hother)
  | free hlock hcurr hwatchers hnone =>
    exact .free hlock hcurr hwatchers
      fun other hhand ↦ hnone other ((hhands socket other).mp hhand)

/-- Every event keeps the tokens in their places. -/
theorem IsOrderly.advances (hadvances : Advances eio after) : IsOrderly after := by
  cases hadvances with
  | same => exact horderly
  | start ioth hdoing => exact horderly.setIoth hdoing (by simp) (by simp)
  | sendSelf ioth hdoing => exact (horderly.setIoth hdoing (by simp) (by simp)).evAsyncSend ioth
  | accept ioth socket connectNum hdoing _ hcurr => exact horderly.accept hdoing hcurr
  | unlock ioth next socket hdoing => exact horderly.unlock hdoing
  | sendNext ioth next socket hdoing =>
    exact (horderly.setIoth hdoing (by simp) (by simp)).evAsyncSend next
  | feed ioth hdoing => exact horderly.setIoth hdoing (by simp) (by simp [hdoing])
  | wakeup ioth hdoing => exact horderly.setIoth hdoing (by simp) (by simp)
  | leave ioth hdoing => exact horderly.setIoth hdoing (by simp) (by simp)
  | visit ioth socket rest hdoing => exact horderly.visit hdoing

end

/-! ### A free token is waited for -/

/-- A listen wakeup of the thread is pending, or it is being handled and comes to the socket. -/
def IsWoken {threads : ℕ} (eio : EasyIo threads sockets) (socket : Fin sockets)
    (ioth : Fin threads) : Prop :=
  (eio.ioThread ioth).sent = true ∨ (eio.ioThread ioth).fed = true ∨
    ∃ rest, (eio.ioThread ioth).doing = .listening rest ∧ socket ∈ rest

/-- The thread is in the middle of its start, or of handing over a socket for an accepted
connection: its next notification is to come. -/
def IsInSection {threads : ℕ} (eio : EasyIo threads sockets) (ioth : Fin threads) : Prop :=
  (eio.ioThread ioth).doing = .starting ∨
    ∃ socket next isLocked, (eio.ioThread ioth).doing = .handing socket next isLocked

/-- Assumes: every thread waits for events or was not started. -/
theorem not_isInSection_of_forall {eio : EasyIo threads sockets}
    (hdoing : ∀ ioth, (eio.ioThread ioth).doing = .idle ∨ (eio.ioThread ioth).doing = .fresh) :
    ∀ ioth, ¬IsInSection eio ioth := by
  rintro ioth (hstarting | ⟨socket, next, isLocked, hhanding⟩)
  · have hcases := hdoing ioth
    simp [hstarting] at hcases
  · have hcases := hdoing ioth
    simp [hhanding] at hcases

/-- A thread was started. -/
def HasBegun {threads : ℕ} (eio : EasyIo threads sockets) : Prop :=
  ∃ ioth, (eio.ioThread ioth).doing ≠ .fresh

/-- Where the lock of a socket is free, a wakeup for it is pending, being handled, or about to be
sent. -/
def IsAwaited {threads : ℕ} (eio : EasyIo threads sockets) : Prop :=
  ∀ socket, (eio.listen socket).listenLock = false → HasBegun eio →
    ∃ ioth, IsWoken eio socket ioth ∨ IsInSection eio ioth

theorem isAwaited_new : IsAwaited (newEasyIo : EasyIo (extra + 2) sockets) := by
  rintro socket - ⟨ioth, hbegun⟩
  exact absurd rfl hbegun

/-- Every event keeps the free tokens waited for. All but the end of a listen wakeup and its visits
bring a notification or are about to. -/
theorem IsAwaited.advances (hawaited : IsAwaited eio) (hadvances : Advances eio after) :
    IsAwaited after := by
  intro socket hlock hbegun
  cases hadvances with
  | same => exact hawaited socket hlock hbegun
  | start ioth hdoing => exact ⟨ioth, Or.inr (Or.inl (by simp))⟩
  | sendSelf ioth hdoing => exact ⟨ioth, Or.inl (Or.inl (by simp))⟩
  | accept ioth other connectNum _ _ _ =>
    exact ⟨ioth, Or.inr (Or.inr ⟨other, nextIoth connectNum, true, by simp⟩)⟩
  | unlock ioth next other hdoing => exact ⟨ioth, Or.inr (Or.inr ⟨other, next, false, by simp⟩)⟩
  | sendNext ioth next other hdoing => exact ⟨next, Or.inl (Or.inl (by simp))⟩
  | feed ioth hdoing => exact ⟨ioth, Or.inl (Or.inr (Or.inl (by simp)))⟩
  | wakeup ioth hdoing =>
    exact ⟨ioth, Or.inl (Or.inr (Or.inr ⟨_, by simp, List.mem_finRange socket⟩))⟩
  | leave ioth hdoing =>
    obtain ⟨witness, hwitness⟩ := hawaited socket hlock ⟨ioth, by simp [hdoing]⟩
    refine ⟨witness, ?_⟩
    by_cases hsame : witness = ioth
    · subst hsame
      simp only [IsWoken, IsInSection, hdoing, setIoth_ioThread_self] at hwitness ⊢
      simpa using hwitness
    · rwa [IsWoken, IsInSection, setIoth_ioThread_of_ne _ hsame]
  | visit ioth visited rest hdoing =>
    have hother : socket ≠ visited := by
      rintro rfl
      rw [setIoth_listen, setListen_listen_self, tryListen_listenLock] at hlock
      cases hlock
    rw [setIoth_listen, setListen_listen_of_ne _ hother] at hlock
    obtain ⟨witness, hwitness⟩ := hawaited socket hlock ⟨ioth, by simp [hdoing]⟩
    refine ⟨witness, ?_⟩
    by_cases hsame : witness = ioth
    · subst hsame
      simp only [IsWoken, IsInSection, hdoing, setIoth_ioThread_self] at hwitness ⊢
      simpa [hother] using hwitness
    · rwa [IsWoken, IsInSection, setIoth_ioThread_of_ne _ hsame]

/-! ### Runs -/

/-- In every run, for every listening socket: at most one IO thread has an active accept watcher.
And where no thread has one after the start has begun, a listen wakeup is pending or being handled
for some IO thread, unless a thread is in the middle of its start or of handing over a socket, and
sends one next. -/
theorem listener_token (eio : EasyIo (extra + 2) sockets)
    (hreached : Reached step anyEvent newEasyIo eio) (socket : Fin sockets) :
    (∀ first second, HasWatcher eio first socket → HasWatcher eio second socket →
      first = second) ∧
    (HasBegun eio → (∀ ioth, ¬HasWatcher eio ioth socket) →
      (∀ ioth, ¬IsInSection eio ioth) → ∃ ioth, IsWoken eio socket ioth) ∧
    (HasBegun eio → (∀ ioth, ¬HasWatcher eio ioth socket) →
      ∃ ioth, IsWoken eio socket ioth ∨ IsInSection eio ioth) := by
  have horderly : IsOrderly eio := hreached.invariant IsOrderly isOrderly_new
    fun hbefore _ hstep ↦ hbefore.advances (advances_of_step hstep)
  have hawaited : IsAwaited eio := hreached.invariant IsAwaited isAwaited_new
    fun hbefore _ hstep ↦ hbefore.advances (advances_of_step hstep)
  have hwoken : HasBegun eio → (∀ ioth, ¬HasWatcher eio ioth socket) →
      ∃ ioth, IsWoken eio socket ioth ∨ IsInSection eio ioth := by
    intro hbegun hnone
    cases horderly.placed socket with
    | held holder _ _ hcur => exact absurd ⟨_, hcur⟩ (hnone holder)
    | handed holder _ _ _ hhands =>
      obtain ⟨next, hhanding⟩ := hhands
      exact ⟨holder, Or.inr (Or.inr ⟨socket, next, true, hhanding⟩)⟩
    | free hlock => exact hawaited socket hlock hbegun
  refine ⟨fun first second hfirst hsecond ↦ ?_, fun hbegun hnone hsections ↦ ?_, hwoken⟩
  · have hcurr := (horderly.placed socket).currIoth_of_hasWatcher hfirst
    rw [(horderly.placed socket).currIoth_of_hasWatcher hsecond] at hcurr
    exact (Option.some.inj hcurr).symm
  · obtain ⟨ioth, hioth⟩ := hwoken hbegun hnone
    exact ⟨ioth, hioth.resolve_right (hsections ioth)⟩

/-- The first of two threads starts, takes the only socket, and hands it over for an accepted
connection. -/
def firstHandover : List (Event 2 1) :=
  [.start 0, .sendSelf 0, .feed 0, .wakeup 0, .visit 0, .visit 0, .accept 0 0 (some 1), .unlock 0,
    .sendNext 0]

theorem listener_token_firstHandover :
    ∃ eio, run step (newEasyIo : EasyIo (0 + 2) 1) firstHandover = some eio ∧
      (∃ ioth, IsWoken eio 0 ioth) ∧ (eio.ioThread 1).sent = true := by
  have hreached : ∀ eio, run step (newEasyIo : EasyIo (0 + 2) 1) firstHandover = some eio →
      Reached step anyEvent newEasyIo eio :=
    fun eio hrun ↦ reached_run .start (fun _ _ _ ↦ trivial) hrun
  refine ⟨_, rfl, (listener_token _ (hreached _ rfl) 0).2.1 ⟨0, by decide⟩ (by decide) ?_,
    by decide⟩
  -- the first thread waits for events, the second was not started
  refine (not_isInSection_of_forall ?_)
  decide

end TdhSocket.Connection.Listening
