import TdhSocket.RequestThread.Wakeup

/-!
# The task list under its lock

The sections of `easy_thread_pool_push`, `redispatch_thread_pool_push` and `tdhs_request_on_wakeup`
between `easy_spin_lock` and `easy_spin_unlock`, one statement at a time. Any number of threads
push; `Holder` says how far the one that has the lock has come. `pushed` and `rounds` record the
requests in the order in which they were put into the list, and the lists that the callbacks took.

`Advances` lists what a statement can do. `IsQueued` says what holds at every one: the requests of
the rounds, those on their way into a round and those in the list are the pushed ones in order, and
how far the count is from the length of the list. `reached_wholeSections` connects the statements
with the wakeup model, whose events are whole sections, and `request_queue` has the order, the count
and when every pushed request is taken.
-/

set_option autoImplicit false

namespace TdhSocket.RequestThread.Locked

open Library

variable {Request : Type}

/-! ### The thread and its lock -/

/-- Who has the lock of the thread, and what it has done since. A push has appended its request, has
counted it, and has sent the notification; the callback has read the count, moves requests one by
one or all at once, and has its requests. -/
inductive Holder (Request : Type)
  | free
  | pushing (request : Request)
  | appended
  | counted
  | notified
  | taking (limits : ℤ)
  | moving (left : ℤ) (requestList : List Request)
  | movingAll
  | taken (requestList : List Request)
  deriving DecidableEq, Repr

/-- Where the thread is in `tdhs_request_on_wakeup`: behind its entry it reads
`tdhs_group_commit_limits` and then waits for the lock. -/
inductive Round (Request : Type)
  | idle
  | entered
  | ready (limits : ℤ)
  | locked
  | working (requestList : List Request)
  deriving DecidableEq, Repr

/-- A request thread with its lock. The number of requests in work is bounded by the IO threads, so
that `int task_list_count` does not overflow. -/
structure LockedThread (Request : Type) where
  taskList : List Request
  taskListCount : ℤ
  isPending : Bool
  holder : Holder Request
  round : Round Request
  pushed : List Request
  rounds : List (List Request)
  deriving DecidableEq, Repr

/-- A thread that was started. -/
def newLockedThread : LockedThread Request := ⟨[], 0, false, .free, .idle, [], []⟩

/-- The next statement of a push. -/
def pushStep (thread : LockedThread Request) : Option (LockedThread Request) :=
  match thread.holder with
  | .pushing request => some
      { thread with
        taskList := thread.taskList ++ [request]
        pushed := thread.pushed ++ [request]
        holder := .appended }
  | .appended => some
      { thread with taskListCount := thread.taskListCount + 1, holder := .counted }
  | .counted => some { thread with isPending := true, holder := .notified }
  | .notified => some { thread with holder := .free }
  | _ => none

/-- The next statement of the callback under the lock. -/
def takeStep (needWrite : Bool) (thread : LockedThread Request) :
    Option (LockedThread Request) :=
  match thread.holder with
  | .taking limits =>
    if needWrite = true ∧ 0 < limits ∧ limits < thread.taskListCount then some
      { thread with
        taskListCount := thread.taskListCount - limits
        holder := .moving limits [] }
    else some { thread with taskListCount := 0, holder := .movingAll }
  | .moving left requestList =>
    match thread.taskList with
    | [] => some { thread with holder := .taken requestList }
    | request :: rest => some
      { thread with
        taskList := rest
        holder := if left - 1 ≤ 0 then .taken (requestList ++ [request])
          else .moving (left - 1) (requestList ++ [request]) }
  | .movingAll => some { thread with taskList := [], holder := .taken thread.taskList }
  | .taken requestList => some
      { thread with
        holder := .free
        round := .working requestList
        rounds := thread.rounds ++ [requestList] }
  | _ => none

/-- What happens to a thread: some thread gets the lock for a push, a push goes on, a notification
is sent without a push, a notification is delivered, the callback reads a value of
`tdhs_group_commit_limits` (a read thread does not use it), gets the lock, goes on under the lock,
has executed its requests. -/
inductive LockedEvent (Request : Type)
  | lockForPush (request : Request)
  | push
  | notify
  | wakeup
  | readLimits (limits : ℤ)
  | lockForTake
  | take
  | finish
  deriving DecidableEq, Repr

/-- One event of a thread that is a write thread or not. -/
def lockedStep (needWrite : Bool) (thread : LockedThread Request) :
    LockedEvent Request → Option (LockedThread Request)
  | .lockForPush request =>
    match thread.holder with
    | .free => some { thread with holder := .pushing request }
    | _ => none
  | .push => pushStep thread
  | .notify => some { thread with isPending := true }
  | .wakeup =>
    match thread.round with
    | .idle =>
      if thread.isPending then some { thread with isPending := false, round := .entered } else none
    | _ => none
  | .readLimits limits =>
    match thread.round with
    | .entered => some { thread with round := .ready limits }
    | _ => none
  | .lockForTake =>
    match thread.holder, thread.round with
    | .free, .ready limits => some { thread with holder := .taking limits, round := .locked }
    | _, _ => none
  | .take => takeStep needWrite thread
  | .finish =>
    match thread.round with
    | .working _ => some { thread with round := .idle }
    | _ => none

/-! ### What an event does -/

/-- Everything an event does to a thread. -/
inductive Advances (needWrite : Bool) (thread : LockedThread Request) :
    LockedEvent Request → LockedThread Request → Prop
  | lockForPush (request : Request) (hfree : thread.holder = .free) :
      Advances needWrite thread (.lockForPush request) { thread with holder := .pushing request }
  | append (request : Request) (hholder : thread.holder = .pushing request) :
      Advances needWrite thread .push
        { thread with
          taskList := thread.taskList ++ [request]
          pushed := thread.pushed ++ [request]
          holder := .appended }
  | count (hholder : thread.holder = .appended) :
      Advances needWrite thread .push
        { thread with taskListCount := thread.taskListCount + 1, holder := .counted }
  | send (hholder : thread.holder = .counted) :
      Advances needWrite thread .push { thread with isPending := true, holder := .notified }
  | unlockPush (hholder : thread.holder = .notified) :
      Advances needWrite thread .push { thread with holder := .free }
  | notify : Advances needWrite thread .notify { thread with isPending := true }
  | wakeup (hidle : thread.round = .idle) (hpending : thread.isPending = true) :
      Advances needWrite thread .wakeup { thread with isPending := false, round := .entered }
  | readLimits (limits : ℤ) (hentered : thread.round = .entered) :
      Advances needWrite thread (.readLimits limits) { thread with round := .ready limits }
  | lockForTake (limits : ℤ) (hfree : thread.holder = .free)
      (hready : thread.round = .ready limits) :
      Advances needWrite thread .lockForTake
        { thread with holder := .taking limits, round := .locked }
  | takePart (limits : ℤ) (hholder : thread.holder = .taking limits)
      (hlimited : needWrite = true ∧ 0 < limits ∧ limits < thread.taskListCount) :
      Advances needWrite thread .take
        { thread with
          taskListCount := thread.taskListCount - limits
          holder := .moving limits [] }
  | takeWhole (limits : ℤ) (hholder : thread.holder = .taking limits)
      (hwhole : ¬(needWrite = true ∧ 0 < limits ∧ limits < thread.taskListCount)) :
      Advances needWrite thread .take { thread with taskListCount := 0, holder := .movingAll }
  | moveNone (left : ℤ) (requestList : List Request)
      (hholder : thread.holder = .moving left requestList) (hempty : thread.taskList = []) :
      Advances needWrite thread .take { thread with holder := .taken requestList }
  | moveLast (left : ℤ) (requestList rest : List Request) (request : Request)
      (hholder : thread.holder = .moving left requestList)
      (hlist : thread.taskList = request :: rest) (hlast : left - 1 ≤ 0) :
      Advances needWrite thread .take
        { thread with taskList := rest, holder := .taken (requestList ++ [request]) }
  | moveOne (left : ℤ) (requestList rest : List Request) (request : Request)
      (hholder : thread.holder = .moving left requestList)
      (hlist : thread.taskList = request :: rest) (hmore : ¬left - 1 ≤ 0) :
      Advances needWrite thread .take
        { thread with taskList := rest, holder := .moving (left - 1) (requestList ++ [request]) }
  | moveAll (hholder : thread.holder = .movingAll) :
      Advances needWrite thread .take
        { thread with taskList := [], holder := .taken thread.taskList }
  | unlockTake (requestList : List Request) (hholder : thread.holder = .taken requestList) :
      Advances needWrite thread .take
        { thread with
          holder := .free
          round := .working requestList
          rounds := thread.rounds ++ [requestList] }
  | finish (requestList : List Request) (hworking : thread.round = .working requestList) :
      Advances needWrite thread .finish { thread with round := .idle }

variable {needWrite : Bool} {thread after : LockedThread Request}

theorem advances_of_pushStep
    (hstep : pushStep thread = some after) : Advances needWrite thread .push after := by
  cases hholder : thread.holder <;> simp only [pushStep, hholder] at hstep <;> cases hstep
  case pushing request => exact .append request hholder
  case appended => exact .count hholder
  case counted => exact .send hholder
  case notified => exact .unlockPush hholder

theorem advances_of_takeStep
    (hstep : takeStep needWrite thread = some after) : Advances needWrite thread .take after := by
  cases hholder : thread.holder with
  | taking limits =>
    simp only [takeStep, hholder] at hstep
    split_ifs at hstep with hlimited
    · cases hstep
      exact .takePart limits hholder hlimited
    · cases hstep
      exact .takeWhole limits hholder hlimited
  | moving left requestList =>
    cases hlist : thread.taskList with
    | nil =>
      simp only [takeStep, hholder, hlist] at hstep
      cases hstep
      simpa only [hlist] using Advances.moveNone left requestList hholder hlist
    | cons request rest =>
      simp only [takeStep, hholder, hlist] at hstep
      cases hstep
      split_ifs with hlast
      · exact .moveLast left requestList rest request hholder hlist hlast
      · exact .moveOne left requestList rest request hholder hlist hlast
  | movingAll =>
    simp only [takeStep, hholder] at hstep
    cases hstep
    exact .moveAll hholder
  | taken requestList =>
    simp only [takeStep, hholder] at hstep
    cases hstep
    exact .unlockTake requestList hholder
  | _ => simp [takeStep, hholder] at hstep

variable {event : LockedEvent Request} {left : ℤ}

theorem advances_of_step (hstep : lockedStep needWrite thread event = some after) :
    Advances needWrite thread event after := by
  cases event with
  | lockForPush request =>
    cases hholder : thread.holder <;> simp only [lockedStep, hholder] at hstep <;> cases hstep
    exact .lockForPush request hholder
  | push => exact advances_of_pushStep hstep
  | notify =>
    cases hstep
    exact .notify
  | wakeup =>
    cases hround : thread.round <;> simp only [lockedStep, hround] at hstep
    case idle =>
      split_ifs at hstep with hpending
      cases hstep
      exact .wakeup hround hpending
    all_goals cases hstep
  | readLimits limits =>
    cases hround : thread.round <;> simp only [lockedStep, hround] at hstep <;> cases hstep
    exact .readLimits limits hround
  | lockForTake =>
    simp only [lockedStep] at hstep
    split at hstep
    · rename_i limits hfree hready
      cases hstep
      exact .lockForTake limits hfree hready
    · cases hstep
  | take => exact advances_of_takeStep hstep
  | finish =>
    cases hround : thread.round <;> simp only [lockedStep, hround] at hstep <;> cases hstep
    exact .finish _ hround

/-! ### The order and the count -/

/-- The requests on their way into a round. -/
def inTransit : Holder Request → List Request
  | .moving _ requestList => requestList
  | .taken requestList => requestList
  | _ => []

/-- How far the count is from the length of the list. -/
def CountsTo (count length : ℤ) : Holder Request → Prop
  | .appended => 0 ≤ count ∧ count + 1 = length
  | .counted => 0 < count ∧ count = length
  | .moving left _ => 0 < left ∧ 0 ≤ count ∧ count + left = length
  | .movingAll => count = 0
  | _ => count = length

/-- The callback has the lock. -/
def IsTaking : Holder Request → Prop
  | .taking _ => True
  | .moving _ _ => True
  | .movingAll => True
  | .taken _ => True
  | _ => False

/-- The state of the list and of the round at every statement. -/
structure IsQueued (thread : LockedThread Request) : Prop where
  order : thread.rounds.flatten ++ inTransit thread.holder ++ thread.taskList = thread.pushed
  count : CountsTo thread.taskListCount thread.taskList.length thread.holder
  locked : IsTaking thread.holder → thread.round = .locked
  working : ∀ requestList, thread.round = .working requestList →
    ∃ earlier, thread.rounds = earlier ++ [requestList]

theorem isQueued_new : IsQueued (newLockedThread : LockedThread Request) where
  order := rfl
  count := rfl
  locked htaking := htaking.elim
  working _ hworking := by cases hworking

/-- Every event keeps the order, the count and the round. -/
theorem IsQueued.advances (hqueued : IsQueued thread)
    (hadvances : Advances needWrite thread event after) : IsQueued after := by
  obtain ⟨horder, hcount, hlocked, hworking⟩ := hqueued
  cases hadvances with
  | lockForPush request hfree =>
    rw [hfree] at horder hcount
    exact ⟨horder, hcount, False.elim, hworking⟩
  | append request hholder =>
    rw [hholder] at horder hcount
    simp only [CountsTo] at hcount
    refine ⟨?_, ⟨?_, ?_⟩, False.elim, hworking⟩
    · simpa [inTransit] using congrArg (· ++ [request]) horder
    · simp [hcount]
    · simp [hcount]
  | count hholder =>
    rw [hholder] at horder hcount
    exact ⟨horder, ⟨Int.lt_add_one_iff.mpr hcount.1, hcount.2⟩, False.elim, hworking⟩
  | send hholder =>
    rw [hholder] at horder hcount
    exact ⟨horder, hcount.2, False.elim, hworking⟩
  | unlockPush hholder =>
    rw [hholder] at horder hcount
    exact ⟨horder, hcount, False.elim, hworking⟩
  | notify => exact ⟨horder, hcount, hlocked, hworking⟩
  | wakeup hidle hpending =>
    refine ⟨horder, hcount, fun htaking ↦ ?_, fun requestList hround ↦ by cases hround⟩
    rw [hlocked htaking] at hidle
    cases hidle
  | readLimits limits hentered =>
    refine ⟨horder, hcount, fun htaking ↦ ?_, fun requestList hround ↦ by cases hround⟩
    rw [hlocked htaking] at hentered
    cases hentered
  | lockForTake limits hfree hready =>
    rw [hfree] at horder hcount
    exact ⟨horder, hcount, fun _ ↦ rfl, fun requestList hround ↦ by cases hround⟩
  | takePart limits hholder hlimited =>
    rw [hholder] at horder hcount hlocked
    refine ⟨horder, ⟨hlimited.2.1, ?_, ?_⟩, fun _ ↦ hlocked trivial, hworking⟩
    · exact Int.sub_nonneg_of_le (Int.le_of_lt hlimited.2.2)
    · exact (Int.sub_add_cancel _ _).trans hcount
  | takeWhole limits hholder hwhole =>
    rw [hholder] at horder hcount hlocked
    exact ⟨horder, rfl, fun _ ↦ hlocked trivial, hworking⟩
  | moveNone left requestList hholder hempty =>
    -- the loop does not run out of requests: fewer are to be moved than there are
    rw [hholder, hempty] at hcount
    obtain ⟨hleft, hnonneg, hlength⟩ := hcount
    rw [List.length_nil] at hlength
    omega
  | moveLast left requestList rest request hholder hlist hlast =>
    rw [hholder] at horder hcount hlocked
    rw [hlist] at horder hcount
    obtain ⟨hleft, hnonneg, hlength⟩ := hcount
    rw [List.length_cons] at hlength
    refine ⟨by simpa [inTransit] using horder, ?_, fun _ ↦ hlocked trivial, hworking⟩
    show thread.taskListCount = (rest.length : ℤ)
    omega
  | moveOne left requestList rest request hholder hlist hmore =>
    rw [hholder] at horder hcount hlocked
    rw [hlist] at horder hcount
    obtain ⟨hleft, hnonneg, hlength⟩ := hcount
    rw [List.length_cons] at hlength
    refine ⟨by simpa [inTransit] using horder, ⟨by omega, hnonneg, ?_⟩,
      fun _ ↦ hlocked trivial, hworking⟩
    show thread.taskListCount + (left - 1) = (rest.length : ℤ)
    omega
  | moveAll hholder =>
    rw [hholder] at horder hcount hlocked
    exact ⟨by simpa [inTransit] using horder, hcount, fun _ ↦ hlocked trivial, hworking⟩
  | unlockTake requestList hholder =>
    rw [hholder] at horder hcount
    refine ⟨by simpa [inTransit] using horder, hcount, False.elim, fun other hround ↦ ?_⟩
    cases hround
    exact ⟨thread.rounds, rfl⟩
  | finish requestList hround =>
    refine ⟨horder, hcount, fun htaking ↦ ?_, fun other hidle ↦ by cases hidle⟩
    rw [hlocked htaking] at hround
    cases hround

theorem isQueued_of_reached {Meets : LockedThread Request →
    LockedEvent Request → Prop}
    (hreached : Reached (lockedStep needWrite) Meets newLockedThread thread) : IsQueued thread :=
  hreached.invariant IsQueued isQueued_new
    fun hqueued _ hstep ↦ hqueued.advances (advances_of_step hstep)

/-! ### The sections as a whole -/

section

variable (thread : LockedThread Request)

/-- The task list of the wakeup model: a push is done when its notification is sent, the callback
has its requests when it has read the count. -/
def wholeList : List Request :=
  match thread.holder with
  | .appended => thread.taskList.dropLast
  | .counted => thread.taskList.dropLast
  | .moving left _ => thread.taskList.drop left.toNat
  | .movingAll => []
  | _ => thread.taskList

/-- The callback of the wakeup model. -/
def wholeCallback : Callback Request :=
  match thread.holder with
  | .moving left requestList => .working (requestList ++ thread.taskList.take left.toNat)
  | .movingAll => .working thread.taskList
  | .taken requestList => .working requestList
  | _ =>
    match thread.round with
    | .idle => .idle
    | .working requestList => .working requestList
    | _ => .entered

/-- The requests of the callbacks that have ended. -/
def finishedRounds : List Request :=
  match thread.round with
  | .working _ => thread.rounds.dropLast.flatten
  | _ => thread.rounds.flatten

/-- The thread of the wakeup model, in which the sections under the lock are one event. -/
def wholeSections : EasyRequestThread Request where
  taskList := wholeList thread
  taskListCount := (wholeList thread).length
  isPending := thread.isPending
  callback := wholeCallback thread
  finished := finishedRounds thread

end

/-- The callbacks of a run take all the requests they find: where one has the lock, there is no
limit or the count is within it. -/
def TakesAllLocked (needWrite : Bool) (thread : LockedThread Request) :
    LockedEvent Request → Prop
  | .take => ∀ limits, thread.holder = .taking limits → needWrite = true → 0 < limits →
      thread.taskListCount ≤ limits
  | _ => True

instance (needWrite : Bool) (thread : LockedThread Request) :
    (event : LockedEvent Request) → Decidable (TakesAllLocked needWrite thread event)
  | .take =>
    match hholder : thread.holder with
    | .taking limits =>
      decidable_of_iff (needWrite = true → 0 < limits → thread.taskListCount ≤ limits)
        ⟨fun hall _ hlimits ↦ Holder.taking.inj (hholder.symm.trans hlimits) ▸ hall,
          fun hall ↦ hall limits hholder⟩
    | .free | .pushing _ | .appended | .counted | .notified | .moving _ _ | .movingAll | .taken _ =>
      .isTrue fun _ hlimits ↦ nomatch hholder.symm.trans hlimits
  | .lockForPush _ | .push | .notify | .wakeup | .readLimits _ | .lockForTake | .finish =>
    .isTrue trivial

theorem wholeCallback_of_not_taking
    (hfree : ¬IsTaking thread.holder) : wholeCallback thread =
      match thread.round with
      | .idle => .idle
      | .working requestList => .working requestList
      | _ => .entered := by
  unfold wholeCallback
  cases hholder : thread.holder with
  | moving left requestList => exact absurd (by rw [hholder]; trivial) hfree
  | movingAll => exact absurd (by rw [hholder]; trivial) hfree
  | taken requestList => exact absurd (by rw [hholder]; trivial) hfree
  | _ => rfl

/-- A limited callback that goes on has one request more to move than behind this one. -/
theorem toNat_left (hmore : ¬left - 1 ≤ 0) : left.toNat = (left - 1).toNat + 1 := by
  omega

/-- Every statement is a whole section of the wakeup model, or leaves its thread as it is. -/
theorem IsQueued.simulates (hqueued : IsQueued thread)
    (hadvances : Advances needWrite thread event after) :
    wholeSections after = wholeSections thread ∨
      ∃ whole, (TakesAllLocked needWrite thread event →
          TakesAllAt needWrite (wholeSections thread) whole) ∧
        step needWrite (wholeSections thread) whole = some (wholeSections after) := by
  obtain ⟨-, hcount, hlocked, hworking⟩ := hqueued
  cases hadvances with
  | lockForPush request hfree =>
    left
    simp [wholeSections, wholeList, wholeCallback, finishedRounds, hfree]
  | append request hholder =>
    left
    simp [wholeSections, wholeList, wholeCallback, finishedRounds, hholder]
  | count hholder =>
    left
    simp [wholeSections, wholeList, wholeCallback, finishedRounds, hholder]
  | send hholder =>
    rw [hholder] at hcount
    rcases List.eq_nil_or_concat thread.taskList with hempty | ⟨earlier, request, hlist⟩
    · -- the request that the push appended is in the list
      rw [hempty, List.length_nil] at hcount
      have hpositive := hcount.1
      have hzero := hcount.2
      omega
    · refine Or.inr ⟨.push request 0 0, fun _ ↦ trivial, ?_⟩
      simp [step, easyThreadPoolPushForLimited, easyThreadPoolPush, wholeSections, wholeList,
        wholeCallback, finishedRounds, hholder, hlist]
  | unlockPush hholder =>
    left
    simp [wholeSections, wholeList, wholeCallback, finishedRounds, hholder]
  | notify => exact Or.inr ⟨.notify, fun _ ↦ trivial, rfl⟩
  | wakeup hidle hpending =>
    have hfree : ¬IsTaking thread.holder := mt hlocked (by simp [hidle])
    refine Or.inr ⟨.wakeup, fun _ ↦ trivial, ?_⟩
    simp [step, wholeSections, wholeCallback_of_not_taking, hfree, hidle, hpending, wholeList,
      finishedRounds]
  | readLimits limits hentered =>
    have hfree : ¬IsTaking thread.holder := mt hlocked (by simp [hentered])
    left
    simp [wholeSections, wholeCallback_of_not_taking, hfree, hentered, wholeList, finishedRounds]
  | lockForTake limits hfree hready =>
    left
    simp [wholeSections, wholeList, wholeCallback, finishedRounds, hfree, hready]
  | takePart limits hholder hlimited =>
    rw [hholder] at hcount hlocked
    rw [hcount] at hlimited
    refine Or.inr ⟨.take limits, fun hall hwrite hpositive ↦ ?_, ?_⟩
    · have hwithin := hall limits hholder hwrite hpositive
      rw [hcount] at hwithin
      simpa [wholeSections, wholeList, hholder] using hwithin
    · simp [step, takeRequests, wholeSections, wholeList, wholeCallback, finishedRounds, hholder,
        hlocked trivial, hlimited]
  | takeWhole limits hholder hwhole =>
    rw [hholder] at hcount hlocked
    rw [hcount] at hwhole
    refine Or.inr ⟨.take limits, fun hall hwrite hpositive ↦ ?_, ?_⟩
    · have hwithin := hall limits hholder hwrite hpositive
      rw [hcount] at hwithin
      simpa [wholeSections, wholeList, hholder] using hwithin
    · simp [step, takeRequests, wholeSections, wholeList, wholeCallback, finishedRounds, hholder,
        hlocked trivial, hwhole]
  | moveNone left requestList hholder hempty =>
    rw [hholder, hempty] at hcount
    obtain ⟨hleft, hnonneg, hlength⟩ := hcount
    rw [List.length_nil] at hlength
    omega
  | moveLast left requestList rest request hholder hlist hlast =>
    rw [hholder] at hcount
    have hone : left = 1 := by
      have hleft := hcount.1
      omega
    left
    simp [wholeSections, wholeList, wholeCallback, finishedRounds, hholder, hlist, hone]
  | moveOne left requestList rest request hholder hlist hmore =>
    left
    simp only [wholeSections, wholeList, wholeCallback, finishedRounds, hholder, hlist,
      toNat_left hmore, List.drop_succ_cons, List.take_succ_cons, List.append_assoc,
      List.singleton_append]
  | moveAll hholder =>
    left
    simp [wholeSections, wholeList, wholeCallback, finishedRounds, hholder]
  | unlockTake requestList hholder =>
    rw [hholder] at hlocked
    left
    simp [wholeSections, wholeList, wholeCallback, finishedRounds, hholder, hlocked trivial]
  | finish requestList hround =>
    have hfree : ¬IsTaking thread.holder := mt hlocked (by simp [hround])
    obtain ⟨earlier, hrounds⟩ := hworking requestList hround
    refine Or.inr ⟨.finish, fun _ ↦ trivial, ?_⟩
    simp [step, wholeSections, wholeCallback_of_not_taking, hfree, hround, wholeList,
      finishedRounds, hrounds]

/-- The runs of the statements are runs of the whole sections. -/
theorem reached_wholeSections
    (hreached : Reached (lockedStep needWrite) (TakesAllLocked needWrite) newLockedThread thread) :
    Reached (step needWrite) (TakesAllAt needWrite) newThread (wholeSections thread) := by
  refine hreached.simulated wholeSections fun hbefore hall hstep ↦ ?_
  rcases (isQueued_of_reached hbefore).simulates (advances_of_step hstep) with
    hsame | ⟨whole, hmeets, hwhole⟩
  · exact Or.inl hsame
  · exact Or.inr ⟨whole, hmeets hall, hwhole⟩

/-! ### The queue -/

/-- The lock is free, and no wakeup is pending or running. -/
def IsQuiet (thread : LockedThread Request) : Prop :=
  thread.holder = .free ∧ thread.isPending = false ∧ thread.round = .idle

instance (thread : LockedThread Request) [DecidableEq Request] : Decidable (IsQuiet thread) :=
  inferInstanceAs (Decidable (_ ∧ _))

/-- In runs whose callbacks take all they find, a quiet thread has an empty list. -/
theorem taskList_of_isQuiet
    (hreached : Reached (lockedStep needWrite) (TakesAllLocked needWrite) newLockedThread thread)
    (hquiet : IsQuiet thread) : thread.taskList = [] := by
  obtain ⟨hfree, hpending, hidle⟩ := hquiet
  have hawaited : IsAwaited (wholeSections thread) :=
    (reached_wholeSections hreached).invariant IsAwaited (fun hsome ↦ absurd rfl hsome)
      fun hbefore hall hstep ↦ hbefore.step hall hstep
  by_contra hsome
  have hlist : (wholeSections thread).taskList ≠ [] := by
    simpa [wholeSections, wholeList, hfree] using hsome
  rcases hawaited hlist with hwakeup | hentered
  · simp [wholeSections, hpending] at hwakeup
  · simp [wholeSections, wholeCallback, hfree, hidle] at hentered

/-- What the list holds when the callback gives the lock back. -/
def remaining (needWrite : Bool) (thread : LockedThread Request) : List Request :=
  match thread.holder with
  | .taking limits =>
    if needWrite = true ∧ 0 < limits ∧ limits < thread.taskListCount then
      thread.taskList.drop limits.toNat
    else []
  | .moving left _ => thread.taskList.drop left.toNat
  | .movingAll => []
  | _ => thread.taskList

/-- The statements of the callback keep what will remain. -/
theorem IsQueued.remaining_take
    (hqueued : IsQueued thread) (hadvances : Advances needWrite thread .take after) :
    remaining needWrite after = remaining needWrite thread := by
  have hcount := hqueued.count
  cases hadvances with
  | takePart limits hholder hlimited => simp [remaining, hholder, hlimited]
  | takeWhole limits hholder hwhole => simp [remaining, hholder, hwhole]
  | moveNone left requestList hholder hempty => simp [remaining, hholder, hempty]
  | moveLast left requestList rest request hholder hlist hlast =>
    rw [hholder] at hcount
    have hone : left = 1 := by
      have hleft := hcount.1
      omega
    simp [remaining, hholder, hlist, hone]
  | moveOne left requestList rest request hholder hlist hmore =>
    simp only [remaining, hholder, hlist, toNat_left hmore, List.drop_succ_cons]
  | moveAll hholder => simp [remaining, hholder]
  | unlockTake requestList hholder => simp [remaining, hholder]

/-- Only the callback goes on. -/
def OnlyTakes (_ : LockedThread Request) (event : LockedEvent Request) : Prop := event = .take

theorem remaining_of_onlyTakes
    (hqueued : IsQueued thread)
    (hreached : Reached (lockedStep needWrite) OnlyTakes thread after) :
    IsQueued after ∧ remaining needWrite after = remaining needWrite thread := by
  refine hreached.invariant (fun state ↦ IsQueued state ∧
    remaining needWrite state = remaining needWrite thread) ⟨hqueued, rfl⟩ ?_
  rintro before successor event ⟨hbefore, hsame⟩ rfl hstep
  have hadvances := advances_of_step hstep
  exact ⟨hbefore.advances hadvances, (hbefore.remaining_take hadvances).trans hsame⟩

/-- Whenever the lock is free, the count is the length of the list and the requests of the rounds,
followed by those in the list, are the pushed ones in order. In every run whose callbacks take all
the requests they find, a quiet thread has taken every pushed request into a round exactly once. A
callback that no push interrupts leaves no request outside the rounds exactly when it is such a
one. -/
theorem request_queue (needWrite : Bool) :
    (∀ thread : LockedThread Request,
      Reached (lockedStep needWrite) anyEvent newLockedThread thread → thread.holder = .free →
      thread.taskListCount = thread.taskList.length ∧
        thread.rounds.flatten ++ thread.taskList = thread.pushed) ∧
    (∀ thread : LockedThread Request,
      Reached (lockedStep needWrite) (TakesAllLocked needWrite) newLockedThread thread →
      IsQuiet thread → thread.rounds.flatten = thread.pushed) ∧
    ∀ (thread after : LockedThread Request) (limits : ℤ),
      Reached (lockedStep needWrite) anyEvent newLockedThread thread →
      thread.holder = .taking limits →
      Reached (lockedStep needWrite) OnlyTakes thread after → after.holder = .free →
      (after.rounds.flatten = after.pushed ↔ TakesAllLocked needWrite thread .take) := by
  have hfreeOrder : ∀ {thread : LockedThread Request}, IsQueued thread →
      thread.holder = .free → thread.taskListCount = thread.taskList.length ∧
        thread.rounds.flatten ++ thread.taskList = thread.pushed := by
    intro thread hqueued hfree
    have horder := hqueued.order
    have hcount := hqueued.count
    rw [hfree] at horder hcount
    exact ⟨hcount, by simpa [inTransit] using horder⟩
  refine ⟨fun thread hreached hfree ↦ hfreeOrder (isQueued_of_reached hreached) hfree, ?_, ?_⟩
  · intro thread hreached hquiet
    have horder := (hfreeOrder (isQueued_of_reached hreached) hquiet.1).2
    rwa [taskList_of_isQuiet hreached hquiet, List.append_nil] at horder
  · intro thread after limits hreached hholder hafter hfree
    have hqueued := isQueued_of_reached hreached
    obtain ⟨hqueuedAfter, hremaining⟩ := remaining_of_onlyTakes hqueued hafter
    have horder := (hfreeOrder hqueuedAfter hfree).2
    have hcount := hqueued.count
    rw [hholder] at hcount
    simp only [CountsTo] at hcount
    have hlist : after.taskList = remaining needWrite thread := by
      rw [← hremaining]
      simp [remaining, hfree]
    have hnone : after.rounds.flatten = after.pushed ↔ remaining needWrite thread = [] := by
      rw [← horder, ← hlist]
      simp
    rw [hnone]
    constructor
    · intro hempty other hother hwrite hpositive
      rw [hholder] at hother
      cases hother
      by_contra hmore
      have hlimited : needWrite = true ∧ 0 < limits ∧ limits < thread.taskListCount :=
        ⟨hwrite, hpositive, Int.not_le.mp hmore⟩
      simp only [remaining, hholder, if_pos hlimited, List.drop_eq_nil_iff] at hempty
      omega
    · intro hall
      simp only [remaining, hholder]
      rw [if_neg]
      rintro ⟨hwrite, hpositive, hmore⟩
      exact absurd (hall limits hholder hwrite hpositive) (Int.not_le.mpr hmore)

/-- The statements of a push. -/
def pushEvents (request : ℕ) : List (LockedEvent ℕ) :=
  [.lockForPush request, .push, .push, .push, .push]

/-- The statements of a callback that moves its requests in one go, or one request. -/
def callbackEvents (limits : ℤ) : List (LockedEvent ℕ) :=
  [.wakeup, .readLimits limits, .lockForTake, .take, .take, .take, .finish]

/-- Two rounds of a thread, with two requests and with one. -/
def twoRounds : List (LockedEvent ℕ) :=
  pushEvents 1 ++ pushEvents 2 ++ callbackEvents 2 ++ pushEvents 3 ++ callbackEvents 0

/-- A write thread whose callback has got the lock for two requests. -/
def takingThread : LockedThread ℕ := ⟨[1, 2], 2, false, .taking 2, .locked, [1, 2], []⟩

/-- The thread behind the section of its callback. -/
def takenThread : LockedThread ℕ := ⟨[], 0, false, .free, .working [1, 2], [1, 2], [[1, 2]]⟩

theorem request_queue_twoRounds :
    (∃ thread, run (lockedStep true) newLockedThread twoRounds = some thread ∧
      (thread.taskListCount = thread.taskList.length ∧
        thread.rounds.flatten ++ thread.taskList = thread.pushed) ∧
      IsQuiet thread ∧ thread.rounds = [[1, 2], [3]] ∧ thread.rounds.flatten = thread.pushed) ∧
    (takenThread.rounds.flatten = takenThread.pushed ↔
      TakesAllLocked true takingThread .take) := by
  have hrun : run (lockedStep true) newLockedThread twoRounds =
      some ⟨[], 0, false, .free, .idle, [1, 2, 3], [[1, 2], [3]]⟩ := by decide
  have hall : run (guarded (lockedStep true) (TakesAllLocked true)) newLockedThread twoRounds =
      some ⟨[], 0, false, .free, .idle, [1, 2, 3], [[1, 2], [3]]⟩ := by decide
  have htaking : run (lockedStep true) newLockedThread
      (pushEvents 1 ++ pushEvents 2 ++ (callbackEvents 2).take 3) = some takingThread := by decide
  have htaken : run (lockedStep true) takingThread [.take, .take, .take] = some takenThread := by
    decide
  refine ⟨⟨_, hrun, (request_queue true).1 _ (reached_run .start (fun _ _ _ ↦ trivial) hrun) rfl,
    by decide, rfl, (request_queue true).2.1 _ (reached_guarded .start hall) (by decide)⟩, ?_⟩
  exact (request_queue true).2.2 takingThread takenThread 2
    (reached_run .start (fun _ _ _ ↦ trivial) htaking) rfl
    (reached_run .start (by simp [OnlyTakes]) htaken) rfl

/-- Two pushes and one wakeup of a write thread that takes one request at a time. -/
def limitedRound : List (LockedEvent ℕ) := pushEvents 1 ++ pushEvents 2 ++ callbackEvents 1

theorem pushed_request_never_taken :
    ∃ thread, run (lockedStep true) newLockedThread limitedRound = some thread ∧
      IsQuiet thread ∧ thread.rounds.flatten ≠ thread.pushed :=
  ⟨⟨[2], 1, false, .free, .idle, [1, 2], [[1]]⟩, by decide, by decide, by decide⟩

end TdhSocket.RequestThread.Locked
