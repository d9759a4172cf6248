import Mathlib.Data.Int.Notation
import TdhSocket.Library.Runs

/-!
# The task list of a request thread

`easy_request.c` and `tdh_socket_request_thread.cpp`. IO threads append requests to the task list
of a request thread and notify it with `ev_async_send`; notifications that have not been delivered
are one. The event loop of the thread delivers a notification by running `tdhs_request_on_wakeup`,
which takes requests from the list under the lock of the thread and then executes them. A write
thread takes at most `tdhs_group_commit_limits` requests at a time when that number is positive.

The callback is cut where other threads can come between: it is entered, it takes its requests
under the lock, and it ends. `no_stranded_requests` says when no request is left in the list
without a wakeup to come: a wakeup that takes all the requests it finds leaves none behind, one
that takes a part of them does, because it does not notify the thread again.
-/

set_option autoImplicit false

namespace TdhSocket.RequestThread

open Library

variable {Request : Type}

/-! ### The thread -/

/-- Where the thread is in `tdhs_request_on_wakeup`. -/
inductive Callback (Request : Type)
  | idle
  | entered
  | working (requestList : List Request)
  deriving DecidableEq, Repr

/-- `easy_request_thread_t`: the task list with its count, whether a notification is to be
delivered, and the requests whose callback has ended, in order. -/
structure EasyRequestThread (Request : Type) where
  taskList : List Request
  taskListCount : ℕ
  isPending : Bool
  callback : Callback Request
  finished : List Request
  deriving DecidableEq, Repr

/-- A thread that was started. -/
def newThread : EasyRequestThread Request := ⟨[], 0, false, .idle, []⟩

/-- `easy_thread_pool_push`, the part under the lock of the thread. -/
def easyThreadPoolPush (thread : EasyRequestThread Request) (request : Request) :
    EasyRequestThread Request :=
  { thread with
    taskList := thread.taskList ++ [request]
    taskListCount := thread.taskListCount + 1
    isPending := true }

/-- `easy_thread_pool_push_for_limited`, which refuses the request when there is a limit and more
requests than that were in the list. It reads the count and pushes under two holds of the lock:
`taskCount` is what it read, and other threads may have come between. -/
def easyThreadPoolPushForLimited (thread : EasyRequestThread Request) (request : Request)
    (limit taskCount : ℕ) : EasyRequestThread Request :=
  if 0 < limit ∧ limit < taskCount then thread else easyThreadPoolPush thread request

/-- The part of `tdhs_request_on_wakeup` under the lock: the requests it takes, and the thread. -/
def takeRequests (needWrite : Bool) (limits : ℤ) (thread : EasyRequestThread Request) :
    List Request × EasyRequestThread Request :=
  if needWrite = true ∧ 0 < limits ∧ limits < thread.taskListCount then
    (thread.taskList.take limits.toNat,
      { thread with
        taskList := thread.taskList.drop limits.toNat
        taskListCount := thread.taskListCount - limits.toNat })
  else (thread.taskList, { thread with taskList := [], taskListCount := 0 })

/-- What happens to a thread: a request is pushed, a notification is sent without one, a
notification is delivered, the callback takes its requests under a value of
`tdhs_group_commit_limits`, it ends. -/
inductive Event (Request : Type)
  | push (request : Request) (limit taskCount : ℕ)
  | notify
  | wakeup
  | take (limits : ℤ)
  | finish
  deriving DecidableEq, Repr

/-- One event of a thread that is a write thread or not. -/
def step (needWrite : Bool) (thread : EasyRequestThread Request) :
    Event Request → Option (EasyRequestThread Request)
  | .push request limit taskCount =>
    some (easyThreadPoolPushForLimited thread request limit taskCount)
  | .notify => some { thread with isPending := true }
  | .wakeup =>
    match thread.callback with
    | .idle =>
      if thread.isPending then some { thread with isPending := false, callback := .entered }
      else none
    | _ => none
  | .take limits =>
    match thread.callback with
    | .entered =>
      let taken := takeRequests needWrite limits thread
      some { taken.2 with callback := .working taken.1 }
    | _ => none
  | .finish =>
    match thread.callback with
    | .working requestList =>
      some { thread with callback := .idle, finished := thread.finished ++ requestList }
    | _ => none

/-! ### What an event does -/

variable {needWrite : Bool} {thread after : EasyRequestThread Request} {event : Event Request}

/-- Everything an event does to a thread. -/
theorem step_cases (hstep : step needWrite thread event = some after) :
    (∃ request limit taskCount, event = .push request limit taskCount ∧
      (after = thread ∨ after = easyThreadPoolPush thread request)) ∨
    (event = .notify ∧ after = { thread with isPending := true }) ∨
    (event = .wakeup ∧ thread.callback = .idle ∧ thread.isPending = true ∧
      after = { thread with isPending := false, callback := .entered }) ∨
    (∃ limits, event = .take limits ∧ thread.callback = .entered ∧
      after = { (takeRequests needWrite limits thread).2 with
        callback := .working (takeRequests needWrite limits thread).1 }) ∨
    (∃ requestList, event = .finish ∧ thread.callback = .working requestList ∧
      after = { thread with callback := .idle, finished := thread.finished ++ requestList }) := by
  cases event with
  | push request limit taskCount =>
    refine Or.inl ⟨request, limit, taskCount, rfl, ?_⟩
    cases hstep
    unfold easyThreadPoolPushForLimited
    split_ifs
    · exact Or.inl rfl
    · exact Or.inr rfl
  | notify =>
    cases hstep
    exact Or.inr (Or.inl ⟨rfl, rfl⟩)
  | wakeup =>
    refine Or.inr (Or.inr (Or.inl ⟨rfl, ?_⟩))
    cases hcallback : thread.callback with
    | idle =>
      simp only [step, hcallback] at hstep
      split_ifs at hstep with hpending
      cases hstep
      exact ⟨rfl, hpending, rfl⟩
    | entered => simp [step, hcallback] at hstep
    | working requestList => simp [step, hcallback] at hstep
  | take limits =>
    refine Or.inr (Or.inr (Or.inr (Or.inl ⟨limits, rfl, ?_⟩)))
    cases hcallback : thread.callback with
    | idle => simp [step, hcallback] at hstep
    | entered =>
      simp only [step, hcallback] at hstep
      exact ⟨rfl, (Option.some.inj hstep).symm⟩
    | working requestList => simp [step, hcallback] at hstep
  | finish =>
    refine Or.inr (Or.inr (Or.inr (Or.inr ?_)))
    cases hcallback : thread.callback with
    | idle => simp [step, hcallback] at hstep
    | entered => simp [step, hcallback] at hstep
    | working requestList =>
      simp only [step, hcallback] at hstep
      exact ⟨requestList, rfl, rfl, (Option.some.inj hstep).symm⟩

/-- The callback takes all the requests it finds under a value of `tdhs_group_commit_limits`. -/
def TakesAll (needWrite : Bool) (limits : ℤ) (thread : EasyRequestThread Request) : Prop :=
  needWrite = true → 0 < limits → (thread.taskListCount : ℤ) ≤ limits

theorem takeRequests_of_takesAll {limits : ℤ} (hall : TakesAll needWrite limits thread) :
    takeRequests needWrite limits thread =
      (thread.taskList, { thread with taskList := [], taskListCount := 0 }) := by
  unfold takeRequests
  rw [if_neg]
  rintro ⟨hwrite, hpositive, hmore⟩
  exact absurd (hall hwrite hpositive) (Int.not_le.mpr hmore)

/-! ### The count -/

/-- The count of the task list is its length. -/
def IsCounted (thread : EasyRequestThread Request) : Prop :=
  thread.taskListCount = thread.taskList.length

theorem IsCounted.step (hcounted : IsCounted thread)
    (hstep : step needWrite thread event = some after) : IsCounted after := by
  unfold IsCounted at hcounted ⊢
  rcases step_cases hstep with ⟨request, limit, taskCount, -, rfl | rfl⟩ | ⟨-, rfl⟩ |
    ⟨-, -, -, rfl⟩ | ⟨limits, -, -, rfl⟩ | ⟨requestList, -, -, rfl⟩
  · exact hcounted
  · simp [easyThreadPoolPush, hcounted]
  · exact hcounted
  · exact hcounted
  · unfold takeRequests
    split_ifs
    · simp [hcounted]
    · rfl
  · exact hcounted

/-! ### Requests that wait for nothing -/

/-- No wakeup is to come, and a request is in the list. -/
def IsStranded (thread : EasyRequestThread Request) : Prop :=
  thread.isPending = false ∧ thread.callback = .idle ∧ thread.taskList ≠ []

/-- Every callback of a run takes all the requests it finds. -/
def TakesAllAt (needWrite : Bool) (thread : EasyRequestThread Request) : Event Request → Prop
  | .take limits => TakesAll needWrite limits thread
  | _ => True

instance (needWrite : Bool) (thread : EasyRequestThread Request) :
    (event : Event Request) → Decidable (TakesAllAt needWrite thread event)
  | .take _ => inferInstanceAs (Decidable (_ → _ → _))
  | .push .. | .notify | .wakeup | .finish => inferInstanceAs (Decidable True)

/-- A request in the list has a wakeup to come that has not taken its requests yet. -/
def IsAwaited (thread : EasyRequestThread Request) : Prop :=
  thread.taskList ≠ [] → thread.isPending = true ∨ thread.callback = .entered

theorem IsAwaited.step (hawaited : IsAwaited thread)
    (hall : TakesAllAt needWrite thread event)
    (hstep : step needWrite thread event = some after) : IsAwaited after := by
  rcases step_cases hstep with ⟨request, limit, taskCount, -, rfl | rfl⟩ | ⟨-, rfl⟩ |
    ⟨-, -, -, rfl⟩ | ⟨limits, rfl, -, rfl⟩ | ⟨requestList, -, hworking, rfl⟩
  · exact hawaited
  · exact fun _ ↦ Or.inl rfl
  · exact fun _ ↦ Or.inl rfl
  · exact fun _ ↦ Or.inr rfl
  · intro htasks
    rw [takeRequests_of_takesAll hall] at htasks
    exact absurd rfl htasks
  · intro htasks
    rcases hawaited htasks with hpending | hentered
    · exact Or.inl hpending
    · rw [hworking] at hentered
      cases hentered

/-- A complete callback, with nothing coming between its parts. -/
theorem run_callback {limits : ℤ}
    (hrun : run (step needWrite) thread [.take limits, .finish] = some after) :
    after.taskList = (takeRequests needWrite limits thread).2.taskList ∧
      after.isPending = thread.isPending ∧ after.callback = .idle := by
  obtain ⟨middle, hmiddle, hrest⟩ := Option.bind_eq_some_iff.mp hrun
  obtain ⟨final, hfinal, hend⟩ := Option.bind_eq_some_iff.mp hrest
  cases hend
  rcases step_cases hmiddle with ⟨_, _, _, h, -⟩ | ⟨h, -⟩ | ⟨h, -⟩ | ⟨_, h, -, rfl⟩ | ⟨_, h, -⟩
  all_goals cases h
  rcases step_cases hfinal with ⟨_, _, _, h, -⟩ | ⟨h, -⟩ | ⟨h, -⟩ | ⟨_, h, -⟩ | ⟨_, -, -, rfl⟩
  all_goals try cases h
  refine ⟨rfl, ?_, rfl⟩
  unfold takeRequests
  split_ifs <;> rfl

/-- No request is stranded in any run whose callbacks take all the requests they find; and a
callback that runs without a further notification strands a request exactly when it does not. -/
theorem no_stranded_requests (needWrite : Bool) :
    (∀ thread : EasyRequestThread Request,
      Reached (step needWrite) (TakesAllAt needWrite) newThread thread → ¬IsStranded thread) ∧
    ∀ (thread after : EasyRequestThread Request) (limits : ℤ),
      Reached (step needWrite) anyEvent newThread thread → thread.isPending = false →
      run (step needWrite) thread [.take limits, .finish] = some after →
      (¬IsStranded after ↔ TakesAll needWrite limits thread) := by
  constructor
  · rintro thread hreached ⟨hpending, hidle, htasks⟩
    have hawaited : IsAwaited thread := hreached.invariant IsAwaited (fun h ↦ absurd rfl h)
      fun hbefore hall hstep ↦ hbefore.step hall hstep
    rcases hawaited htasks with hsome | hentered
    · rw [hpending] at hsome
      cases hsome
    · rw [hidle] at hentered
      cases hentered
  · intro thread after limits hreached hpending hrun
    obtain ⟨htasks, hafter, hidle⟩ := run_callback hrun
    have hcounted : thread.taskListCount = thread.taskList.length :=
      hreached.invariant IsCounted rfl fun hbefore _ hstep ↦ hbefore.step hstep
    constructor
    · intro hstranded hwrite hpositive
      by_contra hmore
      refine hstranded ⟨hafter.trans hpending, hidle, ?_⟩
      rw [htasks, takeRequests, if_pos ⟨hwrite, hpositive, Int.not_le.mp hmore⟩]
      intro hnone
      have hlength := congrArg List.length hnone
      simp only [List.length_drop, List.length_nil] at hlength
      omega
    · intro hall hstranded
      rw [takeRequests_of_takesAll hall] at htasks
      exact hstranded.2.2 htasks

/-- A write thread in the callback for two requests. -/
def enteredThread : EasyRequestThread ℕ := ⟨[1, 2], 2, false, .entered, []⟩

/-- Two callbacks, the first with a push between its entry and the lock. -/
def twoRounds : List (Event ℕ) :=
  [.push 1 0 0, .push 2 0 0, .wakeup, .push 3 0 0, .take 3, .finish, .push 4 0 0, .wakeup, .take 0,
    .finish]

theorem no_stranded_requests_twoRounds :
    (∃ thread, run (step true) newThread twoRounds = some thread ∧
      thread.finished = [1, 2, 3, 4] ∧ ¬IsStranded thread) ∧
    ∃ after, run (step true) enteredThread [.take 1, .finish] = some after ∧
      (¬IsStranded after ↔ TakesAll true 1 enteredThread) := by
  refine ⟨⟨⟨[], 0, false, .idle, [1, 2, 3, 4]⟩, by decide, rfl, ?_⟩, ⟨[2], 1, false, .idle, [1]⟩,
    by decide, ?_⟩
  · exact (no_stranded_requests true).1 _
      (reached_guarded .start (by decide : run (guarded _ _) newThread twoRounds = some _))
  · have hentered : run (step true) newThread [.push 1 0 0, .push 2 0 0, .wakeup] =
        some enteredThread := by decide
    exact (no_stranded_requests true).2 enteredThread _ 1
      (reached_run .start (fun _ _ _ ↦ trivial) hentered) rfl (by decide)

/-- Two pushed requests and one wakeup of a write thread that takes one request at a time. -/
def limitedWakeup : List (Event ℕ) := [.push 1 0 0, .push 2 0 0, .wakeup, .take 1, .finish]

theorem second_request_stranded :
    ∃ thread, run (step true) newThread limitedWakeup = some thread ∧ IsStranded thread :=
  ⟨⟨[2], 1, false, .idle, [1]⟩, by decide, rfl, rfl, by decide⟩

end TdhSocket.RequestThread
