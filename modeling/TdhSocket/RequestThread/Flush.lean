import Mathlib.Data.Fintype.Basic

/-!
# Handing the requests back to the IO threads

`tdhs_request_doreq_for_read`, `tdhs_request_doreq_for_write` and `tdhs_request_wakeup_ioth`. The
request thread collects finished requests in one list for each IO thread, on its stack; a list is
initialised when its flag is found clear, and whatever it holds behind a clear flag, its first
contents as well as what an earlier flush left there, is not used. After every 32 requests and at
the end, the flagged lists are joined to the request lists of their IO threads, which are
signalled.

What the thread does to the IO threads is a list of events: other threads, and the IO threads that
take their lists, come between them. `IsHanded` says what was joined and what waits behind a set
flag; a flush keeps it, and `delivery_to_io_threads` has both functions.
-/

set_option autoImplicit false

namespace TdhSocket.RequestThread.Flush

variable {Item Request State : Type} {ioThreadCount : ℕ}

/-! ### The lists on the stack -/

/-- What a request thread does to an IO thread under its lock: it appends to `request_list`, or it
sends the notification. -/
inductive IothEvent (Item : Type) (ioThreadCount : ℕ)
  | join (ioth : Fin ioThreadCount) (items : List Item)
  | asyncSend (ioth : Fin ioThreadCount)
  deriving DecidableEq, Repr

/-- `ioth_flag`, `ioth_list` and `cnt`, and what was done to the IO threads. -/
structure Outbox (Item : Type) (ioThreadCount : ℕ) where
  iothFlag : Fin ioThreadCount → Bool
  iothList : Fin ioThreadCount → List Item
  cnt : ℕ
  sent : List (IothEvent Item ioThreadCount)

/-- The locals at the start: the flags are cleared, the lists hold anything. -/
def newOutbox (stray : Fin ioThreadCount → List Item) : Outbox Item ioThreadCount :=
  ⟨fun _ ↦ false, stray, 0, []⟩

variable (ioth : Fin ioThreadCount)

/-- `easy_list_join`, which does nothing for an empty list. -/
def easyListJoin (items : List Item) : List (IothEvent Item ioThreadCount) :=
  if items.isEmpty then [] else [.join ioth items]

section

variable (outbox : Outbox Item ioThreadCount)

/-- One round of the loop of `tdhs_request_wakeup_ioth`. The list keeps its contents. -/
def wakeupOne (ioth : Fin ioThreadCount) : Outbox Item ioThreadCount :=
  if outbox.iothFlag ioth then
    { outbox with
      iothFlag := Function.update outbox.iothFlag ioth false
      sent := outbox.sent ++ (easyListJoin ioth (outbox.iothList ioth) ++ [.asyncSend ioth]) }
  else outbox

/-- `tdhs_request_wakeup_ioth`. -/
def tdhsRequestWakeupIoth : Outbox Item ioThreadCount :=
  (List.finRange ioThreadCount).foldl wakeupOne outbox

/-- The list of the IO thread is initialised if its flag is clear, the request is appended to it and
the flag is set. -/
def addTail (ioth : Fin ioThreadCount) (item : Item) : Outbox Item ioThreadCount :=
  let list := if outbox.iothFlag ioth then outbox.iothList ioth else []
  { outbox with
    iothList := Function.update outbox.iothList ioth (list ++ [item])
    iothFlag := Function.update outbox.iothFlag ioth true }

end

/-- A finished request is put into the list of its IO thread, and the lists are flushed after 32. -/
def handOver (iothOf : Item → Fin ioThreadCount) (outbox : Outbox Item ioThreadCount)
    (item : Item) : Outbox Item ioThreadCount :=
  let added := addTail outbox (iothOf item) item
  if 32 ≤ outbox.cnt + 1 then { tdhsRequestWakeupIoth added with cnt := 0 }
  else { added with cnt := outbox.cnt + 1 }

/-- The flush behind the loop. -/
def finalFlush (outbox : Outbox Item ioThreadCount) : Outbox Item ioThreadCount :=
  if 0 < outbox.cnt then tdhsRequestWakeupIoth outbox else outbox

/-! ### The two functions -/

/-- `EASY_OK`. -/
def easyOk : ℤ := 0

/-- `EASY_ERROR`. -/
def easyError : ℤ := -1

/-- `EASY_ASYNC`. -/
def easyAsync : ℤ := -3

/-- A request with its `retcode`. -/
structure Answer (Request : Type) where
  request : Request
  retcode : ℤ
  deriving DecidableEq, Repr

/-- What the functions call: whether the connection of a request is closed, `th->process`, opening
and locking the tables, `unlock_table` with its result, and the replacement of the packets of a
response after a failed commit, with the retcode it leaves. -/
structure Engine (State Request : Type) where
  isClosed : State → Request → Bool
  process : State → Request → State × ℤ
  lockTable : State → List Request → State
  unlockTable : State → State × ℤ
  rewrite : State → Answer Request → State × ℤ

variable (engine : Engine State Request)

/-- The process part of both loops: no answer for a request that returned `EASY_ASYNC`. -/
def answerOne (state : State) (request : Request) : State × Option (Answer Request) :=
  if engine.isClosed state request then (state, some ⟨request, easyError⟩)
  else
    let processed := engine.process state request
    if processed.2 = easyAsync then (processed.1, none)
    else (processed.1, some ⟨request, processed.2⟩)

section

variable (iothOf : Request → Fin ioThreadCount)

/-- The process loop of `tdhs_request_doreq_for_read`, which hands over as it goes. -/
def readLoop :
    State → Outbox (Answer Request) ioThreadCount → List Request →
      State × Outbox (Answer Request) ioThreadCount
  | state, outbox, [] => (state, outbox)
  | state, outbox, request :: requests =>
    let answered := answerOne engine state request
    match answered.2 with
    | none => readLoop answered.1 outbox requests
    | some answer =>
      readLoop answered.1 (handOver (fun one ↦ iothOf one.request) outbox answer)
        requests

/-- `tdhs_request_doreq_for_read`: what it does to the IO threads. -/
def tdhsRequestDoreqForRead (stray : Fin ioThreadCount → List (Answer Request)) (state : State)
    (requests : List Request) : List (IothEvent (Answer Request) ioThreadCount) :=
  if requests.isEmpty then []
  else
    let looped :=
      readLoop engine iothOf (engine.lockTable state requests) (newOutbox stray) requests
    (finalFlush looped.2).sent

/-- The process loop of `tdhs_request_doreq_for_write`, with `done_request`. -/
def doneLoop : State → List Request → State × List (Answer Request)
  | state, [] => (state, [])
  | state, request :: requests =>
    let answered := answerOne engine state request
    let rest := doneLoop answered.1 requests
    (rest.1, answered.2.toList ++ rest.2)

/-- The replacement of one response after a commit. -/
def rewriteOne (commitRet : ℤ) (state : State) (answer : Answer Request) : State × Answer Request :=
  if commitRet ≠ easyOk ∧ answer.retcode = easyOk then
    let rewritten := engine.rewrite state answer
    (rewritten.1, { answer with retcode := rewritten.2 })
  else (state, answer)

/-- The response loop of `tdhs_request_doreq_for_write`. -/
def responseLoop (commitRet : ℤ) :
    State → Outbox (Answer Request) ioThreadCount → List (Answer Request) →
      State × Outbox (Answer Request) ioThreadCount
  | state, outbox, [] => (state, outbox)
  | state, outbox, answer :: answers =>
    let rewritten := rewriteOne engine commitRet state answer
    responseLoop commitRet rewritten.1
      (handOver (fun one ↦ iothOf one.request) outbox rewritten.2) answers

/-- `tdhs_request_doreq_for_write`: what it does to the IO threads. -/
def tdhsRequestDoreqForWrite (stray : Fin ioThreadCount → List (Answer Request)) (state : State)
    (requests : List Request) : List (IothEvent (Answer Request) ioThreadCount) :=
  if requests.isEmpty then []
  else
    let done := doneLoop engine (engine.lockTable state requests) requests
    let committed := engine.unlockTable done.1
    let looped := responseLoop engine iothOf committed.2 committed.1 (newOutbox stray) done.2
    (finalFlush looped.2).sent

end

/-! ### What was handed over -/

/-- What was appended to the request list of an IO thread. -/
def joined (events : List (IothEvent Item ioThreadCount)) : List Item :=
  events.flatMap fun
    | .join other items => if other = ioth then items else []
    | .asyncSend _ => []

/-- Every IO thread is signalled after requests were appended. -/
def IsSignalled : List (IothEvent Item ioThreadCount) → Prop
  | [] => True
  | .join ioth _ :: events => .asyncSend ioth ∈ events ∧ IsSignalled events
  | .asyncSend _ :: events => IsSignalled events

theorem IsSignalled.append {first second : List (IothEvent Item ioThreadCount)}
    (hfirst : IsSignalled first) (hsecond : IsSignalled second) :
    IsSignalled (first ++ second) := by
  induction first with
  | nil => exact hsecond
  | cons event events ih =>
    cases event with
    | join ioth items => exact ⟨List.mem_append_left _ hfirst.1, ih hfirst.2⟩
    | asyncSend ioth => exact ih hfirst

theorem isSignalled_easyListJoin (items : List Item) :
    IsSignalled (easyListJoin ioth items ++ [.asyncSend ioth]) := by
  unfold easyListJoin
  split_ifs
  · exact trivial
  · exact ⟨List.mem_singleton_self _, trivial⟩

@[simp] theorem joined_append (first second : List (IothEvent Item ioThreadCount)) :
    joined ioth (first ++ second) = joined ioth first ++ joined ioth second := by
  simp [joined]

@[simp] theorem joined_easyListJoin (ioth other : Fin ioThreadCount) (items : List Item) :
    joined ioth (easyListJoin other items) = if other = ioth then items else [] := by
  unfold easyListJoin
  cases items with
  | nil => simp [joined]
  | cons item items => simp [joined]

@[simp] theorem joined_asyncSend (ioth other : Fin ioThreadCount) :
    joined ioth [(.asyncSend other : IothEvent Item ioThreadCount)] = [] := rfl

/-- What waits in the list of an IO thread. -/
def waiting (outbox : Outbox Item ioThreadCount) (ioth : Fin ioThreadCount) : List Item :=
  if outbox.iothFlag ioth then outbox.iothList ioth else []

/-- The items handed over so far are, for each IO thread and in order, those that were appended to
its request list and those that wait. -/
structure IsHanded (iothOf : Item → Fin ioThreadCount) (items : List Item)
    (outbox : Outbox Item ioThreadCount) : Prop where
  content : ∀ ioth, joined ioth outbox.sent ++ waiting outbox ioth =
    items.filter fun item ↦ iothOf item = ioth
  signalled : IsSignalled outbox.sent

variable {items : List Item} {iothOf : Item → Fin ioThreadCount}
  {outbox : Outbox Item ioThreadCount}

theorem IsHanded.wakeupOne (hhanded : IsHanded iothOf items outbox) (ioth : Fin ioThreadCount) :
    IsHanded iothOf items (wakeupOne outbox ioth) := by
  unfold Flush.wakeupOne
  split_ifs with hflag
  · refine ⟨fun other ↦ ?_, hhanded.signalled.append (isSignalled_easyListJoin ioth _)⟩
    rw [← hhanded.content other]
    by_cases hother : ioth = other
    · subst hother
      simp [waiting, hflag]
    · simp [waiting, hother, Function.update_of_ne (Ne.symm hother)]
  · exact hhanded

/-- Flushing some IO threads leaves nothing waiting for them. -/
theorem iothFlag_wakeup (threads : List (Fin ioThreadCount)) (outbox : Outbox Item ioThreadCount)
    (ioth : Fin ioThreadCount) (hclear : ioth ∈ threads ∨ outbox.iothFlag ioth = false) :
    (threads.foldl wakeupOne outbox).iothFlag ioth = false := by
  induction threads generalizing outbox with
  | nil => exact hclear.resolve_left List.not_mem_nil
  | cons thread threads ih =>
    refine ih (wakeupOne outbox thread) ?_
    by_cases hthread : thread = ioth
    · right
      unfold wakeupOne
      split_ifs with hflag
      · rw [hthread]
        exact Function.update_self ..
      · rw [← hthread]
        simpa using hflag
    · rcases hclear with hmem | hflag
      · exact Or.inl ((List.mem_cons.mp hmem).resolve_left (Ne.symm hthread))
      · right
        unfold wakeupOne
        split_ifs
        · exact (Function.update_of_ne (Ne.symm hthread) ..).trans hflag
        · exact hflag

theorem IsHanded.wakeup (hhanded : IsHanded iothOf items outbox) :
    IsHanded iothOf items (tdhsRequestWakeupIoth outbox) := by
  unfold tdhsRequestWakeupIoth
  exact List.foldlRecOn _ _ hhanded fun _ hbefore ioth _ ↦ hbefore.wakeupOne ioth

theorem iothFlag_wakeupIoth (outbox : Outbox Item ioThreadCount) (ioth : Fin ioThreadCount) :
    (tdhsRequestWakeupIoth outbox).iothFlag ioth = false :=
  iothFlag_wakeup _ outbox ioth (Or.inl (List.mem_finRange ioth))

theorem IsHanded.addTail (hhanded : IsHanded iothOf items outbox) (item : Item) :
    IsHanded iothOf (items ++ [item]) (addTail outbox (iothOf item) item) := by
  refine ⟨fun ioth ↦ ?_, hhanded.signalled⟩
  rw [List.filter_append, ← hhanded.content ioth]
  by_cases hioth : iothOf item = ioth
  · subst hioth
    simp [Flush.addTail, waiting]
  · simp [Flush.addTail, waiting, hioth, Function.update_of_ne (Ne.symm hioth)]

/-- A list that waits is counted, so that the last flush is not left out. -/
def IsCounted (outbox : Outbox Item ioThreadCount) : Prop :=
  outbox.cnt = 0 → ∀ ioth, outbox.iothFlag ioth = false

theorem isCounted_handOver (iothOf : Item → Fin ioThreadCount)
    (outbox : Outbox Item ioThreadCount) (item : Item) :
    IsCounted (handOver iothOf outbox item) := by
  intro hzero ioth
  unfold handOver at hzero ⊢
  by_cases hfull : 32 ≤ outbox.cnt + 1
  · simp only [hfull, if_true]
    exact iothFlag_wakeupIoth _ ioth
  · simp [hfull] at hzero

section

variable (hhanded : IsHanded iothOf items outbox)

include hhanded

theorem IsHanded.handOver (item : Item) :
    IsHanded iothOf (items ++ [item]) (handOver iothOf outbox item) := by
  have hadded := hhanded.addTail item
  unfold Flush.handOver
  split_ifs
  · exact ⟨hadded.wakeup.content, hadded.wakeup.signalled⟩
  · exact ⟨hadded.content, hadded.signalled⟩

/-- Any number of items handed over one after another. -/
theorem IsHanded.foldl (hcounted : IsCounted outbox) (further : List Item) :
    IsHanded iothOf (items ++ further) (further.foldl (Flush.handOver iothOf) outbox) ∧
      IsCounted (further.foldl (Flush.handOver iothOf) outbox) := by
  induction further generalizing items outbox with
  | nil => exact ⟨by simpa using hhanded, hcounted⟩
  | cons item further ih =>
    have hrest := ih (hhanded.handOver item) (isCounted_handOver iothOf outbox item)
    rwa [List.append_assoc, List.singleton_append] at hrest

/-- Behind the last flush, every item was appended to the request list of its IO thread. -/
theorem IsHanded.finalFlush (hcounted : IsCounted outbox) :
    (∀ ioth, joined ioth (finalFlush outbox).sent =
      items.filter fun item ↦ iothOf item = ioth) ∧ IsSignalled (finalFlush outbox).sent := by
  have hclear : IsHanded iothOf items (Flush.finalFlush outbox) ∧
      ∀ ioth, (Flush.finalFlush outbox).iothFlag ioth = false := by
    unfold Flush.finalFlush
    split_ifs with hsome
    · exact ⟨hhanded.wakeup, iothFlag_wakeupIoth outbox⟩
    · exact ⟨hhanded, hcounted (Nat.eq_zero_of_not_pos hsome)⟩
  refine ⟨fun ioth ↦ ?_, hclear.1.signalled⟩
  rw [← hclear.1.content ioth]
  simp [waiting, hclear.2 ioth]

end

/-! ### Every request that is not asynchronous -/

/-- The requests in the order they are processed, each with whether `th->process` returned
`EASY_ASYNC` for it. -/
def outcomes : State → List Request → List (Request × Bool)
  | _, [] => []
  | state, request :: requests =>
    let isAsync := !engine.isClosed state request &&
      (engine.process state request).2 == easyAsync
    let next := if engine.isClosed state request then state else (engine.process state request).1
    (request, isAsync) :: outcomes next requests

theorem map_fst_outcomes (state : State) (requests : List Request) :
    (outcomes engine state requests).map Prod.fst = requests := by
  induction requests generalizing state with
  | nil => rfl
  | cons request requests ih => simp [outcomes, ih]

/-- The requests that did not return `EASY_ASYNC`. -/
def answered (state : State) (requests : List Request) : List Request :=
  ((outcomes engine state requests).filter fun outcome ↦ !outcome.2).map Prod.fst

theorem map_request_doneLoop (state : State) (requests : List Request) :
    (doneLoop engine state requests).2.map Answer.request = answered engine state requests := by
  induction requests generalizing state with
  | nil => rfl
  | cons request requests ih =>
    by_cases hclosed : engine.isClosed state request
    · simp [doneLoop, answerOne, answered, outcomes, hclosed, ih]
    · by_cases hasync : (engine.process state request).2 = easyAsync
      · simp [doneLoop, answerOne, answered, outcomes, hclosed, hasync, ih]
      · simp [doneLoop, answerOne, answered, outcomes, hclosed, hasync, ih]

section

variable (iothOf : Request → Fin ioThreadCount)

/-- The read loop hands over the answers that the write loop collects. -/
theorem readLoop_eq (state : State) (outbox : Outbox (Answer Request) ioThreadCount)
    (requests : List Request) :
    readLoop engine iothOf state outbox requests =
      ((doneLoop engine state requests).1,
        (doneLoop engine state requests).2.foldl
          (handOver fun one ↦ iothOf one.request) outbox) := by
  induction requests generalizing state outbox with
  | nil => rfl
  | cons request requests ih =>
    rcases hanswer : answerOne engine state request with ⟨next, answer⟩
    cases answer with
    | none => simp [readLoop, doneLoop, hanswer, ih]
    | some answer => simp [readLoop, doneLoop, hanswer, ih]

@[simp] theorem request_rewriteOne (commitRet : ℤ) (state : State) (answer : Answer Request) :
    (rewriteOne engine commitRet state answer).2.request = answer.request := by
  unfold rewriteOne
  split_ifs <;> rfl

/-- The response loop hands over the same requests in the same order, whatever it replaces. -/
theorem responseLoop_eq (commitRet : ℤ) (state : State)
    (outbox : Outbox (Answer Request) ioThreadCount) (answers : List (Answer Request)) :
    ∃ rewritten : List (Answer Request),
      rewritten.map Answer.request = answers.map Answer.request ∧
      (responseLoop engine iothOf commitRet state outbox answers).2 =
        rewritten.foldl (handOver fun one ↦ iothOf one.request) outbox := by
  induction answers generalizing state outbox with
  | nil => exact ⟨[], rfl, rfl⟩
  | cons answer answers ih =>
    obtain ⟨rewritten, hsame, hloop⟩ := ih (rewriteOne engine commitRet state answer).1
      (handOver (fun one ↦ iothOf one.request) outbox
        (rewriteOne engine commitRet state answer).2)
    refine ⟨(rewriteOne engine commitRet state answer).2 :: rewritten, ?_, hloop⟩
    simp [hsame]

/-- What was done to the IO threads: each request of a list was appended once, to the request list
of the IO thread of its connection and in the order of the list, and the IO thread was signalled
after that. -/
def Delivers (requests : List Request) (events : List (IothEvent (Answer Request) ioThreadCount)) :
    Prop :=
  (∀ ioth, (joined ioth events).map Answer.request =
    requests.filter fun request ↦ iothOf request = ioth) ∧ IsSignalled events

/-- Handing over a list of answers from fresh locals, flush by flush. -/
theorem delivers_finalFlush (stray : Fin ioThreadCount → List (Answer Request))
    (answers : List (Answer Request)) :
    Delivers iothOf (answers.map Answer.request)
      (finalFlush (answers.foldl (handOver fun one ↦ iothOf one.request)
        (newOutbox stray))).sent := by
  have hnew : IsHanded (fun one : Answer Request ↦ iothOf one.request) [] (newOutbox stray) :=
    ⟨fun _ ↦ rfl, trivial⟩
  obtain ⟨hhanded, hcounted⟩ := hnew.foldl (fun _ _ ↦ rfl) answers
  obtain ⟨hjoined, hsignalled⟩ := hhanded.finalFlush hcounted
  refine ⟨fun ioth ↦ ?_, hsignalled⟩
  rw [hjoined ioth, List.nil_append, List.filter_map]
  rfl

end

/-- Both functions append every request that did not return `EASY_ASYNC` exactly once to the request
list of its own IO thread, in processing order, and signal every IO thread after what it got. -/
theorem delivery_to_io_threads (engine : Engine State Request)
    (iothOf : Request → Fin ioThreadCount) (stray : Fin ioThreadCount → List (Answer Request))
    (state : State) (requests : List Request) :
    (outcomes engine (engine.lockTable state requests) requests).map Prod.fst = requests ∧
    Delivers iothOf (answered engine (engine.lockTable state requests) requests)
      (tdhsRequestDoreqForRead engine iothOf stray state requests) ∧
    Delivers iothOf (answered engine (engine.lockTable state requests) requests)
      (tdhsRequestDoreqForWrite engine iothOf stray state requests) := by
  refine ⟨map_fst_outcomes engine _ requests, ?_, ?_⟩
  · cases requests with
    | nil => exact ⟨fun _ ↦ rfl, trivial⟩
    | cons request requests =>
      rw [← map_request_doneLoop]
      simp only [tdhsRequestDoreqForRead, List.isEmpty_cons, Bool.false_eq_true, if_false,
        readLoop_eq]
      exact delivers_finalFlush iothOf stray _
  · cases requests with
    | nil => exact ⟨fun _ ↦ rfl, trivial⟩
    | cons request requests =>
      simp only [tdhsRequestDoreqForWrite, List.isEmpty_cons, Bool.false_eq_true, if_false]
      obtain ⟨rewritten, hsame, hloop⟩ := responseLoop_eq engine iothOf
        (engine.unlockTable (doneLoop engine (engine.lockTable state (request :: requests))
          (request :: requests)).1).2
        (engine.unlockTable (doneLoop engine (engine.lockTable state (request :: requests))
          (request :: requests)).1).1
        (newOutbox stray) (doneLoop engine (engine.lockTable state (request :: requests))
          (request :: requests)).2
      rw [hloop, ← map_request_doneLoop, ← hsame]
      exact delivers_finalFlush iothOf stray rewritten

end TdhSocket.RequestThread.Flush
