import TdhSocket.Execute.BatchShape

/-!
# Requests that waited too long

The first part of `on_server_process`. The time-out of the handshake is a number of milliseconds in
a `uint32_t`, and so is its product with 1000 that is compared with the microseconds since the
packet was decoded. `request_time_out` says for which times the answer is that of the time-out in
milliseconds.

A request was executed if and only if `execute` was called on its first packet, which leaves it in
the list of the started packets (`Grows`).
-/

set_option autoImplicit false

namespace TdhSocket.Execute

open Protocol Decode Library Library.Program

variable {Outside Record Value Next : Type}

/-! ### Started packets -/

/-- No packet was taken from those that `execute` was called on. -/
def StartedMore (start final : Context Outside Record) : Prop := start.started <+: final.started

instance : Std.Refl (StartedMore : Context Outside Record → Context Outside Record → Prop) :=
  ⟨fun _ ↦ List.prefix_rfl⟩

instance : Trans (StartedMore : Context Outside Record → Context Outside Record → Prop)
    StartedMore StartedMore :=
  ⟨List.IsPrefix.trans⟩

/-- A program that takes no packet from those that `execute` was called on. -/
abbrev Grows (program : Execution Outside Record Value) : Prop := Along StartedMore program

variable {world : World Outside Record} {start final : Context Outside Record}

theorem Steps.startedMore {owners : Owner → Prop} {streams : Bool}
    (hsteps : Steps world owners streams start final) :
    StartedMore start final := by
  induction hsteps with
  | refl => exact List.prefix_rfl
  | tail _ hstep ih =>
    refine List.IsPrefix.trans ih ?_
    cases hstep with
    | moved _ hmove => rw [hmove.works.started]
    | called _ => exact List.prefix_rfl
    | noted _ _ _ _ _ => exact List.prefix_rfl
    | returned _ _ more => exact List.prefix_append _ more

theorem grows_dispatch (world : World Outside Record) (rounds : ℕ) (bulk : Bool)
    (work : Work Record) (rest : List (Work Record)) :
    Grows (dispatch world rounds bulk work rest (executeBatch world rounds bulk rest)) := by
  have hconducts := conducts_along world (fun _ ↦ True) true
  have hall : ∀ work : Work Record, IsConducted (fun _ ↦ True) true work := fun _ ↦
    ⟨trivial, fun _ ↦ rfl⟩
  have hloop := conducts_executeBatch hconducts (fun work (_ : work ∈ rest) ↦ hall work) bulk
  exact (conducts_dispatch hconducts (hall work) (fun _ other _ ↦ hall other) bulk
    (fun _ ↦ hloop) rounds).mono fun _ _ ↦ Steps.startedMore

/-! ### The time-out -/

/-- The test of `on_server_process`: the time-out in milliseconds, the time of the packet and the
present time in microseconds. -/
def isTimedOut (timeOut : UInt32) (startTime now : UInt64) : Bool :=
  if 0 < timeOut then
    let timeout := (timeOut * 1000).toUInt64
    decide (timeout < now - startTime)
  else false

section

variable (world : World Outside Record)

/-- The world in which `on_server_process` reads the clock for requests with a time-out. -/
def World.withClock (timeOut : ℕ → UInt32) (startTime : ℕ → UInt64)
    (clock : Outside → UInt64 × Outside) : World Outside Record :=
  { world with
    timedOut := fun number outside ↦
      if 0 < timeOut number then
        (isTimedOut (timeOut number) (startTime number) (clock outside).1, (clock outside).2)
      else (false, outside) }

/-- The test in numbers: the product with 1000 is one modulo `2 ^ 32`. Assumes: the packet is not
from the future. -/
theorem isTimedOut_iff {timeOut : UInt32} {startTime now : UInt64} (hle : startTime ≤ now) :
    isTimedOut timeOut startTime now = true ↔
      0 < timeOut.toNat ∧ timeOut.toNat * 1000 % 2 ^ 32 < now.toNat - startTime.toNat := by
  unfold isTimedOut
  split_ifs with hpositive
  · have hzero : 0 < timeOut.toNat := hpositive
    simp only [decide_eq_true_eq, UInt64.lt_iff_toNat_lt, UInt32.toNat_toUInt64, UInt32.toNat_mul,
      UInt64.toNat_sub_of_le now startTime hle]
    exact (and_iff_right hzero).symm
  · exact iff_of_false not_false fun h ↦ hpositive h.1

/-- The answer of a request that waited too long, which is not executed. Where no buffer can be had
the return code is `EASY_ERROR` and the connection is closed. -/
def AnswersTimeOut (rounds : ℕ) (bulk : Bool) (chain : OpenedChain Record)
    (context : Context Outside Record) : Prop :=
  ∃ ret final, onServerProcess world rounds bulk chain context =
      some (⟨chain.number, ret, [chain.head.owner]⟩, final) ∧
    final.started = context.started ∧
    (final.response chain.head.owner).code = clientStatusRequestTimeOut ∧
    (ret = .ok → final.response chain.head.owner = ⟨clientStatusRequestTimeOut, 4,
      BigEndian.toBytes ClientErrorCode.requestTimeOut.code, []⟩)

theorem tdhsResponseError_eq (owner : Owner) (status code : ℕ) (context : Context Outside Record) :
    ∃ ret final, tdhsResponseError world owner status code context = some (ret, final) ∧
      final.started = context.started ∧ (final.response owner).code = status ∧
      (ret = .ok → final.response owner = ⟨status, 4, BigEndian.toBytes code, []⟩) := by
  let coded : Response := { context.response owner with code := status, length := 4 }
  let prepared : Context Outside Record :=
    { context with response := Function.update context.response owner coded }
  let asked : Context Outside Record :=
    { prepared with
      outside := (world.easyBufCreate (4 + tdhSocketHeaderLength) prepared.outside).2 }
  have hprepared : setResponse owner (fun response ↦ { response with code := status, length := 4 })
      context = some ((), prepared) := rfl
  have hcoded : asked.response owner = coded :=
    Function.update_self owner coded context.response
  cases hcreated : (world.easyBufCreate (4 + tdhSocketHeaderLength) prepared.outside).1 with
  | false =>
    have hasked : ask (world.easyBufCreate (4 + tdhSocketHeaderLength)) prepared =
        some (false, asked) := congrArg (fun answer ↦ some (answer, asked)) hcreated
    refine ⟨.error, asked, ?_, rfl, congrArg Response.code hcoded, fun h ↦ nomatch h⟩
    rw [tdhsResponseError, bind_of_eq_some hprepared, bind_of_eq_some hasked]
    rfl
  | true =>
    have hasked : ask (world.easyBufCreate (4 + tdhSocketHeaderLength)) prepared =
        some (true, asked) := congrArg (fun answer ↦ some (answer, asked)) hcreated
    let filled : Response :=
      { asked.response owner with wbuff := BigEndian.toBytes code, data := [] }
    have hfilled : Function.update asked.response owner filled owner =
        ⟨status, 4, BigEndian.toBytes code, []⟩ := by
      refine (Function.update_self owner filled asked.response).trans ?_
      simp only [filled, hcoded, coded]
    refine ⟨.ok, { asked with response := Function.update asked.response owner filled }, ?_, rfl,
      congrArg Response.code hfilled, fun _ ↦ hfilled⟩
    rw [tdhsResponseError, bind_of_eq_some hprepared, bind_of_eq_some hasked]
    rfl

/-- A request is answered as too old exactly if the test says so. -/
theorem answersTimeOut_iff (rounds : ℕ) (bulk : Bool) (chain : OpenedChain Record)
    (context : Context Outside Record) :
    AnswersTimeOut world rounds bulk chain context ↔
      (world.timedOut chain.number context.outside).1 = true := by
  have hasked : ask (world.timedOut chain.number) context =
      some ((world.timedOut chain.number context.outside).1,
        { context with outside := (world.timedOut chain.number context.outside).2 }) := rfl
  constructor
  · rintro ⟨_, final, hreturns, hstarted, -⟩
    by_contra hnot
    rw [onServerProcess, bind_of_eq_some hasked, if_neg hnot] at hreturns
    obtain ⟨ret, executed, hexecute, hdone⟩ := bind_eq_some.mp hreturns
    have hfinal : executed = final := congrArg Prod.snd (Option.some.inj hdone)
    subst hfinal
    obtain ⟨bodyRet, middle, hbody, -, rfl⟩ := executeWith_eq_some.mp hexecute
    have hprefix : context.started ++ [chain.head.owner] <+: middle.started :=
      grows_dispatch world rounds bulk _ _ _ bodyRet middle hbody
    have hsame : middle.started = context.started := hstarted
    have hlength := hprefix.length_le
    rw [hsame, List.length_append, List.length_singleton] at hlength
    exact Nat.not_succ_le_self _ hlength
  · intro htimedOut
    obtain ⟨ret, final, herror, hstarted, hcode, hresponse⟩ := tdhsResponseError_eq world
      chain.head.owner clientStatusRequestTimeOut ClientErrorCode.requestTimeOut.code
      { context with outside := (world.timedOut chain.number context.outside).2 }
    refine ⟨ret, final, ?_, hstarted, hcode, hresponse⟩
    rw [onServerProcess, bind_of_eq_some hasked, if_pos htimedOut, bind_of_eq_some herror]
    rfl

/-- The answer of a request with a time-out. Assumes: the packet is not from the future. -/
theorem answersTimeOut_withClock (timeOut : ℕ → UInt32) (startTime : ℕ → UInt64)
    (clock : Outside → UInt64 × Outside) (rounds : ℕ) (bulk : Bool) {chain : OpenedChain Record}
    {context : Context Outside Record} (hle : startTime chain.number ≤ (clock context.outside).1) :
    AnswersTimeOut (world.withClock timeOut startTime clock) rounds bulk chain context ↔
      0 < (timeOut chain.number).toNat ∧ (timeOut chain.number).toNat * 1000 % 2 ^ 32 <
        (clock context.outside).1.toNat - (startTime chain.number).toNat := by
  rw [answersTimeOut_iff, ← isTimedOut_iff hle]
  by_cases hpositive : 0 < timeOut chain.number
  · simp only [World.withClock, if_pos hpositive]
  · simp only [World.withClock, if_neg hpositive, isTimedOut]

end

/-- A request is answered as too old, without being executed, if and only if its connection has a
time-out and more milliseconds than that have passed; this holds exactly if the time-out in
microseconds is a `uint32_t`, or the microseconds that have passed are not between what is left of
it and the time-out. Assumes: the packet is not from the future. -/
theorem request_time_out (world : World Outside Record) (timeOut : ℕ → UInt32)
    (startTime : ℕ → UInt64) (clock : Outside → UInt64 × Outside) (rounds : ℕ) (bulk : Bool)
    {chain : OpenedChain Record} {context : Context Outside Record}
    (hle : startTime chain.number ≤ (clock context.outside).1) :
    (AnswersTimeOut (world.withClock timeOut startTime clock) rounds bulk chain context ↔
      0 < (timeOut chain.number).toNat ∧ (timeOut chain.number).toNat * 1000 <
        (clock context.outside).1.toNat - (startTime chain.number).toNat) ↔
    ((timeOut chain.number).toNat * 1000 < 2 ^ 32 ∨
      (clock context.outside).1.toNat - (startTime chain.number).toNat ≤
        (timeOut chain.number).toNat * 1000 % 2 ^ 32 ∨
      (timeOut chain.number).toNat * 1000 <
        (clock context.outside).1.toNat - (startTime chain.number).toNat) := by
  rw [answersTimeOut_withClock world timeOut startTime clock rounds bulk hle]
  omega

/-- One INSERT, alone in its chain. -/
def waitingInsert : OpenedChain ℕ :=
  ⟨0, ⟨⟨0, 0⟩, insertNumber 49, 0, .opened 0 numberTable⟩, []⟩

/-- A time-out of 5 milliseconds, 5001 microseconds after the packet came. -/
theorem request_time_out_five :
    AnswersTimeOut ((scriptedWorld fun _ ↦ false).withClock (fun _ ↦ 5) (fun _ ↦ 100)
      fun script ↦ (5101, script)) 1 true waitingInsert (scriptedStart []) :=
  ((request_time_out (scriptedWorld fun _ ↦ false) (fun _ ↦ 5) (fun _ ↦ 100)
    (fun script ↦ (5101, script)) 1 true (by decide)).mpr (Or.inl (by decide))).mpr (by decide)

/-- With a time-out of 4294968 milliseconds, more than an hour, a request is too old after one. -/
theorem long_time_out_is_short :
    AnswersTimeOut ((scriptedWorld fun _ ↦ false).withClock (fun _ ↦ 4294968) (fun _ ↦ 100)
      fun script ↦ (1100, script)) 1 true waitingInsert (scriptedStart []) ∧
    ¬ (4294968 * 1000 < 1100 - 100) :=
  ⟨(answersTimeOut_withClock (scriptedWorld fun _ ↦ false) (fun _ ↦ 4294968) (fun _ ↦ 100)
    (fun script ↦ (1100, script)) 1 true (by decide)).mpr (by decide), by decide⟩

end TdhSocket.Execute
