import Mathlib.Algebra.Order.Floor.Semifield
import Mathlib.Data.List.Induction
import Mathlib.Data.Rat.Floor

/-!
# The throttle of slow reads

`slow_read_limit` of `tdh_socket_share.cpp`. Time is cut into slices. A call within the running
slice moves the end of the slice, any other call begins a new one; the call is let through when the
reads of the slice are below a limit, which gets smaller as the slice gets longer. A call that is
held off stretches the slice by the time to wait, and multiplies this time, which is in
microseconds, by another million.

The numbers are those of the source: `ullong` is `UInt64`, and a `double` is a rational number, or
infinite where it is divided by zero. `slowReadLimit_eq` gives a call over natural numbers.
`IsPaced` is the invariant of a history of calls: a slice that is not stretched ends within half a
second of the last call, and in a slice that is stretched the reads are at least a sixtieth of
`tdhs_slow_read_limits` (`isPaced_calls`). So a call a minute after all the others is held off if
it comes within the slice (`slow_read_limit_recovers_iff`).
-/

set_option autoImplicit false

namespace TdhSocket.Dispatch

/-! ### The source -/

/-- `NANOSECONDS_PER_SECOND`, which counts microseconds. -/
def nanosecondsPerSecond : ℕ := 1000000

/-- `SLOW_READ_SLICE_TIME`. -/
def slowReadSliceTime : UInt64 := 100000

/-- `tdhs_throttle_t`. -/
structure TdhsThrottle where
  startReadIoNum : UInt64
  sliceStart : UInt64
  sliceEnd : UInt64
  sliceTime : UInt64
  deriving DecidableEq, Repr

/-- `slow_read_throttle` with the counters `slow_read_io_num` and `throttle_count`. -/
structure ThrottleState where
  slowReadThrottle : TdhsThrottle
  slowReadIoNum : UInt64
  throttleCount : UInt64
  deriving DecidableEq, Repr

/-- The state of a server that has started. -/
def newThrottle : ThrottleState := ⟨⟨0, 0, 0, 0⟩, 0, 0⟩

/-- The time is within the slice. -/
def TdhsThrottle.IsRunning (throttle : TdhsThrottle) (now : UInt64) : Prop :=
  throttle.sliceStart < now ∧ now < throttle.sliceEnd

instance (throttle : TdhsThrottle) (now : UInt64) : Decidable (throttle.IsRunning now) :=
  inferInstanceAs (Decidable (_ ∧ _))

/-- The slice of a call: the running one with its end moved, or a new one. -/
def sliceAt (state : ThrottleState) (now : UInt64) : TdhsThrottle :=
  let throttle := state.slowReadThrottle
  if throttle.IsRunning now then { throttle with sliceEnd := now + throttle.sliceTime }
  else ⟨state.slowReadIoNum, now, now + 5 * slowReadSliceTime, 5 * slowReadSliceTime⟩

/-- `ios_limit`, or `none` when it is infinite. -/
def iosLimit (ioLimits : UInt32) (throttle : TdhsThrottle) : Option ℚ :=
  let sliceTime := throttle.sliceEnd - throttle.sliceStart
  if sliceTime = 0 then none
  else
    let limit := (ioLimits.toNat : ℚ) / (sliceTime.toNat / nanosecondsPerSecond)
    some (if 0 < limit then limit else 1)

/-- `ios_base`: the reads let through in a slice. -/
def iosBase (state : ThrottleState) (throttle : TdhsThrottle) : UInt64 :=
  state.slowReadIoNum - throttle.startReadIoNum

/-- A `double` assigned to a `ullong`. -/
def truncate (x : ℚ) : UInt64 := UInt64.ofNat ⌊x⌋₊

/-- The slice after a call that is held off for `waitTime`, counted from its start. -/
def stretch (throttle : TdhsThrottle) (now waitTime : UInt64) : TdhsThrottle :=
  let elapsedTime := now - throttle.sliceStart
  let waitTime := if elapsedTime < waitTime then waitTime - elapsedTime else 0
  let sliceTime := waitTime * slowReadSliceTime * 10
  { throttle with
    sliceTime := sliceTime
    sliceEnd := throttle.sliceEnd + (sliceTime - 3 * slowReadSliceTime) }

/-- `slow_read_limit`: whether the request is held off, and the state after the call. -/
def slowReadLimit (throttleOn : Bool) (ioLimits : UInt32) (state : ThrottleState) (now : UInt64) :
    Bool × ThrottleState :=
  if !throttleOn then (false, state)
  else
    let throttle := sliceAt state now
    let base : ℚ := (iosBase state throttle).toNat
    let access : ThrottleState := ⟨throttle, state.slowReadIoNum + 1, state.throttleCount⟩
    match iosLimit ioLimits throttle with
    | none => (false, access)
    | some limit =>
      if base < limit then (false, access)
      else
        let waitTime := truncate ((base + 1) / limit * nanosecondsPerSecond)
        (true, ⟨stretch throttle now waitTime, state.slowReadIoNum, state.throttleCount + 1⟩)

/-- The state after calls at the given times, with throttling on. -/
def calls (ioLimits : UInt32) (times : List UInt64) : ThrottleState :=
  times.foldl (fun state now ↦ (slowReadLimit true ioLimits state now).2) newThrottle

/-! ### A call over natural numbers -/

/-- The length of a slice. -/
def TdhsThrottle.length (throttle : TdhsThrottle) : ℕ :=
  (throttle.sliceEnd - throttle.sliceStart).toNat

/-- The length vanishes with the difference of the two ends. -/
theorem TdhsThrottle.length_eq_zero (throttle : TdhsThrottle) :
    throttle.length = 0 ↔ throttle.sliceEnd - throttle.sliceStart = 0 := by
  rw [TdhsThrottle.length, ← UInt64.toNat_inj]
  rfl

/-- The time a call is held off, before the elapsed time is taken away. -/
def waitTime (ioLimits : UInt32) (base length : ℕ) : ℕ := (base + 1) * length / ioLimits.toNat

variable {ioLimits : UInt32}

/-- The limit of a slice that has a length. -/
theorem iosLimit_eq (hlimits : 1 ≤ ioLimits) (throttle : TdhsThrottle) :
    iosLimit ioLimits throttle =
      if throttle.length = 0 then none
      else some ((ioLimits.toNat * nanosecondsPerSecond : ℕ) / (throttle.length : ℚ)) := by
  have hpositive : (0 : ℚ) < ioLimits.toNat := by
    have : 1 ≤ ioLimits.toNat := UInt32.le_iff_toNat_le.mp hlimits
    exact_mod_cast this
  simp only [iosLimit]
  by_cases hzero : throttle.length = 0
  · rw [if_pos (throttle.length_eq_zero.mp hzero), if_pos hzero]
  · rw [if_neg fun hlength ↦ hzero (throttle.length_eq_zero.mpr hlength), if_neg hzero]
    have hlimit : (0 : ℚ) < ioLimits.toNat / (throttle.length / nanosecondsPerSecond) := by
      have : (0 : ℚ) < nanosecondsPerSecond := by norm_num [nanosecondsPerSecond]
      positivity
    rw [TdhsThrottle.length] at hlimit ⊢
    rw [if_pos hlimit, div_div_eq_mul_div]
    push_cast
    rfl

/-- A call with throttling on, over natural numbers. -/
theorem slowReadLimit_eq (hlimits : 1 ≤ ioLimits) (state : ThrottleState)
    (now : UInt64) :
    slowReadLimit true ioLimits state now =
      let throttle := sliceAt state now
      let base := (iosBase state throttle).toNat
      if base * throttle.length < ioLimits.toNat * nanosecondsPerSecond then
        (false, ⟨throttle, state.slowReadIoNum + 1, state.throttleCount⟩)
      else
        (true, ⟨stretch throttle now (UInt64.ofNat (waitTime ioLimits base throttle.length)),
          state.slowReadIoNum, state.throttleCount + 1⟩) := by
  have hpositive : 0 < ioLimits.toNat := UInt32.le_iff_toNat_le.mp hlimits
  have hsecond : 0 < nanosecondsPerSecond := by decide
  simp only [slowReadLimit, iosLimit_eq hlimits]
  generalize sliceAt state now = throttle
  generalize (iosBase state throttle).toNat = base
  by_cases hzero : throttle.length = 0
  · simp [hzero, hpositive, hsecond]
  · have hlength : (0 : ℚ) < throttle.length := by exact_mod_cast Nat.pos_of_ne_zero hzero
    have hroom : ((base : ℚ) < (ioLimits.toNat * nanosecondsPerSecond : ℕ) / throttle.length) ↔
        base * throttle.length < ioLimits.toNat * nanosecondsPerSecond := by
      rw [lt_div_iff₀ hlength]
      exact_mod_cast Iff.rfl
    have hwait : ((base : ℚ) + 1) / ((ioLimits.toNat * nanosecondsPerSecond : ℕ) /
        throttle.length) * nanosecondsPerSecond =
        (((base + 1) * throttle.length : ℕ) : ℚ) / ioLimits.toNat := by
      push_cast
      field_simp
    simp only [hzero, if_false, hroom, hwait, truncate, Nat.floor_div_eq_div, waitTime,
      Bool.not_true, Bool.false_eq_true]

/-! ### The reads of a stretched slice -/

variable {elapsed : ℕ} {throttle : TdhsThrottle} {times : List UInt64}

/-- A slice that was not stretched before is stretched only when the reads let through are no small
part of the limit. -/
theorem limit_le_of_elapsed_lt_waitTime (hlimits : 0 < ioLimits.toNat) {base length : ℕ}
    (hlength : length ≤ elapsed + 500000)
    (hfull : ioLimits.toNat * nanosecondsPerSecond ≤ base * length)
    (hwait : elapsed < waitTime ioLimits base length) : ioLimits.toNat ≤ 60 * base := by
  have hbase : 1 ≤ base := by
    rcases Nat.eq_zero_or_pos base with rfl | hbase
    · have : 0 < ioLimits.toNat * nanosecondsPerSecond := Nat.mul_pos hlimits (by decide)
      omega
    · exact hbase
  have hreads : ioLimits.toNat * (elapsed + 1) ≤ (base + 1) * length := by
    rw [Nat.mul_comm]
    exact (Nat.le_div_iff_mul_le hlimits).mp hwait
  have hstretched : (base + 1) * length ≤ (base + 1) * (elapsed + 500000) :=
    Nat.mul_le_mul_left _ hlength
  have hfilled : base * length ≤ base * (elapsed + 500000) := Nat.mul_le_mul_left _ hlength
  rw [nanosecondsPerSecond] at hfull
  -- Below a second the limit itself bounds the reads, from then on the time to wait does.
  rcases le_or_gt elapsed 1000000 with helapsed | helapsed
  · have hend : elapsed + 500000 ≤ 1500000 := by omega
    have : base * (elapsed + 500000) ≤ base * 1500000 :=
      Nat.mul_le_mul (Nat.le_refl base) hend
    omega
  · have hend : 2 * (elapsed + 500000) ≤ 3 * elapsed := by linarith only [helapsed]
    have hscaled : 2 * ((base + 1) * (elapsed + 500000)) ≤ (base + 1) * (3 * elapsed) := by
      rw [Nat.mul_left_comm]
      exact Nat.mul_le_mul_left _ hend
    have hless : 2 * ioLimits.toNat * elapsed ≤ 3 * (base + 1) * elapsed := by
      calc 2 * ioLimits.toNat * elapsed
          ≤ 2 * (ioLimits.toNat * (elapsed + 1)) := by
            rw [Nat.mul_assoc]
            exact Nat.mul_le_mul_left _ (Nat.mul_le_mul_left _ (Nat.le_succ elapsed))
        _ ≤ (base + 1) * (3 * elapsed) := by omega
        _ = 3 * (base + 1) * elapsed := by rw [Nat.mul_left_comm, Nat.mul_assoc]
    have := Nat.le_of_mul_le_mul_right hless (by omega)
    omega

/-- A slice in which the time to wait is over has run for a second. -/
theorem second_le_elapsed (hlimits : 0 < ioLimits.toNat) {base length : ℕ}
    (hlength : length ≤ elapsed + 500000) (hbase : base ≤ ioLimits.toNat * nanosecondsPerSecond)
    (hfull : ioLimits.toNat * nanosecondsPerSecond ≤ base * length)
    (hwait : waitTime ioLimits base length % 2 ^ 64 ≤ elapsed) :
    nanosecondsPerSecond ≤ elapsed := by
  have hsecond : nanosecondsPerSecond ≤ waitTime ioLimits base length := by
    rw [waitTime, Nat.le_div_iff_mul_le hlimits, Nat.mul_comm]
    exact hfull.trans (Nat.mul_le_mul_right _ (Nat.le_succ base))
  by_cases hwraps : waitTime ioLimits base length < 2 ^ 64
  · rw [Nat.mod_eq_of_lt hwraps] at hwait
    exact hsecond.trans hwait
  · have hreads : 2 ^ 64 * ioLimits.toNat ≤ (base + 1) * length :=
      (Nat.le_div_iff_mul_le hlimits).mp (Nat.le_of_not_lt hwraps)
    have hbound : (base + 1) * length ≤ 1000001 * (elapsed + 500000) * ioLimits.toNat := by
      calc (base + 1) * length
          ≤ (ioLimits.toNat * 1000001) * (elapsed + 500000) := by
            refine Nat.mul_le_mul ?_ hlength
            rw [nanosecondsPerSecond] at hbase
            omega
        _ = 1000001 * (elapsed + 500000) * ioLimits.toNat := by
            rw [Nat.mul_assoc, Nat.mul_comm]
    have := Nat.le_of_mul_le_mul_right (hreads.trans hbound) hlimits
    rw [nanosecondsPerSecond]
    omega

/-! ### The invariant of a history -/

/-- A slice that is not stretched: it ends within half a second of the last call, and it has run
for a second if a call was held off in it. -/
structure IsShort (last : ℕ) (throttle : TdhsThrottle) : Prop where
  sliceEnd_le : throttle.sliceEnd.toNat ≤ last + 500000
  sliceTime : throttle.sliceTime = 5 * slowReadSliceTime ∨ throttle.sliceTime = 0
  ran : throttle.sliceTime = 0 → throttle.sliceStart < throttle.sliceEnd →
    throttle.sliceStart.toNat + nanosecondsPerSecond ≤ last

/-- The number of reads let through in the slice. -/
def ThrottleState.base (state : ThrottleState) : ℕ :=
  (iosBase state state.slowReadThrottle).toNat

/-- The time of a short slice is half a second at most. -/
theorem IsShort.sliceTime_le {last : ℕ} (hshort : IsShort last throttle) :
    throttle.sliceTime.toNat ≤ 500000 := by
  rcases hshort.sliceTime with htime | htime <;> rw [htime] <;> decide

/-- What a history of calls leaves. -/
structure IsPaced (ioLimits : UInt32) (last : ℕ) (state : ThrottleState) : Prop where
  sliceStart_le : state.slowReadThrottle.sliceStart.toNat ≤ last
  base_le : state.base ≤ ioLimits.toNat * nanosecondsPerSecond + 1
  base_le_of_lt : state.slowReadThrottle.sliceStart < state.slowReadThrottle.sliceEnd →
    state.base ≤ ioLimits.toNat * nanosecondsPerSecond
  short_or_used : IsShort last state.slowReadThrottle ∨ ioLimits.toNat ≤ 60 * state.base

/-- The throttle of a server that has started. -/
theorem isPaced_newThrottle (ioLimits : UInt32) : IsPaced ioLimits 0 newThrottle := by
  refine ⟨Nat.le_refl _, ?_, fun hlt ↦ absurd hlt (by decide), .inl ⟨by decide, .inr rfl, ?_⟩⟩
  · exact Nat.zero_le _
  · exact fun _ hlt ↦ absurd hlt (by decide)

variable {ioLimits : UInt32} {state : ThrottleState} {last : ℕ} {now : UInt64}

/-- A call outside the slice begins one and is let through. -/
theorem slowReadLimit_of_not_isRunning (hlimits : 1 ≤ ioLimits)
    (hended : ¬ state.slowReadThrottle.IsRunning now) :
    slowReadLimit true ioLimits state now =
      (false, ⟨⟨state.slowReadIoNum, now, now + 5 * slowReadSliceTime, 5 * slowReadSliceTime⟩,
        state.slowReadIoNum + 1, state.throttleCount⟩) := by
  have hpositive : 0 < ioLimits.toNat * nanosecondsPerSecond :=
    Nat.mul_pos (UInt32.le_iff_toNat_le.mp hlimits) (by decide)
  rw [slowReadLimit_eq hlimits]
  simp [sliceAt, hended, iosBase, hpositive]

/-- A call within the slice moves its end. -/
theorem slowReadLimit_of_isRunning (hlimits : 1 ≤ ioLimits)
    (hrunning : state.slowReadThrottle.IsRunning now) :
    slowReadLimit true ioLimits state now =
      let throttle := { state.slowReadThrottle with
        sliceEnd := now + state.slowReadThrottle.sliceTime }
      if state.base * throttle.length < ioLimits.toNat * nanosecondsPerSecond then
        (false, ⟨throttle, state.slowReadIoNum + 1, state.throttleCount⟩)
      else
        (true, ⟨stretch throttle now
          (UInt64.ofNat (waitTime ioLimits state.base throttle.length)),
          state.slowReadIoNum, state.throttleCount + 1⟩) := by
  rw [slowReadLimit_eq hlimits]
  simp only [sliceAt, hrunning, if_true]
  rfl

theorem toNat_add_le (a b : UInt64) : (a + b).toNat ≤ a.toNat + b.toNat := by
  rw [UInt64.toNat_add]
  exact Nat.mod_le _ _

/-- A new slice is short and has one read. -/
theorem IsPaced.renew (hlimits : 1 ≤ ioLimits) (hended : ¬ state.slowReadThrottle.IsRunning now) :
    IsPaced ioLimits now.toNat (slowReadLimit true ioLimits state now).2 := by
  have hpositive : 1 ≤ ioLimits.toNat * nanosecondsPerSecond :=
    Nat.mul_pos (UInt32.le_iff_toNat_le.mp hlimits) (by decide)
  rw [slowReadLimit_of_not_isRunning hlimits hended]
  have hdifference : state.slowReadIoNum + 1 - state.slowReadIoNum = 1 := by grind
  have hbase : ThrottleState.base ⟨⟨state.slowReadIoNum, now, now + 5 * slowReadSliceTime,
      5 * slowReadSliceTime⟩, state.slowReadIoNum + 1, state.throttleCount⟩ = 1 := by
    rw [ThrottleState.base, iosBase, hdifference]
    rfl
  have hend : (now + 5 * slowReadSliceTime).toNat ≤ now.toNat + 500000 :=
    toNat_add_le now (5 * slowReadSliceTime)
  have hsliceTime : 5 * slowReadSliceTime ≠ 0 := by decide
  refine ⟨Nat.le_refl _, hbase.symm ▸ ?_, fun _ ↦ hbase.symm ▸ hpositive,
    .inl ⟨hend, .inl rfl, fun hzero ↦ absurd hzero hsliceTime⟩⟩
  exact Nat.le_add_left 1 _

/-- One more read in a slice. -/
theorem base_succ (hbase : state.base < 2 ^ 64 - 1) (throttle : TdhsThrottle)
    (hsame : throttle.startReadIoNum = state.slowReadThrottle.startReadIoNum) (count : UInt64) :
    ThrottleState.base ⟨throttle, state.slowReadIoNum + 1, count⟩ = state.base + 1 := by
  have hsum : state.slowReadIoNum + 1 - state.slowReadThrottle.startReadIoNum =
      state.slowReadIoNum - state.slowReadThrottle.startReadIoNum + 1 := by grind
  simp only [ThrottleState.base, iosBase] at hbase ⊢
  rw [hsame, hsum, UInt64.toNat_add]
  exact Nat.mod_eq_of_lt (by simpa using (by omega))

/-- The slice of a call within the running one, with its end moved. -/
def moved (state : ThrottleState) (now : UInt64) : TdhsThrottle :=
  { state.slowReadThrottle with sliceEnd := now + state.slowReadThrottle.sliceTime }

/-- The end of a short slice is moved to half a second from now at most. -/
theorem IsShort.moved (hshort : IsShort last state.slowReadThrottle) (hlast : last ≤ now.toNat)
    (hrunning : state.slowReadThrottle.IsRunning now) : IsShort now.toNat (moved state now) := by
  refine ⟨?_, hshort.sliceTime, fun hzero _ ↦ ?_⟩
  · exact (toNat_add_le _ _).trans (Nat.add_le_add_left hshort.sliceTime_le _)
  · exact (hshort.ran hzero (UInt64.lt_trans hrunning.1 hrunning.2)).trans hlast

/-- The length of a short slice: the elapsed time and half a second at most. -/
theorem IsShort.length_le (hshort : IsShort last state.slowReadThrottle) (now : UInt64) :
    (Dispatch.moved state now).length ≤
      (now - state.slowReadThrottle.sliceStart).toNat + 500000 := by
  have hsum : now + state.slowReadThrottle.sliceTime - state.slowReadThrottle.sliceStart =
      now - state.slowReadThrottle.sliceStart + state.slowReadThrottle.sliceTime := by grind
  rw [TdhsThrottle.length, Dispatch.moved, hsum]
  exact (toNat_add_le _ _).trans (Nat.add_le_add_left hshort.sliceTime_le _)

/-- Stretching a slice leaves its reads. -/
theorem base_stretch (state : ThrottleState) (now waitTime count : UInt64) :
    ThrottleState.base ⟨stretch (moved state now) now waitTime, state.slowReadIoNum, count⟩ =
      state.base := by
  have hstart : (stretch (moved state now) now waitTime).startReadIoNum =
      state.slowReadThrottle.startReadIoNum := by
    rw [stretch, moved]
  rw [ThrottleState.base, ThrottleState.base, iosBase, iosBase, hstart]

/-- Stretching a slice leaves its start. -/
theorem sliceStart_stretch (throttle : TdhsThrottle) (now waitTime : UInt64) :
    (stretch throttle now waitTime).sliceStart = throttle.sliceStart := by
  rw [stretch]

/-- When the time to wait is over, the slice is not stretched. -/
theorem stretch_of_not_lt {waitTime : UInt64} (hwait : ¬ now - throttle.sliceStart < waitTime) :
    stretch throttle now waitTime =
      { throttle with sliceTime := 0, sliceEnd := throttle.sliceEnd - 3 * slowReadSliceTime } := by
  have hzero : (0 : UInt64) * slowReadSliceTime * 10 = 0 := by decide
  have hend : throttle.sliceEnd + (0 - 3 * slowReadSliceTime) =
      throttle.sliceEnd - 3 * slowReadSliceTime := by grind
  simp only [stretch, hwait, if_false, hzero, hend]

/-- A slice that is not stretched ends soon. -/
theorem IsShort.stretch (hshort : IsShort last state.slowReadThrottle)
    (hran : state.slowReadThrottle.sliceStart.toNat + nanosecondsPerSecond ≤ now.toNat)
    {waitTime : UInt64} (hwait : ¬ now - state.slowReadThrottle.sliceStart < waitTime) :
    IsShort now.toNat (stretch (Dispatch.moved state now) now waitTime) := by
  have hend : now + state.slowReadThrottle.sliceTime - 3 * slowReadSliceTime =
      now - 3 * slowReadSliceTime + state.slowReadThrottle.sliceTime := by grind
  have hsum := toNat_add_le (now - 3 * slowReadSliceTime) state.slowReadThrottle.sliceTime
  have hearlier : (now - 3 * slowReadSliceTime).toNat ≤ now.toNat := by
    have hthree : 3 * slowReadSliceTime ≤ now := by
      refine UInt64.le_iff_toNat_le.mpr (Nat.le_trans ?_ ((Nat.le_add_left _ _).trans hran))
      decide
    rw [UInt64.toNat_sub_of_le _ _ hthree]
    exact Nat.sub_le _ _
  have htime := hshort.sliceTime_le
  have hover : ¬ now - (Dispatch.moved state now).sliceStart < waitTime := hwait
  rw [stretch_of_not_lt hover]
  refine ⟨?_, .inr rfl, fun _ _ ↦ hran⟩
  change (now + state.slowReadThrottle.sliceTime - 3 * slowReadSliceTime).toNat ≤ _
  rw [hend]
  omega

/-- A call is let through within the slice. -/
theorem IsPaced.admit (hpaced : IsPaced ioLimits last state) (hlast : last ≤ now.toNat)
    (hrunning : state.slowReadThrottle.IsRunning now)
    (hroom : state.base * (moved state now).length < ioLimits.toNat * nanosecondsPerSecond) :
    IsPaced ioLimits now.toNat
      ⟨moved state now, state.slowReadIoNum + 1, state.throttleCount⟩ := by
  have hbase : state.base ≤ ioLimits.toNat * nanosecondsPerSecond :=
    hpaced.base_le_of_lt (UInt64.lt_trans hrunning.1 hrunning.2)
  have hlimits : ioLimits.toNat < 2 ^ 32 := ioLimits.toNat_lt
  have hsmall : state.base < 2 ^ 64 - 1 := by
    rw [nanosecondsPerSecond] at hbase
    omega
  have hsucc := base_succ hsmall (moved state now) rfl state.throttleCount
  refine ⟨hpaced.sliceStart_le.trans hlast, ?_, fun hlt ↦ ?_, ?_⟩
  · rw [hsucc]
    exact Nat.succ_le_succ hbase
  · have hlength : (moved state now).length ≠ 0 := by
      rw [Ne, TdhsThrottle.length_eq_zero]
      intro hzero
      have hequal : (moved state now).sliceEnd = (moved state now).sliceStart := by grind
      rw [hequal] at hlt
      exact UInt64.lt_irrefl _ hlt
    rw [hsucc]
    exact Nat.lt_of_le_of_lt (Nat.le_mul_of_pos_right _ (Nat.pos_of_ne_zero hlength)) hroom
  · rcases hpaced.short_or_used with hshort | hused
    · exact .inl (hshort.moved hlast hrunning)
    · exact .inr (by omega)

/-- A call is held off within the slice. -/
theorem IsPaced.reject (hlimits : 1 ≤ ioLimits) (hpaced : IsPaced ioLimits last state)
    (hlast : last ≤ now.toNat) (hrunning : state.slowReadThrottle.IsRunning now)
    (hfull : ioLimits.toNat * nanosecondsPerSecond ≤ state.base * (moved state now).length) :
    IsPaced ioLimits now.toNat
      ⟨stretch (moved state now) now
        (UInt64.ofNat (waitTime ioLimits state.base (moved state now).length)),
        state.slowReadIoNum, state.throttleCount + 1⟩ := by
  have hbase : state.base ≤ ioLimits.toNat * nanosecondsPerSecond :=
    hpaced.base_le_of_lt (UInt64.lt_trans hrunning.1 hrunning.2)
  have hpositive : 0 < ioLimits.toNat := UInt32.le_iff_toNat_le.mp hlimits
  refine ⟨?_, ?_, fun _ ↦ ?_, ?_⟩
  · rw [sliceStart_stretch]
    exact hpaced.sliceStart_le.trans hlast
  · rw [base_stretch]
    exact hpaced.base_le
  · rw [base_stretch]
    exact hbase
  rw [base_stretch]
  rcases hpaced.short_or_used with hshort | hused
  · have hlength := hshort.length_le now
    have helapsed : (now - state.slowReadThrottle.sliceStart).toNat =
        now.toNat - state.slowReadThrottle.sliceStart.toNat :=
      UInt64.toNat_sub_of_le _ _ (UInt64.le_of_lt hrunning.1)
    by_cases hwait : now - state.slowReadThrottle.sliceStart <
        UInt64.ofNat (waitTime ioLimits state.base (moved state now).length)
    · -- The slice is stretched, and the reads of this call are those of the state.
      refine .inr (limit_le_of_elapsed_lt_waitTime hpositive hlength hfull ?_)
      have hless := UInt64.lt_iff_toNat_lt.mp hwait
      exact Nat.lt_of_lt_of_le hless (Nat.mod_le _ _)
    · have hover := UInt64.le_iff_toNat_le.mp (UInt64.not_lt.mp hwait)
      have hran := second_le_elapsed hpositive hlength hbase hfull hover
      have hbegun := UInt64.lt_iff_toNat_lt.mp hrunning.1
      exact .inl (hshort.stretch (by omega) hwait)
  · exact .inr hused

/-- A call. -/
theorem IsPaced.call (hlimits : 1 ≤ ioLimits) (hpaced : IsPaced ioLimits last state)
    (hlast : last ≤ now.toNat) :
    IsPaced ioLimits now.toNat (slowReadLimit true ioLimits state now).2 := by
  by_cases hrunning : state.slowReadThrottle.IsRunning now
  · rw [slowReadLimit_of_isRunning hlimits hrunning]
    by_cases hroom : state.base * (moved state now).length <
        ioLimits.toNat * nanosecondsPerSecond
    · have hadmitted := hpaced.admit hlast hrunning hroom
      simp only [moved] at hroom hadmitted
      simpa only [hroom, if_true] using hadmitted
    · have hrejected := hpaced.reject hlimits hlast hrunning (Nat.le_of_not_lt hroom)
      simp only [moved] at hroom hrejected
      simpa only [hroom, if_false] using hrejected
  · exact .renew hlimits hrunning

/-- The last time of a history is one of its times. -/
theorem getLastD_mem (hcalled : times ≠ []) : times.getLastD 0 ∈ times := by
  cases times with
  | nil => exact absurd rfl hcalled
  | cons first rest =>
    rw [List.getLastD_cons]
    exact List.getLastD_mem_cons

/-- The invariant of a history of calls at times that do not decrease. -/
theorem isPaced_calls (hlimits : 1 ≤ ioLimits) (hsorted : times.Pairwise (· ≤ ·)) :
    IsPaced ioLimits (times.getLastD 0).toNat (calls ioLimits times) := by
  induction times using List.reverseRecOn with
  | nil => exact isPaced_newThrottle ioLimits
  | append_singleton times now ih =>
    obtain ⟨htimes, -, hearlier⟩ := List.pairwise_append.mp hsorted
    have hlast : (times.getLastD 0).toNat ≤ now.toNat := by
      by_cases hcalled : times = []
      · rw [hcalled]
        exact Nat.zero_le _
      · exact UInt64.le_iff_toNat_le.mp
          (hearlier _ (getLastD_mem hcalled) now (List.mem_singleton_self now))
    simpa [calls] using (ih htimes).call hlimits hlast

/-! ### A call a minute after all the others -/

/-- The slice has ended. -/
def HasEnded (state : ThrottleState) (now : UInt64) : Prop := state.slowReadThrottle.sliceEnd ≤ now

instance (state : ThrottleState) (now : UInt64) : Decidable (HasEnded state now) :=
  inferInstanceAs (Decidable (_ ≤ _))

/-- The end of the slice moves past the largest `ullong`, and the length that is left is so short
that the reads of the slice are below its limit. -/
def WrapsAround (ioLimits : UInt32) (state : ThrottleState) (now : UInt64) : Prop :=
  2 ^ 64 ≤ now.toNat + state.slowReadThrottle.sliceTime.toNat ∧
    state.base * (now + state.slowReadThrottle.sliceTime -
      state.slowReadThrottle.sliceStart).toNat < ioLimits.toNat * nanosecondsPerSecond

/-- A slice that has not ended a minute after all calls is a stretched one. -/
theorem isRunning_of_not_hasEnded (hlimits : 1 ≤ ioLimits) (hsorted : times.Pairwise (· ≤ ·))
    (hminute : ∀ time ∈ times, time.toNat + 60 * nanosecondsPerSecond ≤ now.toNat)
    (hended : ¬ HasEnded (calls ioLimits times) now) :
    (calls ioLimits times).slowReadThrottle.sliceStart.toNat + 60 * nanosecondsPerSecond ≤
        now.toNat ∧
      (calls ioLimits times).slowReadThrottle.IsRunning now ∧
      ioLimits.toNat ≤ 60 * (calls ioLimits times).base := by
  have hpaced := isPaced_calls hlimits hsorted
  have hlate := UInt64.lt_iff_toNat_lt.mp (UInt64.not_le.mp hended)
  have hlast : (times.getLastD 0).toNat + 60 * nanosecondsPerSecond ≤ now.toNat := by
    by_cases hcalled : times = []
    · subst hcalled
      exact absurd (UInt64.le_iff_toNat_le.mpr (Nat.zero_le _)) hended
    · exact hminute _ (getLastD_mem hcalled)
  have hstart := hpaced.sliceStart_le
  rw [nanosecondsPerSecond] at hlast ⊢
  refine ⟨by omega, ⟨UInt64.lt_iff_toNat_lt.mpr (by omega), UInt64.not_le.mp hended⟩, ?_⟩
  refine hpaced.short_or_used.resolve_left fun hshort ↦ ?_
  have := hshort.sliceEnd_le
  omega

/-- A stretched slice has no room a minute after its start, unless its length wraps around. -/
theorem not_room_of_not_wraps (hused : ioLimits.toNat ≤ 60 * state.base)
    (hstart : state.slowReadThrottle.sliceStart.toNat + 60 * nanosecondsPerSecond ≤ now.toNat)
    (hwraps : now.toNat + state.slowReadThrottle.sliceTime.toNat < 2 ^ 64) :
    ioLimits.toNat * nanosecondsPerSecond ≤ state.base * (moved state now).length := by
  have hlength : 60 * nanosecondsPerSecond ≤ (moved state now).length := by
    have hsum : (now + state.slowReadThrottle.sliceTime).toNat =
        now.toNat + state.slowReadThrottle.sliceTime.toNat := by
      rw [UInt64.toNat_add, Nat.mod_eq_of_lt hwraps]
    have hbefore : state.slowReadThrottle.sliceStart ≤
        now + state.slowReadThrottle.sliceTime := by
      rw [UInt64.le_iff_toNat_le, hsum]
      omega
    rw [TdhsThrottle.length, moved, UInt64.toNat_sub_of_le _ _ hbefore, hsum]
    omega
  calc ioLimits.toNat * nanosecondsPerSecond
      ≤ 60 * state.base * nanosecondsPerSecond := Nat.mul_le_mul_right _ hused
    _ = state.base * (60 * nanosecondsPerSecond) := by
      rw [Nat.mul_comm 60, Nat.mul_assoc]
    _ ≤ state.base * (moved state now).length := Nat.mul_le_mul_left _ hlength

/-- With throttling on, a call a minute or more after all earlier calls is let through exactly when
the slice has ended by then, or its length wraps around. Assumes: a limit of one at least, and
times that do not decrease. -/
theorem slow_read_limit_recovers_iff (hlimits : 1 ≤ ioLimits) {times : List UInt64} (now : UInt64)
    (hsorted : times.Pairwise (· ≤ ·))
    (hminute : ∀ time ∈ times, time.toNat + 60 * nanosecondsPerSecond ≤ now.toNat) :
    (slowReadLimit true ioLimits (calls ioLimits times) now).1 = false ↔
      HasEnded (calls ioLimits times) now ∨ WrapsAround ioLimits (calls ioLimits times) now := by
  by_cases hended : HasEnded (calls ioLimits times) now
  · have hover : ¬ (calls ioLimits times).slowReadThrottle.IsRunning now :=
      fun hrunning ↦ UInt64.not_lt.mpr hended hrunning.2
    simp [slowReadLimit_of_not_isRunning hlimits hover, hended]
  · obtain ⟨hstart, hrunning, hused⟩ := isRunning_of_not_hasEnded hlimits hsorted hminute hended
    have hroom : (slowReadLimit true ioLimits (calls ioLimits times) now).1 = false ↔
        (calls ioLimits times).base * (moved (calls ioLimits times) now).length <
          ioLimits.toNat * nanosecondsPerSecond := by
      rw [slowReadLimit_of_isRunning hlimits hrunning]
      simp only [moved]
      split <;> simp [*]
    rw [hroom]
    constructor
    · intro hlength
      refine .inr ⟨?_, hlength⟩
      by_contra hwraps
      have := not_room_of_not_wraps hused hstart (Nat.lt_of_not_le hwraps)
      omega
    · rintro (hover | ⟨-, hlength⟩)
      · exact absurd hover hended
      · exact hlength

/-- Five calls in five microseconds: the fifth is held off, and so is one a minute later. -/
theorem slow_read_limit_holds_off_after_minute :
    (slowReadLimit true 2 (calls 2 [1, 2, 3, 4, 5]) 60000005).1 = true ∧
      ¬ HasEnded (calls 2 [1, 2, 3, 4, 5]) 60000005 := by
  decide +kernel

/-- Four reads within the limit, and one a minute later. -/
theorem slow_read_limit_recovers_within_limit :
    (slowReadLimit true 2 (calls 2 [1, 2, 3, 4]) 60000004).1 = false := by
  have hlimits : (1 : UInt32) ≤ 2 := by decide
  have hsorted : ([1, 2, 3, 4] : List UInt64).Pairwise (· ≤ ·) := by decide +kernel
  have hminute : ∀ time ∈ ([1, 2, 3, 4] : List UInt64),
      time.toNat + 60 * nanosecondsPerSecond ≤ (60000004 : UInt64).toNat := by
    simp [nanosecondsPerSecond]
  have hended : HasEnded (calls 2 [1, 2, 3, 4]) 60000004 := by decide +kernel
  exact (slow_read_limit_recovers_iff hlimits 60000004 hsorted hminute).mpr (.inl hended)

end TdhSocket.Dispatch
