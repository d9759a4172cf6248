import Mathlib.Data.Prod.Lex
import Mathlib.Tactic.Linarith
import TdhSocket.Dispatch.Balance

/-!
# The strategy for reads

`check_innodb_status` of `tdh_socket_monitor.cpp`. The monitor takes two samples of InnoDB's
counters, and from the reads per second between them it sets `thread_strategy` and
`active_slow_read_thread_num`, the number of slow threads that `table_need_balance` spreads the
slow reads over.

The settings are `unsigned int`, the samples `long long`. Arithmetic of `long long` has no value
where it overflows or divides by zero, so the result of `checkInnodbStatus` is an `Option`.
`chosen` says over the integers which level and how many threads belong to a rate, and
`setStrategy_eq` that the source computes them for every rate and all settings.
`thread_strategy_control` puts the bounds, the modulus and the monotonicity together.
-/

set_option autoImplicit false

namespace TdhSocket.Dispatch

/-! ### The source -/

/-- The settings that `check_innodb_status` reads. -/
structure StrategySettings where
  threadStrategyRequestsLv1 : UInt32
  threadStrategyRequestsLv2 : UInt32
  monitorInterval : UInt32
  slowReadThreadNum : UInt32
  deriving DecidableEq, Repr

/-- The values that can be set: at least one, and a pool has an `int` count of threads. -/
structure StrategySettings.IsAdmitted (settings : StrategySettings) : Prop where
  lv1 : 1 ≤ settings.threadStrategyRequestsLv1
  lv2 : 1 ≤ settings.threadStrategyRequestsLv2
  interval : 1 ≤ settings.monitorInterval
  one_le_threads : 1 ≤ settings.slowReadThreadNum
  threads_le : settings.slowReadThreadNum.toNat ≤ 2 ^ 31 - 1

/-- `tdhs_innodb_status_t`. -/
structure InnodbStatus where
  readRequests : Int64
  reads : Int64
  deriving DecidableEq, Repr

/-- `is_done`. -/
def InnodbStatus.isDone (status : InnodbStatus) : Bool :=
  0 ≤ status.readRequests && 0 ≤ status.reads

/-- `reset`. -/
def InnodbStatus.reset : InnodbStatus := ⟨-1, -1⟩

/-- `thread_strategy`, `active_slow_read_thread_num` and `last_io_read_per_second`. -/
structure StrategyState where
  threadStrategy : ThreadStrategy
  activeSlowReadThreadNum : UInt32
  lastIoReadPerSecond : Int64
  deriving DecidableEq, Repr

/-- The state of a server that has started. -/
def newStrategy : StrategyState := ⟨.lv2, 1, 0⟩

/-- A result of `long long` arithmetic. -/
def longLong (value : ℤ) : Option ℤ :=
  if -2 ^ 63 ≤ value ∧ value < 2 ^ 63 then some value else none

/-- A quotient of two `long long`. -/
def longLongDiv (dividend divisor : ℤ) : Option ℤ :=
  if divisor = 0 then none else longLong (dividend.tdiv divisor)

section

variable (settings : StrategySettings)

/-- The number of active threads at the second level. The source stores the quotient, and then
the one that is at least one. -/
def activeAtLv2 (ioReadPre : ℤ) : Option UInt32 :=
  if settings.threadStrategyRequestsLv2 ≤ settings.threadStrategyRequestsLv1 then
    some settings.slowReadThreadNum
  else do
    let above ← longLong (ioReadPre - settings.threadStrategyRequestsLv1.toNat)
    let product ← longLong (settings.slowReadThreadNum.toNat * above)
    let quotient ← longLongDiv product
      (settings.threadStrategyRequestsLv2 - settings.threadStrategyRequestsLv1).toNat
    let active := UInt32.ofInt quotient
    pure (if 0 < active then active else 1)

/-- The level and the active threads for `io_read_pre`. -/
def setStrategy (ioReadPre : ℤ) (previous : ThreadStrategy × UInt32) :
    Option (ThreadStrategy × UInt32) :=
  if ioReadPre < settings.threadStrategyRequestsLv1.toNat then some (.lv1, 1)
  else if ioReadPre ≥ settings.threadStrategyRequestsLv1.toNat ∧
      ioReadPre ≤ settings.threadStrategyRequestsLv2.toNat then
    (activeAtLv2 settings ioReadPre).map fun active ↦ (.lv2, active)
  else if ioReadPre > settings.threadStrategyRequestsLv2.toNat then
    some (.lv3, settings.slowReadThreadNum)
  else some previous

/-- What the two samples make of the state. -/
def adaptStrategy (oldStatus newStatus : InnodbStatus) (state : StrategyState) :
    Option StrategyState := do
  let allRead ← longLong (newStatus.readRequests.toInt - oldStatus.readRequests.toInt)
  let ioRead ← longLong (newStatus.reads.toInt - oldStatus.reads.toInt)
  if allRead ≠ 0 then
    let ioReadPre ← longLongDiv ioRead settings.monitorInterval.toNat
    let (strategy, active) ← setStrategy settings ioReadPre
      (state.threadStrategy, state.activeSlowReadThreadNum)
    pure ⟨strategy, active, Int64.ofInt ioReadPre⟩
  else pure state

/-- `check_innodb_status`: the state, and the old and the new sample after the call. -/
def checkInnodbStatus (oldStatus newStatus : InnodbStatus) (state : StrategyState) :
    Option (StrategyState × InnodbStatus × InnodbStatus) :=
  (if oldStatus.isDone && newStatus.isDone then adaptStrategy settings oldStatus newStatus state
    else some state).map fun adapted ↦ (adapted, newStatus, .reset)

/-! ### The level and the threads of a rate -/

/-- The level as a number. -/
def ThreadStrategy.level : ThreadStrategy → ℕ
  | .lv1 => 1
  | .lv2 => 2
  | .lv3 => 3

/-- The number of threads at the second level. -/
def share (rate : ℤ) : ℕ :=
  if settings.threadStrategyRequestsLv2.toNat ≤ settings.threadStrategyRequestsLv1.toNat then
    settings.slowReadThreadNum.toNat
  else
    max 1 (settings.slowReadThreadNum.toNat *
        (rate - settings.threadStrategyRequestsLv1.toNat).toNat /
      (settings.threadStrategyRequestsLv2.toNat - settings.threadStrategyRequestsLv1.toNat))

/-- The level and the number of active threads that belong to a rate. -/
def chosen (rate : ℤ) : ThreadStrategy × ℕ :=
  if rate < settings.threadStrategyRequestsLv1.toNat then (.lv1, 1)
  else if rate ≤ settings.threadStrategyRequestsLv2.toNat then (.lv2, share settings rate)
  else (.lv3, settings.slowReadThreadNum.toNat)

end

variable {settings : StrategySettings} {rate rate' value : ℤ}

/-- The number of threads at the second level is that of a pool with one thread at least. -/
theorem share_bounds (hsettings : settings.IsAdmitted)
    (hrate : rate ≤ settings.threadStrategyRequestsLv2.toNat) :
    1 ≤ share settings rate ∧ share settings rate ≤ settings.slowReadThreadNum.toNat := by
  have hthreads : 1 ≤ settings.slowReadThreadNum.toNat :=
    UInt32.le_iff_toNat_le.mp hsettings.one_le_threads
  unfold share
  split
  · exact ⟨hthreads, Nat.le_refl _⟩
  · next hlevels =>
    refine ⟨Nat.le_max_left _ _, Nat.max_le.mpr ⟨hthreads, ?_⟩⟩
    refine Nat.div_le_of_le_mul ?_
    rw [Nat.mul_comm]
    exact Nat.mul_le_mul_right _ (by omega)

/-- More reads do not lower the number of threads of the second level. -/
theorem share_mono (hrate : rate ≤ rate') :
    share settings rate ≤ share settings rate' := by
  unfold share
  split
  · exact Nat.le_refl _
  · have hproduct : settings.slowReadThreadNum.toNat *
        (rate - settings.threadStrategyRequestsLv1.toNat).toNat ≤
        settings.slowReadThreadNum.toNat *
          (rate' - settings.threadStrategyRequestsLv1.toNat).toNat :=
      Nat.mul_le_mul_left _ (Int.toNat_le_toNat (Int.sub_le_sub_right hrate _))
    exact max_le_max (Nat.le_refl 1) (Nat.div_le_div_right hproduct)

/-- The number of active threads is that of a pool with one thread at least. -/
theorem chosen_bounds (hsettings : settings.IsAdmitted) (rate : ℤ) :
    1 ≤ (chosen settings rate).2 ∧
      (chosen settings rate).2 ≤ settings.slowReadThreadNum.toNat := by
  have hthreads : 1 ≤ settings.slowReadThreadNum.toNat :=
    UInt32.le_iff_toNat_le.mp hsettings.one_le_threads
  unfold chosen
  split
  · exact ⟨Nat.le_refl _, hthreads⟩
  · split
    · next hrate => exact share_bounds hsettings hrate
    · exact ⟨hthreads, Nat.le_refl _⟩

/-- Level and threads, compared in this order. -/
def rank (pair : ThreadStrategy × ℕ) : ℕ ×ₗ ℕ := toLex (pair.1.level, pair.2)

/-- More reads do not lower the level, nor the number of threads within a level. -/
theorem chosen_mono (settings : StrategySettings) (hrate : rate ≤ rate') :
    rank (chosen settings rate) ≤ rank (chosen settings rate') := by
  rw [rank, rank, Prod.Lex.toLex_le_toLex]
  unfold chosen
  split_ifs
  -- One case for each pair of levels, the first rate's level first.
  · exact .inr ⟨rfl, Nat.le_refl _⟩
  · exact .inl (Nat.lt_succ_self 1)
  · exact .inl (Nat.lt_of_sub_pos Nat.two_pos)
  · omega
  · exact .inr ⟨rfl, share_mono hrate⟩
  · exact .inl (Nat.lt_succ_self 2)
  · omega
  · omega
  · exact .inr ⟨rfl, Nat.le_refl _⟩

/-! ### The source computes them -/

/-- A value in range is kept. -/
theorem longLong_of_bounds (hlow : -2 ^ 63 ≤ value) (hhigh : value < 2 ^ 63) :
    longLong value = some value :=
  if_pos ⟨hlow, hhigh⟩

/-- A result of `long long` arithmetic is in range. -/
theorem longLong_bounds {result : ℤ} (hresult : longLong value = some result) :
    -2 ^ 63 ≤ result ∧ result < 2 ^ 63 := by
  unfold longLong at hresult
  split at hresult
  · next hrange =>
    cases hresult
    exact hrange
  · exact absurd hresult nofun

/-- The difference of two counters. -/
theorem longLong_difference {first second : Int64} (hfirst : 0 ≤ first) (hsecond : 0 ≤ second) :
    longLong (first.toInt - second.toInt) = some (first.toInt - second.toInt) := by
  have hfirst' : (0 : ℤ) ≤ first.toInt := Int64.le_iff_toInt_le.mp hfirst
  have hsecond' : (0 : ℤ) ≤ second.toInt := Int64.le_iff_toInt_le.mp hsecond
  have := first.toInt_lt
  have := second.toInt_lt
  exact longLong_of_bounds (by omega) (by omega)

/-- Dividing by a positive number stays in range. -/
theorem longLongDiv_of_pos {divisor : ℕ} (hdivisor : 0 < divisor) (hlow : -2 ^ 63 ≤ value)
    (hhigh : value < 2 ^ 63) :
    longLongDiv value divisor = some (value.tdiv divisor) := by
  have hpositive : (0 : ℤ) < divisor := by exact_mod_cast hdivisor
  rw [longLongDiv, if_neg hpositive.ne']
  rcases le_or_gt 0 value with hvalue | hvalue
  · have hquotient := Int.tdiv_nonneg hvalue hpositive.le
    have hself := Int.tdiv_le_self (divisor : ℤ) hvalue
    exact longLong_of_bounds (by omega) (by omega)
  · have hneg : value.tdiv divisor = -((-value).tdiv divisor) := by rw [Int.neg_tdiv, neg_neg]
    have hopposite : 0 ≤ -value := by omega
    have hquotient := Int.tdiv_nonneg hopposite hpositive.le
    have hself := Int.tdiv_le_self (divisor : ℤ) hopposite
    exact longLong_of_bounds (by omega) (by omega)

/-- The quotient of the second level, over natural numbers. -/
theorem quotient_eq {threads above width : ℕ} (hthreads : threads < 2 ^ 31)
    (habove : above < 2 ^ 32) (hwidth : 0 < width) :
    (do
      let product ← longLong (threads * above)
      longLongDiv product width) = some ((threads * above / width : ℕ) : ℤ) := by
  have hrange : threads * above < 2 ^ 31 * 2 ^ 32 := Nat.mul_lt_mul'' hthreads habove
  have hproduct : longLong (threads * above) = some ((threads * above : ℕ) : ℤ) := by
    exact longLong_of_bounds (by omega) (by omega)
  have hquotient : longLongDiv (threads * above : ℕ) width =
      some ((threads * above / width : ℕ) : ℤ) := by
    rw [longLongDiv_of_pos hwidth (by omega) (by omega), Int.ofNat_tdiv]
  simp only [hproduct, Option.bind_eq_bind, Option.bind_some, hquotient]

/-- The quotient is stored as an `unsigned int`, and one where it is zero. -/
theorem toNat_stored {quotient : ℕ} (hquotient : quotient < 2 ^ 32) :
    (if 0 < UInt32.ofInt quotient then UInt32.ofInt quotient else 1).toNat = max 1 quotient := by
  have hmod : ((quotient : ℤ) % 2 ^ 32).toNat = quotient := by omega
  have hnarrow : (UInt32.ofInt quotient).toNat = quotient := by
    rw [UInt32.ofInt, hmod, UInt32.toNat_ofNat_of_lt' hquotient]
  split
  · next hactive =>
    have hpositive : 0 < quotient := by
      rw [← hnarrow]
      exact UInt32.lt_iff_toNat_lt.mp hactive
    rw [hnarrow, Nat.max_eq_right hpositive]
  · next hactive =>
    have hzero : quotient ≤ 0 := by
      rw [← hnarrow]
      exact UInt32.le_iff_toNat_le.mp (UInt32.not_lt.mp hactive)
    rw [Nat.le_zero.mp hzero]
    rfl

/-- The threads of the second level. -/
theorem activeAtLv2_eq (hsettings : settings.IsAdmitted)
    (hlow : settings.threadStrategyRequestsLv1.toNat ≤ rate)
    (hhigh : rate ≤ settings.threadStrategyRequestsLv2.toNat) :
    ∃ active, activeAtLv2 settings rate = some active ∧ active.toNat = share settings rate := by
  have hbounds := share_bounds hsettings hhigh
  unfold activeAtLv2 share at *
  by_cases hlevels : settings.threadStrategyRequestsLv2.toNat ≤
      settings.threadStrategyRequestsLv1.toNat
  · rw [if_pos (UInt32.le_iff_toNat_le.mpr hlevels), if_pos hlevels]
    exact ⟨_, rfl, rfl⟩
  · rw [if_neg hlevels] at hbounds
    rw [if_neg fun hle ↦ hlevels (UInt32.le_iff_toNat_le.mp hle), if_neg hlevels]
    have hwidth := UInt32.toNat_sub_of_le settings.threadStrategyRequestsLv2
      settings.threadStrategyRequestsLv1 (UInt32.le_iff_toNat_le.mpr (by omega))
    have hthreads := hsettings.threads_le
    have hlv2 := settings.threadStrategyRequestsLv2.toNat_lt
    -- The rate above the first level is a natural number, and so are product and quotient.
    obtain ⟨above, habove⟩ := Int.eq_ofNat_of_zero_le (Int.sub_nonneg_of_le hlow)
    rw [habove, Int.toNat_natCast] at hbounds
    rw [hwidth, habove, Int.toNat_natCast]
    have hrate : longLong above = some (above : ℤ) := longLong_of_bounds (by omega) (by omega)
    have habove' : above < 2 ^ 32 := by omega
    have hthreads' : settings.slowReadThreadNum.toNat < 2 ^ 31 := by omega
    obtain ⟨product, hproduct, hquotient⟩ := Option.bind_eq_some_iff.mp
      (quotient_eq hthreads' habove' (Nat.sub_pos_of_lt (Nat.lt_of_not_le hlevels)))
    refine ⟨_, Option.bind_eq_some_iff.mpr ⟨_, hrate, Option.bind_eq_some_iff.mpr
      ⟨_, hproduct, Option.bind_eq_some_iff.mpr ⟨_, hquotient, rfl⟩⟩⟩, toNat_stored ?_⟩
    exact Nat.lt_of_le_of_lt ((Nat.le_max_right _ _).trans hbounds.2) (by omega)

/-- The level and the threads, whatever they were. -/
theorem setStrategy_eq (hsettings : settings.IsAdmitted) (rate : ℤ)
    (previous : ThreadStrategy × UInt32) :
    ∃ next, setStrategy settings rate previous = some next ∧
      (next.1, next.2.toNat) = chosen settings rate := by
  unfold setStrategy chosen
  split_ifs with hlv1 hlv2 hlv2' hlv3
  · exact ⟨_, rfl, rfl⟩
  · obtain ⟨active, hactive, hshare⟩ := activeAtLv2_eq hsettings hlv2.1 hlv2.2
    exact ⟨_, by rw [hactive]; rfl, by rw [← hshare]⟩
  · omega
  · omega
  · exact ⟨_, rfl, rfl⟩
  · omega
  · omega

/-! ### The monitor and the slow reads -/

/-- `io_read_pre`: the reads per second between two samples. -/
def ioReadPerSecond (settings : StrategySettings) (oldStatus newStatus : InnodbStatus) : ℤ :=
  (newStatus.reads.toInt - oldStatus.reads.toInt).tdiv settings.monitorInterval.toNat

/-- Two samples that are both read, with read requests between them. -/
structure IsRate (oldStatus newStatus : InnodbStatus) : Prop where
  oldDone : oldStatus.isDone = true
  newDone : newStatus.isDone = true
  requested : newStatus.readRequests ≠ oldStatus.readRequests

/-- The active threads are some of the pool. -/
def StrategyState.IsWithin (state : StrategyState) (settings : StrategySettings) : Prop :=
  1 ≤ state.activeSlowReadThreadNum ∧
    state.activeSlowReadThreadNum ≤ settings.slowReadThreadNum

variable {oldStatus newStatus : InnodbStatus} {state : StrategyState}

/-- Both counters of a sample that is read are at least zero. -/
theorem InnodbStatus.isDone_iff (status : InnodbStatus) :
    status.isDone = true ↔ 0 ≤ status.readRequests ∧ 0 ≤ status.reads := by
  simp [InnodbStatus.isDone]

/-- Samples that give a rate decide level and threads, whatever they were. -/
theorem checkInnodbStatus_of_isRate (hsettings : settings.IsAdmitted)
    (hrate : IsRate oldStatus newStatus) (state : StrategyState) :
    ∃ next, checkInnodbStatus settings oldStatus newStatus state =
        some (next, newStatus, .reset) ∧
      (next.threadStrategy, next.activeSlowReadThreadNum.toNat) =
        chosen settings (ioReadPerSecond settings oldStatus newStatus) := by
  obtain ⟨holdRequests, holdReads⟩ := oldStatus.isDone_iff.mp hrate.oldDone
  obtain ⟨hnewRequests, hnewReads⟩ := newStatus.isDone_iff.mp hrate.newDone
  have hrequests := longLong_difference hnewRequests holdRequests
  have hreads := longLong_difference hnewReads holdReads
  have hdifference : newStatus.readRequests.toInt - oldStatus.readRequests.toInt ≠ 0 :=
    fun hzero ↦ hrate.requested (Int64.toInt_inj.mp (Int.eq_of_sub_eq_zero hzero))
  have hinterval : 0 < settings.monitorInterval.toNat :=
    UInt32.le_iff_toNat_le.mp hsettings.interval
  have hbounds := longLong_bounds hreads
  have hpre := longLongDiv_of_pos hinterval hbounds.1 hbounds.2
  obtain ⟨next, hnext, hchosen⟩ := setStrategy_eq hsettings
    (ioReadPerSecond settings oldStatus newStatus)
    (state.threadStrategy, state.activeSlowReadThreadNum)
  let adapted : StrategyState :=
    ⟨next.1, next.2, Int64.ofInt (ioReadPerSecond settings oldStatus newStatus)⟩
  have hadapted : adaptStrategy settings oldStatus newStatus state = some adapted := by
    refine Option.bind_eq_some_iff.mpr ⟨_, hrequests, Option.bind_eq_some_iff.mpr
      ⟨_, hreads, ?_⟩⟩
    rw [if_pos hdifference]
    exact Option.bind_eq_some_iff.mpr ⟨_, hpre, Option.bind_eq_some_iff.mpr ⟨_, hnext, rfl⟩⟩
  refine ⟨adapted, ?_, hchosen⟩
  rw [checkInnodbStatus, hrate.oldDone, hrate.newDone, Bool.and_self, if_pos rfl, hadapted]
  rfl

/-- Other samples leave the state. -/
theorem checkInnodbStatus_of_not_isRate (hrate : ¬ IsRate oldStatus newStatus)
    (state : StrategyState) :
    checkInnodbStatus settings oldStatus newStatus state =
      some (state, newStatus, .reset) := by
  refine Option.map_eq_some_iff.mpr ⟨state, ?_, rfl⟩
  split
  · next hdone =>
    obtain ⟨hold, hnew⟩ := Bool.and_eq_true_iff.mp hdone
    obtain ⟨holdRequests, holdReads⟩ := oldStatus.isDone_iff.mp hold
    obtain ⟨hnewRequests, hnewReads⟩ := newStatus.isDone_iff.mp hnew
    have hsame : newStatus.readRequests = oldStatus.readRequests := by
      by_contra hrequested
      exact hrate ⟨hold, hnew, hrequested⟩
    refine Option.bind_eq_some_iff.mpr ⟨_, longLong_difference hnewRequests holdRequests,
      Option.bind_eq_some_iff.mpr ⟨_, longLong_difference hnewReads holdReads, ?_⟩⟩
    rw [hsame, Int.sub_self, if_neg (not_not.mpr rfl)]
    rfl
  · rfl

/-- A slow read goes to one of the active threads. -/
theorem limitSlow_bounds (balance : BalanceSettings)
    (hactive : balance.activeSlowReadThreadNum ≠ 0) (hash : UInt64) :
    limitSlow balance .slow hash ≠ 0 ∧
      limitSlow balance .slow hash ≤ balance.activeSlowReadThreadNum := by
  simp only [limitSlow, if_true]
  split
  · exact ⟨hactive, UInt64.le_refl _⟩
  · next hhash =>
    have hpositive : 0 < balance.activeSlowReadThreadNum.toNat :=
      Nat.pos_of_ne_zero fun hzero ↦ hactive (UInt64.toNat_inj.mp hzero)
    refine ⟨hhash, UInt64.le_iff_toNat_le.mpr ?_⟩
    exact (Nat.mod_lt _ hpositive).le

/-- The active threads stay some of the pool. -/
theorem checkInnodbStatus_isWithin (hsettings : settings.IsAdmitted)
    (oldStatus newStatus : InnodbStatus) (hwithin : state.IsWithin settings) :
    ∃ next, checkInnodbStatus settings oldStatus newStatus state =
      some (next, newStatus, .reset) ∧ next.IsWithin settings := by
  by_cases hrate : IsRate oldStatus newStatus
  · obtain ⟨next, hnext, hchosen⟩ := checkInnodbStatus_of_isRate hsettings hrate state
    have hbounds := chosen_bounds hsettings (ioReadPerSecond settings oldStatus newStatus)
    rw [← hchosen] at hbounds
    exact ⟨next, hnext, UInt32.le_iff_toNat_le.mpr hbounds.1,
      UInt32.le_iff_toNat_le.mpr hbounds.2⟩
  · exact ⟨state, checkInnodbStatus_of_not_isRate hrate state, hwithin⟩

/-- For all settings that can be set and all samples, `check_innodb_status` computes without
overflow and division by zero and keeps the active threads between one and the pool's, so the
modulus of `table_need_balance` is not zero and a slow read goes to one of the active threads; and
level and active threads do not fall when the reads per second do not. -/
theorem thread_strategy_control (hsettings : settings.IsAdmitted) :
    (∀ oldStatus newStatus state, state.IsWithin settings →
      ∃ next, checkInnodbStatus settings oldStatus newStatus state =
          some (next, newStatus, .reset) ∧
        next.IsWithin settings ∧
        ∀ balance : BalanceSettings,
          balance.activeSlowReadThreadNum = next.activeSlowReadThreadNum.toUInt64 →
            balance.activeSlowReadThreadNum ≠ 0 ∧
            ∀ hash, limitSlow balance .slow hash ≠ 0 ∧
              limitSlow balance .slow hash ≤ balance.activeSlowReadThreadNum) ∧
    ∀ oldStatus newStatus oldStatus' newStatus' state state',
      IsRate oldStatus newStatus → IsRate oldStatus' newStatus' →
      ioReadPerSecond settings oldStatus newStatus ≤
        ioReadPerSecond settings oldStatus' newStatus' →
      ∃ next next',
        checkInnodbStatus settings oldStatus newStatus state = some (next, newStatus, .reset) ∧
        checkInnodbStatus settings oldStatus' newStatus' state' =
          some (next', newStatus', .reset) ∧
        rank (next.threadStrategy, next.activeSlowReadThreadNum.toNat) ≤
          rank (next'.threadStrategy, next'.activeSlowReadThreadNum.toNat) := by
  constructor
  · intro oldStatus newStatus state hwithin
    obtain ⟨next, hnext, hkept⟩ :=
      checkInnodbStatus_isWithin hsettings oldStatus newStatus hwithin
    refine ⟨next, hnext, hkept, fun balance hbalance ↦ ?_⟩
    have hactive : balance.activeSlowReadThreadNum ≠ 0 := by
      intro hzero
      have hone : 1 ≤ next.activeSlowReadThreadNum.toNat := UInt32.le_iff_toNat_le.mp hkept.1
      rw [← next.activeSlowReadThreadNum.toNat_toUInt64, ← hbalance, hzero] at hone
      exact absurd hone (by decide)
    exact ⟨hactive, limitSlow_bounds balance hactive⟩
  · intro oldStatus newStatus oldStatus' newStatus' state state' hrate hrate' hless
    obtain ⟨next, hnext, hchosen⟩ := checkInnodbStatus_of_isRate hsettings hrate state
    obtain ⟨next', hnext', hchosen'⟩ := checkInnodbStatus_of_isRate hsettings hrate' state'
    refine ⟨next, next', hnext, hnext', ?_⟩
    rw [hchosen, hchosen']
    exact chosen_mono settings hless

/-- The default settings, with reads that fell between the samples and with reads at a rate between
the levels. -/
theorem thread_strategy_control_default :
    ∃ next next',
      checkInnodbStatus ⟨128, 1024, 5, 28⟩ ⟨1000, 900⟩ ⟨2000, 100⟩ newStrategy =
        some (next, ⟨2000, 100⟩, .reset) ∧
      checkInnodbStatus ⟨128, 1024, 5, 28⟩ ⟨1000, 100⟩ ⟨900, 3100⟩ newStrategy =
        some (next', ⟨900, 3100⟩, .reset) ∧
      rank (next.threadStrategy, next.activeSlowReadThreadNum.toNat) ≤
        rank (next'.threadStrategy, next'.activeSlowReadThreadNum.toNat) := by
  have hsettings : StrategySettings.IsAdmitted ⟨128, 1024, 5, 28⟩ :=
    ⟨by decide, by decide, by decide, by decide, by decide⟩
  have hfallen : IsRate ⟨1000, 900⟩ ⟨2000, 100⟩ := ⟨by decide, by decide, by decide⟩
  have hrisen : IsRate ⟨1000, 100⟩ ⟨900, 3100⟩ := ⟨by decide, by decide, by decide⟩
  exact (thread_strategy_control hsettings).2 _ _ _ _ _ _ hfallen hrisen (by decide)

end TdhSocket.Dispatch
