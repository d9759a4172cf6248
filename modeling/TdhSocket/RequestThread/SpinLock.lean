import Mathlib.Logic.Function.Basic
import TdhSocket.Library.Runs

/-!
# The spin lock

`easy_spin_lock` and `easy_spin_unlock`, under which the threads change each other's lists. Other
threads come between the read of the word and the compare-and-set behind it, and between the pauses
of the back-off; the accesses to the word are seen in one order. Only a thread that holds the lock
gives it back.

`advance_cases` says what a statement of a thread can do, and `IsHeldBy.step` that the lock has at
most one holder behind it. `spin_lock_excludes` is for every interleaving of any threads.
-/

set_option autoImplicit false

namespace TdhSocket.RequestThread.SpinLock

open Library

variable {Thread : Type} [DecidableEq Thread]

/-- Where a thread is: before the read of the word, before the compare-and-set, in a pause, before
`sched_yield`. `n` and `i` are the variables of the back-off, with `n` zero in front of it. -/
inductive Place
  | outside
  | reading (n : ℕ)
  | comparing (n : ℕ)
  | pausing (n i : ℕ)
  | yielding
  | inside
  deriving DecidableEq, Repr

/-- The word of the lock and the places of the threads. -/
structure State (Thread : Type) where
  lock : ℕ
  place : Thread → Place

/-- A lock nobody has used. -/
def newLock : State Thread := ⟨0, fun _ ↦ .outside⟩

/-- Behind a test that failed. -/
def backOff (n : ℕ) : Place :=
  let next := if n = 0 then 1 else n * 2
  if next < 1024 then .pausing next 0 else .yielding

/-- The next statement of a thread: from outside it calls `easy_spin_lock`, from inside
`easy_spin_unlock`. -/
def advance (lock : ℕ) : Place → ℕ × Place
  | .outside => (lock, .reading 0)
  | .reading n => (lock, if lock = 0 then .comparing n else backOff n)
  | .comparing n => if lock = 0 then (1, .inside) else (lock, backOff n)
  | .pausing n i => (lock, if i < n then .pausing n (i + 1) else .reading n)
  | .yielding => (lock, .reading 0)
  | .inside => (0, .outside)

/-- A thread sets the word and is at another place. -/
def State.put (state : State Thread) (thread : Thread) (next : ℕ × Place) : State Thread :=
  ⟨next.1, Function.update state.place thread next.2⟩

/-- A thread makes its next statement. -/
def step (state : State Thread) (thread : Thread) : Option (State Thread) :=
  some (state.put thread (advance state.lock (state.place thread)))

/-- The lock as its users see it: the thread that holds it, if one does. -/
structure IsHeldBy (holder : Option Thread) (state : State Thread) : Prop where
  lock : state.lock = if holder.isSome then 1 else 0
  inside : ∀ thread, state.place thread = .inside ↔ holder = some thread

variable {holder next : Option Thread} {state after : State Thread} {thread : Thread}

/-! ### Safety -/

theorem backOff_ne_inside (n : ℕ) : backOff n ≠ .inside := by
  simp only [backOff]
  split_ifs <;> nofun

/-- A statement is an unlock, takes a free lock, or leaves the word as it is. -/
theorem advance_cases (lock : ℕ) (place : Place) :
    (place = .inside ∧ advance lock place = (0, .outside)) ∨
      (lock = 0 ∧ advance lock place = (1, .inside)) ∨
      (place ≠ .inside ∧ ∃ other ≠ .inside, advance lock place = (lock, other)) := by
  cases place with
  | inside => exact .inl ⟨rfl, rfl⟩
  | outside => exact .inr (.inr ⟨nofun, .reading 0, nofun, rfl⟩)
  | yielding => exact .inr (.inr ⟨nofun, .reading 0, nofun, rfl⟩)
  | comparing n =>
    by_cases hfree : lock = 0
    · exact .inr (.inl ⟨hfree, if_pos hfree⟩)
    · exact .inr (.inr ⟨nofun, _, backOff_ne_inside n, if_neg hfree⟩)
  | reading n =>
    refine .inr (.inr ⟨nofun, _, ?_, rfl⟩)
    split_ifs
    · nofun
    · exact backOff_ne_inside n
  | pausing n i =>
    refine .inr (.inr ⟨nofun, _, ?_, rfl⟩)
    split_ifs <;> nofun

/-- The lock passes from one holder to the next, or stays. -/
theorem IsHeldBy.put (hheld : IsHeldBy holder state) {lock : ℕ} {place : Place}
    (hlock : lock = if next.isSome then 1 else 0) (hplace : place = .inside ↔ next = some thread)
    (hothers : ∀ other ≠ thread, holder = some other ↔ next = some other) :
    IsHeldBy next (state.put thread (lock, place)) := by
  refine ⟨hlock, fun other ↦ ?_⟩
  show Function.update state.place thread place other = .inside ↔ _
  by_cases hother : other = thread
  · rw [hother, Function.update_self, hplace]
  · rw [Function.update_of_ne hother, hheld.inside, hothers other hother]

theorem IsHeldBy.step (hheld : IsHeldBy holder state) (hstep : step state thread = some after) :
    ∃ next, IsHeldBy next after := by
  cases hstep
  rcases advance_cases state.lock (state.place thread) with
    ⟨hinside, hnext⟩ | ⟨hfree, hnext⟩ | ⟨hbefore, place, hafter, hnext⟩
  · rw [hnext]
    rw [hheld.inside] at hinside
    refine ⟨none, hheld.put rfl (iff_of_false nofun nofun) fun other hother ↦ ?_⟩
    rw [hinside]
    exact iff_of_false (fun hsame ↦ hother (Option.some.inj hsame).symm) nofun
  · rw [hnext]
    have hword := hheld.lock.symm.trans hfree
    cases holder with
    | some other => cases hword
    | none =>
      refine ⟨some thread, hheld.put rfl (iff_of_true rfl rfl) fun other hother ↦ ?_⟩
      exact iff_of_false nofun fun hsame ↦ hother (Option.some.inj hsame).symm
  · rw [hnext]
    refine ⟨holder, hheld.put hheld.lock ?_ fun _ _ ↦ Iff.rfl⟩
    exact iff_of_false hafter fun hholds ↦ hbefore ((hheld.inside thread).mpr hholds)

/-! ### Progress -/

/-- The statements a thread has to make to get a free lock. -/
def distance : Place → ℕ
  | .outside => 3
  | .inside => 0
  | .comparing _ => 1
  | .reading _ => 2
  | .pausing n i => n - i + 3
  | .yielding => 3

/-- Under a free lock a statement takes it or brings the thread closer to it. -/
theorem advance_free {place : Place} (hwaits : place ≠ .inside) :
    (advance 0 place = (1, .inside) ∧ distance place = 1) ∨
      ∃ next ≠ .inside, advance 0 place = (0, next) ∧ distance place = distance next + 1 := by
  cases place with
  | inside => exact absurd rfl hwaits
  | comparing n => exact .inl ⟨rfl, rfl⟩
  | outside => exact .inr ⟨.reading 0, nofun, rfl, rfl⟩
  | reading n => exact .inr ⟨.comparing n, nofun, rfl, rfl⟩
  | yielding => exact .inr ⟨.reading 0, nofun, rfl, rfl⟩
  | pausing n i =>
    by_cases hpauses : i < n
    · refine .inr ⟨.pausing n (i + 1), nofun, by rw [advance, if_pos hpauses], ?_⟩
      simp only [distance]
      omega
    · refine .inr ⟨.reading n, nofun, by rw [advance, if_neg hpauses], ?_⟩
      simp only [distance]
      omega

/-- A thread that runs alone gets a free lock. -/
theorem run_alone {count : ℕ} (hfree : state.lock = 0) (hwaits : state.place thread ≠ .inside)
    (hcount : distance (state.place thread) = count) :
    ∃ after, run step state (List.replicate count thread) = some after ∧
      after.place thread = .inside := by
  induction count generalizing state with
  | zero => rcases advance_free hwaits with ⟨-, hone⟩ | ⟨_, -, -, hcloser⟩ <;> omega
  | succ count ih =>
    have hrun : run step state (List.replicate (count + 1) thread) =
        run step (state.put thread (advance 0 (state.place thread)))
          (List.replicate count thread) := by
      rw [List.replicate_succ, run, step, hfree]
      rfl
    rw [hrun]
    rcases advance_free hwaits with ⟨htakes, hone⟩ | ⟨place, hplace, hgoes, hcloser⟩
    · obtain rfl : count = 0 := by omega
      rw [htakes]
      exact ⟨_, rfl, Function.update_self ..⟩
    · have hself : (state.put thread (0, place)).place thread = place := Function.update_self ..
      rw [hgoes]
      exact ih rfl (by rwa [hself]) (by rw [hself]; omega)

/-- At most one thread holds the lock, whatever the interleaving; and while nobody does, each thread
gets it by its own next statements, wherever it is in the back-off. -/
theorem spin_lock_excludes (hreached : Reached step anyEvent (newLock : State Thread) state) :
    (∀ thread other, state.place thread = .inside → state.place other = .inside →
      thread = other) ∧
    ((∀ thread, state.place thread ≠ .inside) → ∀ thread, ∃ after,
      run step state (List.replicate (distance (state.place thread)) thread) = some after ∧
        after.place thread = .inside) := by
  obtain ⟨holder, hheld⟩ := hreached.invariant (fun state ↦ ∃ holder, IsHeldBy holder state)
    ⟨none, rfl, fun _ ↦ iff_of_false nofun nofun⟩ fun ⟨_, hheld⟩ _ hstep ↦ hheld.step hstep
  refine ⟨fun thread other hthread hother ↦ ?_, fun hnobody thread ↦ ?_⟩
  · rw [hheld.inside] at hthread hother
    exact Option.some.inj (hthread.symm.trans hother)
  · have hnone : holder = none := Option.eq_none_iff_forall_ne_some.mpr fun other hother ↦
      hnobody other ((hheld.inside other).mpr hother)
    have hfree := hheld.lock
    rw [hnone] at hfree
    exact run_alone hfree (hnobody thread) rfl

/-- The second thread is in its first pause while the first holds the lock. -/
theorem spin_lock_excludes_two :
    ∃ state : State Bool, run step newLock [true, true, true, false, false] = some state ∧
      state.place true = .inside ∧ state.place false = .pausing 1 0 ∧
      ∀ other, state.place other = .inside → other = true := by
  refine ⟨_, rfl, rfl, rfl, fun other hother ↦ ?_⟩
  have hreached := reached_run .start (fun _ _ _ ↦ trivial)
    (rfl : run step (newLock : State Bool) [true, true, true, false, false] = some _)
  exact (spin_lock_excludes hreached).1 other true hother rfl

end TdhSocket.RequestThread.SpinLock
