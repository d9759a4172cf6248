import Mathlib.Data.List.Basic

/-!
# Runs of a transition system

A system is a partial step function: an event takes a state to another one, or cannot happen in it.
`Reached` has the states of all runs whose events meet a condition on the state they happen in;
`Reached.invariant` is the induction over runs, `Reached.simulated` takes a run of one system to a
run of another. `run` computes the state behind a list of events,
and `reached_run` says that it is reached; `reached_guarded` is for runs whose events meet the
condition only in the states they happen in.
-/

set_option autoImplicit false

namespace TdhSocket.Library

variable {State Event : Type}

/-- The states reached by runs in which every event meets a condition. -/
inductive Reached (step : State → Event → Option State) (Meets : State → Event → Prop)
    (initial : State) : State → Prop
  | start : Reached step Meets initial initial
  | next {state successor : State} (event : Event) (hreached : Reached step Meets initial state)
      (hmeets : Meets state event) (hstep : step state event = some successor) :
      Reached step Meets initial successor

/-- No condition on the events of a run. -/
def anyEvent (_ : State) (_ : Event) : Prop := True

variable {step : State → Event → Option State} {Meets : State → Event → Prop}
  {initial state : State}

/-- What holds initially and is kept by every event holds in every state reached. -/
theorem Reached.invariant (hreached : Reached step Meets initial state) (Holds : State → Prop)
    (hstart : Holds initial)
    (hstep : ∀ {before after : State} {event : Event}, Holds before → Meets before event →
      step before event = some after → Holds after) : Holds state := by
  induction hreached with
  | start => exact hstart
  | next event _ hmeets hsuccessor ih => exact hstep ih hmeets hsuccessor

/-- Fewer conditions reach more states. -/
theorem Reached.mono {Meets' : State → Event → Prop} (hreached : Reached step Meets initial state)
    (hmeets : ∀ before event, Meets before event → Meets' before event) :
    Reached step Meets' initial state := by
  induction hreached with
  | start => exact .start
  | next event _ hevent hsuccessor ih => exact .next event ih (hmeets _ event hevent) hsuccessor

/-- A run of one system is a run of another when every event is one event of the other or leaves its
state as it is. -/
theorem Reached.simulated {State' Event' : Type} {step' : State' → Event' → Option State'}
    {Meets' : State' → Event' → Prop}
    (hreached : Reached step Meets initial state) (abstract : State → State')
    (hstep : ∀ {before after : State} {event : Event}, Reached step Meets initial before →
      Meets before event → step before event = some after →
      abstract after = abstract before ∨
        ∃ event', Meets' (abstract before) event' ∧
          step' (abstract before) event' = some (abstract after)) :
    Reached step' Meets' (abstract initial) (abstract state) := by
  induction hreached with
  | start => exact .start
  | next event hbefore hmeets hsuccessor ih =>
    rcases hstep hbefore hmeets hsuccessor with hsame | ⟨event', hmeets', hsuccessor'⟩
    · rw [hsame]
      exact ih
    · exact .next event' ih hmeets' hsuccessor'

/-- The state behind a list of events, if all of them can happen. -/
def run (step : State → Event → Option State) : State → List Event → Option State
  | state, [] => some state
  | state, event :: events => (step state event).bind fun successor ↦ run step successor events

/-- A state behind a list of events is reached. Assumes: the events meet the condition anywhere. -/
theorem reached_run {final : State} {events : List Event}
    (hreached : Reached step Meets initial state)
    (hmeets : ∀ event ∈ events, ∀ before, Meets before event)
    (hrun : run step state events = some final) : Reached step Meets initial final := by
  induction events generalizing state with
  | nil =>
    cases hrun
    exact hreached
  | cons event events ih =>
    obtain ⟨successor, hsuccessor, hrest⟩ := Option.bind_eq_some_iff.mp hrun
    exact ih (hreached.next event (hmeets event List.mem_cons_self state) hsuccessor)
      (fun other hother ↦ hmeets other (List.mem_cons_of_mem _ hother)) hrest

/-- Events that do not meet a condition cannot happen. -/
def guarded (step : State → Event → Option State) (Meets : State → Event → Prop)
    [∀ state event, Decidable (Meets state event)] (state : State) (event : Event) :
    Option State :=
  if Meets state event then step state event else none

/-- A run whose events are looked at one by one reaches its state. -/
theorem reached_guarded [∀ state event, Decidable (Meets state event)] {final : State}
    {events : List Event} (hreached : Reached step Meets initial state)
    (hrun : run (guarded step Meets) state events = some final) :
    Reached step Meets initial final := by
  induction events generalizing state with
  | nil =>
    cases hrun
    exact hreached
  | cons event events ih =>
    obtain ⟨successor, hsuccessor, hrest⟩ := Option.bind_eq_some_iff.mp hrun
    unfold guarded at hsuccessor
    split_ifs at hsuccessor with hmeets
    exact ih (hreached.next event hmeets hsuccessor) hrest

end TdhSocket.Library
