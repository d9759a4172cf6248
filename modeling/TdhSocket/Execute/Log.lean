import TdhSocket.Execute.World

/-!
# What a log leaves committed

The committed changes are a function of the log (`replay`). This module has the rules to compute
it: a log is replayed piece by piece (`replay_append_of_pending_eq_nil`), a piece that only changes
rows leaves all its changes pending (`foldl_apply_of_only_changes`), and the end of a statement
commits them or drops them (`replay_concat_ended`).
-/

set_option autoImplicit false

namespace TdhSocket.Execute

variable {Record : Type}

/-- The row change that an event is. -/
def Event.change? : Event Record → Option (Change Record)
  | .changed owner call => some ⟨owner, call⟩
  | .discarded _ => none
  | .ended _ _ => none

/-- The row changes of a log, in order. -/
def changesOf (events : List (Event Record)) : List (Change Record) :=
  events.filterMap Event.change?

theorem changesOf_append (first next : List (Event Record)) :
    changesOf (first ++ next) = changesOf first ++ changesOf next :=
  List.filterMap_append

theorem changesOf_ended (request : Option ℕ) (ending : Ending) :
    changesOf [(Event.ended request ending : Event Record)] = [] := rfl

theorem replay_append (first next : List (Event Record)) :
    replay (first ++ next) = next.foldl Store.apply (replay first) :=
  List.foldl_append

/-- What was committed before stays in front. -/
theorem foldl_apply_committed (events : List (Event Record)) (committed : List (Change Record))
    (store : Store Record) :
    events.foldl Store.apply ⟨committed ++ store.committed, store.pending⟩ =
      ⟨committed ++ (events.foldl Store.apply store).committed,
        (events.foldl Store.apply store).pending⟩ := by
  induction events generalizing store with
  | nil => rfl
  | cons event events ih =>
    have hstep : Store.apply ⟨committed ++ store.committed, store.pending⟩ event =
        ⟨committed ++ (store.apply event).committed, (store.apply event).pending⟩ := by
      cases event with
      | changed owner call => rfl
      | discarded owner => rfl
      | ended request ending =>
        cases ending with
        | committed => exact congrArg (Store.mk · []) (List.append_assoc _ _ _)
        | commitFailed => rfl
        | rolledBack => rfl
    rw [List.foldl_cons, List.foldl_cons, hstep, ih]

/-- A log behind one that leaves nothing pending is replayed on its own. -/
theorem replay_append_of_pending_eq_nil {first : List (Event Record)}
    (hpending : (replay first).pending = []) (next : List (Event Record)) :
    replay (first ++ next) =
      ⟨(replay first).committed ++ (replay next).committed, (replay next).pending⟩ := by
  obtain ⟨committed, hfirst⟩ : ∃ committed, replay first = ⟨committed, []⟩ :=
    ⟨(replay first).committed, by rw [← hpending]⟩
  have hnext := foldl_apply_committed next committed ⟨[], []⟩
  rw [List.append_nil] at hnext
  rw [replay_append, hfirst]
  exact hnext

variable {events : List (Event Record)}

/-- Assumes: every event changes a row. -/
theorem foldl_apply_of_only_changes (hevents : ∀ event ∈ events, (Event.change? event).isSome)
    (store : Store Record) :
    events.foldl Store.apply store = ⟨store.committed, store.pending ++ changesOf events⟩ := by
  induction events generalizing store with
  | nil => exact congrArg (Store.mk _) (List.append_nil _).symm
  | cons event events ih =>
    have hevent := hevents event List.mem_cons_self
    rw [List.foldl_cons, ih fun other hother ↦ hevents other (List.mem_cons_of_mem _ hother)]
    cases event with
    | changed owner call => exact congrArg (Store.mk _) (List.append_assoc _ _ _)
    | discarded owner => cases hevent
    | ended request ending => cases hevent

/-- The event ends a statement. -/
def Event.isEnd : Event Record → Bool
  | .changed _ _ => false
  | .discarded _ => false
  | .ended _ _ => true

/-- Without the end of a statement nothing is committed. -/
theorem committed_eq_nil_of_no_end (hevents : ∀ event ∈ events, event.isEnd ≠ true) :
    (replay events).committed = [] := by
  have hkept : ∀ store : Store Record,
      (events.foldl Store.apply store).committed = store.committed := by
    induction events with
    | nil => exact fun _ ↦ rfl
    | cons event events ih =>
      intro store
      rw [List.foldl_cons, ih fun other hother ↦ hevents other (List.mem_cons_of_mem _ hother)]
      cases event with
      | changed owner call => rfl
      | discarded owner => rfl
      | ended request ending => exact absurd rfl (hevents _ List.mem_cons_self)
  exact hkept ⟨[], []⟩

variable (events : List (Event Record))

/-- The end of a statement: what is pending is committed, or dropped. -/
theorem replay_concat_ended (request : Option ℕ) (ending : Ending) :
    replay (events ++ [.ended request ending]) =
      ⟨(replay events).committed ++
        (if ending = .committed then (replay events).pending else []), []⟩ := by
  rw [replay_append]
  cases ending with
  | committed => rfl
  | commitFailed => exact congrArg (Store.mk · []) (List.append_nil _).symm
  | rolledBack => exact congrArg (Store.mk · []) (List.append_nil _).symm

/-- A change that is committed or pending was made, and no change is there twice. -/
theorem foldl_apply_sublist (store : Store Record) :
    ((events.foldl Store.apply store).committed ++ (events.foldl Store.apply store).pending).Sublist
      (store.committed ++ store.pending ++ changesOf events) := by
  induction events generalizing store with
  | nil =>
    rw [show changesOf ([] : List (Event Record)) = [] from rfl, List.append_nil]
    exact List.Sublist.refl _
  | cons event events ih =>
    have hdrop : (store.committed ++ []).Sublist (store.committed ++ store.pending) :=
      (List.Sublist.refl _).append (List.nil_sublist _)
    refine (ih (store.apply event)).trans ?_
    cases event with
    | changed owner call =>
      show ((store.committed ++ (store.pending ++ [_])) ++ changesOf events).Sublist
        (store.committed ++ store.pending ++ (_ :: changesOf events))
      rw [← List.append_assoc, List.append_assoc _ [_]]
      exact List.Sublist.refl _
    | discarded owner => exact hdrop.append (List.Sublist.refl _)
    | ended request ending =>
      cases ending with
      | committed =>
        show ((store.committed ++ store.pending ++ []) ++ changesOf events).Sublist _
        rw [List.append_nil]
        exact List.Sublist.refl _
      | commitFailed => exact hdrop.append (List.Sublist.refl _)
      | rolledBack => exact hdrop.append (List.Sublist.refl _)

theorem committed_sublist_changesOf : (replay events).committed.Sublist (changesOf events) :=
  (List.sublist_append_left _ _).trans (foldl_apply_sublist events ⟨[], []⟩)

end TdhSocket.Execute
