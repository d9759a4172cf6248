import Mathlib.Data.List.Induction
import TdhSocket.Execute.PlainFailure

/-!
# Acknowledged requests and deadlocks

With group commit the requests of a list share one transaction. An error that makes the storage
engine give up the transaction, as for the victim of a deadlock, drops the changes of every request
before it; the statement is then committed, and those requests stay answered with 200.
`acknowledged_committed_iff` says exactly when every request answered with 200 has its changes
committed: when a batch of the list failed or the commit failed, so that all answers are replaced,
or when no such error finds pending changes of a request that is answered with 200 (`Spares`).
-/

set_option autoImplicit false

namespace TdhSocket.Execute

open Protocol Decode Library Library.Program

variable {Outside Record : Type} {world : World Outside Record} {rounds : ℕ}

/-- Wherever the transaction is given up, no change of the packet is pending. -/
def SparesPacket (events : List (Event Record)) (owner : Owner) : Prop :=
  ∀ before after victim, events = before ++ .discarded victim :: after →
    changesFor owner (replay before).pending = []

/-- Wherever the transaction is given up, no change of a packet that is answered with 200 is
pending. -/
def Spares (events : List (Event Record)) (outs : List Outcome) : Prop :=
  ∀ owner, ⟨owner, .ok, clientStatusOk⟩ ∈ outs → SparesPacket events owner

theorem changesFor_append (owner : Owner) (first next : List (Change Record)) :
    changesFor owner (first ++ next) = changesFor owner first ++ changesFor owner next :=
  List.filter_append _ _

/-- A packet that is spared keeps all its changes. Assumes: a piece of a log without the end of a
statement. -/
theorem changesFor_pending_of_sparesPacket {owner : Owner} {events : List (Event Record)}
    (hspares : SparesPacket events owner) (hevents : ∀ event ∈ events, event.isEnd ≠ true) :
    changesFor owner (replay events).pending = changesFor owner (changesOf events) := by
  induction events using List.reverseRecOn with
  | nil => rfl
  | append_singleton events event ih =>
    have hbefore : SparesPacket events owner := by
      intro before after victim hsplit
      refine hspares before (after ++ [event]) victim ?_
      rw [hsplit, List.append_assoc]
      rfl
    have hpending := ih hbefore fun other hother ↦ hevents other (List.mem_append_left _ hother)
    rw [replay_append, changesOf_append, changesFor_append, ← hpending]
    cases event with
    | changed victim call => exact changesFor_append _ _ _
    | discarded victim =>
      have hnone := hspares events [] victim rfl
      rw [hnone]
      rfl
    | ended request ending =>
      exact absurd rfl (hevents _ (List.mem_append_right _ (List.mem_singleton_self _)))

/-- What was pending when the transaction was given up is not among the changes that are left. -/
theorem length_changesFor_lt {owner victim : Owner} {before after : List (Event Record)}
    (hevents : ∀ event ∈ before, event.isEnd ≠ true)
    (hpending : changesFor owner (replay before).pending ≠ []) :
    (changesFor owner (replay (before ++ .discarded victim :: after)).committed).length <
      (changesFor owner (changesOf (before ++ .discarded victim :: after))).length := by
  have hstore : replay (before ++ .discarded victim :: after) =
      after.foldl Store.apply ⟨[], []⟩ := by
    rw [replay_append, List.foldl_cons]
    show after.foldl Store.apply ⟨(replay before).committed, []⟩ = _
    rw [committed_eq_nil_of_no_end hevents]
  have hleft : (changesFor owner (replay (before ++ .discarded victim :: after)).committed).Sublist
      (changesFor owner (changesOf after)) := by
    rw [hstore]
    exact (committed_sublist_changesOf after).filter _
  have hmade : changesFor owner (changesOf before) ≠ [] := by
    intro hnone
    have hsublist : (replay before).pending.Sublist (changesOf before) :=
      (List.sublist_append_right _ _).trans (foldl_apply_sublist before ⟨[], []⟩)
    refine hpending (List.eq_nil_of_subset_nil ?_)
    rw [← hnone]
    exact (hsublist.filter _).subset
  have hsplit : changesOf (before ++ .discarded victim :: after) =
      changesOf before ++ changesOf after := changesOf_append _ _
  rw [hsplit, changesFor_append, List.length_append]
  have hle := hleft.length_le
  have hpos := List.length_pos_iff.mpr hmade
  omega

/-- The packets that are answered with 200 are those with such an outcome. Assumes: the statement
of the list was not dropped. -/
theorem RanBulk.answered_iff {outs : List Outcome} {segment : List (Event Record)}
    {dones : List Done} {start final : Context Outside Record}
    (hran : RanBulk world outs segment dones start final)
    (hkept : ¬IsDropped none (batchFailed outs) segment) (owner : Owner) :
    (∃ done ∈ dones, done.retcode = .ok ∧ owner ∈ done.packets ∧
      (final.response owner).code = clientStatusOk) ↔ ⟨owner, .ok, clientStatusOk⟩ ∈ outs := by
  have hnone : batchFailed outs = false :=
    Bool.eq_false_of_not_eq_true fun hyes ↦ hkept (Or.inl hyes)
  constructor
  · rintro ⟨done, hdone, hret, howner, hcode⟩
    have hsuccess : isSuccess (final.response owner).code = true := by
      rw [hcode]
      rfl
    obtain ⟨out, hout, rfl⟩ := hran.success hkept done hdone owner howner hsuccess
    have houtRet : out.ret = .ok := by
      by_cases hplace : out.owner.position = 0
      · rw [(hran.answers hkept).first done hdone out hout howner hplace, hret]
      · have hfine := List.any_eq_false.mp hnone out hout
        by_contra hbad
        exact hfine (by simp [Outcome.failedInBatch, Outcome.failed, hplace, hbad])
    have houtCode : out.code = clientStatusOk := by
      rw [← hran.answered hkept out hout, hcode]
    rw [← houtRet, ← houtCode]
    exact hout
  · intro hout
    obtain ⟨done, hdone, hret, howner⟩ := (hran.answers hkept).whole hnone _ hout rfl
    exact ⟨done, hdone, hret, howner, hran.answered hkept _ hout⟩

/-- In a statement that was committed, a packet has all its changes committed if and only if it was
spared. -/
theorem changesFor_committed_iff {owners : Set Owner} {segment : List (Event Record)}
    {failed : Bool} (hstatement : IsStatement world none owners failed segment)
    (hkept : ¬IsDropped none failed segment) (owner : Owner) :
    changesFor owner (replay segment).committed = changesFor owner (changesOf segment) ↔
      SparesPacket segment owner := by
  rcases hstatement with rfl | ⟨more, ending, rfl, hby, hrolledBack⟩
  · refine ⟨fun _ before after victim hsplit ↦ ?_, fun _ ↦ rfl⟩
    exact absurd hsplit (List.append_ne_nil_of_right_ne_nil _ (List.cons_ne_nil _ _)).symm
  · have hnoEnd : ∀ event ∈ more, event.isEnd ≠ true := by
      intro event hevent hend
      obtain ⟨_, -, hevent⟩ := hby event hevent
      cases event with
      | changed other call => cases hend
      | discarded other => cases hend
      | ended request ending => exact hevent
    have hending : ending = .committed := by
      by_contra hnot
      exact hkept ((isDropped_concat_ended_iff hby hrolledBack).mpr hnot)
    subst hending
    constructor
    · intro hcommitted before after victim hsplit
      by_contra hpending
      have hbefore : before <+: more := by
        rcases List.prefix_concat_iff.mp ⟨_, hsplit.symm⟩ with hwhole | hbefore
        · have hlength := congrArg List.length hsplit
          simp [hwhole] at hlength
        · exact hbefore
      have hlt := @length_changesFor_lt _ owner victim before after
        (fun event hevent ↦ hnoEnd event (hbefore.subset hevent)) hpending
      rw [← hsplit, hcommitted] at hlt
      exact lt_irrefl _ hlt
    · intro hspares
      have hmore : SparesPacket more owner := by
        intro before after victim hsplit
        refine hspares before (after ++ [.ended none .committed]) victim ?_
        rw [hsplit, List.append_assoc]
        rfl
      rw [replay_concat_ended, if_pos rfl, committed_eq_nil_of_no_end hnoEnd, List.nil_append,
        changesOf_append, changesOf_ended, List.append_nil]
      exact changesFor_pending_of_sparesPacket hmore hnoEnd

/-- With group commit, every packet that is answered with 200 has all its changes committed if and
only if a packet behind a batch failed, or the commit failed, or the storage engine gives the
transaction up only where no change of a packet that is answered with 200 is pending. Assumes:
plain writes and batches of them, and a request thread before the list. -/
theorem acknowledged_committed_iff {requests : List EasyRequest}
    (hrequests : ∀ request ∈ requests, IsWriteRequest request)
    {start final : Context Outside Record} (hstart : Begins start) {dones : List Done}
    (hreturns : tdhsRequestDoreqForWrite world rounds true requests start = some (dones, final)) :
    (∀ done ∈ dones, done.retcode = .ok → ∀ owner ∈ done.packets,
      (final.response owner).code = clientStatusOk →
        changesFor owner (replay final.events).committed =
          changesFor owner (changesOf final.events)) ↔
      (batchFailed final.outcomes = true ∨ .ended none .commitFailed ∈ final.events) ∨
        Spares final.events final.outcomes := by
  obtain ⟨outs, segment, hran⟩ :=
    tdhsRequestDoreqForWrite_bulk hrequests hstart.writeError hstart.inBatch hreturns
  have hevents : final.events = segment := by rw [hran.events, hstart.events, List.nil_append]
  have houtcomes : final.outcomes = outs := by
    rw [hran.outcomes, hstart.outcomes, List.nil_append]
  rw [hevents, houtcomes]
  by_cases hdropped : IsDropped none (batchFailed outs) segment
  · refine ⟨fun _ ↦ Or.inl hdropped, fun _ done hdone hret owner howner hcode ↦ ?_⟩
    have hsilent := hran.silent hdropped done hdone hret owner howner
    rw [hcode] at hsilent
    cases hsilent
  · have hiff := changesFor_committed_iff hran.statement hdropped
    constructor
    · refine fun hall ↦ Or.inr fun owner hout ↦ ?_
      obtain ⟨done, hdone, hret, howner, hcode⟩ := (hran.answered_iff hdropped owner).mpr hout
      exact (hiff owner).mp (hall done hdone hret owner howner hcode)
    · intro hor done hdone hret owner howner hcode
      have hspares := hor.resolve_left hdropped
      exact (hiff owner).mpr (hspares owner
        ((hran.answered_iff hdropped owner).mp ⟨done, hdone, hret, howner, hcode⟩))

/-- An INSERT and an UPDATE on one list. -/
def insertThenUpdate : List EasyRequest := [⟨insertNumber 49, 0, []⟩, updateNumber 53]

theorem isWriteRequest_insertThenUpdate :
    ∀ request ∈ insertThenUpdate, IsWriteRequest request := by
  intro request hrequest
  rcases List.mem_cons.mp hrequest with rfl | hrequest
  · exact Or.inl ⟨Or.inr (Or.inr rfl), rfl⟩
  · exact isWriteRequest_updateNumber 53 request hrequest

/-- The run of an INSERT and an UPDATE in a storage engine that gives the transaction up with
`HA_ERR_LOCK_DEADLOCK`. -/
def runInsertThenUpdate (script : List ℤ) : Option (List Done × Context (List ℤ) ℕ) :=
  tdhsRequestDoreqForWrite (scriptedWorld (· == 149)) 2 true insertThenUpdate
    (scriptedStart script)

/-- An UPDATE that fails without a deadlock takes nothing from the INSERT before it. -/
theorem acknowledged_committed_iff_duplicate_key :
    ∃ dones final, runInsertThenUpdate [0, 121] = some (dones, final) ∧
      ∀ done ∈ dones, done.retcode = .ok → ∀ owner ∈ done.packets,
        (final.response owner).code = clientStatusOk →
          changesFor owner (replay final.events).committed =
            changesFor owner (changesOf final.events) := by
  have hview : (runInsertThenUpdate [0, 121]).map (fun result ↦ result.2.events) =
      some [.changed ⟨0, 0⟩ (.haWriteRow 1), .ended none .committed] := by
    decide +kernel
  obtain ⟨⟨dones, final⟩, hreturns, hevents⟩ := Option.map_eq_some_iff.mp hview
  refine ⟨dones, final, hreturns, (acknowledged_committed_iff isWriteRequest_insertThenUpdate
    (begins_scriptedStart [0, 121]) hreturns).mpr
      (Or.inr fun owner _ before after victim hsplit ↦ ?_)⟩
  have hmem : .discarded victim ∈ final.events := by
    rw [hsplit]
    exact List.mem_append_right _ List.mem_cons_self
  rw [show final.events = _ from hevents] at hmem
  simp at hmem

/-- The UPDATE is the victim of a deadlock: the INSERT before it is answered with 200 and its row
is not there. -/
theorem acknowledged_insert_lost :
    ∃ dones final, runInsertThenUpdate [0, 149] = some (dones, final) ∧
      ⟨0, .ok, [⟨0, 0⟩]⟩ ∈ dones ∧ (final.response ⟨0, 0⟩).code = clientStatusOk ∧
      changesFor ⟨0, 0⟩ (changesOf final.events) = [⟨⟨0, 0⟩, .haWriteRow 1⟩] ∧
      (replay final.events).committed = [] := by
  have hview : (runInsertThenUpdate [0, 149]).map (fun result ↦
      (result.1, (result.2.response ⟨0, 0⟩).code, result.2.events)) =
        some ([⟨0, .ok, [⟨0, 0⟩]⟩, ⟨1, .ok, [⟨1, 0⟩]⟩], 200,
          [.changed ⟨0, 0⟩ (.haWriteRow 1), .discarded ⟨1, 0⟩, .ended none .committed]) := by
    decide +kernel
  obtain ⟨⟨dones, final⟩, hreturns, hresult⟩ := Option.map_eq_some_iff.mp hview
  obtain ⟨hdones, hresult⟩ := Prod.mk.inj hresult
  obtain ⟨hcode, hevents⟩ := Prod.mk.inj hresult
  refine ⟨dones, final, hreturns, ?_, hcode, ?_, ?_⟩
  · rw [show dones = _ from hdones]
    exact List.mem_cons_self
  · rw [show final.events = _ from hevents]
    rfl
  · rw [show final.events = _ from hevents]
    rfl

end TdhSocket.Execute
