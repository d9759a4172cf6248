import TdhSocket.Execute.Atomicity

/-!
# Plain requests that fail halfway

A plain UPDATE or DELETE that fails behind its first rows is answered with an error, but its
statement is ended by a commit: the row handlers note no error (the assignments to `write_error`
are commented out), so the rows it changed before it failed are committed.
`failed_write_commits_nothing_iff` says when nothing of it is committed: when it changed no row, or
when it shares its statement with a batch that failed.
-/

set_option autoImplicit false

namespace TdhSocket.Execute

open Protocol Decode Library Library.Program

variable {Outside Record : Type} {world : World Outside Record} {rounds : ℕ}

/-- The row changes that the storage engine made for a packet. -/
def changesFor (owner : Owner) (changes : List (Change Record)) : List (Change Record) :=
  changes.filter fun change ↦ change.owner = owner

/-- The changes for a packet are among those of its unit. -/
theorem changesFor_ofUnit {unit : Option ℕ} {owner : Owner}
    (hunit : inUnit unit owner.request = true)
    (changes : List (Change Record)) :
    changesFor owner (ofUnit unit changes) = changesFor owner changes := by
  unfold changesFor ofUnit
  rw [List.filter_filter]
  refine List.filter_congr fun change _ ↦ ?_
  by_cases howner : change.owner = owner
  · simp [howner, hunit]
  · simp [howner]

/-- The unit of the request with a number: the whole list with group commit, the request without. -/
def unitOf (groupCommit : Bool) (number : ℕ) : Option ℕ := if groupCommit then none else some number

/-- The unit of a plain request can fail only with group commit, by a batch of the list. -/
theorem unitFailed_unitOf_iff {groupCommit : Bool} {requests : List EasyRequest}
    (hrequests : ∀ request ∈ requests, IsWriteRequest request)
    {start final : Context Outside Record} (hstart : Begins start) {dones : List Done}
    (hreturns :
      tdhsRequestDoreqForWrite world rounds groupCommit requests start = some (dones, final))
    {number : ℕ} {request : EasyRequest} (hrequest : requests[number]? = some request)
    (hnext : request.next = []) :
    unitFailed (unitOf groupCommit number) final.outcomes = true ↔
      groupCommit = true ∧ batchFailed final.outcomes = true := by
  cases groupCommit with
  | true => exact ⟨fun hfailed ↦ ⟨rfl, hfailed⟩, fun hfailed ↦ hfailed.2⟩
  | false =>
    obtain ⟨-, -, -, -, howned⟩ := tdhsRequestDoreqForWrite_each hrequests hstart hreturns
    constructor
    · intro hfailed
      obtain ⟨out, hout, hout'⟩ := List.any_eq_true.mp hfailed
      obtain ⟨hin, hbad⟩ := Bool.and_eq_true_iff.mp hout'
      obtain ⟨other, hother, hposition⟩ := howned out hout
      rw [inUnit_some_iff.mp hin, hrequest] at hother
      rw [← Option.some.inj hother, hnext] at hposition
      have hzero : out.owner.position = 0 := Nat.le_zero.mp hposition
      simp [Outcome.failedInBatch, hzero] at hbad
    · intro hfailed
      cases hfailed.1

/-- Nothing of a plain UPDATE or DELETE is committed, answered with an error or not, if and only if
it changed no row, or the list is committed as a group and a packet behind one of its batches
failed. Assumes: plain writes and batches of them, a request thread before the list, a
storage engine that undoes at most the failing row, and commits that succeed. -/
theorem failed_write_commits_nothing_iff (hundoes : UndoesOnlyTheRow world) {groupCommit : Bool}
    {requests : List EasyRequest} (hrequests : ∀ request ∈ requests, IsWriteRequest request)
    {start final : Context Outside Record} (hstart : Begins start) {dones : List Done}
    (hreturns :
      tdhsRequestDoreqForWrite world rounds groupCommit requests start = some (dones, final))
    (hcommits : ∀ unit, .ended unit .commitFailed ∉ final.events) {number : ℕ}
    {request : EasyRequest} (hrequest : requests[number]? = some request)
    (htype : request.head.type = .update ∨ request.head.type = .delete) :
    changesFor ⟨number, 0⟩ (replay final.events).committed = [] ↔
      changesFor ⟨number, 0⟩ (changesOf final.events) = [] ∨
        (groupCommit = true ∧ ∃ out ∈ final.outcomes, out.owner.position ≠ 0 ∧
          (out.ret ≠ .ok ∨ 300 ≤ out.code)) := by
  have hnext : request.next = [] := by
    rcases hrequests request (List.mem_of_getElem? hrequest) with ⟨-, hnext⟩ | ⟨hbatch, -⟩
    · exact hnext
    · rw [hbatch] at htype
      rcases htype with htype | htype <;> cases htype
  have hnone : (unitOf groupCommit number).isNone = groupCommit := by cases groupCommit <;> rfl
  have hlaw := unitLaw_of_run hundoes hrequests hstart hreturns hnone
  have hunit := unitFailed_unitOf_iff hrequests hstart hreturns hrequest hnext
  have hfailed : batchFailed final.outcomes = true ↔ ∃ out ∈ final.outcomes,
      out.owner.position ≠ 0 ∧ (out.ret ≠ .ok ∨ 300 ≤ out.code) := by
    simp [batchFailed, Outcome.failedInBatch, Outcome.failed]
  have hin : inUnit (unitOf groupCommit number) (⟨number, 0⟩ : Owner).request = true := by
    cases groupCommit with
    | false => exact inUnit_some_iff.mpr rfl
    | true => rfl
  rw [← hfailed, ← hunit, ← changesFor_ofUnit hin (replay final.events).committed,
    ← changesFor_ofUnit hin (changesOf final.events)]
  by_cases hdropped : unitFailed (unitOf groupCommit number) final.outcomes = true
  · rw [hlaw.dropped (Or.inl hdropped)]
    exact ⟨fun _ ↦ Or.inr hdropped, fun _ ↦ rfl⟩
  · have hkept : ¬IsDropped (unitOf groupCommit number)
        (unitFailed (unitOf groupCommit number) final.outcomes) final.events := by
      rintro (hyes | hmem)
      · exact hdropped hyes
      · exact hcommits _ hmem
    rw [hlaw.kept hkept]
    exact ⟨Or.inl, fun hor ↦ hor.resolve_right hdropped⟩

/-- UPDATE of the rows with key 7 to a number. -/
def updateNumber (digit : UInt8) : EasyRequest :=
  ⟨⟨.update, ⟨1, [116, 0], [116, 0], primaryString, [[118, 0]]⟩,
    ⟨1, ⟨10, 10⟩, [⟨1, [[55, 0]]⟩], .eq, 0, 0, ⟨0, []⟩⟩, ⟨1, [⟨.set, [digit, 0]⟩]⟩⟩, 0, []⟩

theorem isWriteRequest_updateNumber (digit : UInt8) :
    ∀ request ∈ [updateNumber digit], IsWriteRequest request := by
  intro request hrequest
  rw [List.mem_singleton.mp hrequest]
  exact Or.inl ⟨Or.inl rfl, rfl⟩

/-- The run of an UPDATE, as far as the witnesses look at it. -/
def viewUpdate (groupCommit : Bool) (script : List ℤ) :
    Option (List (Event ℕ) × ℕ) :=
  (tdhsRequestDoreqForWrite (scriptedWorld fun _ ↦ false) 2 groupCommit [updateNumber 53]
    (scriptedStart script)).map fun result ↦
      (result.2.events, (result.2.response ⟨0, 0⟩).code)

/-- An UPDATE whose first row fails: it changed no row, and nothing of it is committed. -/
theorem failed_write_commits_nothing_iff_first_row :
    ∃ dones final,
      tdhsRequestDoreqForWrite (scriptedWorld fun _ ↦ false) 2 false [updateNumber 53]
        (scriptedStart [121]) = some (dones, final) ∧ (final.response ⟨0, 0⟩).code = 502 ∧
      changesFor ⟨0, 0⟩ (replay final.events).committed = [] := by
  have hview : viewUpdate false [121] = some ([.ended (some 0) .committed], 502) := by
    decide +kernel
  obtain ⟨⟨dones, final⟩, hreturns, hresult⟩ := Option.map_eq_some_iff.mp hview
  obtain ⟨hevents, hcode⟩ := Prod.mk.inj hresult
  have hcommits : ∀ unit, .ended unit .commitFailed ∉ final.events := by
    intro unit hmem
    rw [show final.events = _ from hevents] at hmem
    cases List.mem_singleton.mp hmem
  refine ⟨dones, final, hreturns, hcode, (failed_write_commits_nothing_iff (fun _ ↦ rfl)
    (isWriteRequest_updateNumber 53) (begins_scriptedStart [121]) hreturns hcommits rfl
    (Or.inl rfl)).mpr (Or.inl ?_)⟩
  rw [show final.events = _ from hevents]
  rfl

/-- An UPDATE whose second row fails is answered with an error, and its first row is committed. -/
theorem failed_write_commits_first_row :
    ∃ dones final,
      tdhsRequestDoreqForWrite (scriptedWorld fun _ ↦ false) 2 false [updateNumber 53]
        (scriptedStart [0, 121]) = some (dones, final) ∧
      (final.response ⟨0, 0⟩).code = 502 ∧
      (replay final.events).committed = [⟨⟨0, 0⟩, .haUpdateRow 7 5⟩] := by
  have hview : viewUpdate false [0, 121] =
      some ([.changed ⟨0, 0⟩ (.haUpdateRow 7 5), .ended (some 0) .committed], 502) := by
    decide +kernel
  obtain ⟨⟨dones, final⟩, hreturns, hresult⟩ := Option.map_eq_some_iff.mp hview
  obtain ⟨hevents, hcode⟩ := Prod.mk.inj hresult
  refine ⟨dones, final, hreturns, hcode, ?_⟩
  rw [show final.events = _ from hevents]
  rfl

end TdhSocket.Execute
