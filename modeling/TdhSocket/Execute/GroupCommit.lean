import TdhSocket.Execute.Statement

/-!
# A list of writes with group commit

With group commit the whole list is one statement. `RanBulk` says what the write loop leaves behind
it: one statement in the log, rolled back exactly when a packet behind a batch failed; answers
without a status of success when the statement was dropped, and otherwise the answers that the
packets were given when they were executed (`tdhsRequestDoreqForWrite_bulk`).
-/

set_option autoImplicit false

namespace TdhSocket.Execute

open Protocol Decode Library Library.Program

variable {Outside Record : Type} {world : World Outside Record} {rounds : ℕ}

/-- No answer that is handed over without an error has a packet with a status of success. -/
def IsSilent (dones : List Done) (context : Context Outside Record) : Prop :=
  ∀ done ∈ dones, done.retcode = .ok → ∀ owner ∈ done.packets,
    isSuccess (context.response owner).code = false

/-- What the write loop leaves with group commit. -/
structure RanBulk (world : World Outside Record) (outs : List Outcome)
    (segment : List (Event Record)) (dones : List Done) (start final : Context Outside Record) :
    Prop where
  outcomes : final.outcomes = start.outcomes ++ outs
  events : final.events = start.events ++ segment
  statement : IsStatement world none Set.univ (batchFailed outs) segment
  silent : IsDropped none (batchFailed outs) segment → IsSilent dones final
  answers : ¬IsDropped none (batchFailed outs) segment → AreAnswers outs dones
  answered : ¬IsDropped none (batchFailed outs) segment →
    ∀ out ∈ outs, (final.response out.owner).code = out.code
  success : ¬IsDropped none (batchFailed outs) segment → ∀ done ∈ dones, ∀ owner ∈ done.packets,
    isSuccess (final.response owner).code = true → ∃ out ∈ outs, out.owner = owner

variable {outs : List Outcome} {dones : List Done} {start final : Context Outside Record}

/-- Dropping the requests that returned `EASY_ASYNC` keeps the answers. -/
theorem AreAnswers.filter (hanswers : AreAnswers outs dones) :
    AreAnswers outs (dones.filter fun done ↦ done.retcode != .async) where
  first done hdone := hanswers.first done (List.mem_of_mem_filter hdone)
  whole hnone out hout hok := by
    obtain ⟨done, hdone, hret, hpackets⟩ := hanswers.whole hnone out hout hok
    refine ⟨done, List.mem_filter.mpr ⟨hdone, ?_⟩, hret, hpackets⟩
    rw [hret]
    rfl

/-- The process loop and the end of the statement. Assumes: the loop is one piece of work for
packets that had no success before it. -/
theorem ranBulk_of_shares {owners : Set Owner} {rewritten : List Done}
    {middle : Context Outside Record} (hshares : Shares world owners outs start middle)
    (hwriteError : start.writeError = false) (hanswers : AreAnswers outs dones)
    (hfresh : ∀ done ∈ dones, ∀ owner ∈ done.packets,
      isSuccess (start.response owner).code = false)
    (hreturns : (do
      let commitRet ← unlockTable world true
      if commitRet ≠ .ok then Program.each (rewriteDone world) dones else pure dones :
        Execution Outside Record (List Done)) middle = some (rewritten, final)) :
    ∃ segment, RanBulk world outs segment rewritten start final := by
  obtain ⟨commitRet, unlocked, hunlock, hreturns⟩ := bind_eq_some.mp hreturns
  obtain ⟨_, ended, hended, hunlock⟩ := bind_eq_some.mp hunlock
  cases hunlock
  have hends := tdhsUnlockTable_ends hended
  have hanswered : ∀ out ∈ outs, (ended.response out.owner).code = out.code := by
    rw [hends.response]
    exact hshares.answered
  have hsuccess : ∀ done ∈ dones, ∀ owner ∈ done.packets,
      isSuccess (ended.response owner).code = true → ∃ out ∈ outs, out.owner = owner := by
    rw [hends.response]
    intro done hdone owner howner htrue
    rcases hshares.success owner htrue with hstart | hout
    · rw [hfresh done hdone owner howner] at hstart
      cases hstart
    · exact hout
  obtain ⟨segment, hsegment, hstatement, hcases⟩ :=
    (hshares.mono (Set.subset_univ owners)).isStatement hwriteError hends
  split_ifs at hreturns with hcommitRet
  · obtain ⟨hidle, hsilent⟩ := each_rewriteDone_silences hreturns
    have hyes : IsDropped none (batchFailed outs) segment := by
      rcases hcases with ⟨-, hok⟩ | hdropped
      · exact absurd hok hcommitRet
      · exact hdropped.mpr hcommitRet
    exact ⟨segment, hidle.outcomes.trans (hends.outcomes.trans hshares.outcomes),
      hidle.events.trans hsegment, hstatement, fun _ ↦ hsilent, fun hno ↦ absurd hyes hno,
      fun hno ↦ absurd hyes hno, fun hno ↦ absurd hyes hno⟩
  · cases hreturns
    refine ⟨segment, hends.outcomes.trans hshares.outcomes, hsegment, hstatement, ?_,
      fun _ ↦ hanswers, fun _ ↦ hanswered, fun _ ↦ hsuccess⟩
    intro hyes done hdone _ owner howner
    rcases hcases with ⟨hlock, -⟩ | hdropped
    · -- the table lock was never had, so nothing succeeded
      rw [hends.response]
      by_contra htrue
      have hstart := (hshares.unlocked hlock).2 owner
        (Bool.eq_true_of_not_eq_false htrue)
      rw [hfresh done hdone owner howner] at hstart
      cases hstart
    · exact absurd (hdropped.mp hyes) hcommitRet

/-- The write loop with group commit. Assumes: plain writes and batches of them, and a request
thread that is at rest. -/
theorem tdhsRequestDoreqForWrite_bulk {requests : List EasyRequest}
    (hrequests : ∀ request ∈ requests, IsWriteRequest request)
    (hwriteError : start.writeError = false) (hinBatch : start.inBatch = false)
    (hreturns : tdhsRequestDoreqForWrite world rounds true requests start = some (dones, final)) :
    ∃ outs segment, RanBulk world outs segment dones start final := by
  obtain ⟨chains, opened, hopen, hreturns⟩ := bind_eq_some.mp hreturns
  obtain ⟨hidle, hnumbers, hchains, hfresh⟩ := openAll_idle hopen
  split_ifs at hreturns with hempty
  · cases hreturns
    refine ⟨[], [], hidle.outcomes.trans (List.append_nil _).symm,
      hidle.events.trans (List.append_nil _).symm, Or.inl rfl, ?_, ?_, ?_, ?_⟩
    · exact fun _ ↦ List.forall_mem_nil _
    · exact fun _ ↦ ⟨List.forall_mem_nil _,
        fun _ ↦ List.forall_mem_nil _⟩
    · exact fun _ ↦ List.forall_mem_nil _
    · exact fun _ ↦ List.forall_mem_nil _
  · obtain ⟨_, locked, hlock, hreturns⟩ := bind_eq_some.mp hreturns
    have hlocks := lockTable_locks hlock
    obtain ⟨processed, middle, hprocessed, hreturns⟩ := bind_eq_some.mp hreturns
    have hwrite : ∀ chain ∈ chains, IsWriteChain chain := by
      intro chain hchain
      obtain ⟨index, request, -, hrequest, hopenedChain⟩ := hchains chain hchain
      exact hopenedChain.isWriteChain (hrequests request (List.mem_of_getElem? hrequest))
    have hnodup : (chains.map OpenedChain.number).Nodup := by
      rw [hnumbers]
      exact List.nodup_range'
    have hlockedBatch := hlocks.inBatch.trans (hidle.inBatch.trans hinBatch)
    have hlockedError := hlocks.writeError.trans (hidle.writeError.trans hwriteError)
    obtain ⟨outs, hshares, hanswers, hpackets⟩ :=
      each_processRequest_shares hwrite hnodup hlockedBatch hprocessed
    have hfreshDone : ∀ done ∈ processed.filter (fun done ↦ done.retcode != .async),
        ∀ owner ∈ done.packets, isSuccess (locked.response owner).code = false := by
      intro done hdone owner howner
      rw [hlocks.response]
      obtain ⟨chain, hchain, hsubset⟩ := hpackets done (List.mem_of_mem_filter hdone)
      exact hfresh chain hchain owner (hsubset howner)
    obtain ⟨segment, hran⟩ := ranBulk_of_shares hshares hlockedError hanswers.filter
      hfreshDone hreturns
    exact ⟨outs, segment, { hran with
      outcomes := by rw [hran.outcomes, hlocks.outcomes, hidle.outcomes]
      events := by rw [hran.events, hlocks.events, hidle.events] }⟩

end TdhSocket.Execute
