import TdhSocket.Execute.GroupCommit

/-!
# Writes without group commit

Without group commit each request of a list has a statement of its own: a plain write under its
table locker, a batch in `do_batch_with_lock`. `Alone` says what the dispatch of one request leaves
behind it, a statement for the packets of that request, and no status of success on them when the
statement was dropped. `RanAlone` is the same for a request with its answer
(`processRequest_alone`).
-/

set_option autoImplicit false

namespace TdhSocket.Execute

open Protocol Decode Library Library.Program

variable {Outside Record : Type} {world : World Outside Record} {rounds : ℕ}

/-- The context of a request thread between two requests without group commit. -/
structure AtRest (context : Context Outside Record) : Prop where
  lock : context.lock = false
  writeError : context.writeError = false
  inBatch : context.inBatch = false

/-- What the dispatch of one request does to the context without group commit. -/
structure Alone (world : World Outside Record) (number : ℕ) (packets : List Owner) (ret : RetCode)
    (outs : List Outcome) (segment : List (Event Record)) (start final : Context Outside Record) :
    Prop where
  atRest : AtRest final
  outcomes : final.outcomes = start.outcomes ++ outs
  owned : ∀ out ∈ outs, out.owner ∈ packets
  events : final.events = start.events ++ segment
  statement : IsStatement world (some number) (ofRequest number) (batchFailed outs) segment
  others : ∀ owner, owner.request ≠ number → isSuccess (final.response owner).code = true →
    isSuccess (start.response owner).code = true
  silent : IsDropped (some number) (batchFailed outs) segment → ret = .ok →
    ∀ owner ∈ packets, isSuccess (final.response owner).code = false

variable {ret : RetCode} {number : ℕ} {value : Unit}

/-- An error response to the first packet ends the request without a statement. -/
theorem alone_of_tdhsResponseError (number : ℕ) {owner : Owner} {status code : ℕ}
    {start final : Context Outside Record} (hstart : AtRest start) {packets : List Owner}
    (hfresh : ∀ packet ∈ packets, isSuccess (start.response packet).code = false)
    (hstatus : IsErrorStatus status)
    (hreturns : tdhsResponseError world owner status code start = some (ret, final)) :
    Alone world number packets ret [] [] start final := by
  obtain ⟨hidle, -⟩ := tdhsResponseError_idle hstatus hreturns
  exact ⟨⟨hidle.lock.trans hstart.lock, hidle.writeError.trans hstart.writeError,
      hidle.inBatch.trans hstart.inBatch⟩,
    hidle.outcomes.trans (List.append_nil _).symm, List.forall_mem_nil _,
    hidle.events.trans (List.append_nil _).symm, Or.inl rfl,
    fun other _ hother ↦ hidle.success other hother,
    fun _ _ packet hpacket ↦ hidle.fresh (hfresh packet hpacket)⟩

variable {start final : Context Outside Record}

/-- The end of a statement without group commit. Assumes: not inside a batch. -/
theorem unlockTables_ends (hinBatch : start.inBatch = false)
    (hreturns : unlockTables world false number start = some (ret, final)) :
    ∃ ended, Ends (some number) ret start ended ∧ final = { ended with writeError := false } := by
  obtain ⟨inBatch, _, hread, hreturns⟩ := bind_eq_some.mp hreturns
  cases hread
  rw [hinBatch] at hreturns
  obtain ⟨_, ended, hended, hreturns⟩ := bind_eq_some.mp hreturns
  cases hreturns
  exact ⟨ended, tdhsUnlockTable_ends hended, rfl⟩

/-! ### Plain writes -/

/-- The destructor of the table locker replaces a status of success when the statement was dropped.
Assumes: not inside a batch. -/
theorem releaseTableLocker_ends {owner : Owner} (hinBatch : start.inBatch = false)
    (hreturns : releaseTableLocker world false owner start = some (value, final)) :
    ∃ ret ended, Ends (some owner.request) ret start ended ∧ AtRest final ∧
      final.events = ended.events ∧ final.outcomes = start.outcomes ∧
      (∀ other, isSuccess (final.response other).code = true →
        isSuccess (start.response other).code = true) ∧
      (ret ≠ .ok → isSuccess (final.response owner).code = false) := by
  obtain ⟨ret, unlocked, hunlock, hreturns⟩ := bind_eq_some.mp hreturns
  obtain ⟨ended, hends, rfl⟩ := unlockTables_ends hinBatch hunlock
  obtain ⟨response, _, hread, hreturns⟩ := bind_eq_some.mp hreturns
  cases hread
  have hrest : AtRest ({ ended with writeError := false } : Context Outside Record) :=
    ⟨hends.lock, rfl, hends.inBatch.trans hinBatch⟩
  have hsame : ∀ other, (ended.response other).code = (start.response other).code := by
    rw [hends.response]
    exact fun _ ↦ rfl
  refine ⟨ret, ended, hends, ?_⟩
  split_ifs at hreturns with hfailed
  · obtain ⟨retcode, answered, hanswer, hreturns⟩ := bind_eq_some.mp hreturns
    cases hreturns
    obtain ⟨hidle, hsilent⟩ := tdhsResponseError_idle (by decide : 400 ≤ 500) hanswer
    refine ⟨⟨hidle.lock.trans hrest.lock, hidle.writeError, hidle.inBatch.trans hrest.inBatch⟩,
      hidle.events, hidle.outcomes.trans hends.outcomes, fun other hother ↦ ?_, fun _ ↦ hsilent⟩
    rw [← hsame]
    exact hidle.success other hother
  · cases hreturns
    refine ⟨hrest, rfl, hends.outcomes, fun other hother ↦ ?_, fun hret ↦ ?_⟩
    · rw [← hsame]
      exact hother
    · exact Bool.eq_false_of_not_eq_true fun hsuccess ↦ hfailed ⟨hret, hsuccess⟩

variable {work : Work Record} {chain : OpenedChain Record}

/-- A plain write under its table locker. Assumes: a request thread at rest. -/
theorem withTableLocker_alone {table : Table Record} {address : ℕ} (hstart : AtRest start)
    (hreturns : withTableLocker world false work.owner address (lockedBody world rounds work table)
      start = some (ret, final)) :
    ∃ segment, Alone world work.owner.request [work.owner] ret [] segment start final := by
  obtain ⟨_, locked, hlock, hreturns⟩ := bind_eq_some.mp hreturns
  have hlocks := lockTables_locks hstart.inBatch hlock
  obtain ⟨_, worked, hbody, hreturns⟩ := bind_eq_some.mp hreturns
  have hworks := keeps_lockedBody work table locked locked _ worked
    (Works.refl world work.owner locked) hbody
  obtain ⟨_, released, hrelease, hreturns⟩ := bind_eq_some.mp hreturns
  cases hreturns
  have hworkedBatch := hworks.inBatch.trans (hlocks.inBatch.trans hstart.inBatch)
  obtain ⟨endRet, ended, hends, hrest, hevents, houtcomes, hsuccess, hsilent⟩ :=
    releaseTableLocker_ends hworkedBatch hrelease
  obtain ⟨more, hmore, hby⟩ := hworks.events
  have hunlocked : worked.lock = false → more = [] ∧
      isSuccess (worked.response work.owner).code = false := by
    intro hlocked
    obtain ⟨hsame, hcode⟩ := lockedBody_of_unlocked (hworks.lock.symm.trans hlocked) hbody
    rw [hmore] at hsame
    exact ⟨List.append_right_eq_self.mp hsame, isSuccess_of_isErrorStatus hcode⟩
  have hrequest : ∀ event ∈ more, ∃ owner ∈ ofRequest work.owner.request,
      event.By world owner := fun event hevent ↦ ⟨work.owner, rfl, hby event hevent⟩
  obtain ⟨segment, hsegment, hstatement, hcases⟩ := hends.isStatement hmore hrequest
    (hworks.writeError.trans (hlocks.writeError.trans hstart.writeError))
    (fun hlocked ↦ (hunlocked hlocked).1)
  refine ⟨segment, hrest, ?_, List.forall_mem_nil _, ?_, hstatement, ?_, ?_⟩
  · rw [houtcomes, hworks.outcomes, hlocks.outcomes, List.append_nil]
  · rw [hevents, hsegment, hlocks.events]
  · intro other hother htrue
    have hworked := hsuccess other htrue
    rw [hworks.response other fun hsame ↦ hother (congrArg Owner.request hsame),
      hlocks.response] at hworked
    exact hworked
  · intro hdropped _ owner howner
    rw [List.mem_singleton.mp howner]
    rcases hcases with ⟨hlocked, -⟩ | ⟨-, hiff⟩
    · by_contra htrue
      have hworked := hsuccess work.owner (Bool.eq_true_of_not_eq_false htrue)
      rw [(hunlocked hlocked).2] at hworked
      cases hworked
    · exact hsilent (hiff.mp hdropped)

theorem resetCounters_eq (hreturns : resetCounters work start = some (value, final)) :
    ∃ updateRowNum changeRowNum,
      final = { start with updateRowNum := updateRowNum, changeRowNum := changeRowNum } := by
  unfold resetCounters at hreturns
  split_ifs at hreturns
  · cases hreturns
    exact ⟨_, _, rfl⟩
  · cases hreturns
    exact ⟨_, _, rfl⟩

/-- The dispatch of a plain write. Assumes: a request thread at rest, and no success on the packet.
-/
theorem dispatch_plain_alone (hplain : IsPlainWrite work.request.type)
    (hstart : AtRest start)
    (hfresh : isSuccess (start.response work.owner).code = false) {rest : List (Work Record)}
    {loop : Execution Outside Record RetCode}
    (hreturns : dispatch world rounds false work rest loop start = some (ret, final)) :
    ∃ segment, Alone world work.owner.request [work.owner] ret [] segment start final := by
  rw [dispatch_of_isPlainWrite hplain] at hreturns
  obtain ⟨_, reset, hreset, hreturns⟩ := bind_eq_some.mp hreturns
  obtain ⟨updateRowNum, changeRowNum, rfl⟩ := resetCounters_eq hreset
  have hrest : AtRest { start with updateRowNum := updateRowNum, changeRowNum := changeRowNum } :=
    ⟨hstart.lock, hstart.writeError, hstart.inBatch⟩
  have hpacket : ∀ packet ∈ [work.owner], isSuccess (start.response packet).code = false := by
    intro packet hpacket
    rw [List.mem_singleton.mp hpacket]
    exact hfresh
  cases hopened : work.opened with
  | noMemory =>
    rw [hopened] at hreturns
    exact ⟨[], { alone_of_tdhsResponseError _ hrest hpacket (by decide : 400 ≤ 500)
      hreturns with }⟩
  | notOpened =>
    rw [hopened] at hreturns
    exact ⟨[], { alone_of_tdhsResponseError _ hrest hpacket (by decide : 400 ≤ 404)
      hreturns with }⟩
  | opened address table =>
    rw [hopened] at hreturns
    obtain ⟨segment, halone⟩ := withTableLocker_alone hrest hreturns
    exact ⟨segment, { halone with }⟩

/-! ### Batches -/

theorem stackLiker_eq {size : ℕ} {memory : Bool}
    (hreturns : stackLiker world size start = some (memory, final)) :
    ∃ outside, final = { start with outside := outside } := by
  unfold stackLiker at hreturns
  split_ifs at hreturns
  · cases hreturns
    exact ⟨_, rfl⟩
  · cases hreturns
    exact ⟨_, rfl⟩

/-- A batch with its statement. Assumes: a chain of plain writes behind the batch, a request thread
at rest, and no success on the packets. -/
theorem doBatchWithLock_alone (hchain : IsWriteChain chain) (hplain : ArePlain chain.rest)
    (hstart : AtRest start)
    (hfresh : ∀ packet ∈ chain.packets, isSuccess (start.response packet).code = false)
    (hreturns : doBatchWithLock world false chain.head chain.rest
      (executeBatch world rounds false chain.rest) start = some (ret, final)) :
    ∃ outs segment, Alone world chain.number chain.packets ret outs segment start final := by
  obtain ⟨memory, asked, hasked, hreturns⟩ := bind_eq_some.mp hreturns
  obtain ⟨outside, rfl⟩ := stackLiker_eq hasked
  have hrest : AtRest { start with outside := outside } :=
    ⟨hstart.lock, hstart.writeError, hstart.inBatch⟩
  split_ifs at hreturns
  · exact ⟨[], [], { alone_of_tdhsResponseError _ hrest hfresh (by decide : 400 ≤ 500)
      hreturns with }⟩
  · obtain ⟨_, locked, hlock, hreturns⟩ := bind_eq_some.mp hreturns
    have hlocks := lockTables_locks hrest.inBatch hlock
    obtain ⟨batchRet, batched, hbatch, hreturns⟩ := bind_eq_some.mp hreturns
    have hnot := hchain.head ▸ hplain.head_notMem chain.number
    obtain ⟨outs, hshares, -, -, -⟩ :=
      doBatch_shares hplain hnot (hlocks.inBatch.trans hstart.inBatch) hbatch
    have hwork := hshares.mono hchain.subset_ofRequest
    obtain ⟨endRet, unlocked, hunlock, hreturns⟩ := bind_eq_some.mp hreturns
    rw [hchain.head] at hunlock
    obtain ⟨ended, hends, rfl⟩ := unlockTables_ends
      (hshares.inBatch.trans (hlocks.inBatch.trans hstart.inBatch)) hunlock
    obtain ⟨segment, hsegment, hstatement, hcases⟩ :=
      hwork.isStatement (hlocks.writeError.trans hstart.writeError) hends
    refine ⟨outs, segment, ?_⟩
    have houtcomes : ended.outcomes = start.outcomes ++ outs := by
      rw [hends.outcomes, hshares.outcomes, hlocks.outcomes]
    have howned : ∀ out ∈ outs, out.owner ∈ chain.packets :=
      fun out hout ↦ List.mem_cons.mpr (hshares.owned out hout)
    have hevents : ended.events = start.events ++ segment := by
      rw [hsegment, hlocks.events]
    have hendedRest : AtRest ({ ended with writeError := false } : Context Outside Record) :=
      ⟨hends.lock, rfl, hends.inBatch.trans
        (hshares.inBatch.trans (hlocks.inBatch.trans hstart.inBatch))⟩
    have hothers : ∀ owner : Owner, owner.request ≠ chain.number →
        isSuccess (ended.response owner).code = true →
          isSuccess (start.response owner).code = true := by
      intro owner howner hsuccess
      rwa [hends.response, hwork.response owner howner, hlocks.response] at hsuccess
    split_ifs at hreturns with hrewrite
    · obtain ⟨hidle, hsilent⟩ := rewriteUntilError_silences hreturns
      exact ⟨⟨hidle.lock.trans hendedRest.lock, hidle.writeError,
          hidle.inBatch.trans hendedRest.inBatch⟩, hidle.outcomes.trans houtcomes, howned,
        hidle.events.trans hevents, hstatement,
        fun owner howner hsuccess ↦ hothers owner howner (hidle.success owner hsuccess),
        fun _ hret ↦ hsilent hret⟩
    · cases hreturns
      refine ⟨hendedRest, houtcomes, howned, hevents, hstatement, hothers, ?_⟩
      intro hdropped hret packet hpacket
      rcases hcases with ⟨hlock, -⟩ | hiff
      · -- the table lock was not had, so nothing succeeded
        rw [hends.response]
        by_contra htrue
        have hlocked := (hshares.unlocked hlock).2 packet (Bool.eq_true_of_not_eq_false htrue)
        rw [hlocks.response] at hlocked
        have hnone := hfresh packet hpacket
        rw [show isSuccess (start.response packet).code = true from hlocked] at hnone
        cases hnone
      · exact absurd ⟨hiff.mp hdropped, hret⟩ hrewrite

/-! ### Requests -/

theorem ask_eq {Value : Type} {call : Outside → Value × Outside} {value : Value}
    (hreturns : ask call start = some (value, final)) :
    ∃ outside, final = { start with outside := outside } := by
  cases hreturns
  exact ⟨_, rfl⟩

/-- What one request of a list leaves without group commit, with its answer. -/
structure RanAlone (world : World Outside Record) (chain : OpenedChain Record)
    (outs : List Outcome) (segment : List (Event Record)) (done : Done)
    (start final : Context Outside Record) : Prop where
  alone : Alone world chain.number done.packets done.retcode outs segment start final
  request : done.request = chain.number
  packets : done.packets ⊆ chain.packets

/-- The outcome of the first packet is noted behind the dispatch. -/
theorem Alone.closing {packets : List Owner} {result : RetCode} {outs : List Outcome}
    {segment : List (Event Record)}
    (halone : Alone world number packets ret outs segment start final) {head : Owner}
    (hhead : head = ⟨number, 0⟩) (hpackets : head ∈ packets) (hresult : result = .ok → ret = .ok) :
    Alone world number packets result (outs ++ [outcomeIn head result final]) segment start
      (closing head result final) := by
  have hfailed : batchFailed (outs ++ [outcomeIn head result final]) = batchFailed outs := by
    unfold batchFailed
    rw [List.any_append]
    simp [outcomeIn, Outcome.failedInBatch, hhead]
  refine ⟨⟨halone.atRest.lock, halone.atRest.writeError, halone.atRest.inBatch⟩, ?_, ?_,
    halone.events, ?_, halone.others, ?_⟩
  · show final.outcomes ++ [outcomeIn head result final] = _
    rw [halone.outcomes, List.append_assoc]
  · intro out hout
    rcases List.mem_append.mp hout with hout | hout
    · exact halone.owned out hout
    · rw [List.mem_singleton.mp hout]
      exact hpackets
  · rw [hfailed]
    exact halone.statement
  · rw [hfailed]
    exact fun hdropped hok ↦ halone.silent hdropped (hresult hok)

/-- `execute` on a request without group commit. -/
theorem execute_alone (hchain : IsWriteChain chain)
    (hstart : AtRest start)
    (hfresh : ∀ packet ∈ chain.packets, isSuccess (start.response packet).code = false)
    (hreturns : execute world rounds false chain.head chain.rest start = some (ret, final)) :
    ∃ outs segment, Alone world chain.number chain.packets ret outs segment start final := by
  obtain ⟨bodyRet, middle, hbody, hret, rfl⟩ := executeWith_eq_some.mp hreturns
  have hresult : ret = .ok → bodyRet = .ok := by
    intro hok
    rw [hok] at hret
    split_ifs at hret with hretcode
    · exact absurd hret.symm hretcode
    · exact hret.symm
  have hopening : AtRest (opening chain.head.owner start) :=
    ⟨hstart.lock, hstart.writeError, hstart.inBatch⟩
  rcases hchain.kind with ⟨hplain, hrest⟩ | ⟨hbatch, hplain⟩
  · obtain ⟨segment, halone⟩ := dispatch_plain_alone hplain hopening
      (hfresh _ List.mem_cons_self) hbody
    have hpackets : chain.packets = [chain.head.owner] := by
      unfold OpenedChain.packets
      rw [hrest]
      rfl
    rw [hchain.head] at halone
    rw [hpackets, hchain.head]
    exact ⟨_, segment, { halone.closing rfl List.mem_cons_self hresult with }⟩
  · rw [dispatch_of_batch hbatch, if_neg Bool.false_ne_true] at hbody
    obtain ⟨outs, segment, halone⟩ := doBatchWithLock_alone hchain hplain hopening hfresh hbody
    exact ⟨_, segment, { halone.closing hchain.head List.mem_cons_self hresult with }⟩

/-- One request of a list without group commit. Assumes: a plain write or a batch of them, a
request thread at rest, and no success on the packets. -/
theorem processRequest_alone (hchain : IsWriteChain chain)
    (hstart : AtRest start)
    (hfresh : ∀ packet ∈ chain.packets, isSuccess (start.response packet).code = false)
    {done : Done}
    (hreturns : processRequest world rounds false chain start = some (done, final)) :
    ∃ outs segment, RanAlone world chain outs segment done start final := by
  obtain ⟨closed, asked, hasked, hreturns⟩ := bind_eq_some.mp hreturns
  obtain ⟨_, rfl⟩ := ask_eq hasked
  split_ifs at hreturns
  · cases hreturns
    exact ⟨[], [], ⟨⟨hstart.lock, hstart.writeError, hstart.inBatch⟩, (List.append_nil _).symm,
      List.forall_mem_nil _, (List.append_nil _).symm, Or.inl rfl,
      fun _ _ hsuccess ↦ hsuccess, fun _ _ ↦ List.forall_mem_nil _⟩, rfl,
      List.nil_subset _⟩
  · obtain ⟨timedOut, waited, hwaited, hreturns⟩ := bind_eq_some.mp hreturns
    obtain ⟨outside, rfl⟩ := ask_eq hwaited
    have hrest : AtRest { start with outside := outside } :=
      ⟨hstart.lock, hstart.writeError, hstart.inBatch⟩
    split_ifs at hreturns
    · obtain ⟨ret, answered, hanswer, hreturns⟩ := bind_eq_some.mp hreturns
      cases hreturns
      have hsubset : [chain.head.owner] ⊆ chain.packets :=
        List.cons_subset_cons _ (List.nil_subset _)
      have halone := alone_of_tdhsResponseError chain.number hrest
        (fun packet hpacket ↦ hfresh packet (hsubset hpacket)) (by decide : 400 ≤ 408) hanswer
      exact ⟨[], [], { halone with }, rfl, hsubset⟩
    · obtain ⟨ret, executed, hexecute, hreturns⟩ := bind_eq_some.mp hreturns
      cases hreturns
      obtain ⟨outs, segment, halone⟩ := execute_alone hchain hrest hfresh hexecute
      exact ⟨outs, segment, { halone with }, rfl, List.Subset.refl _⟩

end TdhSocket.Execute
