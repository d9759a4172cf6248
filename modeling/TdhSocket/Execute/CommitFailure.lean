import TdhSocket.Execute.Atomicity

/-!
# Two loops for a failed commit

When the commit fails, every packet with a status of success is replaced by one that reports the
failure. `do_batch_with_lock` leaves its loop at the first packet for which there is no buffer and
returns `EASY_ERROR`. `tdhs_request_doreq_for_write` goes on, and keeps the result for the packet it
replaced last.

What the two loops return is a function of the answers to the calls of `easy_buf_create`, one for
each packet with a status of success (`grants`): `rewriteUntilError_returns` says that one failure
suffices for an error, `rewritePackets_returns` that the last answer decides. So the loops agree
unless a failure is followed by a last answer that is no failure (`commit_failure_rewriting`).
-/

set_option autoImplicit false

namespace TdhSocket.Execute

open Protocol Decode Library Library.Program

variable {Outside Record : Type} {world : World Outside Record}

/-! ### The packets to replace -/

/-- A complete packet for a failed commit. -/
def failedToCommitResponse : Response :=
  ⟨clientStatusServerError, 4, BigEndian.toBytes ClientErrorCode.failedToCommit.code, []⟩

/-- The answers to the next calls of `easy_buf_create` in `tdhs_response_error`. -/
def grants (world : World Outside Record) : ℕ → Outside → List Bool
  | 0, _ => []
  | calls + 1, outside =>
    (world.easyBufCreate (4 + tdhSocketHeaderLength) outside).1 ::
      grants world calls (world.easyBufCreate (4 + tdhSocketHeaderLength) outside).2

/-- The number of packets with a status of success other than 207. -/
def successes (owners : List Owner) (context : Context Outside Record) : ℕ :=
  owners.countP fun owner ↦ isSuccess (context.response owner).code

/-- Every packet with a status of success is a complete packet for a failed commit afterwards. -/
def ReplacesAll (owners : List Owner) (start final : Context Outside Record) : Prop :=
  ∀ owner ∈ owners, isSuccess (start.response owner).code = true →
    final.response owner = failedToCommitResponse

/-- `EASY_OK` for a buffer, `EASY_ERROR` for none. -/
def retOfGrant (granted : Bool) : RetCode := if granted then .ok else .error

/-- The packets outside a list are as before. -/
def SparesOthers (owners : List Owner) (start final : Context Outside Record) : Prop :=
  ∀ owner, owner ∉ owners → final.response owner = start.response owner

variable {owners : List Owner} {owner : Owner} {start middle : Context Outside Record}
  {final context : Context Outside Record}

theorem SparesOthers.cons (hfirst : SparesOthers [owner] start middle)
    (hnext : SparesOthers owners middle final) : SparesOthers (owner :: owners) start final := by
  intro other hother
  obtain ⟨howner, howners⟩ : other ≠ owner ∧ other ∉ owners := by simpa using hother
  rw [hnext other howners, hfirst other (by simpa using howner)]

theorem successes_cons_of_success (hsuccess : isSuccess (context.response owner).code = true) :
    successes (owner :: owners) context = successes owners context + 1 :=
  List.countP_cons_of_pos hsuccess

theorem successes_cons_of_not (hsuccess : isSuccess (context.response owner).code = false) :
    successes (owner :: owners) context = successes owners context :=
  List.countP_cons_of_neg (by simp [hsuccess])

/-- Assumes: the packet is none of the others. -/
theorem successes_spared (hnew : owner ∉ owners)
    (hspares : SparesOthers [owner] start middle) :
    successes owners middle = successes owners start := by
  refine List.countP_congr fun other hother ↦ ?_
  have hne : other ≠ owner := fun hsame ↦ hnew (hsame ▸ hother)
  rw [hspares other (by simpa using hne)]

/-- Assumes: the packet is none of the others, and is replaced. -/
theorem ReplacesAll.cons (hnew : owner ∉ owners) (hspares : SparesOthers [owner] start middle)
    (hrest : SparesOthers owners middle final)
    (hreplaced : isSuccess (start.response owner).code = true →
      middle.response owner = failedToCommitResponse)
    (hreplaces : ReplacesAll owners middle final) :
    ReplacesAll (owner :: owners) start final := by
  intro other hother hsuccess
  rcases List.mem_cons.mp hother with rfl | hother
  · rw [hrest other hnew]
    exact hreplaced hsuccess
  · have hne : other ≠ owner := fun hsame ↦ hnew (hsame ▸ hother)
    have hsame : middle.response other = start.response other :=
      hspares other (by simpa using hne)
    exact hreplaces other hother (hsame ▸ hsuccess)

section

variable (world : World Outside Record)

/-- The status and the length are changed whether or not there is a buffer. -/
theorem responseFailedToCommit_returns (owner : Owner) (start : Context Outside Record) :
    ∃ final, responseFailedToCommit world owner start =
        some (retOfGrant (world.easyBufCreate (4 + tdhSocketHeaderLength) start.outside).1, final) ∧
      final.outside = (world.easyBufCreate (4 + tdhSocketHeaderLength) start.outside).2 ∧
      SparesOthers [owner] start final ∧
      ((world.easyBufCreate (4 + tdhSocketHeaderLength) start.outside).1 = true →
        final.response owner = failedToCommitResponse) := by
  unfold responseFailedToCommit tdhsResponseError
  rw [bind_of_eq_some rfl, bind_of_eq_some rfl]
  cases hgranted : (world.easyBufCreate (4 + tdhSocketHeaderLength) start.outside).1 with
  | false =>
    refine ⟨_, rfl, rfl, fun other hother ↦ ?_, fun hcontra ↦ absurd hcontra (by decide)⟩
    exact Function.update_of_ne (by simpa using hother) _ _
  | true =>
    refine ⟨_, rfl, rfl, fun other hother ↦ ?_, fun _ ↦ ?_⟩
    · have hne : other ≠ owner := by simpa using hother
      exact (Function.update_of_ne hne _ _).trans (Function.update_of_ne hne _ _)
    · simp only [Function.update_self]
      rfl

/-! ### What the loops return -/

/-- A failure anywhere suffices, and without one every packet is replaced. -/
theorem rewriteUntilError_returns (hnodup : owners.Nodup) (start : Context Outside Record) :
    ∃ final, rewriteUntilError world owners start =
        some (if false ∈ grants world (successes owners start) start.outside then .error else .ok,
          final) ∧
      SparesOthers owners start final ∧
      (false ∉ grants world (successes owners start) start.outside →
        ReplacesAll owners start final) := by
  induction owners generalizing start with
  | nil => exact ⟨start, rfl, fun _ _ ↦ rfl, fun _ ↦ List.forall_mem_nil _⟩
  | cons owner owners ih =>
    obtain ⟨hnew, hnodup⟩ := List.nodup_cons.mp hnodup
    unfold rewriteUntilError
    rw [bind_of_eq_some rfl]
    cases hsuccess : isSuccess (start.response owner).code with
    | false =>
      obtain ⟨final, hreturns, hspares, hreplaces⟩ := ih hnodup start
      rw [successes_cons_of_not hsuccess]
      refine ⟨final, hreturns, SparesOthers.cons (fun _ _ ↦ rfl) hspares, fun hgranted ↦ ?_⟩
      refine ReplacesAll.cons hnew (fun _ _ ↦ rfl) hspares (fun hcontra ↦ ?_) (hreplaces hgranted)
      exact absurd (hsuccess.symm.trans hcontra) (by decide)
    | true =>
      obtain ⟨middle, hmiddle, houtside, hothers, hreplaced⟩ :=
        responseFailedToCommit_returns world owner start
      rw [successes_cons_of_success hsuccess, grants, if_pos rfl, bind_of_eq_some hmiddle]
      cases hgranted : (world.easyBufCreate (4 + tdhSocketHeaderLength) start.outside).1 with
      | false =>
        refine ⟨middle, rfl, SparesOthers.cons hothers fun _ _ ↦ rfl, fun hcontra ↦ ?_⟩
        exact absurd List.mem_cons_self hcontra
      | true =>
        obtain ⟨final, hreturns, hspares, hreplaces⟩ := ih hnodup middle
        rw [successes_spared hnew hothers, houtside] at hreturns hreplaces
        simp only [List.mem_cons, Bool.false_eq_true, false_or]
        refine ⟨final, hreturns, hothers.cons hspares, fun hrest ↦ ?_⟩
        exact ReplacesAll.cons hnew hothers hspares (fun _ ↦ hreplaced hgranted) (hreplaces hrest)

/-- The last answer decides. -/
theorem rewritePackets_returns (hnodup : owners.Nodup) (retcode : RetCode)
    (start : Context Outside Record) :
    ∃ final, rewritePackets world retcode owners start =
      some (((grants world (successes owners start) start.outside).getLast?.map retOfGrant).getD
        retcode, final) := by
  induction owners generalizing start retcode with
  | nil => exact ⟨start, rfl⟩
  | cons owner owners ih =>
    obtain ⟨hnew, hnodup⟩ := List.nodup_cons.mp hnodup
    unfold rewritePackets
    rw [bind_of_eq_some rfl]
    cases hsuccess : isSuccess (start.response owner).code with
    | false =>
      rw [successes_cons_of_not hsuccess]
      exact ih hnodup retcode start
    | true =>
      obtain ⟨middle, hmiddle, houtside, hothers, -⟩ :=
        responseFailedToCommit_returns world owner start
      obtain ⟨final, hreturns⟩ := ih hnodup
        (retOfGrant (world.easyBufCreate (4 + tdhSocketHeaderLength) start.outside).1) middle
      rw [successes_spared hnew hothers, houtside] at hreturns
      refine ⟨final, ?_⟩
      rw [successes_cons_of_success hsuccess, grants, if_pos rfl, bind_of_eq_some hmiddle, hreturns,
        List.getLast?_cons, Option.map_some, Option.getD_some, Option.getD_map]

end

/-- Without a failure the loops do the same. -/
theorem rewritePackets_eq_rewriteUntilError (hnodup : owners.Nodup)
    (hgranted : false ∉ grants world (successes owners start) start.outside) :
    rewritePackets world .ok owners start = rewriteUntilError world owners start := by
  induction owners generalizing start with
  | nil => rfl
  | cons owner owners ih =>
    obtain ⟨hnew, hnodup⟩ := List.nodup_cons.mp hnodup
    unfold rewritePackets rewriteUntilError
    rw [bind_of_eq_some rfl, bind_of_eq_some rfl]
    cases hsuccess : isSuccess (start.response owner).code with
    | false =>
      rw [successes_cons_of_not hsuccess] at hgranted
      exact ih hnodup hgranted
    | true =>
      rw [successes_cons_of_success hsuccess, grants] at hgranted
      obtain ⟨middle, hmiddle, houtside, hothers, -⟩ :=
        responseFailedToCommit_returns world owner start
      obtain ⟨hfirst, hrest⟩ : (world.easyBufCreate (4 + tdhSocketHeaderLength)
          start.outside).1 = true ∧ _ := by simpa using hgranted
      rw [hfirst] at hmiddle
      rw [if_pos rfl, if_pos rfl, bind_of_eq_some hmiddle, bind_of_eq_some hmiddle]
      refine ih hnodup ?_
      rw [successes_spared hnew hothers, houtside]
      exact hrest

/-! ### Both loops -/

/-- The loops return the same, and `EASY_OK` only with every packet replaced. -/
def IsModeIndependent (world : World Outside Record) (owners : List Owner)
    (start : Context Outside Record) : Prop :=
  ∃ ret bulkFinal final,
    rewritePackets world .ok owners start = some (ret, bulkFinal) ∧
    rewriteUntilError world owners start = some (ret, final) ∧
    (ret = .ok → ReplacesAll owners start bulkFinal ∧ ReplacesAll owners start final)

/-- The last answer is an error exactly if one of the answers is. -/
theorem lastRet_eq_iff (granted : List Bool) :
    (granted.getLast?.map retOfGrant).getD .ok =
        (if false ∈ granted then RetCode.error else .ok) ↔
      (false ∈ granted → granted.getLast? = some false) := by
  cases hlast : granted.getLast? with
  | none =>
    rw [List.getLast?_eq_none_iff.mp hlast]
    decide
  | some last =>
    have hmem : last ∈ granted := List.mem_of_getLast? hlast
    cases last with
    | false => simp [retOfGrant, hmem]
    | true => simp [retOfGrant]

/-- The packets of a chain are replaced alike in both modes, and `EASY_OK` means that they are,
exactly if no failure is followed by a last call that gets its buffer. Assumes: the packets of the
chain are different ones. -/
theorem commit_failure_rewriting (world : World Outside Record) (owners : List Owner)
    (start : Context Outside Record) (hnodup : owners.Nodup) :
    IsModeIndependent world owners start ↔
      (false ∈ grants world (successes owners start) start.outside →
        (grants world (successes owners start) start.outside).getLast? = some false) := by
  obtain ⟨final, hreturns, -, hreplaces⟩ := rewriteUntilError_returns world hnodup start
  obtain ⟨bulkFinal, hbulk⟩ := rewritePackets_returns world hnodup .ok start
  rw [← lastRet_eq_iff]
  constructor
  · rintro ⟨ret, _, _, hbulkRet, hret, -⟩
    rw [hbulk, Option.some.injEq, Prod.mk.injEq] at hbulkRet
    rw [hreturns, Option.some.injEq, Prod.mk.injEq] at hret
    exact hbulkRet.1.trans hret.1.symm
  · intro hsame
    refine ⟨_, bulkFinal, final, hsame ▸ hbulk, hreturns, fun hok ↦ ?_⟩
    have hgranted : false ∉ grants world (successes owners start) start.outside := by
      intro hfailed
      rw [if_pos hfailed] at hok
      exact absurd hok (by decide)
    -- without a failure the loops end in the same state
    rw [rewritePackets_eq_rewriteUntilError hnodup hgranted, hreturns, Option.some.injEq,
      Prod.mk.injEq] at hbulk
    exact ⟨hbulk.2 ▸ hreplaces hgranted, hreplaces hgranted⟩

/-! ### A failure before the last packet -/

/-- The scripted world, with the script for the calls of `easy_buf_create`: 1 for a failure. -/
def shortOfBuffers : World (List ℤ) ℕ :=
  { scriptedWorld fun _ ↦ false with
    easyBufCreate := fun _ script ↦ (script.headD 0 == 0, script.tail) }

/-- A batch and its two packets, each with the answer to an INSERT. -/
def twoInserted (script : List ℤ) : Context (List ℤ) ℕ :=
  { scriptedStart script with
    response := fun owner ↦
      if owner.position = 0 then ⟨clientStatusMultiStatus, 0, [], []⟩
      else ⟨clientStatusOk, 11, [0, 0, 0, 1, 8, 0, 0, 0, 2, 49, 0], []⟩ }

/-- Both packets fail. -/
theorem commit_failure_rewriting_noBuffers :
    IsModeIndependent shortOfBuffers [⟨0, 0⟩, ⟨0, 1⟩, ⟨0, 2⟩] (twoInserted [1, 1]) :=
  (commit_failure_rewriting shortOfBuffers [⟨0, 0⟩, ⟨0, 1⟩, ⟨0, 2⟩] (twoInserted [1, 1])
    (by decide)).mpr (by decide)

/-- The first packet gets no buffer and the second does: the one loop returns `EASY_ERROR`, the
other `EASY_OK`, with the status and the length of an error before the bytes of the old answer. -/
theorem rewriting_differs_by_mode :
    ¬ IsModeIndependent shortOfBuffers [⟨0, 0⟩, ⟨0, 1⟩, ⟨0, 2⟩] (twoInserted [1, 0]) ∧
    (rewriteUntilError shortOfBuffers [⟨0, 0⟩, ⟨0, 1⟩, ⟨0, 2⟩] (twoInserted [1, 0])).map Prod.fst =
      some .error ∧
    (rewritePackets shortOfBuffers .ok [⟨0, 0⟩, ⟨0, 1⟩, ⟨0, 2⟩] (twoInserted [1, 0])).map
        (fun result ↦ (result.1, result.2.response ⟨0, 1⟩)) =
      some (.ok, ⟨clientStatusServerError, 4, [0, 0, 0, 1, 8, 0, 0, 0, 2, 49, 0], []⟩) := by
  refine ⟨?_, by decide, by decide⟩
  rintro ⟨ret, bulkFinal, final, hbulk, hreturns, -⟩
  have hbulkRet : some RetCode.ok = some ret := congrArg (Option.map Prod.fst) hbulk
  have hret : some RetCode.error = some ret := congrArg (Option.map Prod.fst) hreturns
  exact absurd (hbulkRet.trans hret.symm) (by decide)

end TdhSocket.Execute
