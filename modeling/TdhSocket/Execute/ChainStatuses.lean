import TdhSocket.Execute.Batch
import TdhSocket.Execute.Statuses

/-!
# The statuses of a packet chain

`execute` on the first packet of a chain, and what may replace its answer. A request that is no
batch has one packet, with a final status. A batch of plain writes has the status 207 in its first
packet and a final one in every packet behind it, whatever happens to the single packets. A failed
commit replaces statuses of success by 500 and nothing else (`Replaces`), so it changes neither.

`onServerProcess_answers` puts this together with the time-out, whose answer is the first packet
alone.
-/

set_option autoImplicit false

namespace TdhSocket.Execute

open Protocol Decode Library Library.Program

variable {Outside Record : Type} {world : World Outside Record} {rounds : ℕ} {bulk : Bool}

/-! ### Failed commits -/

/-- Nothing but statuses of success was replaced, by that of a failed commit. -/
structure Replaces (start final : Context Outside Record) : Prop where
  retcode : final.retcode = start.retcode
  code : ∀ owner, (final.response owner).code = (start.response owner).code ∨
    (isSuccess (start.response owner).code = true ∧
      (final.response owner).code = clientStatusServerError)

theorem Replaces.refl (context : Context Outside Record) : Replaces context context :=
  ⟨rfl, fun _ ↦ .inl rfl⟩

theorem Replaces.trans {start middle final : Context Outside Record}
    (hfirst : Replaces start middle) (hnext : Replaces middle final) : Replaces start final := by
  refine ⟨hnext.retcode.trans hfirst.retcode, fun owner ↦ ?_⟩
  rcases hnext.code owner with hsame | ⟨hsuccess, hcode⟩
  · rw [hsame]
    exact hfirst.code owner
  · rcases hfirst.code owner with hsame | ⟨hbefore, -⟩
    · exact .inr ⟨hsame ▸ hsuccess, hcode⟩
    · exact .inr ⟨hbefore, hcode⟩

section Replaced

variable {start final : Context Outside Record} (hreplaces : Replaces start final) {owner : Owner}

include hreplaces

theorem Replaces.isErrorStatus (hcode : IsErrorStatus (start.response owner).code) :
    IsErrorStatus (final.response owner).code := by
  rcases hreplaces.code owner with hsame | ⟨-, hfailed⟩
  · rwa [hsame]
  · rw [hfailed]
    exact (by decide : 400 ≤ 500)

theorem Replaces.isFinalStatus (hcode : IsFinalStatus (start.response owner).code) :
    IsFinalStatus (final.response owner).code := by
  rcases hreplaces.code owner with hsame | ⟨-, hfailed⟩
  · rwa [hsame]
  · rw [hfailed]
    exact .inr (by decide : 400 ≤ 500)

/-- The status of a batch is not replaced. -/
theorem Replaces.multiStatus (hcode : (start.response owner).code = clientStatusMultiStatus) :
    (final.response owner).code = clientStatusMultiStatus := by
  rcases hreplaces.code owner with hsame | ⟨hsuccess, -⟩
  · rw [hsame, hcode]
  · rw [hcode] at hsuccess
    exact absurd hsuccess (by decide)

end Replaced

variable {ret : RetCode} {owners : List Owner} {done : Done} {work head : Work Record}
  {rest : List (Work Record)} {context other start final : Context Outside Record}

theorem responseFailedToCommit_replaces {owner : Owner}
    (hsuccess : isSuccess (start.response owner).code = true)
    (hreturns : responseFailedToCommit world owner start = some (ret, final)) :
    Replaces start final := by
  have hworks := keeps_tdhsResponseError world owner _ _ start start ret final
    (Works.refl world owner start) hreturns
  refine ⟨hworks.retcode, fun other ↦ ?_⟩
  by_cases hother : other = owner
  · subst hother
    exact .inr ⟨hsuccess, (tdhsResponseError_answers hreturns).2⟩
  · exact .inl (congrArg Response.code (hworks.response other hother))

section

variable (hallocates : Allocates world)

include hallocates

/-- Where every answer can be written, both loops do the same. -/
theorem rewriteUntilError_eq (owners : List Owner) :
    rewriteUntilError world owners = rewritePackets world .ok owners := by
  induction owners with
  | nil => rfl
  | cons owner owners ih =>
    unfold rewriteUntilError rewritePackets
    rw [ih]
    refine bind_congr fun _ ↦ if_congr Iff.rfl ?_ rfl
    funext start
    refine Option.bind_congr fun outcome herror ↦ ?_
    rw [answers_tdhsResponseError hallocates _ _ _ _ _ _ herror]
    rfl

theorem rewritePackets_replaces
    (hreturns : rewritePackets world .ok owners start = some (ret, final)) :
    ret = .ok ∧ Replaces start final := by
  induction owners generalizing start with
  | nil =>
    cases hreturns
    exact ⟨rfl, Replaces.refl _⟩
  | cons owner owners ih =>
    obtain ⟨_, _, hread, hreturns⟩ := bind_eq_some.mp hreturns
    cases hread
    split_ifs at hreturns with hsuccess
    · obtain ⟨errorRet, middle, herror, hreturns⟩ := bind_eq_some.mp hreturns
      rw [answers_tdhsResponseError hallocates _ _ _ _ _ _ herror] at hreturns
      obtain ⟨hret, hrest⟩ := ih hreturns
      exact ⟨hret, (responseFailedToCommit_replaces hsuccess herror).trans hrest⟩
    · exact ih hreturns

theorem rewriteUntilError_replaces
    (hreturns : rewriteUntilError world owners start = some (ret, final)) :
    ret = .ok ∧ Replaces start final :=
  rewritePackets_replaces hallocates (rewriteUntilError_eq hallocates owners ▸ hreturns)

/-- The answer to one request behind a failed commit. -/
theorem rewriteDone_replaces {rewritten : Done}
    (hreturns : rewriteDone world done start = some (rewritten, final)) :
    rewritten = done ∧ Replaces start final := by
  unfold rewriteDone at hreturns
  split_ifs at hreturns with hok
  · obtain ⟨ret, middle, hpackets, hreturns⟩ := bind_eq_some.mp hreturns
    obtain ⟨rfl, hreplaces⟩ := rewritePackets_replaces hallocates hpackets
    cases hreturns
    refine ⟨?_, hreplaces⟩
    rw [← hok]
  · cases hreturns
    exact ⟨rfl, Replaces.refl _⟩

end

/-! ### execute -/

section Execute

variable {streams : Bool} {Sound : Outside → Prop} (hlasting : Lasting world streams Sound)
  (hallocates : Allocates world)

include hlasting hallocates

/-- `execute` on a packet that is no batch. -/
theorem executeWith_concludes (hwrites : Writes world streams Sound)
    (hbatch : work.request.type ≠ .batch) (hget : work.request.type = .get → streams = true)
    {loop : Execution Outside Record RetCode}
    (hsound : Sound start.outside)
    (hreturns : executeWith world rounds bulk work rest loop start = some (ret, final)) :
    Concluded Sound work.owner ret final := by
  obtain ⟨bodyRet, middle, hbody, hret, rfl⟩ := executeWith_eq_some.mp hreturns
  obtain ⟨hok, hpoised⟩ := concludes_dispatch hlasting hallocates hbatch hget hwrites rest loop
    (opening work.owner start) bodyRet middle ⟨hsound, rfl, trivial⟩ hbody
  refine ⟨?_, hpoised.outside, hpoised.retcode, hpoised.code⟩
  rw [hret, if_neg (not_not_intro hpoised.retcode), hok]

end Execute

/-! ### Batches -/

section Batch

variable {Sound : Outside → Prop} (hlasting : Lasting world false Sound)
  (hallocates : Allocates world)

/-- Every packet has a final status. -/
def AreFinal (works : List (Work Record)) (context : Context Outside Record) : Prop :=
  ∀ work ∈ works, IsFinalStatus (context.response work.owner).code

theorem ne_batch_of_isPlainWrite {type : RequestType} (hplain : IsPlainWrite type) :
    type ≠ .batch := by
  rcases hplain with rfl | rfl | rfl <;> decide

theorem ne_get_of_isPlainWrite {type : RequestType} (hplain : IsPlainWrite type) :
    type ≠ .get := by
  rcases hplain with rfl | rfl | rfl <;> decide

/-- What the loop of `do_batch` leaves: final statuses for its packets, and the other responses as
they were. -/
structure Concludes (Sound : Outside → Prop) (works : List (Work Record))
    (start final : Context Outside Record) : Prop where
  outside : Sound final.outside
  retcode : start.retcode = .ok → final.retcode = .ok
  others : ∀ owner, owner ∉ works.map Work.owner → final.response owner = start.response owner
  final : AreFinal works final

include hlasting hallocates

/-- A packet of a batch gets a final status. -/
theorem executeWith_concludes_plain (hplain : IsPlainWrite work.request.type)
    {loop : Execution Outside Record RetCode}
    (hsound : Sound start.outside)
    (hreturns : executeWith world rounds bulk work rest loop start = some (ret, final)) :
    Concluded Sound work.owner ret final ∧
      ∀ owner, owner ≠ work.owner → final.response owner = start.response owner := by
  have hquiet : Writes world false Sound := fun hno ↦ absurd hno Bool.false_ne_true
  have hnotBatch := ne_batch_of_isPlainWrite hplain
  have hnotGet := ne_get_of_isPlainWrite hplain
  refine ⟨executeWith_concludes hlasting hallocates hquiet hnotBatch
    (fun hget ↦ absurd hget hnotGet) hsound hreturns, fun owner howner ↦ ?_⟩
  have hsteps : ∀ rounds, Along (Steps world (· = work.owner) false)
      (executeWith world rounds bulk work rest loop) :=
    conducts_executeWith (conducts_along world (· = work.owner) false)
      ⟨rfl, fun hget ↦ absurd hget hnotGet⟩ (fun hbatch ↦ absurd hbatch hnotBatch)
      bulk fun hbatch ↦ absurd hbatch hnotBatch
  exact (hsteps rounds start ret final hreturns).response_eq howner

variable {works : List (Work Record)}

/-- The loop of `do_batch` answers each of its packets. -/
theorem executeBatch_concludes (hplain : ArePlain works)
    (hsound : Sound start.outside)
    (hreturns : executeBatch world rounds bulk works start = some (ret, final)) :
    ret = .ok ∧ Concludes Sound works start final := by
  induction works generalizing start with
  | nil =>
    cases hreturns
    exact ⟨rfl, hsound, id, fun _ _ ↦ rfl, List.forall_mem_nil _⟩
  | cons work works ih =>
    obtain ⟨workRet, middle, hwork, hreturns⟩ := bind_eq_some.mp hreturns
    obtain ⟨⟨hok, hpoised⟩, hsame⟩ := executeWith_concludes_plain hlasting hallocates
      (hplain.plain work List.mem_cons_self) hsound hwork
    rw [if_neg (not_not_intro hok)] at hreturns
    obtain ⟨_, noted, hnoted, hreturns⟩ := bind_eq_some.mp hreturns
    cases hnoted
    obtain ⟨hret, hrest⟩ := ih hplain.of_cons (by exact hpoised.outside) hreturns
    refine ⟨hret, hrest.outside, fun _ ↦ hrest.retcode hpoised.retcode, ?_, ?_⟩
    · intro owner howner
      rw [List.map_cons, List.mem_cons, not_or] at howner
      exact (hrest.others owner howner.2).trans (hsame owner howner.1)
    · intro other hother
      rcases List.mem_cons.mp hother with rfl | hother
      · rw [hrest.others _ (List.nodup_cons.mp hplain.nodup).1]
        exact hpoised.code
      · exact hrest.final other hother

/-- The first packet of a batch has the status 207, those behind it final ones. -/
structure IsMultiStatus (Sound : Outside → Prop) (head : Owner) (works : List (Work Record))
    (context : Context Outside Record) : Prop where
  outside : Sound context.outside
  retcode : context.retcode = .ok
  head : (context.response head).code = clientStatusMultiStatus
  final : AreFinal works context

theorem doBatch_concludes (hplain : ArePlain works) {head : Owner}
    (hhead : head ∉ works.map Work.owner)
    (hsound : Sound start.outside)
    (hreturns :
      doBatch world head (executeBatch world rounds bulk works) start = some (ret, final)) :
    ret = .ok ∧ (start.retcode = .ok → IsMultiStatus Sound head works final) := by
  obtain ⟨answerRet, answered, hanswer, hreturns⟩ := bind_eq_some.mp hreturns
  have hok : answerRet = .ok := by
    obtain ⟨_, opened, -, hanswer⟩ := bind_eq_some.mp hanswer
    obtain ⟨created, middle, hcreated, hanswer⟩ := bind_eq_some.mp hanswer
    cases hcreated
    rw [hallocates.easyBufCreate, if_pos rfl] at hanswer
    cases hanswer
    rfl
  have hmoves := carries_tdhsResponseBatch (carries_along world head (fullRights false)) 0 start
    answerRet answered hanswer
  have hsteps : Steps world (· = head) false start answered := hmoves.steps rfl
  rw [if_neg (not_not_intro hok)] at hreturns
  obtain ⟨_, _, hmodify, hreturns⟩ := bind_eq_some.mp hreturns
  cases hmodify
  obtain ⟨loopRet, looped, hloop, hreturns⟩ := bind_eq_some.mp hreturns
  cases hreturns
  obtain ⟨hret, hlooped⟩ := executeBatch_concludes hlasting hallocates hplain
    (by exact hsteps.sound hlasting hsound) hloop
  refine ⟨hret, fun hretcode ↦ ⟨hlooped.outside, ?_, ?_, hlooped.final⟩⟩
  · exact hlooped.retcode (hmoves.works.retcode.trans hretcode)
  · exact (congrArg Response.code (hlooped.others head hhead)).trans
      (tdhsResponseBatch_answers hanswer).2

theorem doBatchWithLock_concludes (hplain : ArePlain works)
    (hhead : head.owner ∉ works.map Work.owner)
    (hsound : Sound start.outside) (hretcode : start.retcode = .ok)
    (hreturns : doBatchWithLock world bulk head works (executeBatch world rounds bulk works)
      start = some (ret, final)) :
    ret = .ok ∧ IsMultiStatus Sound head.owner works final := by
  have hstatement := conducts_along world (fun _ ↦ False) false
  obtain ⟨memory, asked, hasked, hreturns⟩ := bind_eq_some.mp hreturns
  have hmemory := returns_stackLiker hallocates _ start memory asked hasked
  rw [hmemory] at hreturns
  have hmoves := carries_stackLiker (carries_along world head.owner (fullRights false)).silent _ 0
    start
    memory asked hasked
  obtain ⟨_, locked, hlock, hreturns⟩ := bind_eq_some.mp hreturns
  have hlocked := conducts_lockTables hstatement bulk _ 0 asked () locked hlock
  obtain ⟨batchRet, batched, hbatch, hreturns⟩ := bind_eq_some.mp hreturns
  have hsteps : Steps world (· = head.owner) false start asked := hmoves.steps rfl
  have hlockedSound := hlocked.sound hlasting (hsteps.sound hlasting hsound)
  obtain ⟨hok, hmulti⟩ := doBatch_concludes hlasting hallocates hplain hhead hlockedSound hbatch
  have hbatched := hmulti ((hlocked.retcode_eq fun _ ↦ not_false).trans
    (hmoves.works.retcode.trans hretcode))
  obtain ⟨endRet, unlocked, hunlock, hreturns⟩ := bind_eq_some.mp hreturns
  have hends := conducts_unlockTables hstatement bulk _ 0 batched endRet unlocked hunlock
  have hresponse : ∀ owner, unlocked.response owner = batched.response owner := fun owner ↦
    hends.response_eq not_false
  have hunlocked : IsMultiStatus Sound head.owner works unlocked := by
    refine ⟨hends.sound hlasting hbatched.outside, ?_, ?_, fun work hwork ↦ ?_⟩
    · exact (hends.retcode_eq fun _ ↦ not_false).trans hbatched.retcode
    · rw [hresponse]
      exact hbatched.head
    · rw [hresponse]
      exact hbatched.final work hwork
  split_ifs at hreturns with hfailed
  · obtain ⟨hret, hreplaces⟩ := rewriteUntilError_replaces hallocates hreturns
    have hrewritten : Steps world (fun _ ↦ True) false unlocked final :=
      conducts_rewriteUntilError (conducts_along world (fun _ ↦ True) false)
        (fun _ _ ↦ trivial) 0 unlocked ret final hreturns
    exact ⟨hret, hrewritten.sound hlasting hunlocked.outside,
      hreplaces.retcode.trans hunlocked.retcode, hreplaces.multiStatus hunlocked.head,
      fun work hwork ↦ hreplaces.isFinalStatus (hunlocked.final work hwork)⟩
  · cases hreturns
    exact ⟨hok, hunlocked⟩

/-- `execute` on a batch of plain writes. -/
theorem executeWith_batch_concludes (htype : head.request.type = .batch) (hplain : ArePlain works)
    (hhead : head.owner ∉ works.map Work.owner)
    (hsound : Sound start.outside)
    (hreturns : executeWith world rounds bulk head works (executeBatch world rounds bulk works)
      start = some (ret, final)) :
    ret = .ok ∧ IsMultiStatus Sound head.owner works final := by
  obtain ⟨bodyRet, middle, hbody, hret, rfl⟩ := executeWith_eq_some.mp hreturns
  rw [dispatch_of_batch htype] at hbody
  obtain ⟨hok, hmulti⟩ : bodyRet = .ok ∧ IsMultiStatus Sound head.owner works middle := by
    split_ifs at hbody
    · obtain ⟨hok, hmulti⟩ := doBatch_concludes hlasting hallocates hplain hhead
        (by exact hsound) hbody
      exact ⟨hok, hmulti rfl⟩
    · exact doBatchWithLock_concludes hlasting hallocates hplain hhead (by exact hsound) rfl hbody
  refine ⟨?_, hmulti.outside, hmulti.retcode, hmulti.head, hmulti.final⟩
  rw [hret, if_neg (not_not_intro hmulti.retcode), hok]

end Batch

/-! ### Chains -/

/-- A request that is no batch has one packet, and a batch has plain writes behind it. -/
structure IsAnswerable (chain : OpenedChain Record) : Prop where
  head : chain.head.owner = ⟨chain.number, 0⟩
  rest : ∀ work ∈ chain.rest, work.owner.request = chain.number
  single : chain.head.request.type ≠ .batch → chain.rest = []
  plain : chain.head.request.type = .batch → ArePlain chain.rest

/-- The answer to a request: one packet with a final status, an error for a batch, or all packets of
a batch, the first with the status 207 and the others with final ones. -/
structure IsAnswerOf (chain : OpenedChain Record) (done : Done)
    (context : Context Outside Record) : Prop where
  request : done.request = chain.number
  retcode : done.retcode = .ok
  statuses :
    (done.packets = [chain.head.owner] ∧ IsFinalStatus (context.response chain.head.owner).code ∧
      (chain.head.request.type = .batch →
        IsErrorStatus (context.response chain.head.owner).code)) ∨
    (chain.head.request.type = .batch ∧ done.packets = chain.packets ∧
      (context.response chain.head.owner).code = clientStatusMultiStatus ∧
      AreFinal chain.rest context)

/-- The responses of the packets are what counts. -/
theorem IsAnswerOf.of_response {chain : OpenedChain Record} (hchain : IsAnswerable chain)
    (hanswer : IsAnswerOf chain done context)
    (hsame : ∀ owner : Owner, owner.request = chain.number →
      other.response owner = context.response owner) : IsAnswerOf chain done other := by
  have hhead : other.response chain.head.owner = context.response chain.head.owner :=
    hsame _ (congrArg Owner.request hchain.head)
  refine ⟨hanswer.request, hanswer.retcode, ?_⟩
  rw [hhead]
  refine hanswer.statuses.imp_right fun ⟨hbatch, hpackets, hmulti, hfinal⟩ ↦
    ⟨hbatch, hpackets, hmulti, fun work hwork ↦ ?_⟩
  rw [hsame _ (hchain.rest work hwork)]
  exact hfinal work hwork

theorem IsAnswerOf.replaced {chain : OpenedChain Record} (hanswer : IsAnswerOf chain done context)
    (hreplaces : Replaces context other) : IsAnswerOf chain done other := by
  refine ⟨hanswer.request, hanswer.retcode, ?_⟩
  rcases hanswer.statuses with ⟨hpackets, hfinal, herror⟩ | ⟨hbatch, hpackets, hmulti, hfinal⟩
  · exact .inl ⟨hpackets, hreplaces.isFinalStatus hfinal, fun hbatch ↦
      hreplaces.isErrorStatus (herror hbatch)⟩
  · exact .inr ⟨hbatch, hpackets, hreplaces.multiStatus hmulti, fun work hwork ↦
      hreplaces.isFinalStatus (hfinal work hwork)⟩

section Chains

variable {streams : Bool} {Sound : Outside → Prop} (hlasting : Lasting world streams Sound)
  (hallocates : Allocates world) {chain : OpenedChain Record} (hchain : IsAnswerable chain)

include hallocates in
/-- An error in the first packet alone. -/
theorem isAnswerOf_error {status code : ℕ} (hstatus : 400 ≤ status)
    (hreturns : tdhsResponseError world chain.head.owner status code start = some (ret, final)) :
    IsAnswerOf chain ⟨chain.number, ret, [chain.head.owner]⟩ final := by
  have hcode : IsErrorStatus (final.response chain.head.owner).code := by
    rw [(tdhsResponseError_answers hreturns).2]
    exact hstatus
  exact ⟨rfl, answers_tdhsResponseError hallocates _ _ _ _ _ _ hreturns,
    .inl ⟨rfl, .inr hcode, fun _ ↦ hcode⟩⟩

include hlasting hallocates hchain

section

variable (hwrites : Writes world streams Sound)
  (hget : chain.head.request.type = .get → streams = true) (hsound : Sound start.outside)

include hwrites hget hsound

theorem execute_answers
    (hreturns : execute world rounds bulk chain.head chain.rest start = some (ret, final)) :
    IsAnswerOf chain ⟨chain.number, ret, chain.packets⟩ final := by
  by_cases hbatch : chain.head.request.type = .batch
  · have hplain := hchain.plain hbatch
    have hhead : chain.head.owner ∉ chain.rest.map Work.owner :=
      hchain.head ▸ hplain.head_notMem chain.number
    obtain ⟨hok, hmulti⟩ := executeWith_batch_concludes hlasting.quiet hallocates hbatch hplain
      hhead hsound hreturns
    exact ⟨rfl, hok, .inr ⟨hbatch, rfl, hmulti.head, hmulti.final⟩⟩
  · obtain ⟨hok, hpoised⟩ := executeWith_concludes hlasting hallocates hwrites hbatch hget hsound
      hreturns
    refine ⟨rfl, hok, .inl ⟨?_, hpoised.code, fun hyes ↦ absurd hyes hbatch⟩⟩
    show chain.head.owner :: chain.rest.map Work.owner = _
    rw [hchain.single hbatch]
    rfl

theorem onServerProcess_answers
    (hreturns : onServerProcess world rounds bulk chain start = some (done, final)) :
    IsAnswerOf chain done final := by
  obtain ⟨timedOut, asked, hasked, hreturns⟩ := bind_eq_some.mp hreturns
  cases hasked
  split_ifs at hreturns
  · obtain ⟨ret, answered, herror, hreturns⟩ := bind_eq_some.mp hreturns
    have hanswer := isAnswerOf_error hallocates (by decide : 400 ≤ 408) herror
    cases hreturns
    exact hanswer
  · obtain ⟨ret, executed, hexecute, hreturns⟩ := bind_eq_some.mp hreturns
    have hanswer := execute_answers hlasting hallocates hchain hwrites hget
      (hlasting.statementCalled (.timedOut _ _) hsound) hexecute
    cases hreturns
    exact hanswer

end

end Chains

end TdhSocket.Execute
