import TdhSocket.Execute.ChainStatuses
import TdhSocket.Execute.Printed
import TdhSocket.Execute.Scripts

/-!
# The writes to the packets of a chain

`execute` on the first packet of a chain, with everything behind `do_find`: INSERT, the destructor
of the table locker, batches within batches, and the loops that replace answers after a failed
commit. All of them write by scripts. A call that returns `EASY_OK` has written every packet whose
answer goes back (`processRequest_covers`); one that returns something else may have left packets of
a batch alone, and goes back without its packets.
-/

set_option autoImplicit false

namespace TdhSocket.Execute

open Protocol Decode Library Library.Program

variable {Outside Record : Type} {world : World Outside Record} {rounds : ℕ} {bulk : Bool}
  {allowed : Owner → Write → Prop} {loop : Execution Outside Record RetCode}

/-! ### Sizes -/

/-- The numbers of the world have the types of the source: `tdhs_write_buff_size` with the space for
a header is a `uint32_t`, and the id of a new row an `unsigned long long`. -/
structure IsSized (world : World Outside Record) : Prop where
  writeBuffSize : world.writeBuffSize + tdhSocketHeaderLength < 2 ^ 32
  insertId : ∀ outside, (world.insertId outside).1 < 2 ^ 64

/-- A packet may be written, with data if it is a GET, and its columns fit a buffer. -/
structure IsScripted (allowed : Owner → Write → Prop) (work : Work Record) : Prop where
  admits : Admits allowed work.owner (work.request.type == .get)
  fieldNum : 4 + work.request.tableInfo.fieldNum + tdhSocketHeaderLength < 2 ^ 32

theorem length_mapM {Element Result : Type} {look : Element → Option Result}
    {elements : List Element} {results : List Result} (hmap : elements.mapM look = some results) :
    results.length = elements.length := by
  induction elements generalizing results with
  | nil =>
    cases hmap
    rfl
  | cons element elements ih =>
    rw [List.mapM_cons] at hmap
    obtain ⟨result, -, hmap⟩ := Option.bind_eq_some_iff.mp hmap
    obtain ⟨rest, hrest, hmap⟩ := Option.bind_eq_some_iff.mp hmap
    cases hmap
    rw [List.length_cons, List.length_cons, ih hrest]

/-! ### Plain requests -/

variable {owner : Owner} {owners : List Owner} {works : List (Work Record)} {work : Work Record}

/-- Nothing is written to the response before it is answered. -/
theorem silent_answered {Value : Type} {program : Execution Outside Record Value}
    {next : Value → Execution Outside Record RetCode}
    (hprogram : Along SameResponse program)
    (hnext : ∀ value, Along (Answered allowed owner) (next value)) :
    Along (Answered allowed owner) (program >>= next) :=
  along_chain (fun hsame hrest ↦ hsame.follows.covers hrest) hprogram hnext

section Plain

variable {owner : Owner} {streams : Bool} (hadmits : Admits allowed owner streams)
  (hallocates : Allocates world)

include hadmits hallocates

theorem answered_findBuffers {rest : Bool → Execution Outside Record RetCode}
    (hrest : ∀ betweenBuf, Along (Answered allowed owner) (rest betweenBuf))
    (filterBufSize keyLength : ℕ) :
    Along (Answered allowed owner) (findBuffers world owner filterBufSize keyLength rest) := by
  have hmemory : ∀ size, Along SameResponse (stackLiker world size) := fun size ↦
    carries_stackLiker (carries_sameResponse world owner (fullRights true)) size 0
  have herror := answered_error hallocates hadmits (by decide : 400 ≤ 500)
    ClientErrorCode.notEnoughMemory.code
  exact silent_answered (hmemory _) fun _ ↦ along_ite herror <|
    silent_answered (hmemory _) fun _ ↦
      silent_answered (hmemory _) fun betweenBuf ↦
        along_ite herror (hrest betweenBuf)

theorem answered_doFindLocked (hsized : IsSized world) {handlers : FindHandlers Outside Record}
    (hhandlers : RowHandlers world owner streams handlers) {request : TdhsRequest}
    (hfieldNum : 4 + request.tableInfo.fieldNum + tdhSocketHeaderLength < 2 ^ 32)
    (table : Table Record) :
    Along (Answered allowed owner)
      (doFindLocked world rounds owner request handlers table) := by
  have hnotFound : ∀ code, Along (Answered allowed owner)
      (tdhsResponseError world owner clientStatusNotFound code) :=
    answered_error hallocates hadmits (by decide : 400 ≤ 404)
  refine silent_answered (along_read _) fun _ ↦
    along_ite (answered_error hallocates hadmits (by decide : 400 ≤ 500) _) ?_
  refine along_elim (hnotFound _) (fun idxnum ↦ ?_) _
  unfold findOpened
  cases hfields : parseField table (entries request.tableInfo.fields world.stray.field
    request.tableInfo.fieldNum) with
  | none => exact hnotFound _
  | some fields =>
    -- the header of a GET has a column for each field of the request
    have hlength : fields.length = request.tableInfo.fieldNum := by
      rw [length_mapM hfields, entries, List.length_map, List.length_range]
    have hbuffer := hsized.writeBuffSize
    obtain ⟨header, openness, hwrite⟩ :=
      hhandlers.write hadmits hallocates fields (by omega)
    exact along_elim (hnotFound _) (fun filters ↦
      answered_findBuffers hadmits hallocates (fun betweenBuf ↦
        answered_findRows hadmits hallocates hwrite betweenBuf) _ _) _

/-- The end of an INSERT. -/
theorem continues_insertRow (hsized : IsSized world) (table : Table Record) (record : Record) :
    Along (Continues allowed owner (.forValues 1)) (insertRow world owner table record) := by
  have hsilent := carries_sameResponse world owner (fullRights true)
  refine silent_continues (carries_rowCall hsilent table _ 0) fun r ↦ ?_
  intro start ret final hreturns
  obtain ⟨insertId, asked, hasked, hreturns⟩ := bind_eq_some.mp hreturns
  have hid : insertId < 2 ^ 64 ∧ SameResponse start asked := by
    cases hasked
    exact ⟨hsized.insertId _, rfl⟩
  refine hid.2.continues ?_
  split_ifs at hreturns
  · obtain ⟨_, ended, hended, hreturns⟩ := bind_eq_some.mp hreturns
    cases hreturns
    have htext : (decimal insertId).length ≤ 48 :=
      length_decimal_le (by decide) (hid.1.trans (by decide))
    exact continues_appendValue hadmits htext 0 _ _ _ hended
  · exact continues_error hallocates hadmits (by decide : 400 ≤ 502) _ _ _ _ _ hreturns

theorem answered_doInsertLocked (hsized : IsSized world) (request : TdhsRequest)
    (table : Table Record) :
    Along (Answered allowed owner) (doInsertLocked world owner request table) := by
  have hsilent := carries_sameResponse world owner (fullRights true)
  refine silent_answered (along_read _) fun _ ↦
    along_ite (answered_error hallocates hadmits (by decide : 400 ≤ 500) _) <|
      along_elim (answered_error hallocates hadmits (by decide : 400 ≤ 404) _) (fun fields ↦ ?_) _
  intro start ret final hreturns
  obtain ⟨_, _, hinit, hreturns⟩ := bind_eq_some.mp hreturns
  cases hinit
  obtain ⟨created, opened, hcreated, hreturns⟩ := bind_eq_some.mp hreturns
  obtain ⟨-, hwrote⟩ := writeUpdateHeader_wrote hallocates hcreated
  refine hwrote.answered (starts_updateHeader _ _ (by decide : 1 ≤ 2))
    (hadmits _ fun hno ↦ by cases hno) ?_
  refine along_ite (continues_error hallocates hadmits (by decide : 400 ≤ 500) _ _)
    (silent_continues (carries_insertFields hsilent _ _ 0) fun record ↦ ?_) opened ret final
      hreturns
  exact along_elim (continues_error hallocates hadmits (by decide : 400 ≤ 502) _ _)
    (fun record ↦ continues_insertRow hadmits hallocates hsized table record) _

omit hadmits hallocates in
theorem follows_lockTables (tables : List ℕ) :
    Along (Follows allowed) (lockTables world bulk tables) :=
  follows_of_statement (conducts_lockTables (conducts_along world (fun _ ↦ False) false) bulk _ 0)

omit hadmits hallocates in
theorem follows_unlockTables (request : ℕ) :
    Along (Follows allowed) (unlockTables world bulk request) :=
  follows_of_statement
    (conducts_unlockTables (conducts_along world (fun _ ↦ False) false) bulk _ 0)

/-- The destructor of the table locker may replace the answer. -/
theorem follows_releaseTableLocker :
    Along (Follows allowed) (releaseTableLocker world bulk owner) := by
  have herror : Along (Follows allowed) (responseFailedToCommit world owner) :=
    (answered_error hallocates hadmits (by decide : 400 ≤ 500) _).mono fun _ _ ↦ Covers.follows
  have hnote : ∀ retcode, Along (Follows allowed)
      (Program.modify fun context : Context Outside Record ↦
        { context with retcode := retcode }) := fun retcode ↦
    along_modify fun _ ↦ SameResponse.follows rfl
  exact along_bind (follows_unlockTables _) fun _ ↦ along_bind (along_read _) fun _ ↦
    along_ite (along_bind herror fun _ ↦ hnote _) (along_pure _)

theorem answered_withOpenedTable {body : Table Record → Execution Outside Record RetCode}
    (hbody : ∀ table, Along (Answered allowed owner) (body table))
    (opened : OpenedTable Record) :
    Along (Answered allowed owner) (withOpenedTable world owner (fun address table ↦
      withTableLocker world bulk owner address (body table)) opened) := by
  cases opened with
  | noMemory => exact answered_error hallocates hadmits (by decide : 400 ≤ 500) _
  | notOpened => exact answered_error hallocates hadmits (by decide : 400 ≤ 404) _
  | opened address table =>
    refine along_chain (fun hfirst hrest ↦ hfirst.covers hrest) (follows_lockTables _) fun _ ↦ ?_
    refine along_chain (fun hfirst hrest ↦ hfirst.trans_follows hrest) (hbody table) fun _ ↦ ?_
    exact along_bind (follows_releaseTableLocker hadmits hallocates) fun _ ↦ along_pure _

end Plain

/-! ### Batches -/

/-- The packets whose answers go back: none behind another value than `EASY_OK`. -/
def owed (ret : RetCode) (owners : List Owner) : List Owner := if ret = .ok then owners else []

theorem owed_of_ne {ret : RetCode} (hret : ret ≠ .ok) (owners : List Owner) :
    owed ret owners = [] := if_neg hret

theorem owed_subset (ret : RetCode) (owners : List Owner) : owed ret owners ⊆ owners := by
  unfold owed
  split_ifs
  · exact List.Subset.refl _
  · exact List.nil_subset _

/-- A program that writes to some packets, and to more when it returns `EASY_OK`. -/
def Owes (allowed : Owner → Write → Prop) (owners more : List Owner)
    (program : Execution Outside Record RetCode) : Prop :=
  ∀ start ret final, program start = some (ret, final) →
    Covers allowed (owners ++ owed ret more) start final

/-- A packet may be rewritten with an error. -/
theorem Admits.quiet {streams : Bool} (hadmits : Admits allowed owner streams) :
    Admits allowed owner false := fun write hstream ↦
  hadmits write fun hyes ↦ absurd (hstream hyes) Bool.false_ne_true

section Batch

variable (hallocates : Allocates world)

include hallocates

theorem follows_rewritePackets
    (hadmits : ∀ owner ∈ owners, Admits allowed owner false) (retcode : RetCode) :
    Along (Follows allowed) (rewritePackets world retcode owners) := by
  induction owners generalizing retcode with
  | nil => exact along_pure _
  | cons owner owners ih =>
    have hrest := ih fun other hother ↦ hadmits other (List.mem_cons_of_mem _ hother)
    have herror : Along (Follows allowed) (responseFailedToCommit world owner) :=
      (answered_error hallocates (hadmits owner List.mem_cons_self)
        (by decide : 400 ≤ 500) _).mono fun _ _ ↦ Covers.follows
    exact along_bind (along_read _) fun _ ↦
      along_ite (along_bind herror fun ret ↦ hrest ret) (hrest retcode)

theorem follows_rewriteDone {done : Done}
    (hadmits : ∀ owner ∈ done.packets, Admits allowed owner false) :
    Along (Follows allowed) (rewriteDone world done) :=
  along_ite (along_bind (follows_rewritePackets hallocates hadmits .ok) fun _ ↦ along_pure _)
    (along_pure _)

/-- The header of a batch, and the packets behind it. -/
theorem owes_doBatch {streams : Bool} (hadmits : Admits allowed owner streams)
    (hloop : Owes allowed [] owners loop) :
    Owes allowed [owner] owners (doBatch world owner loop) := by
  intro start ret final hreturns
  obtain ⟨batchRet, headed, hbatch, hreturns⟩ := bind_eq_some.mp hreturns
  have hhead : Answered allowed owner start headed :=
    (tdhsResponseBatch_wrote hallocates start batchRet headed hbatch).answered starts_batch
      (hadmits _ fun hno ↦ by cases hno) (continues_refl allowed owner .shut headed)
  split_ifs at hreturns with hfailed
  · cases hreturns
    exact hhead
  · obtain ⟨_, entered, hentered, hreturns⟩ := bind_eq_some.mp hreturns
    have hsame : SameResponse headed entered := by
      cases hentered
      rfl
    obtain ⟨loopRet, looped, hlooped, hreturns⟩ := bind_eq_some.mp hreturns
    have hcovers := hhead.trans (hsame.follows.covers (hloop _ _ _ hlooped))
    cases hreturns
    exact hcovers

theorem owes_doBatchWithLock {head : Work Record}
    (hadmits : ∀ work ∈ head :: works, Admits allowed work.owner false)
    (hloop : Owes allowed [] owners loop) :
    Owes allowed [head.owner] owners (doBatchWithLock world bulk head works loop) := by
  intro start ret final hreturns
  have hhead := hadmits head List.mem_cons_self
  obtain ⟨memory, asked, hasked, hreturns⟩ := bind_eq_some.mp hreturns
  have hsame : SameResponse start asked := carries_stackLiker
    (carries_sameResponse world head.owner (fullRights true)) _ 0 start memory asked hasked
  rw [returns_stackLiker hallocates _ start memory asked hasked] at hreturns
  obtain ⟨_, locked, hlocked, hreturns⟩ := bind_eq_some.mp hreturns
  obtain ⟨batchRet, batched, hbatch, hreturns⟩ := bind_eq_some.mp hreturns
  obtain ⟨unlockRet, unlocked, hunlocked, hreturns⟩ := bind_eq_some.mp hreturns
  have hbefore : Follows allowed start locked :=
    (SameResponse.follows hsame).trans (follows_lockTables _ asked _ locked hlocked)
  have hbatched : Covers allowed ([head.owner] ++ owed batchRet owners) start unlocked :=
    (hbefore.covers (owes_doBatch hallocates hhead hloop _ _ _ hbatch)).trans_follows
      (follows_unlockTables _ batched unlockRet unlocked hunlocked)
  split_ifs at hreturns with hfailed
  · have hall : ∀ owner ∈ head.owner :: works.map Work.owner, Admits allowed owner false := by
      intro owner howner
      rcases List.mem_cons.mp howner with rfl | howner
      · exact hhead
      · obtain ⟨work, hwork, rfl⟩ := List.mem_map.mp howner
        exact hadmits work (List.mem_cons_of_mem _ hwork)
    rw [rewriteUntilError_eq hallocates] at hreturns
    have hrewritten := follows_rewritePackets hallocates hall .ok unlocked ret final hreturns
    rw [hfailed.2] at hbatched
    refine (hbatched.trans_follows hrewritten).mono ?_
    exact List.append_subset.mpr ⟨List.subset_append_left _ _,
      List.Subset.trans (owed_subset ret owners) (List.subset_append_right _ _)⟩
  · cases hreturns
    exact hbatched

end Batch

/-! ### execute -/

section Execute

variable (hallocates : Allocates world) (hsized : IsSized world)

include hallocates hsized

/-- The dispatch on the type of a packet that is no batch. -/
theorem answered_dispatch (hwork : IsScripted allowed work)
    (hbatch : work.request.type ≠ .batch) (works : List (Work Record))
    (loop : Execution Outside Record RetCode) :
    Along (Answered allowed work.owner) (dispatch world rounds bulk work works loop) := by
  have hfind : ∀ {handlers : FindHandlers Outside Record},
      RowHandlers world work.owner (work.request.type == .get) handlers →
      Along (Answered allowed work.owner)
        (doFind world rounds bulk work.owner work.request work.opened handlers) :=
    fun hhandlers ↦ silent_answered (along_modify fun _ ↦ rfl) fun _ ↦
      answered_withOpenedTable hwork.admits hallocates
        (answered_doFindLocked hwork.admits hallocates hsized hhandlers hwork.fieldNum) _
  unfold dispatch
  cases htype : work.request.type with
  | get => exact hfind (.get (by rw [htype]; rfl))
  | count => exact hfind .count
  | update => exact hfind (.update _)
  | delete => exact hfind .delete
  | insert =>
    exact answered_withOpenedTable hwork.admits hallocates
      (answered_doInsertLocked hwork.admits hallocates hsized _) _
  | batch => exact absurd htype hbatch

omit hsized in
theorem owes_dispatch_of_batch
    (hworks : ∀ each ∈ work :: works, IsScripted allowed each)
    (hbatch : work.request.type = .batch)
    (hloop : Owes allowed [] owners loop) :
    Owes allowed [work.owner] owners (dispatch world rounds bulk work works loop) := by
  have hall : ∀ each ∈ work :: works, Admits allowed each.owner false := fun each heach ↦
    (hworks each heach).admits.quiet
  intro start ret final hreturns
  rw [dispatch_of_batch hbatch] at hreturns
  split_ifs at hreturns
  · exact owes_doBatch hallocates (hall work List.mem_cons_self) hloop _ _ _ hreturns
  · exact owes_doBatchWithLock hallocates hall hloop _ _ _ hreturns

omit hallocates hsized in
/-- Another return value noted by the table locker is none of success. -/
theorem Owes.executeWith {more : List Owner}
    (hdispatch : Owes allowed owners more (dispatch world rounds bulk work works loop)) :
    Owes allowed owners more (executeWith world rounds bulk work works loop) := by
  intro start ret final hreturns
  obtain ⟨bodyRet, middle, hbody, hret, rfl⟩ := executeWith_eq_some.mp hreturns
  have howed : owed ret more ⊆ owed bodyRet more := by
    by_cases hok : ret = .ok
    · rw [hok] at hret ⊢
      split_ifs at hret with hretcode
      · exact absurd hret.symm hretcode
      · rw [← hret]
        exact List.Subset.refl _
    · rw [owed_of_ne hok]
      exact List.nil_subset _
  have hopening : SameResponse start (opening work.owner start) := rfl
  have hmiddle : Covers allowed (owners ++ owed bodyRet more) start middle :=
    hopening.follows.covers (hdispatch _ _ _ hbody)
  exact hmiddle.mono (List.append_subset.mpr ⟨List.subset_append_left _ _,
    List.Subset.trans howed (List.subset_append_right _ _)⟩)

/-- `execute` on a packet, with those behind it if it is a batch. -/
theorem owes_executeWith
    (hworks : ∀ each ∈ work :: works, IsScripted allowed each)
    (howners : work.request.type ≠ .batch → owners = [])
    (hloop : Owes allowed [] owners loop) :
    Owes allowed [work.owner] owners (executeWith world rounds bulk work works loop) := by
  refine Owes.executeWith ?_
  by_cases hbatch : work.request.type = .batch
  · exact owes_dispatch_of_batch hallocates hworks hbatch hloop
  · rw [howners hbatch]
    intro start ret final hreturns
    refine (answered_dispatch hallocates hsized (hworks work List.mem_cons_self) hbatch _ _ start
      ret final hreturns).mono ?_
    exact List.append_subset.mpr ⟨List.Subset.refl _,
      List.Subset.trans (owed_subset ret []) (List.nil_subset _)⟩

/-- The loop of `do_batch` writes each of its packets, unless it ends early. -/
theorem owes_executeBatch
    (hworks : ∀ work ∈ works, IsScripted allowed work) :
    Owes allowed [] (works.map Work.owner) (executeBatch world rounds bulk works) := by
  induction works with
  | nil =>
    intro start ret final hreturns
    cases hreturns
    exact SameResponse.follows rfl
  | cons work works ih =>
    have hrest := ih fun other hother ↦ hworks other (List.mem_cons_of_mem _ hother)
    intro start ret final hreturns
    obtain ⟨workRet, middle, hwork, hreturns⟩ := bind_eq_some.mp hreturns
    have hfirst : Answered allowed work.owner start middle := by
      have hloop : Owes allowed [] [] (executeBatch world rounds bulk works) :=
        fun before value after hafter ↦ (hrest before value after hafter).mono
          (List.append_subset.mpr ⟨List.nil_subset _,
            List.Subset.trans (owed_subset value []) (List.nil_subset _)⟩)
      exact (owes_executeWith hallocates hsized hworks (fun _ ↦ rfl) hloop _ _ _ hwork).mono
        (List.subset_append_left _ _)
    split_ifs at hreturns with hfailed
    · obtain ⟨_, noted, hnoted, hreturns⟩ := bind_eq_some.mp hreturns
      cases hnoted
      cases hreturns
      rw [owed_of_ne hfailed]
      exact hfirst.follows
    · obtain ⟨_, noted, hnoted, hreturns⟩ := bind_eq_some.mp hreturns
      have hsame : SameResponse middle noted := by
        cases hnoted
        rfl
      refine (hfirst.trans (hsame.follows.covers (hrest _ _ _ hreturns))).mono ?_
      unfold owed
      split_ifs
      · exact List.Subset.refl _
      · exact List.nil_subset _

end Execute

/-! ### Chains -/

/-- A chain as decoding leaves it: a request that is no batch has one packet, and behind a batch
there is no GET. Assumes: the columns of its packets fit their buffers. -/
structure IsChain (chain : OpenedChain Record) : Prop where
  single : chain.head.request.type ≠ .batch → chain.rest = []
  rest : ∀ work ∈ chain.rest, work.request.type ≠ .get
  fieldNum : ∀ work ∈ chain.head :: chain.rest,
    4 + work.request.tableInfo.fieldNum + tdhSocketHeaderLength < 2 ^ 32

/-- The writes to the packets of a chain: data goes to its first packet alone. -/
def MayWrite (chain : OpenedChain Record) (owner : Owner) (write : Write) : Prop :=
  owner ∈ chain.packets ∧
    (write.isStream = true → owner = chain.head.owner ∧ chain.head.request.type = .get)

theorem IsChain.isScripted {chain : OpenedChain Record} (hchain : IsChain chain) :
    ∀ work ∈ chain.head :: chain.rest, IsScripted (MayWrite chain) work := by
  intro work hwork
  refine ⟨fun write hstream ↦ ⟨List.mem_map_of_mem hwork, fun hyes ↦ ?_⟩,
    hchain.fieldNum work hwork⟩
  have hget : work.request.type = .get := eq_of_beq (hstream hyes)
  rcases List.mem_cons.mp hwork with rfl | hrest
  · exact ⟨rfl, hget⟩
  · exact absurd hget (hchain.rest work hrest)

section Chains

variable (hallocates : Allocates world) (hsized : IsSized world) {chain : OpenedChain Record}
  (hchain : IsChain chain)

include hallocates hsized hchain

theorem owes_execute : Owes (MayWrite chain) [chain.head.owner] (chain.rest.map Work.owner)
    (execute world rounds bulk chain.head chain.rest) := by
  have hscripted := hchain.isScripted
  refine owes_executeWith hallocates hsized hscripted (fun hbatch ↦ ?_)
    (owes_executeBatch hallocates hsized fun work hwork ↦
      hscripted work (List.mem_cons_of_mem _ hwork))
  rw [hchain.single hbatch]
  rfl

/-- The process loop writes every packet that goes back with `EASY_OK`. -/
theorem processRequest_covers {start final : Context Outside Record} {done : Done}
    (hreturns : processRequest world rounds bulk chain start = some (done, final)) :
    done.packets ⊆ chain.packets ∧
      Covers (MayWrite chain) (owed done.retcode done.packets) start final := by
  obtain ⟨closed, asked, hasked, hreturns⟩ := bind_eq_some.mp hreturns
  have hclosed : SameResponse start asked := by
    cases hasked
    rfl
  split_ifs at hreturns
  · cases hreturns
    exact ⟨List.nil_subset _, hclosed.follows⟩
  obtain ⟨timedOut, looked, hlooked, hreturns⟩ := bind_eq_some.mp hreturns
  have hbefore : Follows (MayWrite chain) start looked := by
    cases hlooked
    exact hclosed.follows
  split_ifs at hreturns
  · obtain ⟨ret, answered, herror, hreturns⟩ := bind_eq_some.mp hreturns
    have hadmits : Admits (MayWrite chain) chain.head.owner false := fun _ hstream ↦
      ⟨List.mem_cons_self, fun hyes ↦ absurd (hstream hyes) Bool.false_ne_true⟩
    have hanswered := answered_error hallocates hadmits (by decide : 400 ≤ 408) _ looked ret
      answered herror
    cases hreturns
    refine ⟨List.cons_subset.mpr ⟨List.mem_cons_self, List.nil_subset _⟩, ?_⟩
    exact (hbefore.covers hanswered).mono (owed_subset _ _)
  · obtain ⟨ret, executed, hexecute, hreturns⟩ := bind_eq_some.mp hreturns
    have howes := owes_execute hallocates hsized hchain looked ret executed hexecute
    cases hreturns
    refine ⟨List.Subset.refl _, (hbefore.covers howes).mono ?_⟩
    unfold owed
    split_ifs
    · exact List.Subset.refl _
    · exact List.nil_subset _

end Chains

end TdhSocket.Execute
