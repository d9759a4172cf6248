import TdhSocket.Execute.Shared

/-!
# Work inside one statement

`Shares` says what a piece of work inside one shared statement does to the context: the packets it
answers, the outcomes it adds, the row changes it makes, and that an error is noted exactly when a
packet behind a batch failed. Pieces for different packets compose (`Shares.trans`), so the
relation holds of one packet (`shares_of_executed`), of the loop of `do_batch`
(`executeBatch_shares`), of a whole request with group commit (`processRequest_shares`) and of a
whole list.
-/

set_option autoImplicit false

namespace TdhSocket.Execute

open Protocol Decode Library Library.Program

variable {Outside Record : Type} {world : World Outside Record} {rounds : ℕ} {bulk : Bool}

/-- `execute` returned an error, or its packet has the status of one. -/
def Outcome.failed (outcome : Outcome) : Bool :=
  decide (outcome.ret ≠ .ok) || decide (300 ≤ outcome.code)

/-- The packet is behind a batch and failed. -/
def Outcome.failedInBatch (outcome : Outcome) : Bool :=
  decide (outcome.owner.position ≠ 0) && outcome.failed

/-- What a piece of work inside one statement does to the context. -/
structure Shares (world : World Outside Record) (owners : Set Owner) (outs : List Outcome)
    (start final : Context Outside Record) : Prop where
  lock : final.lock = start.lock
  inBatch : final.inBatch = start.inBatch
  retcode : start.retcode = .ok → final.retcode = .ok
  writeError : final.writeError = (start.writeError || outs.any Outcome.failedInBatch)
  outcomes : final.outcomes = start.outcomes ++ outs
  owned : ∀ out ∈ outs, out.owner ∈ owners
  answered : ∀ out ∈ outs, (final.response out.owner).code = out.code
  response : ∀ other, other ∉ owners → final.response other = start.response other
  success : ∀ owner, isSuccess (final.response owner).code = true →
    isSuccess (start.response owner).code = true ∨ ∃ out ∈ outs, out.owner = owner
  events : ∃ more, final.events = start.events ++ more ∧
    ∀ event ∈ more, ∃ owner ∈ owners, event.By world owner
  unlocked : start.lock = false → final.events = start.events ∧
    ∀ owner, isSuccess (final.response owner).code = true →
      isSuccess (start.response owner).code = true

theorem Shares.refl (world : World Outside Record) (owners : Set Owner)
    (context : Context Outside Record) : Shares world owners [] context context where
  lock := rfl
  inBatch := rfl
  retcode hok := hok
  writeError := (Bool.or_false _).symm
  outcomes := (List.append_nil _).symm
  owned _ hout := absurd hout List.not_mem_nil
  answered _ hout := absurd hout List.not_mem_nil
  response _ _ := rfl
  success _ hsuccess := Or.inl hsuccess
  events := ⟨[], (List.append_nil _).symm, List.forall_mem_nil _⟩
  unlocked _ := ⟨rfl, fun _ hsuccess ↦ hsuccess⟩

variable {start final : Context Outside Record} {ret : RetCode} {works : List (Work Record)}
  {chain : OpenedChain Record} {middle : Context Outside Record} {outs : List Outcome}
  {owner : Owner} {work : Work Record} {firstOuts : List Outcome} {owners : Set Owner}
  {out : Outcome} {head : Owner} {done : Done}

/-- Pieces of work for different packets compose. -/
theorem Shares.trans {first next : Set Owner} {nextOuts : List Outcome}
    (hfirst : Shares world first firstOuts start middle)
    (hnext : Shares world next nextOuts middle final) (hdisjoint : ∀ owner ∈ first, owner ∉ next) :
    Shares world (first ∪ next) (firstOuts ++ nextOuts) start final where
  lock := hnext.lock.trans hfirst.lock
  inBatch := hnext.inBatch.trans hfirst.inBatch
  retcode hok := hnext.retcode (hfirst.retcode hok)
  writeError := by rw [hnext.writeError, hfirst.writeError, List.any_append, Bool.or_assoc]
  outcomes := by rw [hnext.outcomes, hfirst.outcomes, List.append_assoc]
  owned := by
    intro out hout
    rcases List.mem_append.mp hout with hout | hout
    · exact Or.inl (hfirst.owned out hout)
    · exact Or.inr (hnext.owned out hout)
  answered := by
    intro out hout
    rcases List.mem_append.mp hout with hout | hout
    · rw [hnext.response _ (hdisjoint _ (hfirst.owned out hout))]
      exact hfirst.answered out hout
    · exact hnext.answered out hout
  response := by
    intro other hother
    rw [hnext.response other fun hnot ↦ hother (Or.inr hnot)]
    exact hfirst.response other fun hnot ↦ hother (Or.inl hnot)
  success := by
    intro owner hsuccess
    rcases hnext.success owner hsuccess with hmiddle | ⟨out, hout, howner⟩
    · rcases hfirst.success owner hmiddle with hstart | ⟨out, hout, howner⟩
      · exact Or.inl hstart
      · exact Or.inr ⟨out, List.mem_append_left _ hout, howner⟩
    · exact Or.inr ⟨out, List.mem_append_right _ hout, howner⟩
  events := by
    obtain ⟨firstEvents, hfirstEvents, hfirstBy⟩ := hfirst.events
    obtain ⟨nextEvents, hnextEvents, hnextBy⟩ := hnext.events
    refine ⟨firstEvents ++ nextEvents, ?_, ?_⟩
    · rw [hnextEvents, hfirstEvents, List.append_assoc]
    · intro event hevent
      rcases List.mem_append.mp hevent with hevent | hevent
      · obtain ⟨owner, howner, hby⟩ := hfirstBy event hevent
        exact ⟨owner, Or.inl howner, hby⟩
      · obtain ⟨owner, howner, hby⟩ := hnextBy event hevent
        exact ⟨owner, Or.inr howner, hby⟩
  unlocked := by
    intro hlock
    obtain ⟨hfirstEvents, hfirstSuccess⟩ := hfirst.unlocked hlock
    obtain ⟨hnextEvents, hnextSuccess⟩ := hnext.unlocked (hfirst.lock.trans hlock)
    exact ⟨hnextEvents.trans hfirstEvents,
      fun owner hsuccess ↦ hfirstSuccess owner (hnextSuccess owner hsuccess)⟩

theorem Shares.mono {larger : Set Owner} (hshares : Shares world owners outs start final)
    (hsubset : owners ⊆ larger) : Shares world larger outs start final :=
  { hshares with
    owned := fun out hout ↦ hsubset (hshares.owned out hout)
    response := fun other hother ↦ hshares.response other fun hnot ↦ hother (hsubset hnot)
    events := by
      obtain ⟨more, hmore, hby⟩ := hshares.events
      refine ⟨more, hmore, fun event hevent ↦ ?_⟩
      obtain ⟨owner, howner, hevent⟩ := hby event hevent
      exact ⟨owner, hsubset howner, hevent⟩ }

/-- An error status is not one of success. -/
theorem isSuccess_of_isErrorStatus {code : ℕ} (hcode : IsErrorStatus code) :
    isSuccess code = false := by
  have hlarge : ¬code < 300 := by
    unfold IsErrorStatus at hcode
    omega
  simp [isSuccess, hlarge]

/-- The outcome of a packet in the context its execution leaves. -/
def outcomeIn (owner : Owner) (ret : RetCode) (context : Context Outside Record) : Outcome :=
  ⟨owner, ret, (context.response owner).code⟩

/-- One plain packet is a piece of work. Assumes: behind its execution an error is noted if it is
behind a batch and failed. -/
theorem shares_of_executed
    (hexecuted : Executed world owner ret start middle)
    {writeError : Bool}
    (hwriteError :
      writeError = (start.writeError || (outcomeIn owner ret middle).failedInBatch)) :
    Shares world {owner} [outcomeIn owner ret middle] start
      { middle with writeError := writeError } where
  lock := hexecuted.lock
  inBatch := hexecuted.inBatch
  retcode _ := hexecuted.retcode
  writeError := by
    rw [List.any_cons, List.any_nil, Bool.or_false]
    exact hwriteError
  outcomes := hexecuted.outcomes
  owned out hout := congrArg Outcome.owner (List.mem_singleton.mp hout)
  answered out hout := by
    rw [List.mem_singleton.mp hout]
    rfl
  response other hother := hexecuted.response other hother
  success other hsuccess := by
    by_cases hother : other = owner
    · exact Or.inr ⟨_, List.mem_singleton_self _, hother.symm⟩
    · have hsame : middle.response other = start.response other :=
        hexecuted.response other hother
      rw [← hsame]
      exact Or.inl hsuccess
  events := by
    obtain ⟨more, hmore, hby⟩ := hexecuted.events
    exact ⟨more, hmore, fun event hevent ↦ ⟨owner, rfl, hby event hevent⟩⟩
  unlocked hlock := by
    obtain ⟨hevents, hcode⟩ := hexecuted.unlocked hlock
    refine ⟨hevents, fun other hsuccess ↦ ?_⟩
    by_cases hother : other = owner
    · rw [hother, isSuccess_of_isErrorStatus hcode] at hsuccess
      cases hsuccess
    · have hsame : middle.response other = start.response other :=
        hexecuted.response other hother
      rw [← hsame]
      exact hsuccess

/-! ### The loop of do_batch -/

/-- The packets behind a batch, when none of them is a batch: plain writes, each with its own
place. -/
structure ArePlain (works : List (Work Record)) : Prop where
  plain : ∀ work ∈ works, IsPlainWrite work.request.type
  behind : ∀ work ∈ works, work.owner.position ≠ 0
  nodup : (works.map Work.owner).Nodup

theorem ArePlain.of_cons
    (hplain : ArePlain (work :: works)) : ArePlain works :=
  ⟨fun other hother ↦ hplain.plain other (List.mem_cons_of_mem _ hother),
    fun other hother ↦ hplain.behind other (List.mem_cons_of_mem _ hother),
    (List.nodup_cons.mp hplain.nodup).2⟩

/-- What the loop of `do_batch` says about the packets: they are executed in order up to the first
that returns an error, and all of them when none does. -/
structure Looped (works : List (Work Record)) (ret : RetCode) (outs : List Outcome) : Prop where
  inOrder : outs.map Outcome.owner <+: works.map Work.owner
  all : ret = .ok → outs.map Outcome.owner = works.map Work.owner ∧ ∀ out ∈ outs, out.ret = .ok
  stopped : ret ≠ .ok → ∃ out ∈ outs, out.ret ≠ .ok

theorem Looped.cons (hlooped : Looped works ret outs) (howner : out.owner = work.owner)
    (hret : out.ret = .ok) :
    Looped (work :: works) ret (out :: outs) where
  inOrder := by
    rw [List.map_cons, List.map_cons, howner]
    exact (List.prefix_cons_inj _).mpr hlooped.inOrder
  all hok := by
    obtain ⟨hmap, hrets⟩ := hlooped.all hok
    refine ⟨by rw [List.map_cons, List.map_cons, howner, hmap], fun other hother ↦ ?_⟩
    rcases List.mem_cons.mp hother with rfl | hother
    · exact hret
    · exact hrets other hother
  stopped hbad := by
    obtain ⟨other, hother, hfailed⟩ := hlooped.stopped hbad
    exact ⟨other, List.mem_cons_of_mem _ hother, hfailed⟩

theorem looped_stop (howner : out.owner = work.owner) (hout : out.ret = ret) (hret : ret ≠ .ok) :
    Looped (work :: works) ret [out] where
  inOrder := by
    rw [List.map_cons, List.map_cons, howner]
    exact (List.prefix_cons_inj _).mpr List.nil_prefix
  all hok := absurd hok hret
  stopped _ := ⟨out, List.mem_singleton_self out, hout ▸ hret⟩

/-- Assumes: plain packets, in a context in which they share their statement. -/
theorem executeBatch_shares (hplain : ArePlain works)
    (hshared : IsShared bulk start)
    (hreturns : executeBatch world rounds bulk works start = some (ret, final)) :
    ∃ outs, Shares world {owner | owner ∈ works.map Work.owner} outs start final ∧
      final.started = start.started ++ outs.map Outcome.owner ∧ Looped works ret outs := by
  induction works generalizing start with
  | nil =>
    cases hreturns
    refine ⟨[], Shares.refl world _ final, (List.append_nil _).symm, List.prefix_rfl, ?_, ?_⟩
    · exact fun _ ↦ ⟨rfl, List.forall_mem_nil _⟩
    · exact fun hret ↦ absurd rfl hret
  | cons work works ih =>
    obtain ⟨workRet, middle, hwork, hrest⟩ := bind_eq_some.mp hreturns
    have hexecuted := executed_of_shared (hplain.plain work List.mem_cons_self) hshared hwork
    have hbehind := hplain.behind work List.mem_cons_self
    have howners : {owner | owner ∈ (work :: works).map Work.owner} =
        {work.owner} ∪ {owner | owner ∈ works.map Work.owner} := by
      ext owner
      simp
    by_cases hret : workRet = .ok
    · rw [if_neg (not_not_intro hret)] at hrest
      obtain ⟨_, _, hmodify, hrest⟩ := bind_eq_some.mp hrest
      cases hmodify
      have hnoted : (middle.writeError || decide (300 ≤ (middle.response work.owner).code)) =
          (start.writeError || (outcomeIn work.owner workRet middle).failedInBatch) := by
        simp [outcomeIn, Outcome.failedInBatch, Outcome.failed, hbehind, hret,
          hexecuted.writeError]
      have hstep := shares_of_executed hexecuted hnoted
      have hsharedStep : IsShared bulk
          { middle with
            writeError :=
              middle.writeError || decide (300 ≤ (middle.response work.owner).code) } := by
        unfold IsShared
        rw [hstep.inBatch]
        exact hshared
      obtain ⟨outs, hshares, hstarted, hlooped⟩ := ih hplain.of_cons hsharedStep hrest
      have hdisjoint : ∀ owner ∈ ({work.owner} : Set Owner), owner ∉ works.map Work.owner := by
        rintro owner rfl
        exact (List.nodup_cons.mp hplain.nodup).1
      refine ⟨outcomeIn work.owner workRet middle :: outs, ?_, ?_, hlooped.cons rfl hret⟩
      · rw [howners]
        exact hstep.trans hshares hdisjoint
      · rw [hstarted]
        rw [hexecuted.started, List.append_assoc]
        rfl
    · rw [if_pos hret] at hrest
      obtain ⟨_, _, hmodify, hrest⟩ := bind_eq_some.mp hrest
      cases hmodify
      cases hrest
      have hnoted : true =
          (start.writeError || (outcomeIn work.owner ret middle).failedInBatch) := by
        simp [outcomeIn, Outcome.failedInBatch, Outcome.failed, hbehind, hret]
      have hstep := shares_of_executed hexecuted hnoted
      refine ⟨[outcomeIn work.owner ret middle], ?_, hexecuted.started, looped_stop rfl rfl hret⟩
      rw [howners]
      exact hstep.mono Set.subset_union_left

/-! ### do_batch -/

/-- A response without an outcome is a piece of work. Assumes: it logs nothing and is no success. -/
theorem shares_of_works
    (hworks : Works world owner start final) (hevents : final.events = start.events)
    (hcode : isSuccess (final.response owner).code = false) :
    Shares world {owner} [] start final := by
  have hsuccess : ∀ other, isSuccess (final.response other).code = true →
      isSuccess (start.response other).code = true := by
    intro other hother
    by_cases hsame : other = owner
    · rw [hsame, hcode] at hother
      cases hother
    · rw [← hworks.response other hsame]
      exact hother
  refine { Shares.refl world {owner} start with
    lock := hworks.lock
    inBatch := hworks.inBatch
    retcode := fun hok ↦ hworks.retcode.trans hok
    writeError := by rw [hworks.writeError, List.any_nil, Bool.or_false]
    outcomes := by rw [hworks.outcomes, List.append_nil]
    answered := List.forall_mem_nil _
    response := hworks.response
    success := fun other hother ↦ Or.inl (hsuccess other hother)
    events := ⟨[], by rw [hevents, List.append_nil], List.forall_mem_nil _⟩
    unlocked := fun _ ↦ ⟨hevents, hsuccess⟩ }

/-- What `do_batch` says about the packets behind a batch: none was executed, or the loop ran. -/
def Batched (works : List (Work Record)) (ret : RetCode) (outs : List Outcome) : Prop :=
  (outs = [] ∧ ret = .error) ∨ Looped works ret outs

/-- Assumes: plain packets behind a batch, which is not inside another one. -/
theorem doBatch_shares (hplain : ArePlain works) (hhead : head ∉ works.map Work.owner)
    (hinBatch : start.inBatch = false)
    (hreturns :
      doBatch world head (executeBatch world rounds bulk works) start = some (ret, final)) :
    ∃ outs, Shares world ({head} ∪ {owner | owner ∈ works.map Work.owner}) outs start final ∧
      (final.response head).code = clientStatusMultiStatus ∧
      final.started = start.started ++ outs.map Outcome.owner ∧ Batched works ret outs := by
  obtain ⟨answerRet, answered, hanswer, hreturns⟩ := bind_eq_some.mp hreturns
  obtain ⟨hevents, hcode⟩ := tdhsResponseBatch_answers hanswer
  have hworks := carries_tdhsResponseBatch (carries_keeps (fullRights true)) 0 start start answerRet
    answered (Works.refl world head start) hanswer
  have hfirst := shares_of_works hworks hevents (by rw [hcode]; rfl)
  by_cases hret : answerRet = .ok
  · rw [if_neg (not_not_intro hret)] at hreturns
    obtain ⟨_, _, hmodify, hreturns⟩ := bind_eq_some.mp hreturns
    cases hmodify
    obtain ⟨loopRet, looped, hloop, hreturns⟩ := bind_eq_some.mp hreturns
    cases hreturns
    have hshared : IsShared bulk { answered with inBatch := true } := Bool.or_true _
    obtain ⟨outs, hshares, hstarted, hlooped⟩ := executeBatch_shares hplain hshared hloop
    have hnext : Shares world {owner | owner ∈ works.map Work.owner} outs answered
        { looped with inBatch := false } :=
      { hshares with inBatch := (hworks.inBatch.trans hinBatch).symm }
    have hdisjoint : ∀ owner ∈ ({head} : Set Owner), owner ∉ works.map Work.owner := by
      rintro owner rfl
      exact hhead
    refine ⟨outs, hfirst.trans hnext hdisjoint, ?_, ?_, Or.inr hlooped⟩
    · rw [hnext.response head hhead]
      exact hcode
    · rw [hstarted]
      exact congrArg (· ++ _) hworks.started
  · rw [if_pos hret] at hreturns
    cases hreturns
    refine ⟨[], hfirst.mono Set.subset_union_left, hcode, ?_, Or.inl ⟨rfl, rfl⟩⟩
    rw [hworks.started, List.map_nil, List.append_nil]

/-! ### A request with group commit -/

/-- The chain of a plain write, or of a batch of plain writes. -/
structure IsWriteChain (chain : OpenedChain Record) : Prop where
  head : chain.head.owner = ⟨chain.number, 0⟩
  rest : ∀ work ∈ chain.rest, work.owner.request = chain.number
  kind : (IsPlainWrite chain.head.request.type ∧ chain.rest = []) ∨
    (chain.head.request.type = .batch ∧ ArePlain chain.rest)

theorem ArePlain.head_notMem (hplain : ArePlain works)
    (number : ℕ) : (⟨number, 0⟩ : Owner) ∉ works.map Work.owner := by
  intro hmem
  obtain ⟨work, hwork, howner⟩ := List.mem_map.mp hmem
  exact hplain.behind work hwork (congrArg Owner.position howner)

/-- The packets of a chain. -/
def OpenedChain.packets (chain : OpenedChain Record) : List Owner :=
  chain.head.owner :: chain.rest.map Work.owner

theorem IsWriteChain.request_eq (hchain : IsWriteChain chain)
    (howner : owner ∈ chain.packets) : owner.request = chain.number := by
  rcases List.mem_cons.mp howner with rfl | howner
  · exact congrArg Owner.request hchain.head
  · obtain ⟨work, hwork, rfl⟩ := List.mem_map.mp howner
    exact hchain.rest work hwork

/-- The packets of the request with a number. -/
def ofRequest (number : ℕ) : Set Owner := {owner | owner.request = number}

theorem IsWriteChain.subset_ofRequest (hchain : IsWriteChain chain) :
    {chain.head.owner} ∪ {owner | owner ∈ chain.rest.map Work.owner} ⊆
      ofRequest chain.number :=
  fun _ howner ↦ hchain.request_eq (List.mem_cons.mpr howner)

/-- The answer to a request goes with its outcomes: it has the return value of its first packet,
and a batch without a failed packet is answered as a whole. -/
structure IsAnswer (chain : OpenedChain Record) (outs : List Outcome) (done : Done) : Prop where
  request : done.request = chain.number
  packets : done.packets ⊆ chain.packets
  first : ∀ out ∈ outs, out.owner.position = 0 → out.ret = done.retcode
  whole : outs.any Outcome.failedInBatch = false → ∀ out ∈ outs, out.ret = .ok →
    done.retcode = .ok ∧ out.owner ∈ done.packets

/-- The first packet of a batch is answered behind the others. Assumes: it has place zero. -/
theorem Shares.closing (hshares : Shares world owners outs start final) (hhead : head ∈ owners)
    (hplace : head.position = 0) (ret : RetCode) :
    Shares world owners (outs ++ [outcomeIn head ret final]) start (closing head ret final) :=
  { hshares with
    writeError := by
      have hnone : [outcomeIn head ret final].any Outcome.failedInBatch = false := by
        simp [outcomeIn, Outcome.failedInBatch, hplace]
      rw [List.any_append, hnone, Bool.or_false]
      exact hshares.writeError
    outcomes := by
      show final.outcomes ++ [outcomeIn head ret final] = _
      rw [hshares.outcomes, List.append_assoc]
    owned := by
      intro out hout
      rcases List.mem_append.mp hout with hout | hout
      · exact hshares.owned out hout
      · rw [List.mem_singleton.mp hout]
        exact hhead
    answered := by
      intro out hout
      rcases List.mem_append.mp hout with hout | hout
      · exact hshares.answered out hout
      · rw [List.mem_singleton.mp hout]
        rfl
    success := by
      intro owner hsuccess
      rcases hshares.success owner hsuccess with hstart | ⟨out, hout, howner⟩
      · exact Or.inl hstart
      · exact Or.inr ⟨out, List.mem_append_left _ hout, howner⟩ }

/-- The outcomes of `do_batch` are those of packets behind the batch. -/
theorem Batched.owned (hbatched : Batched works ret outs) (hout : out ∈ outs) :
    out.owner ∈ works.map Work.owner := by
  rcases hbatched with ⟨rfl, -⟩ | hlooped
  · exact absurd hout List.not_mem_nil
  · exact hlooped.inOrder.subset (List.mem_map_of_mem hout)

/-- A batch without a failed packet returned no error, unless none of its packets was executed. -/
theorem Batched.ret_eq_ok (hplain : ArePlain works)
    (hbatched : Batched works ret outs) (hexecuted : outs ≠ [])
    (hnone : outs.any Outcome.failedInBatch = false) : ret = .ok := by
  by_contra hret
  obtain ⟨out, hout, hfailed⟩ := (hbatched.resolve_left fun hleft ↦ hexecuted hleft.1).stopped hret
  obtain ⟨work, hwork, howner⟩ := List.mem_map.mp (hbatched.owned hout)
  have hbehind : out.owner.position ≠ 0 := howner ▸ hplain.behind work hwork
  have htrue : out.failedInBatch = true := by
    simp [Outcome.failedInBatch, Outcome.failed, hbehind, hfailed]
  exact List.any_eq_false.mp hnone out hout htrue

/-- `execute` on a request with group commit. Assumes: a plain write or a batch of them. -/
theorem execute_shares (hchain : IsWriteChain chain)
    (hinBatch : start.inBatch = false)
    (hreturns : execute world rounds true chain.head chain.rest start = some (ret, final)) :
    ∃ outs, Shares world (ofRequest chain.number) outs start final ∧
      IsAnswer chain outs ⟨chain.number, ret, chain.packets⟩ := by
  have hhead : chain.head.owner ∈ ofRequest chain.number := congrArg Owner.request hchain.head
  have hplace : chain.head.owner.position = 0 := congrArg Owner.position hchain.head
  rcases hchain.kind with ⟨hplain, hrest⟩ | ⟨hbatch, hplain⟩
  · have hexecuted := executed_of_shared hplain (Bool.true_or _) hreturns
    have hnoted : final.writeError =
        (start.writeError || (outcomeIn chain.head.owner ret final).failedInBatch) := by
      rw [hexecuted.writeError]
      simp [outcomeIn, Outcome.failedInBatch, hplace]
    refine ⟨_, (shares_of_executed hexecuted hnoted).mono (Set.singleton_subset_iff.mpr hhead),
      rfl, List.Subset.refl _, ?_, ?_⟩
    · intro out hout _
      rw [List.mem_singleton.mp hout]
      rfl
    · intro _ out hout hok
      rw [List.mem_singleton.mp hout] at hok ⊢
      exact ⟨hok, List.mem_cons_self⟩
  · obtain ⟨bodyRet, middle, hbody, hret, rfl⟩ := executeWith_eq_some.mp hreturns
    rw [dispatch_of_batch hbatch, if_pos rfl] at hbody
    have hnot := hchain.head ▸ hplain.head_notMem chain.number
    have hopening : (opening chain.head.owner start).inBatch = false := hinBatch
    obtain ⟨outs, hshares, -, -, hbatched⟩ := doBatch_shares hplain hnot hopening hbody
    have hstart : Shares world (ofRequest chain.number) outs start middle :=
      { hshares.mono hchain.subset_ofRequest with retcode := fun _ ↦ hshares.retcode rfl }
    refine ⟨_, hstart.closing hhead hplace ret, rfl, List.Subset.refl _, ?_, ?_⟩
    · intro out hout hzero
      rcases List.mem_append.mp hout with hout | hout
      · obtain ⟨work, hwork, howner⟩ := List.mem_map.mp (hbatched.owned hout)
        exact absurd (howner ▸ hzero) (hplain.behind work hwork)
      · rw [List.mem_singleton.mp hout]
        rfl
    · intro hnone out hout hok
      rcases List.mem_append.mp hout with hout | hout
      · rw [List.any_append, Bool.or_eq_false_iff] at hnone
        have hbodyRet := hbatched.ret_eq_ok hplain (List.ne_nil_of_mem hout) hnone.1
        refine ⟨?_, List.mem_cons_of_mem _ (hbatched.owned hout)⟩
        rw [hret, hshares.retcode rfl, hbodyRet]
        rfl
      · rw [List.mem_singleton.mp hout] at hok ⊢
        exact ⟨hok, List.mem_cons_self⟩

/-- A call of the world is no work. -/
theorem shares_of_ask {Value : Type} {call : Outside → Value × Outside} {value : Value}
    (hask : ask call start = some (value, middle))
    (hshares : Shares world owners outs middle final) :
    Shares world owners outs start final := by
  cases hask
  exact { hshares with }

/-- An error response to the first packet is no work. -/
theorem shares_of_tdhsResponseError {status code : ℕ}
    (hstatus : IsErrorStatus status)
    (hreturns : tdhsResponseError world owner status code start = some (ret, final)) :
    Shares world {owner} [] start final := by
  obtain ⟨hevents, hcode⟩ := tdhsResponseError_answers hreturns
  have hworks := keeps_tdhsResponseError world owner status code start start ret final
    (Works.refl world owner start) hreturns
  exact shares_of_works hworks hevents (by rw [hcode]; exact isSuccess_of_isErrorStatus hstatus)

/-- One request of a list with group commit. Assumes: a plain write or a batch of them. -/
theorem processRequest_shares (hchain : IsWriteChain chain)
    (hinBatch : start.inBatch = false)
    (hreturns : processRequest world rounds true chain start = some (done, final)) :
    ∃ outs, Shares world (ofRequest chain.number) outs start final ∧
      IsAnswer chain outs done := by
  obtain ⟨closed, asked, hasked, hreturns⟩ := bind_eq_some.mp hreturns
  split_ifs at hreturns
  · cases hreturns
    refine ⟨[], shares_of_ask hasked (Shares.refl world _ _), rfl, List.nil_subset _, ?_, ?_⟩
    · exact List.forall_mem_nil _
    · exact fun _ ↦ List.forall_mem_nil _
  · obtain ⟨timedOut, waited, hwaited, hreturns⟩ := bind_eq_some.mp hreturns
    have hhead : chain.head.owner ∈ ofRequest chain.number := congrArg Owner.request hchain.head
    split_ifs at hreturns
    · obtain ⟨ret, answered, hanswer, hreturns⟩ := bind_eq_some.mp hreturns
      cases hreturns
      have hshares := (shares_of_tdhsResponseError (by decide : 400 ≤ 408) hanswer).mono
        (Set.singleton_subset_iff.mpr hhead)
      refine ⟨[], shares_of_ask hasked (shares_of_ask hwaited hshares), rfl, ?_, ?_, ?_⟩
      · exact List.cons_subset_cons _ (List.nil_subset _)
      · exact List.forall_mem_nil _
      · exact fun _ ↦ List.forall_mem_nil _
    · obtain ⟨ret, executed, hexecute, hreturns⟩ := bind_eq_some.mp hreturns
      cases hreturns
      have hwaitedBatch : waited.inBatch = false := by
        cases hasked
        cases hwaited
        exact hinBatch
      obtain ⟨outs, hshares, hanswer⟩ := execute_shares hchain hwaitedBatch hexecute
      exact ⟨outs, shares_of_ask hasked (shares_of_ask hwaited hshares), hanswer⟩

/-! ### A list with group commit -/

/-- The answers to a list of requests go with its outcomes. -/
structure AreAnswers (outs : List Outcome) (dones : List Done) : Prop where
  first : ∀ done ∈ dones, ∀ out ∈ outs, out.owner ∈ done.packets → out.owner.position = 0 →
    out.ret = done.retcode
  whole : outs.any Outcome.failedInBatch = false → ∀ out ∈ outs, out.ret = .ok →
    ∃ done ∈ dones, done.retcode = .ok ∧ out.owner ∈ done.packets

/-- Assumes: the outcomes and the answer of the first request have its number, those of the others
have not. -/
theorem AreAnswers.cons {restOuts : List Outcome} {others : List Done}
    (hanswer : IsAnswer chain firstOuts done) (hanswers : AreAnswers restOuts others)
    (hfirst : ∀ out ∈ firstOuts, out.owner.request = chain.number)
    (hdone : ∀ owner ∈ done.packets, owner.request = chain.number)
    (hrest : ∀ out ∈ restOuts, out.owner.request ≠ chain.number)
    (hothers : ∀ other ∈ others, ∀ owner ∈ other.packets, owner.request ≠ chain.number) :
    AreAnswers (firstOuts ++ restOuts) (done :: others) where
  first := by
    intro other hother out hout howner hplace
    rcases List.mem_cons.mp hother with rfl | hother
    · rcases List.mem_append.mp hout with hout | hout
      · exact hanswer.first out hout hplace
      · exact absurd (hdone _ howner) (hrest out hout)
    · rcases List.mem_append.mp hout with hout | hout
      · exact absurd (hfirst out hout) (hothers other hother _ howner)
      · exact hanswers.first other hother out hout howner hplace
  whole := by
    intro hnone out hout hok
    rw [List.any_append, Bool.or_eq_false_iff] at hnone
    rcases List.mem_append.mp hout with hout | hout
    · exact ⟨done, List.mem_cons_self, hanswer.whole hnone.1 out hout hok⟩
    · obtain ⟨other, hother, hanswered⟩ := hanswers.whole hnone.2 out hout hok
      exact ⟨other, List.mem_cons_of_mem _ hother, hanswered⟩

/-- The process loop with group commit. Assumes: the chains of plain writes and batches of them,
with different numbers. -/
theorem each_processRequest_shares {chains : List (OpenedChain Record)}
    (hchains : ∀ chain ∈ chains, IsWriteChain chain)
    (hnodup : (chains.map OpenedChain.number).Nodup)
    (hinBatch : start.inBatch = false) {dones : List Done}
    (hreturns :
      Program.each (processRequest world rounds true) chains start = some (dones, final)) :
    ∃ outs, Shares world {owner | owner.request ∈ chains.map OpenedChain.number} outs start final ∧
      AreAnswers outs dones ∧
      ∀ done ∈ dones, ∃ chain ∈ chains, done.packets ⊆ chain.packets := by
  induction chains generalizing start dones with
  | nil =>
    cases hreturns
    refine ⟨[], Shares.refl world _ _, ⟨?_, ?_⟩, List.forall_mem_nil _⟩
    · exact List.forall_mem_nil _
    · exact fun _ ↦ List.forall_mem_nil _
  | cons chain chains ih =>
    obtain ⟨done, middle, hprocess, hreturns⟩ := bind_eq_some.mp hreturns
    obtain ⟨others, _, hothers, hreturns⟩ := bind_eq_some.mp hreturns
    cases hreturns
    obtain ⟨hnew, hnodup⟩ := List.nodup_cons.mp hnodup
    have hchain := hchains chain List.mem_cons_self
    obtain ⟨firstOuts, hfirst, hanswer⟩ := processRequest_shares hchain hinBatch hprocess
    obtain ⟨restOuts, hrest, hanswers, hpackets⟩ := ih
      (fun other hother ↦ hchains other (List.mem_cons_of_mem _ hother)) hnodup
      (hfirst.inBatch.trans hinBatch) hothers
    have hdifferent : ∀ owner : Owner, owner.request ∈ chains.map OpenedChain.number →
        owner.request ≠ chain.number := fun owner howner hsame ↦ hnew (hsame ▸ howner)
    have hrequests : {owner : Owner | owner.request ∈ (chain :: chains).map OpenedChain.number} =
        ofRequest chain.number ∪ {owner | owner.request ∈ chains.map OpenedChain.number} := by
      ext owner
      simp [ofRequest]
    refine ⟨firstOuts ++ restOuts, ?_, AreAnswers.cons hanswer hanswers hfirst.owned ?_ ?_ ?_, ?_⟩
    · rw [hrequests]
      exact hfirst.trans hrest fun owner howner hother ↦ hdifferent owner hother howner
    · exact fun owner howner ↦ hchain.request_eq (hanswer.packets howner)
    · exact fun out hout ↦ hdifferent _ (hrest.owned out hout)
    · intro other hother owner howner
      obtain ⟨otherChain, hotherChain, hsubset⟩ := hpackets other hother
      refine hdifferent owner ?_
      rw [(hchains otherChain (List.mem_cons_of_mem _ hotherChain)).request_eq (hsubset howner)]
      exact List.mem_map_of_mem hotherChain
    · intro other hother
      rcases List.mem_cons.mp hother with rfl | hother
      · exact ⟨chain, List.mem_cons_self, hanswer.packets⟩
      · obtain ⟨otherChain, hotherChain, hsubset⟩ := hpackets other hother
        exact ⟨otherChain, List.mem_cons_of_mem _ hotherChain, hsubset⟩

end TdhSocket.Execute
