import TdhSocket.Execute.OwnStatement

/-!
# Atomicity of batches and of bulks

A unit of the write loop is the whole list with group commit, and each request without. A unit is
dropped when a packet behind one of its batches failed or its commit failed. `committed_of_unit` is
the law for both modes: of a dropped unit nothing is committed and nothing is acknowledged, of any
other unit every change is committed.

Without group commit the log is a sequence of statements, one for each request (`AreStatements`);
the law for one statement gives that for the sequence because the numbers of the requests differ.
-/

set_option autoImplicit false

namespace TdhSocket.Execute

open Protocol Decode Library Library.Program

variable {Outside Record : Type} {world : World Outside Record} {rounds : ℕ}

/-! ### Units -/

variable (unit : Option ℕ)

/-- A request belongs to a unit, which is the whole list or the request with a number. -/
def inUnit (request : ℕ) : Bool := unit.all (· == request)

/-- A packet behind a batch of the unit failed. -/
def unitFailed (outs : List Outcome) : Bool :=
  outs.any fun out ↦ inUnit unit out.owner.request && out.failedInBatch

/-- The changes for the packets of a unit. -/
def ofUnit (changes : List (Change Record)) : List (Change Record) :=
  changes.filter fun change ↦ inUnit unit change.owner.request

theorem ofUnit_append (first next : List (Change Record)) :
    ofUnit unit (first ++ next) = ofUnit unit first ++ ofUnit unit next :=
  List.filter_append _ _

variable {number : ℕ} {outs : List Outcome} {events : List (Event Record)} {numbers : List ℕ}

theorem inUnit_some_iff {request : ℕ} :
    inUnit (some number) request = true ↔ request = number := by
  unfold inUnit
  rw [Option.all_some, beq_iff_eq]
  exact eq_comm

theorem ofUnit_eq_nil {changes : List (Change Record)}
    (hchanges : ∀ change ∈ changes, change.owner.request ≠ number) :
    ofUnit (some number) changes = [] :=
  List.filter_eq_nil_iff.mpr fun change hchange hin ↦
    hchanges change hchange (inUnit_some_iff.mp hin)

theorem unitFailed_append (first next : List Outcome) :
    unitFailed unit (first ++ next) = (unitFailed unit first || unitFailed unit next) :=
  List.any_append

theorem unitFailed_eq_batchFailed
    (houts : ∀ out ∈ outs, out.owner.request = number) :
    unitFailed (some number) outs = batchFailed outs := by
  unfold unitFailed batchFailed
  rw [Bool.eq_iff_iff, List.any_eq_true, List.any_eq_true]
  constructor
  · rintro ⟨out, hout, hfailed⟩
    exact ⟨out, hout, (Bool.and_eq_true_iff.mp hfailed).2⟩
  · rintro ⟨out, hout, hfailed⟩
    exact ⟨out, hout, Bool.and_eq_true_iff.mpr
      ⟨inUnit_some_iff.mpr (houts out hout), hfailed⟩⟩

theorem unitFailed_eq_false
    (houts : ∀ out ∈ outs, out.owner.request ≠ number) :
    unitFailed (some number) outs = false := by
  refine List.any_eq_false.mpr fun out hout hfailed ↦ ?_
  exact houts out hout (inUnit_some_iff.mp (Bool.and_eq_true_iff.mp hfailed).1)

/-! ### Sequences of statements -/

/-- The log of a list without group commit: one statement for each request. -/
inductive AreStatements (world : World Outside Record) :
    List ℕ → List Outcome → List (Event Record) → Prop
  | nil : AreStatements world [] [] []
  | cons {number : ℕ} {numbers : List ℕ} {firstOuts restOuts : List Outcome}
      {first rest : List (Event Record)}
      (hfirst : IsStatement world (some number) (ofRequest number) (batchFailed firstOuts) first)
      (howned : ∀ out ∈ firstOuts, out.owner.request = number)
      (hrest : AreStatements world numbers restOuts rest) :
      AreStatements world (number :: numbers) (firstOuts ++ restOuts) (first ++ rest)

theorem IsStatement.request_eq {request other : Option ℕ} {owners : Set Owner} {failed : Bool}
    (hstatement : IsStatement world request owners failed events)
    {ending : Ending} (hmem : .ended other ending ∈ events) : other = request := by
  rcases hstatement with rfl | ⟨more, _, rfl, hby, -⟩
  · exact absurd hmem List.not_mem_nil
  · rcases List.mem_append.mp hmem with hmem | hmem
    · obtain ⟨_, -, hevent⟩ := hby _ hmem
      cases hevent
    · cases List.mem_singleton.mp hmem
      rfl

section

variable (hstatements : AreStatements world numbers outs events)

include hstatements

theorem AreStatements.outcomes_mem : ∀ out ∈ outs, out.owner.request ∈ numbers := by
  induction hstatements with
  | nil => exact List.forall_mem_nil _
  | cons hfirst howned hrest ih =>
    intro out hout
    rcases List.mem_append.mp hout with hout | hout
    · rw [howned out hout]
      exact List.mem_cons_self
    · exact List.mem_cons_of_mem _ (ih out hout)

theorem AreStatements.ended_mem :
    ∀ number ending, .ended (some number) ending ∈ events → number ∈ numbers := by
  induction hstatements with
  | nil => exact fun _ _ hmem ↦ absurd hmem List.not_mem_nil
  | cons hfirst howned hrest ih =>
    intro number ending hmem
    rcases List.mem_append.mp hmem with hmem | hmem
    · cases hfirst.request_eq hmem
      exact List.mem_cons_self
    · exact List.mem_cons_of_mem _ (ih number ending hmem)

theorem AreStatements.changes_mem :
    ∀ change ∈ changesOf events, change.owner.request ∈ numbers := by
  induction hstatements with
  | nil => exact List.forall_mem_nil _
  | cons hfirst howned hrest ih =>
    intro change hchange
    rw [changesOf_append] at hchange
    rcases List.mem_append.mp hchange with hchange | hchange
    · have hrequest : change.owner.request = _ := hfirst.owner_mem hchange
      rw [hrequest]
      exact List.mem_cons_self
    · exact List.mem_cons_of_mem _ (ih change hchange)

end

variable {firstOuts restOuts : List Outcome} {first rest : List (Event Record)}

/-- The unit of the first request is its statement. Assumes: the numbers differ. -/
theorem isDropped_cons_iff
    (hnew : number ∉ numbers)
    (howned : ∀ out ∈ firstOuts, out.owner.request = number)
    (hrest : AreStatements world numbers restOuts rest) :
    IsDropped (some number) (unitFailed (some number) (firstOuts ++ restOuts)) (first ++ rest) ↔
      IsDropped (some number) (batchFailed firstOuts) first := by
  have hothers : unitFailed (some number) restOuts = false :=
    unitFailed_eq_false fun out hout hsame ↦ hnew (hsame ▸ hrest.outcomes_mem out hout)
  unfold IsDropped
  rw [unitFailed_append, unitFailed_eq_batchFailed howned, hothers, Bool.or_false,
    List.mem_append]
  constructor
  · rintro (hfailed | hmem | hmem)
    · exact Or.inl hfailed
    · exact Or.inr hmem
    · exact absurd (hrest.ended_mem number _ hmem) hnew
  · rintro (hfailed | hmem)
    · exact Or.inl hfailed
    · exact Or.inr (Or.inl hmem)

/-- The unit of any other request is among the other statements. -/
theorem isDropped_cons_of_ne_iff {other : ℕ} (hother : other ≠ number)
    (hfirst : IsStatement world (some number) (ofRequest number) (batchFailed firstOuts) first)
    (howned : ∀ out ∈ firstOuts, out.owner.request = number) :
    IsDropped (some other) (unitFailed (some other) (firstOuts ++ restOuts)) (first ++ rest) ↔
      IsDropped (some other) (unitFailed (some other) restOuts) rest := by
  have hnone : unitFailed (some other) firstOuts = false :=
    unitFailed_eq_false fun out hout hsame ↦ hother (hsame.symm.trans (howned out hout))
  unfold IsDropped
  rw [unitFailed_append, hnone, Bool.false_or, List.mem_append]
  constructor
  · rintro (hfailed | hmem | hmem)
    · exact Or.inl hfailed
    · exact absurd (Option.some.inj (hfirst.request_eq hmem)) hother
    · exact Or.inr hmem
  · rintro (hfailed | hmem)
    · exact Or.inl hfailed
    · exact Or.inr (Or.inr hmem)

/-- The law for one unit of a list without group commit. Assumes: the numbers differ, and the
storage engine undoes at most the failing row. -/
theorem AreStatements.committed_of_unit (hundoes : UndoesOnlyTheRow world)
    (hnodup : numbers.Nodup)
    (hstatements : AreStatements world numbers outs events) (number : ℕ) :
    (IsDropped (some number) (unitFailed (some number) outs) events →
      ofUnit (some number) (replay events).committed = []) ∧
    (¬IsDropped (some number) (unitFailed (some number) outs) events →
      ofUnit (some number) (replay events).committed =
        ofUnit (some number) (changesOf events)) := by
  induction hstatements with
  | nil => exact ⟨fun _ ↦ rfl, fun _ ↦ rfl⟩
  | @cons first numbers firstOuts restOuts firstEvents restEvents hfirst howned hrest ih =>
    obtain ⟨hnew, hnodup⟩ := List.nodup_cons.mp hnodup
    rw [replay_append_of_pending_eq_nil hfirst.pending_eq_nil, changesOf_append, ofUnit_append,
      ofUnit_append]
    by_cases hsame : number = first
    · subst hsame
      have hothers : ∀ change ∈ changesOf restEvents, change.owner.request ≠ number :=
        fun change hchange hrequest ↦ hnew (hrequest ▸ hrest.changes_mem change hchange)
      rw [isDropped_cons_iff hnew howned hrest, ofUnit_eq_nil hothers, List.append_nil,
        ofUnit_eq_nil fun change hchange ↦
          hothers change ((committed_sublist_changesOf _).subset hchange), List.append_nil]
      refine ⟨fun hdropped ↦ ?_, fun hkept ↦ ?_⟩
      · rw [hfirst.committed_eq_nil hdropped]
        rfl
      · rw [hfirst.committed_eq_changesOf hundoes hkept]
    · have hnone : ∀ change ∈ changesOf firstEvents, change.owner.request ≠ number :=
        fun change hchange hrequest ↦ hsame (hrequest.symm.trans (hfirst.owner_mem hchange))
      rw [isDropped_cons_of_ne_iff hsame hfirst howned, ofUnit_eq_nil hnone, List.nil_append,
        ofUnit_eq_nil fun change hchange ↦
          hnone change ((committed_sublist_changesOf _).subset hchange), List.nil_append]
      exact ih hnodup

/-! ### The process loop without group commit -/

/-- The answers of dropped units have no packet with a status of success. -/
def UnitsSilent (outs : List Outcome) (events : List (Event Record)) (dones : List Done)
    (context : Context Outside Record) : Prop :=
  ∀ done ∈ dones, IsDropped (some done.request) (unitFailed (some done.request) outs) events →
    done.retcode = .ok → ∀ owner ∈ done.packets, isSuccess (context.response owner).code = false

/-- The numbers of chains. -/
def numbersOf (chains : List (OpenedChain Record)) : List ℕ := chains.map OpenedChain.number

/-- What the process loop leaves without group commit. -/
structure RanEach (world : World Outside Record) (chains : List (OpenedChain Record))
    (outs : List Outcome) (segment : List (Event Record)) (dones : List Done)
    (start final : Context Outside Record) : Prop where
  atRest : AtRest final
  outcomes : final.outcomes = start.outcomes ++ outs
  owned : ∀ out ∈ outs, ∃ chain ∈ chains, out.owner ∈ chain.packets
  events : final.events = start.events ++ segment
  statements : AreStatements world (numbersOf chains) outs segment
  others : ∀ owner : Owner, owner.request ∉ numbersOf chains →
    isSuccess (final.response owner).code = true → isSuccess (start.response owner).code = true
  requests : ∀ done ∈ dones, done.request ∈ numbersOf chains
  silent : UnitsSilent outs segment dones final

variable {chains : List (OpenedChain Record)} {dones : List Done}
  {start final : Context Outside Record} {requests : List EasyRequest}

/-- Assumes: the number of the first request is none of the others'. -/
theorem RanAlone.ranEach_cons {chain : OpenedChain Record} {done : Done}
    {middle : Context Outside Record} (hchain : IsWriteChain chain)
    (hfirst : RanAlone world chain firstOuts first done start middle)
    (hrest : RanEach world chains restOuts rest dones middle final)
    (hnew : chain.number ∉ numbersOf chains) :
    RanEach world (chain :: chains) (firstOuts ++ restOuts) (first ++ rest) (done :: dones)
      start final := by
  have hpackets : ∀ out ∈ firstOuts, out.owner ∈ chain.packets :=
    fun out hout ↦ hfirst.packets (hfirst.alone.owned out hout)
  have hnumber : ∀ out ∈ firstOuts, out.owner.request = chain.number :=
    fun out hout ↦ hchain.request_eq (hpackets out hout)
  refine ⟨hrest.atRest, ?_, ?_, ?_, .cons hfirst.alone.statement hnumber hrest.statements,
    ?_, ?_, ?_⟩
  · rw [hrest.outcomes, hfirst.alone.outcomes, List.append_assoc]
  · intro out hout
    rcases List.mem_append.mp hout with hout | hout
    · exact ⟨chain, List.mem_cons_self, hpackets out hout⟩
    · obtain ⟨other, hother, hmem⟩ := hrest.owned out hout
      exact ⟨other, List.mem_cons_of_mem _ hother, hmem⟩
  · rw [hrest.events, hfirst.alone.events, List.append_assoc]
  · intro owner howner hsuccess
    have hmiddle := hrest.others owner (fun hmem ↦ howner (List.mem_cons_of_mem _ hmem)) hsuccess
    exact hfirst.alone.others owner (fun hsame ↦ howner (hsame ▸ List.mem_cons_self)) hmiddle
  · refine List.forall_mem_cons.mpr ⟨?_, fun other hother ↦ ?_⟩
    · rw [hfirst.request]
      exact List.mem_cons_self
    · exact List.mem_cons_of_mem _ (hrest.requests other hother)
  · refine List.forall_mem_cons.mpr ⟨?_, fun other hother ↦ ?_⟩
    · rw [hfirst.request, isDropped_cons_iff hnew hnumber hrest.statements]
      intro hdropped hret owner howner
      have hmiddle := hfirst.alone.silent hdropped hret owner howner
      have hrequest := hchain.request_eq (hfirst.packets howner)
      by_contra htrue
      have hsuccess := hrest.others owner (hrequest ▸ hnew) (Bool.eq_true_of_not_eq_false htrue)
      rw [hmiddle] at hsuccess
      cases hsuccess
    · have hdifferent : other.request ≠ chain.number :=
        fun hsame ↦ hnew (hsame ▸ hrest.requests other hother)
      rw [isDropped_cons_of_ne_iff hdifferent hfirst.alone.statement hnumber]
      exact hrest.silent other hother

/-- The process loop without group commit. Assumes: the chains of plain writes and batches of them,
with different numbers, a request thread at rest, and no success on the packets. -/
theorem each_processRequest_alone (hchains : ∀ chain ∈ chains, IsWriteChain chain)
    (hnodup : (numbersOf chains).Nodup) (hstart : AtRest start)
    (hfresh : ∀ chain ∈ chains, ∀ packet ∈ chain.packets,
      isSuccess (start.response packet).code = false)
    (hreturns :
      Program.each (processRequest world rounds false) chains start = some (dones, final)) :
    ∃ outs segment, RanEach world chains outs segment dones start final := by
  induction chains generalizing start dones with
  | nil =>
    cases hreturns
    exact ⟨[], [], hstart, (List.append_nil _).symm, List.forall_mem_nil _,
      (List.append_nil _).symm, .nil, fun _ _ hsuccess ↦ hsuccess, List.forall_mem_nil _,
      List.forall_mem_nil _⟩
  | cons chain chains ih =>
    obtain ⟨done, middle, hprocess, hreturns⟩ := bind_eq_some.mp hreturns
    obtain ⟨others, _, hothers, hreturns⟩ := bind_eq_some.mp hreturns
    cases hreturns
    obtain ⟨hnew, hnodup⟩ := List.nodup_cons.mp hnodup
    have hchain := hchains chain List.mem_cons_self
    obtain ⟨firstOuts, first, hfirst⟩ := processRequest_alone hchain hstart
      (hfresh chain List.mem_cons_self) hprocess
    have hfreshRest : ∀ other ∈ chains, ∀ packet ∈ other.packets,
        isSuccess (middle.response packet).code = false := by
      intro other hother packet hpacket
      have hotherMem := List.mem_cons_of_mem chain hother
      have hrequest := (hchains other hotherMem).request_eq hpacket
      have hdifferent : packet.request ≠ chain.number := by
        rw [hrequest]
        exact fun hsame ↦ hnew (hsame ▸ List.mem_map_of_mem hother)
      by_contra htrue
      have hsuccess := hfirst.alone.others packet hdifferent (Bool.eq_true_of_not_eq_false htrue)
      rw [hfresh other hotherMem packet hpacket] at hsuccess
      cases hsuccess
    obtain ⟨restOuts, rest, hrest⟩ := ih
      (fun other hother ↦ hchains other (List.mem_cons_of_mem _ hother)) hnodup
      hfirst.alone.atRest hfreshRest hothers
    exact ⟨firstOuts ++ restOuts, first ++ rest, hfirst.ranEach_cons hchain hrest hnew⟩

/-! ### The law -/

/-- A request thread before a list: at rest, with empty logs. -/
structure Begins (context : Context Outside Record) : Prop extends AtRest context where
  events : context.events = []
  outcomes : context.outcomes = []

/-- What a list of writes leaves for one of its units. -/
structure UnitLaw (unit : Option ℕ) (dones : List Done) (final : Context Outside Record) :
    Prop where
  dropped : IsDropped unit (unitFailed unit final.outcomes) final.events →
    ofUnit unit (replay final.events).committed = []
  silent : IsDropped unit (unitFailed unit final.outcomes) final.events →
    ∀ done ∈ dones, inUnit unit done.request = true → done.retcode = .ok →
      ∀ owner ∈ done.packets, isSuccess (final.response owner).code = false
  kept : ¬IsDropped unit (unitFailed unit final.outcomes) final.events →
    ofUnit unit (replay final.events).committed = ofUnit unit (changesOf final.events)

theorem ofUnit_none (changes : List (Change Record)) : ofUnit none changes = changes :=
  List.filter_eq_self.mpr fun _ _ ↦ rfl

/-- The whole list with group commit. -/
theorem RanBulk.unitLaw (hundoes : UndoesOnlyTheRow world)
    {segment : List (Event Record)} (hstart : Begins start)
    (hran : RanBulk world outs segment dones start final) :
    UnitLaw none dones final := by
  have hevents : final.events = segment := by rw [hran.events, hstart.events, List.nil_append]
  have houtcomes : final.outcomes = outs := by
    rw [hran.outcomes, hstart.outcomes, List.nil_append]
  have hfailed : unitFailed none final.outcomes = batchFailed outs := by
    rw [houtcomes]
    rfl
  constructor
  · rw [hfailed, hevents, ofUnit_none]
    exact hran.statement.committed_eq_nil
  · rw [hfailed, hevents]
    exact fun hdropped done hdone _ ↦ hran.silent hdropped done hdone
  · rw [hfailed, hevents, ofUnit_none, ofUnit_none]
    exact hran.statement.committed_eq_changesOf hundoes

/-- The write loop without group commit. Assumes: plain writes and batches of them, and a request
thread before the list. -/
theorem tdhsRequestDoreqForWrite_each (hrequests : ∀ request ∈ requests, IsWriteRequest request)
    (hstart : Begins start)
    (hreturns : tdhsRequestDoreqForWrite world rounds false requests start = some (dones, final)) :
    ∃ numbers : List ℕ, numbers.Nodup ∧
      AreStatements world numbers final.outcomes final.events ∧
      UnitsSilent final.outcomes final.events dones final ∧
      ∀ out ∈ final.outcomes, ∃ request, requests[out.owner.request]? = some request ∧
        out.owner.position ≤ request.next.length := by
  obtain ⟨chains, opened, hopen, hreturns⟩ := bind_eq_some.mp hreturns
  obtain ⟨hidle, hnumbers, hchains, hfresh⟩ := openAll_idle hopen
  have hevents := hidle.events.trans hstart.events
  have houtcomes := hidle.outcomes.trans hstart.outcomes
  split_ifs at hreturns with hempty
  · cases hreturns
    rw [hevents, houtcomes]
    exact ⟨[], List.nodup_nil, .nil, List.forall_mem_nil _,
      List.forall_mem_nil _⟩
  · obtain ⟨_, locked, hlock, hreturns⟩ := bind_eq_some.mp hreturns
    cases hlock
    obtain ⟨processed, middle, hprocessed, hreturns⟩ := bind_eq_some.mp hreturns
    obtain ⟨commitRet, unlocked, hunlock, hreturns⟩ := bind_eq_some.mp hreturns
    cases hunlock
    cases hreturns
    have hwrite : ∀ chain ∈ chains, IsWriteChain chain := by
      intro chain hchain
      obtain ⟨_, request, -, hrequest, hopenedChain⟩ := hchains chain hchain
      exact hopenedChain.isWriteChain (hrequests request (List.mem_of_getElem? hrequest))
    have hnodup : (numbersOf chains).Nodup := by
      unfold numbersOf
      rw [hnumbers]
      exact List.nodup_range'
    have hrest : AtRest opened := ⟨hidle.lock.trans hstart.lock,
      hidle.writeError.trans hstart.writeError, hidle.inBatch.trans hstart.inBatch⟩
    obtain ⟨outs, segment, hran⟩ :=
      each_processRequest_alone hwrite hnodup hrest hfresh hprocessed
    rw [hran.outcomes, hran.events, hevents, houtcomes, List.nil_append, List.nil_append]
    refine ⟨_, hnodup, hran.statements, fun done hdone ↦
      hran.silent done (List.mem_of_mem_filter hdone), fun out hout ↦ ?_⟩
    obtain ⟨chain, hchain, hpackets⟩ := hran.owned out hout
    obtain ⟨index, request, hnumber, hrequest, hopenedChain⟩ := hchains chain hchain
    rw [Nat.zero_add] at hnumber
    rw [(hwrite chain hchain).request_eq hpackets, hnumber]
    exact ⟨request, hrequest, hopenedChain.position_le hpackets⟩

/-- The law for every unit of a list, in both modes: the whole list with group commit, each request
without. Assumes: plain writes and batches of them, a request thread before the list, and a storage
engine that undoes at most the failing row. -/
theorem unitLaw_of_run (hundoes : UndoesOnlyTheRow world) {groupCommit : Bool}
    (hrequests : ∀ request ∈ requests, IsWriteRequest request) (hstart : Begins start)
    (hreturns :
      tdhsRequestDoreqForWrite world rounds groupCommit requests start = some (dones, final))
    {unit : Option ℕ} (hunit : unit.isNone = groupCommit) : UnitLaw unit dones final := by
  cases unit with
  | none =>
    subst hunit
    obtain ⟨outs, segment, hran⟩ :=
      tdhsRequestDoreqForWrite_bulk hrequests hstart.writeError hstart.inBatch hreturns
    exact hran.unitLaw hundoes hstart
  | some number =>
    subst hunit
    obtain ⟨numbers, hnodup, hstatements, hsilent, -⟩ :=
      tdhsRequestDoreqForWrite_each hrequests hstart hreturns
    obtain ⟨hdropped, hkept⟩ := hstatements.committed_of_unit hundoes hnodup number
    refine ⟨hdropped, ?_, hkept⟩
    intro hunitDropped done hdone hin
    rw [← inUnit_some_iff.mp hin] at hunitDropped
    exact hsilent done hdone hunitDropped

/-- Bulk and batch atomicity. A unit is the whole list with group commit and each request without.
If a packet behind a batch of the unit failed, or the commit of the unit failed, then nothing of
the unit is committed, and no answer of the unit that is handed over with `EASY_OK` has a 2xx
status other than 207; otherwise every change made for the unit is committed. Assumes: plain writes
and batches of them, a request thread before the list, and a storage engine that undoes at most the
failing row. -/
theorem committed_all_or_nothing (hundoes : UndoesOnlyTheRow world) {groupCommit : Bool}
    {requests : List EasyRequest} (hrequests : ∀ request ∈ requests, IsWriteRequest request)
    {start final : Context Outside Record} (hstart : Begins start) {dones : List Done}
    (hreturns :
      tdhsRequestDoreqForWrite world rounds groupCommit requests start = some (dones, final))
    {unit : Option ℕ} (hunit : unit.isNone = groupCommit) :
    (((∃ out ∈ final.outcomes, inUnit unit out.owner.request = true ∧ out.owner.position ≠ 0 ∧
          (out.ret ≠ .ok ∨ 300 ≤ out.code)) ∨ .ended unit .commitFailed ∈ final.events) →
      (∀ change ∈ (replay final.events).committed, inUnit unit change.owner.request = false) ∧
      ∀ done ∈ dones, inUnit unit done.request = true → done.retcode = .ok →
        ∀ owner ∈ done.packets, ¬(200 ≤ (final.response owner).code ∧
          (final.response owner).code < 300 ∧ (final.response owner).code ≠ 207)) ∧
    (¬((∃ out ∈ final.outcomes, inUnit unit out.owner.request = true ∧ out.owner.position ≠ 0 ∧
          (out.ret ≠ .ok ∨ 300 ≤ out.code)) ∨ .ended unit .commitFailed ∈ final.events) →
      ofUnit unit (replay final.events).committed = ofUnit unit (changesOf final.events)) := by
  have hlaw := unitLaw_of_run hundoes hrequests hstart hreturns hunit
  have hfailed : unitFailed unit final.outcomes = true ↔
      ∃ out ∈ final.outcomes, inUnit unit out.owner.request = true ∧ out.owner.position ≠ 0 ∧
        (out.ret ≠ .ok ∨ 300 ≤ out.code) := by
    simp [unitFailed, Outcome.failedInBatch, Outcome.failed]
  rw [← hfailed]
  refine ⟨fun hdropped ↦ ⟨fun change hchange ↦ ?_, fun done hdone hin hret owner howner hcode ↦ ?_⟩,
    hlaw.kept⟩
  · have hnone := List.filter_eq_nil_iff.mp (hlaw.dropped hdropped) change hchange
    exact Bool.eq_false_of_not_eq_true hnone
  · have hsilent := hlaw.silent hdropped done hdone hin hret owner howner
    simp [isSuccess, clientStatusMultiStatus, hcode.1, hcode.2.1, hcode.2.2] at hsilent

/-- A column of numbers, in records of that column only. -/
def numberField : Field ℕ where
  fieldName := [118]
  type := 3
  isBlob := false
  isNull _ := false
  setNull _ := 0
  store bytes _ := (0, leadingNumber bytes)
  storeInt number _ := (0, number.toNat)
  saveNow time _ := (0, time)
  valInt record := record
  valStr record := decimal record
  packLength := 4
  pack value := BigEndian.toBytes (leadingNumber value)
  pack_length _ := BigEndian.length_toBytes _
  cmp record buffer := (record : ℤ) - BigEndian.ofBytes buffer

/-- A table of numbers, with a primary key. -/
def numberTable : Table ℕ := ⟨[numberField], [⟨[80, 82, 73, 77, 65, 82, 89], [0], 4⟩], 0⟩

/-- A world in which everything succeeds, every table is one table and an index has one record at
every position. -/
def calmWorld {Outside Record : Type} (table : Table Record) (record : Record) :
    World Outside Record where
  stray := ⟨fun _ ↦ [], fun _ ↦ ⟨[], .eq, []⟩, fun _ ↦ ⟨.set, []⟩, fun _ ↦ ⟨0, []⟩, fun _ ↦ []⟩
  discards _ := false
  malloc _ outside := (true, outside)
  easyBufCreate _ outside := (true, outside)
  killed outside := (false, outside)
  now outside := (0, outside)
  connectionClosed _ outside := (false, outside)
  timedOut _ outside := (false, outside)
  openTable _ outside := (.opened 0 table, outside)
  lockTables _ outside := (true, outside)
  transCommitStmt outside := (true, outside)
  index _ _ _ outside := ((0, record), outside)
  keyCmpIfSame _ _ _ _ := false
  row _ _ outside := (0, outside)
  insertId outside := (0, outside)
  writeData _ outside := (true, outside)
  writeBuffSize := 1024

/-- A world in which everything succeeds but what a script says: its first entries are the answers
to the calls that change a row. An index has the record 7 at every position. -/
def scriptedWorld (discards : ℤ → Bool) : World (List ℤ) ℕ :=
  { calmWorld numberTable 7 with
    discards := discards
    row := fun _ _ script ↦ (script.headD 0, script.tail) }

/-- A request thread before a list, in a scripted world. -/
def scriptedStart (script : List ℤ) : Context (List ℤ) ℕ :=
  ⟨script, false, false, false, .ok, 0, 0, fun _ ↦ ⟨0, 0, [], []⟩, [], [], []⟩

theorem begins_scriptedStart (script : List ℤ) : Begins (scriptedStart script) :=
  ⟨⟨rfl, rfl, rfl⟩, rfl, rfl⟩

/-- INSERT of one number. -/
def insertNumber (digit : UInt8) : TdhsRequest where
  type := .insert
  tableInfo := ⟨1, [116, 0], [116, 0], primaryString, [[118, 0]]⟩
  get := zeroGet
  values := ⟨1, [⟨.set, [digit, 0]⟩]⟩

/-- A batch of two INSERT. -/
def twoInserts : EasyRequest :=
  ⟨⟨.batch, zeroTable, zeroGet, zeroValues⟩, 2, [insertNumber 49, insertNumber 50]⟩

theorem isWriteRequest_twoInserts : ∀ request ∈ [twoInserts], IsWriteRequest request := by
  intro request hrequest
  rw [List.mem_singleton.mp hrequest]
  refine Or.inr ⟨rfl, fun next hnext ↦ ?_⟩
  rcases List.mem_cons.mp hnext with rfl | hnext
  · exact Or.inr (Or.inr rfl)
  · rw [List.mem_singleton.mp hnext]
    exact Or.inr (Or.inr rfl)

/-- A batch whose second INSERT fails with a duplicate key: the first row was inserted, and is not
committed. -/
theorem committed_all_or_nothing_second_insert_fails :
    ∃ dones final,
      tdhsRequestDoreqForWrite (scriptedWorld fun _ ↦ false) 1 true [twoInserts]
        (scriptedStart [0, 121]) = some (dones, final) ∧
      changesOf final.events = [⟨⟨0, 1⟩, .haWriteRow 1⟩] ∧
      ∀ change ∈ (replay final.events).committed, inUnit none change.owner.request = false := by
  have hview : (tdhsRequestDoreqForWrite (scriptedWorld fun _ ↦ false) 1 true [twoInserts]
      (scriptedStart [0, 121])).map (fun result ↦ (changesOf result.2.events, result.2.outcomes)) =
        some ([⟨⟨0, 1⟩, .haWriteRow 1⟩],
          [⟨⟨0, 1⟩, .ok, 200⟩, ⟨⟨0, 2⟩, .ok, 502⟩, ⟨⟨0, 0⟩, .ok, 207⟩]) := by
    decide +kernel
  obtain ⟨⟨dones, final⟩, hreturns, hresult⟩ := Option.map_eq_some_iff.mp hview
  obtain ⟨hchanges, houtcomes⟩ := Prod.mk.inj hresult
  refine ⟨dones, final, hreturns, hchanges, ?_⟩
  refine ((committed_all_or_nothing (fun _ ↦ rfl) isWriteRequest_twoInserts
    (begins_scriptedStart [0, 121]) hreturns rfl).1 (Or.inl ⟨⟨⟨0, 2⟩, .ok, 502⟩, ?_⟩)).1
  rw [houtcomes]
  decide

end TdhSocket.Execute
