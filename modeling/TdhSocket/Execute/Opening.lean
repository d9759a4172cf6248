import Mathlib.Data.List.Nodup
import TdhSocket.Execute.Batch

/-!
# Opening the tables of a list of requests

The first loop of `tdhs_request_doreq_for_write` opens the tables of every packet and executes
nothing: `Idle` says so. Behind it each request of the list has a chain with its number, its
packets have the places 0, 1, … in that chain, and none of them carries a status of success yet
(`openAll_idle`). A list of plain writes and batches of plain writes gives the chains that
`IsWriteChain` describes (`IsOpenedChain.isWriteChain`).
-/

set_option autoImplicit false

namespace TdhSocket.Execute

open Protocol Decode Library Library.Program

variable {Outside Record : Type} {world : World Outside Record} {owner : Owner}

/-- Nothing was executed, and no packet got a status of success. -/
structure Idle (start final : Context Outside Record) : Prop where
  lock : final.lock = start.lock
  writeError : final.writeError = start.writeError
  inBatch : final.inBatch = start.inBatch
  retcode : final.retcode = start.retcode
  events : final.events = start.events
  started : final.started = start.started
  outcomes : final.outcomes = start.outcomes
  success : ∀ owner, isSuccess (final.response owner).code = true →
    isSuccess (start.response owner).code = true

theorem Idle.refl (context : Context Outside Record) : Idle context context :=
  ⟨rfl, rfl, rfl, rfl, rfl, rfl, rfl, fun _ hsuccess ↦ hsuccess⟩

variable {start final : Context Outside Record} {number : ℕ}

theorem Idle.trans {middle : Context Outside Record} (hfirst : Idle start middle)
    (hnext : Idle middle final) : Idle start final :=
  ⟨hnext.lock.trans hfirst.lock, hnext.writeError.trans hfirst.writeError,
    hnext.inBatch.trans hfirst.inBatch, hnext.retcode.trans hfirst.retcode,
    hnext.events.trans hfirst.events, hnext.started.trans hfirst.started,
    hnext.outcomes.trans hfirst.outcomes,
    fun owner hsuccess ↦ hfirst.success owner (hnext.success owner hsuccess)⟩

/-- A packet without success stays so. -/
theorem Idle.fresh (hopened : Idle start final)
    (hfresh : isSuccess (start.response owner).code = false) :
    isSuccess (final.response owner).code = false := by
  by_contra hsuccess
  have hstart := hopened.success owner (Bool.eq_true_of_not_eq_false hsuccess)
  rw [hfresh] at hstart
  cases hstart

/-- What `open_table` leaves of a packet. -/
structure IsOpenedWork (owner : Owner) (reserved : ℕ) (request : TdhsRequest) (work : Work Record)
    (final : Context Outside Record) : Prop where
  owner : work.owner = owner
  request : work.request = request
  reserved : work.reserved = reserved
  fresh : isSuccess (final.response work.owner).code = false

theorem openWork_idle {reserved : ℕ} {request : TdhsRequest} {work : Work Record}
    (hreturns : openWork world owner reserved request start = some (work, final)) :
    Idle start final ∧ IsOpenedWork owner reserved request work final := by
  obtain ⟨_, middle, hset, hreturns⟩ := bind_eq_some.mp hreturns
  cases hset
  have hfresh : isSuccess (Function.update start.response owner
      ⟨commandOf request.type, 0, [], []⟩ owner).code = false := by
    rw [Function.update_self]
    cases request.type <;> decide
  have hsuccess : ∀ other, isSuccess (Function.update start.response owner
      ⟨commandOf request.type, 0, [], []⟩ other).code = true →
        isSuccess (start.response other).code = true := by
    intro other hother
    by_cases hsame : other = owner
    · rw [hsame, hfresh] at hother
      cases hother
    · rwa [Function.update_of_ne hsame] at hother
  split_ifs at hreturns
  · cases hreturns
    exact ⟨⟨rfl, rfl, rfl, rfl, rfl, rfl, rfl, hsuccess⟩, rfl, rfl, rfl, hfresh⟩
  · cases hreturns
    exact ⟨⟨rfl, rfl, rfl, rfl, rfl, rfl, rfl, hsuccess⟩, rfl, rfl, rfl, hfresh⟩

/-- The places of the packets behind the first. -/
def places (number position count : ℕ) : List Owner :=
  (List.range' position count).map fun place ↦ ⟨number, place⟩

theorem mem_places {position count : ℕ}
    (howner : owner ∈ places number position count) :
    owner.request = number ∧ position ≤ owner.position := by
  obtain ⟨place, hplace, rfl⟩ := List.mem_map.mp howner
  exact ⟨rfl, (List.mem_range'_1.mp hplace).1⟩

theorem openRest_idle {position : ℕ} {requests : List TdhsRequest} {works : List (Work Record)}
    (hreturns : openRest world number position requests start = some (works, final)) :
    Idle start final ∧ works.map Work.owner = places number position requests.length ∧
      works.map Work.request = requests ∧
      ∀ work ∈ works, isSuccess (final.response work.owner).code = false := by
  induction requests generalizing position start works with
  | nil =>
    cases hreturns
    exact ⟨Idle.refl _, rfl, rfl, List.forall_mem_nil _⟩
  | cons request requests ih =>
    obtain ⟨work, middle, hwork, hreturns⟩ := bind_eq_some.mp hreturns
    obtain ⟨others, _, hothers, hreturns⟩ := bind_eq_some.mp hreturns
    cases hreturns
    obtain ⟨hfirst, hopenedWork⟩ := openWork_idle hwork
    obtain ⟨hrest, howners, hrequests, hfresh⟩ := ih hothers
    refine ⟨hfirst.trans hrest, ?_, ?_, ?_⟩
    · rw [List.map_cons, howners, hopenedWork.owner]
      rfl
    · rw [List.map_cons, hrequests, hopenedWork.request]
    · intro other hother
      rcases List.mem_cons.mp hother with rfl | hother
      · exact hrest.fresh hopenedWork.fresh
      · exact hfresh other hother

/-- The chain of a request. -/
structure IsOpenedChain (request : EasyRequest) (chain : OpenedChain Record) : Prop where
  head : chain.head.owner = ⟨chain.number, 0⟩
  headRequest : chain.head.request = request.head
  rest : chain.rest.map Work.owner = places chain.number 1 request.next.length
  restRequests : chain.rest.map Work.request = request.next

/-- The places of the packets of a chain. -/
theorem IsOpenedChain.position_le {request : EasyRequest} {chain : OpenedChain Record}
    (hchain : IsOpenedChain request chain) (howner : owner ∈ chain.packets) :
    owner.position ≤ request.next.length := by
  rcases List.mem_cons.mp howner with rfl | howner
  · rw [hchain.head]
    exact Nat.zero_le _
  · rw [hchain.rest] at howner
    obtain ⟨place, hplace, rfl⟩ := List.mem_map.mp howner
    have hbound := (List.mem_range'_1.mp hplace).2
    show place ≤ request.next.length
    omega

theorem openAll_idle {requests : List EasyRequest} {chains : List (OpenedChain Record)}
    (hreturns : openAll world number requests start = some (chains, final)) :
    Idle start final ∧ chains.map OpenedChain.number = List.range' number requests.length ∧
      (∀ chain ∈ chains, ∃ index request, chain.number = number + index ∧
        requests[index]? = some request ∧ IsOpenedChain request chain) ∧
      ∀ chain ∈ chains, ∀ owner ∈ chain.packets,
        isSuccess (final.response owner).code = false := by
  induction requests generalizing number start chains with
  | nil =>
    cases hreturns
    exact ⟨Idle.refl _, rfl, List.forall_mem_nil _,
      List.forall_mem_nil _⟩
  | cons request requests ih =>
    obtain ⟨head, opened, hhead, hreturns⟩ := bind_eq_some.mp hreturns
    obtain ⟨rest, middle, hrest, hreturns⟩ := bind_eq_some.mp hreturns
    obtain ⟨others, _, hothers, hreturns⟩ := bind_eq_some.mp hreturns
    cases hreturns
    obtain ⟨hheadOpened, hheadWork⟩ := openWork_idle hhead
    obtain ⟨hrestOpened, hrestOwners, hrestRequests, hrestFresh⟩ := openRest_idle hrest
    obtain ⟨hothersOpened, hnumbers, hchains, hfresh⟩ := ih hothers
    refine ⟨(hheadOpened.trans hrestOpened).trans hothersOpened, ?_, ?_, ?_⟩
    · rw [List.map_cons, hnumbers]
      rfl
    · intro chain hchain
      rcases List.mem_cons.mp hchain with rfl | hchain
      · exact ⟨0, request, rfl, rfl,
          ⟨hheadWork.owner, hheadWork.request, hrestOwners, hrestRequests⟩⟩
      · obtain ⟨index, other, hnumber, hother, hopenedChain⟩ := hchains chain hchain
        exact ⟨index + 1, other, by omega, hother, hopenedChain⟩
    · intro chain hchain owner howner
      rcases List.mem_cons.mp hchain with rfl | hchain
      · rcases List.mem_cons.mp howner with rfl | howner
        · exact hothersOpened.fresh (hrestOpened.fresh hheadWork.fresh)
        · obtain ⟨work, hwork, rfl⟩ := List.mem_map.mp howner
          exact hothersOpened.fresh (hrestFresh work hwork)
      · exact hfresh chain hchain owner howner

/-! ### Lists of writes -/

/-- A plain write, or a batch of plain writes. -/
def IsWriteRequest (request : EasyRequest) : Prop :=
  (IsPlainWrite request.head.type ∧ request.next = []) ∨
    (request.head.type = .batch ∧ ∀ next ∈ request.next, IsPlainWrite next.type)

theorem IsOpenedChain.isWriteChain {request : EasyRequest} (hrequest : IsWriteRequest request)
    {chain : OpenedChain Record} (hchain : IsOpenedChain request chain) : IsWriteChain chain where
  head := hchain.head
  rest work hwork := by
    have howner : work.owner ∈ chain.rest.map Work.owner := List.mem_map_of_mem hwork
    rw [hchain.rest] at howner
    exact (mem_places howner).1
  kind := by
    rw [hchain.headRequest]
    rcases hrequest with ⟨hplain, hnext⟩ | ⟨hbatch, hnext⟩
    · refine Or.inl ⟨hplain, ?_⟩
      have hrest := hchain.restRequests
      rw [hnext] at hrest
      exact List.map_eq_nil_iff.mp hrest
    · refine Or.inr ⟨hbatch, ?_, ?_, ?_⟩
      · intro work hwork
        refine hnext work.request ?_
        rw [← hchain.restRequests]
        exact List.mem_map_of_mem hwork
      · intro work hwork
        have howner : work.owner ∈ chain.rest.map Work.owner := List.mem_map_of_mem hwork
        rw [hchain.rest] at howner
        exact Nat.one_le_iff_ne_zero.mp (mem_places howner).2
      · rw [hchain.rest]
        exact .map (fun _ _ hsame ↦ congrArg Owner.position hsame) List.nodup_range'

end TdhSocket.Execute
