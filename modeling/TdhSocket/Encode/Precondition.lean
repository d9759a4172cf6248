import TdhSocket.Encode.Handing
import TdhSocket.Execute.Atomicity
import TdhSocket.Execute.ChainScripts

/-!
# The precondition of tdhs_encode

What a request thread does to the packets of a chain is the plan of an exchange: the script of the
process loop, and that of the loop which replaces answers after a failed commit
(`exists_plan`). With the runs of exchanges this gives `encode_precondition`: for every request and
every way its execution ends, each packet that the IO thread hands to `tdhs_encode` meets its
assertions, in every interleaving in which the wait of `send_stream` returns behind a signal.

`pthread_cond_wait` may return without one. The thread then empties the buffer of a chunk that the
IO thread has not encoded yet, and `tdhs_encode` finds a length of zero
(`emptied_chunk_handed`).
-/

set_option autoImplicit false

namespace TdhSocket.Encode

open Protocol Decode Execute Library

variable {Outside Record : Type} {world : World Outside Record} {rounds : ℕ} {bulk : Bool}

/-- What is written by a request thread: the process loop wrote by the first script, to packets of
the chain and data to its GET alone, and what followed by the second. -/
structure IsPlanOf (chain : OpenedChain Record) (done : Done)
    (start processed unlocked final : Context Outside Record) (plan : Plan) : Prop where
  head : plan.head = chain.head.owner
  packets : plan.chain ⊆ chain.packets
  allowed : ∀ entry ∈ plan.writes, MayWrite chain entry.1 entry.2
  chain : plan.chain = owed done.retcode done.packets
  processed : processed.response = perform plan.writes start.response
  final : final.response = perform plan.rewriting unlocked.response

/-- The loop that follows the commit: nothing is done where it succeeded or in a thread that reads,
and otherwise the answer is replaced. -/
def FollowsCommit (world : World Outside Record) (done : Done)
    (unlocked final : Context Outside Record) : Prop :=
  final = unlocked ∨ ∃ rewritten, rewriteDone world done unlocked = some (rewritten, final)

section

variable (hallocates : Allocates world) (hsized : IsSized world) {chain : OpenedChain Record}
  (hchain : IsChain chain) {start processed unlocked final : Context Outside Record} {done : Done}
  (hprocess : processRequest world rounds bulk chain start = some (done, processed))
  (hcommit : FollowsCommit world done unlocked final) (packets : Owner → ResponsePacket)

include hallocates hsized hchain hprocess hcommit

/-- The writes of a request thread to a chain make a legal plan. -/
theorem exists_plan :
    ∃ plan : Plan, plan.packets = packets ∧ plan.IsLegal ∧
      IsPlanOf chain done start processed unlocked final plan := by
  obtain ⟨hpackets, writes, hwrites, hcovers, hprocessed⟩ :=
    processRequest_covers hallocates hsized hchain hprocess
  have hquiet : ∀ owner, Admits (fun _ write ↦ write.isStream = false) owner false :=
    fun _ write hstream ↦ Bool.eq_false_of_not_eq_true fun hyes ↦
      absurd (hstream hyes) Bool.false_ne_true
  obtain ⟨rewriting, hrewriting, -, hfinal⟩ :
      Follows (fun _ write ↦ write.isStream = false) unlocked final := by
    rcases hcommit with rfl | ⟨rewritten, hrewrite⟩
    · exact SameResponse.follows rfl
    · exact follows_rewriteDone hallocates (fun owner _ ↦ hquiet owner) unlocked rewritten final
        hrewrite
  refine ⟨⟨chain.head.owner, owed done.retcode done.packets, packets, writes, rewriting⟩, rfl,
    ⟨?_, hrewriting, hcovers⟩, rfl, List.Subset.trans (owed_subset _ _) hpackets, hwrites.allowed,
    rfl, hprocessed, hfinal⟩
  exact ⟨fun entry hentry hstream ↦ ((hwrites.allowed entry hentry).2 hstream).1, hwrites.ordered⟩

/-- The packets handed to `tdhs_encode` meet its assertions, for every request and every way its
execution ends, with every sequence of writes on the way and in every interleaving. Assumes: memory
and buffers can be had, sizes are of the types of the source, the chain is one that decoding
leaves, and a wait in `send_stream` returns behind a signal. -/
theorem encode_precondition :
    (∃ plan : Plan, plan.packets = packets ∧ plan.IsLegal ∧
      IsPlanOf chain done start processed unlocked final plan) ∧
    ∀ plan : Plan, plan.IsLegal → ∀ exchange,
      Reached step IsSignalled (newExchange plan) exchange →
        ∀ entry ∈ exchange.handed, IsEncodable entry.2 ∧ tdhsEncodeAsserts entry.2 = true := by
  refine ⟨exists_plan hallocates hsized hchain hprocess hcommit packets, ?_⟩
  intro plan hlegal exchange hreached entry hentry
  have hready := handed_isReady hlegal hreached entry hentry
  exact ⟨hready.isEncodable, hready.asserts⟩

end

/-! ### A value of 2000 bytes -/

/-- The first packet of the first request. -/
def firstPacket : Owner := ⟨0, 0⟩

/-- A GET of one value with 2000 bytes, which does not fit a buffer of 1024. -/
def chunkPlan : Plan where
  head := firstPacket
  chain := [firstPacket]
  packets _ := ⟨0, 0, none⟩
  writes := [.dataHeader [253] 1024, .data (List.replicate 2000 0)].map (Prod.mk firstPacket)
  rewriting := []

theorem isLegal_chunkPlan : chunkPlan.IsLegal := by
  refine ⟨isScript_map (fun _ _ _ ↦ rfl) fun before ↦ ⟨.forData, ?_⟩, isScript_nil _, ?_⟩
  · rfl
  · intro owner howner
    rw [List.mem_singleton.mp howner]
    exact (writesOf_map_self firstPacket _).trans_ne (List.cons_ne_nil _ _)

/-- The GET up to the wait of its first chunk. -/
def untilWait : List Event :=
  [.request .push, .request .take, .request .start, .write, .write, .write, .write, .write,
    .request .sendStream, .request .wait]

/-- The chunk is encoded, written and signalled, and the rest goes with the final answer. -/
def untilDone : List Event :=
  untilWait ++ [.request (.sendResponse true), .socket 1044, .request .drain, .request .wake,
    .request .check, .write, .request (.finish false), .request .handOver,
    .request (.sendResponse true)]

/-- The statuses and lengths of the packets handed to `tdhs_encode`. -/
def lengths (exchange : Exchange) : List (ℕ × ℕ) :=
  exchange.handed.map fun entry ↦ (entry.2.code, entry.2.length)

/-- A batch whose second INSERT fails, and a GET whose chunk is encoded before the wait returns
behind the signal of the IO thread. -/
theorem encode_precondition_signalled :
    ∃ done processed exchange,
      processRequest (scriptedWorld fun _ ↦ false) 1 true
        ⟨0, ⟨firstPacket, twoInserts.head, 2, .noMemory⟩,
          [⟨⟨0, 1⟩, insertNumber 49, 0, .opened 0 numberTable⟩,
            ⟨⟨0, 2⟩, insertNumber 50, 0, .opened 0 numberTable⟩]⟩ (scriptedStart [0, 121]) =
        some (done, processed) ∧ done = ⟨0, .ok, [firstPacket, ⟨0, 1⟩, ⟨0, 2⟩]⟩ ∧
      Reached step IsSignalled (newExchange chunkPlan) exchange ∧
      lengths exchange = [(202, 1024), (200, 985)] ∧
      ∀ entry ∈ exchange.handed, IsEncodable entry.2 ∧ tdhsEncodeAsserts entry.2 = true := by
  have hview : (processRequest (scriptedWorld fun _ ↦ false) 1 true
      ⟨0, ⟨firstPacket, twoInserts.head, 2, .noMemory⟩,
        [⟨⟨0, 1⟩, insertNumber 49, 0, .opened 0 numberTable⟩,
          ⟨⟨0, 2⟩, insertNumber 50, 0, .opened 0 numberTable⟩]⟩ (scriptedStart [0, 121])).map
      (fun result ↦ result.1) = some ⟨0, .ok, [firstPacket, ⟨0, 1⟩, ⟨0, 2⟩]⟩ := by
    decide +kernel
  have hrun : (run (guarded step IsSignalled) (newExchange chunkPlan) untilDone).map lengths =
      some [(202, 1024), (200, 985)] := by decide +kernel
  obtain ⟨⟨done, processed⟩, hprocess, hdone⟩ := Option.map_eq_some_iff.mp hview
  obtain ⟨exchange, hexchange, hlengths⟩ := Option.map_eq_some_iff.mp hrun
  have hreached : Reached step IsSignalled (newExchange chunkPlan) exchange :=
    reached_guarded .start hexchange
  have hallocates : Allocates (scriptedWorld fun _ ↦ false) := ⟨fun _ _ ↦ rfl, fun _ _ ↦ rfl⟩
  have hid : 0 < 2 ^ 64 := by decide
  have hsized : IsSized (scriptedWorld fun _ ↦ false) := ⟨by decide, fun _ ↦ hid⟩
  have hcommit : FollowsCommit (scriptedWorld fun _ ↦ false) done processed processed := .inl rfl
  refine ⟨done, processed, exchange, hprocess, hdone, hreached, hlengths, ?_⟩
  refine (encode_precondition hallocates hsized ⟨fun hno ↦ absurd rfl hno, ?_, ?_⟩ hprocess
    hcommit fun _ ↦ ⟨0, 0, none⟩).2 chunkPlan isLegal_chunkPlan exchange hreached
  · decide
  · decide

/-- The wait returns before the IO thread has encoded the chunk: the buffer is emptied, and
`tdhs_encode` gets a packet with the status 200 and the length zero. -/
theorem emptied_chunk_handed :
    chunkPlan.IsLegal ∧
    ∃ exchange, run step (newExchange chunkPlan) (untilWait ++
        [.request .wake, .request .check, .request (.sendResponse true)]) = some exchange ∧
      exchange.handed = [(firstPacket, ⟨200, 0, some ⟨0, 20, 1044⟩⟩)] ∧
      ∀ entry ∈ exchange.handed,
        ¬ IsEncodable entry.2 ∧ tdhsEncodeAsserts entry.2 = false := by
  have hrun : (run step (newExchange chunkPlan) (untilWait ++
      [.request .wake, .request .check, .request (.sendResponse true)])).map Exchange.handed =
      some [(firstPacket, ⟨200, 0, some ⟨0, 20, 1044⟩⟩)] := by decide +kernel
  obtain ⟨exchange, hexchange, hhanded⟩ := Option.map_eq_some_iff.mp hrun
  refine ⟨isLegal_chunkPlan, exchange, hexchange, hhanded, fun entry hentry ↦ ?_⟩
  rw [hhanded] at hentry
  rw [List.mem_singleton.mp hentry]
  refine ⟨?_, by decide⟩
  rintro ⟨b, -, hspan⟩
  exact absurd hspan.1 (by decide)

end TdhSocket.Encode
