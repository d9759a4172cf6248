import TdhSocket.Decode.Documented
import TdhSocket.Execute.Atomicity
import TdhSocket.Execute.ChainStatuses
import TdhSocket.Execute.Settling

/-!
# The shape of a batch

A BATCH frame that is accepted has as many sub-frames in its chain as `reserved` says. Two things
it may have besides are not refused: bytes behind the last sub-frame, and sub-frames that are
themselves a BATCH. For a nested BATCH both `decode_to_batch` and `do_batch` walk the rest of the
chain, and their caller walks it once more. `batch_shape_iff` says that without these two every
sub-frame is decoded once and every sub-request executed once, in the order of the chain.

Where a response buffer cannot be had the loop of `do_batch` stops; with `Allocates` it comes to its
end (`doBatch_concludes`).
-/

set_option autoImplicit false

namespace TdhSocket.Execute

open Protocol Decode Library Library.Program

variable {Outside Record : Type} {world : World Outside Record} {rounds : ℕ} {bulk : Bool}

/-! ### Executing a batch -/

variable {head : Owner} {start final : Context Outside Record} {ret : RetCode}

/-- The packets behind a batch that `execute` was called on: an initial part of them in the order
of the chain, and all of them when memory can be had. -/
def RanInOrder (world : World Outside Record) (works : List (Work Record))
    (start final : Context Outside Record) : Prop :=
  ∃ executed, final.started = start.started ++ executed ∧ executed <+: works.map Work.owner ∧
    (Allocates world → executed = works.map Work.owner)

theorem doBatch_ranInOrder {works : List (Work Record)} (hplain : ArePlain works)
    (hhead : head ∉ works.map Work.owner) (hinBatch : start.inBatch = false)
    (hreturns :
      doBatch world head (executeBatch world rounds bulk works) start = some (ret, final)) :
    RanInOrder world works start final := by
  obtain ⟨outs, -, -, hstarted, hbatched⟩ := doBatch_shares hplain hhead hinBatch hreturns
  refine ⟨outs.map Outcome.owner, hstarted, ?_, fun hallocates ↦ ?_⟩
  · rcases hbatched with ⟨rfl, -⟩ | hlooped
    · exact List.nil_prefix
    · exact hlooped.inOrder
  · have hret := (doBatch_concludes ⟨fun _ _ ↦ trivial, fun _ _ ↦ trivial⟩ hallocates hplain hhead
      trivial hreturns).1
    rcases hbatched with ⟨-, herror⟩ | hlooped
    · rw [hret] at herror
      cases herror
    · exact (hlooped.all hret).1

theorem doBatchWithLock_ranInOrder {head : Work Record} {works : List (Work Record)}
    (hplain : ArePlain works) (hhead : head.owner ∉ works.map Work.owner)
    (hinBatch : start.inBatch = false)
    (hreturns : doBatchWithLock world false head works (executeBatch world rounds false works)
      start = some (ret, final)) :
    RanInOrder world works start final := by
  obtain ⟨memory, asked, hasked, hreturns⟩ := bind_eq_some.mp hreturns
  have hhad : Allocates world → memory = true := fun hallocates ↦
    returns_stackLiker hallocates _ start memory asked hasked
  obtain ⟨outside, rfl⟩ := stackLiker_eq hasked
  split_ifs at hreturns with hmemory
  · obtain ⟨hidle, -⟩ := tdhsResponseError_idle (by decide : 400 ≤ 500) hreturns
    refine ⟨[], hidle.started.trans (List.append_nil _).symm, List.nil_prefix,
      fun hallocates ↦ ?_⟩
    rw [hhad hallocates] at hmemory
    cases hmemory
  · obtain ⟨_, locked, hlock, hreturns⟩ := bind_eq_some.mp hreturns
    have hasked : ({ start with outside := outside } : Context Outside Record).inBatch = false :=
      hinBatch
    have hlocks := lockTables_locks hasked hlock
    obtain ⟨batchRet, batched, hbatch, hreturns⟩ := bind_eq_some.mp hreturns
    have hlockedBatch := hlocks.inBatch.trans hinBatch
    obtain ⟨executed, hstarted, hinOrder, hall⟩ :=
      doBatch_ranInOrder hplain hhead hlockedBatch hbatch
    obtain ⟨outs, hshares, -⟩ := doBatch_shares hplain hhead hlockedBatch hbatch
    obtain ⟨endRet, unlocked, hunlock, hreturns⟩ := bind_eq_some.mp hreturns
    obtain ⟨ended, hends, rfl⟩ := unlockTables_ends (hshares.inBatch.trans hlockedBatch) hunlock
    refine ⟨executed, ?_, hinOrder, hall⟩
    have hended : ended.started = start.started ++ executed := by
      rw [hends.started, hstarted, hlocks.started]
    split_ifs at hreturns
    · exact (rewriteUntilError_silences hreturns).1.started.trans hended
    · cases hreturns
      exact hended

/-- `execute` on a batch of plain writes calls `execute` on the packets behind it. Assumes: the
batch is not inside another one. -/
theorem execute_ranInOrder {chain : OpenedChain Record} (hchain : IsWriteChain chain)
    (htype : chain.head.request.type = .batch) (hinBatch : start.inBatch = false)
    (hreturns : execute world rounds bulk chain.head chain.rest start = some (ret, final)) :
    RanInOrder world chain.rest (opening chain.head.owner start) final := by
  have hplain : ArePlain chain.rest := by
    rcases hchain.kind with ⟨hplain, -⟩ | ⟨-, hplain⟩
    · rw [htype] at hplain
      rcases hplain with hplain | hplain | hplain <;> cases hplain
    · exact hplain
  have hhead := hchain.head ▸ hplain.head_notMem chain.number
  obtain ⟨bodyRet, middle, hbody, -, rfl⟩ := executeWith_eq_some.mp hreturns
  have hopening : (opening chain.head.owner start).inBatch = false := hinBatch
  rw [dispatch_of_batch htype] at hbody
  have hmiddle : RanInOrder world chain.rest (opening chain.head.owner start) middle := by
    cases bulk with
    | true => exact doBatch_ranInOrder hplain hhead hopening hbody
    | false => exact doBatchWithLock_ranInOrder hplain hhead hopening hbody
  exact hmiddle

/-! ### The shape -/

/-- The list entry of a decoded chain. -/
def easyRequestOf (env : DecodeEnv) (chain : PacketChain) : EasyRequest where
  head := (packetRequest env chain.packet).getD batchRequest
  reserved := chain.packet.reserved
  next := chain.next.filterMap (packetRequest env)

/-- The payload is the concatenation of as many sub-frames as `reserved` says, each UPDATE, DELETE
or INSERT. -/
def IsConcatenation (packet : TdhsPacket) : Prop :=
  ∃ subs : List SubFrame, subs.length = packet.reserved ∧
    packet.rdata = SubFrame.encodeAll subs ∧
    ∀ sub ∈ subs, requestTypeOf sub.command = some .update ∨
      requestTypeOf sub.command = some .delete ∨ requestTypeOf sub.command = some .insert

/-- The decoder is called on the first packet and then on each packet behind it, once and in order.
-/
def IsDecodedOnce (env : DecodeEnv) (chain : PacketChain) : Prop :=
  (decodeRequest env chain).calls.map Call.packet = chain.packet :: chain.next ∧
    (decodeRequest env chain).calls.map Call.position = List.range (1 + chain.next.length)

/-- Whatever the world, the mode and the state before, `execute` is called on the packets behind
the batch in the order of the chain, and on each of them exactly once when memory can be had. Given
enough rounds it returns when the storage engine ends every scan. -/
def IsExecutedOnce (env : DecodeEnv) (chain : PacketChain) : Prop :=
  ∀ (Outside Record : Type) (world : World Outside Record) (bulk : Bool)
    (opened : OpenedChain Record), IsOpenedChain (easyRequestOf env chain) opened →
    (∀ (rounds : ℕ) (start final : Context Outside Record) (ret : RetCode),
      start.inBatch = false →
      execute world rounds bulk opened.head opened.rest start = some (ret, final) →
        RanInOrder world opened.rest (opening opened.head.owner start) final) ∧
    (ScansEnd world → Settles fun rounds ↦ execute world rounds bulk opened.head opened.rest)

/-- With enough rounds `execute` returns. -/
theorem settles_execute (hends : ScansEnd world) (work : Work Record)
    (rest : List (Work Record)) : Settles fun rounds ↦ execute world rounds bulk work rest := by
  have hconducts := conducts_settles hends fun _ ↦ True
  have hall : ∀ work : Work Record, IsConducted (fun _ ↦ True) true work :=
    fun _ ↦ ⟨trivial, fun _ ↦ rfl⟩
  exact conducts_executeWith hconducts (hall work) (fun _ work _ ↦ hall work) bulk fun _ ↦
    conducts_executeBatch hconducts (fun work _ ↦ hall work) bulk

theorem length_encodeAll (subs : List SubFrame) :
    (SubFrame.encodeAll subs).length =
      ((subs.map SubFrame.packet).map fun packet ↦ tdhSocketHeaderLength + packet.length).sum := by
  induction subs with
  | nil => rfl
  | cons sub subs ih =>
    rw [SubFrame.encodeAll_cons, List.length_append, SubFrame.length_encode, ih]
    rfl

/-- The chain behind a payload that is a concatenation of sub-frames. -/
theorem next_of_encodeAll {input : List UInt8} {subs : List SubFrame}
    (hcount : subs.length = batchRequestNum (getHeaderInfo input))
    (hpayload : (headPacket input).rdata = SubFrame.encodeAll subs) :
    (batchOutcome input).packets = subs.map SubFrame.packet := by
  have hloop := batchLoop_encodeAll subs [] 0
  unfold batchOutcome
  rw [← hcount, hpayload]
  rw [List.append_nil, Nat.add_zero] at hloop
  rw [hloop]
  exact List.append_nil _

/-- Assumes: none of the packets behind the batch is one, and the decoder accepts the chain. -/
theorem isWriteRequest_easyRequestOf {env : DecodeEnv} {chain : PacketChain}
    (hbatch : IsNested chain.packet)
    (hrequests : ∀ packet ∈ chain.next, ∃ request, packetRequest env packet = some request ∧
      requestTypeOf packet.commandIdOrResponseCode = some request.type ∧
      (request.type = .update ∨ request.type = .delete ∨ request.type = .insert)) :
    IsWriteRequest (easyRequestOf env chain) ∧
      (easyRequestOf env chain).head.type = .batch := by
  have htype : requestTypeOf chain.packet.commandIdOrResponseCode = some .batch := hbatch
  have hhead : (easyRequestOf env chain).head.type = .batch := by
    simp [easyRequestOf, packetRequest, htype, batchRequest]
  refine ⟨Or.inr ⟨hhead, fun next hnext ↦ ?_⟩, hhead⟩
  obtain ⟨packet, hpacket, hsome⟩ := List.mem_filterMap.mp hnext
  obtain ⟨request, hrequest, -, hkind⟩ := hrequests packet hpacket
  rw [hrequest] at hsome
  cases hsome
  exact hkind

/-- A BATCH frame that is accepted is the concatenation of its sub-frames, all of them write
requests, is decoded once and executed once, if and only if nothing follows its sub-frames and none
of them is a BATCH. Assumes: `tdhs_decode` hands the chain over, it is a BATCH, and the decoder
accepts it. -/
theorem batch_shape_iff {pool : EasyPool} {input rest : List UInt8} {chain : PacketChain}
    (hdecoded : (tdhsDecode pool input).answer = .packet chain rest)
    (hbatch : chain.packet.commandIdOrResponseCode = requestTypeBatch) {env : DecodeEnv}
    (haccepted : (decodeRequest env chain).ret = none) :
    (IsConcatenation chain.packet ∧ IsDecodedOnce env chain ∧ IsExecutedOnce env chain) ↔
      chain.packet.length =
        (chain.next.map fun packet ↦ tdhSocketHeaderLength + packet.length).sum ∧
      ∀ packet ∈ chain.next, packet.commandIdOrResponseCode ≠ requestTypeBatch := by
  have hlengths := length_of_tdhsDecode hdecoded
  have hnested : IsNested chain.packet := isNested_iff.mpr hbatch
  rw [decodeRequest_of_nested hnested] at haccepted
  obtain ⟨hinput, rfl, -⟩ := tdhsDecode_eq_packet_iff.mp hdecoded
  have hcount : batchRequestNum (getHeaderInfo input) = (headPacket input).reserved :=
    if_pos hbatch
  constructor
  · rintro ⟨⟨subs, hreserved, hpayload, htypes⟩, -, -⟩
    have hnext := next_of_encodeAll (hreserved.trans hcount.symm) hpayload
    refine ⟨?_, fun packet hpacket ↦ ?_⟩
    · rw [hlengths _ List.mem_cons_self]
      rw [hpayload, hnext, length_encodeAll]
    · have hmem : packet ∈ subs.map SubFrame.packet := hnext ▸ hpacket
      obtain ⟨sub, hsub, rfl⟩ := List.mem_map.mp hmem
      intro hcommand
      have hbatchType : requestTypeOf sub.command = some .batch := isNested_iff.mpr hcommand
      have hkind := htypes sub hsub
      rw [hbatchType] at hkind
      rcases hkind with hkind | hkind | hkind <;> cases hkind
  · rintro ⟨hlength, hnone⟩
    have hnotNested : ∀ packet ∈ (batchOutcome input).packets, ¬IsNested packet :=
      fun packet hpacket ↦ fun hyes ↦ hnone packet hpacket (isNested_iff.mp hyes)
    obtain ⟨hrequests, hpackets, hpositions⟩ := decodeBatch_once hnotNested
      (fun packet hpacket ↦ hlengths packet (List.mem_cons_of_mem _ hpacket)) haccepted
    refine ⟨?_, ?_, ?_⟩
    · obtain ⟨subs, tail, hpayload, hsubs, hcomplete⟩ :=
        batchLoop_eq (batchRequestNum (getHeaderInfo input)) (headPacket input).rdata
      have hnext : (batchOutcome input).packets = subs.map SubFrame.packet := hsubs
      have htail : tail = [] := by
        have hsum : (headPacket input).rdata.length = (SubFrame.encodeAll subs).length := by
          rw [length_encodeAll, ← hnext, ← hlengths _ List.mem_cons_self]
          exact hlength
        rw [hpayload, List.length_append] at hsum
        exact List.length_eq_zero_iff.mp (by omega)
      refine ⟨subs, (hcomplete.mp hinput.complete).trans hcount, ?_, fun sub hsub ↦ ?_⟩
      · rw [hpayload, htail, List.append_nil]
      · obtain ⟨request, -, htype, hkind⟩ := hrequests sub.packet
          (hnext ▸ List.mem_map_of_mem hsub)
        have hcommand : requestTypeOf sub.command = some request.type := htype
        rw [hcommand]
        exact hkind.imp (congrArg some) (Or.imp (congrArg some) (congrArg some))
    · unfold IsDecodedOnce
      rw [decodeRequest_of_nested hnested, List.map_cons, List.map_cons, hpackets, hpositions]
      refine ⟨rfl, ?_⟩
      rw [List.range_eq_range', Nat.add_comm, List.range'_succ]
    · intro Outside Record world bulk opened hopened
      refine ⟨fun rounds start final ret hinBatch hreturns ↦ ?_,
        fun hends ↦ settles_execute hends _ _⟩
      obtain ⟨hwrite, hhead⟩ := isWriteRequest_easyRequestOf hnested hrequests
      exact execute_ranInOrder (hopened.isWriteChain hwrite)
        (by rw [hopened.headRequest]; exact hhead) hinBatch hreturns

/-- The payload of an INSERT without fields. -/
def emptyInsert : List UInt8 :=
  BigEndian.toBytes 2 ++ [97, 0] ++ BigEndian.toBytes 2 ++ [97, 0] ++ BigEndian.toBytes 0 ++
    BigEndian.toBytes 0 ++ BigEndian.toBytes 0

/-- A frame or a sub-frame with a command. -/
def frameOf (command reserved : ℕ) (payload : List UInt8) : List UInt8 :=
  BigEndian.toBytes tdhsMagicCode ++ BigEndian.toBytes command ++ BigEndian.toBytes 0 ++
    BigEndian.toBytes reserved ++ BigEndian.toBytes payload.length ++ payload

/-- The decoder of version 1. -/
def binaryEnv : DecodeEnv := ⟨binary, roomyPool, fun _ ↦ 0⟩

/-- The decoder of version 2. -/
def binaryV2Env : DecodeEnv := ⟨binaryV2, roomyPool, fun _ ↦ 0⟩

/-- INSERT of the number 5. -/
def insertLetter : List UInt8 :=
  (WireRequest.insert letterTable ⟨[⟨0, letter 53⟩], by decide⟩).encode

/-- The payload of a batch with an INSERT and an UPDATE. -/
def twoWrites : List UInt8 := frameOf 12 0 insertLetter ++ frameOf 10 0 updateLetter.encode

/-- The chain of a batch with an INSERT and an UPDATE. -/
def twoWritesChain : PacketChain :=
  ⟨⟨20, 0, 2, twoWrites.length, twoWrites⟩, [⟨12, 0, 0, insertLetter.length, insertLetter⟩,
    ⟨10, 0, 0, updateLetter.encode.length, updateLetter.encode⟩]⟩

/-- A batch of an INSERT and an UPDATE has the shape, and a run of it commits both rows. -/
theorem batch_shape_iff_two_writes :
    (tdhsDecode roomyPool (frameOf 20 2 twoWrites)).answer = .packet twoWritesChain [] ∧
    (IsConcatenation twoWritesChain.packet ∧ IsDecodedOnce binaryV2Env twoWritesChain ∧
      IsExecutedOnce binaryV2Env twoWritesChain) ∧
    (tdhsRequestDoreqForWrite (scriptedWorld fun _ ↦ false) 2 true
      [easyRequestOf binaryV2Env twoWritesChain] (scriptedStart [])).map (fun result ↦
        (result.2.started, (replay result.2.events).committed)) =
      some ([⟨0, 0⟩, ⟨0, 1⟩, ⟨0, 2⟩],
        [⟨⟨0, 1⟩, .haWriteRow 5⟩, ⟨⟨0, 2⟩, .haUpdateRow 7 3⟩]) := by
  have hdecoded : (tdhsDecode roomyPool (frameOf 20 2 twoWrites)).answer =
      .packet twoWritesChain [] := by
    decide +kernel
  have haccepted : (decodeRequest binaryV2Env twoWritesChain).ret = none := by
    decide +kernel
  exact ⟨hdecoded, (batch_shape_iff hdecoded rfl haccepted).mpr ⟨rfl, by decide⟩,
    by decide +kernel⟩

/-- The chain of a batch whose sub-frames are a BATCH and an INSERT. -/
def nestedChain : PacketChain :=
  ⟨⟨20, 0, 2, 64, frameOf 20 0 [] ++ frameOf 12 0 emptyInsert⟩,
    [⟨20, 0, 0, 0, []⟩, ⟨12, 0, 0, 24, emptyInsert⟩]⟩

/-- A BATCH inside a batch is accepted: the INSERT behind it is decoded twice, executed twice, and
its row committed twice. A byte behind the sub-frames is accepted as well. -/
theorem nested_batch_and_trailing_byte :
    ((tdhsDecode roomyPool (frameOf 20 2 (frameOf 20 0 [] ++ frameOf 12 0 emptyInsert))).answer =
        .packet nestedChain [] ∧
      (decodeRequest binaryEnv nestedChain).ret = none ∧
      (decodeRequest binaryEnv nestedChain).calls.map Call.position = [0, 1, 2, 2] ∧
      (tdhsRequestDoreqForWrite (scriptedWorld fun _ ↦ false) 1 true
        [easyRequestOf binaryEnv nestedChain] (scriptedStart [])).map (fun result ↦
          (result.2.started, (replay result.2.events).committed)) =
        some ([⟨0, 0⟩, ⟨0, 1⟩, ⟨0, 2⟩, ⟨0, 2⟩],
          [⟨⟨0, 2⟩, .haWriteRow 0⟩, ⟨⟨0, 2⟩, .haWriteRow 0⟩])) ∧
    (tdhsDecode roomyPool (frameOf 20 0 [0])).answer = .packet ⟨⟨20, 0, 0, 1, [0]⟩, []⟩ [] ∧
      (decodeRequest binaryEnv ⟨⟨20, 0, 0, 1, [0]⟩, []⟩).ret = none ∧
      ¬IsConcatenation ⟨20, 0, 0, 1, [0]⟩ := by
  refine ⟨⟨by decide +kernel, by decide +kernel, by decide +kernel, by decide +kernel⟩,
    by decide +kernel, by decide +kernel, ?_⟩
  rintro ⟨subs, hlength, hpayload, -⟩
  rw [List.length_eq_zero_iff.mp hlength] at hpayload
  cases hpayload

end TdhSocket.Execute
