import TdhSocket.Decode.Context
import TdhSocket.Decode.Grammar
import TdhSocket.Protocol.Frames

/-!
# Decoding the packets of a batch

What a chain that was decoded without an error has behind its first packet, when none of these
packets is a BATCH: write requests, on each of which the decoder was called once, in the order of
the chain (`decodeBatch_once`).
-/

set_option autoImplicit false

namespace TdhSocket.Decode

open Protocol Library

/-- The request that the decoder leaves in a packet, if it accepts it. -/
def packetRequest (env : DecodeEnv) (packet : TdhsPacket) : Option TdhsRequest :=
  (requestTypeOf packet.commandIdOrResponseCode).bind fun type ↦
    if type = .batch then some batchRequest
    else (runDecoder (decoderOf env.version env.pool env.stray type) packet).result.toOption

/-- The packet is a BATCH. -/
def IsNested (packet : TdhsPacket) : Prop :=
  requestTypeOf packet.commandIdOrResponseCode = some .batch

variable {packet : TdhsPacket} {env : DecodeEnv} {position : ℕ}

theorem isNested_iff :
    IsNested packet ↔ packet.commandIdOrResponseCode = requestTypeBatch := by
  unfold IsNested requestTypeOf
  constructor
  · intro htype
    split_ifs at htype
    all_goals first | assumption | cases htype
  · intro hcommand
    rw [hcommand]
    rfl

/-- The call for a packet that is not a BATCH. -/
theorem decodeCall_of_not_nested {rest : ChainOutcome} (hnested : ¬IsNested packet)
    (hret : (decodeCall env position packet rest).ret = none) :
    ∃ type request trace, requestTypeOf packet.commandIdOrResponseCode = some type ∧
      (runDecoder (decoderOf env.version env.pool env.stray type) packet).result = .ok request ∧
      (decodeCall env position packet rest).calls = [⟨position, packet, trace, some request⟩] := by
  cases htype : requestTypeOf packet.commandIdOrResponseCode with
  | none =>
    simp only [decodeCall, htype] at hret
    cases hret
  | some type =>
    have hsingle : decodeCall env position packet rest = decodeSingle env position packet type := by
      cases type with
      | batch => exact absurd htype hnested
      | get => simp only [decodeCall, htype]
      | count => simp only [decodeCall, htype]
      | update => simp only [decodeCall, htype]
      | delete => simp only [decodeCall, htype]
      | insert => simp only [decodeCall, htype]
    rw [hsingle] at hret ⊢
    cases hresult :
        (runDecoder (decoderOf env.version env.pool env.stray type) packet).result with
    | error code =>
      simp only [decodeSingle, hresult] at hret
      cases hret
    | ok request =>
      refine ⟨type, request,
        (runDecoder (decoderOf env.version env.pool env.stray type) packet).trace, rfl, hresult,
        ?_⟩
      simp only [decodeSingle, hresult]

/-- The request of an accepted packet has the type of its command. Assumes: the packet is not a
BATCH and its length is that of its payload. -/
theorem packetRequest_of_not_nested {rest : ChainOutcome} (hnested : ¬IsNested packet)
    (hlength : packet.length = packet.rdata.length)
    (hret : (decodeCall env position packet rest).ret = none) :
    ∃ request, packetRequest env packet = some request ∧
      requestTypeOf packet.commandIdOrResponseCode = some request.type := by
  obtain ⟨type, request, -, htype, hresult, -⟩ := decodeCall_of_not_nested hnested hret
  have hnotBatch : type ≠ .batch := by
    rintro rfl
    exact hnested htype
  have hrun : (Reader.runOn (decoderOf env.version env.pool env.stray type) []
      packet.rdata).result = .ok request := by
    unfold runDecoder at hresult
    rw [hlength] at hresult
    exact hresult
  obtain ⟨wire, rfl, -, -, rfl⟩ := (decoderOf_ok_iff _ _ _ hnotBatch _ _).mp hrun
  refine ⟨wire.request env.version env.pool, ?_, ?_⟩
  · unfold packetRequest
    rw [htype, Option.bind_some, if_neg hnotBatch, hresult]
    rfl
  · rw [htype]
    cases wire with
    | get part => rfl
    | count part => rfl
    | update part values => rfl
    | delete part => rfl
    | insert tableInfo values => rfl

/-- The loop of `decode_to_batch` over packets none of which is a BATCH: each is a write request
with a request of its own, and the decoder is called on each once, in order. Assumes: no error was
returned, and the lengths of the packets are those of their payloads. -/
theorem decodeBatch_once {packets : List TdhsPacket}
    (hnested : ∀ packet ∈ packets, ¬IsNested packet)
    (hlength : ∀ packet ∈ packets, packet.length = packet.rdata.length)
    (hret : (decodeBatch env position packets).ret = none) :
    (∀ packet ∈ packets, ∃ request, packetRequest env packet = some request ∧
      requestTypeOf packet.commandIdOrResponseCode = some request.type ∧
      (request.type = .update ∨ request.type = .delete ∨ request.type = .insert)) ∧
    (decodeBatch env position packets).calls.map Call.packet = packets ∧
    (decodeBatch env position packets).calls.map Call.position =
      List.range' position packets.length := by
  induction packets generalizing position with
  | nil => exact ⟨List.forall_mem_nil _, rfl, rfl⟩
  | cons packet packets ih =>
    have hfirstNested := hnested packet List.mem_cons_self
    unfold decodeBatch at hret ⊢
    simp only at hret ⊢
    split_ifs at hret ⊢ with hstop
    obtain ⟨hfirst, hread⟩ := not_or.mp hstop
    have hfirstRet := not_not.mp hfirst
    obtain ⟨hrequests, hpackets, hpositions⟩ := ih
      (fun other hother ↦ hnested other (List.mem_cons_of_mem _ hother))
      (fun other hother ↦ hlength other (List.mem_cons_of_mem _ hother)) hret
    obtain ⟨-, request, trace, -, -, hcalls⟩ := decodeCall_of_not_nested hfirstNested hfirstRet
    refine ⟨List.forall_mem_cons.mpr ⟨?_, hrequests⟩, ?_, ?_⟩
    · obtain ⟨request, hsome, htype⟩ :=
        packetRequest_of_not_nested hfirstNested (hlength packet List.mem_cons_self) hfirstRet
      refine ⟨request, hsome, htype, ?_⟩
      unfold isReadRequest at hread
      unfold IsNested at hfirstNested
      rw [htype] at hread hfirstNested
      cases hkind : request.type with
      | get => simp [hkind] at hread
      | count => simp [hkind] at hread
      | update => exact Or.inl rfl
      | delete => exact Or.inr (Or.inl rfl)
      | insert => exact Or.inr (Or.inr rfl)
      | batch => exact absurd (congrArg some hkind) hfirstNested
    · rw [hcalls, List.map_append, hpackets]
      rfl
    · rw [hcalls, List.map_append, hpositions]
      rfl

/-- Decoding a BATCH is decoding the packets behind it. -/
theorem decodeRequest_of_nested {chain : PacketChain}
    (hbatch : IsNested chain.packet) :
    decodeRequest env chain = ⟨(decodeBatch env 1 chain.next).ret,
      ⟨0, chain.packet, [], some batchRequest⟩ :: (decodeBatch env 1 chain.next).calls⟩ := by
  have htype : requestTypeOf chain.packet.commandIdOrResponseCode = some .batch := hbatch
  simp only [decodeRequest, decodeCall, htype]

end TdhSocket.Decode
