import TdhSocket.Decode.Context
import TdhSocket.Decode.Safety
import TdhSocket.Protocol.Frames

/-!
# Bounds of request parsing

Which payloads make `shake_hands_if` and the decoders leave the payload or a destination array. The
reads of the decoders are always inside the payload, and the element stores of fields, filters and
values are guarded. What is not guarded are the parts of a key: a key with an eleventh part is
stored past the ten elements of `key` (`KeyOverruns`), and a key array of the pool can be shorter
than the number of keys it was asked for. `accesses_inside_iff` says exactly when that happens, for
every call on every chain that `tdhs_decode` hands over, together with the copy that
`shake_hands_if` makes of a payload it finds too short.
-/

set_option autoImplicit false

namespace TdhSocket.Decode

open Protocol Library Library.Reader

/-! ### Keys -/

/-- A string read into an element is safe when the element exists or the length is not there. -/
theorem safeOn_readString_some (place : Place) (before rest : List UInt8) :
    SafeOn Place.InArray (readString (some place)) before rest ↔
      place.InArray ∨ rest.length < 4 := by
  have hstore : ∀ length (before rest : List UInt8),
      SafeOn Place.InArray (storeTo (some place) >>= fun _ ↦ readStr length) before rest ↔
        place.InArray := fun length before rest ↦
    (safeOn_bind_left (recognises_storeTo (some place)) fun _ ↦ safe_readStr length).trans
      safeOn_store
  unfold readString
  rw [safeOn_bind_right recognises_readUint32 safe_readUint32]
  simp only [hstore]
  constructor
  · intro hall
    by_cases hshort : rest.length < 4
    · exact Or.inr hshort
    · exact Or.inl (hall _ _ (rest.drop 4) ⟨BigEndian.ofBytes_lt rest, rfl⟩
        (BigEndian.toBytes_ofBytes_append_drop rest (not_lt.mp hshort)).symm)
  · rintro (hplace | hshort) value word tail ⟨-, rfl⟩ rfl
    · exact hplace
    · rw [List.length_append, BigEndian.length_toBytes] at hshort
      omega

/-- The bytes begin with ten strings and another length. -/
def HasEleventhPart (bytes : List UInt8) : Prop :=
  ∃ (parts : List WireString) (tail : List UInt8), parts.length = requestMaxKeyNum ∧
    bytes = parts.flatMap WireString.encode ++ tail ∧ 4 ≤ tail.length

/-- The parts of a key stay inside `key` unless there is an eleventh one. -/
theorem safeOn_keyParts (keyFieldNum : ℕ) (before rest : List UInt8) :
    SafeOn Place.InArray
      (repeatFrom (fun j ↦ readString (some ⟨.key, j, requestMaxKeyNum⟩)) 0 keyFieldNum)
      before rest ↔ ¬ (requestMaxKeyNum < keyFieldNum ∧ HasEleventhPart rest) := by
  rw [safeOn_repeatFrom fun j ↦ reads_readString (some ⟨.key, j, requestMaxKeyNum⟩)]
  simp only [safeOn_readString_some, words_iff, Nat.zero_add]
  constructor
  · rintro hall ⟨hmany, parts, tail, hlength, rfl, htail⟩
    have hsafe := hall (parts.map WireString.bytes) (parts.flatMap WireString.encode) tail
      (by rwa [List.length_map, hlength]) ⟨parts, fun _ _ _ ↦ trivial, rfl, rfl⟩ rfl
    rw [List.length_map, hlength] at hsafe
    rcases hsafe with hinside | hshort
    · exact absurd hinside (lt_irrefl _)
    · omega
  · intro hnone values word tail hcount hwords hrest
    obtain ⟨parts, -, rfl, rfl⟩ := hwords
    rw [List.length_map] at hcount ⊢
    by_contra hunsafe
    rw [not_or] at hunsafe
    have hten : requestMaxKeyNum ≤ parts.length := not_lt.mp hunsafe.1
    refine hnone ⟨lt_of_le_of_lt hten hcount, parts.take requestMaxKeyNum,
      (parts.drop requestMaxKeyNum).flatMap WireString.encode ++ tail, ?_, ?_, ?_⟩
    · rw [List.length_take, Nat.min_eq_left hten]
    · rw [hrest, ← List.append_assoc, ← List.flatMap_append, List.take_append_drop]
    · rw [List.length_append]
      omega

/-- Reading key number `i` leaves its array: the key is to be kept and the key array has no such
element, or the key declares more than ten parts and an eleventh one begins. -/
def KeyOverruns (keyArray : KeyArray) (i : ℕ) (bytes : List UInt8) : Prop :=
  (4 ≤ bytes.length ∧ i < keyArray.inLimit ∧ keyArray.capacity ≤ i) ∨
    ∃ keyFieldNum tail, keyFieldNum < 2 ^ 32 ∧ requestMaxKeyNum < keyFieldNum ∧
      bytes = BigEndian.toBytes keyFieldNum ++ tail ∧ HasEleventhPart tail

theorem safeOn_readKey (keyArray : KeyArray) (i : ℕ) (before rest : List UInt8) :
    SafeOn Place.InArray (readKey keyArray i) before rest ↔ ¬ KeyOverruns keyArray i rest := by
  have hparts : ∀ (keyFieldNum : ℕ) (before rest : List UInt8),
      SafeOn Place.InArray
        (repeatFrom (fun j ↦ readString (some ⟨.key, j, requestMaxKeyNum⟩)) 0 keyFieldNum >>=
          fun key ↦ pure (⟨keyFieldNum, key⟩ : TdhsGetKey)) before rest ↔
        ¬ (requestMaxKeyNum < keyFieldNum ∧ HasEleventhPart rest) := fun keyFieldNum before rest ↦
    (safeOn_bind_left (Reads.repeatFrom (fun j ↦ reads_readString _) keyFieldNum)
      fun key ↦ safe_pure _ _).trans (safeOn_keyParts keyFieldNum before rest)
  have hkeys : Place.InArray ⟨.keys, i, keyArray.capacity⟩ ↔ i < keyArray.capacity := Iff.rfl
  unfold readKey
  rw [safeOn_bind_right recognises_readUint32 safe_readUint32]
  simp only [safeOn_bind (recognises_storeTo _), safeOn_storeKey hkeys, hparts]
  constructor
  · rintro hall (⟨hlength, hbeyond⟩ | ⟨keyFieldNum, tail, hlt, hmany, rfl, heleventh⟩)
    · exact (hall _ _ (rest.drop 4) ⟨BigEndian.ofBytes_lt rest, rfl⟩
        (BigEndian.toBytes_ofBytes_append_drop rest hlength).symm).1 hbeyond
    · exact (hall keyFieldNum _ tail ⟨hlt, rfl⟩ rfl).2 () [] tail rfl rfl ⟨hmany, heleventh⟩
  · rintro hnone keyFieldNum word tail ⟨hlt, rfl⟩ rfl
    constructor
    · intro hbeyond
      refine hnone (Or.inl ⟨?_, hbeyond⟩)
      rw [List.length_append, BigEndian.length_toBytes]
      omega
    · rintro _ _ _ rfl rfl ⟨hmany, heleventh⟩
      exact hnone (Or.inr ⟨keyFieldNum, _, hlt, hmany, rfl, heleventh⟩)

/-- The payload stays clear of the overruns of its request type. -/
def Fits (version : Version) (pool : EasyPool) (payload : List UInt8) (type : RequestType) : Prop :=
  FaultFree KeyOverruns version pool payload type

/-! ### Chains -/

/-- The accesses of one call of the decoder. -/
def callTrace (env : DecodeEnv) (packet : TdhsPacket) : List (Access Place) :=
  match requestTypeOf packet.commandIdOrResponseCode with
  | none => []
  | some type => (runDecoder (decoderOf env.version env.pool env.stray type) packet).trace

variable {env : DecodeEnv} {call : Call}

theorem trace_of_mem_decodeCall {position : ℕ} {packet : TdhsPacket} {rest : ChainOutcome}
    (hcall : call ∈ (decodeCall env position packet rest).calls) :
    call ∈ rest.calls ∨ (call.packet = packet ∧ call.trace = callTrace env packet) := by
  unfold decodeCall at hcall
  cases htype : requestTypeOf packet.commandIdOrResponseCode with
  | none =>
    rw [htype] at hcall
    rw [List.mem_singleton.mp hcall]
    exact Or.inr ⟨rfl, by simp only [callTrace, htype]⟩
  | some type =>
    have hsingle : ∀ call ∈ (decodeSingle env position packet type).calls,
        call.packet = packet ∧ call.trace = callTrace env packet := by
      intro call hcall
      unfold decodeSingle at hcall
      dsimp only at hcall
      split at hcall
      · rw [List.mem_singleton.mp hcall]
        exact ⟨rfl, by simp only [callTrace, htype]⟩
      · rw [List.mem_singleton.mp hcall]
        exact ⟨rfl, by simp only [callTrace, htype]⟩
    rw [htype] at hcall
    cases type with
    | batch =>
      rcases List.mem_cons.mp hcall with rfl | hrest
      · exact Or.inr ⟨rfl, by simp only [callTrace, htype]; rfl⟩
      · exact Or.inl hrest
    | get => exact Or.inr (hsingle call hcall)
    | count => exact Or.inr (hsingle call hcall)
    | update => exact Or.inr (hsingle call hcall)
    | delete => exact Or.inr (hsingle call hcall)
    | insert => exact Or.inr (hsingle call hcall)

/-- Every call is on a packet of the chain, and makes the accesses of the decoder of its type. -/
theorem trace_of_mem_decodeBatch {position : ℕ} {packets : List TdhsPacket}
    (hcall : call ∈ (decodeBatch env position packets).calls) :
    call.packet ∈ packets ∧ call.trace = callTrace env call.packet := by
  induction packets generalizing position call with
  | nil => exact absurd hcall List.not_mem_nil
  | cons packet packets ih =>
    have hfirst : ∀ call ∈ (decodeCall env position packet
        (decodeBatch env (position + 1) packets)).calls,
        call.packet ∈ packet :: packets ∧ call.trace = callTrace env call.packet := by
      intro call hcall
      rcases trace_of_mem_decodeCall hcall with hrest | ⟨hpacket, htrace⟩
      · exact ⟨List.mem_cons_of_mem _ (ih hrest).1, (ih hrest).2⟩
      · rw [hpacket]
        exact ⟨List.mem_cons_self, htrace⟩
    unfold decodeBatch at hcall
    dsimp only at hcall
    split_ifs at hcall
    · exact hfirst call hcall
    · rcases List.mem_append.mp hcall with hhead | hrest
      · exact hfirst call hhead
      · exact ⟨List.mem_cons_of_mem _ (ih hrest).1, (ih hrest).2⟩

theorem trace_of_mem_decodeRequest {chain : PacketChain}
    (hcall : call ∈ (decodeRequest env chain).calls) :
    call.packet ∈ chain.packet :: chain.next ∧ call.trace = callTrace env call.packet := by
  rcases trace_of_mem_decodeCall hcall with hrest | ⟨hpacket, htrace⟩
  · exact ⟨List.mem_cons_of_mem _ (trace_of_mem_decodeBatch hrest).1,
      (trace_of_mem_decodeBatch hrest).2⟩
  · rw [hpacket]
    exact ⟨List.mem_cons_self, htrace⟩

/-- The accesses of a call are inside exactly when the payload fits its request type. Assumes: the
length of the packet is that of its payload. -/
theorem callTrace_inside_iff (env : DecodeEnv) (packet : TdhsPacket)
    (hlength : packet.length = packet.rdata.length) :
    (∀ access ∈ callTrace env packet, access.Inside Place.InArray packet.rdata.length) ↔
      ∀ type, requestTypeOf packet.commandIdOrResponseCode = some type →
        Fits env.version env.pool packet.rdata type := by
  unfold callTrace
  cases htype : requestTypeOf packet.commandIdOrResponseCode with
  | none => simp
  | some type =>
    have hsafe := safeOn_decoderOf (fun _ hplace ↦ hplace) safeOn_readKey env.version env.pool
      env.stray type packet.rdata
    unfold SafeOn runOn at hsafe
    rw [List.nil_append, List.length_nil, ← hlength] at hsafe
    simp only [runDecoder, Option.some.injEq, forall_eq']
    rw [← hlength]
    exact hsafe

/-! ### Shaking hands -/

theorem safe_readCodes : Safe Place.InArray readCodes := by
  have hcode : Safe Place.InArray (readString none) := safe_readString fun _ hnone ↦ by cases hnone
  exact Safe.bind (reads_readString none) hcode fun _ ↦
    Safe.bind (reads_readString none) hcode fun _ ↦ safe_pure _ _

section

variable (authRead authWrite : TdhsString → Bool) (context : ConnectionContext)
  (packet : TdhsPacket) (hlength : packet.length = packet.rdata.length)

include hlength

/-- Assumes: the payload holds at least the fixed part. The reads of the authentication are inside.
-/
theorem authenticate_inside
    (henough : shakeHandsTotalSize ≤ packet.rdata.length) :
    ∀ access ∈ (authenticate authRead authWrite context packet).trace,
      access.Inside Place.InArray packet.rdata.length := by
  have htwelve : 12 ≤ packet.rdata.length := henough
  have hcodes : ∀ access ∈ (readCodes packet.rdata
      ⟨shakeHandsTotalSize, packet.length - shakeHandsTotalSize⟩).trace,
      access.Inside Place.InArray packet.rdata.length := by
    have hsafe := safe_readCodes (packet.rdata.take shakeHandsTotalSize)
      (packet.rdata.drop shakeHandsTotalSize)
    unfold SafeOn runOn at hsafe
    rw [List.take_append_drop, List.length_take, Nat.min_eq_left henough,
      List.length_drop] at hsafe
    rw [hlength]
    exact hsafe
  have htrace : (authenticate authRead authWrite context packet).trace =
      .read 0 4 :: .read 4 4 :: .read 8 4 :: (readCodes packet.rdata
        ⟨shakeHandsTotalSize, packet.length - shakeHandsTotalSize⟩).trace := by
    unfold authenticate
    dsimp only
    split <;> rfl
  intro access haccess
  simp only [htrace, List.mem_cons] at haccess
  rcases haccess with rfl | rfl | rfl | hcode
  · exact (by norm_num : 0 + 4 ≤ 12).trans htwelve
  · exact (by norm_num : 4 + 4 ≤ 12).trans htwelve
  · exact htwelve
  · exact hcodes access hcode

/-- `shake_hands_if` reads inside the payload exactly when it has nothing to do or the payload holds
the fixed part. Assumes: the length of the packet is that of its payload. -/
theorem shakeHandsIf_inside_iff :
    (∀ access ∈ (shakeHandsIf authRead authWrite context packet).trace,
      access.Inside Place.InArray packet.rdata.length) ↔
      (context.isShaked = true ∨ shakeHandsTotalSize ≤ packet.rdata.length) := by
  by_cases hshaked : context.isShaked = true
  · refine iff_of_true ?_ (Or.inl hshaked)
    intro access haccess
    rw [shakeHandsIf, if_pos hshaked] at haccess
    exact absurd haccess List.not_mem_nil
  · by_cases henough : shakeHandsTotalSize ≤ packet.rdata.length
    · have htwelve : 12 ≤ packet.rdata.length := henough
      have hfour : 0 + 4 ≤ packet.rdata.length := (by norm_num : 0 + 4 ≤ 12).trans htwelve
      have height : 4 + 4 ≤ packet.rdata.length := (by norm_num : 4 + 4 ≤ 12).trans htwelve
      have hall : 0 + shakeHandsTotalSize ≤ packet.rdata.length := by
        exact henough
      refine iff_of_true ?_ (Or.inr henough)
      unfold shakeHandsIf
      dsimp only
      split_ifs
      · simp only [List.mem_singleton, forall_eq]
        exact hall
      · simp only [List.mem_cons, List.not_mem_nil, or_false, forall_eq_or_imp, forall_eq]
        exact ⟨hfour, hall⟩
      · simp only [List.mem_cons, List.not_mem_nil, or_false, forall_eq_or_imp, forall_eq]
        exact ⟨hfour, height⟩
      · split
        · simp only [List.mem_cons, List.not_mem_nil, or_false, forall_eq_or_imp, forall_eq]
          exact ⟨hfour, height⟩
        · exact authenticate_inside authRead authWrite _ packet hlength henough
    · refine iff_of_false ?_ (not_or.mpr ⟨hshaked, henough⟩)
      have hshort : packet.commandIdOrResponseCode ≠ requestTypeShakeHands ∨
          packet.length < shakeHandsTotalSize := Or.inr (hlength ▸ not_le.mp henough)
      intro hall
      rw [shakeHandsIf, if_neg hshaked, if_pos hshort] at hall
      have hcopy := hall (.read 0 shakeHandsTotalSize) (List.mem_singleton.mpr rfl)
      exact henough hcopy

end

/-! ### All accesses -/

/-- For every chain that `tdhs_decode` hands over. `shake_hands_if` reads inside the payload if and
only if the connection is already shaken or the payload has twelve bytes. Each call of a decoder
reads inside its payload and stores inside its arrays if and only if no key of the payload
overruns. -/
theorem accesses_inside_iff (pool : EasyPool) (input rest : List UInt8) (chain : PacketChain)
    (hdecoded : (tdhsDecode pool input).answer = .packet chain rest) :
    (∀ (authRead authWrite : TdhsString → Bool) (context : ConnectionContext),
      (∀ access ∈ (shakeHandsIf authRead authWrite context chain.packet).trace,
        access.Inside Place.InArray chain.packet.rdata.length) ↔
        (context.isShaked = true ∨ shakeHandsTotalSize ≤ chain.packet.rdata.length)) ∧
    (∀ (env : DecodeEnv) (call : Call), call ∈ (decodeRequest env chain).calls →
      ((∀ access ∈ call.trace, access.Inside Place.InArray call.packet.rdata.length) ↔
        ∀ type, requestTypeOf call.packet.commandIdOrResponseCode = some type →
          Fits env.version env.pool call.packet.rdata type)) := by
  have hlength := length_of_tdhsDecode hdecoded
  constructor
  · intro authRead authWrite context
    exact shakeHandsIf_inside_iff authRead authWrite context chain.packet
      (hlength _ List.mem_cons_self)
  · intro env call hcall
    obtain ⟨hmem, htrace⟩ := trace_of_mem_decodeRequest hcall
    rw [htrace]
    exact callTrace_inside_iff env call.packet (hlength _ hmem)

/-- The bytes of a frame with a command and a payload, the other words zero. -/
def plainFrame (command : ℕ) (payload : List UInt8) : List UInt8 :=
  encodeHeader Frame.magicBytes ⟨command, 0, 0, payload.length⟩ ++ payload

/-- The string `a` with its length in front. -/
def letterBytes : List UInt8 := [0, 0, 0, 2, 97, 0]

/-- A GET with one field and one key, where the key has a number of parts. -/
def manyPartsPayload (parts : ℕ) : List UInt8 :=
  letterBytes ++ letterBytes ++ [0, 0, 0, 0] ++ [0, 0, 0, 1] ++ letterBytes ++ [0, 0, 0, 1] ++
    BigEndian.toBytes parts ++ (List.replicate parts letterBytes).flatten ++
    [0] ++ [0, 0, 0, 0] ++ [0, 0, 0, 0] ++ [0, 0, 0, 0]

/-- The packet of a frame. -/
def plainPacket (command : ℕ) (payload : List UInt8) : TdhsPacket :=
  ⟨command, 0, 0, payload.length, payload⟩

/-- A context in which nothing was received yet. -/
def freshContext : ConnectionContext := ⟨false, none, 0, false, false⟩

/-- The eleventh part of a key is stored behind the ten elements of `key`, and of an empty first
frame twelve bytes are copied. -/
theorem eleventh_part_and_empty_shake :
    ((tdhsDecode roomyPool (plainFrame 0 (manyPartsPayload 11))).answer =
        .packet ⟨plainPacket 0 (manyPartsPayload 11), []⟩ [] ∧
      ((decodeRequest ⟨binary, roomyPool, fun _ ↦ 0⟩
        ⟨plainPacket 0 (manyPartsPayload 11), []⟩).calls.flatMap Call.trace).contains
          (.store ⟨.key, 10, 10⟩) = true ∧ ¬ Place.InArray ⟨.key, 10, 10⟩) ∧
    ((tdhsDecode roomyPool (plainFrame 0 [])).answer = .packet ⟨plainPacket 0 [], []⟩ [] ∧
      (shakeHandsIf (fun _ ↦ true) (fun _ ↦ true) freshContext (plainPacket 0 [])).trace =
        [.read 0 12] ∧ ¬ (Access.read 0 12 : Access Place).Inside Place.InArray 0) := by
  refine ⟨⟨by decide +kernel, by decide +kernel, ?_⟩, by decide +kernel, by decide +kernel, ?_⟩
  · exact lt_irrefl 10
  · exact Nat.not_succ_le_zero 11

/-- The theorem on the frame of a GET whose key has one part. -/
theorem accesses_inside_iff_one_part :
    (∀ (authRead authWrite : TdhsString → Bool) (context : ConnectionContext),
      (∀ access ∈ (shakeHandsIf authRead authWrite context
          (plainPacket 0 (manyPartsPayload 1))).trace,
        access.Inside Place.InArray (manyPartsPayload 1).length) ↔
        (context.isShaked = true ∨ shakeHandsTotalSize ≤ (manyPartsPayload 1).length)) ∧
    (∀ (env : DecodeEnv) (call : Call),
      call ∈ (decodeRequest env ⟨plainPacket 0 (manyPartsPayload 1), []⟩).calls →
      ((∀ access ∈ call.trace, access.Inside Place.InArray call.packet.rdata.length) ↔
        ∀ type, requestTypeOf call.packet.commandIdOrResponseCode = some type →
          Fits env.version env.pool call.packet.rdata type)) :=
  accesses_inside_iff roomyPool (plainFrame 0 (manyPartsPayload 1)) []
    ⟨plainPacket 0 (manyPartsPayload 1), []⟩ (by decide +kernel)

end TdhSocket.Decode
