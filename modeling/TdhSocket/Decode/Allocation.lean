import TdhSocket.Decode.Safety
import TdhSocket.Protocol.Frames

/-!
# Blocks that are too short

The two allocations whose size comes from the wire: the packets of a BATCH frame and the keys of a
version 2 request. Both products are reduced to a `uint32_t` on the way to the pool, and the loops
that fill the blocks are bounded by the payload. `blocks_hold_iff` says which payloads make them
write behind the block: the true size is 4 GiB or more, and the payload has as many complete
elements as the block has room for.
-/

set_option autoImplicit false

namespace TdhSocket.Decode

open Protocol Library Library.Reader

/-! ### Packets -/

section

variable {pool : EasyPool} {input : List UInt8} {room : ℕ}
  (hblock : (tdhsDecode pool input).block = some (some room))

include hblock

theorem tdhsDecode_of_block :
    easyPoolCalloc pool (packetBlockSize (batchRequestNum (getHeaderInfo input))) = some room ∧
      (tdhsDecode pool input).written =
        1 + (batchLoop (batchRequestNum (getHeaderInfo input))
          (headPacket input).rdata).packets.length
    := by
  unfold tdhsDecode at hblock ⊢
  split_ifs at hblock ⊢ with hshort hmagic hlong hmissing
  unfold decodeFrame at hblock ⊢
  cases hroom : easyPoolCalloc pool (packetBlockSize (batchRequestNum (getHeaderInfo input))) with
  | none =>
    rw [hroom] at hblock
    cases hblock
  | some actual =>
    rw [hroom] at hblock
    simp only [fillPackets] at hblock ⊢
    split_ifs at hblock ⊢ with hcomplete
    · cases hblock
      exact ⟨rfl, rfl⟩
    · cases hblock
      exact ⟨rfl, rfl⟩

/-- The packets of a frame fit the block of `tdhs_decode` exactly when the expected ones take less
than 4 GiB or the payload has fewer sub-frames than the block has room for packets. Assumes: the
block was allocated. -/
theorem written_le_block_iff :
    sizeofTdhsPacket * (tdhsDecode pool input).written ≤ room ↔
      (sizeofTdhsPacket * (1 + batchRequestNum (getHeaderInfo input)) < 2 ^ 32 ∨
        ¬ StartsWithSubFrames (room / sizeofTdhsPacket) (headPacket input).rdata) := by
  obtain ⟨hroom, hwritten⟩ := tdhsDecode_of_block hblock
  have hcount : batchRequestNum (getHeaderInfo input) < 2 ^ 32 := by
    unfold batchRequestNum
    split_ifs
    · exact BigEndian.ofBytes_lt _
    · norm_num
  have hpositive : 0 < sizeofTdhsPacket := by
    rw [sizeofTdhsPacket_eq]
    norm_num
  have hloop : (batchLoop (batchRequestNum (getHeaderInfo input))
      (headPacket input).rdata).packets.length ≤ batchRequestNum (getHeaderInfo input) :=
    length_batchLoop_le _ _
  rw [hwritten]
  by_cases hfits : sizeofTdhsPacket * (1 + batchRequestNum (getHeaderInfo input)) < 2 ^ 32
  · refine iff_of_true ?_ (Or.inl hfits)
    refine le_trans (Nat.mul_le_mul_left _ ?_) ((le_packetBlock_iff hcount hroom).mpr hfits)
    exact Nat.add_le_add_left hloop 1
  · have hshort : room / sizeofTdhsPacket ≤ batchRequestNum (getHeaderInfo input) := by
      have hlt : room < sizeofTdhsPacket * (1 + batchRequestNum (getHeaderInfo input)) :=
        not_le.mp fun hle ↦ hfits ((le_packetBlock_iff hcount hroom).mp hle)
      rw [Nat.mul_comm] at hlt
      have hdivision := (Nat.div_lt_iff_lt_mul hpositive).mpr hlt
      omega
    rw [startsWithSubFrames_iff _ _ _ hshort, or_iff_right hfits, not_le,
      Nat.mul_comm, ← Nat.le_div_iff_mul_le hpositive]
    omega

end

/-! ### Keys -/

/-- An element of the key array, or of any other array. -/
def KeyInArray (place : Place) : Prop := place.array = .keys → place.InArray

/-- Key number `i` is to be kept and the key array has no such element. -/
def KeyBeyond (keyArray : KeyArray) (i : ℕ) (bytes : List UInt8) : Prop :=
  4 ≤ bytes.length ∧ i < keyArray.inLimit ∧ keyArray.capacity ≤ i

theorem safeOn_readKey_keyInArray (keyArray : KeyArray) (i : ℕ) (before rest : List UInt8) :
    SafeOn KeyInArray (readKey keyArray i) before rest ↔ ¬ KeyBeyond keyArray i rest := by
  have hparts : ∀ keyFieldNum, Safe KeyInArray
      (repeatFrom (fun j ↦ readString (some ⟨.key, j, requestMaxKeyNum⟩)) 0 keyFieldNum >>=
        fun key ↦ pure (⟨keyFieldNum, key⟩ : TdhsGetKey)) := fun keyFieldNum ↦
    Safe.bind (Reads.repeatFrom (fun j ↦ reads_readString _) keyFieldNum)
      (Safe.repeatFrom (fun j ↦ reads_readString _) (fun j ↦ safe_readString fun place hplace ↦ by
        cases hplace
        exact fun harray ↦ by cases harray) 0 keyFieldNum) fun key ↦ safe_pure _ _
  have hkeys : KeyInArray ⟨.keys, i, keyArray.capacity⟩ ↔ i < keyArray.capacity :=
    forall_prop_of_true rfl
  unfold readKey
  rw [safeOn_bind_right recognises_readUint32 safe_readUint32]
  simp only [safeOn_bind_left (recognises_storeTo _) fun _ ↦ hparts _, safeOn_storeKey hkeys]
  constructor
  · rintro hall ⟨hlength, hbeyond⟩
    exact hall _ _ (rest.drop 4) ⟨BigEndian.ofBytes_lt rest, rfl⟩
      (BigEndian.toBytes_ofBytes_append_drop rest hlength).symm hbeyond
  · rintro hnone keyFieldNum word tail ⟨-, rfl⟩ rfl hbeyond
    refine hnone ⟨?_, hbeyond⟩
    rw [List.length_append, BigEndian.length_toBytes]
    omega

/-- A version 2 get part whose keys go behind their block: more than ten keys that would take 4 GiB
or more, a block of the pool, as many complete keys as it has room for, and the number of parts of
one more. -/
def KeysWrap (pool : EasyPool) (needField : Bool) (payload : List UInt8) : Prop :=
  ∃ (tableInfo : WireTable) (keyNum room : ℕ) (keys : List WireKey) (tail : List UInt8),
    tableInfo.Valid needField ∧ keyNum < 2 ^ 32 ∧ requestMaxInNum < keyNum ∧
    easyPoolCalloc pool (sizeofTdhsGetKey * keyNum) = some room ∧
    2 ^ 32 ≤ sizeofTdhsGetKey * keyNum ∧ keys.length = room / sizeofTdhsGetKey ∧
    payload = tableInfo.encode ++ (BigEndian.toBytes keyNum ++
      (keys.flatMap WireKey.encode ++ tail)) ∧ 4 ≤ tail.length

theorem hasFault_keyBeyond_iff (pool : EasyPool) (needField : Bool) (payload : List UInt8) :
    HasFault KeyBeyond binaryV2 pool needField payload ↔ KeysWrap pool needField payload := by
  have hpositive : 0 < sizeofTdhsGetKey := by
    rw [sizeofTdhsGetKey_eq]
    norm_num
  have height : ∀ keyNum, 8 ∣ sizeofTdhsGetKey * keyNum := fun keyNum ↦
    Dvd.dvd.mul_right (by rw [sizeofTdhsGetKey_eq]; norm_num) _
  have hrKeys : ∀ (i : ℕ) (bytes : List UInt8), ¬ KeyBeyond rKeys i bytes := by
    rintro i bytes ⟨-, hkept, hbeyond⟩
    exact absurd hkept (not_lt.mpr hbeyond)
  constructor
  · rintro ⟨tableInfo, keyNum, keys, tail, hvalid, hlt, hcount, rfl, hbeyond⟩
    change KeyBeyond (chooseKeysV2 pool keyNum) keys.length tail at hbeyond
    unfold chooseKeysV2 at hbeyond
    split_ifs at hbeyond with hfew
    · exact absurd hbeyond (hrKeys _ _)
    · cases hroom : easyPoolCalloc pool (sizeofTdhsGetKey * keyNum) with
      | none =>
        rw [hroom] at hbeyond
        exact absurd hbeyond (hrKeys _ _)
      | some room =>
        rw [hroom] at hbeyond
        obtain ⟨hlength, -, hcapacity⟩ := hbeyond
        refine ⟨tableInfo, keyNum, room, keys.take (room / sizeofTdhsGetKey),
          (keys.drop (room / sizeofTdhsGetKey)).flatMap WireKey.encode ++ tail, hvalid, hlt,
          not_le.mp hfew, hroom, ?_, ?_, ?_, ?_⟩
        · rw [← not_lt, ← le_easyPoolCalloc_iff (height keyNum) hroom, Nat.mul_comm,
            ← Nat.le_div_iff_mul_le hpositive, not_le]
          exact lt_of_le_of_lt hcapacity hcount
        · rw [List.length_take, Nat.min_eq_left hcapacity]
        · rw [← List.append_assoc (List.flatMap _ _), ← List.flatMap_append, List.take_append_drop]
        · rw [List.length_append]
          omega
  · rintro ⟨tableInfo, keyNum, room, keys, tail, hvalid, hlt, hmany, hroom, hlarge, hlength, rfl,
      htail⟩
    have hshort : room / sizeofTdhsGetKey < keyNum := by
      rw [Nat.div_lt_iff_lt_mul hpositive, Nat.mul_comm, ← not_le,
        le_easyPoolCalloc_iff (height keyNum) hroom]
      exact not_lt.mpr hlarge
    have harray : chooseKeysV2 pool keyNum = ⟨room / sizeofTdhsGetKey, keyNum⟩ := by
      unfold chooseKeysV2
      rw [if_neg (not_le.mpr hmany), hroom]
    refine ⟨tableInfo, keyNum, keys, tail, hvalid, hlt, hlength ▸ hshort, rfl, ?_⟩
    change KeyBeyond (chooseKeysV2 pool keyNum) keys.length tail
    rw [harray]
    exact ⟨htail, hlength ▸ hshort, hlength.ge⟩

/-! ### Both blocks -/

theorem safe_readKey_reads (keyArray : KeyArray) (i : ℕ) :
    Safe (fun _ ↦ True) (readKey keyArray i) := by
  have hstore : ∀ place, Safe (fun _ ↦ True) (storeTo place) := by
    intro place
    cases place with
    | none => exact safe_pure _ ()
    | some place => exact safe_store trivial
  exact Safe.bind recognises_readUint32 safe_readUint32 fun keyFieldNum ↦
    Safe.bind (recognises_storeTo _) (hstore _) fun _ ↦
      Safe.bind (Reads.repeatFrom (fun j ↦ reads_readString _) keyFieldNum)
        (Safe.repeatFrom (fun j ↦ reads_readString _)
          (fun j ↦ safe_readString fun _ _ ↦ trivial) 0 keyFieldNum) fun key ↦ safe_pure _ _

/-- The key stores of the version 2 decoder stay inside the key array exactly on the payloads whose
keys do not go behind their block. -/
theorem keyStores_iff (pool : EasyPool) (stray : ℕ → ℕ) (type : RequestType)
    (payload : List UInt8) :
    (∀ place : Place,
      .store place ∈ (runOn (decoderOf binaryV2 pool stray type) [] payload).trace →
        KeyInArray place) ↔
      ∀ needField, needFieldOf type = some needField → ¬ KeysWrap pool needField payload := by
  have hreads : SafeOn (fun _ ↦ True) (decoderOf binaryV2 pool stray type) [] payload :=
    (safeOn_decoderOf (fun _ _ ↦ trivial)
      (fun keyArray i before rest ↦ iff_of_true (safe_readKey_reads keyArray i before rest) id)
      binaryV2 pool stray type payload).mpr fun _ _ ⟨_, _, _, _, _, _, _, _, hfalse⟩ ↦ hfalse
  have hallowed : ∀ place : Place, place.InArray → KeyInArray place := fun _ hplace _ ↦ hplace
  have hstores := safeOn_decoderOf hallowed safeOn_readKey_keyInArray binaryV2 pool stray type
    payload
  simp only [FaultFree, hasFault_keyBeyond_iff] at hstores
  rw [← hstores]
  constructor
  · intro hall access haccess
    cases access with
    | read offset count => exact hreads _ haccess
    | store place => exact hall place haccess
  · intro hsafe place hplace
    exact hsafe _ hplace

/-- The block of `tdhs_decode` has room for every packet it writes exactly when the expected
packets take less than 4 GiB or the payload does not begin with as many sub-frames as the block has
room for packets. The block of the version 2 decoder has room for every key it stores exactly when
the payload is not one of those whose keys go behind it. -/
theorem blocks_hold_iff (pool : EasyPool) :
    (∀ (input : List UInt8) (room : ℕ), (getHeaderInfo input).command = requestTypeBatch →
      (tdhsDecode pool input).block = some (some room) →
      (sizeofTdhsPacket * (tdhsDecode pool input).written ≤ room ↔
        (sizeofTdhsPacket * (1 + (getHeaderInfo input).reverse) < 2 ^ 32 ∨
          ¬ StartsWithSubFrames (room / sizeofTdhsPacket) (headPacket input).rdata))) ∧
    (∀ (stray : ℕ → ℕ) (type : RequestType) (payload : List UInt8),
      (∀ place : Place,
        .store place ∈ (runOn (decoderOf binaryV2 pool stray type) [] payload).trace →
          place.array = .keys → place.InArray) ↔
      ∀ needField, needFieldOf type = some needField → ¬ KeysWrap pool needField payload) := by
  refine ⟨?_, keyStores_iff pool⟩
  intro input room hbatch hblock
  have hcount : batchRequestNum (getHeaderInfo input) = (getHeaderInfo input).reverse :=
    if_pos hbatch
  rw [written_le_block_iff hblock, hcount]

/-- The bytes of a BATCH frame with an empty payload that announces a number of sub-frames. -/
def emptyBatch (count : ℕ) : List UInt8 :=
  encodeHeader Frame.magicBytes ⟨requestTypeBatch, 0, count, 0⟩

/-- A DELETE that announces a number of keys and breaks off behind the first number of parts. -/
def announcedKeys (keyNum : ℕ) : List UInt8 :=
  [0, 0, 0, 2, 97, 0] ++ [0, 0, 0, 2, 97, 0] ++ [0, 0, 0, 0] ++ [0, 0, 0, 0] ++
    BigEndian.toBytes keyNum ++ [0, 0, 0, 1]

/-- With `2 ^ 29` packets or keys the product is a multiple of `2 ^ 32`: the block is empty, and the
first packet, or the first key, is written behind it. -/
theorem empty_block_written :
    ((tdhsDecode roomyPool (emptyBatch (2 ^ 29 - 1))).block = some (some 0) ∧
      ¬ sizeofTdhsPacket * (tdhsDecode roomyPool (emptyBatch (2 ^ 29 - 1))).written ≤ 0) ∧
    ((runOn (decoderOf binaryV2 roomyPool (fun _ ↦ 0) .delete) []
      (announcedKeys (2 ^ 29))).trace.contains (.store ⟨.keys, 0, 0⟩) = true ∧
      ¬ Place.InArray ⟨.keys, 0, 0⟩) := by
  refine ⟨⟨by decide +kernel, by decide +kernel⟩, by decide +kernel, ?_⟩
  exact lt_irrefl 0

/-- The theorem on a BATCH frame with two sub-frames and a DELETE with an allocated key array. -/
theorem blocks_hold_iff_batch :
    ((tdhsDecode roomyPool (Frame.twoRequests _ rfl).encode).written = 3 ∧
      sizeofTdhsPacket * (tdhsDecode roomyPool (Frame.twoRequests _ rfl).encode).written ≤ 67576) ∧
    (.store ⟨.keys, 0, 11⟩ ∈ (runOn (decoderOf binaryV2 roomyPool (fun _ ↦ 0) .delete) []
      (announcedKeys 11)).trace ∧
    ((∀ place : Place,
      .store place ∈ (runOn (decoderOf binaryV2 roomyPool (fun _ ↦ 0) .delete) []
        (announcedKeys 11)).trace → place.array = .keys → place.InArray) ↔
      ∀ needField, needFieldOf .delete = some needField →
        ¬ KeysWrap roomyPool needField (announcedKeys 11))) := by
  have hblock : (tdhsDecode roomyPool (Frame.twoRequests _ rfl).encode).block =
      some (some 67576) := by decide +kernel
  refine ⟨⟨by decide +kernel, ?_⟩, by decide +kernel, (blocks_hold_iff roomyPool).2 _ _ _⟩
  exact ((blocks_hold_iff roomyPool).1 _ _ (by decide +kernel) hblock).mpr
    (Or.inl (by decide +kernel))

end TdhSocket.Decode
