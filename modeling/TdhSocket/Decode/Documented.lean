import TdhSocket.Decode.Batch

/-!
# The documented grammar

What the protocol description asks of a request, next to what the version 2 decoder checks.
`IsDocumented` has the rules of the description, `Fits` says that the counts of a request fit the
arrays of `tdhs_request_t` and that the key array was allocated with its whole size. Of a request
whose elements are all stored nothing is dropped (`WireRequest.request_eq`), and the checks of the
decoder are the documented rules (`WireRequest.valid_iff`).

`binaryV2_accepts_documented` is the result for `decode_request_by_binary_v2`: a payload whose
counts fit is accepted exactly when it is, as a whole, the encoding of a documented request.
-/

set_option autoImplicit false

namespace TdhSocket.Decode

open Protocol Library Library.Reader

/-! ### Rules of the description -/

/-- The table information has a database, a table and, where it is needed, a field. -/
structure WireTable.IsDocumented (needField : Bool) (wire : WireTable) : Prop where
  db_ne : wire.db.bytes ≠ []
  table_ne : wire.table.bytes ≠ []
  fields_ne : needField = true → wire.fields ≠ []

/-- The get part has a key, no key is empty, and the flags are those of the description. -/
structure WireGet.IsDocumented (needField : Bool) (wire : WireGet) : Prop where
  tableInfo : wire.tableInfo.IsDocumented needField
  keys_ne : wire.keys ≠ []
  parts_ne : ∀ key ∈ wire.keys, key.parts ≠ []
  findFlag_lt : wire.range.findFlag.toNat < readEnd
  between : wire.range.findFlag.toNat = tdhsBetween → 2 ≤ wire.keys.length
  filterFlag_lt : ∀ filter ∈ wire.filters.filters, filter.flag.toNat < filterFlagEnd

/-- There is a value for each field, with an update flag of the description. -/
structure WireValues.IsDocumented (fieldNum : ℕ) (wire : WireValues) : Prop where
  length_eq : wire.values.length = fieldNum
  flag_lt : ∀ value ∈ wire.values, value.flag.toNat < updateFlagEnd

/-- The request follows the description of its type. -/
def WireRequest.IsDocumented : WireRequest → Prop
  | .get part => part.IsDocumented true
  | .count part => part.IsDocumented false
  | .update part values =>
    part.IsDocumented true ∧ values.IsDocumented part.tableInfo.fields.length
  | .delete part => part.IsDocumented false
  | .insert tableInfo values =>
    tableInfo.IsDocumented false ∧ values.IsDocumented tableInfo.fields.length

/-! ### Counts that fit -/

/-- The version 2 decoder has an array for that many keys: the ten elements of `r_keys`, or a block
of the pool that holds them all. -/
def HoldsKeys (pool : EasyPool) (keyNum : ℕ) : Prop :=
  requestMaxInNum < keyNum → ∃ room,
    easyPoolCalloc pool (sizeofTdhsGetKey * keyNum) = some room ∧ sizeofTdhsGetKey * keyNum ≤ room

/-- The counts of a get part fit the arrays. -/
structure WireGet.Fits (pool : EasyPool) (wire : WireGet) : Prop where
  fields_le : wire.tableInfo.fields.length ≤ requestMaxFieldNum
  parts_le : ∀ key ∈ wire.keys, key.parts.length ≤ requestMaxKeyNum
  filters_le : wire.filters.filters.length ≤ requestMaxFieldNum
  holdsKeys : HoldsKeys pool wire.keys.length

/-- The counts of a request fit the arrays. -/
def WireRequest.Fits (pool : EasyPool) : WireRequest → Prop
  | .get part => part.Fits pool
  | .count part => part.Fits pool
  | .update part values => part.Fits pool ∧ values.values.length ≤ requestMaxFieldNum
  | .delete part => part.Fits pool
  | .insert tableInfo values =>
    tableInfo.fields.length ≤ requestMaxFieldNum ∧ values.values.length ≤ requestMaxFieldNum

/-- Read as the layout of a request type, whatever else is wrong with it, the payload has counts
that fit the arrays. -/
def CountsFit (pool : EasyPool) (type : RequestType) (payload : List UInt8) : Prop :=
  ∀ wire : WireRequest, wire.type = type → payload = wire.encode → wire.Fits pool

/-- The decoder of a version stores every element of the arrays of a get part. -/
structure WireGet.Stored (version : Version) (pool : EasyPool) (wire : WireGet) : Prop where
  fields_le : wire.tableInfo.fields.length ≤ requestMaxFieldNum
  filters_le : wire.filters.filters.length ≤ requestMaxFieldNum
  keys_le : wire.keys.length ≤ (version.chooseKeys pool wire.keys.length).inLimit

/-- The decoder of a version stores every element of the arrays of a request. -/
def WireRequest.Stored (version : Version) (pool : EasyPool) : WireRequest → Prop
  | .get part => part.Stored version pool
  | .count part => part.Stored version pool
  | .update part values =>
    part.Stored version pool ∧ values.values.length ≤ requestMaxFieldNum
  | .delete part => part.Stored version pool
  | .insert tableInfo values =>
    tableInfo.fields.length ≤ requestMaxFieldNum ∧ values.values.length ≤ requestMaxFieldNum

variable {pool : EasyPool} {version : Version} {stray : ℕ → ℕ}

/-- The key array of version 2 takes every key it was allocated for. -/
theorem le_inLimit_chooseKeysV2 {keyNum : ℕ} (hholds : HoldsKeys pool keyNum) :
    keyNum ≤ (chooseKeysV2 pool keyNum).inLimit := by
  unfold chooseKeysV2
  split_ifs with hfew
  · exact hfew
  · obtain ⟨room, hroom, -⟩ := hholds (not_le.mp hfew)
    rw [hroom]

variable {wire : WireGet} {needField : Bool} {Wire : Type} {env : DecodeEnv}

theorem WireGet.Fits.stored (hfits : wire.Fits pool) :
    wire.Stored binaryV2 pool :=
  ⟨hfits.fields_le, hfits.filters_le, le_inLimit_chooseKeysV2 hfits.holdsKeys⟩

theorem WireRequest.Fits.stored {wire : WireRequest} (hfits : wire.Fits pool) :
    wire.Stored binaryV2 pool := by
  cases wire with
  | get part => exact WireGet.Fits.stored hfits
  | count part => exact WireGet.Fits.stored hfits
  | update part values => exact ⟨WireGet.Fits.stored hfits.1, hfits.2⟩
  | delete part => exact WireGet.Fits.stored hfits
  | insert tableInfo values => exact hfits

/-! ### Decoded requests -/

/-- The table information as the encoded request has it. -/
def WireTable.decoded (wire : WireTable) : TdhsRequestTable :=
  ⟨wire.fields.length, wire.db.bytes, wire.table.bytes, wire.index.orPrimary,
    wire.fields.map WireString.bytes⟩

/-- The get part as the encoded request has it, in a key array. -/
def WireGet.decoded (keyArray : ℕ → KeyArray) (wire : WireGet) : TdhsRequestGet :=
  ⟨wire.keys.length, keyArray wire.keys.length, wire.keys.map WireKey.request,
    .ofCode wire.range.findFlag.toNat, wire.range.start.toNat, wire.range.limit.toNat,
    ⟨wire.filters.filters.length, wire.filters.filters.map fun filter ↦ filter.raw.entry⟩⟩

/-- The values as the encoded request has them. -/
def WireValues.decoded (wire : WireValues) : TdhsRequestValues :=
  ⟨wire.values.length, wire.values.map fun value ↦ value.raw.entry⟩

/-- The request with every component as it was encoded, in a key array. -/
def WireRequest.decoded (keyArray : ℕ → KeyArray) : WireRequest → TdhsRequest
  | .get part => ⟨.get, part.tableInfo.decoded, part.decoded keyArray, zeroValues⟩
  | .count part => ⟨.count, part.tableInfo.decoded, part.decoded keyArray, zeroValues⟩
  | .update part values =>
    ⟨.update, part.tableInfo.decoded, part.decoded keyArray, values.decoded⟩
  | .delete part => ⟨.delete, part.tableInfo.decoded, part.decoded keyArray, zeroValues⟩
  | .insert tableInfo values => ⟨.insert, tableInfo.decoded, zeroGet, values.decoded⟩

/-! ### Nothing is dropped -/

theorem WireTable.request_eq {wire : WireTable}
    (hfields : wire.fields.length ≤ requestMaxFieldNum) : wire.request = wire.decoded := by
  unfold WireTable.request WireTable.decoded
  rw [List.take_of_length_le (by rwa [List.length_map])]

theorem WireValues.request_eq {wire : WireValues}
    (hvalues : wire.values.length ≤ requestMaxFieldNum) : wire.request = wire.decoded := by
  unfold WireValues.request WireValues.decoded
  rw [List.take_of_length_le (by rwa [List.length_map]), List.map_map]
  rfl

theorem WireFilters.request_eq {wire : WireFilters}
    (hfilters : wire.filters.length ≤ requestMaxFieldNum) :
    wire.request = ⟨wire.filters.length, wire.filters.map fun filter ↦ filter.raw.entry⟩ := by
  unfold WireFilters.request
  rw [List.take_of_length_le (by rwa [List.length_map]), List.map_map]
  rfl

theorem WireGet.request_eq (hstored : wire.Stored version pool) :
    wire.request version pool =
      (wire.tableInfo.decoded, wire.decoded (version.chooseKeys pool)) := by
  unfold WireGet.request WireGet.decoded WireGet.storedKeys
  rw [WireTable.request_eq hstored.fields_le, WireFilters.request_eq hstored.filters_le,
    List.take_of_length_le (by rw [List.length_map]; exact hstored.keys_le)]
  rfl

theorem WireRequest.request_eq {wire : WireRequest}
    (hstored : wire.Stored version pool) :
    wire.request version pool = wire.decoded (version.chooseKeys pool) := by
  cases wire with
  | get part => simp only [WireRequest.request, WireRequest.decoded, WireGet.request_eq hstored]
  | count part => simp only [WireRequest.request, WireRequest.decoded, WireGet.request_eq hstored]
  | update part values =>
    simp only [WireRequest.request, WireRequest.decoded, WireGet.request_eq hstored.1,
      WireValues.request_eq hstored.2]
  | delete part => simp only [WireRequest.request, WireRequest.decoded, WireGet.request_eq hstored]
  | insert tableInfo values =>
    simp only [WireRequest.request, WireRequest.decoded, WireTable.request_eq hstored.1,
      WireValues.request_eq hstored.2]

/-! ### The checks are the rules -/

theorem WireTable.valid_iff {wire : WireTable} :
    wire.Valid needField ↔ wire.IsDocumented needField := by
  have hchecks : wire.Valid needField ↔
      wire.db.bytes ≠ [] ∧ wire.table.bytes ≠ [] ∧ (needField = true → wire.fields ≠ []) := by
    simp [WireTable.Valid, isVaildTable, and_assoc, imp_iff_not_or]
  rw [hchecks]
  exact ⟨fun h ↦ ⟨h.1, h.2.1, h.2.2⟩, fun h ↦ ⟨h.db_ne, h.table_ne, h.fields_ne⟩⟩

/-- A property of the elements below a bound that holds all of them. -/
theorem forall_getElem?_iff {wires : List Wire} {bound : ℕ} {Good : Wire → Prop}
    (hbound : wires.length ≤ bound) :
    (∀ (i : ℕ) (wire : Wire), wires[i]? = some wire → i < bound → Good wire) ↔
      ∀ wire ∈ wires, Good wire := by
  constructor
  · intro hgood wire hwire
    obtain ⟨i, hi, rfl⟩ := List.mem_iff_getElem.mp hwire
    exact hgood i _ (List.getElem?_eq_getElem hi) (hi.trans_le hbound)
  · intro hgood i wire hwire _
    exact hgood wire (List.mem_of_getElem? hwire)

theorem WireValues.valid_iff {fieldNum : ℕ} {wire : WireValues}
    (hvalues : wire.values.length ≤ requestMaxFieldNum) :
    wire.Valid fieldNum ↔ wire.IsDocumented fieldNum := by
  have hflags : (∀ (i : ℕ) (value : WireValue), wire.values[i]? = some value → value.ValidAt i) ↔
      ∀ value ∈ wire.values, value.flag.toNat < updateFlagEnd := forall_getElem?_iff hvalues
  unfold WireValues.Valid
  rw [hflags]
  exact ⟨fun h ↦ ⟨h.1, h.2⟩, fun h ↦ ⟨h.length_eq, h.flag_lt⟩⟩

/-- `tdhs_request_get_t::is_vaild` over keys that were all stored. -/
theorem isVaildGet_iff {findFlag : ℕ} {keys : List WireKey} :
    isVaildGet findFlag keys.length (keys.map WireKey.request) stray = true ↔
      findFlag < readEnd ∧ keys ≠ [] ∧ ∀ key ∈ keys, key.parts ≠ [] := by
  have hkeys : (∀ i < keys.length,
      keyFieldNumAt (keys.map WireKey.request) stray i ≠ 0) ↔ ∀ key ∈ keys, key.parts ≠ [] := by
    rw [List.forall_mem_iff_getElem]
    refine forall₂_congr fun i hi ↦ ?_
    rw [keyFieldNumAt, List.getElem?_map, List.getElem?_eq_getElem hi]
    simp [WireKey.request]
  simp only [isVaildGet, Bool.and_eq_true, decide_eq_true_eq, bne_iff_ne, List.all_eq_true,
    List.mem_range, hkeys, and_assoc, List.length_eq_zero_iff, ne_eq]

/-- The checks behind the range of a get part. Assumes: the key array takes every key. -/
theorem WireGet.range_valid_iff {keyArray : KeyArray}
    (hkeys : wire.keys.length ≤ keyArray.inLimit) :
    wire.range.Valid version stray wire.keys.length keyArray (wire.storedKeys keyArray) ↔
      (wire.range.findFlag.toNat = tdhsBetween → 2 ≤ wire.keys.length) ∧
        wire.range.findFlag.toNat < readEnd ∧ wire.keys ≠ [] ∧
          ∀ key ∈ wire.keys, key.parts ≠ [] := by
  have hstored : wire.storedKeys keyArray = wire.keys.map WireKey.request :=
    List.take_of_length_le (by rwa [List.length_map])
  have hbetween : (!(decide (wire.keys.length < 2) && wire.range.findFlag.toNat == tdhsBetween)) =
      true ↔ (wire.range.findFlag.toNat = tdhsBetween → 2 ≤ wire.keys.length) := by
    rw [Bool.not_eq_true', Bool.and_eq_false_iff, decide_eq_false_iff_not, beq_eq_false_iff_ne,
      Nat.not_lt, imp_iff_not_or, or_comm]
  rw [hstored, ← hbetween, ← isVaildGet_iff]
  constructor
  · intro hvalid
    exact ⟨hvalid.between, hvalid.isVaild⟩
  · rintro ⟨hcount, hvaild⟩
    exact ⟨by simp [hkeys], hcount, hvaild⟩

theorem WireGet.valid_iff (hstored : wire.Stored version pool) :
    wire.Valid version pool stray needField ↔ wire.IsDocumented needField := by
  have hflags : wire.filters.Valid ↔
      ∀ filter ∈ wire.filters.filters, filter.flag.toNat < filterFlagEnd :=
    forall_getElem?_iff hstored.filters_le
  constructor
  · intro hvalid
    obtain ⟨hbetween, hflag, hsome, hparts⟩ :=
      (range_valid_iff hstored.keys_le).mp hvalid.range_valid
    exact ⟨WireTable.valid_iff.mp hvalid.tableInfo_valid, hsome, hparts, hflag, hbetween,
      hflags.mp hvalid.filters_valid⟩
  · intro hdocumented
    refine ⟨WireTable.valid_iff.mpr hdocumented.tableInfo, ?_,
      hflags.mpr hdocumented.filterFlag_lt⟩
    exact (range_valid_iff hstored.keys_le).mpr ⟨hdocumented.between, hdocumented.findFlag_lt,
      hdocumented.keys_ne, hdocumented.parts_ne⟩

/-- A decoder checks the documented rules. Assumes: it stores every element of the request. -/
theorem WireRequest.valid_iff {wire : WireRequest} (hstored : wire.Stored version pool) :
    wire.Valid version pool stray ↔ wire.IsDocumented := by
  cases wire with
  | get part => exact WireGet.valid_iff hstored
  | count part => exact WireGet.valid_iff hstored
  | update part values =>
    exact and_congr (WireGet.valid_iff hstored.1) (WireValues.valid_iff hstored.2)
  | delete part => exact WireGet.valid_iff hstored
  | insert tableInfo values => exact and_congr WireTable.valid_iff (WireValues.valid_iff hstored.2)

/-! ### The entry point -/

variable {type : RequestType}

/-- The entry point on a packet of a type other than BATCH. -/
theorem decodeRequest_of_type {chain : PacketChain}
    (htype : requestTypeOf chain.packet.commandIdOrResponseCode = some type)
    (hbatch : type ≠ .batch) : decodeRequest env chain = decodeSingle env 0 chain.packet type := by
  cases type with
  | batch => exact absurd rfl hbatch
  | get => simp only [decodeRequest, decodeCall, htype]
  | count => simp only [decodeRequest, decodeCall, htype]
  | update => simp only [decodeRequest, decodeCall, htype]
  | delete => simp only [decodeRequest, decodeCall, htype]
  | insert => simp only [decodeRequest, decodeCall, htype]

/-- A call of the entry point is accepted with the request its decoder returns. Assumes: the length
of the packet is that of its payload. -/
theorem decodeSingle_accepts_iff {packet : TdhsPacket} {request : TdhsRequest}
    (hlength : packet.length = packet.rdata.length) :
    ((decodeSingle env 0 packet type).ret = none ∧
        ∃ trace, (decodeSingle env 0 packet type).calls = [⟨0, packet, trace, some request⟩]) ↔
      (runOn (decoderOf env.version env.pool env.stray type) [] packet.rdata).result =
        .ok request := by
  have hrun : runDecoder (decoderOf env.version env.pool env.stray type) packet =
      runOn (decoderOf env.version env.pool env.stray type) [] packet.rdata := by
    rw [runDecoder, hlength]
    rfl
  rw [← hrun]
  cases hresult : (runDecoder (decoderOf env.version env.pool env.stray type) packet).result with
  | error code => simp [decodeSingle, hresult]
  | ok found => simp [decodeSingle, hresult]

/-- A decoder reads the encoding of a documented request as that request. Assumes: it stores every
element of the request. -/
theorem decoderOf_of_documented {payload : List UInt8} {wire : WireRequest} (hbatch : type ≠ .batch)
    (hstored : wire.Stored version pool) (hpayload : payload = wire.encode)
    (hwire : wire.type = type) (hdocumented : wire.IsDocumented) :
    (runOn (decoderOf version pool stray type) [] payload).result =
      .ok (wire.decoded (version.chooseKeys pool)) := by
  rw [← WireRequest.request_eq hstored]
  exact (decoderOf_ok_iff version pool stray hbatch _ _).mpr
    ⟨wire, hwire, (WireRequest.valid_iff hstored).mpr hdocumented, hpayload, rfl⟩

/-- `decode_request_by_binary_v2` accepts exactly the documented requests, and every component of
an accepted request is the encoded one. Assumes: the type is not BATCH, the length of the packet is
that of its payload, and the counts in the payload fit the arrays. -/
theorem binaryV2_accepts_documented (pool : EasyPool) (stray : ℕ → ℕ) (chain : PacketChain)
    (type : RequestType) (htype : requestTypeOf chain.packet.commandIdOrResponseCode = some type)
    (hbatch : type ≠ .batch) (hlength : chain.packet.length = chain.packet.rdata.length)
    (hfits : CountsFit pool type chain.packet.rdata) :
    ((decodeRequest ⟨binaryV2, pool, stray⟩ chain).ret = none ↔
      ∃ wire : WireRequest, wire.type = type ∧ wire.IsDocumented ∧
        chain.packet.rdata = wire.encode) ∧
    ∀ wire : WireRequest, wire.type = type → wire.IsDocumented → chain.packet.rdata = wire.encode →
      (decodeRequest ⟨binaryV2, pool, stray⟩ chain).ret = none ∧
      ∃ trace, (decodeRequest ⟨binaryV2, pool, stray⟩ chain).calls =
        [⟨0, chain.packet, trace, some (wire.decoded (chooseKeysV2 pool))⟩] := by
  rw [decodeRequest_of_type htype hbatch]
  have haccepts : ∀ wire : WireRequest, wire.type = type → wire.IsDocumented →
      chain.packet.rdata = wire.encode →
      (decodeSingle ⟨binaryV2, pool, stray⟩ 0 chain.packet type).ret = none ∧
      ∃ trace, (decodeSingle ⟨binaryV2, pool, stray⟩ 0 chain.packet type).calls =
        [⟨0, chain.packet, trace, some (wire.decoded (chooseKeysV2 pool))⟩] := by
    intro wire hwire hdocumented hpayload
    have hstored := (hfits wire hwire hpayload).stored
    exact (decodeSingle_accepts_iff hlength).mpr
      (decoderOf_of_documented hbatch hstored hpayload hwire hdocumented)
  refine ⟨⟨fun hret ↦ ?_, ?_⟩, haccepts⟩
  · cases hresult : (runDecoder (decoderOf binaryV2 pool stray type) chain.packet).result with
    | error code =>
      simp only [decodeSingle, hresult] at hret
      cases hret
    | ok request =>
      have hrun : (runOn (decoderOf binaryV2 pool stray type) [] chain.packet.rdata).result =
          .ok request := by
        rw [← hresult, runDecoder, hlength]
        rfl
      obtain ⟨wire, hwire, hvalid, hpayload, -⟩ :=
        (decoderOf_ok_iff binaryV2 pool stray hbatch _ _).mp hrun
      exact ⟨wire, hwire, (WireRequest.valid_iff (hfits wire hwire hpayload).stored).mp hvalid,
        hpayload⟩
  · rintro ⟨wire, hwire, hdocumented, hpayload⟩
    exact (haccepts wire hwire hdocumented hpayload).1

/-- A list takes at least the bytes its shortest elements would take. -/
theorem mul_length_le_length_flatMap {encode : Wire → List UInt8} {shortest : ℕ}
    (hencode : ∀ wire, shortest ≤ (encode wire).length) (wires : List Wire) :
    shortest * wires.length ≤ (wires.flatMap encode).length := by
  induction wires with
  | nil => exact Nat.zero_le _
  | cons wire wires ih =>
    have hwire := hencode wire
    rw [List.flatMap_cons, List.length_append, List.length_cons, Nat.mul_succ]
    omega

/-- Short payloads have counts that fit. -/
theorem countsFit_update {payload : List UInt8} (hshort : payload.length ≤ 79) :
    CountsFit roomyPool .update payload := by
  rintro wire hwire rfl
  cases wire <;> cases hwire
  rename_i part values
  have hstring : ∀ strings : List WireString,
      4 * strings.length ≤ (strings.flatMap WireString.encode).length :=
    mul_length_le_length_flatMap fun wire ↦ by rw [wire.length_encode]; omega
  have hfields := hstring part.tableInfo.fields
  have hkeys : 4 * part.keys.length ≤ (part.keys.flatMap WireKey.encode).length :=
    mul_length_le_length_flatMap (fun wire ↦ by simp [WireKey.encode]) _
  have hfilters : 1 * part.filters.filters.length ≤
      (part.filters.filters.flatMap WireFilter.encode).length :=
    mul_length_le_length_flatMap (fun wire ↦ by simp [WireFilter.encode]; omega) _
  have hvalues : 1 * values.values.length ≤ (values.values.flatMap WireValue.encode).length :=
    mul_length_le_length_flatMap (fun wire ↦ by simp [WireValue.encode]) _
  simp only [WireRequest.encode, WireGet.encode, WireTable.encode, WireRange.encode,
    WireFilters.encode, WireValues.encode, WireString.length_encode, List.length_append,
    BigEndian.length_toBytes, List.length_singleton] at hshort
  unfold WireRequest.Fits
  refine ⟨⟨?_, fun key hkey ↦ ?_, ?_, fun hmany ↦ ?_⟩, ?_⟩ <;>
    simp only [requestMaxInNum, requestMaxFieldNum, requestMaxKeyNum] at *
  · omega
  · obtain ⟨front, back, hsplit⟩ := List.append_of_mem hkey
    have hparts := hstring key.parts
    rw [hsplit, List.flatMap_append, List.flatMap_cons, WireKey.encode] at hshort
    simp only [List.length_append, BigEndian.length_toBytes] at hshort
    omega
  · omega
  · omega
  · omega

/-- A text of one letter. -/
def letter (byte : UInt8) : WireString := ⟨[byte, 0], by simp, rfl⟩

/-- The field `v` of the table `t`. -/
def letterTable : WireTable :=
  ⟨letter 116, letter 116, letter 48, [letter 118], by decide⟩

/-- UPDATE of a row with the key 7 and a `v` of 7, which is set to 3. -/
def updateLetter : WireRequest :=
  .update ⟨letterTable, [⟨[letter 55], by decide⟩], ⟨0, 0, 1⟩,
    ⟨[⟨letter 118, 0, letter 55⟩], by decide⟩, by decide⟩ ⟨[⟨0, letter 51⟩], by decide⟩

theorem binaryV2_accepts_documented_update :
    (decodeRequest ⟨binaryV2, roomyPool, fun _ ↦ 0⟩
      ⟨⟨10, 1, 0, 79, updateLetter.encode⟩, []⟩).ret = none := by
  refine (binaryV2_accepts_documented roomyPool (fun _ ↦ 0)
    ⟨⟨10, 1, 0, 79, updateLetter.encode⟩, []⟩ .update rfl (by decide) (by decide)
      (countsFit_update (by decide))).1.mpr
    ⟨updateLetter, rfl, ⟨⟨⟨by decide, by decide, by decide⟩, ?_, ?_, ?_, ?_, ?_⟩, ?_, ?_⟩, rfl⟩ <;>
    simp [letterTable, readEnd, tdhsBetween, filterFlagEnd, updateFlagEnd]

end TdhSocket.Decode
