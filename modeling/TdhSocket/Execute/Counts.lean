import TdhSocket.Decode.Context
import TdhSocket.Decode.Grammar
import TdhSocket.Execute.Find

/-!
# Counts of a decoded request

The decoders keep the counts they read from the payload and drop the elements that do not fit, and
the code behind them runs its loops up to the counts. `CountsHold` is what that code relies on: the
counts are within the arrays and everything below them was filled. `OnlyFilled` says that the loops
then never see the memory behind the filled elements. `counts_hold_iff` is the exact condition on
an accepted payload: each of its lists fits the array it is stored in.
-/

set_option autoImplicit false

namespace TdhSocket.Execute

open Protocol Decode Library Library.Reader

/-! ### The contract -/

/-- The field count is within its array, and every field below it is filled. -/
structure TableCounts (tableInfo : TdhsRequestTable) : Prop where
  fieldNum_le : tableInfo.fieldNum ≤ requestMaxFieldNum
  filled : tableInfo.fields.length = tableInfo.fieldNum

/-- The counts of filters, keys and key parts are within their arrays, and everything below them is
filled. -/
structure GetCounts (get : TdhsRequestGet) : Prop where
  filterNum_le : get.filter.filterNum ≤ requestMaxFieldNum
  keyNum_le : get.keyNum ≤ get.keyArray.capacity
  keyFieldNum_le : ∀ key ∈ get.keys, key.keyFieldNum ≤ requestMaxKeyNum
  filters_filled : get.filter.entries.length = get.filter.filterNum
  keys_filled : get.keys.length = get.keyNum
  parts_filled : ∀ key ∈ get.keys, key.key.length = key.keyFieldNum

/-- The value count is within its array, and every value below it is filled. -/
structure ValueCounts (values : TdhsRequestValues) : Prop where
  valueNum_le : values.valueNum ≤ requestMaxFieldNum
  filled : values.entries.length = values.valueNum

/-- The counts of a request are within its arrays, and everything below them is filled. -/
structure CountsHold (request : TdhsRequest) : Prop where
  tableInfo : TableCounts request.tableInfo
  get : GetCounts request.get
  values : ValueCounts request.values

/-- The loops of execution see filled elements only, whatever stands behind them: `parse_field`,
`parse_filter`, `is_vaild` and the IN loop over the keys, the key buffers, the first key and the
second key of a BETWEEN, and the value loops, which run over as many values as there are fields. -/
structure OnlyFilled (request : TdhsRequest) : Prop where
  parseField : ∀ stray : Stray,
    entries request.tableInfo.fields stray.field request.tableInfo.fieldNum =
      request.tableInfo.fields
  parseFilter : ∀ stray : Stray,
    entries request.get.filter.entries stray.filter request.get.filter.filterNum =
      request.get.filter.entries
  keys : ∀ stray : Stray,
    entries request.get.keys stray.key request.get.keyNum = request.get.keys
  keyParts : ∀ stray : Stray, ∀ key ∈ request.get.keys, keyParts stray key = key.key
  firstKey : request.type ≠ .insert → 0 < request.get.keys.length
  between : request.type ≠ .insert → request.get.findFlag = .between →
    1 < request.get.keys.length
  values : request.type = .update ∨ request.type = .insert → ∀ stray : Stray,
    entries request.values.entries stray.value request.tableInfo.fieldNum = request.values.entries

theorem entries_eq {Element : Type} {filled : List Element} {count : ℕ}
    (hfilled : filled.length = count) (stray : ℕ → Element) :
    entries filled stray count = filled := by
  apply List.ext_getElem
  · rw [entries, List.length_map, List.length_range, hfilled]
  · intro i hleft hright
    simp only [entries, List.getElem_map, List.getElem_range]
    rw [List.getD_eq_getElem?_getD, List.getElem?_eq_getElem hright, Option.getD_some]

/-! ### Requests on the wire -/

/-- The lists of a get part fit the arrays they are stored in. -/
structure WireGetFits (version : Version) (pool : EasyPool) (wire : WireGet) : Prop where
  fields_le : wire.tableInfo.fields.length ≤ requestMaxFieldNum
  filters_le : wire.filters.filters.length ≤ requestMaxFieldNum
  keys_le : wire.keys.length ≤ (version.chooseKeys pool wire.keys.length).capacity
  parts_le : ∀ key ∈ wire.keys, key.parts.length ≤ requestMaxKeyNum

/-- The lists of a request fit the arrays they are stored in. -/
def WireFits (version : Version) (pool : EasyPool) : WireRequest → Prop
  | .get part => WireGetFits version pool part
  | .count part => WireGetFits version pool part
  | .update part values =>
    WireGetFits version pool part ∧ values.values.length ≤ requestMaxFieldNum
  | .delete part => WireGetFits version pool part
  | .insert tableInfo values =>
    tableInfo.fields.length ≤ requestMaxFieldNum ∧ values.values.length ≤ requestMaxFieldNum

variable {protocolVersion : ℕ} {version : Version} {stray : ℕ → ℕ}

/-- Both versions store every key that the key array has room for. -/
theorem le_inLimit
    (hversion : decodeRequestArray protocolVersion = some version) (pool : EasyPool) (keyNum : ℕ)
    (hkeys : keyNum ≤ (version.chooseKeys pool keyNum).capacity) :
    keyNum ≤ (version.chooseKeys pool keyNum).inLimit := by
  unfold decodeRequestArray at hversion
  split_ifs at hversion
  · cases hversion
    exact hkeys
  · cases hversion
    change keyNum ≤ (chooseKeysV2 pool keyNum).capacity at hkeys
    change keyNum ≤ (chooseKeysV2 pool keyNum).inLimit
    unfold chooseKeysV2 at hkeys ⊢
    split_ifs at hkeys ⊢ with hfew
    · exact hkeys
    · cases hroom : easyPoolCalloc pool (sizeofTdhsGetKey * keyNum) with
      | none =>
        rw [hroom] at hkeys
        exact hkeys
      | some room => exact le_rfl

variable {pool : EasyPool} {wire : WireGet}

theorem storedKeys_eq (hversion : decodeRequestArray protocolVersion = some version)
    (hkeys : wire.keys.length ≤ (version.chooseKeys pool wire.keys.length).capacity) :
    wire.storedKeys (version.chooseKeys pool wire.keys.length) =
      wire.keys.map WireKey.request := by
  refine List.take_of_length_le ?_
  rw [List.length_map]
  exact le_inLimit hversion pool wire.keys.length hkeys

theorem tableCounts_iff (wire : WireTable) :
    TableCounts wire.request ↔ wire.fields.length ≤ requestMaxFieldNum := by
  constructor
  · intro hcounts
    exact hcounts.fieldNum_le
  · intro hle
    refine ⟨hle, ?_⟩
    change ((wire.fields.map WireString.bytes).take requestMaxFieldNum).length = wire.fields.length
    rw [List.length_take, List.length_map, Nat.min_eq_right hle]

theorem valueCounts_iff (wire : WireValues) :
    ValueCounts wire.request ↔ wire.values.length ≤ requestMaxFieldNum := by
  constructor
  · intro hcounts
    exact hcounts.valueNum_le
  · intro hle
    refine ⟨hle, ?_⟩
    change (((wire.values.map WireValue.raw).take requestMaxFieldNum).map RawValue.entry).length =
      wire.values.length
    rw [List.length_map, List.length_take, List.length_map, Nat.min_eq_right hle]

/-- Assumes: the version is one of the two. -/
theorem getCounts_iff
    (hversion : decodeRequestArray protocolVersion = some version) (pool : EasyPool)
    (wire : WireGet) :
    GetCounts (wire.request version pool).2 ↔
      wire.filters.filters.length ≤ requestMaxFieldNum ∧
        wire.keys.length ≤ (version.chooseKeys pool wire.keys.length).capacity ∧
        ∀ key ∈ wire.keys, key.parts.length ≤ requestMaxKeyNum := by
  constructor
  · intro hcounts
    refine ⟨hcounts.filterNum_le, hcounts.keyNum_le, fun key hkey ↦ ?_⟩
    have hstored := storedKeys_eq hversion hcounts.keyNum_le
    have hle := hcounts.keyFieldNum_le key.request
    change key.request ∈ wire.storedKeys _ → _ at hle
    rw [hstored] at hle
    exact hle (List.mem_map_of_mem hkey)
  · rintro ⟨hfilters, hkeys, hparts⟩
    have hstored := storedKeys_eq hversion hkeys
    have hmem : ∀ key ∈ (wire.request version pool).2.keys,
        ∃ wireKey ∈ wire.keys, wireKey.request = key := by
      intro key hkey
      change key ∈ wire.storedKeys _ at hkey
      rw [hstored] at hkey
      exact List.mem_map.mp hkey
    refine ⟨hfilters, hkeys, ?_, ?_, ?_, ?_⟩
    · intro key hkey
      obtain ⟨wireKey, hwireKey, rfl⟩ := hmem key hkey
      exact hparts wireKey hwireKey
    · change (((wire.filters.filters.map WireFilter.raw).take requestMaxFieldNum).map
        RawFilter.entry).length = wire.filters.filters.length
      rw [List.length_map, List.length_take, List.length_map, Nat.min_eq_right hfilters]
    · change (wire.storedKeys _).length = wire.keys.length
      rw [hstored, List.length_map]
    · intro key hkey
      obtain ⟨wireKey, -, rfl⟩ := hmem key hkey
      exact List.length_map _

theorem getCounts_zeroGet : GetCounts zeroGet := by
  refine ⟨Nat.zero_le _, le_rfl, ?_, rfl, rfl, ?_⟩
  · intro key hkey
    exact absurd hkey List.not_mem_nil
  · intro key hkey
    exact absurd hkey List.not_mem_nil

theorem valueCounts_zeroValues : ValueCounts zeroValues := ⟨Nat.zero_le _, rfl⟩

/-- The counts of a request hold exactly when its lists fit. Assumes: the version is one of the
two. -/
theorem countsHold_iff
    (hversion : decodeRequestArray protocolVersion = some version) (pool : EasyPool)
    (wire : WireRequest) :
    CountsHold (wire.request version pool) ↔ WireFits version pool wire := by
  have hpart : ∀ part : WireGet, TableCounts (part.request version pool).1 ∧
      GetCounts (part.request version pool).2 ↔ WireGetFits version pool part := by
    intro part
    rw [getCounts_iff hversion]
    refine (and_congr_left' (tableCounts_iff part.tableInfo)).trans ?_
    constructor
    · rintro ⟨hfields, hfilters, hkeys, hparts⟩
      exact ⟨hfields, hfilters, hkeys, hparts⟩
    · intro hfits
      exact ⟨hfits.fields_le, hfits.filters_le, hfits.keys_le, hfits.parts_le⟩
  have hselection : ∀ (part : WireGet) (type : RequestType),
      CountsHold ⟨type, (part.request version pool).1, (part.request version pool).2, zeroValues⟩ ↔
        WireGetFits version pool part := by
    intro part type
    rw [← hpart]
    constructor
    · intro hcounts
      exact ⟨hcounts.tableInfo, hcounts.get⟩
    · rintro ⟨htable, hget⟩
      exact ⟨htable, hget, valueCounts_zeroValues⟩
  cases wire with
  | get part => exact hselection part .get
  | count part => exact hselection part .count
  | delete part => exact hselection part .delete
  | update part values =>
    change _ ↔ WireGetFits version pool part ∧ values.values.length ≤ requestMaxFieldNum
    rw [← hpart, ← valueCounts_iff]
    constructor
    · intro hcounts
      exact ⟨⟨hcounts.tableInfo, hcounts.get⟩, hcounts.values⟩
    · rintro ⟨⟨htable, hget⟩, hvalues⟩
      exact ⟨htable, hget, hvalues⟩
  | insert tableInfo values =>
    change _ ↔ tableInfo.fields.length ≤ requestMaxFieldNum ∧
      values.values.length ≤ requestMaxFieldNum
    rw [← tableCounts_iff, ← valueCounts_iff]
    constructor
    · intro hcounts
      exact ⟨hcounts.tableInfo, hcounts.values⟩
    · rintro ⟨htable, hvalues⟩
      exact ⟨htable, getCounts_zeroGet, hvalues⟩

/-! ### The loops behind the decoder -/

/-- What `is_vaild` and the checks of BETWEEN leave about the number of keys. -/
theorem keys_of_valid {needField : Bool} (hvalid : wire.Valid version pool stray needField) :
    0 < wire.keys.length ∧
      (wire.range.request.1 = .between → 1 < wire.keys.length) := by
  have hvaild := hvalid.range_valid.isVaild
  have hbetween := hvalid.range_valid.between
  simp only [isVaildGet, Bool.and_eq_true, bne_iff_ne, ne_eq, decide_eq_true_eq] at hvaild
  refine ⟨Nat.pos_of_ne_zero hvaild.1.2, fun hflag ↦ ?_⟩
  have hcodes : ∀ code < readEnd, FindFlag.ofCode code = .between → code = tdhsBetween := by decide
  have hcode : wire.range.findFlag.toNat = tdhsBetween := hcodes _ hvaild.1.1 hflag
  rw [hcode] at hbetween
  simp only [beq_self_eq_true, Bool.and_true, Bool.not_eq_true', decide_eq_false_iff_not,
    not_lt] at hbetween
  exact hbetween

/-- Behind a request whose counts hold, the loops see filled elements only. Assumes: the request was
accepted. -/
theorem onlyFilled_of_countsHold {wire : WireRequest} (hvalid : wire.Valid version pool stray)
    (hcounts : CountsHold (wire.request version pool)) :
    OnlyFilled (wire.request version pool) := by
  have hkeys : ∀ part : WireGet, GetCounts (part.request version pool).2 →
      (part.request version pool).2.keys.length = part.keys.length := fun part hget ↦
    hget.keys_filled
  refine ⟨fun _ ↦ entries_eq hcounts.tableInfo.filled _,
    fun _ ↦ entries_eq hcounts.get.filters_filled _, fun _ ↦ entries_eq hcounts.get.keys_filled _,
    fun _ key hkey ↦ entries_eq (hcounts.get.parts_filled key hkey) _, ?_, ?_, ?_⟩
  · intro hinsert
    cases wire with
    | get part => exact (hkeys part hcounts.get).symm ▸ (keys_of_valid hvalid).1
    | count part => exact (hkeys part hcounts.get).symm ▸ (keys_of_valid hvalid).1
    | update part values => exact (hkeys part hcounts.get).symm ▸ (keys_of_valid hvalid.1).1
    | delete part => exact (hkeys part hcounts.get).symm ▸ (keys_of_valid hvalid).1
    | insert tableInfo values => exact absurd rfl hinsert
  · intro hinsert hbetween
    cases wire with
    | get part => exact (hkeys part hcounts.get).symm ▸ (keys_of_valid hvalid).2 hbetween
    | count part => exact (hkeys part hcounts.get).symm ▸ (keys_of_valid hvalid).2 hbetween
    | update part values =>
      exact (hkeys part hcounts.get).symm ▸ (keys_of_valid hvalid.1).2 hbetween
    | delete part => exact (hkeys part hcounts.get).symm ▸ (keys_of_valid hvalid).2 hbetween
    | insert tableInfo values => exact absurd rfl hinsert
  · intro htype stray
    refine entries_eq (hcounts.values.filled.trans ?_) _
    cases wire with
    | get part => rcases htype with htype | htype <;> cases htype
    | count part => rcases htype with htype | htype <;> cases htype
    | update part values => exact hvalid.2.1
    | delete part => rcases htype with htype | htype <;> cases htype
    | insert tableInfo values => exact hvalid.2.1

/-- A payload that is accepted leaves counts within the arrays, with everything below them filled
and nothing else looked at, exactly when it is the encoding of a request whose lists fit: at most
256 fields, filters and values, at most ten parts in a key, and at most as many keys as the key
array has elements. Assumes: the version is one of the two and the payload was accepted. -/
theorem counts_hold_iff {protocolVersion : ℕ} {version : Version}
    (hversion : decodeRequestArray protocolVersion = some version) (pool : EasyPool)
    (stray : ℕ → ℕ) {type : RequestType} (htype : type ≠ .batch) (payload : List UInt8)
    (request : TdhsRequest)
    (haccepted : (runOn (decoderOf version pool stray type) [] payload).result = .ok request) :
    (CountsHold request ∧ OnlyFilled request) ↔
      ∃ wire : WireRequest, wire.type = type ∧ wire.Valid version pool stray ∧
        payload = wire.encode ∧ WireFits version pool wire := by
  have hgrammar := decoderOf_ok_iff version pool stray htype payload
  constructor
  · rintro ⟨hcounts, -⟩
    obtain ⟨wire, hwire, hvalid, hpayload, rfl⟩ := (hgrammar request).mp haccepted
    exact ⟨wire, hwire, hvalid, hpayload, (countsHold_iff hversion pool wire).mp hcounts⟩
  · rintro ⟨wire, hwire, hvalid, hpayload, hfits⟩
    have hsame := (hgrammar _).mpr ⟨wire, hwire, hvalid, hpayload, rfl⟩
    rw [haccepted] at hsame
    cases hsame
    have hcounts := (countsHold_iff hversion pool wire).mpr hfits
    exact ⟨hcounts, onlyFilled_of_countsHold hvalid hcounts⟩

/-- The empty string. -/
def emptyName : WireString := ⟨[], by norm_num, rfl⟩

/-- The string `a`. -/
def letterName : WireString := ⟨[97, 0], by norm_num, rfl⟩

/-- A GET on a table `a` of a database `a` with a number of empty field names and a number of keys
of one empty part, for a find flag. -/
def countsWire (fieldNum keyNum : ℕ) (findFlag : UInt8) (hfields : fieldNum < 2 ^ 32)
    (hkeys : keyNum < 2 ^ 32) : WireRequest :=
  .get ⟨⟨letterName, letterName, emptyName, List.replicate fieldNum emptyName,
      by rwa [List.length_replicate]⟩,
    List.replicate keyNum ⟨[emptyName], by norm_num⟩, ⟨findFlag, 0, 0⟩, ⟨[], by norm_num⟩,
    by rwa [List.length_replicate]⟩

/-- Version 1 accepts the payload as a GET, and the request passes a check. -/
def acceptedWith (stray : ℕ → ℕ) (payload : List UInt8) (check : TdhsRequest → Bool) : Bool :=
  match (runOn (decoderOf binary roomyPool stray .get) [] payload).result with
  | .ok request => check request
  | .error _ => false

theorem exists_of_acceptedWith {payload : List UInt8} {check : TdhsRequest → Bool}
    (haccepted : acceptedWith stray payload check = true) :
    ∃ request, (runOn (decoderOf binary roomyPool stray .get) [] payload).result = .ok request ∧
      check request = true := by
  unfold acceptedWith at haccepted
  split at haccepted
  · exact ⟨_, by assumption, haccepted⟩
  · cases haccepted

/-- Version 1 accepts 257 fields, and eleven keys with the find flag GE, which stands where the
eleventh key would. -/
theorem too_many_fields_and_keys :
    (∃ request,
      (runOn (decoderOf binary roomyPool (fun _ ↦ 0) .get) []
        (countsWire 257 1 0 (by decide) (by decide)).encode).result = .ok request ∧
          ¬ CountsHold request) ∧
    (∃ request,
      (runOn (decoderOf binary roomyPool (fun i ↦ if i = 10 then 1 else 0) .get) []
        (countsWire 1 11 1 (by decide) (by decide)).encode).result = .ok request ∧
          ¬ CountsHold request) := by
  constructor
  · have hvalid : (countsWire 257 1 0 (by decide) (by decide)).Valid binary roomyPool
        fun _ ↦ 0 := by
      refine ⟨?_, ⟨by decide, by decide, by decide⟩, ?_⟩
      · change isVaildTable [97, 0] [97, 0] (List.replicate 257 emptyName).length true = true
        rw [List.length_replicate]
        rfl
      · intro i filter hfilter
        cases hfilter
    refine ⟨_, (decoderOf_ok_iff binary roomyPool (fun _ ↦ 0) (by decide) _ _).mpr
      ⟨_, rfl, hvalid, rfl, rfl⟩, fun hcounts ↦ ?_⟩
    have hle : (List.replicate 257 emptyName).length ≤ requestMaxFieldNum :=
      hcounts.tableInfo.fieldNum_le
    rw [List.length_replicate] at hle
    exact absurd hle (by decide)
  · obtain ⟨request, haccepted, hcheck⟩ := exists_of_acceptedWith
      (show acceptedWith (fun i ↦ if i = 10 then 1 else 0)
        (countsWire 1 11 1 (by decide) (by decide)).encode
        (fun request ↦ decide (request.get.keyArray.capacity < request.get.keyNum)) = true by
          decide +kernel)
    refine ⟨request, haccepted, fun hcounts ↦ ?_⟩
    exact absurd hcounts.get.keyNum_le (not_le.mpr (of_decide_eq_true hcheck))

/-- The theorem on a GET with one field and one key. -/
theorem counts_hold_iff_one_field :
    ∃ request,
      (runOn (decoderOf binary roomyPool (fun _ ↦ 0) .get) []
        (countsWire 1 1 0 (by decide) (by decide)).encode).result = .ok request ∧
      ((CountsHold request ∧ OnlyFilled request) ↔
        ∃ wire : WireRequest, wire.type = .get ∧ wire.Valid binary roomyPool (fun _ ↦ 0) ∧
          (countsWire 1 1 0 (by decide) (by decide)).encode = wire.encode ∧
          WireFits binary roomyPool wire) := by
  obtain ⟨request, haccepted, -⟩ := exists_of_acceptedWith
    (show acceptedWith (fun _ ↦ 0) (countsWire 1 1 0 (by decide) (by decide)).encode
      (fun _ ↦ true) = true by decide +kernel)
  have hversion : decodeRequestArray 1 = some binary := rfl
  have htype : RequestType.get ≠ .batch := by decide
  exact ⟨request, haccepted, counts_hold_iff hversion roomyPool _ htype _ request haccepted⟩

end TdhSocket.Execute
