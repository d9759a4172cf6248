import TdhSocket.Decode.Decoder

/-!
# The layout of a request

What the decoders accept, as a grammar. The wire structures hold the parts of a request as a client
writes them, `encode` lays them out in bytes, and the theorems named `reads_…` say that a decoder
accepts exactly the encodings of valid parts and returns what it keeps of them. A count in front of
a list is the length of that list, so nothing in a wire structure can contradict anything else.

`reads_decodeGetBody` and `reads_decodeValues` are the two long parts; `decoderOf_ok_iff` puts them
together: a payload is accepted for a request type exactly when it is the encoding of a valid
request of that type.
-/

set_option autoImplicit false

namespace TdhSocket.Decode

open Protocol Library Library.Reader

/-! ### Words and strings -/

theorem recognises_readUint32 :
    Recognises readUint32 fun value word ↦ value < 2 ^ 32 ∧ word = BigEndian.toBytes value := by
  refine ((recognises_take ReturnCode.easyError 4).bind fun bytes ↦
    recognises_pure (BigEndian.ofBytes bytes)).congr fun value word ↦ ?_
  constructor
  · rintro ⟨bytes, _, _, ⟨rfl, hlength⟩, ⟨rfl, rfl⟩, rfl⟩
    refine ⟨BigEndian.ofBytes_lt bytes, ?_⟩
    have hsplit := BigEndian.toBytes_ofBytes_append_drop bytes hlength.ge
    rw [List.drop_of_length_le hlength.le, List.append_nil] at hsplit
    rw [List.append_nil, hsplit]
  · rintro ⟨hvalue, rfl⟩
    refine ⟨_, BigEndian.toBytes value, [], ⟨rfl, rfl⟩, ⟨?_, rfl⟩, (List.append_nil _).symm⟩
    exact (BigEndian.ofBytes_toBytes_append value [] hvalue).symm

theorem recognises_readUint8 :
    Recognises readUint8 fun value word ↦ word = [value] := by
  refine ((recognises_take ReturnCode.easyError 1).bind fun bytes ↦
    recognises_pure (bytes.headD 0)).congr fun value word ↦ ?_
  constructor
  · rintro ⟨_, bytes, _, ⟨rfl, hlength⟩, ⟨rfl, rfl⟩, rfl⟩
    obtain ⟨byte, rfl⟩ := List.length_eq_one_iff.mp hlength
    rfl
  · rintro rfl
    exact ⟨[value], [value], [], ⟨rfl, rfl⟩, ⟨rfl, rfl⟩, rfl⟩

theorem reads_readUint8 :
    Reads readUint8 (fun _ : UInt8 ↦ True) id fun value ↦ [value] :=
  recognises_readUint8.congr fun _ _ ↦ by simp

theorem reads_count : Reads readUint32 (· < 2 ^ 32) id BigEndian.toBytes :=
  recognises_readUint32.congr fun _ _ ↦ by simp

/-- A string on the wire: a C string with its length in four bytes in front. -/
structure WireString where
  bytes : TdhsString
  length_lt : bytes.length < 2 ^ 32
  isCString_eq : isCString bytes = true

namespace WireString

/-- The bytes of a string, the length in front. -/
def encode (string : WireString) : List UInt8 :=
  BigEndian.toBytes string.bytes.length ++ string.bytes

theorem length_encode (string : WireString) : string.encode.length = 4 + string.bytes.length := by
  rw [encode, List.length_append, BigEndian.length_toBytes]

end WireString

theorem recognises_readStr (length : ℕ) :
    Recognises (readStr length) fun string word ↦
      string = word ∧ word.length = length ∧ isCString word = true := by
  refine ((recognises_take ReturnCode.easyError length).bind fun string ↦
    (recognises_ensure (isCString string) ReturnCode.easyError).bind fun _ ↦
      recognises_pure string).congr fun string word ↦ ?_
  constructor
  · rintro ⟨_, bytes, _, ⟨rfl, hlength⟩, ⟨_, _, _, ⟨hstring, rfl⟩, ⟨rfl, rfl⟩, rfl⟩, rfl⟩
    simpa using ⟨hlength, hstring⟩
  · rintro ⟨rfl, hlength, hstring⟩
    exact ⟨string, string, [], ⟨rfl, hlength⟩, ⟨(), [], [], ⟨hstring, rfl⟩, ⟨rfl, rfl⟩, rfl⟩,
      (List.append_nil _).symm⟩

theorem recognises_storeTo (place : Option Place) :
    Recognises (storeTo place) fun _ word ↦ word = [] := by
  cases place with
  | none => exact (recognises_pure ()).congr fun _ _ ↦ by simp
  | some place => exact recognises_store place

/-- A string is read whole, whichever element it goes to. -/
theorem reads_readString (place : Option Place) :
    Reads (readString place) (fun _ : WireString ↦ True) WireString.bytes WireString.encode := by
  refine (recognises_readUint32.bind fun length ↦ (recognises_storeTo place).bind fun _ ↦
    recognises_readStr length).congr fun string word ↦ ?_
  constructor
  · rintro ⟨length, _, _, ⟨hlt, rfl⟩, ⟨_, _, _, rfl, ⟨rfl, rfl, hstring⟩, rfl⟩, rfl⟩
    exact ⟨⟨_, hlt, hstring⟩, trivial, rfl, rfl⟩
  · rintro ⟨wire, -, rfl, rfl⟩
    exact ⟨wire.bytes.length, _, _, ⟨wire.length_lt, rfl⟩,
      ⟨(), [], wire.bytes, rfl, ⟨rfl, rfl, wire.isCString_eq⟩, rfl⟩, rfl⟩

/-! ### Table information -/

/-- The index name that is kept: `PRIMARY` for the empty string. -/
def WireString.orPrimary (string : WireString) : TdhsString :=
  if string.bytes = [] then primaryString else string.bytes

theorem reads_readIndex :
    Reads readIndex (fun _ : WireString ↦ True) WireString.orPrimary WireString.encode := by
  have hstring : ∀ length, Recognises
      (if 0 < length then readStr length else pure primaryString : Decoder TdhsString)
      fun string word ↦ word.length = length ∧ isCString word = true ∧
        string = if word = [] then primaryString else word := by
    intro length
    by_cases hpositive : 0 < length
    · rw [if_pos hpositive]
      refine (recognises_readStr length).congr fun string word ↦ ?_
      constructor
      · rintro ⟨rfl, rfl, hstring⟩
        exact ⟨rfl, hstring, (if_neg (List.length_pos_iff.mp hpositive)).symm⟩
      · rintro ⟨rfl, hstring, rfl⟩
        rw [if_neg (List.length_pos_iff.mp hpositive)]
        exact ⟨rfl, rfl, hstring⟩
    · rw [if_neg hpositive]
      refine (recognises_pure primaryString).congr fun string word ↦ ?_
      constructor
      · rintro ⟨rfl, rfl⟩
        exact ⟨(Nat.eq_zero_of_not_pos hpositive).symm, rfl, rfl⟩
      · rintro ⟨rfl, -, rfl⟩
        obtain rfl := List.length_eq_zero_iff.mp (Nat.eq_zero_of_not_pos hpositive)
        exact ⟨rfl, rfl⟩
  refine (recognises_readUint32.bind hstring).congr fun string word ↦ ?_
  constructor
  · rintro ⟨length, _, bytes, ⟨hlt, rfl⟩, ⟨rfl, hcstring, rfl⟩, rfl⟩
    exact ⟨⟨bytes, hlt, hcstring⟩, trivial, rfl, rfl⟩
  · rintro ⟨wire, -, rfl, rfl⟩
    exact ⟨wire.bytes.length, _, wire.bytes, ⟨wire.length_lt, rfl⟩,
      ⟨rfl, wire.isCString_eq, rfl⟩, rfl⟩

/-- The table information of a request on the wire. -/
structure WireTable where
  db : WireString
  table : WireString
  index : WireString
  fields : List WireString
  fields_lt : fields.length < 2 ^ 32

namespace WireTable

/-- The bytes of the table information. -/
def encode (wire : WireTable) : List UInt8 :=
  wire.db.encode ++ (wire.table.encode ++ (wire.index.encode ++
    (BigEndian.toBytes wire.fields.length ++ wire.fields.flatMap WireString.encode)))

/-- `tdhs_request_table_t::is_vaild` accepts it. -/
def Valid (needField : Bool) (wire : WireTable) : Prop :=
  isVaildTable wire.db.bytes wire.table.bytes wire.fields.length needField = true

/-- What the decoder keeps of it. -/
def request (wire : WireTable) : TdhsRequestTable :=
  ⟨wire.fields.length, wire.db.bytes, wire.table.bytes, wire.index.orPrimary,
    (wire.fields.map WireString.bytes).take requestMaxFieldNum⟩

end WireTable

/-- `_decode_to_table_info` accepts the encodings of valid table information. -/
theorem reads_decodeToTableInfo (needField : Bool) :
    Reads (decodeToTableInfo needField) (WireTable.Valid needField) WireTable.request
      WireTable.encode := by
  have hfields : ∀ fieldNum, Reads
      (repeatFrom (fun i ↦ readString (guardedPlace .fields i requestMaxFieldNum)) 0 fieldNum)
      _ _ _ :=
    Reads.repeatFrom fun i ↦ reads_readString (guardedPlace .fields i requestMaxFieldNum)
  refine ((reads_readString none).seq fun db ↦ (reads_readString none).seq fun table ↦
    reads_readIndex.seq fun index ↦ reads_count.seq fun fieldNum ↦ (hfields fieldNum).seq
      fun fields ↦ Reads.behind (recognises_ensure _ _) (reads_pure _)).rewire
    (fun wire : WireTable ↦
      (wire.db, wire.table, wire.index, wire.fields.length, wire.fields, ())) ?_ ?_ ?_
  · simp [WireTable.encode]
  · rintro ⟨db, table, index, count, fields, _⟩ ⟨-, -, -, hlt, ⟨hcount, -⟩, -⟩
    obtain rfl : fields.length = count := hcount
    exact ⟨⟨db, table, index, fields, hlt⟩, rfl⟩
  · exact fun wire ↦ ⟨fun hvalid ↦ ⟨trivial, trivial, trivial, wire.fields_lt,
      ⟨rfl, fun _ _ _ ↦ trivial⟩, hvalid, trivial⟩, fun hall ↦ hall.2.2.2.2.2.1⟩

/-! ### Filters and values -/

/-- A filter on the wire. -/
structure WireFilter where
  field : WireString
  flag : UInt8
  value : WireString

namespace WireFilter

/-- The bytes of a filter. -/
def encode (wire : WireFilter) : List UInt8 :=
  wire.field.encode ++ ([wire.flag] ++ wire.value.encode)

/-- The filter that is read. -/
def raw (wire : WireFilter) : RawFilter := ⟨wire.field.bytes, wire.flag, wire.value.bytes⟩

/-- The flag is checked where the filter is kept. -/
def ValidAt (i : ℕ) (wire : WireFilter) : Prop :=
  i < requestMaxFieldNum → wire.flag.toNat < filterFlagEnd

end WireFilter

/-- A flag is checked and stored where its element is kept. -/
theorem recognises_setFlag (kept valid : Prop) [Decidable kept] [Decidable valid] (place : Place) :
    Recognises (if kept then do
        Reader.ensure (decide valid) ReturnCode.easyError
        Reader.store place
      else pure ()) fun _ word ↦ (kept → valid) ∧ word = [] := by
  split_ifs with hkept
  · refine ((recognises_ensure _ _).bind fun _ ↦ recognises_store _).congr fun _ word ↦ ?_
    simp [hkept]
  · exact (recognises_pure ()).congr fun _ word ↦ by simp [hkept]

theorem recognises_setFilterFlag (i : ℕ) (flag : UInt8) :
    Recognises (setFilterFlag i flag) fun _ word ↦
      (i < requestMaxFieldNum → flag.toNat < filterFlagEnd) ∧ word = [] :=
  recognises_setFlag _ _ _

theorem reads_readFilter (i : ℕ) :
    Reads (readFilter i) (WireFilter.ValidAt i) WireFilter.raw WireFilter.encode := by
  refine ((reads_readString _).seq fun field ↦ reads_readUint8.seq fun flag ↦
    Reads.behind (recognises_setFilterFlag i flag) ((reads_readString _).map _)).rewire
      (fun wire : WireFilter ↦ (wire.field, wire.flag, wire.value)) (fun _ ↦ rfl) ?_ ?_
  · exact fun wire _ ↦ ⟨⟨wire.1, wire.2.1, wire.2.2⟩, rfl⟩
  · exact fun wire ↦ ⟨fun hvalid ↦ ⟨trivial, trivial, hvalid, trivial⟩, fun hall ↦ hall.2.2.1⟩

/-- The filters of a request on the wire. -/
structure WireFilters where
  filters : List WireFilter
  filters_lt : filters.length < 2 ^ 32

namespace WireFilters

variable (wire : WireFilters)

/-- The bytes of the filters, their number in front. -/
def encode : List UInt8 :=
  BigEndian.toBytes wire.filters.length ++ wire.filters.flatMap WireFilter.encode

/-- The flags of the filters that are kept are in range. -/
def Valid : Prop :=
  ∀ (i : ℕ) (filter : WireFilter), wire.filters[i]? = some filter → filter.ValidAt i

/-- What the decoder keeps of the filters. -/
def request : TdhsFilter :=
  ⟨wire.filters.length,
    ((wire.filters.map WireFilter.raw).take requestMaxFieldNum).map RawFilter.entry⟩

end WireFilters

/-- `_decode_to_filter` accepts the encodings of valid filters. -/
theorem reads_decodeToFilter :
    Reads decodeToFilter WireFilters.Valid WireFilters.request WireFilters.encode := by
  refine (reads_count.seq fun filterNum ↦
    (Reads.repeatFrom reads_readFilter filterNum).map _).rewire
    (fun wire : WireFilters ↦ (wire.filters.length, wire.filters)) (fun _ ↦ rfl) ?_ ?_
  · exact fun wire hall ↦ ⟨⟨wire.2, hall.2.1.trans_lt hall.1⟩, Prod.ext hall.2.1 rfl⟩
  · exact fun wire ↦ ⟨fun hvalid ↦ ⟨wire.filters_lt, rfl, hvalid⟩, fun hall ↦ hall.2.2⟩

/-- A value on the wire. -/
structure WireValue where
  flag : UInt8
  value : WireString

namespace WireValue

/-- The bytes of a value. -/
def encode (wire : WireValue) : List UInt8 := [wire.flag] ++ wire.value.encode

/-- The value that is read. -/
def raw (wire : WireValue) : RawValue := ⟨wire.flag, wire.value.bytes⟩

/-- The flag is checked where the value is kept. -/
def ValidAt (i : ℕ) (wire : WireValue) : Prop :=
  i < requestMaxFieldNum → wire.flag.toNat < updateFlagEnd

end WireValue

theorem recognises_setValueFlag (i : ℕ) (flag : UInt8) :
    Recognises (setValueFlag i flag) fun _ word ↦
      (i < requestMaxFieldNum → flag.toNat < updateFlagEnd) ∧ word = [] :=
  recognises_setFlag _ _ _

theorem reads_readValue (i : ℕ) :
    Reads (readValue i) (WireValue.ValidAt i) WireValue.raw WireValue.encode := by
  refine (reads_readUint8.seq fun flag ↦
    Reads.behind (recognises_setValueFlag i flag) ((reads_readString _).map _)).rewire
      (fun wire : WireValue ↦ (wire.flag, wire.value)) (fun _ ↦ rfl) ?_ ?_
  · exact fun wire _ ↦ ⟨⟨wire.1, wire.2⟩, rfl⟩
  · exact fun wire ↦ ⟨fun hvalid ↦ ⟨trivial, hvalid, trivial⟩, fun hall ↦ hall.2.1⟩

/-- The values of a request on the wire. -/
structure WireValues where
  values : List WireValue
  values_lt : values.length < 2 ^ 32

namespace WireValues

/-- The bytes of the values, their number in front. -/
def encode (wire : WireValues) : List UInt8 :=
  BigEndian.toBytes wire.values.length ++ wire.values.flatMap WireValue.encode

/-- There are as many values as fields, and the flags of those that are kept are in range. -/
def Valid (fieldNum : ℕ) (wire : WireValues) : Prop :=
  wire.values.length = fieldNum ∧
    ∀ (i : ℕ) (value : WireValue), wire.values[i]? = some value → value.ValidAt i

/-- What the decoder keeps of the values. -/
def request (wire : WireValues) : TdhsRequestValues :=
  ⟨wire.values.length,
    ((wire.values.map WireValue.raw).take requestMaxFieldNum).map RawValue.entry⟩

end WireValues

/-- The value part of `decode_to_update` and `decode_to_insert` accepts the encodings of valid
values. -/
theorem reads_decodeValues (fieldNum : ℕ) :
    Reads (decodeValues fieldNum) (WireValues.Valid fieldNum) WireValues.request
      WireValues.encode := by
  refine (reads_count.seq fun valueNum ↦ Reads.behind (recognises_ensure _ _)
    ((Reads.repeatFrom reads_readValue valueNum).map _)).rewire
      (fun wire : WireValues ↦ (wire.values.length, wire.values)) (fun _ ↦ rfl) ?_ ?_
  · exact fun wire hall ↦ ⟨⟨wire.2, hall.2.2.1.trans_lt hall.1⟩, Prod.ext hall.2.2.1 rfl⟩
  · exact fun wire ↦ ⟨fun hvalid ↦ ⟨wire.values_lt, beq_iff_eq.mpr hvalid.1, rfl, hvalid.2⟩,
      fun hall ↦ ⟨beq_iff_eq.mp hall.2.1, hall.2.2.2⟩⟩

/-! ### Keys -/

/-- A key on the wire. -/
structure WireKey where
  parts : List WireString
  parts_lt : parts.length < 2 ^ 32

namespace WireKey

/-- The bytes of a key, the number of its parts in front. -/
def encode (wire : WireKey) : List UInt8 :=
  BigEndian.toBytes wire.parts.length ++ wire.parts.flatMap WireString.encode

/-- The key that is read. -/
def request (wire : WireKey) : TdhsGetKey :=
  ⟨wire.parts.length, wire.parts.map WireString.bytes⟩

end WireKey

theorem reads_readKey (keyArray : KeyArray) (i : ℕ) :
    Reads (readKey keyArray i) (fun _ : WireKey ↦ True) WireKey.request WireKey.encode := by
  have hparts : ∀ keyFieldNum, Reads
      (repeatFrom (fun j ↦ readString (some ⟨.key, j, requestMaxKeyNum⟩)) 0 keyFieldNum) _ _ _ :=
    Reads.repeatFrom fun j ↦ reads_readString (some ⟨.key, j, requestMaxKeyNum⟩)
  refine (reads_count.seq fun keyFieldNum ↦
    Reads.behind ((recognises_storeTo _).congr fun _ _ ↦ iff_of_eq (true_and _).symm)
      ((hparts keyFieldNum).map _)).rewire
      (fun wire : WireKey ↦ (wire.parts.length, wire.parts)) (fun _ ↦ rfl) ?_ ?_
  · exact fun wire hall ↦ ⟨⟨wire.2, hall.2.2.1.trans_lt hall.1⟩, Prod.ext hall.2.2.1 rfl⟩
  · exact fun wire ↦ ⟨fun _ ↦ ⟨wire.parts_lt, trivial, rfl, fun _ _ _ ↦ trivial⟩, fun _ ↦ trivial⟩

theorem reads_readKeys (keyArray : KeyArray) (keyNum : ℕ) :
    Reads (repeatFrom (readKey keyArray) 0 keyNum) (fun keys : List WireKey ↦ keys.length = keyNum)
      (List.map WireKey.request) (List.flatMap WireKey.encode) :=
  (Reads.repeatFrom (reads_readKey keyArray) keyNum).congr fun keys word ↦ by simp

/-! ### The get part -/

/-- A word of four bytes is read as a `uint32_t`. -/
theorem reads_readUint32 :
    Reads readUint32 (fun _ : UInt32 ↦ True) UInt32.toNat
      fun value ↦ BigEndian.toBytes value.toNat := by
  refine recognises_readUint32.congr fun value word ↦ ?_
  constructor
  · rintro ⟨hlt, rfl⟩
    have hvalue : (UInt32.ofNat value).toNat = value := UInt32.toNat_ofNat_of_lt' hlt
    exact ⟨UInt32.ofNat value, trivial, hvalue.symm, congrArg BigEndian.toBytes hvalue.symm⟩
  · rintro ⟨wire, -, rfl, rfl⟩
    exact ⟨wire.toNat_lt, rfl⟩

/-- The find flag, start and limit on the wire. -/
structure WireRange where
  findFlag : UInt8
  start : UInt32
  limit : UInt32

namespace WireRange

/-- The bytes of a range. -/
def encode (wire : WireRange) : List UInt8 :=
  [wire.findFlag] ++ (BigEndian.toBytes wire.start.toNat ++ BigEndian.toBytes wire.limit.toNat)

/-- Everything `_decode_to_get` checks behind the range. -/
structure Valid (version : Version) (stray : ℕ → ℕ) (keyNum : ℕ) (keyArray : KeyArray)
    (keys : List TdhsGetKey) (wire : WireRange) : Prop where
  outOfIn : (!(version.checksOutOfIn && decide (keyArray.inLimit < keyNum) &&
    wire.findFlag.toNat == tdhsIn)) = true
  between : (!(decide (keyNum < 2) && wire.findFlag.toNat == tdhsBetween)) = true
  isVaild : isVaildGet wire.findFlag.toNat keyNum keys stray = true

/-- What the decoder keeps of a range. -/
def request (wire : WireRange) : FindFlag × ℕ × ℕ :=
  (.ofCode wire.findFlag.toNat, wire.start.toNat, wire.limit.toNat)

end WireRange

theorem reads_decodeRange (version : Version) (stray : ℕ → ℕ) (keyNum : ℕ) (keyArray : KeyArray)
    (keys : List TdhsGetKey) :
    Reads (decodeRange version stray keyNum keyArray keys)
      (WireRange.Valid version stray keyNum keyArray keys) WireRange.request WireRange.encode := by
  refine (reads_readUint8.seq fun findFlag ↦ reads_readUint32.seq fun start ↦
    reads_readUint32.seq fun limit ↦ Reads.behind (recognises_ensure _ _)
      (Reads.behind (recognises_ensure _ _)
        (Reads.behind (recognises_ensure _ _) (reads_pure _)))).rewire
    (fun wire : WireRange ↦ (wire.findFlag, wire.start, wire.limit, ())) ?_ ?_ ?_
  · simp [WireRange.encode]
  · exact fun wire _ ↦ ⟨⟨wire.1, wire.2.1, wire.2.2.1⟩, rfl⟩
  · exact fun wire ↦ ⟨fun ⟨houtOfIn, hbetween, hvaild⟩ ↦
      ⟨trivial, trivial, trivial, houtOfIn, hbetween, hvaild, trivial⟩,
      fun ⟨_, _, _, houtOfIn, hbetween, hvaild, _⟩ ↦ ⟨houtOfIn, hbetween, hvaild⟩⟩

/-- The part of a request that selects rows, on the wire. -/
structure WireGet where
  tableInfo : WireTable
  keys : List WireKey
  range : WireRange
  filters : WireFilters
  keys_lt : keys.length < 2 ^ 32

namespace WireGet

/-- The bytes of a get part. -/
def encode (wire : WireGet) : List UInt8 :=
  wire.tableInfo.encode ++ (BigEndian.toBytes wire.keys.length ++
    (wire.keys.flatMap WireKey.encode ++ (wire.range.encode ++ wire.filters.encode)))

/-- The keys that are stored. -/
def storedKeys (wire : WireGet) (keyArray : KeyArray) : List TdhsGetKey :=
  (wire.keys.map WireKey.request).take keyArray.inLimit

/-- Everything `_decode_to_get` checks. -/
structure Valid (version : Version) (pool : EasyPool) (stray : ℕ → ℕ) (needField : Bool)
    (wire : WireGet) : Prop where
  tableInfo_valid : wire.tableInfo.Valid needField
  range_valid : wire.range.Valid version stray wire.keys.length
    (version.chooseKeys pool wire.keys.length)
    (wire.storedKeys (version.chooseKeys pool wire.keys.length))
  filters_valid : wire.filters.Valid

/-- What the decoder keeps of a get part. -/
def request (version : Version) (pool : EasyPool) (wire : WireGet) :
    TdhsRequestTable × TdhsRequestGet :=
  (wire.tableInfo.request,
    ⟨wire.keys.length, version.chooseKeys pool wire.keys.length,
      wire.storedKeys (version.chooseKeys pool wire.keys.length), wire.range.request.1,
      wire.range.request.2.1, wire.range.request.2.2, wire.filters.request⟩)

end WireGet

/-- `_decode_to_get` accepts the encodings of valid get parts. -/
theorem reads_decodeGetBody (version : Version) (pool : EasyPool) (stray : ℕ → ℕ)
    (needField : Bool) :
    Reads (decodeGetBody version pool stray needField)
      (WireGet.Valid version pool stray needField) (WireGet.request version pool)
      WireGet.encode := by
  refine ((reads_decodeToTableInfo needField).seq fun tableInfo ↦ reads_count.seq fun keyNum ↦
    (reads_readKeys (version.chooseKeys pool keyNum) keyNum).seq fun keys ↦
      (reads_decodeRange version stray keyNum _ _).seq fun range ↦
        reads_decodeToFilter.map _).rewire
    (fun wire : WireGet ↦
      (wire.tableInfo, wire.keys.length, wire.keys, wire.range, wire.filters)) (fun _ ↦ rfl) ?_ ?_
  · rintro ⟨tableInfo, count, keys, range, filters⟩ ⟨-, hlt, hcount, -⟩
    obtain rfl : keys.length = count := hcount
    exact ⟨⟨tableInfo, keys, range, filters, hlt⟩, rfl⟩
  · exact fun wire ↦ ⟨fun ⟨htable, hrange, hfilters⟩ ↦
      ⟨htable, wire.keys_lt, rfl, hrange, hfilters⟩,
      fun ⟨htable, _, _, hrange, hfilters⟩ ↦ ⟨htable, hrange, hfilters⟩⟩

/-! ### Requests -/

/-- A request on the wire, of any type but BATCH. -/
inductive WireRequest
  | get (part : WireGet)
  | count (part : WireGet)
  | update (part : WireGet) (values : WireValues)
  | delete (part : WireGet)
  | insert (tableInfo : WireTable) (values : WireValues)

namespace WireRequest

/-- The request type. -/
def type : WireRequest → RequestType
  | .get _ => .get
  | .count _ => .count
  | .update _ _ => .update
  | .delete _ => .delete
  | .insert _ _ => .insert

/-- The payload of a request. -/
def encode : WireRequest → List UInt8
  | .get part => part.encode
  | .count part => part.encode
  | .update part values => part.encode ++ values.encode
  | .delete part => part.encode
  | .insert tableInfo values => tableInfo.encode ++ values.encode

/-- Everything the decoder of the request type checks. -/
def Valid (version : Version) (pool : EasyPool) (stray : ℕ → ℕ) : WireRequest → Prop
  | .get part => part.Valid version pool stray true
  | .count part => part.Valid version pool stray false
  | .update part values => part.Valid version pool stray true ∧
    values.Valid part.tableInfo.fields.length
  | .delete part => part.Valid version pool stray false
  | .insert tableInfo values => tableInfo.Valid false ∧ values.Valid tableInfo.fields.length

/-- What the decoder keeps of a request. -/
def request (version : Version) (pool : EasyPool) : WireRequest → TdhsRequest
  | .get part => ⟨.get, (part.request version pool).1, (part.request version pool).2, zeroValues⟩
  | .count part =>
    ⟨.count, (part.request version pool).1, (part.request version pool).2, zeroValues⟩
  | .update part values =>
    ⟨.update, (part.request version pool).1, (part.request version pool).2, values.request⟩
  | .delete part =>
    ⟨.delete, (part.request version pool).1, (part.request version pool).2, zeroValues⟩
  | .insert tableInfo values => ⟨.insert, tableInfo.request, zeroGet, values.request⟩

end WireRequest

section

variable (version : Version) (pool : EasyPool) (stray : ℕ → ℕ)

theorem reads_decodeSelection (type : RequestType) {needField : Bool}
    {parts : Decoder (TdhsRequestTable × TdhsRequestGet)}
    (hparts : Reads parts (WireGet.Valid version pool stray needField)
      (WireGet.request version pool) WireGet.encode) :
    Reads (decodeSelection type parts) (WireGet.Valid version pool stray needField)
      (fun part ↦ ⟨type, (part.request version pool).1, (part.request version pool).2, zeroValues⟩)
      WireGet.encode :=
  hparts.map _

theorem reads_decodeUpdateBody :
    Reads (decodeUpdateBody version pool stray)
      (fun wire : WireGet × WireValues ↦ wire.1.Valid version pool stray true ∧
        wire.2.Valid wire.1.tableInfo.fields.length)
      (fun wire ↦ (WireRequest.update wire.1 wire.2).request version pool)
      (fun wire ↦ wire.1.encode ++ wire.2.encode) :=
  Reads.seq ((reads_decodeGetBody version pool stray true).failAs .easyError) fun parts ↦
    (reads_decodeValues parts.1.fieldNum).map _

theorem reads_decodeInsertBody :
    Reads decodeInsertBody
      (fun wire : WireTable × WireValues ↦ wire.1.Valid false ∧ wire.2.Valid wire.1.fields.length)
      (fun wire ↦ (WireRequest.insert wire.1 wire.2).request version pool)
      (fun wire ↦ wire.1.encode ++ wire.2.encode) :=
  (reads_decodeToTableInfo false).seq fun tableInfo ↦ (reads_decodeValues tableInfo.fieldNum).map _

/-- A payload is accepted for a request type exactly when it is the encoding of a valid request of
that type, and the request is what the decoder keeps of it. Assumes: the type is not BATCH. -/
theorem decoderOf_ok_iff {type : RequestType} (htype : type ≠ .batch) (payload : List UInt8)
    (request : TdhsRequest) :
    (runOn (decoderOf version pool stray type) [] payload).result = .ok request ↔
      ∃ wire : WireRequest, wire.type = type ∧ wire.Valid version pool stray ∧
        payload = wire.encode ∧ request = wire.request version pool := by
  cases type with
  | get =>
    have hget := (reads_decodeGetBody version pool stray true).failAs ReturnCode.easyError
    refine ((reads_decodeSelection version pool stray .get hget).whole_result_iff _ _ _).trans ?_
    constructor
    · rintro ⟨part, hpart, rfl, rfl⟩
      exact ⟨.get part, rfl, hpart, rfl, rfl⟩
    · rintro ⟨wire, hwire, hvalid, rfl, rfl⟩
      cases wire <;> cases hwire
      exact ⟨_, hvalid, rfl, rfl⟩
  | count =>
    refine ((reads_decodeSelection version pool stray .count
      (reads_decodeGetBody version pool stray false)).whole_result_iff _ _ _).trans ?_
    constructor
    · rintro ⟨part, hpart, rfl, rfl⟩
      exact ⟨.count part, rfl, hpart, rfl, rfl⟩
    · rintro ⟨wire, hwire, hvalid, rfl, rfl⟩
      cases wire <;> cases hwire
      exact ⟨_, hvalid, rfl, rfl⟩
  | update =>
    refine ((reads_decodeUpdateBody version pool stray).whole_result_iff _ _ _).trans ?_
    constructor
    · rintro ⟨⟨part, values⟩, hvalid, rfl, rfl⟩
      exact ⟨.update part values, rfl, hvalid, rfl, rfl⟩
    · rintro ⟨wire, hwire, hvalid, rfl, rfl⟩
      cases wire <;> cases hwire
      exact ⟨(_, _), hvalid, rfl, rfl⟩
  | delete =>
    refine ((reads_decodeSelection version pool stray .delete
      (reads_decodeGetBody version pool stray false)).whole_result_iff _ _ _).trans ?_
    constructor
    · rintro ⟨part, hpart, rfl, rfl⟩
      exact ⟨.delete part, rfl, hpart, rfl, rfl⟩
    · rintro ⟨wire, hwire, hvalid, rfl, rfl⟩
      cases wire <;> cases hwire
      exact ⟨_, hvalid, rfl, rfl⟩
  | insert =>
    refine ((reads_decodeInsertBody version pool).whole_result_iff _ _ _).trans ?_
    constructor
    · rintro ⟨⟨tableInfo, values⟩, hvalid, rfl, rfl⟩
      exact ⟨.insert tableInfo values, rfl, hvalid, rfl, rfl⟩
    · rintro ⟨wire, hwire, hvalid, rfl, rfl⟩
      cases wire <;> cases hwire
      exact ⟨(_, _), hvalid, rfl, rfl⟩
  | batch => exact absurd rfl htype

end

end TdhSocket.Decode
