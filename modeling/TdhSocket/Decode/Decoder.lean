import TdhSocket.Decode.Request
import TdhSocket.Library.Reader

/-!
# The request decoders

`tdh_socket_decode_request_binary.cpp` and its version 2. The two versions read the same layout and
differ in one point: version 1 keeps the keys in the ten elements of `r_keys` and drops the others,
version 2 asks the pool of the packet for a block when there are more than ten. `Version` holds that
difference, everything else is written once.

Decoders are readers of the payload, with `pos` and `read_len` as the cursor. Their trace has the
payload bytes that are read and, for each array element that is stored to, its array, its index and
the number of elements of the array. Elements are stored to under the index the source uses, also
where nothing keeps that index inside the array; the run then goes on as if the store had hit unused
memory.
-/

set_option autoImplicit false

namespace TdhSocket.Decode

open Protocol Library

/-! ### Places and return codes -/

/-- The destination arrays of the decoders. -/
inductive DestArray
  | fields
  | filterField
  | filterFlag
  | filterValue
  | valuesFlag
  | valuesValue
  | keys
  | key
  deriving DecidableEq, Repr

/-- An element of an array with a number of elements. -/
structure Place where
  array : DestArray
  index : ℕ
  capacity : ℕ
  deriving DecidableEq, Repr

/-- The element is one of the array. -/
def Place.InArray (place : Place) : Prop := place.index < place.capacity

/-- What a decoder returns instead of `EASY_OK`. -/
inductive ReturnCode
  | easyError
  | errorOutOfIn
  deriving DecidableEq, Repr

/-- A decoder of a part of a request. -/
abbrev Decoder (Value : Type) : Type := Reader Place ReturnCode Value

/-! ### Words and strings -/

/-- `read_uint32_ref`. -/
def readUint32 : Decoder ℕ := do
  let bytes ← Reader.take .easyError 4
  pure (BigEndian.ofBytes bytes)

/-- `read_uint8_ref`. -/
def readUint8 : Decoder UInt8 := do
  let bytes ← Reader.take .easyError 1
  pure (bytes.headD 0)

/-- A string is a C string: empty, or its last byte is zero. -/
def isCString (string : TdhsString) : Bool :=
  string.isEmpty || string.getLast? == some 0

/-- `read_str_ref`. -/
def readStr (length : ℕ) : Decoder TdhsString := do
  let string ← Reader.take .easyError length
  Reader.ensure (isCString string) .easyError
  pure string

/-- A store to an array element, if there is one. -/
def storeTo : Option Place → Decoder Unit
  | none => pure ()
  | some place => Reader.store place

/-- `read_uint32_ref` and `read_str_ref` one after the other: a string with its length in front,
read into an array element or into a variable of its own. -/
def readString (place : Option Place) : Decoder TdhsString := do
  let length ← readUint32
  storeTo place
  readStr length

/-- The element of an array under a loop index, or none for an index that is one too many. -/
def guardedPlace (array : DestArray) (index capacity : ℕ) : Option Place :=
  if index < capacity then some ⟨array, index, capacity⟩ else none

/-! ### The parts of a request -/

/-- `tdhs_request_table_t::is_vaild`. -/
def isVaildTable (db table : TdhsString) (fieldNum : ℕ) (needField : Bool) : Bool :=
  !(db.isEmpty || table.isEmpty || (needField && fieldNum == 0))

/-- The index name of `_decode_to_table_info`, `PRIMARY` where its length is zero. -/
def readIndex : Decoder TdhsString := do
  let length ← readUint32
  if 0 < length then readStr length else pure primaryString

/-- `_decode_to_table_info`. Fields from number 256 on are read and dropped. -/
def decodeToTableInfo (needField : Bool) : Decoder TdhsRequestTable := do
  let db ← readString none
  let table ← readString none
  let index ← readIndex
  let fieldNum ← readUint32
  let fields ← Reader.repeatFrom
    (fun i ↦ readString (guardedPlace .fields i requestMaxFieldNum)) 0 fieldNum
  Reader.ensure (isVaildTable db table fieldNum needField) .easyError
  pure ⟨fieldNum, db, table, index, fields.take requestMaxFieldNum⟩

/-- A filter as it stands in the payload. -/
structure RawFilter where
  field : TdhsString
  flag : UInt8
  value : TdhsString
  deriving DecidableEq, Repr

/-- The filter that is kept of it. -/
def RawFilter.entry (raw : RawFilter) : FilterEntry :=
  ⟨raw.field, .ofCode raw.flag.toNat, raw.value⟩

/-- `tdhs_filter_t::set_flag`, for an element of the array. -/
def setFilterFlag (i : ℕ) (flag : UInt8) : Decoder Unit :=
  if i < requestMaxFieldNum then do
    Reader.ensure (flag.toNat < filterFlagEnd) .easyError
    Reader.store ⟨.filterFlag, i, requestMaxFieldNum⟩
  else pure ()

/-- One round of the loop of `_decode_to_filter`. -/
def readFilter (i : ℕ) : Decoder RawFilter := do
  let field ← readString (guardedPlace .filterField i requestMaxFieldNum)
  let flag ← readUint8
  setFilterFlag i flag
  let value ← readString (guardedPlace .filterValue i requestMaxFieldNum)
  pure ⟨field, flag, value⟩

/-- `_decode_to_filter`. Filters from number 256 on are read and dropped, whatever their flag. -/
def decodeToFilter : Decoder TdhsFilter := do
  let filterNum ← readUint32
  let filters ← Reader.repeatFrom readFilter 0 filterNum
  pure ⟨filterNum, (filters.take requestMaxFieldNum).map RawFilter.entry⟩

/-- A value as it stands in the payload. -/
structure RawValue where
  flag : UInt8
  value : TdhsString
  deriving DecidableEq, Repr

/-- The value that is kept of it. -/
def RawValue.entry (raw : RawValue) : ValueEntry := ⟨.ofCode raw.flag.toNat, raw.value⟩

/-- `tdhs_request_values_t::set_flag`, for an element of the array. -/
def setValueFlag (i : ℕ) (flag : UInt8) : Decoder Unit :=
  if i < requestMaxFieldNum then do
    Reader.ensure (flag.toNat < updateFlagEnd) .easyError
    Reader.store ⟨.valuesFlag, i, requestMaxFieldNum⟩
  else pure ()

/-- One round of the value loops of `decode_to_update` and `decode_to_insert`. -/
def readValue (i : ℕ) : Decoder RawValue := do
  let flag ← readUint8
  setValueFlag i flag
  let value ← readString (guardedPlace .valuesValue i requestMaxFieldNum)
  pure ⟨flag, value⟩

/-- The values of `decode_to_update` and `decode_to_insert`, as many as the table has fields. Values
from number 256 on are read and dropped. -/
def decodeValues (fieldNum : ℕ) : Decoder TdhsRequestValues := do
  let valueNum ← readUint32
  Reader.ensure (valueNum == fieldNum) .easyError
  let values ← Reader.repeatFrom readValue 0 valueNum
  pure ⟨valueNum, (values.take requestMaxFieldNum).map RawValue.entry⟩

/-! ### Keys -/

/-- What a protocol version decides: the array for a number of keys, and whether an IN request with
keys that are not stored is refused. -/
structure Version where
  chooseKeys : EasyPool → ℕ → KeyArray
  checksOutOfIn : Bool

/-- `req.get.r_keys`. -/
def rKeys : KeyArray := ⟨requestMaxInNum, requestMaxInNum⟩

/-- `TDHS_PROTOCOL_BINARY`. -/
def binary : Version := ⟨fun _ _ ↦ rKeys, false⟩

/-- The key array of version 2: a block of the pool for more than ten keys, if it can be had. -/
def chooseKeysV2 (pool : EasyPool) (keyNum : ℕ) : KeyArray :=
  if keyNum ≤ requestMaxInNum then rKeys
  else
    match easyPoolCalloc pool (sizeofTdhsGetKey * keyNum) with
    | none => rKeys
    | some room => ⟨room / sizeofTdhsGetKey, keyNum⟩

/-- `TDHS_PROTOCOL_BINARY_V2`. -/
def binaryV2 : Version := ⟨chooseKeysV2, true⟩

/-- One round of the key loop: an element of the key array, or a key on the stack that is dropped.
The parts go to `key[j]` without a look at the ten elements of `key`. -/
def readKey (keyArray : KeyArray) (i : ℕ) : Decoder TdhsGetKey := do
  let keyFieldNum ← readUint32
  storeTo (if i < keyArray.inLimit then some ⟨.keys, i, keyArray.capacity⟩ else none)
  let key ← Reader.repeatFrom (fun j ↦ readString (some ⟨.key, j, requestMaxKeyNum⟩)) 0 keyFieldNum
  pure ⟨keyFieldNum, key⟩

/-- `keys[i].key_field_num`, where the memory behind the filled elements holds `stray`. -/
def keyFieldNumAt (keys : List TdhsGetKey) (stray : ℕ → ℕ) (i : ℕ) : ℕ :=
  match keys[i]? with
  | some key => key.keyFieldNum
  | none => stray i

/-- `tdhs_request_get_t::is_vaild`. -/
def isVaildGet (findFlag keyNum : ℕ) (keys : List TdhsGetKey) (stray : ℕ → ℕ) : Bool :=
  decide (findFlag < readEnd) && keyNum != 0 &&
    (List.range keyNum).all fun i ↦ keyFieldNumAt keys stray i != 0

variable (version : Version)

/-- The find flag, start and limit of `_decode_to_get`, with the checks behind them. -/
def decodeRange (stray : ℕ → ℕ) (keyNum : ℕ) (keyArray : KeyArray) (keys : List TdhsGetKey) :
    Decoder (FindFlag × ℕ × ℕ) := do
  let findFlag ← readUint8
  let start ← readUint32
  let limit ← readUint32
  Reader.ensure (!(version.checksOutOfIn && decide (keyArray.inLimit < keyNum) &&
    findFlag.toNat == tdhsIn)) .errorOutOfIn
  Reader.ensure (!(decide (keyNum < 2) && findFlag.toNat == tdhsBetween)) .errorOutOfIn
  Reader.ensure (isVaildGet findFlag.toNat keyNum keys stray) .easyError
  pure (.ofCode findFlag.toNat, start, limit)

variable (pool : EasyPool) (stray : ℕ → ℕ)

/-- `_decode_to_get`, and `decode_to_delete_or_count` up to its last check. -/
def decodeGetBody (needField : Bool) : Decoder (TdhsRequestTable × TdhsRequestGet) := do
  let tableInfo ← decodeToTableInfo needField
  let keyNum ← readUint32
  let keyArray := version.chooseKeys pool keyNum
  let keys ← Reader.repeatFrom (readKey keyArray) 0 keyNum
  let (findFlag, start, limit) ←
    decodeRange version stray keyNum keyArray (keys.take keyArray.inLimit)
  let filter ← decodeToFilter
  pure (tableInfo,
    ⟨keyNum, keyArray, keys.take keyArray.inLimit, findFlag, start, limit, filter⟩)

/-! ### Requests -/

/-- A request that has no values. -/
def decodeSelection (type : RequestType)
    (parts : Decoder (TdhsRequestTable × TdhsRequestGet)) : Decoder TdhsRequest := do
  let (tableInfo, get) ← parts
  pure ⟨type, tableInfo, get, zeroValues⟩

/-- `decode_to_get`. -/
def decodeToGet : Decoder TdhsRequest :=
  Reader.whole .easyError
    (decodeSelection .get (Reader.failAs .easyError (decodeGetBody version pool stray true)))

/-- `decode_to_delete_or_count`, which passes the codes of the get part on. -/
def decodeToDeleteOrCount (type : RequestType) : Decoder TdhsRequest :=
  Reader.whole .easyError (decodeSelection type (decodeGetBody version pool stray false))

/-- `decode_to_update` up to its last check. -/
def decodeUpdateBody : Decoder TdhsRequest := do
  let (tableInfo, get) ← Reader.failAs .easyError (decodeGetBody version pool stray true)
  let values ← decodeValues tableInfo.fieldNum
  pure ⟨.update, tableInfo, get, values⟩

/-- `decode_to_update`. -/
def decodeToUpdate : Decoder TdhsRequest :=
  Reader.whole .easyError (decodeUpdateBody version pool stray)

/-- `decode_to_insert` up to its last check. -/
def decodeInsertBody : Decoder TdhsRequest := do
  let tableInfo ← decodeToTableInfo false
  let values ← decodeValues tableInfo.fieldNum
  pure ⟨.insert, tableInfo, zeroGet, values⟩

/-- `decode_to_insert`. -/
def decodeToInsert : Decoder TdhsRequest := Reader.whole .easyError decodeInsertBody

/-- The decoder of a request type, for every type but BATCH. -/
def decoderOf : RequestType → Decoder TdhsRequest
  | .get => decodeToGet version pool stray
  | .count => decodeToDeleteOrCount version pool stray .count
  | .update => decodeToUpdate version pool stray
  | .delete => decodeToDeleteOrCount version pool stray .delete
  | .insert => decodeToInsert
  | .batch => pure ⟨.batch, zeroTable, zeroGet, zeroValues⟩

end TdhSocket.Decode
