import TdhSocket.Protocol.Packet

/-!
# Requests

The request structures of `tdh_socket_define.hpp`, as the decoders fill them. An array of a request
is the list of its filled elements, next to the count that was read from the payload. Strings are
the bytes behind `str`, their terminating zero included.
-/

set_option autoImplicit false

namespace TdhSocket.Decode

/-- `tdhs_string_t`: the `len` bytes behind `str`. -/
abbrev TdhsString : Type := List UInt8

/-- `PRIMARY` with its terminating zero, `PRIMARY_SIZE` bytes. -/
def primaryString : TdhsString := [80, 82, 73, 77, 65, 82, 89, 0]

/-- `tdhs_request_type_t`, as far as the decoders know it. -/
inductive RequestType
  | get
  | count
  | update
  | delete
  | insert
  | batch
  deriving DecidableEq, Repr

/-- UPDATE, DELETE and INSERT. -/
def IsPlainWrite (type : RequestType) : Prop :=
  type = .update ∨ type = .delete ∨ type = .insert

/-- The request type of a command, if it has one. -/
def requestTypeOf (command : ℕ) : Option RequestType :=
  if command = 0 then some .get
  else if command = 1 then some .count
  else if command = 10 then some .update
  else if command = 11 then some .delete
  else if command = 12 then some .insert
  else if command = Protocol.requestTypeBatch then some .batch
  else none

/-- `tdhs_request_table_t`. -/
structure TdhsRequestTable where
  fieldNum : ℕ
  db : TdhsString
  table : TdhsString
  index : TdhsString
  fields : List TdhsString
  deriving DecidableEq, Repr

/-- `tdhs_filter_flag_t`. -/
inductive FilterFlag
  | eq
  | ge
  | le
  | gt
  | lt
  | not
  deriving DecidableEq, Repr

/-- `TDHS_FILTER_END`. -/
def filterFlagEnd : ℕ := 6

/-- The filter flag of a number below `TDHS_FILTER_END`. -/
def FilterFlag.ofCode : ℕ → FilterFlag
  | 0 => .eq
  | 1 => .ge
  | 2 => .le
  | 3 => .gt
  | 4 => .lt
  | _ => .not

/-- One filter: the elements of `field`, `flag` and `value` under one index. -/
structure FilterEntry where
  field : TdhsString
  flag : FilterFlag
  value : TdhsString
  deriving DecidableEq, Repr

/-- `tdhs_filter_t`. -/
structure TdhsFilter where
  filterNum : ℕ
  entries : List FilterEntry
  deriving DecidableEq, Repr

/-- `tdhs_find_flag_t`. -/
inductive FindFlag
  | eq
  | ge
  | le
  | gt
  | lt
  | inKeys
  | deq
  | between
  deriving DecidableEq, Repr

/-- `TDHS_READ_END`. -/
def readEnd : ℕ := 8

/-- `TDHS_IN`. -/
def tdhsIn : ℕ := 5

/-- `TDHS_BETWEEN`. -/
def tdhsBetween : ℕ := 7

/-- The find flag of a number below `TDHS_READ_END`. -/
def FindFlag.ofCode : ℕ → FindFlag
  | 0 => .eq
  | 1 => .ge
  | 2 => .le
  | 3 => .gt
  | 4 => .lt
  | 5 => .inKeys
  | 6 => .deq
  | _ => .between

/-- `tdhs_get_key_t`. -/
structure TdhsGetKey where
  keyFieldNum : ℕ
  key : List TdhsString
  deriving DecidableEq, Repr

/-- The array `get.keys` points to: its number of elements, and the number of keys the decoder
stores in it. -/
structure KeyArray where
  capacity : ℕ
  inLimit : ℕ
  deriving DecidableEq, Repr

/-- `tdhs_request_get_t`. -/
structure TdhsRequestGet where
  keyNum : ℕ
  keyArray : KeyArray
  keys : List TdhsGetKey
  findFlag : FindFlag
  start : ℕ
  limit : ℕ
  filter : TdhsFilter
  deriving DecidableEq, Repr

/-- `tdhs_update_flag_t`. -/
inductive UpdateFlag
  | set
  | add
  | sub
  | now
  deriving DecidableEq, Repr

/-- `TDHS_UPDATE_END`. -/
def updateFlagEnd : ℕ := 4

/-- The update flag of a number below `TDHS_UPDATE_END`. -/
def UpdateFlag.ofCode : ℕ → UpdateFlag
  | 0 => .set
  | 1 => .add
  | 2 => .sub
  | _ => .now

/-- One value: the elements of `flag` and `value` under one index. -/
structure ValueEntry where
  flag : UpdateFlag
  value : TdhsString
  deriving DecidableEq, Repr

/-- `tdhs_request_values_t`. -/
structure TdhsRequestValues where
  valueNum : ℕ
  entries : List ValueEntry
  deriving DecidableEq, Repr

/-- `tdhs_request_t`. What a request type does not use keeps the zero of `easy_pool_calloc`. -/
structure TdhsRequest where
  type : RequestType
  tableInfo : TdhsRequestTable
  get : TdhsRequestGet
  values : TdhsRequestValues
  deriving DecidableEq, Repr

/-- `tdhs_request_get_t` in the zeroed packet. -/
def zeroGet : TdhsRequestGet := ⟨0, ⟨0, 0⟩, [], .eq, 0, 0, ⟨0, []⟩⟩

/-- `tdhs_request_values_t` in the zeroed packet. -/
def zeroValues : TdhsRequestValues := ⟨0, []⟩

/-- `tdhs_request_table_t` in the zeroed packet. -/
def zeroTable : TdhsRequestTable := ⟨0, [], [], [], []⟩

end TdhSocket.Decode
