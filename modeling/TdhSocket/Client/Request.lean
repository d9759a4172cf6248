import TdhSocket.Decode.Request

/-!
# The encoders of the Python client

`request.py`. Strings are lists of the bytes that `s.encode("GBK")` has for an ASCII string, `None`
is `none`, and an encoder that raises an exception returns `none`: `pack` raises for a number that
does not fit its format, `to_binary` for a request that is not valid.

`add_str_to_binary` tests its argument as a condition, and the empty string fails that test like
`None` does.
-/

set_option autoImplicit false

namespace TdhSocket.Client

open Protocol Decode Library

/-! ### Encoding -/

/-- The bytes of a string. -/
abbrev Text : Type := List UInt8

/-- A string or `None`. -/
abbrev Value : Type := Option Text

/-- `s.lower()` for an ASCII string. -/
def lower (text : Text) : Text :=
  text.map fun byte ↦ if 65 ≤ byte ∧ byte ≤ 90 then byte + 32 else byte

/-- `pack('!L', value)`. -/
def packL (value : ℤ) : Option (List UInt8) :=
  if 0 ≤ value ∧ value < 2 ^ 32 then some (BigEndian.toBytes value.toNat) else none

/-- `pack('!B', value)`. -/
def packB (value : ℤ) : Option (List UInt8) :=
  if 0 ≤ value ∧ value < 2 ^ 8 then some [UInt8.ofNat value.toNat] else none

/-- Whether a string or `None` passes as a condition. -/
def isTrue (value : Value) : Bool := value.any fun text ↦ !text.isEmpty

/-- `add_str_to_binary`. -/
def addStrToBinary (value : Value) : Option (List UInt8) :=
  if isTrue value then do
    let length ← packL ((value.getD []).length + 1)
    pure (length ++ value.getD [] ++ [0])
  else packL 0

/-- The elements of an array, one after the other. -/
def addAll {Element : Type} (add : Element → Option (List UInt8)) (array : List Element) :
    Option (List UInt8) :=
  (array.mapM add).map List.flatten

/-- `add_array_to_binary` for an array of elements of one kind. -/
def addArrayToBinary {Element : Type} (add : Element → Option (List UInt8))
    (array : List Element) : Option (List UInt8) := do
  let length ← packL array.length
  let elements ← addAll add array
  pure (length ++ elements)

/-! ### Requests -/

/-- `table_info`. -/
structure TableInfo where
  db : Text
  table : Text
  index : Value
  fields : List Text
  needField : Bool
  deriving DecidableEq, Repr

/-- The constructor of `table_info`. -/
def tableInfo (db table : Text) (index : Value) (fields : List Text) : TableInfo :=
  ⟨lower db, lower table, index, fields, true⟩

namespace TableInfo

/-- `table_info.is_vaild`. -/
def isVaild (info : TableInfo) : Bool :=
  if isTrue (some info.db) && isTrue (some info.table) then
    !(info.needField && info.fields.isEmpty)
  else false

/-- The index name of `table_info.to_binary`. -/
def indexToBinary (info : TableInfo) : Option (List UInt8) :=
  if isTrue info.index then addStrToBinary info.index else packL 0

/-- `table_info.to_binary`. -/
def toBinary (info : TableInfo) : Option (List UInt8) :=
  if info.isVaild then do
    let db ← addStrToBinary (some info.db)
    let table ← addStrToBinary (some info.table)
    let index ← info.indexToBinary
    let fields ← addArrayToBinary (fun field ↦ addStrToBinary (some field)) info.fields
    pure (db ++ table ++ index ++ fields)
  else none

end TableInfo

/-- One element of the lists of `filter`. -/
structure Filter where
  field : Text
  flag : ℤ
  value : Value
  deriving DecidableEq, Repr

/-- `filter.add_filter` raises for other flags. -/
def Filter.isKnown (filter : Filter) : Bool := decide (0 ≤ filter.flag ∧ filter.flag ≤ 5)

/-- One round of `filter.to_binary`. -/
def Filter.toBinary (filter : Filter) : Option (List UInt8) := do
  let field ← addStrToBinary (some filter.field)
  let flag ← packB filter.flag
  let value ← addStrToBinary filter.value
  pure (field ++ flag ++ value)

/-- `get`. -/
structure Get where
  tableInfo : TableInfo
  key : List (List Value)
  findFlag : Option ℤ
  start : ℤ
  limit : Option ℤ
  filters : List Filter
  deriving DecidableEq, Repr

namespace Get

/-- `get.is_vaild`. -/
def isVaild (get : Get) : Bool :=
  get.tableInfo.isVaild && !get.key.isEmpty && get.limit.isSome &&
    get.findFlag.any fun flag ↦ decide (0 ≤ flag ∧ flag ≤ 7)

/-- `get.to_binary`, of a `get` whose filters were added without an exception. -/
def toBinary (get : Get) : Option (List UInt8) :=
  if get.filters.all Filter.isKnown && get.isVaild then do
    let info ← get.tableInfo.toBinary
    let key ← addArrayToBinary (addArrayToBinary addStrToBinary) get.key
    let findFlag ← get.findFlag.bind packB
    let start ← packL get.start
    let limit ← get.limit.bind packL
    let filterNum ← packL get.filters.length
    let filters ← addAll Filter.toBinary get.filters
    pure (info ++ key ++ findFlag ++ start ++ limit ++ (filterNum ++ filters))
  else none

end Get

/-- One element of the lists of `update` and `insert`. -/
structure Update where
  flag : ℤ
  value : Value
  deriving DecidableEq, Repr

/-- `update.add_update` and `insert.add_value` raise for other flags. -/
def Update.isKnown (update : Update) : Bool := decide (0 ≤ update.flag ∧ update.flag < 4)

/-- One round of `update.to_binary` and `insert.to_binary`. -/
def Update.toBinary (update : Update) : Option (List UInt8) := do
  let flag ← packB update.flag
  let value ← addStrToBinary update.value
  pure (flag ++ value)

/-- The values of `update.to_binary` and `insert.to_binary`, as many as there are fields. -/
def valuesToBinary (updates : List Update) (fields : List Text) : Option (List UInt8) :=
  if updates.all Update.isKnown && decide (updates.length = fields.length) then do
    let num ← packL updates.length
    let values ← addAll Update.toBinary updates
    pure (num ++ values)
  else none

/-- The table of a request. -/
structure Table where
  db : Text
  table : Text
  index : Value
  fields : List Text
  deriving DecidableEq, Repr

/-- The `table_info` of a request; `need_field` is set to `False` where no field is needed. -/
def Table.info (needField : Bool) (table : Table) : TableInfo :=
  { tableInfo table.db table.table table.index table.fields with needField := needField }

/-- The rows of a request. -/
structure Selection where
  key : List (List Value)
  findFlag : Option ℤ
  start : ℤ
  limit : Option ℤ
  filters : List Filter
  deriving DecidableEq, Repr

/-- The `get` of a request. -/
def Selection.get (info : TableInfo) (selection : Selection) : Get :=
  ⟨info, selection.key, selection.findFlag, selection.start, selection.limit, selection.filters⟩

/-- A request of the client. -/
inductive Request
  | get (table : Table) (selection : Selection)
  | count (table : Table) (selection : Selection)
  | update (table : Table) (selection : Selection) (updates : List Update)
  | delete (table : Table) (selection : Selection)
  | insert (table : Table) (values : List Update)
  deriving DecidableEq, Repr

namespace Request

/-- The payload of a request, if the client sends it. -/
def toBinary : Request → Option (List UInt8)
  | .get table selection => (selection.get (table.info true)).toBinary
  | .count table selection => (selection.get (table.info false)).toBinary
  | .update table selection updates => do
    let get ← (selection.get (table.info true)).toBinary
    let values ← valuesToBinary updates table.fields
    pure (get ++ values)
  | .delete table selection => (selection.get (table.info false)).toBinary
  | .insert table values => do
    let info ← (table.info true).toBinary
    let values ← valuesToBinary values table.fields
    pure (info ++ values)

/-- The type the request is sent with. -/
def type : Request → RequestType
  | .get _ _ => .get
  | .count _ _ => .count
  | .update _ _ _ => .update
  | .delete _ _ => .delete
  | .insert _ _ => .insert

end Request

end TdhSocket.Client
