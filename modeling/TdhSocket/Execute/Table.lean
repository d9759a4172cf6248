import TdhSocket.Decode.Request

/-!
# Tables, fields and indices

What `tdh_socket_dbutil.hpp` does with a MySQL table before any row is read. A table is its fields
and its keys; a field carries the operations of the class `Field` on a record buffer, whose type is
left open. `parseField`, `parseFilter` and `tdhsOpenIndex` look the names of a request up, and
`filterRecord` is the comparison of a record with the packed filter values.

The arrays of a request are read up to the counts of the request. Behind the filled elements the
loops would find whatever the memory there holds, which is `Stray`; `entries` is an array as such a
loop sees it.
-/

set_option autoImplicit false

namespace TdhSocket.Execute

open Protocol Decode

/-! ### Names and numbers in strings -/

/-- The bytes of a C string, without its terminating zero. -/
def cString (string : TdhsString) : List UInt8 := string.takeWhile fun byte ↦ byte != 0

/-- The `strlen()` bytes of a string, all but the last. -/
def content (string : TdhsString) : List UInt8 := string.dropLast

/-- `tolower`. -/
def toLower (byte : UInt8) : UInt8 := if 65 ≤ byte ∧ byte ≤ 90 then byte + 32 else byte

/-- `strcasecmp` finds no difference. -/
def sameName (left right : List UInt8) : Bool := left.map toLower == right.map toLower

/-- `isdigit`. -/
def isDigit (byte : UInt8) : Bool := 48 ≤ byte && byte ≤ 57

/-- The number that the leading digits of a string denote. -/
def leadingNumber (string : List UInt8) : ℕ :=
  (string.takeWhile isDigit).foldl (fun number byte ↦ 10 * number + (byte.toNat - 48)) 0

/-- `atoi` of a string that begins with a digit, converted to `size_t`: `strtol` stops at the
largest `long`, and of that the low 32 bits are taken as an `int`. -/
def atoiIndex (string : List UInt8) : ℕ :=
  let low := min (leadingNumber string) (2 ^ 63 - 1) % 2 ^ 32
  if low < 2 ^ 31 then low else low + (2 ^ 64 - 2 ^ 32)

/-- `isspace`. -/
def isSpace (byte : UInt8) : Bool := byte == 32 || (9 ≤ byte && byte ≤ 13)

/-- `atoll`: blanks, a sign and digits, with the result kept inside `long long`. -/
def atoll (string : TdhsString) : ℤ :=
  match string.dropWhile isSpace with
  | 45 :: digits => max (-(leadingNumber digits : ℤ)) (-2 ^ 63)
  | 43 :: digits => min (leadingNumber digits : ℤ) (2 ^ 63 - 1)
  | digits => min (leadingNumber digits : ℤ) (2 ^ 63 - 1)

/-! ### Tables -/

/-- The class `Field` for record buffers of a type: its name, type and flags, and its operations on
a record. `store`, `storeInt` and `saveNow` return a code, below zero when they failed; `pack` is
the `packLength` bytes that storing a value leaves in the record. -/
structure Field (Record : Type) where
  fieldName : List UInt8
  type : ℕ
  isBlob : Bool
  isNull : Record → Bool
  setNull : Record → Record
  store : List UInt8 → Record → ℤ × Record
  storeInt : ℤ → Record → ℤ × Record
  saveNow : ℕ → Record → ℤ × Record
  valInt : Record → ℤ
  valStr : Record → List UInt8
  packLength : ℕ
  pack : List UInt8 → List UInt8
  pack_length : ∀ value, (pack value).length = packLength
  cmp : Record → List UInt8 → ℤ

/-- `KEY`: its name, the fields of its parts and its length in bytes. -/
structure KeyInfo where
  name : List UInt8
  keyPart : List ℕ
  keyLength : ℕ

/-- `TABLE`: its fields, its keys and the record `empty_record` leaves. -/
structure Table (Record : Type) where
  field : List (Field Record)
  keyInfo : List KeyInfo
  emptyRecord : Record

/-! ### Arrays of a request -/

/-- What the memory behind the filled elements of the request arrays holds. -/
structure Stray where
  field : ℕ → TdhsString
  filter : ℕ → FilterEntry
  value : ℕ → ValueEntry
  key : ℕ → TdhsGetKey
  part : ℕ → TdhsString

/-- The elements of an array that a loop below a count reads. -/
def entries {Element : Type} (filled : List Element) (stray : ℕ → Element) (count : ℕ) :
    List Element :=
  (List.range count).map fun i ↦ filled.getD i (stray i)

/-- The parts of a key that a loop below `key_field_num` reads. -/
def keyParts (stray : Stray) (key : TdhsGetKey) : List TdhsString :=
  entries key.key stray.part key.keyFieldNum

variable {Record : Type}

/-! ### Fields and filters -/

variable (table : Table Record)

/-- The field of a table that a name of a request means. -/
def findField (name : TdhsString) : Option (Field Record) :=
  if 0 < name.length then table.field.find? fun field ↦ sameName (cString name) field.fieldName
  else none

/-- `parse_field`: the fields behind `field_idx`, or none for `EASY_ERROR`. -/
def parseField (names : List TdhsString) : Option (List (Field Record)) :=
  names.mapM (findField table)

/-- A filter with the field it is about. -/
structure BoundFilter (Record : Type) where
  field : Field Record
  flag : FilterFlag
  value : TdhsString

/-- The filter of one round of `parse_filter`. -/
def bindFilter (filter : FilterEntry) : Option (BoundFilter Record) :=
  match findField table filter.field with
  | none => none
  | some field => if field.isBlob then none else some ⟨field, filter.flag, filter.value⟩

/-- `parse_filter`, or none for `EASY_ERROR`. -/
def parseFilter (filters : List FilterEntry) : Option (List (BoundFilter Record)) :=
  filters.mapM (bindFilter table)

/-- `calc_filter_buf_size`. -/
def calcFilterBufSize (filters : List (BoundFilter Record)) : ℕ :=
  (filters.map fun filter ↦ if filter.value.length = 0 then 0 else filter.field.packLength).sum + 1

/-- `fill_filter_buf`. -/
def fillFilterBuf (filters : List (BoundFilter Record)) : List UInt8 :=
  filters.flatMap fun filter ↦
    if filter.value.length = 0 then [] else filter.field.pack (content filter.value)

/-- The condition of a filter flag on the result of a comparison. -/
def FilterFlag.holds : FilterFlag → ℤ → Bool
  | .eq, cv => cv == 0
  | .ge, cv => 0 ≤ cv
  | .le, cv => cv ≤ 0
  | .gt, cv => 0 < cv
  | .lt, cv => cv < 0
  | .not, cv => cv != 0

/-- `cv` of `filter_record`, with the filter buffer from `pos` on. -/
def compareFilter (record : Record) (filter : BoundFilter Record) (buffer : List UInt8) : ℤ :=
  if filter.field.isNull record then if filter.value.length = 0 then 0 else -1
  else if filter.value.length = 0 then 1
  else filter.field.cmp record (buffer.take filter.field.packLength)

/-- `filter_record`, with the filter buffer from `pos` on. -/
def filterRecord (record : Record) : List (BoundFilter Record) → List UInt8 → Bool
  | [], _ => true
  | filter :: filters, buffer =>
    if FilterFlag.holds filter.flag (compareFilter record filter buffer) then
      filterRecord record filters
        (if filter.value.length = 0 then buffer else buffer.drop filter.field.packLength)
    else false

/-! ### Indices -/

/-- The column names of an index descriptor `|c1|c2|…`, at most `room` of them. A name ends at a
bar or at a zero byte; `token` is the name read so far. -/
def indexFields : List UInt8 → List UInt8 → ℕ → List (List UInt8)
  | [], _, _ => []
  | byte :: bytes, token, room =>
    if byte = 124 ∨ byte = 0 then
      if 0 < token.length then
        if room ≤ 1 then [token] else token :: indexFields bytes [] (room - 1)
      else indexFields bytes [] room
    else indexFields bytes (token ++ [byte]) room

/-- The key begins with the named columns. -/
def keyStartsWith (names : List (List UInt8)) (key : KeyInfo) : Bool :=
  decide (names.length ≤ key.keyPart.length) &&
    (names.zip key.keyPart).all fun pair ↦
      ((table.field[pair.2]?).map fun field ↦ sameName field.fieldName pair.1).getD false

/-- `tdhs_open_index`: `idxnum`, or none for `EASY_ERROR`. -/
def tdhsOpenIndex (index : TdhsString) : Option ℕ :=
  if isDigit (index.headD 0) then
    if atoiIndex index < table.keyInfo.length then some (atoiIndex index) else none
  else if index.headD 0 = 124 then
    let names := indexFields index [] requestMaxKeyNum
    if 0 < names.length then table.keyInfo.findIdx? (keyStartsWith table names) else none
  else table.keyInfo.findIdx? fun key ↦ sameName key.name (cString index)

/-- `parse_index` finds the key parts in the index. -/
def parseIndex (info : KeyInfo) (key : TdhsGetKey) : Bool :=
  decide (key.keyFieldNum ≤ info.keyPart.length)

end TdhSocket.Execute
