import TdhSocket.Client.Request
import TdhSocket.Decode.Documented

/-!
# Requests of the Python client on the server

What the version 1 decoder makes of a payload of the Python client. The encoders write the layout
of `Decode.WireRequest` (`wire_of_toBinary`), in which the empty string and `None` look the same:
`sent` is the string that reaches the server, `meant` the one of the protocol description, where
the empty string is a zero byte and only NULL has the length zero. The decoder returns the request
with the sent strings (`decoded_of_toBinary`), so a request comes back as it was meant exactly when
none of its strings is empty (`round_trip_iff`).
-/

set_option autoImplicit false

namespace TdhSocket.Client

open Protocol Decode Library

/-! ### The decoded request -/

/-- The string the client sends for a value. -/
def sent (value : Value) : TdhsString := if isTrue value then value.getD [] ++ [0] else []

/-- The string that stands for a value in the protocol description. -/
def meant (value : Value) : TdhsString := value.elim [] (· ++ [0])

/-- The table information of a request, under a reading of its strings. -/
def Table.decoded (text : Value → TdhsString) (table : Table) : TdhsRequestTable :=
  ⟨table.fields.length, lower table.db ++ [0], lower table.table ++ [0],
    if isTrue table.index then table.index.getD [] ++ [0] else primaryString,
    table.fields.map fun field ↦ text (some field)⟩

/-- A key of a request, under a reading of its strings. -/
def decodedKey (text : Value → TdhsString) (key : List Value) : TdhsGetKey :=
  ⟨key.length, key.map text⟩

/-- A filter of a request, under a reading of its strings. -/
def Filter.decoded (text : Value → TdhsString) (filter : Filter) : FilterEntry :=
  ⟨text (some filter.field), .ofCode filter.flag.toNat, text filter.value⟩

/-- The rows of a request, under a reading of its strings. -/
def Selection.decoded (text : Value → TdhsString) (selection : Selection) : TdhsRequestGet :=
  ⟨selection.key.length, rKeys, selection.key.map (decodedKey text),
    .ofCode (selection.findFlag.getD 0).toNat, selection.start.toNat,
    (selection.limit.getD 0).toNat,
    ⟨selection.filters.length, selection.filters.map (Filter.decoded text)⟩⟩

/-- A value of a request, under a reading of its strings. -/
def Update.decoded (text : Value → TdhsString) (update : Update) : ValueEntry :=
  ⟨.ofCode update.flag.toNat, text update.value⟩

/-- The values of a request, under a reading of its strings. -/
def decodedValues (text : Value → TdhsString) (updates : List Update) : TdhsRequestValues :=
  ⟨updates.length, updates.map (Update.decoded text)⟩

namespace Request

/-- The request on the server, under a reading of its strings: database and table in lower case, the
index `PRIMARY` where none is given. -/
def decoded (text : Value → TdhsString) : Request → TdhsRequest
  | .get table selection => ⟨.get, table.decoded text, selection.decoded text, zeroValues⟩
  | .count table selection => ⟨.count, table.decoded text, selection.decoded text, zeroValues⟩
  | .update table selection updates =>
    ⟨.update, table.decoded text, selection.decoded text, decodedValues text updates⟩
  | .delete table selection => ⟨.delete, table.decoded text, selection.decoded text, zeroValues⟩
  | .insert table values => ⟨.insert, table.decoded text, zeroGet, decodedValues text values⟩

/-- The table of a request. -/
def table : Request → Table
  | .get table _ => table
  | .count table _ => table
  | .update table _ _ => table
  | .delete table _ => table
  | .insert table _ => table

/-- The rows of a request that selects some. -/
def selection : Request → Option Selection
  | .get _ selection => some selection
  | .count _ selection => some selection
  | .update _ selection _ => some selection
  | .delete _ selection => some selection
  | .insert _ _ => none

/-- The values of a request. -/
def updates : Request → List Update
  | .update _ _ updates => updates
  | .insert _ values => values
  | _ => []

end Request

/-- The strings that select rows. -/
def Selection.texts (selection : Selection) : List Value :=
  selection.key.flatten ++ selection.filters.flatMap fun filter ↦ [some filter.field, filter.value]

/-- The strings of a request besides the names of the database, the table and the index. -/
def Request.texts (request : Request) : List Value :=
  request.table.fields.map some ++ request.selection.elim [] Selection.texts ++
    request.updates.map Update.value

/-! ### Requests the encoders are made for -/

/-- An ASCII string without NUL. -/
def IsAscii (text : Text) : Prop := ∀ byte ∈ text, 0 < byte ∧ byte < 128

/-- A key is there and no key is empty, at most ten keys of at most ten parts, at most 256 filters,
and two keys for BETWEEN. -/
structure Selection.InRange (selection : Selection) : Prop where
  key_ne : selection.key ≠ []
  parts_ne : ∀ key ∈ selection.key, key ≠ []
  key_le : selection.key.length ≤ requestMaxInNum
  parts_le : ∀ key ∈ selection.key, key.length ≤ requestMaxKeyNum
  filters_le : selection.filters.length ≤ requestMaxFieldNum
  between : selection.findFlag = some 7 → 2 ≤ selection.key.length

/-- The strings of a request are ASCII strings without NUL, and its parts fit the arrays of the
server. -/
structure Request.InRange (request : Request) : Prop where
  db_ascii : IsAscii request.table.db
  table_ascii : IsAscii request.table.table
  index_ascii : ∀ index, request.table.index = some index → IsAscii index
  texts_ascii : ∀ text, some text ∈ request.texts → IsAscii text
  fields_le : request.table.fields.length ≤ requestMaxFieldNum
  updates_le : request.updates.length ≤ requestMaxFieldNum
  selection : ∀ selection, request.selection = some selection → selection.InRange

/-! ### The layout of encoded parts -/

variable {value : ℤ} {Element Wire View : Type} {view : Wire → View} {seen : Element → View}
  {wires : List Wire} {array : List Element} {needField : Bool} {payload bytes : List UInt8}
  {pool : EasyPool} {text other : Value → TdhsString} {request : Request}

theorem packL_eq_some (hpacked : packL value = some bytes) :
    0 ≤ value ∧ value < 2 ^ 32 ∧ bytes = BigEndian.toBytes value.toNat := by
  unfold packL at hpacked
  split_ifs at hpacked with hrange
  exact ⟨hrange.1, hrange.2, (Option.some.inj hpacked).symm⟩

/-- A packed number is a word of the wire. -/
theorem exists_word_of_packL (hpacked : packL value = some bytes) :
    ∃ word : UInt32, word.toNat = value.toNat ∧ bytes = BigEndian.toBytes word.toNat := by
  obtain ⟨hnonneg, hlt, rfl⟩ := packL_eq_some hpacked
  have hword : (UInt32.ofNat value.toNat).toNat = value.toNat :=
    UInt32.toNat_ofNat_of_lt' (by change value.toNat < 2 ^ 32; omega)
  exact ⟨UInt32.ofNat value.toNat, hword, by rw [hword]⟩

/-- A packed flag is a byte of the wire. -/
theorem exists_byte_of_packB (hpacked : packB value = some bytes) :
    ∃ byte : UInt8, byte.toNat = value.toNat ∧ bytes = [byte] := by
  unfold packB at hpacked
  split_ifs at hpacked with hrange
  have hbyte : (UInt8.ofNat value.toNat).toNat = value.toNat :=
    UInt8.toNat_ofNat_of_lt' (by change value.toNat < 2 ^ 8; omega)
  exact ⟨UInt8.ofNat value.toNat, hbyte, (Option.some.inj hpacked).symm⟩

/-- A packed count is the count in front of a list. -/
theorem count_of_packL {count : ℕ} (hpacked : packL count = some bytes) :
    count < 2 ^ 32 ∧ bytes = BigEndian.toBytes count := by
  obtain ⟨-, hlt, rfl⟩ := packL_eq_some hpacked
  exact ⟨by omega, by rw [Int.toNat_natCast]⟩

/-- An encoded string is the string that was sent. -/
theorem wire_of_addStrToBinary {value : Value}
    (hadded : addStrToBinary value = some bytes) :
    ∃ wire : WireString, wire.bytes = sent value ∧ bytes = wire.encode := by
  unfold addStrToBinary at hadded
  split_ifs at hadded with htrue
  · obtain ⟨length, hlength, hbytes⟩ := Option.bind_eq_some_iff.mp hadded
    have hcount : (((value.getD []).length : ℤ) + 1) = ((value.getD [] ++ [0]).length : ℕ) := by
      rw [List.length_append, List.length_singleton]
      rfl
    rw [hcount] at hlength
    obtain ⟨hlt, rfl⟩ := count_of_packL hlength
    cases hbytes
    refine ⟨⟨value.getD [] ++ [0], hlt, by simp [isCString]⟩, (if_pos htrue).symm, ?_⟩
    rw [WireString.encode, List.append_assoc]
  · obtain ⟨-, rfl⟩ := count_of_packL (show packL (0 : ℕ) = some bytes from hadded)
    exact ⟨⟨[], by decide, rfl⟩, (if_neg htrue).symm, rfl⟩

/-- The index of a table is encoded as any string is. -/
theorem wire_of_indexToBinary {info : TableInfo}
    (hadded : info.indexToBinary = some bytes) :
    ∃ wire : WireString, wire.bytes = sent info.index ∧ bytes = wire.encode := by
  refine wire_of_addStrToBinary ?_
  unfold TableInfo.indexToBinary at hadded
  split_ifs at hadded with htrue
  · exact hadded
  · rw [addStrToBinary, if_neg htrue, hadded]

/-- Lists with the same image have the same length. -/
theorem length_eq_of_map (hviews : wires.map view = array.map seen) :
    wires.length = array.length := by
  rw [← List.length_map, hviews, List.length_map]

section

variable {add : Element → Option (List UInt8)} {encode : Wire → List UInt8}
  (hadd : ∀ element bytes, add element = some bytes →
    ∃ wire, view wire = seen element ∧ bytes = encode wire)

include hadd

/-- The encoding of a list, where the encoding of each element is known. -/
theorem wires_of_addAll
    (hadded : addAll add array = some bytes) :
    ∃ wires : List Wire, wires.map view = array.map seen ∧ bytes = wires.flatMap encode := by
  obtain ⟨parts, hparts, rfl⟩ := Option.map_eq_some_iff.mp hadded
  clear hadded
  induction array generalizing parts with
  | nil =>
    cases hparts
    exact ⟨[], rfl, rfl⟩
  | cons element array ih =>
    rw [List.mapM_cons] at hparts
    obtain ⟨first, hfirst, hrest⟩ := Option.bind_eq_some_iff.mp hparts
    obtain ⟨others, hothers, hall⟩ := Option.bind_eq_some_iff.mp hrest
    cases hall
    obtain ⟨wire, hview, rfl⟩ := hadd element first hfirst
    obtain ⟨wires, hviews, hbytes⟩ := ih others hothers
    refine ⟨wire :: wires, ?_, ?_⟩
    · rw [List.map_cons, List.map_cons, hview, hviews]
    · rw [List.flatten_cons, List.flatMap_cons, hbytes]

/-- The encoding of an array: its count and its elements. -/
theorem wires_of_addArrayToBinary
    (hadded : addArrayToBinary add array = some bytes) :
    ∃ wires : List Wire, wires.length < 2 ^ 32 ∧ wires.map view = array.map seen ∧
      bytes = BigEndian.toBytes wires.length ++ wires.flatMap encode := by
  unfold addArrayToBinary at hadded
  obtain ⟨count, hcount, hrest⟩ := Option.bind_eq_some_iff.mp hadded
  obtain ⟨elements, helements, hbytes⟩ := Option.bind_eq_some_iff.mp hrest
  obtain ⟨hlt, rfl⟩ := count_of_packL hcount
  obtain ⟨wires, hviews, rfl⟩ := wires_of_addAll hadd helements
  cases hbytes
  rw [← length_eq_of_map hviews] at hlt ⊢
  exact ⟨wires, hlt, hviews, rfl⟩

end

/-- The encoding of a table. Assumes: the client accepts it. -/
theorem wire_of_tableInfo {table : Table}
    (hadded : (table.info needField).toBinary = some bytes) :
    ∃ wire : WireTable, wire.decoded = table.decoded sent ∧ bytes = wire.encode ∧
      wire.IsDocumented needField := by
  unfold TableInfo.toBinary at hadded
  split_ifs at hadded with hvaild
  obtain ⟨db, hdb, hrest⟩ := Option.bind_eq_some_iff.mp hadded
  obtain ⟨name, hname, hrest⟩ := Option.bind_eq_some_iff.mp hrest
  obtain ⟨index, hindex, hrest⟩ := Option.bind_eq_some_iff.mp hrest
  obtain ⟨fields, hfields, hbytes⟩ := Option.bind_eq_some_iff.mp hrest
  cases hbytes
  obtain ⟨hnames, hfield⟩ : (isTrue (some (lower table.db)) = true ∧
      isTrue (some (lower table.table)) = true) ∧ (needField = true → table.fields ≠ []) := by
    simpa [TableInfo.isVaild, Table.info, tableInfo, imp_iff_not_or] using hvaild
  obtain ⟨wireDb, hwireDb, rfl⟩ := wire_of_addStrToBinary hdb
  obtain ⟨wireName, hwireName, rfl⟩ := wire_of_addStrToBinary hname
  obtain ⟨wires, hlt, hviews, rfl⟩ :=
    wires_of_addArrayToBinary (fun _ _ ↦ wire_of_addStrToBinary) hfields
  obtain ⟨wireIndex, hwireIndex, rfl⟩ := wire_of_indexToBinary hindex
  have hdbSent : wireDb.bytes = lower table.db ++ [0] := hwireDb.trans (if_pos hnames.1)
  have hnameSent : wireName.bytes = lower table.table ++ [0] := hwireName.trans (if_pos hnames.2)
  have hlength : wires.length = table.fields.length := length_eq_of_map hviews
  refine ⟨⟨wireDb, wireName, wireIndex, wires, hlt⟩, ?_, ?_, ?_⟩
  · have hprimary : wireIndex.orPrimary =
        if isTrue table.index then table.index.getD [] ++ [0] else primaryString := by
      have hbytes : wireIndex.bytes = sent table.index := hwireIndex
      rw [WireString.orPrimary, hbytes, sent]
      by_cases htrue : isTrue table.index = true
      · rw [if_pos htrue, if_pos htrue, if_neg (by simp)]
      · rw [if_neg htrue, if_neg htrue, if_pos rfl]
    rw [WireTable.decoded, Table.decoded, hprimary, hdbSent, hnameSent, hviews, hlength]
    rfl
  · simp only [WireTable.encode, List.append_assoc]
  · refine ⟨by simp [hdbSent], by simp [hnameSent], fun hneed ↦ ?_⟩
    exact List.length_pos_iff.mp (hlength ▸ List.length_pos_iff.mpr (hfield hneed))

theorem wire_of_key {key : List Value}
    (hadded : addArrayToBinary addStrToBinary key = some bytes) :
    ∃ wire : WireKey, wire.request = decodedKey sent key ∧ bytes = wire.encode := by
  obtain ⟨parts, hlt, hviews, rfl⟩ :=
    wires_of_addArrayToBinary (fun _ _ ↦ wire_of_addStrToBinary) hadded
  refine ⟨⟨parts, hlt⟩, ?_, rfl⟩
  rw [WireKey.request, decodedKey, hviews, length_eq_of_map hviews]

/-- The encoding of a filter, with its flag. -/
theorem wire_of_filter {filter : Filter}
    (hadded : filter.toBinary = some bytes) :
    ∃ wire : WireFilter, (wire.raw.entry, wire.flag.toNat) =
      (filter.decoded sent, filter.flag.toNat) ∧ bytes = wire.encode := by
  obtain ⟨field, hfield, hrest⟩ := Option.bind_eq_some_iff.mp hadded
  obtain ⟨flag, hflag, hrest⟩ := Option.bind_eq_some_iff.mp hrest
  obtain ⟨value, hvalue, hbytes⟩ := Option.bind_eq_some_iff.mp hrest
  cases hbytes
  obtain ⟨wireField, hwireField, rfl⟩ := wire_of_addStrToBinary hfield
  obtain ⟨byte, hbyte, rfl⟩ := exists_byte_of_packB hflag
  obtain ⟨wireValue, hwireValue, rfl⟩ := wire_of_addStrToBinary hvalue
  refine ⟨⟨wireField, byte, wireValue⟩, ?_, ?_⟩
  · rw [WireFilter.raw, RawFilter.entry, Filter.decoded, hwireField, hwireValue, hbyte]
  · simp only [WireFilter.encode, List.append_assoc]

/-- The encoding of a value, with its flag. -/
theorem wire_of_update {update : Update}
    (hadded : update.toBinary = some bytes) :
    ∃ wire : WireValue, (wire.raw.entry, wire.flag.toNat) =
      (update.decoded sent, update.flag.toNat) ∧ bytes = wire.encode := by
  obtain ⟨flag, hflag, hrest⟩ := Option.bind_eq_some_iff.mp hadded
  obtain ⟨value, hvalue, hbytes⟩ := Option.bind_eq_some_iff.mp hrest
  cases hbytes
  obtain ⟨byte, hbyte, rfl⟩ := exists_byte_of_packB hflag
  obtain ⟨wireValue, hwireValue, rfl⟩ := wire_of_addStrToBinary hvalue
  refine ⟨⟨byte, wireValue⟩, ?_, rfl⟩
  rw [WireValue.raw, RawValue.entry, Update.decoded, hwireValue, hbyte]

/-- What holds for the numbers of the elements of a list holds for those of its encoding. -/
theorem forall_wires {view : Wire → View × ℕ} {seen : Element → View × ℕ}
    (hviews : wires.map view = array.map seen) (Good : ℕ → Prop)
    (hgood : ∀ element ∈ array, Good (seen element).2) :
    ∀ wire ∈ wires, Good (view wire).2 := by
  intro wire hwire
  have hmem : view wire ∈ array.map seen := hviews ▸ List.mem_map_of_mem hwire
  obtain ⟨element, helement, hseen⟩ := List.mem_map.mp hmem
  exact hseen ▸ hgood element helement

/-- The first components of a list of pairs, computed on both sides of an encoding. -/
theorem map_fst_eq {view : Wire → View × ℕ} {seen : Element → View × ℕ}
    (hviews : wires.map view = array.map seen) :
    (wires.map fun wire ↦ (view wire).1) = array.map fun element ↦ (seen element).1 := by
  have hfirst := congrArg (List.map Prod.fst) hviews
  rwa [List.map_map, List.map_map] at hfirst

/-- The encoding of the values of a request. Assumes: the client accepts them. -/
theorem wire_of_values {updates : List Update} {fields : List Text}
    (hadded : valuesToBinary updates fields = some bytes) :
    ∃ wire : WireValues, wire.decoded = decodedValues sent updates ∧ bytes = wire.encode ∧
      wire.IsDocumented fields.length := by
  unfold valuesToBinary at hadded
  split_ifs at hadded with hvaild
  obtain ⟨hknown, hcount⟩ : (∀ update ∈ updates, 0 ≤ update.flag ∧ update.flag < 4) ∧
      updates.length = fields.length := by
    simpa [Update.isKnown] using hvaild
  obtain ⟨num, hnum, hrest⟩ := Option.bind_eq_some_iff.mp hadded
  obtain ⟨values, hvalues, hbytes⟩ := Option.bind_eq_some_iff.mp hrest
  cases hbytes
  obtain ⟨hlt, rfl⟩ := count_of_packL hnum
  obtain ⟨wires, hviews, rfl⟩ := wires_of_addAll (fun _ _ ↦ wire_of_update) hvalues
  have hlength := length_eq_of_map hviews
  have hentries : (wires.map fun wire ↦ wire.raw.entry) = updates.map (Update.decoded sent) :=
    map_fst_eq hviews
  refine ⟨⟨wires, hlength ▸ hlt⟩, ?_, ?_, hlength.trans hcount,
    forall_wires hviews (· < 4) fun update hupdate ↦ ?_⟩
  · simp only [WireValues.decoded, decodedValues, hlength, hentries]
  · simp only [WireValues.encode, hlength]
  · have hflag := hknown update hupdate
    omega

/-- The encoding of the table and the rows of a request. Assumes: the client accepts them, and the
rows are in range. -/
theorem wire_of_get {table : Table} {selection : Selection}
    (hrange : selection.InRange)
    (hadded : (selection.get (table.info needField)).toBinary = some bytes) :
    ∃ wire : WireGet, wire.tableInfo.decoded = table.decoded sent ∧
      wire.decoded (fun _ ↦ rKeys) = selection.decoded sent ∧ bytes = wire.encode ∧
      wire.IsDocumented needField := by
  unfold Get.toBinary at hadded
  split_ifs at hadded with hvaild
  obtain ⟨info, hinfo, hrest⟩ := Option.bind_eq_some_iff.mp hadded
  obtain ⟨key, hkey, hrest⟩ := Option.bind_eq_some_iff.mp hrest
  obtain ⟨flag, hflag, hrest⟩ := Option.bind_eq_some_iff.mp hrest
  obtain ⟨start, hstart, hrest⟩ := Option.bind_eq_some_iff.mp hrest
  obtain ⟨limit, hlimit, hrest⟩ := Option.bind_eq_some_iff.mp hrest
  obtain ⟨filterNum, hfilterNum, hrest⟩ := Option.bind_eq_some_iff.mp hrest
  obtain ⟨filters, hfilters, hbytes⟩ := Option.bind_eq_some_iff.mp hrest
  cases hbytes
  obtain ⟨hknown, hrows⟩ : (∀ filter ∈ selection.filters, 0 ≤ filter.flag ∧ filter.flag ≤ 5) ∧
      ((selection.get (table.info needField)).isVaild = true) := by
    simpa [Filter.isKnown, Selection.get] using hvaild
  obtain ⟨findFlag, hfindFlag, hpackedFlag⟩ := Option.bind_eq_some_iff.mp hflag
  obtain ⟨rows, hrowsLimit, hpackedLimit⟩ := Option.bind_eq_some_iff.mp hlimit
  obtain ⟨wireTable, htable, rfl, hdocumented⟩ := wire_of_tableInfo hinfo
  obtain ⟨wireKeys, hkeysLt, hkeys, rfl⟩ := wires_of_addArrayToBinary (fun _ _ ↦ wire_of_key) hkey
  obtain ⟨byte, hbyte, rfl⟩ := exists_byte_of_packB hpackedFlag
  obtain ⟨startWord, hstartWord, rfl⟩ := exists_word_of_packL hstart
  obtain ⟨limitWord, hlimitWord, rfl⟩ := exists_word_of_packL hpackedLimit
  obtain ⟨hfiltersLt, rfl⟩ := count_of_packL hfilterNum
  obtain ⟨wireFilters, hentries, rfl⟩ := wires_of_addAll (fun _ _ ↦ wire_of_filter) hfilters
  have hkeyLength : wireKeys.length = selection.key.length := length_eq_of_map hkeys
  have hfilterLength : wireFilters.length = selection.filters.length := length_eq_of_map hentries
  have hflagRange : 0 ≤ findFlag ∧ findFlag ≤ 7 := by
    have hsome : selection.findFlag = some findFlag := hfindFlag
    simp only [Get.isVaild, Selection.get, hsome, Bool.and_eq_true] at hrows
    simpa using hrows.2
  refine ⟨⟨wireTable, wireKeys, ⟨byte, startWord, limitWord⟩,
    ⟨wireFilters, hfilterLength ▸ hfiltersLt⟩,
    hkeysLt⟩, htable, ?_, ?_, ?_⟩
  · have hsome : selection.findFlag = some findFlag := hfindFlag
    have hsomeLimit : selection.limit = some rows := hrowsLimit
    have hkeyViews : wireKeys.map WireKey.request = selection.key.map (decodedKey sent) := hkeys
    have hfilterViews : (wireFilters.map fun wire ↦ wire.raw.entry) =
        selection.filters.map (Filter.decoded sent) := map_fst_eq hentries
    simp only [WireGet.decoded, Selection.decoded, hkeyViews, hfilterViews, hkeyLength,
      hfilterLength, hbyte, hstartWord, hlimitWord, hsome, hsomeLimit, Option.getD_some]
    rfl
  · simp only [WireGet.encode, WireRange.encode, WireFilters.encode, hfilterLength,
      List.append_assoc]
    rfl
  · refine ⟨hdocumented, ?_, ?_, ?_, ?_,
      forall_wires hentries (· < 6) fun filter hfilter ↦ ?_⟩
    · exact List.length_pos_iff.mp (hkeyLength ▸ List.length_pos_iff.mpr hrange.key_ne)
    · intro wire hwire
      have hmem : wire.request ∈ selection.key.map (decodedKey sent) :=
        hkeys ▸ List.mem_map_of_mem hwire
      obtain ⟨key, hkey, hsame⟩ := List.mem_map.mp hmem
      have hlength : key.length = wire.parts.length := congrArg TdhsGetKey.keyFieldNum hsame
      exact List.length_pos_iff.mp (hlength ▸ List.length_pos_iff.mpr (hrange.parts_ne key hkey))
    · change byte.toNat < 8
      omega
    · intro hbetween
      have hseven : byte.toNat = 7 := hbetween
      rw [hkeyLength]
      refine hrange.between ?_
      have hvalue : findFlag = 7 := by omega
      exact hvalue ▸ hfindFlag
    · have hflag := hknown filter hfilter
      omega

/-- The payload of a request is the encoding of a documented request, which has the strings the
client sent. -/
theorem wire_of_toBinary (hrange : request.InRange)
    (haccepted : request.toBinary = some payload) :
    ∃ wire : WireRequest, wire.type = request.type ∧ wire.IsDocumented ∧
      wire.decoded (fun _ ↦ rKeys) = request.decoded sent ∧ payload = wire.encode := by
  cases request with
  | get table selection =>
    obtain ⟨wire, htable, hget, rfl, hdocumented⟩ :=
      wire_of_get (hrange.selection selection rfl) haccepted
    refine ⟨.get wire, rfl, hdocumented, ?_, rfl⟩
    rw [WireRequest.decoded, Request.decoded, htable, hget]
  | count table selection =>
    obtain ⟨wire, htable, hget, rfl, hdocumented⟩ :=
      wire_of_get (hrange.selection selection rfl) haccepted
    refine ⟨.count wire, rfl, hdocumented, ?_, rfl⟩
    rw [WireRequest.decoded, Request.decoded, htable, hget]
  | update table selection updates =>
    obtain ⟨get, hgetBytes, hrest⟩ := Option.bind_eq_some_iff.mp haccepted
    obtain ⟨values, hvaluesBytes, hbytes⟩ := Option.bind_eq_some_iff.mp hrest
    cases hbytes
    obtain ⟨wire, htable, hget, rfl, hdocumented⟩ :=
      wire_of_get (hrange.selection selection rfl) hgetBytes
    obtain ⟨wireValues, hvalues, rfl, hvaluesDocumented⟩ := wire_of_values hvaluesBytes
    refine ⟨.update wire wireValues, rfl, ⟨hdocumented, ?_⟩, ?_, rfl⟩
    · have hfields : wire.tableInfo.fields.length = table.fields.length :=
        congrArg TdhsRequestTable.fieldNum htable
      rwa [hfields]
    · rw [WireRequest.decoded, Request.decoded, htable, hget, hvalues]
  | delete table selection =>
    obtain ⟨wire, htable, hget, rfl, hdocumented⟩ :=
      wire_of_get (hrange.selection selection rfl) haccepted
    refine ⟨.delete wire, rfl, hdocumented, ?_, rfl⟩
    rw [WireRequest.decoded, Request.decoded, htable, hget]
  | insert table values =>
    obtain ⟨info, hinfo, hrest⟩ := Option.bind_eq_some_iff.mp haccepted
    obtain ⟨updates, hvaluesBytes, hbytes⟩ := Option.bind_eq_some_iff.mp hrest
    cases hbytes
    obtain ⟨wire, htable, rfl, hdocumented⟩ := wire_of_tableInfo hinfo
    obtain ⟨wireValues, hvalues, rfl, hvaluesDocumented⟩ := wire_of_values hvaluesBytes
    refine ⟨.insert wire wireValues, rfl,
      ⟨⟨hdocumented.db_ne, hdocumented.table_ne, by simp⟩, ?_⟩, ?_, rfl⟩
    · have hfields : wire.fields.length = table.fields.length :=
        congrArg TdhsRequestTable.fieldNum htable
      rwa [hfields]
    · rw [WireRequest.decoded, Request.decoded, htable, hvalues]

/-! ### The round trip -/

/-- The version 1 decoder stores every element of a request that is in range. -/
theorem stored_of_inRange {wire : WireRequest} (hrange : request.InRange)
    (hdecoded : wire.decoded (fun _ ↦ rKeys) = request.decoded sent) :
    wire.Stored binary pool := by
  have hfields := hrange.fields_le
  have hupdates := hrange.updates_le
  have hget : ∀ (part : WireGet) (table : Table) (selection : Selection),
      part.tableInfo.decoded = table.decoded sent →
      part.decoded (fun _ ↦ rKeys) = selection.decoded sent →
      table.fields.length ≤ requestMaxFieldNum → selection.InRange → part.Stored binary pool := by
    intro part table selection htable hrows hfieldsLe hselection
    have hnumber : part.tableInfo.fields.length = table.fields.length :=
      congrArg TdhsRequestTable.fieldNum htable
    have hkeys : part.keys.length = selection.key.length := congrArg TdhsRequestGet.keyNum hrows
    have hfilters : part.filters.filters.length = selection.filters.length :=
      congrArg (fun get ↦ get.filter.filterNum) hrows
    exact ⟨hnumber ▸ hfieldsLe, hfilters ▸ hselection.filters_le, hkeys ▸ hselection.key_le⟩
  have htableInfo := congrArg TdhsRequest.tableInfo hdecoded
  have hrows := congrArg TdhsRequest.get hdecoded
  have hvalueNum := congrArg (fun request ↦ request.values.valueNum) hdecoded
  have htype := congrArg TdhsRequest.type hdecoded
  cases request <;> cases wire <;> cases htype
  · exact hget _ _ _ htableInfo hrows hfields (hrange.selection _ rfl)
  · exact hget _ _ _ htableInfo hrows hfields (hrange.selection _ rfl)
  · exact ⟨hget _ _ _ htableInfo hrows hfields (hrange.selection _ rfl),
      hvalueNum.trans_le hupdates⟩
  · exact hget _ _ _ htableInfo hrows hfields (hrange.selection _ rfl)
  · exact ⟨(congrArg TdhsRequestTable.fieldNum htableInfo).trans_le hfields,
      hvalueNum.trans_le hupdates⟩

theorem Request.type_ne_batch (request : Request) : request.type ≠ .batch := by
  cases request <;> simp [Request.type]

/-- The version 1 decoder returns the request with the strings the client sent. Assumes: the request
is in range and the client accepts it. -/
theorem decoded_of_toBinary {stray : ℕ → ℕ} (hrange : request.InRange)
    (haccepted : request.toBinary = some payload) :
    (Reader.runOn (decoderOf binary pool stray request.type) [] payload).result =
      .ok (request.decoded sent) := by
  obtain ⟨wire, hwire, hdocumented, hdecoded, hpayload⟩ := wire_of_toBinary hrange haccepted
  have hbatch := request.type_ne_batch
  rw [← hdecoded]
  exact decoderOf_of_documented hbatch (stored_of_inRange hrange hdecoded) hpayload hwire
    hdocumented

/-- The sent string is the meant one, except for the empty string. -/
theorem sent_eq_meant_iff (value : Value) : sent value = meant value ↔ value ≠ some [] := by
  cases value with
  | none => simp [sent, meant, isTrue]
  | some text =>
    cases text with
    | nil => simp [sent, meant, isTrue]
    | cons byte text => simp [sent, meant, isTrue]

theorem Table.decoded_inj {table : Table} :
    table.decoded text = table.decoded other ↔
      ∀ value ∈ table.fields.map some, text value = other value := by
  simp [Table.decoded]

theorem decodedValues_inj {updates : List Update} :
    decodedValues text updates = decodedValues other updates ↔
      ∀ value ∈ updates.map Update.value, text value = other value := by
  simp [decodedValues, Update.decoded]

theorem Selection.decoded_inj {selection : Selection} :
    selection.decoded text = selection.decoded other ↔
      ∀ value ∈ selection.texts, text value = other value := by
  have hkeys : (selection.key.map (decodedKey text) = selection.key.map (decodedKey other)) ↔
      ∀ value ∈ selection.key.flatten, text value = other value := by
    simp only [List.map_inj_left, decodedKey, TdhsGetKey.mk.injEq, true_and, List.mem_flatten,
      forall_exists_index, and_imp]
    exact ⟨fun hsame value key hkey hvalue ↦ hsame key hkey value hvalue,
      fun hsame key hkey value hvalue ↦ hsame value key hkey hvalue⟩
  have hfilters : (selection.filters.map (Filter.decoded text) =
      selection.filters.map (Filter.decoded other)) ↔
      ∀ value ∈ selection.filters.flatMap fun filter ↦ [some filter.field, filter.value],
        text value = other value := by
    simp only [List.map_inj_left, Filter.decoded, FilterEntry.mk.injEq, true_and, List.mem_flatMap,
      List.mem_cons, List.not_mem_nil, or_false, forall_exists_index, and_imp]
    constructor
    · rintro hsame value filter hfilter (rfl | rfl)
      · exact (hsame filter hfilter).1
      · exact (hsame filter hfilter).2
    · exact fun hsame filter hfilter ↦
        ⟨hsame _ filter hfilter (Or.inl rfl), hsame _ filter hfilter (Or.inr rfl)⟩
  have hboth : selection.decoded text = selection.decoded other ↔
      selection.key.map (decodedKey text) = selection.key.map (decodedKey other) ∧
        selection.filters.map (Filter.decoded text) =
          selection.filters.map (Filter.decoded other) := by
    simp only [Selection.decoded, TdhsRequestGet.mk.injEq, TdhsFilter.mk.injEq, true_and]
  rw [hboth, hkeys, hfilters, Selection.texts]
  simp only [List.mem_append, or_imp, forall_and]

/-- A request is the same under two readings exactly when they agree on its strings. -/
theorem Request.decoded_inj :
    request.decoded text = request.decoded other ↔
      ∀ value ∈ request.texts, text value = other value := by
  have hsplit : (∀ value ∈ request.texts, text value = other value) ↔
      request.table.decoded text = request.table.decoded other ∧
      (∀ value ∈ request.selection.elim [] Selection.texts, text value = other value) ∧
      decodedValues text request.updates = decodedValues other request.updates := by
    rw [Table.decoded_inj, decodedValues_inj]
    simp only [Request.texts, List.mem_append, or_imp, forall_and, and_assoc]
  rw [hsplit]
  cases request with
  | insert table values => simp [Request.decoded, Request.table, Request.selection, Request.updates]
  | update table selection updates =>
    simp [Request.decoded, Request.table, Request.selection, Request.updates,
      ← Selection.decoded_inj]
  | get table selection =>
    simp [Request.decoded, Request.table, Request.selection, Request.updates,
      ← Selection.decoded_inj, decodedValues]
  | count table selection =>
    simp [Request.decoded, Request.table, Request.selection, Request.updates,
      ← Selection.decoded_inj, decodedValues]
  | delete table selection =>
    simp [Request.decoded, Request.table, Request.selection, Request.updates,
      ← Selection.decoded_inj, decodedValues]

/-- `decode_request_by_binary` on the payload of a request: it succeeds with the request as it is
meant exactly when no field, key part, filter or value is the empty string. Assumes: the request is
in range, the client accepts it, and the packet has its payload and its type. -/
theorem round_trip_iff (pool : EasyPool) (stray : ℕ → ℕ) (request : Request)
    (payload : List UInt8) (chain : PacketChain) (hrange : request.InRange)
    (haccepted : request.toBinary = some payload) (hrdata : chain.packet.rdata = payload)
    (hlength : chain.packet.length = payload.length)
    (htype : requestTypeOf chain.packet.commandIdOrResponseCode = some request.type) :
    ((decodeRequest ⟨binary, pool, stray⟩ chain).ret = none ∧
      ∃ trace, (decodeRequest ⟨binary, pool, stray⟩ chain).calls =
        [⟨0, chain.packet, trace, some (request.decoded meant)⟩]) ↔
    ∀ value ∈ request.texts, value ≠ some [] := by
  have hbatch := request.type_ne_batch
  rw [decodeRequest_of_type htype hbatch,
    decodeSingle_accepts_iff (hlength.trans (congrArg List.length hrdata.symm)), hrdata,
    decoded_of_toBinary hrange haccepted, Except.ok.injEq, Request.decoded_inj]
  exact forall₂_congr fun value _ ↦ sent_eq_meant_iff value

/-- `UPDATE a.b SET c = '' WHERE id = '1'`. -/
def updateToEmpty : Request :=
  .update ⟨[97], [98], none, [[99]]⟩ ⟨[[some [49]]], some 0, 0, some 0, []⟩ [⟨0, some []⟩]

/-- `UPDATE A.b SET c = NULL WHERE id = '1'`. -/
def updateToNull : Request :=
  .update ⟨[65], [98], none, [[99]]⟩ ⟨[[some [49]]], some 0, 0, some 0, []⟩ [⟨0, none⟩]

/-- The payload of both. -/
def updatePayload : List UInt8 :=
  [0, 0, 0, 2, 97, 0, 0, 0, 0, 2, 98, 0, 0, 0, 0, 0, 0, 0, 0, 1, 0, 0, 0, 2, 99, 0,
    0, 0, 0, 1, 0, 0, 0, 1, 0, 0, 0, 2, 49, 0, 0, 0, 0, 0, 0, 0, 0, 0, 0, 0, 0, 0, 0,
    0, 0, 0, 1, 0, 0, 0, 0, 0]

/-- Its packet. -/
def updateChain : PacketChain := ⟨⟨10, 1, 0, 62, updatePayload⟩, []⟩

theorem inRange_update {db : Text} {value : Update} (hdb : IsAscii db)
    (hvalue : ∀ text, value.value = some text → IsAscii text) :
    (Request.update ⟨db, [98], none, [[99]]⟩ ⟨[[some [49]]], some 0, 0, some 0, []⟩
      [value]).InRange where
  db_ascii := hdb
  table_ascii := by simp [IsAscii, Request.table]
  index_ascii := by simp [Request.table]
  texts_ascii := by
    intro text htext
    simp only [Request.texts, Request.table, Request.selection, Request.updates, Selection.texts,
      Option.elim_some, List.map_cons, List.map_nil, List.flatten_cons, List.flatten_nil,
      List.flatMap_nil, List.append_nil, List.cons_append, List.nil_append, List.mem_cons,
      List.not_mem_nil, or_false, Option.some.injEq] at htext
    rcases htext with rfl | rfl | hsome
    · simp [IsAscii]
    · simp [IsAscii]
    · exact hvalue text hsome.symm
  fields_le := by simp [Request.table, requestMaxFieldNum]
  updates_le := by simp [Request.updates, requestMaxFieldNum]
  selection := by
    rintro selection hselection
    cases hselection
    exact ⟨by decide, by decide, by decide, by decide, by decide, by decide⟩

theorem round_trip_iff_updateToNull :
    (decodeRequest ⟨binary, roomyPool, fun _ ↦ 0⟩ updateChain).ret = none :=
  ((round_trip_iff roomyPool (fun _ ↦ 0) updateToNull updatePayload updateChain
    (inRange_update (by simp [IsAscii]) (by simp)) (by decide) rfl rfl rfl).mpr (by decide)).1

/-- The update to the empty string arrives as the update to NULL. -/
theorem empty_string_decoded_as_null :
    updateToEmpty.InRange ∧ updateToEmpty.toBinary = some updatePayload ∧
      ¬∃ trace, (decodeRequest ⟨binary, roomyPool, fun _ ↦ 0⟩ updateChain).calls =
        [⟨0, updateChain.packet, trace, some (updateToEmpty.decoded meant)⟩] := by
  have hpayload : updateToEmpty.toBinary = some updatePayload := by decide
  refine ⟨inRange_update (by simp [IsAscii]) (by simp [IsAscii]), hpayload, ?_⟩
  rintro ⟨trace, hcalls⟩
  have hrequest : ((decodeRequest ⟨binary, roomyPool, fun _ ↦ 0⟩ updateChain).calls.map
      Call.request) = [some (updateToEmpty.decoded sent)] := by decide +kernel
  rw [hcalls, List.map_singleton, List.singleton_inj, Option.some_inj] at hrequest
  exact absurd hrequest (by decide +kernel)

end TdhSocket.Client
