import TdhSocket.Execute.Rows

/-!
# The packed buffer of the filters

`calc_filter_buf_size`, `fill_filter_buf` and `filter_record` of `tdh_socket_dbutil.hpp` with the
buffer they share. The size is added up, the values are stored one by one in the record buffer of
the table and copied from there, and each record is compared with what lies in the buffer; all three
loops pass over the filters with a NULL value, and each keeps its own position. A copy or a
comparison past the end of the buffer has no value here.

`Column` is what is assumed of MySQL: the bytes of a column in a record mean a value, `store` leaves
the value of the text it is given, `cmp` compares values, and the values are totally ordered.
`fillLoop_eq` says what the buffer holds after it was filled and `filterRecordAt_cons` that each
filter is compared at its own place, so `filter_record_iff` is that a record passes exactly when
every filter holds, with NULL as the least value. `filterRecordAt_eq_filterRecord` connects the
positions with `filterRecord`, in which the buffer is consumed from its front.
-/

set_option autoImplicit false

namespace TdhSocket.Execute

open Protocol Decode

variable {Record : Type}

/-! ### The source -/

/-- `memcpy` to a position of a buffer. -/
def copyTo (buffer : List UInt8) (pos : ℕ) (bytes : List UInt8) : Option (List UInt8) :=
  if pos + bytes.length ≤ buffer.length then
    some (buffer.take pos ++ bytes ++ buffer.drop (pos + bytes.length))
  else none

/-- The record buffer after the value of a filter was stored. -/
def BoundFilter.stored (filter : BoundFilter Record) (record : Record) : Record :=
  (filter.field.store (content filter.value) record).2

/-- The loop of `fill_filter_buf`. `ptr` gives the `pack_length()` bytes of a field in a record;
the result is the record buffer, the filter buffer and the last position. -/
def fillLoop (ptr : Field Record → Record → List UInt8) :
    List (BoundFilter Record) → Record → List UInt8 → ℕ → Option (Record × List UInt8 × ℕ)
  | [], record, buffer, pos => some (record, buffer, pos)
  | filter :: filters, record, buffer, pos =>
    if filter.value.length = 0 then fillLoop ptr filters record buffer pos
    else
      (copyTo buffer pos (ptr filter.field (filter.stored record))).bind fun copied ↦
        fillLoop ptr filters (filter.stored record) copied (pos + filter.field.packLength)

/-- `fill_filter_buf`, with its assertion on the last position. -/
def fillFilterBufAt (ptr : Field Record → Record → List UInt8) (filters : List (BoundFilter Record))
    (record : Record) (buffer : List UInt8) : Option (Record × List UInt8) :=
  (fillLoop ptr filters record buffer 0).bind fun filled ↦
    if buffer.length = filled.2.2 ∨ buffer.length - 1 = filled.2.2 then some (filled.1, filled.2.1)
    else none

/-- `field->cmp(bval)`. A comparison may look at one byte behind the value. -/
def cmpAt (record : Record) (field : Field Record) (buffer : List UInt8) (pos : ℕ) : Option ℤ :=
  if pos + field.packLength + 1 ≤ buffer.length then
    some (field.cmp record ((buffer.drop pos).take field.packLength))
  else none

/-- `cv` of `filter_record`. -/
def compareAt (record : Record) (filter : BoundFilter Record) (buffer : List UInt8) (pos : ℕ) :
    Option ℤ :=
  if filter.field.isNull record then some (if filter.value.length = 0 then 0 else -1)
  else if filter.value.length = 0 then some 1
  else cmpAt record filter.field buffer pos

/-- `filter_record`, from a position of the buffer on. -/
def filterRecordAt (record : Record) (buffer : List UInt8) :
    List (BoundFilter Record) → ℕ → Option Bool
  | [], _ => some true
  | filter :: filters, pos =>
    (compareAt record filter buffer pos).bind fun cv ↦
      if !FilterFlag.holds filter.flag cv then some false
      else filterRecordAt record buffer filters
        (if filter.value.length ≠ 0 then pos + filter.field.packLength else pos)

/-! ### Columns -/

/-- What MySQL says of a column: what its bytes in a record mean, that `store` leaves the value of a
text, whatever the record held, and that `cmp` compares. -/
structure Column (ptr : Field Record → Record → List UInt8) (field : Field Record) where
  Value : Type
  [order : LinearOrder Value]
  ptr_length : ∀ record, (ptr field record).length = field.packLength
  read : List UInt8 → Value
  written : List UInt8 → Value
  read_store : ∀ text record, read (ptr field (field.store text record).2) = written text
  read_pack : ∀ text, read (field.pack text) = written text
  cmp_neg : ∀ record bytes, bytes.length = field.packLength →
    (field.cmp record bytes < 0 ↔ read (ptr field record) < read bytes)
  cmp_zero : ∀ record bytes, bytes.length = field.packLength →
    (field.cmp record bytes = 0 ↔ read (ptr field record) = read bytes)

attribute [instance] Column.order

/-- What a flag says of two values. -/
def FilterFlag.Relates {Value : Type} [LinearOrder Value] : FilterFlag → Value → Value → Prop
  | .eq, value, bound => value = bound
  | .ge, value, bound => bound ≤ value
  | .le, value, bound => value ≤ bound
  | .gt, value, bound => bound < value
  | .lt, value, bound => value < bound
  | .not, value, bound => value ≠ bound

variable {ptr : Field Record → Record → List UInt8}

/-- The value of a column in a record, with NULL below all others. -/
def Column.valueOf {field : Field Record} (column : Column ptr field) (record : Record) :
    WithBot column.Value :=
  if field.isNull record then ⊥ else column.read (ptr field record)

/-- The value of a filter, with NULL below all others. -/
def Column.boundOf {field : Field Record} (column : Column ptr field) (value : TdhsString) :
    WithBot column.Value :=
  if value.length = 0 then ⊥ else column.written (content value)

/-- A filter holds of a record. -/
def BoundFilter.Holds (filter : BoundFilter Record) (column : Column ptr filter.field)
    (record : Record) : Prop :=
  FilterFlag.Relates filter.flag (column.valueOf record) (column.boundOf filter.value)

variable {cv : ℤ} {gap buffer : List UInt8}

/-- A number with the sign of a comparison decides every flag. -/
theorem FilterFlag.holds_iff {Value : Type} [LinearOrder Value] {value bound : Value}
    (hneg : cv < 0 ↔ value < bound) (hzero : cv = 0 ↔ value = bound) (flag : FilterFlag) :
    FilterFlag.holds flag cv = true ↔ FilterFlag.Relates flag value bound := by
  have hle : cv ≤ 0 ↔ value ≤ bound := by rw [Int.le_iff_lt_or_eq, hneg, hzero, le_iff_lt_or_eq]
  cases flag with
  | eq => simp [FilterFlag.holds, FilterFlag.Relates, hzero]
  | ge => simp [FilterFlag.holds, FilterFlag.Relates, ← not_lt, hneg]
  | le => simp [FilterFlag.holds, FilterFlag.Relates, hle]
  | gt => simp [FilterFlag.holds, FilterFlag.Relates, ← not_le, hle]
  | lt => simp [FilterFlag.holds, FilterFlag.Relates, hneg]
  | not => simp [FilterFlag.holds, FilterFlag.Relates, hzero]

variable {filter : BoundFilter Record} {table : Table Record}

/-- The result of a comparison decides whether a filter holds, with bytes that mean its value. -/
theorem BoundFilter.holds_iff (column : Column ptr filter.field) {record : Record}
    {bytes : List UInt8}
    (hbytes : filter.value.length ≠ 0 → bytes.length = filter.field.packLength ∧
      column.read bytes = column.written (content filter.value))
    (hcv : cv = if filter.field.isNull record then if filter.value.length = 0 then 0 else -1
      else if filter.value.length = 0 then 1 else filter.field.cmp record bytes) :
    FilterFlag.holds filter.flag cv = true ↔ filter.Holds column record := by
  subst hcv
  refine FilterFlag.holds_iff ?_ ?_ filter.flag
  · unfold Column.valueOf Column.boundOf
    split_ifs with hnull hvalue hvalue
    · simp
    · simp
    · simp
    · obtain ⟨hlength, hread⟩ := hbytes hvalue
      rw [column.cmp_neg record bytes hlength, hread, WithBot.coe_lt_coe]
  · unfold Column.valueOf Column.boundOf
    split_ifs with hnull hvalue hvalue
    · simp
    · simp
    · simp
    · obtain ⟨hlength, hread⟩ := hbytes hvalue
      rw [column.cmp_zero record bytes hlength, hread, WithBot.coe_inj]

/-! ### The buffer after it was filled -/

/-- The bytes of the values that are not NULL, one behind the other. -/
def packed (ptr : Field Record → Record → List UInt8) :
    List (BoundFilter Record) → Record → List UInt8
  | [], _ => []
  | filter :: filters, record =>
    if filter.value.length = 0 then packed ptr filters record
    else
      ptr filter.field (filter.stored record) ++ packed ptr filters (filter.stored record)

/-- The fields of the filters have the length they announce. -/
def HavePackLength (ptr : Field Record → Record → List UInt8)
    (filters : List (BoundFilter Record)) : Prop :=
  ∀ filter ∈ filters, ∀ record, (ptr filter.field record).length = filter.field.packLength

variable {filters : List (BoundFilter Record)}

/-- The size is that of the packed values and one more. -/
theorem length_packed (hlengths : HavePackLength ptr filters)
    (record : Record) : (packed ptr filters record).length + 1 = calcFilterBufSize filters := by
  induction filters generalizing record with
  | nil => rfl
  | cons filter filters ih =>
    have hrest : HavePackLength ptr filters :=
      fun other hother ↦ hlengths other (List.mem_cons_of_mem _ hother)
    have hsum : calcFilterBufSize (filter :: filters) =
        (if filter.value.length = 0 then 0 else filter.field.packLength) +
          calcFilterBufSize filters := by
      simp only [calcFilterBufSize, List.map_cons, List.sum_cons]
      omega
    rw [hsum, packed]
    split_ifs with hvalue
    · rw [ih hrest, Nat.zero_add]
    · rw [List.length_append, hlengths filter List.mem_cons_self, Nat.add_assoc, ih hrest]

/-- A copy replaces as many bytes as it brings. -/
theorem copyTo_append {before bytes : List UInt8} (hgap : gap.length = bytes.length)
    (rest : List UInt8) :
    copyTo (before ++ (gap ++ rest)) before.length bytes = some (before ++ bytes ++ rest) := by
  have hroom : before.length + bytes.length ≤ (before ++ (gap ++ rest)).length := by
    simp only [List.length_append, hgap]
    omega
  have hrest : (before ++ (gap ++ rest)).drop (before.length + bytes.length) = rest := by
    rw [← List.append_assoc]
    exact List.drop_left' (by rw [List.length_append, hgap])
  rw [copyTo, if_pos hroom, List.take_left, hrest]

/-- The loop puts the values behind its position, one behind the other, and nothing else changes. -/
theorem fillLoop_eq (hlengths : HavePackLength ptr filters) (record : Record) (before : List UInt8)
    (hgap : gap.length = (packed ptr filters record).length) (rest : List UInt8) :
    ∃ after, fillLoop ptr filters record (before ++ (gap ++ rest)) before.length =
      some (after, before ++ packed ptr filters record ++ rest,
        (before ++ packed ptr filters record).length) := by
  induction filters generalizing record before gap with
  | nil =>
    obtain rfl : gap = [] := List.length_eq_zero_iff.mp hgap
    exact ⟨record, by simp [fillLoop, packed]⟩
  | cons filter filters ih =>
    have hrest : HavePackLength ptr filters :=
      fun other hother ↦ hlengths other (List.mem_cons_of_mem _ hother)
    rw [packed] at hgap ⊢
    rw [fillLoop]
    split_ifs at hgap ⊢ with hvalue
    · exact ih hrest record before hgap
    · generalize filter.stored record = stored at hgap ⊢
      have hlength := hlengths filter List.mem_cons_self stored
      rw [List.length_append] at hgap
      -- The gap is the place of this value and that of the others.
      obtain ⟨place, others, rfl, hplace, hothers⟩ : ∃ place others, gap = place ++ others ∧
          place.length = (ptr filter.field stored).length ∧
          others.length = (packed ptr filters stored).length := by
        refine ⟨gap.take (ptr filter.field stored).length,
          gap.drop (ptr filter.field stored).length, (List.take_append_drop _ _).symm, ?_, ?_⟩
        · rw [List.length_take]
          omega
        · rw [List.length_drop]
          omega
      obtain ⟨after, hafter⟩ := ih hrest stored (before ++ ptr filter.field stored) hothers
      refine ⟨after, ?_⟩
      rw [List.append_assoc place, copyTo_append hplace, Option.bind_some, ← hlength,
        ← List.length_append, hafter]
      simp only [List.append_assoc]

/-- A buffer of the computed size is filled up to its last byte. -/
theorem fillFilterBufAt_eq (hlengths : HavePackLength ptr filters) (record : Record)
    (hsize : buffer.length = calcFilterBufSize filters) :
    ∃ after last, fillFilterBufAt ptr filters record buffer =
      some (after, packed ptr filters record ++ [last]) := by
  have hlength := length_packed hlengths record
  obtain ⟨gap, last, rfl⟩ : ∃ gap last, buffer = gap ++ [last] := by
    rcases List.eq_nil_or_concat buffer with rfl | ⟨gap, last, rfl⟩
    · rw [← hlength] at hsize
      exact absurd hsize (by simp)
    · exact ⟨gap, last, List.concat_eq_append⟩
  rw [← hlength, List.length_append, List.length_singleton] at hsize
  have hgap : gap.length = (packed ptr filters record).length := Nat.succ.inj hsize
  obtain ⟨after, hafter⟩ := fillLoop_eq hlengths record [] hgap [last]
  refine ⟨after, last, ?_⟩
  rw [List.nil_append, List.nil_append, List.length_nil] at hafter
  rw [fillFilterBufAt, hafter, Option.bind_some, if_pos (.inr (by simpa using hgap))]

/-! ### The comparison with the buffer -/

/-- The result of the comparison with a filter at the place of its value. -/
theorem compareAt_append (record : Record) (before : List UInt8)
    {bytes : List UInt8}
    (hbytes : filter.value.length ≠ 0 → bytes.length = filter.field.packLength)
    {rest : List UInt8} (hrest : rest ≠ []) :
    compareAt record filter (before ++ (bytes ++ rest)) before.length =
      some (if filter.field.isNull record then if filter.value.length = 0 then 0 else -1
        else if filter.value.length = 0 then 1 else filter.field.cmp record bytes) := by
  unfold compareAt
  split_ifs with hnull hvalue hvalue
  · rfl
  · rfl
  · rfl
  · have hlength := hbytes hvalue
    have hroom : before.length + filter.field.packLength + 1 ≤
        (before ++ (bytes ++ rest)).length := by
      have := List.length_pos_iff.mpr hrest
      simp only [List.length_append, hlength]
      omega
    rw [cmpAt, if_pos hroom, List.drop_left, List.take_left' hlength]

/-- One round of `filter_record`. -/
theorem filterRecordAt_cons {record : Record} {pos : ℕ}
    (hcv : compareAt record filter buffer pos = some cv) {accepted : Bool}
    (haccepted : filterRecordAt record buffer filters
      (if filter.value.length ≠ 0 then pos + filter.field.packLength else pos) = some accepted) :
    filterRecordAt record buffer (filter :: filters) pos =
      some (FilterFlag.holds filter.flag cv && accepted) := by
  rw [filterRecordAt, hcv, Option.bind_some]
  cases FilterFlag.holds filter.flag cv with
  | false => rfl
  | true => exact haccepted

/-- The first value of the buffer: the bytes of the first filter, none for NULL. -/
theorem packed_cons (column : Column ptr filter.field)
    (filters : List (BoundFilter Record)) (stored : Record) :
    ∃ bytes next, packed ptr (filter :: filters) stored = bytes ++ packed ptr filters next ∧
      (filter.value.length = 0 → bytes = []) ∧
      (filter.value.length ≠ 0 → bytes.length = filter.field.packLength ∧
        column.read bytes = column.written (content filter.value)) := by
  by_cases hvalue : filter.value.length = 0
  · exact ⟨[], stored, by rw [packed, if_pos hvalue, List.nil_append], fun _ ↦ rfl,
      fun hnot ↦ absurd hvalue hnot⟩
  · exact ⟨ptr filter.field (filter.stored stored), filter.stored stored,
      by rw [packed, if_neg hvalue], fun hzero ↦ absurd hzero hvalue,
      fun _ ↦ ⟨column.ptr_length _, column.read_store _ _⟩⟩

/-- Each filter is compared with its own value, and a record passes when all hold. -/
theorem filterRecordAt_iff
    (columns : ∀ filter ∈ filters, Column ptr filter.field) (record stored : Record)
    (before : List UInt8) (last : UInt8) :
    ∃ accepted, filterRecordAt record (before ++ (packed ptr filters stored ++ [last])) filters
        before.length = some accepted ∧
      (accepted = true ↔ ∀ filter (hfilter : filter ∈ filters),
        filter.Holds (columns filter hfilter) record) := by
  induction filters generalizing stored before with
  | nil => exact ⟨true, rfl, by simp⟩
  | cons filter filters ih =>
    let column := columns filter List.mem_cons_self
    obtain ⟨bytes, next, hpacked, hnone, hbytes⟩ := packed_cons column filters stored
    obtain ⟨accepted, haccepted, hall⟩ :=
      ih (fun other hother ↦ columns other (List.mem_cons_of_mem _ hother)) next (before ++ bytes)
    have hrest : packed ptr filters next ++ [last] ≠ [] := by simp
    have hcompared := compareAt_append record before (fun hvalue ↦ (hbytes hvalue).1) hrest
    have hpos : (if filter.value.length ≠ 0 then before.length + filter.field.packLength
        else before.length) = (before ++ bytes).length := by
      rw [List.length_append]
      split_ifs with hvalue
      · rw [(hbytes hvalue).1]
      · rw [hnone (not_not.mp hvalue), List.length_nil, Nat.add_zero]
    rw [← hpos, List.append_assoc] at haccepted
    rw [hpacked, List.append_assoc]
    refine ⟨_, filterRecordAt_cons hcompared haccepted, ?_⟩
    rw [Bool.and_eq_true, BoundFilter.holds_iff column hbytes rfl, hall]
    constructor
    · rintro ⟨hfirst, hothers⟩ other hother
      rcases List.mem_cons.mp hother with rfl | hother
      · exact hfirst
      · exact hothers other hother
    · intro hholds
      exact ⟨hholds filter List.mem_cons_self,
        fun other hother ↦ hholds other (List.mem_cons_of_mem _ hother)⟩

/-! ### The filters of a table -/

/-- A filter with its field, its flag and its value. -/
def Binds (table : Table Record) (entry : FilterEntry) (filter : BoundFilter Record) : Prop :=
  findField table entry.field = some filter.field ∧ filter.field.isBlob = false ∧
    filter.flag = entry.flag ∧ filter.value = entry.value

/-- A filter on a column that is no blob is bound. -/
theorem exists_binds {entry : FilterEntry}
    (hnamed : ∃ field, findField table entry.field = some field ∧ field.isBlob = false) :
    ∃ filter, bindFilter table entry = some filter ∧ Binds table entry filter := by
  obtain ⟨field, hfield, hblob⟩ := hnamed
  exact ⟨⟨field, entry.flag, entry.value⟩, by simp [bindFilter, hfield, hblob], hfield, hblob,
    rfl, rfl⟩

/-- Filters on columns that are no blobs are bound, in their order. -/
theorem exists_parseFilter {entries : List FilterEntry}
    (hnamed : ∀ entry ∈ entries, ∃ field, findField table entry.field = some field ∧
      field.isBlob = false) :
    ∃ filters, parseFilter table entries = some filters ∧
      List.Forall₂ (Binds table) entries filters := by
  induction entries with
  | nil => exact ⟨[], rfl, .nil⟩
  | cons entry entries ih =>
    obtain ⟨filter, hfilter, hbinds⟩ := exists_binds (hnamed entry List.mem_cons_self)
    obtain ⟨filters, hfilters, hall⟩ :=
      ih fun other hother ↦ hnamed other (List.mem_cons_of_mem _ hother)
    refine ⟨filter :: filters, ?_, .cons hbinds hall⟩
    unfold parseFilter at hfilters ⊢
    rw [List.mapM_cons, hfilter, hfilters]
    rfl

/-- The field of a bound filter is a field of the table. -/
theorem field_mem_of_binds {entries : List FilterEntry}
    (hall : List.Forall₂ (Binds table) entries filters)
    (hfilter : filter ∈ filters) : filter.field ∈ table.field := by
  induction hall with
  | nil => exact absurd hfilter List.not_mem_nil
  | cons hbinds _ ih =>
    rcases List.mem_cons.mp hfilter with rfl | hother
    · have hfound := hbinds.1
      unfold findField at hfound
      split at hfound
      · exact List.mem_of_find?_eq_some hfound
      · exact absurd hfound (by simp)
    · exact ih hother

/-- `filter_record` accepts a record exactly when every filter holds between the record's value of
its column and its own value, and neither filling the buffer nor comparing leaves it. Assumes: the
columns are those of MySQL, the filters are on columns that are no blobs, and the buffer has the
computed size. The record that the buffer is filled through and the bytes it holds before are
arbitrary. -/
theorem filter_record_iff {table : Table Record} (columns : ∀ field ∈ table.field, Column ptr field)
    {entries : List FilterEntry}
    (hnamed : ∀ entry ∈ entries, ∃ field, findField table entry.field = some field ∧
      field.isBlob = false) :
    ∃ filters, parseFilter table entries = some filters ∧
      ∃ hbound : List.Forall₂ (Binds table) entries filters,
      ∀ (start record : Record) (buffer : List UInt8), buffer.length = calcFilterBufSize filters →
        ∃ after filled accepted,
          fillFilterBufAt ptr filters start buffer = some (after, filled) ∧
          filterRecordAt record filled filters 0 = some accepted ∧
          (accepted = true ↔ ∀ filter (hfilter : filter ∈ filters),
            filter.Holds (columns filter.field (field_mem_of_binds hbound hfilter)) record) := by
  obtain ⟨filters, hparsed, hbound⟩ := exists_parseFilter hnamed
  refine ⟨filters, hparsed, hbound, fun start record buffer hsize ↦ ?_⟩
  let bound : ∀ filter ∈ filters, Column ptr filter.field :=
    fun filter hfilter ↦ columns filter.field (field_mem_of_binds hbound hfilter)
  have hlengths : HavePackLength ptr filters :=
    fun filter hfilter ↦ (bound filter hfilter).ptr_length
  obtain ⟨after, last, hfilled⟩ := fillFilterBufAt_eq hlengths start hsize
  obtain ⟨accepted, haccepted, hall⟩ := filterRecordAt_iff bound record start [] last
  exact ⟨after, _, accepted, hfilled, haccepted, hall⟩

/-- The positions and the buffer that is consumed from its front lead to one result. -/
theorem filterRecordAt_eq_filterRecord (columns : ∀ filter ∈ filters, Column ptr filter.field)
    (start record : Record) (hsize : buffer.length = calcFilterBufSize filters) :
    ∃ after filled, fillFilterBufAt ptr filters start buffer = some (after, filled) ∧
      filterRecordAt record filled filters 0 =
        some (filterRecord record filters (fillFilterBuf filters)) := by
  have hlengths : HavePackLength ptr filters :=
    fun filter hfilter ↦ (columns filter hfilter).ptr_length
  obtain ⟨after, last, hfilled⟩ := fillFilterBufAt_eq hlengths start hsize
  obtain ⟨accepted, haccepted, hall⟩ := filterRecordAt_iff columns record start [] last
  refine ⟨after, _, hfilled, haccepted.trans (congrArg some ?_)⟩
  rw [filterRecord_fillFilterBuf, Bool.eq_iff_iff, hall, passes, List.all_eq_true]
  refine forall₂_congr fun filter hfilter ↦ ?_
  let column := columns filter hfilter
  exact (BoundFilter.holds_iff column
    (fun _ ↦ ⟨filter.field.pack_length _, column.read_pack _⟩) rfl).symm

/-! ### A column of letters -/

/-- A column of one letter or NULL, in records of that column only. -/
def letterField : Field (Option UInt8) where
  fieldName := [118]
  type := 254
  isBlob := false
  isNull record := record.isNone
  setNull _ := none
  store bytes _ := (0, some (bytes.headD 0))
  storeInt number _ := (0, some (UInt8.ofInt number))
  saveNow time _ := (0, some (UInt8.ofNat time))
  valInt record := (record.getD 0).toNat
  valStr record := [record.getD 0]
  packLength := 1
  pack value := [value.headD 0]
  pack_length _ := rfl
  cmp record buffer := ((record.getD 0).toNat : ℤ) - (buffer.headD 0).toNat

/-- The byte of a record. -/
def letterPtr (_ : Field (Option UInt8)) (record : Option UInt8) : List UInt8 := [record.getD 0]

/-- Letters are ordered by their numbers. -/
def letterColumn : Column letterPtr letterField where
  Value := ℕ
  ptr_length _ := rfl
  read bytes := (bytes.headD 0).toNat
  written text := (text.headD 0).toNat
  read_store _ _ := rfl
  read_pack _ := rfl
  cmp_neg record bytes _ := by
    change ((record.getD 0).toNat : ℤ) - (bytes.headD 0).toNat < 0 ↔ _
    simp only [letterPtr, List.headD_cons]
    omega
  cmp_zero record bytes _ := by
    change ((record.getD 0).toNat : ℤ) - (bytes.headD 0).toNat = 0 ↔ _
    simp only [letterPtr, List.headD_cons]
    omega

/-- A table with a column of letters. -/
def letterTable : Table (Option UInt8) := ⟨[letterField], [], none⟩

/-- Three filters on one column, one of them with NULL: not NULL, from b on, and before d. -/
def letterFilters : List FilterEntry :=
  [⟨[86, 0], .not, []⟩, ⟨[118, 0], .ge, [98, 0]⟩, ⟨[86, 0], .lt, [100, 0]⟩]

/-- The same filters, bound to their column. -/
def boundLetters : List (BoundFilter (Option UInt8)) :=
  [⟨letterField, .not, []⟩, ⟨letterField, .ge, [98, 0]⟩, ⟨letterField, .lt, [100, 0]⟩]

/-- The one column of the table. -/
def letterColumns (field : Field (Option UInt8)) (hfield : field ∈ letterTable.field) :
    Column letterPtr field :=
  (List.mem_singleton.mp hfield).symm ▸ letterColumn

/-- The filters hold of a record with the letter c. -/
theorem filter_record_letters :
    ∃ filters, parseFilter letterTable letterFilters = some filters ∧
      ∃ hbound : List.Forall₂ (Binds letterTable) letterFilters filters,
        filterRecordAt (some 99) [98, 100, 3] filters 0 = some true ∧
        ∀ filter (hfilter : filter ∈ filters),
          filter.Holds (letterColumns filter.field (field_mem_of_binds hbound hfilter))
            (some 99) := by
  have hnamed : ∀ entry ∈ letterFilters, ∃ field,
      findField letterTable entry.field = some field ∧ field.isBlob = false := by
    simp only [letterFilters, List.forall_mem_cons, List.not_mem_nil, false_imp_iff,
      implies_true, and_true]
    exact ⟨⟨letterField, rfl, rfl⟩, ⟨letterField, rfl, rfl⟩, ⟨letterField, rfl, rfl⟩⟩
  have hletters : parseFilter letterTable letterFilters = some boundLetters := rfl
  obtain ⟨filters, hparsed, hbound, hall⟩ := filter_record_iff letterColumns hnamed
  obtain rfl : boundLetters = filters := Option.some.inj (hletters.symm.trans hparsed)
  obtain ⟨after, filled, accepted, hfilled, haccepted, hiff⟩ :=
    hall (some 7) (some 99) [1, 2, 3] rfl
  have hbuffer : fillFilterBufAt letterPtr boundLetters (some 7) [1, 2, 3] =
      some (some 100, [98, 100, 3]) := by decide
  have hpasses : filterRecordAt (some 99) [98, 100, 3] boundLetters 0 = some true := by decide
  obtain ⟨-, rfl⟩ := Prod.mk.inj (Option.some.inj (hfilled.symm.trans hbuffer))
  exact ⟨_, hparsed, hbound, hpasses,
    hiff.mp (Option.some.inj (haccepted.symm.trans hpasses))⟩

end TdhSocket.Execute
