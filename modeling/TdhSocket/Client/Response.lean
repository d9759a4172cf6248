import TdhSocket.Client.Request
import TdhSocket.Stream.Response

/-!
# The result as the Python client reads it

`response.py` and the loop of `statement.do_reponse`. `unpack` raises an exception when it is given
fewer or more bytes than its format has, and so does every reader here by returning `none`.

`streamed_result_round_trip` puts the two sides together: `Stream.encodeResult` is what the server
writes and what `parse` reads back, whatever the places at which the server cut it.
-/

set_option autoImplicit false

namespace TdhSocket.Client

open TdhSocket.Stream Library

/-! ### Reading -/

variable (rbuff : List UInt8)

/-- `rbuff[rpos:rpos + size]`. -/
def slice (rpos size : ℕ) : List UInt8 := (rbuff.drop rpos).take size

/-- `unpack('!L', bytes)`. -/
def unpackL (bytes : List UInt8) : Option ℕ :=
  if bytes.length = 4 then some (BigEndian.ofBytes bytes) else none

/-- `unpack('!B', bytes)`. -/
def unpackB : List UInt8 → Option UInt8
  | [byte] => some byte
  | _ => none

/-- `unpack(str(size) + 's', bytes)`. -/
def unpackS (size : ℕ) (bytes : List UInt8) : Option Text :=
  if bytes.length = size then some bytes else none

/-- The types of the columns from a position on. -/
def parseTypes : ℕ → ℕ → Option (List UInt8)
  | 0, _ => some []
  | fieldNum + 1, rpos =>
    (unpackB (slice rbuff rpos 1)).bind fun type ↦
      (parseTypes fieldNum (rpos + 1)).map (type :: ·)

/-- The value at a position, and the position behind it. -/
def parseValue (rpos : ℕ) : Option (Value × ℕ) :=
  (unpackL (slice rbuff rpos 4)).bind fun dataLen ↦
    if 0 < dataLen then
      (unpackS dataLen (slice rbuff (rpos + 4) dataLen)).map fun fieldValue ↦
        (some (if dataLen = 1 ∧ fieldValue = [0] then [] else fieldValue), rpos + 4 + dataLen)
    else some (none, rpos + 4)

/-- The values of a record, and the position behind it. -/
def parseRecord : ℕ → ℕ → Option (List Value × ℕ)
  | 0, rpos => some ([], rpos)
  | fieldNum + 1, rpos =>
    (parseValue rbuff rpos).bind fun value ↦
      (parseRecord fieldNum value.2).map fun record ↦ (value.1 :: record.1, record.2)

/-- The records up to `len`, for at most `fuel` rounds. -/
def parseRecords (len fieldNum : ℕ) : ℕ → ℕ → Option (List (List Value))
  | 0, _ => none
  | fuel + 1, rpos =>
    if rpos < len then
      (parseRecord rbuff fieldNum rpos).bind fun record ↦
        (parseRecords len fieldNum fuel record.2).map (record.1 :: ·)
    else some []

/-- `response(rbuff, len).parse()`. A record with a column is at least four bytes long, so more than
`len` rounds are made only by the loop over records without columns, which does not end. -/
def parse (len : ℕ) : Option (List UInt8 × List (List Value)) :=
  (unpackL (slice rbuff 0 4)).bind fun fieldNum ↦
    (parseTypes rbuff fieldNum 4).bind fun fieldTypes ↦
      (parseRecords rbuff len fieldNum (len + 1) (4 + fieldNum)).map fun records ↦
        (fieldTypes, records)

/-- `do_reponse` on the frames that arrive for its id, from what was collected before. -/
def doReponse : List ResponseFrame → List UInt8 → ℕ → Option (List UInt8 × List (List Value))
  | [], _, _ => none
  | frame :: frames, databuff, dataLen =>
    if frame.status = statusAccept then
      doReponse frames (databuff ++ frame.payload) (dataLen + frame.length)
    else if frame.status = statusOk then
      parse (databuff ++ frame.payload) (dataLen + frame.length)
    else none

/-! ### Reading what was written -/

section Slices

variable {rbuff} {piece rest : List UInt8} {rpos : ℕ}

/-- Assumes: the piece stands at the position. -/
theorem slice_of_drop_eq (hrbuff : rbuff.drop rpos = piece ++ rest) :
    slice rbuff rpos piece.length = piece := by
  rw [slice, hrbuff, List.take_left]

/-- Assumes: the piece stands at the position. -/
theorem drop_of_drop_eq (hrbuff : rbuff.drop rpos = piece ++ rest) :
    rbuff.drop (rpos + piece.length) = rest := by
  rw [← List.drop_drop, hrbuff, List.drop_left]

/-- Assumes: the number fits in 32 bits and stands at the position. -/
theorem unpackL_slice {number : ℕ} (hnumber : number < 2 ^ 32)
    (hrbuff : rbuff.drop rpos = BigEndian.toBytes number ++ rest) :
    unpackL (slice rbuff rpos 4) = some number := by
  have hslice : slice rbuff rpos 4 = BigEndian.toBytes number := slice_of_drop_eq hrbuff
  have hword := BigEndian.ofBytes_toBytes_append number [] hnumber
  rw [List.append_nil] at hword
  rw [hslice, unpackL, if_pos (BigEndian.length_toBytes number), hword]

end Slices

variable {rbuff} {rest : List UInt8} {rpos : ℕ} {fieldTypes : List UInt8} {value : Value}
  {rows : List (List Value)}

theorem parseTypes_of_drop_eq (hrbuff : rbuff.drop rpos = fieldTypes ++ rest) :
    parseTypes rbuff fieldTypes.length rpos = some fieldTypes := by
  induction fieldTypes generalizing rpos with
  | nil => rfl
  | cons type fieldTypes ih =>
    have htype : rbuff.drop rpos = [type] ++ (fieldTypes ++ rest) := hrbuff
    have hslice : slice rbuff rpos 1 = [type] := slice_of_drop_eq htype
    have hnext : parseTypes rbuff fieldTypes.length (rpos + 1) = some fieldTypes :=
      ih (drop_of_drop_eq htype)
    rw [List.length_cons, parseTypes, hslice, hnext]
    rfl

/-- A value the format has bytes of its own for: the byte string of one zero byte is written like
the empty one. The length is a `uint32_t`. -/
def IsSendable (value : Value) : Prop := value ≠ some [0] ∧ (value.getD []).length < 2 ^ 32

instance (value : Value) : Decidable (IsSendable value) :=
  inferInstanceAs (Decidable (_ ∧ _))

theorem isSendable_of_one_lt_length {bytes : Text} (hlong : 1 < bytes.length)
    (hlength : bytes.length < 2 ^ 32) : IsSendable (some bytes) := by
  refine ⟨fun heq ↦ ?_, hlength⟩
  rw [Option.some.inj heq] at hlong
  exact absurd hlong (lt_irrefl _)

theorem length_dataOf_lt (hvalue : IsSendable value) :
    (dataOf value).length < 2 ^ 32 := by
  rcases value with _ | _ | ⟨byte, bytes⟩
  · exact hvalue.2
  · exact Nat.one_lt_two_pow (by decide)
  · exact hvalue.2

theorem parseValue_of_drop_eq (hvalue : IsSendable value)
    (hrbuff : rbuff.drop rpos = encodeValue value ++ rest) :
    parseValue rbuff rpos = some (value, rpos + (encodeValue value).length) := by
  rw [encodeValue, List.append_assoc] at hrbuff
  have hlength := unpackL_slice (length_dataOf_lt hvalue) hrbuff
  have hdata : slice rbuff (rpos + 4) (dataOf value).length = dataOf value :=
    slice_of_drop_eq (drop_of_drop_eq hrbuff)
  unfold parseValue
  rw [hlength, Option.bind_some, hdata, unpackS, if_pos rfl]
  rcases value with _ | _ | ⟨byte, bytes⟩
  · rfl
  · rfl
  · have hother : ¬ ((byte :: bytes).length = 1 ∧ byte :: bytes = [0]) :=
      fun h ↦ hvalue.1 (congrArg some h.2)
    have hpositive : 0 < (byte :: bytes).length := Nat.succ_pos _
    change (if 0 < (byte :: bytes).length then
      some (some (if (byte :: bytes).length = 1 ∧ byte :: bytes = [0] then [] else byte :: bytes),
        rpos + 4 + (byte :: bytes).length) else some (none, rpos + 4)) = _
    rw [if_pos hpositive, if_neg hother, encodeValue, List.length_append, BigEndian.length_toBytes,
      Nat.add_assoc]
    rfl

theorem parseRecord_of_drop_eq {row : List Value}
    (hrow : ∀ value ∈ row, IsSendable value)
    (hrbuff : rbuff.drop rpos = row.flatMap encodeValue ++ rest) :
    parseRecord rbuff row.length rpos = some (row, rpos + (row.flatMap encodeValue).length) := by
  induction row generalizing rpos with
  | nil => rfl
  | cons value row ih =>
    rw [List.flatMap_cons, List.append_assoc] at hrbuff
    have hvalue := parseValue_of_drop_eq (hrow value List.mem_cons_self) hrbuff
    have hnext := ih (fun other hother ↦ hrow other (List.mem_cons_of_mem _ hother))
      (drop_of_drop_eq hrbuff)
    rw [List.length_cons, parseRecord, hvalue, Option.bind_some, hnext, Option.map_some,
      List.flatMap_cons, List.length_append, Nat.add_assoc]

/-- The loop reads every record. Each has at least one byte, so a round for each is a round for each
byte that is left. Assumes: there is a column, and the records end at `len`. -/
theorem parseRecords_of_drop_eq {len fieldNum fuel : ℕ} (hfieldNum : 0 < fieldNum)
    (hrows : ∀ row ∈ rows, row.length = fieldNum ∧ ∀ value ∈ row, IsSendable value)
    (hrbuff : rbuff.drop rpos = rows.flatMap (·.flatMap encodeValue))
    (hlen : len = rpos + (rows.flatMap (·.flatMap encodeValue)).length)
    (hfuel : len < rpos + fuel) :
    parseRecords rbuff len fieldNum fuel rpos = some rows := by
  induction rows generalizing rpos fuel with
  | nil =>
    obtain ⟨fuel, rfl⟩ : ∃ rounds, fuel = rounds + 1 := ⟨fuel - 1, by simp at hlen; omega⟩
    rw [parseRecords, if_neg (by simp at hlen; omega)]
  | cons row rows ih =>
    obtain ⟨hcolumns, hsendable⟩ := hrows row List.mem_cons_self
    rw [List.flatMap_cons] at hrbuff hlen
    rw [List.length_append] at hlen
    have hbytes : 0 < (row.flatMap encodeValue).length := by
      obtain ⟨value, values, rfl⟩ := List.exists_cons_of_length_pos (hcolumns ▸ hfieldNum)
      simp [encodeValue]
    obtain ⟨fuel, rfl⟩ : ∃ rounds, fuel = rounds + 1 := ⟨fuel - 1, by omega⟩
    have hrecord := parseRecord_of_drop_eq hsendable hrbuff
    rw [hcolumns] at hrecord
    have hnext : parseRecords rbuff len fieldNum fuel (rpos + (row.flatMap encodeValue).length) =
        some rows :=
      ih (fun other hother ↦ hrows other (List.mem_cons_of_mem _ hother))
        (drop_of_drop_eq hrbuff) (by omega) (by omega)
    rw [parseRecords, if_pos (by omega), hrecord, Option.bind_some, hnext, Option.map_some]

/-- Assumes: there is a column, the number of columns is a `uint32_t`, and every row has a sendable
value for each column. -/
theorem parse_encodeResult (htypes : fieldTypes ≠ []) (hcount : fieldTypes.length < 2 ^ 32)
    (hrows : ∀ row ∈ rows, row.length = fieldTypes.length ∧ ∀ value ∈ row, IsSendable value) :
    parse (encodeResult fieldTypes rows) (encodeResult fieldTypes rows).length =
      some (fieldTypes, rows) := by
  have hnumber : (encodeResult fieldTypes rows).drop 0 = BigEndian.toBytes fieldTypes.length ++
      (fieldTypes ++ rows.flatMap (·.flatMap encodeValue)) := List.append_assoc _ _ _
  have hcolumns : (encodeResult fieldTypes rows).drop 4 =
      fieldTypes ++ rows.flatMap (·.flatMap encodeValue) := by
    simpa using drop_of_drop_eq hnumber
  have hlen : (encodeResult fieldTypes rows).length =
      4 + fieldTypes.length + (rows.flatMap (·.flatMap encodeValue)).length := by
    rw [encodeResult, List.length_append, List.length_append, BigEndian.length_toBytes]
  have hrecords : parseRecords (encodeResult fieldTypes rows) (encodeResult fieldTypes rows).length
      fieldTypes.length ((encodeResult fieldTypes rows).length + 1) (4 + fieldTypes.length) =
        some rows :=
    parseRecords_of_drop_eq (List.length_pos_iff.mpr htypes) hrows (drop_of_drop_eq hcolumns) hlen
      (by omega)
  unfold parse
  rw [unpackL_slice hcount hnumber, Option.bind_some, parseTypes_of_drop_eq hcolumns,
    Option.bind_some, hrecords]
  rfl

/-- The client collects the frames of a streamed result before it parses them. Assumes: each frame
has the length of its payload, and the status of the last one alone is 200. -/
theorem doReponse_append {chunks : List ResponseFrame} {last : ResponseFrame}
    {databuff : List UInt8} (hchunks : ∀ frame ∈ chunks, frame.status = statusAccept)
    (hlast : last.status = statusOk)
    (hlength : ∀ frame ∈ chunks ++ [last], frame.length = frame.payload.length) :
    doReponse (chunks ++ [last]) databuff databuff.length =
      parse (databuff ++ payloads (chunks ++ [last]))
        (databuff ++ payloads (chunks ++ [last])).length := by
  induction chunks generalizing databuff with
  | nil =>
    have hsize := hlength last List.mem_cons_self
    have hother : last.status ≠ statusAccept := by rw [hlast]; decide
    simp only [List.nil_append, doReponse, if_neg hother, if_pos hlast, hsize, payloads,
      List.flatMap_cons, List.flatMap_nil, List.append_nil, List.length_append]
  | cons frame chunks ih =>
    have hsize := hlength frame List.mem_cons_self
    have hnext := @ih (databuff ++ frame.payload)
      (fun other hother ↦ hchunks other (List.mem_cons_of_mem _ hother))
      (fun other hother ↦ hlength other (List.mem_cons_of_mem _ hother))
    rw [List.cons_append, doReponse, if_pos (hchunks frame List.mem_cons_self), hsize,
      ← List.length_append, hnext]
    simp only [payloads, List.flatMap_cons, List.append_assoc]

/-- What the server writes for a result, cut into frames wherever its buffer is full, is the result
that the client reads, for every size of that buffer. Assumes: there is a column, every row has a
sendable value for each column, and the buffer is below 4 GiB. -/
theorem streamed_result_round_trip (fieldTypes : List UInt8) (rows : List (List Value))
    (writeBuffSize : ℕ) (htypes : fieldTypes ≠ [])
    (hrows : ∀ row ∈ rows, row.length = fieldTypes.length ∧ ∀ value ∈ row, IsSendable value)
    (halloc : max (4 + fieldTypes.length) writeBuffSize + headerLength < 2 ^ 32) :
    ∃ chunks last, streamedResponse writeBuffSize fieldTypes rows = some (chunks ++ [last]) ∧
      (∀ frame ∈ chunks, frame.status = statusAccept) ∧ last.status = statusOk ∧
      (∀ frame ∈ chunks ++ [last], frame.length = frame.payload.length) ∧
      parse (payloads (chunks ++ [last])) (payloads (chunks ++ [last])).length =
        some (fieldTypes, rows) ∧
      doReponse (chunks ++ [last]) [] 0 = some (fieldTypes, rows) := by
  obtain ⟨chunks, last, hframes, hpayloads, hlength, hchunks, hlast⟩ :=
    streamedResponse_eq_some writeBuffSize fieldTypes rows halloc
  have hparse : parse (payloads (chunks ++ [last])) (payloads (chunks ++ [last])).length =
      some (fieldTypes, rows) := by
    rw [hpayloads]
    exact parse_encodeResult htypes (by omega) hrows
  refine ⟨chunks, last, hframes, hchunks, hlast, hlength, hparse, ?_⟩
  have hcollected := @doReponse_append chunks last [] hchunks hlast hlength
  rw [List.nil_append, hparse] at hcollected
  exact hcollected

/-- A text of 2000 bytes goes out in two frames with a buffer of 1024. -/
theorem streamed_result_round_trip_longText :
    ∃ chunks last, streamedResponse 1024 [3, 252, 253]
        [[some [49], some (List.replicate 2000 120), none], [none, some [], some [0, 0]]] =
          some (chunks ++ [last]) ∧
      (∀ frame ∈ chunks, frame.status = statusAccept) ∧ last.status = statusOk ∧
      (∀ frame ∈ chunks ++ [last], frame.length = frame.payload.length) ∧
      parse (payloads (chunks ++ [last])) (payloads (chunks ++ [last])).length =
        some ([3, 252, 253],
          [[some [49], some (List.replicate 2000 120), none], [none, some [], some [0, 0]]]) ∧
      doReponse (chunks ++ [last]) [] 0 = some ([3, 252, 253],
        [[some [49], some (List.replicate 2000 120), none], [none, some [], some [0, 0]]]) := by
  have hlong : IsSendable (some (List.replicate 2000 120)) := by
    apply isSendable_of_one_lt_length <;> rw [List.length_replicate] <;> decide
  refine streamed_result_round_trip [3, 252, 253] _ 1024 (by decide) ?_ (by decide)
  intro row hrow
  simp only [List.mem_cons, List.not_mem_nil, or_false] at hrow
  rcases hrow with rfl | rfl
  · refine ⟨rfl, fun value hvalue ↦ ?_⟩
    simp only [List.mem_cons, List.not_mem_nil, or_false] at hvalue
    rcases hvalue with rfl | rfl | rfl
    · decide
    · exact hlong
    · decide
  · exact ⟨rfl, by decide⟩

end TdhSocket.Client
