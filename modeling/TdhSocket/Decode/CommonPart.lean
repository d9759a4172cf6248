import TdhSocket.Decode.Grammar

/-!
# The common part of GET, COUNT and DELETE

The three requests have one layout, and the source has a parser for it twice: `_decode_to_get` and
the body of `decode_to_delete_or_count`. The first wants a field, and `decode_to_get` returns
`EASY_ERROR` for every code it is given, where `decode_to_delete_or_count` is the parser itself and
its codes are the answer. `common_part_type_independent` says for which payloads the three requests
are decoded alike: not for those that end in `ERROR_OUT_OF_IN`, which `IsOutOfIn` describes.
-/

set_option autoImplicit false

namespace TdhSocket.Decode

open Protocol Library Library.Reader

/-! ### Which code a part fails with -/

theorem failsOnlyAs_readUint32 : FailsOnlyAs .easyError readUint32 :=
  (failsOnlyAs_take _ _).bind fun _ ↦ failsOnlyAs_pure _ _

theorem failsOnlyAs_readUint8 : FailsOnlyAs .easyError readUint8 :=
  (failsOnlyAs_take _ _).bind fun _ ↦ failsOnlyAs_pure _ _

theorem failsOnlyAs_readStr (length : ℕ) : FailsOnlyAs .easyError (readStr length) :=
  (failsOnlyAs_take _ _).bind fun _ ↦ (failsOnlyAs_ensure _ _).bind fun _ ↦ failsOnlyAs_pure _ _

theorem failsOnlyAs_storeTo (place : Option Place) : FailsOnlyAs .easyError (storeTo place) := by
  cases place with
  | none => exact failsOnlyAs_pure _ _
  | some place => exact failsOnlyAs_store _ _

theorem failsOnlyAs_readString (place : Option Place) : FailsOnlyAs .easyError (readString place) :=
  failsOnlyAs_readUint32.bind fun length ↦ (failsOnlyAs_storeTo place).bind fun _ ↦
    failsOnlyAs_readStr length

theorem failsOnlyAs_readIndex : FailsOnlyAs .easyError readIndex := by
  refine failsOnlyAs_readUint32.bind fun length ↦ ?_
  split_ifs
  · exact failsOnlyAs_readStr length
  · exact failsOnlyAs_pure _ _

theorem failsOnlyAs_decodeToTableInfo (needField : Bool) :
    FailsOnlyAs .easyError (decodeToTableInfo needField) :=
  (failsOnlyAs_readString _).bind fun _ ↦ (failsOnlyAs_readString _).bind fun _ ↦
    failsOnlyAs_readIndex.bind fun _ ↦ failsOnlyAs_readUint32.bind fun _ ↦
      (FailsOnlyAs.repeatFrom (fun _ ↦ failsOnlyAs_readString _) _ _).bind fun _ ↦
        (failsOnlyAs_ensure _ _).bind fun _ ↦ failsOnlyAs_pure _ _

theorem failsOnlyAs_readKeys (keyArray : KeyArray) (keyNum : ℕ) :
    FailsOnlyAs .easyError (repeatFrom (readKey keyArray) 0 keyNum) :=
  FailsOnlyAs.repeatFrom (fun _ ↦ failsOnlyAs_readUint32.bind fun _ ↦
    (failsOnlyAs_storeTo _).bind fun _ ↦
      (FailsOnlyAs.repeatFrom (fun _ ↦ failsOnlyAs_readString _) _ _).bind fun _ ↦
        failsOnlyAs_pure _ _) _ _

theorem failsOnlyAs_setFilterFlag (i : ℕ) (flag : UInt8) :
    FailsOnlyAs .easyError (setFilterFlag i flag) := by
  unfold setFilterFlag
  split_ifs
  · exact (failsOnlyAs_ensure _ _).bind fun _ ↦ failsOnlyAs_store _ _
  · exact failsOnlyAs_pure _ _

theorem failsOnlyAs_decodeToFilter : FailsOnlyAs .easyError decodeToFilter :=
  failsOnlyAs_readUint32.bind fun _ ↦
    (FailsOnlyAs.repeatFrom (fun i ↦ (failsOnlyAs_readString _).bind fun _ ↦
      failsOnlyAs_readUint8.bind fun flag ↦ (failsOnlyAs_setFilterFlag i flag).bind fun _ ↦
        (failsOnlyAs_readString _).bind fun _ ↦ failsOnlyAs_pure _ _) _ _).bind fun _ ↦
      failsOnlyAs_pure _ _

/-! ### Requests with a field -/

/-- The payload begins with the names of a table and an index and a number of fields that is not
zero. -/
def DeclaresField (payload : List UInt8) : Prop :=
  ∃ (db table index : WireString) (fieldNum : UInt32) (rest : List UInt8),
    payload = db.encode ++ (table.encode ++ (index.encode ++
      (BigEndian.toBytes fieldNum.toNat ++ rest))) ∧ 0 < fieldNum.toNat

variable {wire : WireTable} {payload : List UInt8}

/-- Assumes: the payload declares a field and begins with the table information. -/
theorem fields_pos_of_declaresField {tail : List UInt8}
    (hfield : DeclaresField (wire.encode ++ tail)) : 0 < wire.fields.length := by
  obtain ⟨db, table, index, fieldNum, rest, hsame, hpositive⟩ := hfield
  simp only [WireTable.encode, List.append_assoc] at hsame
  obtain ⟨-, -, hsame⟩ := (reads_readString none).unique ⟨wire.db, trivial, rfl, rfl⟩
    ⟨db, trivial, rfl, rfl⟩ hsame
  obtain ⟨-, -, hsame⟩ := (reads_readString none).unique ⟨wire.table, trivial, rfl, rfl⟩
    ⟨table, trivial, rfl, rfl⟩ hsame
  obtain ⟨-, -, hsame⟩ := reads_readIndex.unique ⟨wire.index, trivial, rfl, rfl⟩
    ⟨index, trivial, rfl, rfl⟩ hsame
  obtain ⟨hnumber, -, -⟩ := recognises_readUint32.unique ⟨wire.fields_lt, rfl⟩
    ⟨fieldNum.toNat_lt, rfl⟩ hsame
  rw [hnumber]
  exact hpositive

/-- Where there is a field it makes no difference whether one is wanted. -/
theorem valid_table_of_field (hfields : 0 < wire.fields.length) (needField other : Bool)
    (hvalid : wire.Valid needField) : wire.Valid other := by
  have hzero : (wire.fields.length == 0) = false := beq_false_of_ne hfields.ne'
  unfold WireTable.Valid isVaildTable at hvalid ⊢
  rw [hzero, Bool.and_false] at hvalid ⊢
  exact hvalid

/-- The table information is read whether or not a field is wanted, or in neither case. Assumes: the
payload declares a field. -/
theorem decodeToTableInfo_of_declaresField (hfield : DeclaresField payload) :
    (∀ needField, (runOn (decodeToTableInfo needField) [] payload).result = .error .easyError) ∨
      ∃ word tail tableInfo, payload = word ++ tail ∧
        ∀ needField, Yields (decodeToTableInfo needField) [] word tail tableInfo := by
  by_cases hread : ∃ needField tableInfo,
      (runOn (decodeToTableInfo needField) [] payload).result = .ok tableInfo
  · obtain ⟨needField, tableInfo, hresult⟩ := hread
    obtain ⟨word, tail, rfl, ⟨wire, hvalid, rfl, rfl⟩, -⟩ :=
      (reads_decodeToTableInfo needField).sound hresult
    have hfields := fields_pos_of_declaresField hfield
    refine Or.inr ⟨_, tail, wire.request, rfl, fun other ↦ ?_⟩
    exact (reads_decodeToTableInfo other).complete [] tail
      ⟨wire, valid_table_of_field hfields needField other hvalid, rfl, rfl⟩
  · refine Or.inl fun needField ↦ ?_
    cases hresult : (runOn (decodeToTableInfo needField) [] payload).result with
    | error code =>
      exact congrArg Except.error (failsOnlyAs_decodeToTableInfo needField _ _ code hresult)
    | ok tableInfo => exact absurd ⟨needField, tableInfo, hresult⟩ hread

variable (version : Version) (pool : EasyPool) (stray : ℕ → ℕ)

/-- What the decoders do behind the table information. -/
def decodeBehindTable (tableInfo : TdhsRequestTable) :
    Decoder (TdhsRequestTable × TdhsRequestGet) := do
  let keyNum ← readUint32
  let keyArray := version.chooseKeys pool keyNum
  let keys ← Reader.repeatFrom (readKey keyArray) 0 keyNum
  let (findFlag, start, limit) ←
    decodeRange version stray keyNum keyArray (keys.take keyArray.inLimit)
  let filter ← decodeToFilter
  pure (tableInfo,
    ⟨keyNum, keyArray, keys.take keyArray.inLimit, findFlag, start, limit, filter⟩)

theorem decodeGetBody_eq (needField : Bool) :
    decodeGetBody version pool stray needField =
      decodeToTableInfo needField >>= decodeBehindTable version pool stray := rfl

/-- The get part is read alike whether or not a field is wanted. Assumes: the payload declares
one. -/
theorem decodeGetBody_of_declaresField (hfield : DeclaresField payload) :
    (runOn (decodeGetBody version pool stray true) [] payload).result =
      (runOn (decodeGetBody version pool stray false) [] payload).result ∧
    (∀ parts, (runOn (decodeGetBody version pool stray false) [] payload).result = .ok parts →
      (runOn (decodeGetBody version pool stray true) [] payload).cursor =
        (runOn (decodeGetBody version pool stray false) [] payload).cursor) := by
  simp only [decodeGetBody_eq]
  rcases decodeToTableInfo_of_declaresField hfield with
    herror | ⟨word, tail, tableInfo, rfl, hreads⟩
  · rw [runOn_bind_of_error (herror true), runOn_bind_of_error (herror false)]
    exact ⟨rfl, fun parts hok ↦ nomatch hok⟩
  · rw [runOn_bind_of_yields (hreads true), runOn_bind_of_yields (hreads false)]
    exact ⟨rfl, fun _ _ ↦ rfl⟩

/-! ### The code for too many or too few keys -/

/-- The checks of a range that end in `ERROR_OUT_OF_IN`: an IN with keys that are not stored, in
version 2, and a BETWEEN with less than two keys. -/
def failsOutOfIn (keyNum : ℕ) (findFlag : UInt8) : Bool :=
  (version.checksOutOfIn && decide ((version.chooseKeys pool keyNum).inLimit < keyNum) &&
    findFlag.toNat == tdhsIn) || (decide (keyNum < 2) && findFlag.toNat == tdhsBetween)

/-- The payload is read up to its range, which has keys too many or too few. -/
def IsOutOfIn (payload : List UInt8) : Prop :=
  ∃ (tableInfo : WireTable) (keys : List WireKey) (range : WireRange) (rest : List UInt8),
    tableInfo.Valid false ∧ keys.length < 2 ^ 32 ∧
    payload = tableInfo.encode ++ (BigEndian.toBytes keys.length ++
      (keys.flatMap WireKey.encode ++ (range.encode ++ rest))) ∧
    failsOutOfIn version pool keys.length range.findFlag = true

theorem decodeRange_error_iff (keyNum : ℕ) (keys : List TdhsGetKey) (before rest : List UInt8) :
    (runOn (decodeRange version stray keyNum (version.chooseKeys pool keyNum) keys) before
        rest).result = .error .errorOutOfIn ↔
      ∃ (range : WireRange) (tail : List UInt8), rest = range.encode ++ tail ∧
        failsOutOfIn version pool keyNum range.findFlag = true := by
  have hne : ReturnCode.errorOutOfIn ≠ .easyError := nofun
  have hchecks : ∀ (outOfIn between vaild : Bool) (range : FindFlag × ℕ × ℕ)
      (before rest : List UInt8),
      (runOn (ensure (!outOfIn) .errorOutOfIn >>= fun _ ↦ ensure (!between) .errorOutOfIn >>=
        fun _ ↦ ensure vaild .easyError >>= fun _ ↦ pure range : Decoder (FindFlag × ℕ × ℕ)) before
        rest).result = .error .errorOutOfIn ↔ (outOfIn || between) = true := by
    intro outOfIn between vaild range before rest
    cases outOfIn
    · cases between
      · cases vaild
        · exact iff_of_false (fun h ↦ nomatch h) nofun
        · exact iff_of_false (fun h ↦ nomatch h) nofun
      · exact iff_of_true rfl rfl
    · exact iff_of_true rfl rfl
  rw [decodeRange, recognises_readUint8.bind_error_iff failsOnlyAs_readUint8 hne]
  constructor
  · rintro ⟨findFlag, _, tail, rfl, rfl, herror⟩
    rw [reads_readUint32.bind_error_iff failsOnlyAs_readUint32 hne] at herror
    obtain ⟨_, _, tail, rfl, ⟨start, -, rfl, rfl⟩, herror⟩ := herror
    rw [reads_readUint32.bind_error_iff failsOnlyAs_readUint32 hne] at herror
    obtain ⟨_, _, tail, rfl, ⟨limit, -, rfl, rfl⟩, herror⟩ := herror
    refine ⟨⟨findFlag, start, limit⟩, tail, by simp [WireRange.encode], ?_⟩
    exact (hchecks _ _ _ _ _ _).mp herror
  · rintro ⟨range, tail, rfl, hfails⟩
    refine ⟨range.findFlag, [range.findFlag], BigEndian.toBytes range.start.toNat ++
      BigEndian.toBytes range.limit.toNat ++ tail, rfl, rfl, ?_⟩
    rw [reads_readUint32.bind_error_iff failsOnlyAs_readUint32 hne]
    refine ⟨_, _, BigEndian.toBytes range.limit.toNat ++ tail, List.append_assoc _ _ _,
      ⟨range.start, trivial, rfl, rfl⟩, ?_⟩
    rw [reads_readUint32.bind_error_iff failsOnlyAs_readUint32 hne]
    refine ⟨_, _, tail, rfl, ⟨range.limit, trivial, rfl, rfl⟩, ?_⟩
    exact (hchecks _ _ _ _ _ _).mpr hfails

/-- `ERROR_OUT_OF_IN` is returned for the payloads of that form. -/
theorem decodeGetBody_error_iff (payload : List UInt8) :
    (runOn (decodeGetBody version pool stray false) [] payload).result = .error .errorOutOfIn ↔
      IsOutOfIn version pool payload := by
  have hne : ReturnCode.errorOutOfIn ≠ .easyError := nofun
  rw [decodeGetBody, (reads_decodeToTableInfo false).bind_error_iff
    (failsOnlyAs_decodeToTableInfo false) hne]
  constructor
  · rintro ⟨_, _, tail, rfl, ⟨tableInfo, hvalid, rfl, rfl⟩, herror⟩
    rw [recognises_readUint32.bind_error_iff failsOnlyAs_readUint32 hne] at herror
    obtain ⟨keyNum, _, tail, rfl, ⟨hlt, rfl⟩, herror⟩ := herror
    rw [(reads_readKeys _ keyNum).bind_error_iff (failsOnlyAs_readKeys _ _) hne] at herror
    obtain ⟨_, _, tail, rfl, ⟨keys, rfl, rfl, rfl⟩, herror⟩ := herror
    rw [bind_error_iff_of_next (fun _ ↦ failsOnlyAs_decodeToFilter.bind fun _ ↦
      failsOnlyAs_pure _ _) hne, decodeRange_error_iff] at herror
    obtain ⟨range, rest, rfl, hfails⟩ := herror
    exact ⟨tableInfo, keys, range, rest, hvalid, hlt, rfl, hfails⟩
  · rintro ⟨tableInfo, keys, range, rest, hvalid, hlt, rfl, hfails⟩
    refine ⟨_, _, _, rfl, ⟨tableInfo, hvalid, rfl, rfl⟩, ?_⟩
    rw [recognises_readUint32.bind_error_iff failsOnlyAs_readUint32 hne]
    refine ⟨_, _, _, rfl, ⟨hlt, rfl⟩, ?_⟩
    rw [(reads_readKeys _ keys.length).bind_error_iff (failsOnlyAs_readKeys _ _) hne]
    refine ⟨_, _, _, rfl, ⟨keys, rfl, rfl, rfl⟩, ?_⟩
    rw [bind_error_iff_of_next (fun _ ↦ failsOnlyAs_decodeToFilter.bind fun _ ↦
      failsOnlyAs_pure _ _) hne, decodeRange_error_iff]
    exact ⟨range, rest, rfl, hfails⟩

/-! ### The three requests -/

/-- The outcome of decoding a payload as a request of a type: the code that is returned, or the
parts of the request that the three types share. -/
def decodeCommon (type : RequestType) (payload : List UInt8) :
    Except ReturnCode (TdhsRequestTable × TdhsRequestGet) :=
  (runOn (decoderOf version pool stray type) [] payload).result.map fun request ↦
    (request.tableInfo, request.get)

theorem decodeSelection_apply (type : RequestType)
    (parts : Decoder (TdhsRequestTable × TdhsRequestGet)) (payload : List UInt8) :
    (runOn (decodeSelection type parts) [] payload).result =
        (runOn parts [] payload).result.map (fun part ↦ ⟨type, part.1, part.2, zeroValues⟩) ∧
      (runOn (decodeSelection type parts) [] payload).cursor =
        (runOn parts [] payload).cursor := by
  unfold runOn
  change (Reader.bind parts _ _ _).result = _ ∧ (Reader.bind parts _ _ _).cursor = _
  unfold Reader.bind
  dsimp only
  split <;> rename_i hresult <;> rw [hresult] <;> exact ⟨rfl, rfl⟩

/-- The common outcome of a request without values. -/
theorem common_of_selection (type : RequestType)
    (parts : Decoder (TdhsRequestTable × TdhsRequestGet)) (payload : List UInt8) :
    ((runOn (whole .easyError (decodeSelection type parts)) [] payload).result.map
        fun request ↦ (request.tableInfo, request.get)) =
      (runOn parts [] payload).result.bind fun part ↦
        if (runOn parts [] payload).cursor.left = 0 then .ok part else .error .easyError := by
  obtain ⟨hresult, hcursor⟩ := decodeSelection_apply type parts payload
  rw [runOn_whole_result, hresult, hcursor]
  cases (runOn parts [] payload).result with
  | error code => rfl
  | ok part =>
    split_ifs <;> rfl

/-- Reporting every failure as `EASY_ERROR` makes no difference but for `ERROR_OUT_OF_IN`. -/
theorem mapError_bind_eq_iff {Part : Type} {result : Except ReturnCode Part}
    {next other : Part → Except ReturnCode Part}
    (hnext : ∀ part, result = .ok part → next part = other part) :
    (result.mapError fun _ ↦ ReturnCode.easyError).bind next = result.bind other ↔
      ¬ result = .error .errorOutOfIn := by
  cases result with
  | error code =>
    cases code with
    | easyError => exact iff_of_true rfl nofun
    | errorOutOfIn => exact iff_of_false nofun fun h ↦ h rfl
  | ok part => exact iff_of_true (hnext part rfl) nofun

/-- Assumes: the payload declares a field. -/
theorem get_eq_selection_iff (hfield : DeclaresField payload) (type : RequestType) :
    decodeCommon version pool stray .get payload =
      ((runOn (whole .easyError (decodeSelection type
        (decodeGetBody version pool stray false))) [] payload).result.map
          fun request ↦ (request.tableInfo, request.get)) ↔ ¬ IsOutOfIn version pool payload := by
  obtain ⟨hsame, hcursor⟩ := decodeGetBody_of_declaresField version pool stray hfield
  obtain ⟨hfailAs, hleft⟩ :=
    runOn_failAs .easyError (decodeGetBody version pool stray true) [] payload
  have hget : decodeCommon version pool stray .get payload =
      ((runOn (whole .easyError (decodeSelection .get (failAs .easyError
        (decodeGetBody version pool stray true)))) [] payload).result.map
          fun request ↦ (request.tableInfo, request.get)) := rfl
  rw [hget, common_of_selection, common_of_selection, hfailAs, hleft, hsame,
    ← decodeGetBody_error_iff version pool stray]
  refine mapError_bind_eq_iff fun part hpart ↦ ?_
  rw [hcursor part hpart]

/-- A payload that declares a field is decoded alike as GET, as COUNT and as DELETE, with the same
code if it is refused and the same parts if it is accepted, exactly if it has not keys too many or
too few in a range that is read: DELETE and COUNT return `ERROR_OUT_OF_IN` there, and GET
`EASY_ERROR`. Assumes: the payload declares a field. -/
theorem common_part_type_independent {payload : List UInt8} (hfield : DeclaresField payload) :
    (decodeCommon version pool stray .get payload = decodeCommon version pool stray .count payload ∧
      decodeCommon version pool stray .get payload =
        decodeCommon version pool stray .delete payload) ↔
    ¬ IsOutOfIn version pool payload := by
  have hcount := get_eq_selection_iff version pool stray hfield .count
  have hdelete := get_eq_selection_iff version pool stray hfield .delete
  exact (and_congr hcount hdelete).trans and_self_iff

/-- A request for the column `v` of the table `t.t` with one key and a find flag. -/
def oneKeyPayload (findFlag : UInt8) : List UInt8 :=
  [0, 0, 0, 2, 116, 0, 0, 0, 0, 2, 116, 0, 0, 0, 0, 0, 0, 0, 0, 1, 0, 0, 0, 2, 118, 0,
    0, 0, 0, 1, 0, 0, 0, 1, 0, 0, 0, 2, 49, 0, findFlag, 0, 0, 0, 0, 0, 0, 0, 1, 0, 0, 0, 0]

theorem declaresField_oneKeyPayload (findFlag : UInt8) :
    DeclaresField (oneKeyPayload findFlag) :=
  ⟨⟨[116, 0], by decide, by decide⟩, ⟨[116, 0], by decide, by decide⟩, ⟨[], by decide, by decide⟩,
    1, [0, 0, 0, 2, 118, 0, 0, 0, 0, 1, 0, 0, 0, 1, 0, 0, 0, 2, 49, 0, findFlag, 0, 0, 0, 0,
      0, 0, 0, 1, 0, 0, 0, 0], rfl, by decide⟩

/-- A request for an equal key, in version 2. -/
theorem common_part_type_independent_eq :
    decodeCommon binaryV2 roomyPool (fun _ ↦ 0) .get (oneKeyPayload 0) =
        decodeCommon binaryV2 roomyPool (fun _ ↦ 0) .count (oneKeyPayload 0) ∧
      decodeCommon binaryV2 roomyPool (fun _ ↦ 0) .get (oneKeyPayload 0) =
        decodeCommon binaryV2 roomyPool (fun _ ↦ 0) .delete (oneKeyPayload 0) := by
  refine (common_part_type_independent binaryV2 roomyPool (fun _ ↦ 0)
    (declaresField_oneKeyPayload 0)).mpr ?_
  rw [← decodeGetBody_error_iff binaryV2 roomyPool fun _ ↦ 0]
  decide +kernel

/-- A BETWEEN with one key is refused by both versions: as GET with `EASY_ERROR`, and as DELETE and
COUNT with `ERROR_OUT_OF_IN`. -/
theorem between_one_key_differs :
    DeclaresField (oneKeyPayload 7) ∧ ∀ version ∈ [binary, binaryV2],
      decodeCommon version roomyPool (fun _ ↦ 0) .get (oneKeyPayload 7) = .error .easyError ∧
      decodeCommon version roomyPool (fun _ ↦ 0) .count (oneKeyPayload 7) = .error .errorOutOfIn ∧
      decodeCommon version roomyPool (fun _ ↦ 0) .delete (oneKeyPayload 7) =
        .error .errorOutOfIn := by
  refine ⟨declaresField_oneKeyPayload 7, fun version hversion ↦ ?_⟩
  rcases List.mem_cons.mp hversion with rfl | hversion
  · exact ⟨rfl, rfl, rfl⟩
  · rw [List.mem_singleton.mp hversion]
    exact ⟨rfl, rfl, rfl⟩

end TdhSocket.Decode
