import TdhSocket.Decode.Grammar

/-!
# Stores of the decoders

Which payloads make a decoder store to a place that is not allowed, for any choice of allowed
places that has all elements of the arrays. The element stores of fields, filters and values are
guarded, so the keys decide: given what makes the reading of one key leave the allowed places, the
fault, `safeOn_decoderOf` says exactly on which payloads a decoder does.
-/

set_option autoImplicit false

namespace TdhSocket.Decode

open Protocol Library Library.Reader

/-! ### Faulty keys -/

/-- A get part with a faulty key: valid table information, the number of keys, some of the keys, and
then one that has the fault. -/
def HasFault (Fault : KeyArray → ℕ → List UInt8 → Prop) (version : Version) (pool : EasyPool)
    (needField : Bool) (payload : List UInt8) : Prop :=
  ∃ (tableInfo : WireTable) (keyNum : ℕ) (keys : List WireKey) (tail : List UInt8),
    tableInfo.Valid needField ∧ keyNum < 2 ^ 32 ∧ keys.length < keyNum ∧
    payload = tableInfo.encode ++ (BigEndian.toBytes keyNum ++
      (keys.flatMap WireKey.encode ++ tail)) ∧
    Fault (version.chooseKeys pool keyNum) keys.length tail

/-- Whether a request type needs fields, for the types that have keys. -/
def needFieldOf : RequestType → Option Bool
  | .get => some true
  | .count => some false
  | .update => some true
  | .delete => some false
  | .insert => none
  | .batch => none

/-- No key of the payload is faulty. -/
def FaultFree (Fault : KeyArray → ℕ → List UInt8 → Prop) (version : Version) (pool : EasyPool)
    (payload : List UInt8) (type : RequestType) : Prop :=
  ∀ needField, needFieldOf type = some needField → ¬ HasFault Fault version pool needField payload

variable {version : Version} {pool : EasyPool} {payload : List UInt8}

theorem faultFree_iff {Fault : KeyArray → ℕ → List UInt8 → Prop} {type : RequestType}
    {needField : Bool} (hneed : needFieldOf type = some needField) :
    FaultFree Fault version pool payload type ↔
      ¬ HasFault Fault version pool needField payload := by
  simp only [FaultFree, hneed, Option.some.injEq, forall_eq']

theorem faultFree_of_none {Fault : KeyArray → ℕ → List UInt8 → Prop} {type : RequestType}
    (hneed : needFieldOf type = none) : FaultFree Fault version pool payload type := by
  intro needField hsome
  rw [hneed] at hsome
  cases hsome

section

variable {allowed : Place → Prop}

/-! ### The guarded parts -/

theorem safe_readUint32 : Safe allowed readUint32 :=
  Safe.bind (recognises_take _ 4) (safe_take _ _ 4) fun _ ↦ safe_pure _ _

theorem safe_readUint8 : Safe allowed readUint8 :=
  Safe.bind (recognises_take _ 1) (safe_take _ _ 1) fun _ ↦ safe_pure _ _

theorem safe_readStr (length : ℕ) : Safe allowed (readStr length) :=
  Safe.bind (recognises_take _ length) (safe_take _ _ length) fun _ ↦
    Safe.bind (recognises_ensure _ _) (safe_ensure _ _ _) fun _ ↦ safe_pure _ _

/-- Assumes: the element, if there is one, is allowed. -/
theorem safe_readString {place : Option Place} (hplace : ∀ p, place = some p → allowed p) :
    Safe allowed (readString place) := by
  have hstore : Safe allowed (storeTo place) := by
    cases place with
    | none => exact safe_pure _ ()
    | some place => exact safe_store (hplace place rfl)
  exact Safe.bind recognises_readUint32 safe_readUint32 fun length ↦
    Safe.bind (recognises_storeTo place) hstore fun _ ↦ safe_readStr length

/-- The store of a key leaves its array when the key is to be kept and has no element. -/
theorem safeOn_storeKey {keyArray : KeyArray} {i : ℕ} {before rest : List UInt8}
    (hallowed : allowed ⟨.keys, i, keyArray.capacity⟩ ↔ i < keyArray.capacity) :
    SafeOn allowed
      (storeTo (if i < keyArray.inLimit then some ⟨.keys, i, keyArray.capacity⟩ else none))
      before rest ↔ ¬ (i < keyArray.inLimit ∧ keyArray.capacity ≤ i) := by
  split_ifs with hkept
  · refine safeOn_store.trans (hallowed.trans ?_)
    simp [hkept]
  · exact iff_of_true (safe_pure _ () before rest) fun hboth ↦ hkept hboth.1

theorem safe_decodeRange (version : Version) (stray : ℕ → ℕ) (keyNum : ℕ) (keyArray : KeyArray)
    (keys : List TdhsGetKey) :
    Safe allowed (decodeRange version stray keyNum keyArray keys) :=
  Safe.bind recognises_readUint8 safe_readUint8 fun _ ↦
    Safe.bind recognises_readUint32 safe_readUint32 fun _ ↦
      Safe.bind recognises_readUint32 safe_readUint32 fun _ ↦
        Safe.bind (recognises_ensure _ _) (safe_ensure _ _ _) fun _ ↦
          Safe.bind (recognises_ensure _ _) (safe_ensure _ _ _) fun _ ↦
            Safe.bind (recognises_ensure _ _) (safe_ensure _ _ _) fun _ ↦ safe_pure _ _

theorem guardedPlace_inArray {array : DestArray} {index capacity : ℕ} {place : Place}
    (hplace : guardedPlace array index capacity = some place) : place.InArray := by
  unfold guardedPlace at hplace
  split_ifs at hplace with hindex
  cases hplace
  exact hindex

variable (hallowed : ∀ place : Place, place.InArray → allowed place)
include hallowed

theorem safe_readElement (array : DestArray) (i capacity : ℕ) :
    Safe allowed (readString (guardedPlace array i capacity)) :=
  safe_readString fun _ hplace ↦ hallowed _ (guardedPlace_inArray hplace)

theorem safe_setFlag {array : DestArray} {i : ℕ} (valid : Bool) :
    Safe allowed (if i < requestMaxFieldNum then do
        Reader.ensure valid ReturnCode.easyError
        Reader.store ⟨array, i, requestMaxFieldNum⟩
      else pure ()) := by
  split_ifs with hkept
  · exact Safe.bind (recognises_ensure _ _) (safe_ensure _ _ _) fun _ ↦
      safe_store (hallowed _ hkept)
  · exact safe_pure _ ()

theorem safe_decodeToTableInfo (needField : Bool) :
    Safe allowed (decodeToTableInfo needField) := by
  have hname : Safe allowed (readString none) := safe_readString fun _ hnone ↦ by cases hnone
  have hindex : Safe allowed readIndex := by
    refine Safe.bind recognises_readUint32 safe_readUint32 fun length ↦ ?_
    split_ifs
    · exact safe_readStr length
    · exact safe_pure _ _
  exact Safe.bind (reads_readString none) hname fun db ↦
    Safe.bind (reads_readString none) hname fun table ↦
      Safe.bind reads_readIndex hindex fun index ↦
        Safe.bind recognises_readUint32 safe_readUint32 fun fieldNum ↦
          Safe.bind (Reads.repeatFrom (fun i ↦ reads_readString _) fieldNum)
            (Safe.repeatFrom (fun i ↦ reads_readString _)
              (fun i ↦ safe_readElement hallowed _ i _) 0 fieldNum)
            fun fields ↦ Safe.bind (recognises_ensure _ _) (safe_ensure _ _ _) fun _ ↦
              safe_pure _ _

theorem safe_decodeToFilter : Safe allowed decodeToFilter := by
  have hfilter : ∀ i, Safe allowed (readFilter i) := fun i ↦
    Safe.bind (reads_readString _) (safe_readElement hallowed _ i _) fun field ↦
      Safe.bind recognises_readUint8 safe_readUint8 fun flag ↦
        Safe.bind (recognises_setFilterFlag i flag) (safe_setFlag hallowed _) fun _ ↦
          Safe.bind (reads_readString _) (safe_readElement hallowed _ i _) fun value ↦ safe_pure _ _
  exact Safe.bind recognises_readUint32 safe_readUint32 fun filterNum ↦
    Safe.bind (Reads.repeatFrom reads_readFilter filterNum)
      (Safe.repeatFrom reads_readFilter hfilter 0 filterNum) fun filters ↦ safe_pure _ _

theorem safe_decodeValues (fieldNum : ℕ) : Safe allowed (decodeValues fieldNum) := by
  have hvalue : ∀ i, Safe allowed (readValue i) := fun i ↦
    Safe.bind recognises_readUint8 safe_readUint8 fun flag ↦
      Safe.bind (recognises_setValueFlag i flag) (safe_setFlag hallowed _) fun _ ↦
        Safe.bind (reads_readString _) (safe_readElement hallowed _ i _) fun value ↦ safe_pure _ _
  exact Safe.bind recognises_readUint32 safe_readUint32 fun valueNum ↦
    Safe.bind (recognises_ensure _ _) (safe_ensure _ _ _) fun _ ↦
      Safe.bind (Reads.repeatFrom reads_readValue valueNum)
        (Safe.repeatFrom reads_readValue hvalue 0 valueNum) fun values ↦ safe_pure _ _

/-! ### The keys decide -/

variable {Fault : KeyArray → ℕ → List UInt8 → Prop}
  (hfault : ∀ (keyArray : KeyArray) (i : ℕ) (before rest : List UInt8),
    SafeOn allowed (readKey keyArray i) before rest ↔ ¬ Fault keyArray i rest)
include hfault

omit hallowed in
theorem safeOn_readKeys (keyArray : KeyArray) (keyNum : ℕ) (before rest : List UInt8) :
    SafeOn allowed (repeatFrom (readKey keyArray) 0 keyNum) before rest ↔
      ∀ (keys : List WireKey) (tail : List UInt8), keys.length < keyNum →
        rest = keys.flatMap WireKey.encode ++ tail → ¬ Fault keyArray keys.length tail := by
  rw [safeOn_repeatFrom (reads_readKey keyArray)]
  simp only [hfault, words_iff, Nat.zero_add]
  constructor
  · intro hall keys tail hcount hrest
    have hsafe := hall (keys.map WireKey.request) _ tail (by rwa [List.length_map])
      ⟨keys, fun _ _ _ ↦ trivial, rfl, rfl⟩ hrest
    rwa [List.length_map] at hsafe
  · rintro hall values word tail hcount ⟨keys, -, rfl, rfl⟩ hrest
    rw [List.length_map] at hcount ⊢
    exact hall keys tail hcount hrest

/-- The get part stores to allowed places exactly on the payloads without a faulty key. -/
theorem safeOn_decodeGetBody (version : Version) (pool : EasyPool) (stray : ℕ → ℕ)
    (needField : Bool) (before rest : List UInt8) :
    SafeOn allowed (decodeGetBody version pool stray needField) before rest ↔
      ¬ HasFault Fault version pool needField rest := by
  have hkeys : ∀ (tableInfo : TdhsRequestTable) (keyNum : ℕ) (before rest : List UInt8),
      SafeOn allowed
        (repeatFrom (readKey (version.chooseKeys pool keyNum)) 0 keyNum >>= fun keys ↦
          decodeRange version stray keyNum (version.chooseKeys pool keyNum)
            (keys.take (version.chooseKeys pool keyNum).inLimit) >>= fun range ↦
              decodeToFilter >>= fun filter ↦
                pure (tableInfo, (⟨keyNum, version.chooseKeys pool keyNum,
                  keys.take (version.chooseKeys pool keyNum).inLimit, range.1, range.2.1,
                  range.2.2, filter⟩ : TdhsRequestGet))) before rest ↔
      ∀ (keys : List WireKey) (tail : List UInt8), keys.length < keyNum →
        rest = keys.flatMap WireKey.encode ++ tail →
          ¬ Fault (version.chooseKeys pool keyNum) keys.length tail :=
    fun tableInfo keyNum before rest ↦
      (safeOn_bind_left (reads_readKeys _ keyNum) fun keys ↦
        Safe.bind (reads_decodeRange version stray keyNum _ _) (safe_decodeRange _ _ _ _ _)
          fun range ↦ Safe.bind reads_decodeToFilter (safe_decodeToFilter hallowed)
            fun filter ↦ safe_pure _ _).trans (safeOn_readKeys hfault _ keyNum before rest)
  unfold decodeGetBody
  rw [safeOn_bind_right (reads_decodeToTableInfo needField)
    (safe_decodeToTableInfo hallowed needField)]
  simp only [safeOn_bind_right recognises_readUint32 safe_readUint32]
  constructor
  · rintro hall ⟨tableInfo, keyNum, keys, tail, hvalid, hlt, hcount, rfl, hfaulty⟩
    exact (hkeys _ _ _ _).mp (hall _ _ _ ⟨tableInfo, hvalid, rfl, rfl⟩ rfl keyNum _ _ ⟨hlt, rfl⟩
      rfl) keys tail hcount rfl hfaulty
  · rintro hnone _ _ _ ⟨tableInfo, hvalid, rfl, rfl⟩ rfl keyNum _ _ ⟨hlt, rfl⟩ rfl
    refine (hkeys _ _ _ _).mpr ?_
    rintro keys tail hcount rfl hfaulty
    exact hnone ⟨tableInfo, keyNum, keys, tail, hvalid, hlt, hcount, rfl, hfaulty⟩

/-- A decoder stores to allowed places only, exactly on the payloads without a faulty key. Assumes:
the elements of the arrays are allowed, and reading a key leaves the allowed places when it has the
fault. -/
theorem safeOn_decoderOf (version : Version) (pool : EasyPool) (stray : ℕ → ℕ)
    (type : RequestType) (payload : List UInt8) :
    SafeOn allowed (decoderOf version pool stray type) [] payload ↔
      FaultFree Fault version pool payload type := by
  have hfailAs := (reads_decodeGetBody version pool stray true).failAs ReturnCode.easyError
  have hselection : ∀ (needField : Bool) (parts : Decoder (TdhsRequestTable × TdhsRequestGet)),
      Reads parts (WireGet.Valid version pool stray needField) (WireGet.request version pool)
        WireGet.encode → ∀ type,
      (SafeOn allowed (whole .easyError (decodeSelection type parts)) [] payload ↔
        SafeOn allowed parts [] payload) := fun needField parts hparts type ↦
    (safeOn_whole (reads_decodeSelection version pool stray type hparts)).trans
      (safeOn_bind_left hparts fun _ ↦ safe_pure _ _)
  cases type with
  | get =>
    exact (hselection true _ hfailAs .get).trans (safeOn_failAs.trans
      ((safeOn_decodeGetBody hallowed hfault version pool stray true [] payload).trans
        (faultFree_iff rfl).symm))
  | count =>
    exact (hselection false _ (reads_decodeGetBody version pool stray false) .count).trans
      ((safeOn_decodeGetBody hallowed hfault version pool stray false [] payload).trans
        (faultFree_iff rfl).symm)
  | update =>
    refine (safeOn_whole (reads_decodeUpdateBody version pool stray)).trans
      ((safeOn_bind_left hfailAs fun parts ↦ ?_).trans (safeOn_failAs.trans
        ((safeOn_decodeGetBody hallowed hfault version pool stray true [] payload).trans
          (faultFree_iff rfl).symm)))
    exact Safe.bind (reads_decodeValues _) (safe_decodeValues hallowed _) fun _ ↦ safe_pure _ _
  | delete =>
    exact (hselection false _ (reads_decodeGetBody version pool stray false) .delete).trans
      ((safeOn_decodeGetBody hallowed hfault version pool stray false [] payload).trans
        (faultFree_iff rfl).symm)
  | insert =>
    refine iff_of_true ((safeOn_whole (reads_decodeInsertBody version pool)).mpr ?_)
      (faultFree_of_none rfl)
    exact Safe.bind (reads_decodeToTableInfo false) (safe_decodeToTableInfo hallowed false)
      (fun _ ↦ Safe.bind (reads_decodeValues _) (safe_decodeValues hallowed _) fun _ ↦
        safe_pure _ _) _ _
  | batch => exact iff_of_true (safe_pure _ _ _ _) (faultFree_of_none rfl)

end

end TdhSocket.Decode
