import Mathlib.Data.List.TakeWhile
import TdhSocket.Execute.Find
import TdhSocket.Execute.Printed

/-!
# ADD and SUB on an integer column

`update_record` reads the value of a column as a `long long`, adds or subtracts the number of the
request, and stores the result as a signed number. A column of an integer type keeps the nearest
number it has (`IsIntegerColumn`), and tells so by a positive code, which `update_record` takes for
success. `stored_eq_target_iff` says when the number that is stored is the sum or the difference.
-/

set_option autoImplicit false

namespace TdhSocket.Execute

open Protocol Decode Library

variable {Outside Record : Type}

/-! ### Integer types -/

/-- The type of an integer column. -/
structure IntegerType where
  signed : Bool
  bits : ℕ
  bits_ge : 8 ≤ bits
  bits_le : bits ≤ 64

namespace IntegerType

variable (type : IntegerType)

/-- The smallest number of the type. -/
def lower : ℤ := if type.signed then -2 ^ (type.bits - 1) else 0

/-- The largest number of the type. -/
def upper : ℤ := if type.signed then 2 ^ (type.bits - 1) - 1 else 2 ^ type.bits - 1

/-- The number of the type that is nearest to a number. -/
def nearest (number : ℤ) : ℤ := max type.lower (min number type.upper)

theorem bounds : -2 ^ 63 ≤ type.lower ∧ type.lower ≤ 0 ∧ 0 ≤ type.upper ∧
    type.upper < 2 ^ 64 := by
  have hhalf : (2 : ℤ) ^ (type.bits - 1) ≤ 2 ^ 63 :=
    pow_le_pow_right₀ (by decide) (by have := type.bits_le; omega)
  have hfull : (2 : ℤ) ^ type.bits ≤ 2 ^ 64 := pow_le_pow_right₀ (by decide) type.bits_le
  have hhalf_pos : (0 : ℤ) < 2 ^ (type.bits - 1) := by positivity
  have hfull_pos : (0 : ℤ) < 2 ^ type.bits := by positivity
  unfold lower upper
  split_ifs <;> omega

theorem nearest_mem (number : ℤ) :
    type.lower ≤ type.nearest number ∧ type.nearest number ≤ type.upper := by
  have hbounds := type.bounds
  unfold nearest
  omega

end IntegerType

/-- A field of the class `Field` with an integer column behind it, for the number that a record has
in the column. -/
structure IsIntegerColumn (type : IntegerType) (field : Field Record) (value : Record → ℤ) :
    Prop where
  value_mem : ∀ record, type.lower ≤ value record ∧ value record ≤ type.upper
  valInt_eq : ∀ record, field.valInt record = wrapInt64 (value record)
  storeInt_value : ∀ number record, value (field.storeInt number record).2 = type.nearest number
  storeInt_code : ∀ number record,
    if type.lower ≤ number ∧ number ≤ type.upper then (field.storeInt number record).1 = 0
    else 0 < (field.storeInt number record).1

/-- A field whose changes leave the number of another column alone. -/
structure LeavesColumn (value : Record → ℤ) (field : Field Record) : Prop where
  setNull : ∀ record, value (field.setNull record) = value record
  store : ∀ bytes record, value (field.store bytes record).2 = value record
  storeInt : ∀ number record, value (field.storeInt number record).2 = value record
  saveNow : ∀ time record, value (field.saveNow time record).2 = value record

/-! ### Sums and differences -/

/-- The two flags with a number. -/
inductive DeltaFlag
  | add
  | sub
  deriving DecidableEq, Repr

namespace DeltaFlag

/-- The flag of a value. -/
def updateFlag : DeltaFlag → UpdateFlag
  | add => .add
  | sub => .sub

/-- The sum or the difference. -/
def target : DeltaFlag → ℤ → ℤ → ℤ
  | add, old, number => old + number
  | sub, old, number => old - number

end DeltaFlag

/-- The number that ADD or SUB leaves in a column. -/
def stored (type : IntegerType) (flag : DeltaFlag) (number old : ℤ) : ℤ :=
  type.nearest (wrapInt64 (flag.target old number))

variable {number : ℤ} {digits : List UInt8} {text : TdhsString} {new : Record}
  {context final : Context Outside Record} {world : World Outside Record}
  {pairs : List (Field Record × ValueEntry)}

theorem wrapInt64_eq_self (hlower : -2 ^ 63 ≤ number) (hupper : number < 2 ^ 63) :
    wrapInt64 number = number := by
  unfold wrapInt64
  rw [Int.bmod_def]
  split_ifs <;> omega

theorem wrapInt64_of_large (hlower : 2 ^ 63 ≤ number) (hupper : number < 2 ^ 64) :
    wrapInt64 number = number - 2 ^ 64 := by
  unfold wrapInt64
  rw [Int.bmod_def]
  split_ifs <;> omega

/-- What is stored is the sum or the difference exactly if the type has that number and it is a
`long long`: an unsigned column of 64 bits may hold more than `update_record` can store. -/
theorem stored_eq_target_iff (type : IntegerType) (flag : DeltaFlag) (number old : ℤ) :
    stored type flag number old = flag.target old number ↔
      type.lower ≤ flag.target old number ∧ flag.target old number ≤ type.upper ∧
        flag.target old number < 2 ^ 63 := by
  obtain ⟨hlower, hzero, hzero', hupper⟩ := type.bounds
  have hmem := type.nearest_mem (wrapInt64 (flag.target old number))
  unfold stored
  constructor
  · intro hexact
    rw [hexact] at hmem
    refine ⟨hmem.1, hmem.2, ?_⟩
    by_contra hlarge
    have hwrapped := wrapInt64_of_large (Int.not_lt.mp hlarge) (lt_of_le_of_lt hmem.2 hupper)
    rw [hwrapped, IntegerType.nearest] at hexact
    omega
  · rintro ⟨hge, hle, hlong⟩
    rw [wrapInt64_eq_self (hlower.trans hge) hlong, IntegerType.nearest]
    omega

/-! ### The number of a request -/

/-- A text of digits, with a sign or without, and a zero byte. -/
def IsDeltaText (number : ℤ) (text : TdhsString) : Prop :=
  ∃ digits, IsDecimalOf number.natAbs digits ∧
    ((0 ≤ number ∧ (text = digits ++ [0] ∨ text = 43 :: (digits ++ [0]))) ∨
      (number ≤ 0 ∧ text = 45 :: (digits ++ [0])))

theorem foldl_digits_eq_numberOf (text : List UInt8) :
    text.foldl (fun number byte ↦ 10 * number + (byte.toNat - 48)) 0 = numberOf text := by
  induction text using List.reverseRecOn with
  | nil => rfl
  | append_singleton text byte ih =>
    rw [List.foldl_append, ih, numberOf, numberOf, List.reverse_append]
    exact (Nat.add_comm _ _).trans Nat.ofDigits_cons.symm

theorem isDigit_of_isDecimalOf {number : ℕ} (hdigits : IsDecimalOf number digits) :
    ∀ byte ∈ digits, isDigit byte = true := by
  intro byte hbyte
  have hrange := hdigits.digits byte hbyte
  rw [isDigit, Bool.and_eq_true, decide_eq_true_eq, decide_eq_true_eq]
  exact ⟨UInt8.le_iff_toNat_le.mpr hrange.1, UInt8.le_iff_toNat_le.mpr hrange.2⟩

/-- The digits in front of the zero byte are read as the number. -/
theorem leadingNumber_of_isDecimalOf {number : ℕ} (hdigits : IsDecimalOf number digits) :
    leadingNumber (digits ++ [0]) = number := by
  have htake : (digits ++ [0]).takeWhile isDigit = digits := by
    rw [List.takeWhile_append_of_pos (isDigit_of_isDecimalOf hdigits)]
    simp [isDigit]
  rw [leadingNumber, htake, foldl_digits_eq_numberOf, hdigits.value]

theorem atoll_of_digit {byte : UInt8} (hlower : 48 ≤ byte.toNat) (hupper : byte.toNat ≤ 57)
    (rest : List UInt8) :
    atoll (byte :: rest) = min (leadingNumber (byte :: rest) : ℤ) (2 ^ 63 - 1) := by
  have hspace : ¬ isSpace byte = true := by
    simp only [isSpace, Bool.or_eq_true, Bool.and_eq_true, beq_iff_eq, decide_eq_true_eq,
      UInt8.le_iff_toNat_le, ← UInt8.toNat_inj]
    have hblank : (32 : UInt8).toNat = 32 ∧ (13 : UInt8).toNat = 13 := ⟨rfl, rfl⟩
    omega
  have hsign : byte ≠ 45 ∧ byte ≠ 43 := by
    refine ⟨?_, ?_⟩ <;> rintro rfl <;> exact absurd hlower (by decide)
  unfold atoll
  rw [List.dropWhile_cons_of_neg hspace]
  split
  · rename_i heq
    exact absurd (List.cons.inj heq).1 hsign.1
  · rename_i heq
    exact absurd (List.cons.inj heq).1 hsign.2
  · rfl

/-- `atoll` reads the number. Assumes: it is a `long long`. -/
theorem delta_of_isDeltaText (htext : IsDeltaText number text) (hlower : -2 ^ 63 ≤ number)
    (hupper : number < 2 ^ 63) : delta text = number := by
  obtain ⟨digits, hdigits, hform⟩ := htext
  have hread := leadingNumber_of_isDecimalOf hdigits
  obtain ⟨byte, rest, rfl⟩ := List.exists_cons_of_ne_nil hdigits.ne_nil
  have hrange := hdigits.digits byte List.mem_cons_self
  unfold delta
  rcases hform with ⟨hsign, rfl | rfl⟩ | ⟨hsign, rfl⟩
  · rw [if_neg (by simp), List.cons_append, atoll_of_digit hrange.1 hrange.2]
    rw [List.cons_append] at hread
    omega
  · change min (leadingNumber (byte :: rest ++ [0]) : ℤ) (2 ^ 63 - 1) = number
    omega
  · change max (-(leadingNumber (byte :: rest ++ [0]) : ℤ)) (-2 ^ 63) = number
    omega

/-! ### A round of the value loop -/

variable {type : IntegerType} {field : Field Record} {value : Record → ℤ}

/-- ADD or SUB on the column does not fail. -/
theorem updateField_delta (hcolumn : IsIntegerColumn type field value)
    (world : World Outside Record) (flag : DeltaFlag) (text : TdhsString) (record : Record)
    (context : Context Outside Record) :
    ∃ new, updateField world field ⟨flag.updateFlag, text⟩ record context =
        some (some new, context) ∧ value new = stored type flag (delta text) (value record) := by
  have hcode : ∀ number, ¬ (field.storeInt number record).1 < 0 := by
    intro number
    have hstored := hcolumn.storeInt_code number record
    split_ifs at hstored <;> omega
  have hwrap : ∀ number, wrapInt64 (wrapInt64 (value record) + number) =
      wrapInt64 (value record + number) := fun number ↦ Int.bmod_add_bmod
  cases flag with
  | add =>
    refine ⟨(field.storeInt (wrapInt64 (field.valInt record + delta text)) record).2, ?_, ?_⟩
    · simp only [updateField, DeltaFlag.updateFlag, if_neg (hcode _)]
      rfl
    · rw [hcolumn.storeInt_value, hcolumn.valInt_eq, hwrap]
      rfl
  | sub =>
    refine ⟨(field.storeInt (wrapInt64 (field.valInt record - delta text)) record).2, ?_, ?_⟩
    · simp only [updateField, DeltaFlag.updateFlag, if_neg (hcode _)]
      rfl
    · rw [hcolumn.storeInt_value, hcolumn.valInt_eq, Int.sub_eq_add_neg, hwrap]
      rfl

variable {record : Record}

/-- A change of another column. -/
theorem updateField_other {other : Field Record} (hleaves : LeavesColumn value other)
    (world : World Outside Record) (entry : ValueEntry)
    (hreturns : updateField world other entry record context = some (some new, final)) :
    value new = value record := by
  have hchosen : ∀ {code : ℤ} {changed : Record},
      (if code < 0 then none else some changed) = some new → new = changed := by
    intro code changed hsome
    split_ifs at hsome
    exact (Option.some.inj hsome).symm
  unfold updateField at hreturns
  cases hflag : entry.flag with
  | set =>
    simp only [hflag] at hreturns
    split_ifs at hreturns
    · cases hreturns
      exact hleaves.setNull record
    · cases hreturns
    · cases hreturns
      exact hleaves.store _ record
  | add | sub =>
    simp only [hflag] at hreturns
    rw [hchosen (congrArg Prod.fst (Option.some.inj hreturns))]
    exact hleaves.storeInt _ record
  | now =>
    simp only [hflag] at hreturns
    obtain ⟨time, middle, -, hstored⟩ := Program.bind_eq_some.mp hreturns
    rw [hchosen (congrArg Prod.fst (Option.some.inj hstored))]
    exact hleaves.saveNow time record

/-! ### The value loop -/

/-- A round of the loop, and the rounds behind it. -/
theorem updateFields_cons {pair : Field Record × ValueEntry}
    (hreturns : updateFields world (pair :: pairs) record context = some (some new, final)) :
    ∃ next middle, updateField world pair.1 pair.2 record context = some (some next, middle) ∧
      updateFields world pairs next middle = some (some new, final) := by
  obtain ⟨updated, middle, hupdated, hrest⟩ := Program.bind_eq_some.mp hreturns
  cases updated with
  | none => cases hrest
  | some next => exact ⟨next, middle, hupdated, hrest⟩

theorem updateFields_others (hpairs : ∀ pair ∈ pairs, LeavesColumn value pair.1)
    (hreturns : updateFields world pairs record context = some (some new, final)) :
    value new = value record := by
  induction pairs generalizing record context with
  | nil =>
    cases hreturns
    rfl
  | cons pair pairs ih =>
    obtain ⟨next, middle, hfirst, hrest⟩ := updateFields_cons hreturns
    rw [ih (fun other hother ↦ hpairs other (List.mem_cons_of_mem _ hother)) hrest,
      updateField_other (hpairs pair List.mem_cons_self) world pair.2 hfirst]

/-- The column is in the request once, with ADD or SUB and a text for the number. -/
structure ChangesColumn (value : Record → ℤ) (field : Field Record) (flag : DeltaFlag)
    (text : TdhsString) (pairs : List (Field Record × ValueEntry)) : Prop where
  once : ∃ before after, pairs = before ++ (field, ⟨flag.updateFlag, text⟩) :: after ∧
    ∀ pair ∈ before ++ after, LeavesColumn value pair.1

/-- What the value loop leaves in the column. -/
theorem updateFields_delta (hcolumn : IsIntegerColumn type field value) {flag : DeltaFlag}
    (hpairs : ChangesColumn value field flag text pairs)
    (hreturns : updateFields world pairs record context = some (some new, final)) :
    value new = stored type flag (delta text) (value record) := by
  obtain ⟨before, after, hsplit, hothers⟩ := hpairs.once
  clear hpairs
  subst hsplit
  induction before generalizing record context with
  | nil =>
    obtain ⟨next, middle, hfirst, hrest⟩ := updateFields_cons hreturns
    obtain ⟨next', hfirst', hvalue⟩ :=
      updateField_delta hcolumn world flag text record context
    cases hfirst.symm.trans hfirst'
    rw [updateFields_others hothers hrest, hvalue]
  | cons pair before ih =>
    obtain ⟨next, middle, hfirst, hrest⟩ := updateFields_cons hreturns
    have hnext := updateField_other (hothers pair List.mem_cons_self) world pair.2 hfirst
    rw [ih (fun other hother ↦ hothers other (List.mem_cons_of_mem _ hother)) hrest, hnext]

end TdhSocket.Execute
