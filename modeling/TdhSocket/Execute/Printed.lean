import Mathlib.Data.Nat.Digits.Lemmas
import TdhSocket.Execute.World

/-!
# Numbers in responses

A counter of rows is a `uint32_t` that is printed with `%d` into eleven bytes. `printed_eq_iff` is
the range in which the text is the number.
-/

set_option autoImplicit false

namespace TdhSocket.Execute

/-- The number that a text of digits denotes. -/
def numberOf (text : List UInt8) : ℕ :=
  Nat.ofDigits 10 (text.reverse.map fun byte ↦ byte.toNat - 48)

theorem toNat_digit {digit : ℕ} (hdigit : digit < 10) :
    (UInt8.ofNat (48 + digit)).toNat = 48 + digit := by
  rw [UInt8.toNat_ofNat']
  omega

/-- The text of a number denotes it. -/
theorem numberOf_decimal (number : ℕ) : numberOf (decimal number) = number := by
  unfold decimal
  split_ifs with hzero
  · rw [hzero]
    rfl
  · have hdigits : ((Nat.digits 10 number).map fun digit ↦
        (UInt8.ofNat (48 + digit)).toNat - 48) = Nat.digits 10 number := by
      refine (List.map_congr_left fun digit hdigit ↦ ?_).trans (List.map_id _)
      rw [toNat_digit (Nat.digits_lt_base (by decide) hdigit)]
      exact Nat.add_sub_cancel_left 48 digit
    rw [numberOf, ← List.map_reverse, List.reverse_reverse, List.map_map]
    exact (congrArg (Nat.ofDigits 10) hdigits).trans (Nat.ofDigits_digits 10 number)

theorem decimal_injective : Function.Injective decimal :=
  Function.LeftInverse.injective numberOf_decimal

theorem toNat_of_mem_decimal {number : ℕ} {byte : UInt8} (hbyte : byte ∈ decimal number) :
    48 ≤ byte.toNat ∧ byte.toNat ≤ 57 := by
  unfold decimal at hbyte
  split_ifs at hbyte with hzero
  · rw [List.mem_singleton.mp hbyte]
    decide
  · obtain ⟨digit, hdigit, rfl⟩ := List.mem_map.mp hbyte
    have hlt : digit < 10 := Nat.digits_lt_base (by decide) (List.mem_reverse.mp hdigit)
    rw [toNat_digit hlt]
    omega

theorem decimal_ne_nil (number : ℕ) : decimal number ≠ [] := by
  unfold decimal
  split_ifs with hzero
  · exact List.cons_ne_nil _ _
  · rw [Ne, List.map_eq_nil_iff, List.reverse_eq_nil_iff]
    exact Nat.digits_ne_nil_iff_ne_zero.mpr hzero

/-- A text of digits that denotes a number. -/
structure IsDecimalOf (number : ℕ) (text : List UInt8) : Prop where
  ne_nil : text ≠ []
  digits : ∀ byte ∈ text, 48 ≤ byte.toNat ∧ byte.toNat ≤ 57
  value : numberOf text = number

theorem isDecimalOf_decimal (number : ℕ) : IsDecimalOf number (decimal number) :=
  ⟨decimal_ne_nil number, fun _ ↦ toNat_of_mem_decimal, numberOf_decimal number⟩

theorem length_decimal_le {number bound : ℕ} (hbound : 0 < bound) (hnumber : number < 10 ^ bound) :
    (decimal number).length ≤ bound := by
  unfold decimal
  split_ifs with hzero
  · exact hbound
  · rw [List.length_map, List.length_reverse]
    exact (Nat.digits_length_le_iff (by decide) number).mpr hnumber

/-- A text that fits is copied as it is. -/
theorem printedValue_eq_self {text : List UInt8} (htext : text.length ≤ 10) :
    printedValue text = text := by
  rw [printedValue, List.take_of_length_le htext, List.take_left]

/-- The text a counter is printed as is that of the number counted exactly below 2 ^ 31. From there
on it is printed as a negative number, and from 2 ^ 32 on the counter is another number. -/
theorem printed_eq_iff (number : ℕ) :
    printedValue (printInt (number % 2 ^ 32)) = decimal number ↔ number < 2 ^ 31 := by
  constructor
  · intro hprinted
    by_cases hsmall : number % 2 ^ 32 < 2 ^ 31
    · rw [printInt, if_pos hsmall,
        printedValue_eq_self
          (length_decimal_le (by decide) (lt_trans hsmall (by decide)))] at hprinted
      rw [← decimal_injective hprinted]
      exact hsmall
    · rw [printInt, if_neg hsmall] at hprinted
      have hminus : (45 : UInt8) ∈ decimal number := by
        rw [← hprinted, printedValue]
        simp
      exact absurd (toNat_of_mem_decimal hminus).1 (by decide)
  · intro hsmall
    have hsame : number % 2 ^ 32 = number := Nat.mod_eq_of_lt (lt_trans hsmall (by decide))
    rw [hsame, printInt, if_pos hsmall]
    exact printedValue_eq_self (length_decimal_le (by decide) (lt_trans hsmall (by decide)))

end TdhSocket.Execute
