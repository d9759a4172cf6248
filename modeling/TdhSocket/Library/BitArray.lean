import Mathlib.Data.Finset.Card
import Mathlib.Data.Nat.Bitwise

/-!
# Arrays of bits

A list of bytes as an array of bits, eight to a byte, the lowest first. `setBits` has the positions
of the set bits; setting a bit adds its position and changes no other (`setBits_setBit`).
-/

set_option autoImplicit false

namespace TdhSocket.Library

variable (a : List UInt8)

/-- The bit at a position of the array. -/
def getBit (n : ℕ) : Bool :=
  a.getD (n / 8) 0 &&& (1 <<< UInt8.ofNat (n % 8)) != 0

/-- The array with the bit at a position set. -/
def setBit (n : ℕ) : List UInt8 :=
  a.modify (n / 8) (· ||| (1 <<< UInt8.ofNat (n % 8)))

/-- The positions of the set bits. -/
def setBits : Finset ℕ := {n ∈ Finset.range (8 * a.length) | getBit a n}

@[simp]
theorem length_setBit (n : ℕ) : (setBit a n).length = a.length :=
  List.length_modify ..

theorem toNat_mask : ∀ i < 8, ((1 : UInt8) <<< UInt8.ofNat i).toNat = 2 ^ i := by decide

/-- A mask of one bit picks that bit of a byte. -/
theorem and_mask_ne_zero_iff (byte : UInt8) {i : ℕ} (hi : i < 8) :
    byte &&& (1 <<< UInt8.ofNat i) ≠ 0 ↔ byte.toNat.testBit i = true := by
  rw [← UInt8.toNat_inj.ne, UInt8.toNat_and, toNat_mask i hi, Nat.and_two_pow]
  cases byte.toNat.testBit i <;> simp

theorem getBit_eq_testBit (n : ℕ) : getBit a n = (a.getD (n / 8) 0).toNat.testBit (n % 8) := by
  have hiff := and_mask_ne_zero_iff (a.getD (n / 8) 0) (Nat.mod_lt n (by decide : 8 > 0))
  rw [Bool.eq_iff_iff, ← hiff, getBit, bne_iff_ne]

variable {a} {n : ℕ}

/-- Setting a bit changes no other bit. Assumes: the position is in the array. -/
theorem getBit_setBit (hn : n < 8 * a.length) (k : ℕ) :
    getBit (setBit a n) k = (decide (k = n) || getBit a k) := by
  have hmask := toNat_mask (n % 8) (Nat.mod_lt n (by decide))
  have hbyte : n / 8 < a.length := by omega
  rw [getBit_eq_testBit, getBit_eq_testBit, setBit, List.getD_eq_getElem?_getD,
    List.getElem?_modify, List.getD_eq_getElem?_getD]
  by_cases hsame : n / 8 = k / 8
  · have hposition : n % 8 = k % 8 ↔ k = n := by omega
    rw [← hsame, List.getElem?_eq_getElem hbyte]
    simp only [if_true, Option.map_eq_map, Option.map_some, Option.getD_some, UInt8.toNat_or,
      Nat.testBit_or, hmask, Nat.testBit_two_pow, hposition]
    exact Bool.or_comm ..
  · have hne : k ≠ n := fun h ↦ hsame (h ▸ rfl)
    simp [hsame, hne]

/-- Setting a bit adds its position to the set bits. -/
theorem setBits_setBit (hn : n < 8 * a.length) :
    setBits (setBit a n) = insert n (setBits a) := by
  ext k
  simp only [setBits, Finset.mem_filter, Finset.mem_range, length_setBit, getBit_setBit hn,
    Bool.or_eq_true, decide_eq_true_eq, Finset.mem_insert]
  constructor
  · rintro ⟨hk, rfl | hbit⟩
    · exact Or.inl rfl
    · exact Or.inr ⟨hk, hbit⟩
  · rintro (rfl | ⟨hk, hbit⟩)
    · exact ⟨hn, Or.inl rfl⟩
    · exact ⟨hk, Or.inr hbit⟩

theorem mem_setBits (hn : n < 8 * a.length) :
    n ∈ setBits a ↔ getBit a n = true := by
  simp [setBits, hn]

/-- The cleared array has no set bit. -/
theorem getBit_replicate (length n : ℕ) : getBit (List.replicate length 0) n = false := by
  have hzero : (List.replicate length (0 : UInt8)).getD (n / 8) 0 = 0 := by
    rw [List.getD_eq_getElem?_getD, List.getElem?_replicate]
    split_ifs <;> rfl
  rw [getBit_eq_testBit, hzero]
  exact Nat.zero_testBit _

theorem setBits_replicate (length : ℕ) : setBits (List.replicate length 0) = ∅ :=
  Finset.filter_eq_empty_iff.mpr fun n _ ↦ by simp [getBit_replicate]

end TdhSocket.Library
