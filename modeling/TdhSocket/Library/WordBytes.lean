import Mathlib.Data.Nat.Bitwise
import Mathlib.Data.Nat.Digits.Lemmas

/-!
# A zero byte in a word

The bytes of a word, the lowest first, and the test whether one of them is zero: subtract one from
every byte, and look at the highest bits that are set there and not in the word. A byte that is not
zero borrows nothing from the next one, so the test goes byte by byte up to the first zero
(`zeroTest_eq_zero_iff`).
-/

set_option autoImplicit false

namespace TdhSocket.Library.WordBytes

/-- The number that some bytes stand for, the lowest first. -/
def value (bytes : List UInt8) : ℕ := Nat.ofDigits 256 (bytes.map UInt8.toNat)

/-- The number with one byte in every place. -/
def repeated (byte count : ℕ) : ℕ := Nat.ofDigits 256 (List.replicate count byte)

/-- The test of a number of some bytes. -/
def zeroTest (count number : ℕ) : ℕ :=
  (256 ^ count - repeated 1 count + number) % 256 ^ count &&& (256 ^ count - 1 - number) &&&
    repeated 128 count

theorem value_cons (byte : UInt8) (bytes : List UInt8) :
    value (byte :: bytes) = 256 * value bytes + byte.toNat := by
  rw [value, List.map_cons, Nat.ofDigits_cons, Nat.add_comm]
  rfl

theorem repeated_succ (byte count : ℕ) :
    repeated byte (count + 1) = 256 * repeated byte count + byte := by
  rw [repeated, List.replicate_succ, Nat.ofDigits_cons, Nat.add_comm]
  rfl

theorem value_lt (bytes : List UInt8) : value bytes < 256 ^ bytes.length := by
  induction bytes with
  | nil => exact Nat.one_pos
  | cons byte bytes ih =>
    have hbyte := byte.toNat_lt
    rw [value_cons, List.length_cons, Nat.pow_succ]
    omega

theorem repeated_one_lt (count : ℕ) : repeated 1 count < 256 ^ count := by
  induction count with
  | zero => exact Nat.one_pos
  | succ count ih =>
    rw [repeated_succ, Nat.pow_succ]
    omega

/-- The lowest bytes of a conjunction, and the rest of it. -/
theorem land_digit {low low' : ℕ} (hlow : low < 256) (hlow' : low' < 256) (high high' : ℕ) :
    (256 * high + low) &&& (256 * high' + low') = 256 * (high &&& high') + (low &&& low') := by
  have hand : low &&& low' < 2 ^ 8 := lt_of_le_of_lt Nat.and_le_left hlow
  refine Nat.eq_of_testBit_eq fun i ↦ ?_
  rw [Nat.testBit_and, Nat.testBit_two_pow_mul_add (i := 8) high hlow,
    Nat.testBit_two_pow_mul_add (i := 8) high' hlow', Nat.testBit_two_pow_mul_add (i := 8) _ hand]
  split_ifs
  · exact (Nat.testBit_and ..).symm
  · exact (Nat.testBit_and ..).symm

theorem mod_digit {low : ℕ} (hlow : low < 256) (high count : ℕ) :
    (256 * high + low) % 256 ^ (count + 1) = 256 * (high % 256 ^ count) + low := by
  have hhigh : (256 * high + low) / 256 = high := by omega
  rw [Nat.pow_succ', Nat.mod_mul, hhigh]
  omega

/-- Where the lowest byte is not zero, the test is that of the rest. -/
theorem zeroTest_of_pos {low high count : ℕ} (hpos : 0 < low) (hlow : low < 256)
    (hhigh : high < 256 ^ count) :
    zeroTest (count + 1) (256 * high + low) = 256 * zeroTest count high := by
  have hones := repeated_one_lt count
  have hsub : 256 ^ (count + 1) - repeated 1 (count + 1) + (256 * high + low) =
      256 * (256 ^ count - repeated 1 count + high) + (low - 1) := by
    rw [repeated_succ, Nat.pow_succ]
    omega
  have hnot : 256 ^ (count + 1) - 1 - (256 * high + low) =
      256 * (256 ^ count - 1 - high) + (255 - low) := by
    rw [Nat.pow_succ]
    omega
  have hbyte : ∀ byte < 256, 0 < byte → byte - 1 &&& 255 - byte &&& 128 = 0 := by
    decide +kernel
  have hmask : low - 1 &&& 255 - low < 256 := lt_of_le_of_lt Nat.and_le_left (by omega)
  rw [zeroTest, hsub, hnot, mod_digit (by omega), repeated_succ,
    land_digit (by omega) (by omega), land_digit hmask (by decide), hbyte low hlow hpos]
  rfl

/-- Where the lowest byte is zero, its highest bit is left. -/
theorem zeroTest_of_zero {high count : ℕ} (hhigh : high < 256 ^ count) :
    zeroTest (count + 1) (256 * high) ≠ 0 := by
  have hones := repeated_one_lt count
  have hsub : 256 ^ (count + 1) - repeated 1 (count + 1) + 256 * high =
      256 * (256 ^ count - repeated 1 count - 1 + high) + 255 := by
    rw [repeated_succ, Nat.pow_succ]
    omega
  have hnot : 256 ^ (count + 1) - 1 - 256 * high = 256 * (256 ^ count - 1 - high) + 255 := by
    rw [Nat.pow_succ]
    omega
  rw [zeroTest, hsub, hnot, mod_digit (by decide), repeated_succ, land_digit (by decide)
    (by decide), land_digit (by decide) (by decide)]
  exact Nat.ne_of_gt (Nat.add_pos_right _ (by decide))

theorem zeroTest_eq_zero_iff (bytes : List UInt8) :
    zeroTest bytes.length (value bytes) = 0 ↔ 0 ∉ bytes := by
  induction bytes with
  | nil => simp [zeroTest, value]
  | cons byte bytes ih =>
    have hrest := value_lt bytes
    rw [value_cons, List.length_cons, List.mem_cons, not_or]
    by_cases hzero : byte = 0
    · subst hzero
      simpa using zeroTest_of_zero hrest
    · have hpos : 0 < byte.toNat := Nat.pos_of_ne_zero fun h ↦ hzero (UInt8.toNat_inj.mp h)
      rw [zeroTest_of_pos hpos byte.toNat_lt hrest, Nat.mul_eq_zero, ih]
      simp [Ne.symm hzero]

end TdhSocket.Library.WordBytes
