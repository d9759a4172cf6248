import TdhSocket.Library.WordBytes

/-!
# Copying a string by words

`easy_strncpy` copies eight bytes at a time until a word has a zero byte or the room is used up,
and the rest by a `switch` over the same variable. Memory is a list of bytes from the pointer on,
and an access behind its end has no value. `easy_strncpy` stays inside for a source with seven
readable bytes behind its NUL, and leaves as much of the text as there is room for
(`easyStrncpy_copies`).
-/

set_option autoImplicit false

namespace TdhSocket.Util

open Library

def himagic : UInt64 := 0x8080808080808080

def lomagic : UInt64 := 0x0101010101010101

/-- The word at the start of the memory, on a little-endian machine. -/
def loadWord (src : List UInt8) : UInt64 := UInt64.ofNat (WordBytes.value (src.take 8))

/-- The `switch` and the NUL behind it. -/
def copyTail (n : ℕ) (src dst : List UInt8) : Option (List UInt8) :=
  if n ≤ src.length ∧ n < dst.length then some (src.take n ++ 0 :: dst.drop (n + 1)) else none

/-- The loop over the words up to `nend`, and what follows it. With a zero byte in a word, `n` is
the first of its bytes 0 to 6 that is zero, or else 7. -/
def copyWords (n : ℕ) : ℕ → List UInt8 → List UInt8 → Option (List UInt8)
  | 0, src, dst => copyTail (n &&& 7) src dst
  | words + 1, src, dst =>
    if src.length < 8 then none
    else if ((loadWord src - lomagic) &&& ~~~loadWord src &&& himagic) ≠ 0 then
      copyTail ((src.take 7).findIdx (· == 0) &&& 7) src dst
    else if dst.length < 8 then none
    else (copyWords n words (src.drop 8) (dst.drop 8)).map (src.take 8 ++ ·)

/-- `easy_strncpy`, with the memory at `dst` behind it. NULL is returned without a destination or
room for it. -/
def easyStrncpy (dst : Option (List UInt8)) (src : List UInt8) (n : ℕ) :
    Option (Option (List UInt8)) :=
  match n, dst with
  | n + 1, some dst => (copyWords n (n / 8) src dst).map some
  | _, _ => some none

/-- The test of a word is exact. -/
theorem magic_ne_zero_iff {src : List UInt8} (hlength : 8 ≤ src.length) :
    ((loadWord src - lomagic) &&& ~~~loadWord src &&& himagic) ≠ 0 ↔ 0 ∈ src.take 8 := by
  have hcount : (src.take 8).length = 8 := List.length_take_of_le hlength
  have hvalue := WordBytes.value_lt (src.take 8)
  have hiff := WordBytes.zeroTest_eq_zero_iff (src.take 8)
  rw [hcount] at hvalue hiff
  have hword : (loadWord src).toNat = WordBytes.value (src.take 8) :=
    UInt64.toNat_ofNat_of_lt' hvalue
  rw [← not_iff_not, ← hiff, not_not, ← UInt64.toNat_inj, UInt64.toNat_and, UInt64.toNat_and,
    UInt64.toNat_sub, UInt64.toNat_not, hword]
  rfl

variable {text rest dst : List UInt8}

/-- What stands in the room: the text as far as it goes, a NUL, and something behind it. -/
def Holds (text : List UInt8) (room : ℕ) (copied : List UInt8) : Prop :=
  copied.length = room + 1 ∧ ∃ behind, copied = text.take room ++ 0 :: behind

theorem take_text {count : ℕ} (hcount : text.length < count) :
    (text ++ 0 :: rest).take count = text ++ 0 :: rest.take (count - text.length - 1) := by
  obtain ⟨more, rfl⟩ := Nat.exists_eq_add_of_lt hcount
  rw [Nat.add_assoc, List.take_length_add_append, List.take_succ_cons, Nat.add_sub_cancel_left]
  rfl

theorem and_seven (n : ℕ) : n &&& 7 = n % 8 := Nat.and_two_pow_sub_one_eq_mod n 3

/-- The `switch` for as many bytes as there is room for. What is read behind a NUL is copied with
it. -/
theorem copyTail_room {room : ℕ} (hroom : room < dst.length) (hrest : room ≤ rest.length) :
    ∃ copied, copyTail room (text ++ 0 :: rest) dst = some (copied ++ dst.drop (room + 1)) ∧
      Holds text room copied := by
  have hlength : room ≤ (text ++ 0 :: rest).length := by
    rw [List.length_append, List.length_cons]
    omega
  refine ⟨(text ++ 0 :: rest).take room ++ [0], ?_, ?_, ?_⟩
  · rw [copyTail, if_pos ⟨hlength, hroom⟩, List.append_assoc]
    rfl
  · rw [List.length_append, List.length_take_of_le hlength]
    rfl
  · by_cases htext : text.length < room
    · rw [take_text htext, List.take_of_length_le htext.le, List.append_assoc]
      exact ⟨_, rfl⟩
    · exact ⟨[], by rw [List.take_append_of_le_length (Nat.le_of_not_lt htext)]⟩

/-- The `switch` for a text that ends inside of the room. -/
theorem copyTail_text {room : ℕ} (htext : text.length ≤ room) (hroom : room < dst.length) :
    ∃ copied, copyTail text.length (text ++ 0 :: rest) dst =
        some (copied ++ dst.drop (room + 1)) ∧ Holds text room copied := by
  have hdrop : (dst.drop (text.length + 1)).drop (room - text.length) = dst.drop (room + 1) := by
    rw [List.drop_drop]
    congr 1
    omega
  refine ⟨text ++ 0 :: (dst.drop (text.length + 1)).take (room - text.length), ?_, ?_, _,
    by rw [List.take_of_length_le htext]⟩
  · rw [copyTail, if_pos ⟨by simp, by omega⟩, List.take_left, List.append_assoc, List.cons_append,
      ← hdrop, List.take_append_drop]
  · simp
    omega

/-- The first zero byte of a word, as the loop looks for it. -/
theorem findIdx_text (hzero : 0 ∉ text) (htext : text.length < 8) :
    (((text ++ 0 :: rest).take 7).findIdx (· == 0) &&& 7) = text.length := by
  have hnone : text.findIdx (· == 0) = text.length := by
    rw [List.findIdx_eq_length]
    exact fun byte hbyte ↦ beq_eq_false_iff_ne.mpr fun h ↦ hzero (h ▸ hbyte)
  rw [and_seven]
  by_cases hshort : text.length < 7
  · rw [take_text hshort, List.findIdx_append, hnone, if_neg (lt_irrefl _), List.findIdx_cons]
    simp
    omega
  · rw [List.take_left' (by omega), hnone, Nat.mod_eq_of_lt htext]

/-- The loop fills the room. Assumes: seven bytes are readable behind the NUL. -/
theorem copyWords_holds (hrest : 7 ≤ rest.length) (n words : ℕ) (hzero : 0 ∉ text)
    (hroom : 8 * words + n % 8 < dst.length) :
    ∃ copied, copyWords n words (text ++ 0 :: rest) dst =
        some (copied ++ dst.drop (8 * words + n % 8 + 1)) ∧
      Holds text (8 * words + n % 8) copied := by
  induction words generalizing text dst with
  | zero =>
    rw [copyWords, and_seven]
    rw [Nat.mul_zero, Nat.zero_add] at hroom ⊢
    exact copyTail_room hroom (by omega)
  | succ words ih =>
    have hword : 8 ≤ (text ++ 0 :: rest).length := by
      rw [List.length_append, List.length_cons]
      omega
    rw [copyWords, if_neg (Nat.not_lt.mpr hword)]
    by_cases htext : text.length < 8
    · have hmem : 0 ∈ (text ++ 0 :: rest).take 8 := by simp [take_text htext]
      rw [if_pos ((magic_ne_zero_iff hword).mpr hmem), findIdx_text hzero htext]
      exact copyTail_text (by omega) hroom
    · have hlong : 8 ≤ text.length := Nat.le_of_not_lt htext
      have htake : (text ++ 0 :: rest).take 8 = text.take 8 := List.take_append_of_le_length hlong
      have hnone : ¬ 0 ∈ (text ++ 0 :: rest).take 8 := by
        rw [htake]
        exact fun hmem ↦ hzero (List.mem_of_mem_take hmem)
      obtain ⟨copied, hcopied, hlength, behind, hbehind⟩ := @ih (text.drop 8) (dst.drop 8)
        (fun hmem ↦ hzero (List.mem_of_mem_drop hmem)) (by rw [List.length_drop]; omega)
      have hstep : 8 + (8 * words + n % 8) = 8 * (words + 1) + n % 8 := by omega
      refine ⟨text.take 8 ++ copied, ?_, ?_, behind, ?_⟩
      · rw [if_neg (mt (magic_ne_zero_iff hword).mp hnone), if_neg (by omega), htake,
          List.drop_append_of_le_length hlong, hcopied, Option.map_some, List.drop_drop,
          List.append_assoc, ← hstep]
        rfl
      · rw [List.length_append, hlength, List.length_take_of_le hlong, ← hstep]
        rfl
      · rw [hbehind, ← List.append_assoc, ← List.take_add, hstep]

/-- `easy_strncpy` writes only the first `n` bytes of the destination and leaves there the text, as
far as there is room for it and a NUL. Assumes: the source ends in a NUL with seven readable bytes
behind it, and the destination has `n` bytes. -/
theorem easyStrncpy_copies (text rest dst : List UInt8) (n : ℕ) (hzero : 0 ∉ text)
    (hrest : 7 ≤ rest.length) (hpos : 1 ≤ n) (hroom : n ≤ dst.length) :
    ∃ copied behind, easyStrncpy (some dst) (text ++ 0 :: rest) n =
        some (some (copied ++ dst.drop n)) ∧
      copied.length = n ∧ copied = text.take (min text.length (n - 1)) ++ 0 :: behind := by
  obtain ⟨room, rfl⟩ := Nat.exists_eq_add_of_le' hpos
  have hwhole : 8 * (room / 8) + room % 8 = room := Nat.div_add_mod room 8
  have hinside : 8 * (room / 8) + room % 8 < dst.length := hwhole.trans_lt hroom
  obtain ⟨copied, hcopied, hlength, behind, hholds⟩ :=
    copyWords_holds hrest room (room / 8) hzero hinside
  rw [hwhole] at hcopied hlength hholds
  refine ⟨copied, behind, ?_, hlength, ?_⟩
  · rw [easyStrncpy, hcopied]
    rfl
  · rw [hholds, Nat.add_sub_cancel, Nat.min_comm, ← List.take_take, List.take_length]

/-- A text of twenty bytes copied into twelve. -/
theorem easyStrncpy_copies_twelve :
    ∃ copied behind, easyStrncpy (some (List.replicate 14 7))
        (List.replicate 20 65 ++ 0 :: List.replicate 7 1) 12 = some (some (copied ++ [7, 7])) ∧
      copied.length = 12 ∧ copied = List.replicate 11 65 ++ 0 :: behind :=
  easyStrncpy_copies (List.replicate 20 65) (List.replicate 7 1) (List.replicate 14 7) 12
    (by decide) (by decide) (by decide) (by decide)

end TdhSocket.Util
