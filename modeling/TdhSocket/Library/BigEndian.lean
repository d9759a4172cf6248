import Mathlib.Data.List.GetD
import Mathlib.Tactic.NormNum

/-!
# Four-byte big-endian words

The network byte order of `htonl` and `ntohl` on byte lists. `toBytes` lays a number out in four
bytes, `ofBytes` reads the first four bytes of a list, and `ofBytes_toBytes_append` is the round
trip. `toBytes_ofBytes_append_drop` is the converse used by parsers: a list of at least four bytes
is a word followed by the rest.
-/

set_option autoImplicit false

namespace TdhSocket.Library.BigEndian

/-- The four bytes of a number, most significant first (`htonl`). -/
def toBytes (value : ℕ) : List UInt8 :=
  [UInt8.ofNat (value / 2 ^ 24), UInt8.ofNat (value / 2 ^ 16), UInt8.ofNat (value / 2 ^ 8),
    UInt8.ofNat value]

variable (bytes : List UInt8)

/-- The number in the first four bytes of a list, most significant first (`ntohl`). -/
def ofBytes : ℕ :=
  2 ^ 24 * (bytes.getD 0 0).toNat + 2 ^ 16 * (bytes.getD 1 0).toNat +
    2 ^ 8 * (bytes.getD 2 0).toNat + (bytes.getD 3 0).toNat

@[simp] theorem length_toBytes (value : ℕ) : (toBytes value).length = 4 := rfl

/-- A four-byte word is below `2 ^ 32`. -/
theorem ofBytes_lt : ofBytes bytes < 2 ^ 32 := by
  have h₀ := (bytes.getD 0 0).toNat_lt
  have h₁ := (bytes.getD 1 0).toNat_lt
  have h₂ := (bytes.getD 2 0).toNat_lt
  have h₃ := (bytes.getD 3 0).toNat_lt
  unfold ofBytes
  omega

/-- Reading a word back. Assumes: the number fits in 32 bits. -/
theorem ofBytes_toBytes_append (value : ℕ) (rest : List UInt8) (hvalue : value < 2 ^ 32) :
    ofBytes (toBytes value ++ rest) = value := by
  simp only [ofBytes, toBytes, List.cons_append, List.nil_append, List.getD_cons_zero,
    List.getD_cons_succ, UInt8.toNat_ofNat']
  omega

/-- A list of at least four bytes is a word followed by the rest. Assumes: four bytes are
there. -/
theorem toBytes_ofBytes_append_drop (hlength : 4 ≤ bytes.length) :
    toBytes (ofBytes bytes) ++ bytes.drop 4 = bytes := by
  match bytes, hlength with
  | b₀ :: b₁ :: b₂ :: b₃ :: rest, _ =>
    have h₀ := b₀.toNat_lt
    have h₁ := b₁.toNat_lt
    have h₂ := b₂.toNat_lt
    have h₃ := b₃.toNat_lt
    simp only [toBytes, ofBytes, List.getD_cons_zero, List.getD_cons_succ, List.cons_append,
      List.nil_append, List.drop_succ_cons, List.drop_zero, List.cons.injEq, and_true]
    refine ⟨?_, ?_, ?_, ?_⟩ <;>
      · apply UInt8.toNat_inj.mp
        rw [UInt8.toNat_ofNat']
        omega

end TdhSocket.Library.BigEndian
