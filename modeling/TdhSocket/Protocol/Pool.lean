import Mathlib.Tactic.NormNum

/-!
# Block sizes of the memory pool and of the request structures

`easy_pool.c` and `tdh_socket_define.hpp`, on a 64-bit platform. `easyPoolAlloc` follows
`easy_pool_alloc` as far as the size of the block it hands out goes: a request that fits the pool
is served from the pool's own blocks with exactly the bytes asked for, a larger one is served by
`easyPoolAllocLarge`, which adds the list header, rounds up to `EASY_POOL_ALIGNMENT` and keeps the
sum in a `uint32_t`. The argument of the pool functions is a `uint32_t` too, so the caller's
`size_t` product is reduced modulo `2 ^ 32` on the way in (`easyPoolCalloc`).

The sizes of `tdhs_packet_t` and `tdhs_get_key_t` are computed from their members with the
padding of the platform.
-/

set_option autoImplicit false

namespace TdhSocket.Protocol

/-! ### Structure sizes -/

/-- `REQUEST_MAX_FIELD_NUM`. -/
def requestMaxFieldNum : ℕ := 256

/-- `REQUEST_MAX_KEY_NUM`. -/
def requestMaxKeyNum : ℕ := 10

/-- `REQUEST_MAX_IN_NUM`. -/
def requestMaxInNum : ℕ := requestMaxKeyNum

/-- `sizeof(tdhs_string_t)`: the pointer and the length. -/
def sizeofTdhsString : ℕ := 8 + 8

/-- `sizeof(tdhs_request_table_t)`: `field_num` with padding, the three names, the fields and the
cached hash code. -/
def sizeofTdhsRequestTable : ℕ :=
  8 + 3 * sizeofTdhsString + requestMaxFieldNum * sizeofTdhsString + 8

/-- `sizeof(tdhs_filter_t)`: `filter_num` with padding, the fields, their indices, the flags and
the values. -/
def sizeofTdhsFilter : ℕ :=
  8 + requestMaxFieldNum * sizeofTdhsString + requestMaxFieldNum * 8 + requestMaxFieldNum * 4 +
    requestMaxFieldNum * sizeofTdhsString

/-- `sizeof(tdhs_get_key_t)`: `key_field_num` with padding and the key parts. -/
def sizeofTdhsGetKey : ℕ := 8 + requestMaxKeyNum * sizeofTdhsString

/-- `sizeof(tdhs_request_get_t)`: `key_num` with padding, `keys`, `r_keys`, `find_flag` with
padding, the filter, `start` and `limit`. -/
def sizeofTdhsRequestGet : ℕ :=
  8 + 8 + requestMaxInNum * sizeofTdhsGetKey + 8 + sizeofTdhsFilter + 4 + 4

/-- `sizeof(tdhs_request_values_t)`: `value_num`, the flags with padding and the values. -/
def sizeofTdhsRequestValues : ℕ :=
  4 + requestMaxFieldNum * 4 + 4 + requestMaxFieldNum * sizeofTdhsString

/-- `sizeof(tdhs_request_t)`: `status`, `type`, the three parts of the request, `opened_table` and
`optimize_hash`. -/
def sizeofTdhsRequest : ℕ :=
  4 + 4 + sizeofTdhsRequestTable + sizeofTdhsRequestGet + sizeofTdhsRequestValues + 8 + 8

/-- `sizeof(tdhs_packet_t)`: the four header words, the four pointers, the request, `start_time`
and `next`. -/
def sizeofTdhsPacket : ℕ := 4 * 4 + 4 * 8 + sizeofTdhsRequest + 8 + 8

theorem sizeofTdhsGetKey_eq : sizeofTdhsGetKey = 168 := rfl

theorem sizeofTdhsPacket_eq : sizeofTdhsPacket = 22360 := rfl

/-! ### The pool -/

/-- `easy_align`: round up to a multiple of `alignment`. -/
def easyAlign (size alignment : ℕ) : ℕ := (size + (alignment - 1)) / alignment * alignment

/-- `EASY_POOL_ALIGNMENT`. -/
def easyPoolAlignment : ℕ := 512

/-- `EASY_POOL_PAGE_SIZE`. -/
def easyPoolPageSize : ℕ := 4096

/-- `sizeof(easy_pool_large_t)`, the list header in front of a large block. -/
def sizeofEasyPoolLarge : ℕ := 8

/-- What an allocation depends on: the largest request served from the pool's own blocks, whether
such a block can be had for a request, and whether the system hands out a block of a size. -/
structure EasyPool where
  max : ℕ
  blockOk : ℕ → Bool
  reallocOk : ℕ → Bool

/-- A pool of one page whose allocations succeed. -/
def roomyPool : EasyPool := ⟨easyPoolPageSize, fun _ ↦ true, fun _ ↦ true⟩

/-- The bytes usable in the block of `easy_pool_alloc_large`, or `none` where it returns `NULL`.
The aligned sum is a `uint32_t`, and `easy_pool_default_realloc` returns `NULL` for size zero. -/
def easyPoolAllocLarge (pool : EasyPool) (size : ℕ) : Option ℕ :=
  let total := easyAlign (size + sizeofEasyPoolLarge) easyPoolAlignment % 2 ^ 32
  if total = 0 then none
  else if pool.reallocOk total then some (total - sizeofEasyPoolLarge) else none

/-- The bytes usable in the block of `easy_pool_alloc`, or `none` where it returns `NULL`. -/
def easyPoolAlloc (pool : EasyPool) (size : ℕ) : Option ℕ :=
  if size ≤ pool.max then
    if pool.blockOk size then some size else none
  else easyPoolAllocLarge pool size

/-- `easy_pool_calloc` called with a `size_t`, which becomes a `uint32_t` argument. -/
def easyPoolCalloc (pool : EasyPool) (size : ℕ) : Option ℕ :=
  easyPoolAlloc pool (size % 2 ^ 64 % 2 ^ 32)

variable {pool : EasyPool} {size room : ℕ}

/-- A block of the pool is shorter than `2 ^ 32`, because its size went through a `uint32_t`.
Assumes: the argument of `easy_pool_alloc` is a `uint32_t`. -/
theorem easyPoolAlloc_lt (hsize : size < 2 ^ 32)
    (hroom : easyPoolAlloc pool size = some room) : room < 2 ^ 32 := by
  unfold easyPoolAlloc at hroom
  split_ifs at hroom
  · cases hroom
    exact hsize
  · unfold easyPoolAllocLarge at hroom
    dsimp only at hroom
    split_ifs at hroom
    cases hroom
    omega

/-- A block of the pool holds what was asked for. Assumes: the request is a multiple of eight that
fits a `uint32_t`, as every `sizeof` product here is; other sizes just below `2 ^ 32` wrap. -/
theorem le_of_easyPoolAlloc (hsize : size < 2 ^ 32)
    (height : 8 ∣ size) (hroom : easyPoolAlloc pool size = some room) : size ≤ room := by
  unfold easyPoolAlloc at hroom
  split_ifs at hroom
  · cases hroom
    exact le_rfl
  · unfold easyPoolAllocLarge at hroom
    dsimp only at hroom
    split_ifs at hroom with hzero
    cases hroom
    simp only [easyAlign, sizeofEasyPoolLarge, easyPoolAlignment] at hzero ⊢
    omega

/-- A block of `easy_pool_calloc` holds the `size_t` that was asked for exactly when that is below
4 GiB. Assumes: the size is a multiple of eight. -/
theorem le_easyPoolCalloc_iff (height : 8 ∣ size)
    (hroom : easyPoolCalloc pool size = some room) : size ≤ room ↔ size < 2 ^ 32 := by
  constructor
  · intro hle
    exact lt_of_le_of_lt hle (easyPoolAlloc_lt (Nat.mod_lt _ (by norm_num)) hroom)
  · intro hlt
    rw [easyPoolCalloc, Nat.mod_eq_of_lt (hlt.trans (by norm_num)), Nat.mod_eq_of_lt hlt] at hroom
    exact le_of_easyPoolAlloc hlt height hroom

end TdhSocket.Protocol
