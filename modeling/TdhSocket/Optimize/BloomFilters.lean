import TdhSocket.Dispatch.Access
import TdhSocket.Library.BitArray
import TdhSocket.Library.RotatingSets

/-!
# The filters of the optimizer

`tdh_socket_optimize.cpp` and `tdh_socket_bloom_filter.c`, without the row cache. The hashes of
executed reads are kept in a group of filters, arrays of bits. `optimize` looks a read up in the
filter in use; `add_optimize` adds an executed read to the filter in use and to those behind it,
which take over one after the other when the filter in use has more than
`tdhs_optimize_guess_hot_request_num` entries. Calls come one at a time, so none of them finds
`filter_switch` or `switch_lock` set.

The set bits of the filters are sets in rotation: `rotating_addOptimize`. `current_filter_index` is
a 64-bit counter of which the rest modulo the number of filters is used; its wrap is part of the
order of the turns.
-/

set_option autoImplicit false

namespace TdhSocket.Optimize

open Decode Dispatch Library

/-! ### The hash of a read -/

/-- The number of a find flag. -/
def findFlagCode : FindFlag → UInt64
  | .eq => 0
  | .ge => 1
  | .le => 2
  | .gt => 3
  | .lt => 4
  | .inKeys => 5
  | .deq => 6
  | .between => 7

/-- A loop that folds hashes, where zero stands for none. -/
def foldAll (hashes : List UInt64) : UInt64 :=
  hashes.foldl (fun hash next ↦ if hash ≠ 0 then fold hash next else next) 0

/-- `calc_hash_table`. -/
def calcHashTable (table : TdhsRequestTable) : UInt64 :=
  fold (hashCodeTable table) (easyHashCode table.index.dropLast 5)

/-- `calc_hash_key`. -/
def calcHashKey (getKey : TdhsGetKey) : UInt64 :=
  foldAll (getKey.key.map fun part ↦ easyHashCode part.dropLast 5)

/-- `calc_hash_keys`. -/
def calcHashKeys (keys : List TdhsGetKey) : UInt64 := foldAll (keys.map calcHashKey)

/-- `calc_hash_get`. -/
def calcHashGet (req : TdhsRequest) : UInt64 :=
  let hash := fold (calcHashTable req.tableInfo) (calcHashKeys req.get.keys)
  let hash := fold hash (easyHashKey (findFlagCode req.get.findFlag))
  let hash := fold hash (easyHashKey (UInt64.ofNat req.get.start))
  fold hash (easyHashKey (UInt64.ofNat req.get.limit))

/-- A request with its `optimize_hash`, which is zero or was put there by `optimize`. -/
structure OptimizedRequest where
  request : TdhsRequest
  optimizeHash : UInt64
  cached : optimizeHash = 0 ∨ optimizeHash = calcHashGet request

/-- A request that `optimize` has not hashed. -/
def unhashed (request : TdhsRequest) : OptimizedRequest := ⟨request, 0, Or.inl rfl⟩

section

variable (request : OptimizedRequest)

/-- The hash `add_optimize` uses. -/
def OptimizedRequest.hash : UInt64 :=
  if request.optimizeHash ≠ 0 then request.optimizeHash else calcHashGet request.request

@[simp]
theorem OptimizedRequest.hash_eq : request.hash = calcHashGet request.request := by
  unfold OptimizedRequest.hash
  split_ifs with hhash
  · exact request.cached.resolve_left hhash
  · rfl

/-- A GET or COUNT. -/
def OptimizedRequest.IsRead : Prop := IsReadType request.request.type

end

instance (request : OptimizedRequest) : Decidable request.IsRead :=
  inferInstanceAs (Decidable (_ ∨ _))

/-! ### One filter -/

/-- `FSIZE`. -/
def fsize (size : ℕ) : ℕ := (size + 8 - 1) / 8

/-- `bloom_filter`. -/
structure BloomFilter where
  asize : ℕ
  a : List UInt8
  asize_pos : 0 < asize
  length_a : a.length = fsize asize

/-- `create_bfilter`. -/
def createBfilter (size : ℕ) (hsize : 0 < size) : BloomFilter :=
  ⟨size, List.replicate (fsize size) 0, hsize, List.length_replicate⟩

/-- The bit of a hash. -/
def BloomFilter.bit (filter : BloomFilter) (input : UInt64) : ℕ := input.toNat % filter.asize

/-- `bfilter_add`. -/
def bfilterAdd (bFilter : BloomFilter) (input : UInt64) : BloomFilter :=
  ⟨bFilter.asize, setBit bFilter.a (bFilter.bit input), bFilter.asize_pos,
    (length_setBit _ _).trans bFilter.length_a⟩

/-- `bfilter_check`. -/
def bfilterCheck (bFilter : BloomFilter) (input : UInt64) : Bool :=
  getBit bFilter.a (bFilter.bit input)

/-- `tdhs_bloom_filter_t`. -/
structure TdhsBloomFilter where
  filter : BloomFilter
  filterNum : ℕ

variable (filter : TdhsBloomFilter)

/-- `tdhs_bloom_filter_t::resest`. -/
def TdhsBloomFilter.resest : TdhsBloomFilter :=
  ⟨createBfilter filter.filter.asize filter.filter.asize_pos, 0⟩

/-- `tdhs_bloom_filter_t::check`. -/
def TdhsBloomFilter.check (hash : UInt64) : Bool :=
  bfilterCheck filter.filter hash

/-- `tdhs_bloom_filter_t::add_hash`. -/
def TdhsBloomFilter.addHash (hash : UInt64) : Bool × TdhsBloomFilter :=
  if bfilterCheck filter.filter hash then (false, filter)
  else (true, ⟨bfilterAdd filter.filter hash, filter.filterNum + 1⟩)

/-! ### The group -/

/-- The system variables of the optimizer, within the bounds the server admits. -/
structure OptimizeSettings where
  bloomFilterGroup : ℕ
  bloomFilterNumBuckets : ℕ
  guessHotRequestNum : ℕ
  group_pos : 1 ≤ bloomFilterGroup
  group_le : bloomFilterGroup < 2 ^ 32
  numBuckets_pos : 1 ≤ bloomFilterNumBuckets
  numBuckets_le : bloomFilterNumBuckets < 2 ^ 32
  hot_pos : 1 ≤ guessHotRequestNum
  hot_le : guessHotRequestNum < 2 ^ 31

/-- The static variables of `tdh_socket_optimize.cpp`. -/
structure OptimizeState where
  filters : ℕ → TdhsBloomFilter
  currentFilterIndex : UInt64

variable (settings : OptimizeSettings)

/-- `init_optimize`. -/
def initOptimize : OptimizeState :=
  ⟨fun _ ↦ ⟨createBfilter settings.bloomFilterNumBuckets settings.numBuckets_pos, 0⟩, 0⟩

/-- `(current_filter_index + i) % tdhs_optimize_bloom_filter_group`. -/
def place (currentFilterIndex : UInt64) (i : ℕ) : ℕ :=
  (currentFilterIndex + UInt64.ofNat i).toNat % settings.bloomFilterGroup

variable (state : OptimizeState)

/-- The filter in use. -/
def OptimizeState.current : TdhsBloomFilter :=
  state.filters (place settings state.currentFilterIndex 0)

/-- A server under the third strategy with the optimizer on and its filters in a state. -/
def lv3Server (server : Server) (state : OptimizeState) : Server :=
  { server with
    balance := { server.balance with threadStrategy := .lv3 }
    optimizeOn := true
    hasFilters := true
    filterCheck := fun request ↦ (state.current settings).check (calcHashGet request) }

/-- The number of entries from which on a filter passes entries on to the next one. -/
def passingLevel : ℕ := settings.guessHotRequestNum / settings.bloomFilterGroup

/-- The filter in use has more entries than the guess. -/
def IsFull : Prop :=
  settings.guessHotRequestNum < (state.current settings).filterNum

instance (state : OptimizeState) : Decidable (IsFull settings state) :=
  inferInstanceAs (Decidable (_ < _))

/-- The switch of `add_optimize` to the next filter: the old one is emptied. -/
def switchFilter : OptimizeState :=
  if IsFull settings state then
    ⟨Function.update state.filters (place settings state.currentFilterIndex 0)
      (state.current settings).resest, state.currentFilterIndex + 1⟩
  else state

/-- The loop of `add_optimize` from a value of `i` on, with the number of rounds left. -/
def addToFilters (index : UInt64) (hash : UInt64) :
    ℕ → ℕ → (ℕ → TdhsBloomFilter) → ℕ → TdhsBloomFilter
  | 0, _, filters => filters
  | left + 1, i, filters =>
    let added := (filters (place settings index i)).addHash hash
    let filters := Function.update filters (place settings index i) added.2
    -- the hash is in this filter already
    if added.1 = false then filters
    -- the next filter needs no data yet
    else if added.2.filterNum < passingLevel settings then filters
    else addToFilters index hash left (i + 1) filters

/-- `add_optimize`. -/
def addOptimize (request : OptimizedRequest) : OptimizeState :=
  if request.IsRead then
    let state := switchFilter settings state
    { state with
      filters := addToFilters settings state.currentFilterIndex request.hash
        settings.bloomFilterGroup 0 state.filters }
  else state

/-! ### The bits of a filter -/

/-- The set bits of a filter. -/
def TdhsBloomFilter.bits : Finset ℕ := setBits filter.filter.a

/-- The bucket of a hash. -/
def bucket (hash : UInt64) : ℕ := hash.toNat % settings.bloomFilterNumBuckets

/-- A filter has the size of the settings, and `filter_num` is the number of its set bits. -/
structure TdhsBloomFilter.IsCounted (filter : TdhsBloomFilter) : Prop where
  asize_eq : filter.filter.asize = settings.bloomFilterNumBuckets
  filterNum_eq : filter.filterNum = filter.bits.card

variable {settings}

theorem BloomFilter.bit_lt (filter : BloomFilter) (input : UInt64) :
    filter.bit input < 8 * filter.a.length := by
  have hlt : filter.bit input < filter.asize := Nat.mod_lt _ filter.asize_pos
  rw [filter.length_a, fsize]
  omega

variable {filter}

theorem TdhsBloomFilter.IsCounted.check_iff
    (hcounted : filter.IsCounted settings) (hash : UInt64) :
    filter.check hash = true ↔ bucket settings hash ∈ filter.bits := by
  rw [TdhsBloomFilter.bits, bucket, ← hcounted.asize_eq]
  exact (mem_setBits (filter.filter.bit_lt hash)).symm

/-- An empty filter. -/
theorem bits_createBfilter (size : ℕ) (hsize : 0 < size) (filterNum : ℕ) :
    TdhsBloomFilter.bits ⟨createBfilter size hsize, filterNum⟩ = ∅ :=
  setBits_replicate (fsize size)

theorem TdhsBloomFilter.bits_resest : filter.resest.bits = ∅ :=
  bits_createBfilter ..

section

variable (hcounted : filter.IsCounted settings)

include hcounted

theorem TdhsBloomFilter.IsCounted.resest : filter.resest.IsCounted settings :=
  ⟨hcounted.asize_eq, by rw [filter.bits_resest, Finset.card_empty]; rfl⟩

/-- A hash whose bit is set is not added. -/
theorem TdhsBloomFilter.IsCounted.addHash_of_mem {hash : UInt64}
    (hmem : bucket settings hash ∈ filter.bits) : filter.addHash hash = (false, filter) :=
  if_pos ((hcounted.check_iff hash).mpr hmem)

/-- A new hash sets its bit and is counted. -/
theorem TdhsBloomFilter.IsCounted.addHash_of_notMem {hash : UInt64}
    (hnew : bucket settings hash ∉ filter.bits) :
    (filter.addHash hash).1 = true ∧
      (filter.addHash hash).2.bits = insert (bucket settings hash) filter.bits ∧
      (filter.addHash hash).2.IsCounted settings := by
  have hcheck : ¬bfilterCheck filter.filter hash = true :=
    fun hcheck ↦ hnew ((hcounted.check_iff hash).mp hcheck)
  have hbits : TdhsBloomFilter.bits ⟨bfilterAdd filter.filter hash, filter.filterNum + 1⟩ =
      insert (bucket settings hash) filter.bits := by
    rw [bucket, ← hcounted.asize_eq]
    exact setBits_setBit (filter.filter.bit_lt hash)
  rw [TdhsBloomFilter.addHash, if_neg hcheck]
  refine ⟨rfl, hbits, hcounted.asize_eq, ?_⟩
  rw [hbits, Finset.card_insert_of_notMem hnew]
  exact congrArg (· + 1) hcounted.filterNum_eq

/-- Adding a hash keeps a filter counted. -/
theorem TdhsBloomFilter.IsCounted.addHash (hash : UInt64) :
    (filter.addHash hash).2.IsCounted settings := by
  by_cases hmem : bucket settings hash ∈ filter.bits
  · rw [hcounted.addHash_of_mem hmem]
    exact hcounted
  · exact (hcounted.addHash_of_notMem hmem).2.2

end

/-! ### The group as sets in rotation -/

/-- All filters of a state are counted. -/
def IsCounted (settings : OptimizeSettings) (state : OptimizeState) : Prop :=
  ∀ p, (state.filters p).IsCounted settings

/-- The set bits of the filters, with the order in which the filters come into use. -/
def OptimizeState.rotating (settings : OptimizeSettings) (state : OptimizeState) :
    RotatingSets ℕ ℕ :=
  ⟨fun p ↦ (state.filters p).bits, place settings state.currentFilterIndex⟩

variable {filters : ℕ → TdhsBloomFilter} {index hash : UInt64} {state}

theorem isCounted_update (hcounted : ∀ p, (filters p).IsCounted settings) {p : ℕ}
    (hfilter : filter.IsCounted settings) (q : ℕ) :
    (Function.update filters p filter q).IsCounted settings := by
  by_cases hsame : q = p
  · subst hsame
    rwa [Function.update_self]
  · rw [Function.update_of_ne hsame]
    exact hcounted q

theorem bits_update (filters : ℕ → TdhsBloomFilter) (p : ℕ) (filter : TdhsBloomFilter) :
    (fun q ↦ (Function.update filters p filter q).bits) =
      Function.update (fun q ↦ (filters q).bits) p filter.bits := by
  funext q
  by_cases hsame : q = p
  · subst hsame
    rw [Function.update_self, Function.update_self]
  · rw [Function.update_of_ne hsame, Function.update_of_ne hsame]

/-- The loop keeps the filters counted. -/
theorem isCounted_addToFilters (hcounted : ∀ p, (filters p).IsCounted settings) (left i p : ℕ) :
    (addToFilters settings index hash left i filters p).IsCounted settings := by
  induction left generalizing i filters with
  | zero => exact hcounted p
  | succ left ih =>
    have hadded : ∀ q, (Function.update filters (place settings index i)
        ((filters (place settings index i)).addHash hash).2 q).IsCounted settings :=
      isCounted_update hcounted ((hcounted (place settings index i)).addHash hash)
    simp only [addToFilters]
    split_ifs
    · exact hadded p
    · exact hadded p
    · exact ih hadded (i + 1)

/-- The loop records the bucket of the hash in the bits of the filters. -/
theorem bits_addToFilters (hcounted : ∀ p, (filters p).IsCounted settings) (left i : ℕ) :
    (fun p ↦ (addToFilters settings index hash left i filters p).bits) =
      RotatingSets.record (passingLevel settings) (bucket settings hash) left
        (fun k ↦ place settings index (i + k)) (fun p ↦ (filters p).bits) := by
  induction left generalizing i filters with
  | zero => rfl
  | succ left ih =>
    by_cases hmem : bucket settings hash ∈ (filters (place settings index i)).bits
    · have hsame : addToFilters settings index hash (left + 1) i filters = filters := by
        simp only [addToFilters, (hcounted _).addHash_of_mem hmem, if_true,
          Function.update_eq_self]
      rw [hsame, RotatingSets.record, Nat.add_zero, if_pos hmem]
    · obtain ⟨hadded, hbits, hnext⟩ := (hcounted (place settings index i)).addHash_of_notMem hmem
      have hlevel : ((filters (place settings index i)).addHash hash).2.filterNum =
          (insert (bucket settings hash) (filters (place settings index i)).bits).card := by
        rw [hnext.filterNum_eq, hbits]
      simp only [RotatingSets.record, Nat.add_zero, if_neg hmem, addToFilters, hadded,
        Bool.true_eq_false, if_false, hlevel]
      split_ifs with hfew
      · rw [bits_update, hbits]
      · rw [ih (isCounted_update hcounted hnext), bits_update, hbits]
        simp only [Nat.add_assoc, Nat.add_comm 1]

/-- The next turn after a rotation. -/
theorem place_succ (index : UInt64) (i : ℕ) :
    place settings (index + 1) i = place settings index (i + 1) := by
  unfold place
  rw [UInt64.ofNat_add, UInt64.add_assoc, UInt64.add_comm 1]
  rfl

theorem current_eq :
    (state.current settings).bits = (state.rotating settings).inUse := rfl

theorem IsCounted.current (hcounted : IsCounted settings state) :
    (state.current settings).IsCounted settings :=
  hcounted (place settings state.currentFilterIndex 0)

theorem isFull_iff (hcounted : IsCounted settings state) :
    IsFull settings state ↔
      settings.guessHotRequestNum < (state.rotating settings).inUse.card := by
  rw [← current_eq, ← hcounted.current.filterNum_eq]
  rfl

theorem isCounted_initOptimize : IsCounted settings (initOptimize settings) :=
  fun _ ↦ ⟨rfl, by rw [initOptimize, bits_createBfilter, Finset.card_empty]⟩

section

variable (hcounted : IsCounted settings state)

include hcounted

theorem isCounted_switchFilter : IsCounted settings (switchFilter settings state) := by
  unfold switchFilter
  split_ifs
  · exact isCounted_update hcounted hcounted.current.resest
  · exact hcounted

theorem isCounted_addOptimize (request : OptimizedRequest) :
    IsCounted settings (addOptimize settings state request) := by
  unfold addOptimize
  split_ifs
  · exact isCounted_addToFilters (isCounted_switchFilter hcounted) _ 0
  · exact hcounted

/-- The switch takes a worn set out of use. -/
theorem rotating_switchFilter :
    (switchFilter settings state).rotating settings =
      (state.rotating settings).renew settings.guessHotRequestNum := by
  unfold switchFilter RotatingSets.renew
  by_cases hfull : IsFull settings state
  · rw [if_pos hfull, if_pos ((isFull_iff hcounted).mp hfull), OptimizeState.rotating, bits_update,
      TdhsBloomFilter.bits_resest]
    exact congrArg _ (funext fun i ↦ place_succ _ i)
  · rw [if_neg hfull, if_neg fun hworn ↦ hfull ((isFull_iff hcounted).mpr hworn)]

/-- `add_optimize` visits the sets with the bucket of the request. -/
theorem rotating_addOptimize {request : OptimizedRequest} (hread : request.IsRead) :
    (addOptimize settings state request).rotating settings =
      (state.rotating settings).visit settings.guessHotRequestNum (passingLevel settings)
        settings.bloomFilterGroup (bucket settings (calcHashGet request.request)) := by
  rw [addOptimize, if_pos hread, RotatingSets.visit, ← rotating_switchFilter hcounted,
    request.hash_eq]
  refine congrArg (RotatingSets.mk · _) ?_
  refine (bits_addToFilters (isCounted_switchFilter hcounted) _ 0).trans ?_
  simp only [Nat.zero_add]
  rfl

end

theorem addOptimize_of_not_isRead {request : OptimizedRequest} (hother : ¬request.IsRead) :
    addOptimize settings state request = state :=
  if_neg hother

/-! ### The classification of a read -/

variable {request : TdhsRequest}

/-- The third strategy takes a read for quick when the filter in use has its hash. -/
theorem optimize_lv3Server (server : Server) (counters : Counters)
    (hread : IsReadType request.type) :
    (optimize (lv3Server settings server state) counters request).1 =
      if (state.current settings).check (calcHashGet request) then .quick else .slow := by
  rcases hread with htype | htype
  · rw [optimize, htype]
    rfl
  · rw [optimize, htype]
    rfl

theorem quick_iff (hcounted : IsCounted settings state) (server : Server) (counters : Counters)
    (hread : IsReadType request.type) :
    (optimize (lv3Server settings server state) counters request).1 = .quick ↔
      bucket settings (calcHashGet request) ∈ (state.rotating settings).inUse := by
  rw [optimize_lv3Server server counters hread, ← current_eq, ← hcounted.current.check_iff]
  split_ifs with hcheck <;> simp [hcheck]

end TdhSocket.Optimize
