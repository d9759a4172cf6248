import TdhSocket.Optimize.BloomFilters

/-!
# Rotation of the filters

What the filters of the optimizer promise over whole sequences of `add_optimize` calls.

`filter_group_invariant`: `filter_num` counts the set bits of a filter, every filter has the bits of
the filter that takes over after it, and an executed read is quick until the next rotation. The
second part needs that the rests of `current_filter_index` go round the filters; they do not where
the 64-bit counter wraps and the number of filters is not a power of two (`order_lost_at_wrap`).

`filters_evicted_before_saturation`: a filter is taken out of use before all its bits are set
exactly when there are more buckets than it can get entries, which for the default values there are
not (`filter_saturated`).

`hot_requests_survive_rotation`: a read that is executed when the filter in use passes its entries
on is quick behind the next rotation exactly when it is new to that filter or known to the next
one. A read that was first executed early is not passed on any more (`hot_request_lost`).
-/

set_option autoImplicit false

namespace TdhSocket.Optimize

open Decode Dispatch Library

variable {settings : OptimizeSettings} {state : OptimizeState}

/-! ### What holds in every state -/

/-- One call of `add_optimize`. -/
def step (settings : OptimizeSettings) (state : OptimizeState) (request : OptimizedRequest) :
    Option OptimizeState :=
  some (addOptimize settings state request)

/-- The filters are counted, and their bits are nested and bounded. -/
structure IsOrderly (settings : OptimizeSettings) (state : OptimizeState) : Prop where
  counted : IsCounted settings state
  nested : (state.rotating settings).IsNested (passingLevel settings)
  bounded : (state.rotating settings).IsBounded settings.guessHotRequestNum
    settings.bloomFilterGroup
  card_le : 2 ≤ passingLevel settings →
    (state.rotating settings).inUse.card ≤ settings.guessHotRequestNum + 1

theorem rotating_initOptimize :
    (initOptimize settings).rotating settings = ⟨fun _ ↦ ∅, place settings 0⟩ := by
  unfold OptimizeState.rotating initOptimize
  refine congrArg (RotatingSets.mk · _) ?_
  exact funext fun _ ↦ bits_createBfilter ..

theorem isOrderly_initOptimize : IsOrderly settings (initOptimize settings) := by
  refine ⟨isCounted_initOptimize, ?_, ?_, fun _ ↦ ?_⟩
  · rw [rotating_initOptimize]
    exact RotatingSets.isNested_empty _ _
  · rw [rotating_initOptimize]
    exact RotatingSets.isBounded_empty _ _ _
  · rw [rotating_initOptimize]
    exact Nat.zero_le _

theorem IsOrderly.addOptimize (horderly : IsOrderly settings state) (request : OptimizedRequest) :
    IsOrderly settings (addOptimize settings state request) := by
  by_cases hread : request.IsRead
  · refine ⟨isCounted_addOptimize horderly.counted request, ?_, ?_, fun hlevel ↦ ?_⟩
    · rw [rotating_addOptimize horderly.counted hread]
      exact horderly.nested.visit _ _ _
    · rw [rotating_addOptimize horderly.counted hread]
      exact horderly.bounded.visit horderly.nested _
    · rw [rotating_addOptimize horderly.counted hread]
      exact horderly.nested.card_visit_le hlevel (horderly.card_le hlevel) _ _
  · rw [addOptimize_of_not_isRead hread]
    exact horderly

theorem isOrderly_of_reached {Meets : OptimizeState → OptimizedRequest → Prop}
    {initial : OptimizeState} (hreached : Reached (step settings) Meets initial state)
    (horderly : IsOrderly settings initial) : IsOrderly settings state := by
  refine hreached.invariant (IsOrderly settings) horderly fun hbefore _ hstep ↦ ?_
  obtain rfl := Option.some.inj hstep
  exact hbefore.addOptimize _

variable {requests : List OptimizedRequest} {request : OptimizedRequest} {b i : ℕ}
  {start : OptimizeState} {index : UInt64}

theorem rotating_foldl (hcounted : IsCounted settings state)
    (hread : ∀ request ∈ requests, request.IsRead) :
    (requests.foldl (addOptimize settings) state).rotating settings =
      (state.rotating settings).visits settings.guessHotRequestNum (passingLevel settings)
        settings.bloomFilterGroup
        (requests.map fun request ↦ bucket settings (calcHashGet request.request)) := by
  induction requests generalizing state with
  | nil => rfl
  | cons request rest ih =>
    rw [List.foldl_cons, ih (isCounted_addOptimize hcounted request)
      fun other hother ↦ hread other (List.mem_cons_of_mem _ hother),
      rotating_addOptimize hcounted (hread request List.mem_cons_self)]
    rfl

/-! ### Without a rotation -/

/-- `add_optimize` takes the filter in use out of use. -/
def Rotates (settings : OptimizeSettings) (state : OptimizeState) (request : OptimizedRequest) :
    Prop :=
  request.IsRead ∧ IsFull settings state

instance (request : OptimizedRequest) : Decidable (Rotates settings state request) :=
  inferInstanceAs (Decidable (_ ∧ _))

theorem group_pos (settings : OptimizeSettings) : 0 < settings.bloomFilterGroup :=
  settings.group_pos

/-- The filter in use has the bucket of an executed read. -/
theorem mem_inUse_addOptimize (hcounted : IsCounted settings state)
    (hread : request.IsRead) : bucket settings (calcHashGet request.request) ∈
      ((addOptimize settings state request).rotating settings).inUse := by
  rw [rotating_addOptimize hcounted hread, RotatingSets.visit,
    RotatingSets.inUse_enter (group_pos settings)]
  exact Finset.mem_insert_self _ _

/-- A call without a rotation. -/
theorem rotating_of_not_rotates (hcounted : IsCounted settings state)
    (hread : request.IsRead) (hquiet : ¬Rotates settings state request) :
    (addOptimize settings state request).rotating settings =
      (state.rotating settings).enter (passingLevel settings) settings.bloomFilterGroup
        (bucket settings (calcHashGet request.request)) := by
  have hworn : ¬settings.guessHotRequestNum < (state.rotating settings).inUse.card :=
    fun hworn ↦ hquiet ⟨hread, (isFull_iff hcounted).mpr hworn⟩
  rw [rotating_addOptimize hcounted hread, RotatingSets.visit, RotatingSets.renew, if_neg hworn]

theorem currentFilterIndex_of_not_rotates
    (hquiet : ¬Rotates settings state request) :
    (addOptimize settings state request).currentFilterIndex = state.currentFilterIndex := by
  unfold addOptimize
  split_ifs with hread
  · rw [switchFilter, if_neg fun hfull ↦ hquiet ⟨hread, hfull⟩]
  · rfl

theorem currentFilterIndex_of_rotates
    (hrotates : Rotates settings state request) :
    (addOptimize settings state request).currentFilterIndex = state.currentFilterIndex + 1 := by
  rw [addOptimize, if_pos hrotates.1]
  rw [switchFilter, if_pos hrotates.2]

/-- Two states with the same filter in use and the same filters that have a bucket. -/
structure Agree (settings : OptimizeSettings) (b : ℕ) (start state : OptimizeState) : Prop where
  counted : IsCounted settings state
  index_eq : state.currentFilterIndex = start.currentFilterIndex
  mem_iff : ∀ p, b ∈ (state.filters p).bits ↔ b ∈ (start.filters p).bits

theorem Agree.inUse_iff (hagree : Agree settings b start state) :
    b ∈ (state.rotating settings).inUse ↔ b ∈ (start.rotating settings).inUse := by
  show b ∈ (state.filters (place settings state.currentFilterIndex 0)).bits ↔ _
  rw [hagree.index_eq]
  exact hagree.mem_iff _

/-- Until the next rotation no further filter gets a bucket that the filter in use has. -/
theorem agree_of_reached (hcounted : IsCounted settings start)
    (hmem : b ∈ (start.rotating settings).inUse)
    (hreached : Reached (step settings) (fun before request ↦ ¬Rotates settings before request)
      start state) : Agree settings b start state := by
  refine hreached.invariant (Agree settings b start) ⟨hcounted, rfl, fun _ ↦ Iff.rfl⟩ ?_
  intro before after request hbefore hquiet hstep
  obtain rfl := Option.some.inj hstep
  by_cases hread : request.IsRead
  · refine ⟨isCounted_addOptimize hbefore.counted request,
      (currentFilterIndex_of_not_rotates hquiet).trans hbefore.index_eq, fun p ↦ ?_⟩
    have hentered : b ∈ ((addOptimize settings before request).rotating settings).sets p ↔
        b ∈ (before.rotating settings).sets p := by
      rw [rotating_of_not_rotates hbefore.counted hread hquiet]
      exact RotatingSets.mem_enter_iff (hbefore.inUse_iff.mpr hmem) p
    exact hentered.trans (hbefore.mem_iff p)
  · rw [addOptimize_of_not_isRead hread]
    exact hbefore

/-! ### The order of the filters -/

/-- The next rests of the counter go round the filters. -/
def GoesRound (settings : OptimizeSettings) (index : UInt64) : Prop :=
  index.toNat + settings.bloomFilterGroup ≤ 2 ^ 64 ∨ settings.bloomFilterGroup ∣ 2 ^ 64

/-- The counter does not come to its wrap, or its wrap does not matter: the number of filters is a
power of two. -/
def KeepsOrder (settings : OptimizeSettings) (state : OptimizeState) : Prop :=
  state.currentFilterIndex.toNat + settings.bloomFilterGroup < 2 ^ 64 ∨
    settings.bloomFilterGroup ∣ 2 ^ 64

theorem toNat_add_ofNat (index : UInt64) (i : ℕ) :
    (index + UInt64.ofNat i).toNat = (index.toNat + i) % 2 ^ 64 := by
  rw [UInt64.toNat_add, UInt64.toNat_ofNat', Nat.add_mod_mod]

theorem toNat_add_one (hlt : index.toNat + 1 < 2 ^ 64) :
    (index + 1).toNat = index.toNat + 1 := by
  have hone : (1 : UInt64).toNat = 1 := rfl
  rw [UInt64.toNat_add, hone, Nat.mod_eq_of_lt hlt]

theorem place_eq_of_lt (hlt : index.toNat + i < 2 ^ 64) :
    place settings index i = (index.toNat + i) % settings.bloomFilterGroup := by
  rw [place, toNat_add_ofNat, Nat.mod_eq_of_lt hlt]

theorem GoesRound.place_eq (hround : GoesRound settings index)
    (hi : i < settings.bloomFilterGroup) :
    place settings index i = (index.toNat + i) % settings.bloomFilterGroup := by
  rcases hround with hbelow | hdvd
  · exact place_eq_of_lt (by omega)
  · rw [place, toNat_add_ofNat, Nat.mod_mod_of_dvd _ hdvd]

variable {n m : ℕ} {set : Finset ℕ}

/-- Different steps of less than a round end at different places. -/
theorem add_mod_ne {g j : ℕ} (hij : j < i) (hi : i < g) : (n + j) % g ≠ (n + i) % g := by
  intro hsame
  have hshift : (n + i - (n + j)) % g = 0 := Nat.sub_mod_eq_zero_of_mod_eq hsame.symm
  rw [Nat.mod_eq_of_lt (by omega)] at hshift
  omega

theorem GoesRound.isFirst (hround : GoesRound settings index) (hi : i < settings.bloomFilterGroup) :
    RotatingSets.IsFirst (place settings index) i := by
  intro j hj
  rw [hround.place_eq hi, hround.place_eq (hj.trans hi)]
  exact add_mod_ne hj hi

theorem goesRound_initOptimize : GoesRound settings (initOptimize settings).currentFilterIndex :=
  Or.inl (by have := settings.group_le; simp [initOptimize]; omega)

theorem KeepsOrder.goesRound (hkeeps : KeepsOrder settings state) (request : OptimizedRequest) :
    GoesRound settings (addOptimize settings state request).currentFilterIndex := by
  rcases hkeeps with hbelow | hdvd
  · refine Or.inl ?_
    by_cases hrotates : Rotates settings state request
    · have := settings.group_pos
      rw [currentFilterIndex_of_rotates hrotates, toNat_add_one (by omega)]
      omega
    · rw [currentFilterIndex_of_not_rotates hrotates]
      omega
  · exact Or.inr hdvd

theorem goesRound_of_reached
    (hreached : Reached (step settings) (fun before _ ↦ KeepsOrder settings before)
      (initOptimize settings) state) : GoesRound settings state.currentFilterIndex := by
  refine hreached.invariant (fun state ↦ GoesRound settings state.currentFilterIndex)
    goesRound_initOptimize fun _ hkeeps hstep ↦ ?_
  obtain rfl := Option.some.inj hstep
  exact hkeeps.goesRound _

/-- Over every sequence of calls of `add_optimize`, `filter_num` of each filter is the number of its
set bits, every filter has the bits of the filter that comes into use after it, down to the oldest
one, and an executed read is quick until the next rotation. Assumes: the counter does not come to
its wrap, or the number of filters is a power of two. -/
theorem filter_group_invariant (settings : OptimizeSettings) (state : OptimizeState)
    (hreached : Reached (step settings) (fun before _ ↦ KeepsOrder settings before)
      (initOptimize settings) state) :
    (∀ p < settings.bloomFilterGroup, (state.filters p).filterNum = (state.filters p).bits.card) ∧
    (∀ i, i + 1 < settings.bloomFilterGroup →
      (state.filters
        ((state.currentFilterIndex.toNat + (i + 1)) % settings.bloomFilterGroup)).bits ⊆
      (state.filters ((state.currentFilterIndex.toNat + i) % settings.bloomFilterGroup)).bits) ∧
    ∀ (request : OptimizedRequest), request.IsRead → ∀ final,
      Reached (step settings) (fun before other ↦ ¬Rotates settings before other)
        (addOptimize settings state request) final →
      ∀ server counters,
        (optimize (lv3Server settings server final) counters request.request).1 = .quick := by
  have horderly := isOrderly_of_reached hreached isOrderly_initOptimize
  have hround := goesRound_of_reached hreached
  refine ⟨fun p _ ↦ (horderly.counted p).filterNum_eq, fun i hi ↦ ?_, ?_⟩
  · rw [← hround.place_eq hi, ← hround.place_eq (by omega)]
    exact (horderly.nested.below i (i + 1) (by omega) (hround.isFirst (by omega))
      (hround.isFirst hi)).subset
  · intro request hread final hfinal server counters
    have hmem := mem_inUse_addOptimize horderly.counted hread
    have hagree := agree_of_reached (isCounted_addOptimize horderly.counted request) hmem hfinal
    exact (quick_iff hagree.counted server counters hread).mpr (hagree.inUse_iff.mpr hmem)

/-- A GET of the first row of a table with the key `1`, with a limit. -/
def getOf (limit : ℕ) : OptimizedRequest :=
  unhashed ⟨.get, ⟨0, [97, 0], [116, 0], [105, 0], []⟩,
    ⟨1, ⟨1, 1⟩, [⟨1, [[49, 0]]⟩], .eq, 0, limit, ⟨0, []⟩⟩, zeroValues⟩

/-- Six filters with five buckets that are worn with two entries. -/
def sixFilters : OptimizeSettings :=
  ⟨6, 5, 1, by decide, by decide, by decide, by decide, by decide, by decide⟩

/-- Three reads, with a rotation before the third. -/
def threeGets : OptimizeState :=
  [getOf 0, getOf 1, getOf 2].foldl (addOptimize sixFilters) (initOptimize sixFilters)

theorem filter_group_invariant_threeGets :
    threeGets.currentFilterIndex = 1 ∧
    (threeGets.filters 0).filterNum = (threeGets.filters 0).bits.card ∧
    (threeGets.filters 2).bits ⊆ (threeGets.filters 1).bits ∧
    (optimize (lv3Server sixFilters guardedServer (addOptimize sixFilters threeGets (getOf 0)))
      newCounters (getOf 0).request).1 = .quick := by
  have hindex : threeGets.currentFilterIndex = 1 := by decide +kernel
  obtain ⟨hcount, hnested, hquick⟩ := filter_group_invariant sixFilters threeGets
    (.next (getOf 2) (.next (getOf 1) (.next (getOf 0) .start (Or.inl (by decide)) rfl)
      (Or.inl (by decide +kernel)) rfl) (Or.inl (by decide +kernel)) rfl)
  refine ⟨hindex, hcount 0 (by decide), ?_, hquick _ (Or.inl rfl) _ .start _ _⟩
  have hnext := hnested 0 (by decide)
  rwa [hindex] at hnext

/-! ### The wrap of the counter -/

theorem bucket_getOf : bucket sixFilters (calcHashGet (getOf 0).request) = 1 ∧
    bucket sixFilters (calcHashGet (getOf 1).request) = 2 ∧
    bucket sixFilters (calcHashGet (getOf 2).request) = 4 := by decide +kernel

/-- A state of the six filters that was reached with a value of the counter; the next `m` filters
have the same bits and the others none. -/
structure IsBlock (m : ℕ) (set : Finset ℕ) (n : ℕ) (state : OptimizeState) : Prop where
  reached : Reached (step sixFilters) anyEvent (initOptimize sixFilters) state
  index_eq : state.currentFilterIndex.toNat = n
  bits_eq : ∀ i < 6, (state.filters ((n + i) % 6)).bits = if i < m then set else ∅

section

variable (hblock : IsBlock m set n state)

include hblock

theorem IsBlock.counted : IsCounted sixFilters state :=
  (isOrderly_of_reached hblock.reached isOrderly_initOptimize).counted

theorem IsBlock.place_eq (hbelow : n + 6 < 2 ^ 64) (hi : i ≤ 6) :
    place sixFilters state.currentFilterIndex i = (n + i) % 6 := by
  rw [place_eq_of_lt (by rw [hblock.index_eq]; omega), hblock.index_eq]
  rfl

theorem IsBlock.isFirst (hbelow : n + 6 < 2 ^ 64) (hi : i < 6) :
    RotatingSets.IsFirst (state.rotating sixFilters).turn i :=
  GoesRound.isFirst (Or.inl (by rw [hblock.index_eq]; exact hbelow.le)) hi

theorem IsBlock.sets_eq (hbelow : n + 6 < 2 ^ 64) (hi : i < 6) :
    (state.rotating sixFilters).sets ((state.rotating sixFilters).turn i) =
      if i < m then set else ∅ := by
  show (state.filters (place sixFilters state.currentFilterIndex i)).bits = _
  rw [hblock.place_eq hbelow (by omega)]
  exact hblock.bits_eq i hi

end

theorem IsBlock.inUse_eq (hblock : IsBlock (m + 1) set n state)
    (hbelow : n + 6 < 2 ^ 64) : (state.rotating sixFilters).inUse = set :=
  (hblock.sets_eq hbelow (by omega)).trans (if_pos (by omega))

/-- The state behind a call of `add_optimize`, by its counter and its sets. -/
theorem IsBlock.next {m' n' : ℕ} {set' : Finset ℕ} (hblock : IsBlock m set n state)
    (hindex : (addOptimize sixFilters state request).currentFilterIndex.toNat = n')
    (hsets : ∀ i < 6, ((addOptimize sixFilters state request).rotating sixFilters).sets
      ((n' + i) % 6) = if i < m' then set' else ∅) :
    IsBlock m' set' n' (addOptimize sixFilters state request) :=
  ⟨.next request hblock.reached trivial rfl, hindex, hsets⟩

section

variable (hblock : IsBlock (m + 1) set n state)

include hblock

theorem IsBlock.rotates (hbelow : n + 6 < 2 ^ 64) (hworn : 1 < set.card) :
    Rotates sixFilters state (getOf 0) :=
  ⟨Or.inl rfl, (isFull_iff hblock.counted).mpr (hblock.inUse_eq hbelow ▸ hworn)⟩

theorem IsBlock.index_next (hbelow : n + 6 < 2 ^ 64) (hworn : 1 < set.card) :
    (addOptimize sixFilters state (getOf 0)).currentFilterIndex.toNat = n + 1 := by
  have hindex := hblock.index_eq
  rw [currentFilterIndex_of_rotates (hblock.rotates hbelow hworn), toNat_add_one (by omega), hindex]

/-- A worn set leaves. -/
theorem IsBlock.rotate_sets (hm : m < 6) (hbelow : n + 6 < 2 ^ 64) (hi : i < 6) :
    (state.rotating sixFilters).rotate.sets ((n + 1 + i) % 6) = if i < m then set else ∅ := by
  have hplace : (n + 1 + i) % 6 = (state.rotating sixFilters).turn (i + 1) := by
    rw [Nat.add_assoc, Nat.add_comm 1]
    exact (hblock.place_eq hbelow (by omega)).symm
  rw [hplace]
  show Function.update (state.rotating sixFilters).sets ((state.rotating sixFilters).turn 0) ∅
    ((state.rotating sixFilters).turn (i + 1)) = _
  rcases Nat.lt_or_ge (i + 1) 6 with hlt | hge
  · have hother : (state.rotating sixFilters).turn (i + 1) ≠ (state.rotating sixFilters).turn 0 :=
      fun hsame ↦ hblock.isFirst hbelow hlt 0 (by omega) hsame.symm
    rw [Function.update_of_ne hother, hblock.sets_eq hbelow hlt]
    exact if_congr (by omega) rfl rfl
  · have hround : (state.rotating sixFilters).turn (i + 1) =
        (state.rotating sixFilters).turn 0 := by
      refine (hblock.place_eq hbelow (by omega)).trans ?_
      refine Eq.trans ?_ (hblock.place_eq hbelow (by omega)).symm
      omega
    rw [hround, Function.update_self, if_neg (by omega)]

theorem IsBlock.rotating_next (hbelow : n + 6 < 2 ^ 64) (hworn : 1 < set.card) :
    (addOptimize sixFilters state (getOf 0)).rotating sixFilters =
      (state.rotating sixFilters).rotate.enter 0 6 1 := by
  rw [rotating_addOptimize hblock.counted (Or.inl rfl), bucket_getOf.1, RotatingSets.visit,
    RotatingSets.renew]
  exact congrArg (RotatingSets.enter 0 6 · 1) (if_pos (hblock.inUse_eq hbelow ▸ hworn))

end

/-- A worn set leaves, and the next one has the bucket already. -/
theorem IsBlock.shift (hblock : IsBlock (m + 2) set n state)
    (hm : m < 5) (hbelow : n + 6 < 2 ^ 64) (hworn : 1 < set.card) (hmem : 1 ∈ set) :
    IsBlock (m + 1) set (n + 1) (addOptimize sixFilters state (getOf 0)) := by
  refine hblock.next (hblock.index_next hbelow hworn) fun i hi ↦ ?_
  have hinUse : 1 ∈ (state.rotating sixFilters).rotate.sets
      ((state.rotating sixFilters).rotate.turn 0) := by
    have hset := hblock.rotate_sets (by omega) hbelow (show 0 < 6 by omega)
    have hplace : (state.rotating sixFilters).rotate.turn 0 = (n + 1 + 0) % 6 :=
      hblock.place_eq hbelow (by omega)
    rw [hplace, hset]
    exact hmem
  rw [hblock.rotating_next hbelow hworn]
  show RotatingSets.record 0 1 6 _ _ _ = _
  rw [RotatingSets.record_succ_of_mem hinUse]
  exact hblock.rotate_sets (by omega) hbelow hi

/-- The last set leaves, and all sets get the bucket. -/
theorem IsBlock.restart (hblock : IsBlock 1 set n state)
    (hbelow : n + 7 < 2 ^ 64) (hworn : 1 < set.card) :
    IsBlock 6 {1} (n + 1) (addOptimize sixFilters state (getOf 0)) := by
  refine hblock.next (hblock.index_next (by omega) hworn) fun i hi ↦ ?_
  have hplace : ∀ k < 6, (state.rotating sixFilters).rotate.turn k = (n + 1 + k) % 6 := by
    intro k hk
    rw [Nat.add_assoc, Nat.add_comm 1]
    exact hblock.place_eq (by omega) (by omega)
  rw [hblock.rotating_next (by omega) hworn, if_pos hi, ← hplace i hi]
  refine RotatingSets.record_shared (by omega) (Finset.notMem_empty 1) le_rfl ?_ ?_ i hi
  · intro k hk j hj
    rw [hplace k hk, hplace j (by omega)]
    exact add_mod_ne hj hk
  · intro k hk
    rw [hplace k hk, hblock.rotate_sets (by omega) (by omega) hk, if_neg (Nat.not_lt_zero k)]

/-- All sets get the second bucket. -/
theorem IsBlock.grow (hblock : IsBlock 6 {1} n state) (hbelow : n + 6 < 2 ^ 64) :
    IsBlock 6 {2, 1} n (addOptimize sixFilters state (getOf 1)) := by
  have hquiet : ¬Rotates sixFilters state (getOf 1) := by
    rintro ⟨-, hfull⟩
    rw [isFull_iff hblock.counted, hblock.inUse_eq hbelow] at hfull
    exact absurd hfull (by decide)
  refine hblock.next ?_ fun i hi ↦ ?_
  · rw [currentFilterIndex_of_not_rotates hquiet, hblock.index_eq]
  · have hplace : (n + i) % 6 = (state.rotating sixFilters).turn i :=
      (hblock.place_eq hbelow (by omega)).symm
    rw [rotating_of_not_rotates hblock.counted (Or.inl rfl) hquiet, bucket_getOf.2.1, if_pos hi,
      hplace]
    refine RotatingSets.record_shared (by decide) (by decide) le_rfl
      (fun k hk ↦ hblock.isFirst hbelow hk) (fun k hk ↦ ?_) i hi
    rw [hblock.sets_eq hbelow hk, if_pos hk]

theorem isBlock_first : IsBlock 6 {1} 0
    (addOptimize sixFilters (initOptimize sixFilters) (getOf 0)) :=
  ⟨.next (getOf 0) .start trivial rfl, by decide +kernel, by decide +kernel⟩

/-- Six rotations and back to where it was. -/
theorem IsBlock.cycle (hblock : IsBlock 6 {2, 1} n state) (hbelow : n + 12 < 2 ^ 64) :
    ∃ after, IsBlock 6 {2, 1} (n + 6) after := by
  have hfive := hblock.shift (by omega) (by omega) (by decide) (by decide)
  have hfour := hfive.shift (by omega) (by omega) (by decide) (by decide)
  have hthree := hfour.shift (by omega) (by omega) (by decide) (by decide)
  have htwo := hthree.shift (by omega) (by omega) (by decide) (by decide)
  have hone := htwo.shift (by omega) (by omega) (by decide) (by decide)
  exact ⟨_, (hone.restart (by omega) (by decide)).grow (by omega)⟩

theorem exists_isBlock (k : ℕ) (hk : 6 * k + 6 < 2 ^ 64) :
    ∃ state, IsBlock 6 {2, 1} (6 * k) state := by
  induction k with
  | zero => exact ⟨_, isBlock_first.grow (by omega)⟩
  | succ k ih =>
    obtain ⟨state, hblock⟩ := ih (by omega)
    exact hblock.cycle (by omega)

/-- The last state before the order of the filters is lost: two filters are left. -/
theorem exists_isBlock_wrap : ∃ state, IsBlock 2 {2, 1} (2 ^ 64 - 6) state := by
  obtain ⟨state, hblock⟩ := exists_isBlock ((2 ^ 64 - 10) / 6) (by decide)
  have hfive := hblock.shift (by omega) (by decide) (by decide) (by decide)
  have hfour := hfive.shift (by omega) (by decide) (by decide) (by decide)
  have hthree := hfour.shift (by omega) (by decide) (by decide) (by decide)
  exact ⟨_, hthree.shift (by omega) (by decide) (by decide) (by decide)⟩

/-- The bits of the filters in that state. -/
def beforeWrap : RotatingSets ℕ ℕ :=
  ⟨fun p ↦ if p = 4 ∨ p = 5 then {2, 1} else ∅, place sixFilters (UInt64.ofNat (2 ^ 64 - 6))⟩

theorem visits_beforeWrap :
    (beforeWrap.visits 1 0 6 [1, 1, 2, 4]).turn 0 = 1 ∧
      (beforeWrap.visits 1 0 6 [1, 1, 2, 4]).sets 0 = {4} ∧
      (beforeWrap.visits 1 0 6 [1, 1, 2, 4]).sets 5 = ∅ := by decide +kernel

theorem IsBlock.bits_beforeWrap (hblock : IsBlock 2 {2, 1} (2 ^ 64 - 6) state) (p : ℕ)
    (hp : p < 6) : (state.filters p).bits = beforeWrap.sets p := by
  have hbits := hblock.bits_eq ((p + 2) % 6) (Nat.mod_lt _ (by decide))
  have hplace : (2 ^ 64 - 6 + (p + 2) % 6) % 6 = p := by omega
  rw [hplace] at hbits
  exact hbits.trans (if_congr (by omega) rfl rfl)

/-- Two more rotations, and the third one is the first that passes an entry on to a filter that
comes too early. -/
theorem exists_afterWrap :
    ∃ state, Reached (step sixFilters) anyEvent (initOptimize sixFilters) state ∧
      state.currentFilterIndex.toNat % 6 = 1 ∧ (state.filters 0).bits = {4} ∧
      (state.filters 5).bits = ∅ := by
  obtain ⟨state, hblock⟩ := exists_isBlock_wrap
  have hindex : state.currentFilterIndex = UInt64.ofNat (2 ^ 64 - 6) :=
    UInt64.toNat_inj.mp (hblock.index_eq.trans (by decide))
  let requests := [getOf 0, getOf 0, getOf 1, getOf 2]
  let final := requests.foldl (addOptimize sixFilters) state
  have hreached : Reached (step sixFilters) anyEvent (initOptimize sixFilters) final :=
    .next (getOf 2) (.next (getOf 1) (.next (getOf 0) (.next (getOf 0) hblock.reached trivial rfl)
      trivial rfl) trivial rfl) trivial rfl
  have hread : ∀ request ∈ requests, request.IsRead := by
    simp [requests, OptimizedRequest.IsRead, getOf, unhashed, IsReadType]
  have hrotating := rotating_foldl hblock.counted hread
  have hplace : ∀ i, place sixFilters state.currentFilterIndex i < 6 :=
    fun i ↦ Nat.mod_lt _ (group_pos sixFilters)
  have hcongr := RotatingSets.visits_congr hplace hblock.bits_beforeWrap 1 0 6 [1, 1, 2, 4]
  have hturns : (⟨beforeWrap.sets, place sixFilters state.currentFilterIndex⟩ : RotatingSets ℕ ℕ) =
      beforeWrap := by
    rw [hindex]
    rfl
  rw [hturns] at hcongr
  have hturn : (final.rotating sixFilters).turn 0 = 1 :=
    (congrFun ((congrArg RotatingSets.turn hrotating).trans hcongr.1) 0).trans visits_beforeWrap.1
  have hsets : ∀ p < 6, (final.filters p).bits =
      (beforeWrap.visits 1 0 6 [1, 1, 2, 4]).sets p := fun p hp ↦
    (congrFun (congrArg RotatingSets.sets hrotating) p).trans (hcongr.2 p hp)
  refine ⟨final, hreached, ?_, (hsets 0 (by decide)).trans visits_beforeWrap.2.1,
    (hsets 5 (by decide)).trans visits_beforeWrap.2.2⟩
  rw [← hturn]
  exact congrArg (·.toNat % 6) (UInt64.add_zero final.currentFilterIndex).symm

/-- With six filters, a filter has an entry that the filter before it does not have: the rest of the
counter modulo six skips the two filters behind the fourth when the counter wraps. -/
theorem order_lost_at_wrap :
    ∃ state, Reached (step sixFilters) anyEvent (initOptimize sixFilters) state ∧
      ∃ i, i + 1 < sixFilters.bloomFilterGroup ∧
        ¬(state.filters ((state.currentFilterIndex.toNat + (i + 1)) %
            sixFilters.bloomFilterGroup)).bits ⊆
          (state.filters ((state.currentFilterIndex.toNat + i) %
            sixFilters.bloomFilterGroup)).bits := by
  obtain ⟨state, hreached, hindex, hfirst, hlast⟩ := exists_afterWrap
  have hzero : (state.currentFilterIndex.toNat + (4 + 1)) % sixFilters.bloomFilterGroup = 0 := by
    show _ % 6 = 0
    omega
  have hfive : (state.currentFilterIndex.toNat + 4) % sixFilters.bloomFilterGroup = 5 := by
    show _ % 6 = 5
    omega
  refine ⟨state, hreached, 4, by decide, ?_⟩
  rw [hzero, hfive, hfirst, hlast]
  decide

/-! ### Before a filter is saturated -/

section

variable (settings : OptimizeSettings)

/-- All bits of the filter in use are set. -/
def IsSaturated (state : OptimizeState) : Prop :=
  ∀ b < settings.bloomFilterNumBuckets, b ∈ (state.current settings).bits

/-- There are more buckets than entries a filter can get: one more than the guess, and one more for
every filter if entries are passed on at once. -/
def IsRoomy : Prop :=
  settings.guessHotRequestNum + 1 < settings.bloomFilterNumBuckets ∧
    (passingLevel settings ≤ 1 →
      settings.guessHotRequestNum + settings.bloomFilterGroup < settings.bloomFilterNumBuckets)

/-- The hashes of some requests cover all buckets. -/
def Covers (requests : List OptimizedRequest) : Prop :=
  ∀ b < settings.bloomFilterNumBuckets,
    ∃ request ∈ requests, bucket settings (calcHashGet request.request) = b

/-- The state behind some executed requests. -/
def addAll (requests : List OptimizedRequest) : OptimizeState :=
  requests.foldl (addOptimize settings) (initOptimize settings)

end

theorem isOrderly_foldl (horderly : IsOrderly settings state) (requests : List OptimizedRequest) :
    IsOrderly settings (requests.foldl (addOptimize settings) state) := by
  induction requests generalizing state with
  | nil => exact horderly
  | cons request rest ih => exact ih (horderly.addOptimize request)

theorem isOrderly_addAll (requests : List OptimizedRequest) :
    IsOrderly settings (addAll settings requests) :=
  isOrderly_foldl isOrderly_initOptimize requests

/-- The filter in use has fewer entries than there are buckets. -/
theorem IsOrderly.card_lt (horderly : IsOrderly settings state) (hroomy : IsRoomy settings) :
    (state.rotating settings).inUse.card < settings.bloomFilterNumBuckets := by
  rcases Nat.lt_or_ge 1 (passingLevel settings) with hlevel | hlevel
  · exact (horderly.card_le hlevel).trans_lt hroomy.1
  · rcases (state.rotating settings).inUse.eq_empty_or_nonempty with hempty | hnonempty
    · rw [hempty, Finset.card_empty]
      exact settings.numBuckets_pos
    · have hbound := horderly.bounded 0 (by simp [RotatingSets.IsFirst]) hnonempty
      have hmore := hroomy.2 hlevel
      unfold RotatingSets.inUse
      omega

theorem IsOrderly.not_isSaturated (horderly : IsOrderly settings state)
    (hroomy : IsRoomy settings) : ¬IsSaturated settings state := by
  intro hsaturated
  have hsub : Finset.range settings.bloomFilterNumBuckets ⊆ (state.rotating settings).inUse :=
    fun b hb ↦ hsaturated b (Finset.mem_range.mp hb)
  have hcard := Finset.card_le_card hsub
  rw [Finset.card_range] at hcard
  exact absurd (horderly.card_lt hroomy) (Nat.not_lt.mpr hcard)

/-- Reads with different buckets, one for each bucket, set all bits of a filter that is not
roomy. -/
theorem isSaturated_of_covering (hnotRoomy : ¬IsRoomy settings)
    (hread : ∀ request ∈ requests, request.IsRead)
    (hbuckets : (requests.map fun request ↦ bucket settings (calcHashGet request.request)) =
      List.range settings.bloomFilterNumBuckets) :
    IsSaturated settings (addAll settings requests) := by
  have hinUse : ((addAll settings requests).rotating settings).inUse =
      ∅ ∪ (List.range settings.bloomFilterNumBuckets).toFinset := by
    rw [addAll, rotating_foldl isCounted_initOptimize hread, hbuckets, rotating_initOptimize]
    by_cases hfew : settings.bloomFilterNumBuckets ≤ settings.guessHotRequestNum + 1
    · refine RotatingSets.visits_fresh (group_pos settings) List.nodup_range (by
        intro element _
        exact Finset.notMem_empty element) ?_
      rw [List.length_range]
      exact (Nat.zero_add _).trans_le hfew
    · have hlevel : passingLevel settings ≤ 1 ∧ settings.bloomFilterNumBuckets ≤
          settings.guessHotRequestNum + settings.bloomFilterGroup := by
        by_contra hno
        refine hnotRoomy ⟨Nat.not_le.mp hfew, fun hlevel ↦ ?_⟩
        by_contra hmore
        exact hno ⟨hlevel, Nat.not_lt.mp hmore⟩
      obtain ⟨n, hn⟩ := Nat.exists_eq_add_of_le' settings.group_pos
      have hshared : RotatingSets.IsShared (n + 1) ∅
          (⟨fun _ ↦ ∅, place settings 0⟩ : RotatingSets ℕ ℕ) :=
        ⟨fun i hi ↦ goesRound_initOptimize.isFirst (by omega), fun _ _ ↦ rfl⟩
      refine RotatingSets.visits_shared hlevel.1 hshared (by omega) List.nodup_range
        (fun element _ ↦ Finset.notMem_empty element) ?_
      rw [List.length_range, Finset.card_empty]
      omega
  intro b hb
  rw [current_eq, hinUse]
  simpa using hb

/-- GETs for the first buckets in turn. -/
theorem exists_covering (hcovered : ∀ b < n,
      ∃ request : TdhsRequest, request.type = .get ∧ bucket settings (calcHashGet request) = b) :
    ∃ requests : List OptimizedRequest, (∀ request ∈ requests, request.request.type = .get) ∧
      (requests.map fun request ↦ bucket settings (calcHashGet request.request)) =
        List.range n := by
  induction n with
  | zero => exact ⟨[], by simp, rfl⟩
  | succ n ih =>
    obtain ⟨requests, hget, hbuckets⟩ := ih fun b hb ↦ hcovered b (by omega)
    obtain ⟨request, htype, hbucket⟩ := hcovered n (by omega)
    refine ⟨requests ++ [unhashed request], fun other hother ↦ ?_, ?_⟩
    · rcases List.mem_append.mp hother with hother | hother
      · exact hget other hother
      · rw [List.mem_singleton.mp hother]
        exact htype
    · rw [List.map_append, hbuckets, List.range_succ, List.map_singleton]
      exact congrArg (List.range n ++ [·]) hbucket

/-- The filter in use is taken out of use before all its bits are set, so that some GET is slow at
every time of every sequence of GETs whose hashes cover all buckets, if and only if there is room
for its entries. Assumes: some GETs cover all buckets. -/
theorem filters_evicted_before_saturation (settings : OptimizeSettings) (server : Server)
    (counters : Counters) (hcovered : ∀ b < settings.bloomFilterNumBuckets,
      ∃ request : TdhsRequest, request.type = .get ∧ bucket settings (calcHashGet request) = b) :
    (∀ requests : List OptimizedRequest,
      (∀ request ∈ requests, request.request.type = .get) → Covers settings requests →
      ∀ before, before <+: requests → ¬IsSaturated settings (addAll settings before) ∧
        ∃ request : TdhsRequest, request.type = .get ∧
          (optimize (lv3Server settings server (addAll settings before)) counters request).1 =
            .slow) ↔
    IsRoomy settings := by
  constructor
  · intro hevicted
    by_contra hnotRoomy
    obtain ⟨requests, hget, hbuckets⟩ := exists_covering hcovered
    have hcovers : Covers settings requests := by
      intro b hb
      rw [← List.mem_range, ← hbuckets] at hb
      obtain ⟨request, hmem, hbucket⟩ := List.mem_map.mp hb
      exact ⟨request, hmem, hbucket⟩
    exact (hevicted requests hget hcovers requests (List.prefix_refl _)).1
      (isSaturated_of_covering hnotRoomy (fun other hother ↦ Or.inl (hget other hother)) hbuckets)
  · intro hroomy requests _ _ before _
    have horderly : IsOrderly settings (addAll settings before) := isOrderly_addAll before
    have hunsaturated := horderly.not_isSaturated hroomy
    refine ⟨hunsaturated, ?_⟩
    simp only [IsSaturated, not_forall] at hunsaturated
    obtain ⟨b, hb, hmissing⟩ := hunsaturated
    obtain ⟨request, hget, rfl⟩ := hcovered b hb
    refine ⟨request, hget, ?_⟩
    rw [optimize_lv3Server server counters (Or.inl hget), if_neg]
    rwa [horderly.counted.current.check_iff, current_eq]

/-- Two filters with five buckets that are worn with two entries. -/
def roomyFilters : OptimizeSettings :=
  ⟨2, 5, 1, by decide, by decide, by decide, by decide, by decide, by decide⟩

theorem covered_roomyFilters : ∀ b < roomyFilters.bloomFilterNumBuckets, ∃ request : TdhsRequest,
    request.type = .get ∧ bucket roomyFilters (calcHashGet request) = b := by
  have hbuckets : ∀ b < 5,
      bucket roomyFilters (calcHashGet (getOf ([3, 0, 1, 9, 2].getD b 0)).request) = b := by
    decide +kernel
  exact fun b hb ↦ ⟨_, rfl, hbuckets b hb⟩

/-- GETs that cover the five buckets. -/
def coveringGets : List OptimizedRequest := [getOf 3, getOf 0, getOf 1, getOf 9, getOf 2]

theorem filters_evicted_before_saturation_roomyFilters :
    ∃ request : TdhsRequest, request.type = .get ∧
      (optimize (lv3Server roomyFilters guardedServer (addAll roomyFilters coveringGets))
        newCounters request).1 = .slow :=
  ((filters_evicted_before_saturation roomyFilters guardedServer newCounters
    covered_roomyFilters).mpr ⟨by decide, fun _ ↦ by decide⟩ coveringGets (by decide)
    (by unfold Covers; decide +kernel) coveringGets (List.prefix_refl _)).2

/-- The default number of filters and the default guess, with two buckets. -/
def twoBuckets : OptimizeSettings :=
  ⟨5, 2, 5000000, by decide, by decide, by decide, by decide, by decide, by decide⟩

/-- Two GETs that cover the two buckets set all bits, and then every read is quick. -/
theorem filter_saturated :
    Covers twoBuckets [getOf 0, getOf 3] ∧
      IsSaturated twoBuckets (addAll twoBuckets [getOf 0, getOf 3]) ∧
      ∀ server counters (request : TdhsRequest), IsReadType request.type →
        (optimize (lv3Server twoBuckets server (addAll twoBuckets [getOf 0, getOf 3])) counters
          request).1 = .quick := by
  have hsaturated : IsSaturated twoBuckets (addAll twoBuckets [getOf 0, getOf 3]) := by
    unfold IsSaturated
    decide +kernel
  refine ⟨by unfold Covers; decide +kernel, hsaturated, fun server counters request hread ↦ ?_⟩
  refine (quick_iff (isOrderly_addAll _).counted server counters hread).mpr ?_
  exact hsaturated _ (Nat.mod_lt _ (by decide))

/-! ### Behind a rotation -/

/-- A read gets into the next filter when it is executed: this is another filter, and the read is
new to the filter in use or known to the next one. -/
def IsPassedOn (settings : OptimizeSettings) (state : OptimizeState) (request : TdhsRequest) :
    Prop :=
  place settings state.currentFilterIndex 1 ≠ place settings state.currentFilterIndex 0 ∧
    ((state.current settings).check (calcHashGet request) = false ∨
      (state.filters (place settings state.currentFilterIndex 1)).check (calcHashGet request) =
        true)

/-- The filter that is in use behind a rotation. -/
theorem inUse_switchFilter_of_isFull (hcounted : IsCounted settings state)
    (hfull : IsFull settings state) (b : ℕ) :
    b ∈ ((switchFilter settings state).rotating settings).inUse ↔
      place settings state.currentFilterIndex 1 ≠ place settings state.currentFilterIndex 0 ∧
        b ∈ (state.filters (place settings state.currentFilterIndex 1)).bits := by
  rw [rotating_switchFilter hcounted, RotatingSets.renew, if_pos ((isFull_iff hcounted).mp hfull)]
  show b ∈ Function.update (fun p ↦ (state.filters p).bits)
    (place settings state.currentFilterIndex 0) ∅ (place settings state.currentFilterIndex 1) ↔ _
  by_cases hsame : place settings state.currentFilterIndex 1 =
      place settings state.currentFilterIndex 0
  · rw [hsame, Function.update_self]
    simp
  · simp [hsame]

/-- A read that is executed while the filter in use has at least
`tdhs_optimize_guess_hot_request_num / tdhs_optimize_bloom_filter_group` entries is quick right
behind the next rotation if and only if it is passed on to the next filter. -/
theorem hot_requests_survive_rotation (settings : OptimizeSettings)
    (hgroup : 2 ≤ settings.bloomFilterGroup) (state : OptimizeState)
    (hreached : Reached (step settings) anyEvent (initOptimize settings) state)
    (request : OptimizedRequest) (hread : request.IsRead)
    (hlevel : passingLevel settings ≤
      ((switchFilter settings state).current settings).filterNum) (final : OptimizeState)
    (hfinal : Reached (step settings) (fun before other ↦ ¬Rotates settings before other)
      (addOptimize settings state request) final) (hfull : IsFull settings final)
    (server : Server) (counters : Counters) :
    (optimize (lv3Server settings server (switchFilter settings final)) counters
      request.request).1 = .quick ↔
    IsPassedOn settings (switchFilter settings state) request.request := by
  have hcounted := (isOrderly_of_reached hreached isOrderly_initOptimize).counted
  have hswitched := isCounted_switchFilter hcounted
  have hagree := agree_of_reached (isCounted_addOptimize hcounted request)
    (mem_inUse_addOptimize hcounted hread) hfinal
  have hindex : final.currentFilterIndex = (switchFilter settings state).currentFilterIndex := by
    rw [hagree.index_eq, addOptimize, if_pos hread]
  -- the bucket is in the next filter exactly when the execution put it there or found it there
  have hnext : bucket settings (calcHashGet request.request) ∈ (final.filters
        (place settings (switchFilter settings state).currentFilterIndex 1)).bits ↔
      bucket settings (calcHashGet request.request) ∈ ((switchFilter settings state).filters
        (place settings (switchFilter settings state).currentFilterIndex 1)).bits ∨
      bucket settings (calcHashGet request.request) ∉
        ((switchFilter settings state).rotating settings).inUse := by
    refine (hagree.mem_iff _).trans ?_
    have hrotating := rotating_addOptimize hcounted hread
    rw [RotatingSets.visit, ← rotating_switchFilter hcounted] at hrotating
    have hsets := congrFun (congrArg RotatingSets.sets hrotating)
      (place settings (switchFilter settings state).currentFilterIndex 1)
    change ((addOptimize settings state request).filters _).bits = _ at hsets
    rw [hsets]
    refine RotatingSets.mem_record_next_iff hgroup ?_
    rw [hswitched.current.filterNum_eq] at hlevel
    exact hlevel.trans (Nat.le_succ _)
  rw [quick_iff (isCounted_switchFilter hagree.counted) server counters hread,
    inUse_switchFilter_of_isFull hagree.counted hfull, hindex, hnext, IsPassedOn,
    (hswitched _).check_iff, ← current_eq, ← hswitched.current.check_iff, Bool.not_eq_true, or_comm]

/-- Two filters with five buckets that are worn with five entries. -/
def twoFilters : OptimizeSettings :=
  ⟨2, 5, 4, by decide, by decide, by decide, by decide, by decide, by decide⟩

/-- The state behind two GETs with the limits 1 and 2. -/
def startedFilters : OptimizeState := addAll twoFilters [getOf 1, getOf 2]

theorem reached_startedFilters :
    Reached (step twoFilters) anyEvent (initOptimize twoFilters) startedFilters :=
  .next (getOf 2) (.next (getOf 1) .start trivial rfl) trivial rfl

theorem hot_requests_survive_rotation_newGet :
    (optimize (lv3Server twoFilters guardedServer (switchFilter twoFilters
      ([getOf 3, getOf 9].foldl (addOptimize twoFilters)
        (addOptimize twoFilters startedFilters (getOf 0))))) newCounters (getOf 0).request).1 =
      .quick :=
  (hot_requests_survive_rotation twoFilters (by decide) startedFilters reached_startedFilters
    (getOf 0) (Or.inl rfl) (by decide +kernel) _
    (.next (getOf 9) (.next (getOf 3) .start (by decide +kernel) rfl) (by decide +kernel) rfl)
    (by decide +kernel) guardedServer newCounters).mpr (by unfold IsPassedOn; decide +kernel)

/-- The GET with the limit 1 was executed when the filter in use was empty, and is executed again
when this has two entries. Behind the next rotation it is slow. -/
theorem hot_request_lost :
    ∃ final, Reached (step twoFilters) anyEvent (initOptimize twoFilters) startedFilters ∧
      passingLevel twoFilters ≤ ((switchFilter twoFilters startedFilters).current
        twoFilters).filterNum ∧
      Reached (step twoFilters) (fun before other ↦ ¬Rotates twoFilters before other)
        (addOptimize twoFilters startedFilters (getOf 1)) final ∧
      IsFull twoFilters final ∧
      (optimize (lv3Server twoFilters guardedServer (switchFilter twoFilters final)) newCounters
        (getOf 1).request).1 = .slow :=
  ⟨_, reached_startedFilters, by decide +kernel,
    .next (getOf 9) (.next (getOf 3) (.next (getOf 0) .start (by decide +kernel) rfl)
      (by decide +kernel) rfl) (by decide +kernel) rfl, by decide +kernel, by decide +kernel⟩

end TdhSocket.Optimize
