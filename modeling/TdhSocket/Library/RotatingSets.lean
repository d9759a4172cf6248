import Mathlib.Data.Finset.Card

/-!
# Sets in rotation

Finite sets at some places, and an order in which the places take their turn: `turn i` is the place
in use after `i` more rotations. `record` adds an element to the set in use, and on to the sets
whose turn is next, as long as the element is new to a set and this has then at least `least`
elements. When the set in use has more than `hot` elements, `rotate` empties it and the next place
takes its turn; `visit` is what happens when an element comes.

Nothing is assumed about the order, a place may come again before another one came at all. A set
whose turn is later is below every set whose turn is earlier (`IsNested`): a subset, smaller by the
elements the earlier set had to have before it passed any on. From this follow the bounds on the
size of the set in use (`IsNested.card_visit_le`, `IsBounded.visit`). New elements reach them
(`visits_fresh`, `visits_shared`).
-/

set_option autoImplicit false

namespace TdhSocket.Library

open Function

/-- Sets at places, and the places in the order of their turns. -/
structure RotatingSets (ι α : Type) where
  sets : ι → Finset α
  turn : ℕ → ι

namespace RotatingSets

variable {ι α : Type} [DecidableEq ι] [DecidableEq α]

/-! ### The operations -/

/-- The set in use. -/
def inUse (rotating : RotatingSets ι α) : Finset α := rotating.sets (rotating.turn 0)

/-- The sets with an element added along some turns. -/
def record (least : ℕ) (element : α) : ℕ → (ℕ → ι) → (ι → Finset α) → ι → Finset α
  | 0, _, sets => sets
  | depth + 1, turn, sets =>
    if element ∈ sets (turn 0) then sets
    else
      let added := update sets (turn 0) (insert element (sets (turn 0)))
      if (insert element (sets (turn 0))).card < least then added
      else record least element depth (fun i ↦ turn (i + 1)) added

/-- The set in use is emptied, and the next place takes its turn. -/
def rotate (rotating : RotatingSets ι α) : RotatingSets ι α :=
  ⟨update rotating.sets (rotating.turn 0) ∅, fun i ↦ rotating.turn (i + 1)⟩

/-- An element is recorded in the sets of the next turns. -/
def enter (least depth : ℕ) (rotating : RotatingSets ι α) (element : α) : RotatingSets ι α :=
  ⟨record least element depth rotating.turn rotating.sets, rotating.turn⟩

/-- A worn set is taken out of use. -/
def renew (hot : ℕ) (rotating : RotatingSets ι α) : RotatingSets ι α :=
  if hot < rotating.inUse.card then rotating.rotate else rotating

/-- An element comes. -/
def visit (hot least depth : ℕ) (rotating : RotatingSets ι α) (element : α) : RotatingSets ι α :=
  (rotating.renew hot).enter least depth element

/-! ### Recording -/

variable {least depth : ℕ} {element : α} {turn : ℕ → ι} {sets : ι → Finset α}

theorem record_succ_of_mem (hmem : element ∈ sets (turn 0)) :
    record least element (depth + 1) turn sets = sets := by
  rw [record, if_pos hmem]

theorem record_succ_of_few (hnew : element ∉ sets (turn 0))
    (hfew : (sets (turn 0)).card + 1 < least) :
    record least element (depth + 1) turn sets =
      update sets (turn 0) (insert element (sets (turn 0))) := by
  rw [record, if_neg hnew]
  exact if_pos ((Finset.card_insert_of_notMem hnew).symm ▸ hfew)

theorem record_succ_of_enough (hnew : element ∉ sets (turn 0))
    (henough : least ≤ (sets (turn 0)).card + 1) :
    record least element (depth + 1) turn sets = record least element depth (fun i ↦ turn (i + 1))
      (update sets (turn 0) (insert element (sets (turn 0)))) := by
  rw [record, if_neg hnew]
  exact if_neg ((Finset.card_insert_of_notMem hnew).symm ▸ Nat.not_lt.mpr henough)

/-- A set that has the element stays as it is. -/
theorem record_of_mem {place : ι} (hmem : element ∈ sets place) :
    record least element depth turn sets place = sets place := by
  induction depth generalizing turn sets with
  | zero => rfl
  | succ depth ih =>
    have hadded : update sets (turn 0) (insert element (sets (turn 0))) place =
        sets place := by
      by_cases hsame : place = turn 0
      · rw [← hsame, update_self, Finset.insert_eq_of_mem hmem]
      · exact update_of_ne hsame _ _
    unfold record
    split_ifs
    · rfl
    · exact hadded
    · rw [ih (hadded.symm ▸ hmem), hadded]

/-- What recording does: the sets of the first `count` turns, at different places and without the
element, get it; all of them but the last have then enough elements. -/
structure IsRecorded (least : ℕ) (element : α) (turn : ℕ → ι) (before after : ι → Finset α)
    (count : ℕ) : Prop where
  injective : ∀ i < count, ∀ j < i, turn j ≠ turn i
  isNew : ∀ i < count, element ∉ before (turn i)
  enough : ∀ i, i + 1 < count → least ≤ (before (turn i)).card + 1
  taken : ∀ i < count, after (turn i) = insert element (before (turn i))
  spared : ∀ place, (∀ i < count, turn i ≠ place) → after place = before place

omit [DecidableEq ι] in
theorem isRecorded_zero (least : ℕ) (element : α) (turn : ℕ → ι) (sets : ι → Finset α) :
    IsRecorded least element turn sets sets 0 :=
  ⟨by simp, by simp, by simp, by simp, fun _ _ ↦ rfl⟩

variable {after others : ι → Finset α} {count i k hot n : ℕ} {front set : Finset α}
  {IsPlace : ι → Prop} {elements : List α}

/-- One more turn in front of those that are recorded. -/
theorem IsRecorded.succ (hnew : element ∉ sets (turn 0))
    (henough : 0 < count → least ≤ (sets (turn 0)).card + 1)
    (hrecorded : IsRecorded least element (fun i ↦ turn (i + 1))
      (update sets (turn 0) (insert element (sets (turn 0)))) after count) :
    IsRecorded least element turn sets after (count + 1) := by
  -- the later sets have not got the element, so the first place is not among theirs
  have hother : ∀ i < count, turn 0 ≠ turn (i + 1) := by
    intro i hi hsame
    have hmissing := hrecorded.isNew i hi
    rw [← hsame, update_self] at hmissing
    exact hmissing (Finset.mem_insert_self _ _)
  have hbefore : ∀ i < count, update sets (turn 0) (insert element (sets (turn 0)))
      (turn (i + 1)) = sets (turn (i + 1)) :=
    fun i hi ↦ update_of_ne (hother i hi).symm _ _
  refine ⟨fun i hi j hj ↦ ?_, fun i hi ↦ ?_, fun i hi ↦ ?_, fun i hi ↦ ?_, fun place hplace ↦ ?_⟩
  · obtain ⟨i, rfl⟩ := Nat.exists_eq_add_of_lt hj
    cases j with
    | zero => exact hother _ (by omega)
    | succ j => exact hrecorded.injective _ (by omega) j (by omega)
  · cases i with
    | zero => exact hnew
    | succ i => exact hbefore i (by omega) ▸ hrecorded.isNew i (by omega)
  · cases i with
    | zero => exact henough (by omega)
    | succ i => exact hbefore i (by omega) ▸ hrecorded.enough i (by omega)
  · cases i with
    | zero =>
      rw [hrecorded.spared (turn 0) fun i hi hsame ↦ hother i hi hsame.symm, update_self]
    | succ i => exact hbefore i (by omega) ▸ hrecorded.taken i (by omega)
  · rw [hrecorded.spared place fun i hi ↦ hplace (i + 1) (by omega),
      update_of_ne (hplace 0 (by omega)).symm]

/-- Recording takes some number of turns. -/
theorem exists_isRecorded (least : ℕ) (element : α) (depth : ℕ) (turn : ℕ → ι)
    (sets : ι → Finset α) :
    ∃ count ≤ depth,
      IsRecorded least element turn sets (record least element depth turn sets) count := by
  induction depth generalizing turn sets with
  | zero => exact ⟨0, le_rfl, isRecorded_zero least element turn sets⟩
  | succ depth ih =>
    by_cases hmem : element ∈ sets (turn 0)
    · rw [record_succ_of_mem hmem]
      exact ⟨0, Nat.zero_le _, isRecorded_zero least element turn sets⟩
    rcases Nat.lt_or_ge ((sets (turn 0)).card + 1) least with hfew | henough
    · rw [record_succ_of_few hmem hfew]
      exact ⟨1, by omega,
        (isRecorded_zero least element _ _).succ hmem fun hpos ↦ absurd hpos (by omega)⟩
    · rw [record_succ_of_enough hmem henough]
      obtain ⟨count, hcount, hrecorded⟩ := ih (fun i ↦ turn (i + 1))
        (update sets (turn 0) (insert element (sets (turn 0))))
      exact ⟨count + 1, by omega, hrecorded.succ hmem fun _ ↦ henough⟩

/-- Every set keeps its elements and gets at most the new one. -/
theorem IsRecorded.subset_insert (hrecorded : IsRecorded least element turn sets after count)
    (place : ι) :
    after place ⊆ insert element (sets place) := by
  by_cases htaken : ∃ i < count, turn i = place
  · obtain ⟨i, hi, rfl⟩ := htaken
    exact (hrecorded.taken i hi).subset
  · rw [hrecorded.spared place fun i hi hsame ↦ htaken ⟨i, hi, hsame⟩]
    exact Finset.subset_insert element (sets place)

/-- No set loses an element. -/
theorem IsRecorded.subset (hrecorded : IsRecorded least element turn sets after count) (place : ι) :
    sets place ⊆ after place := by
  by_cases htaken : ∃ i < count, turn i = place
  · obtain ⟨i, hi, rfl⟩ := htaken
    rw [hrecorded.taken i hi]
    exact Finset.subset_insert element _
  · rw [hrecorded.spared place fun i hi hsame ↦ htaken ⟨i, hi, hsame⟩]

/-- The set in use gets the element. -/
theorem record_inUse (hdepth : 0 < depth) :
    record least element depth turn sets (turn 0) = insert element (sets (turn 0)) := by
  obtain ⟨depth, rfl⟩ := Nat.exists_eq_add_of_lt hdepth
  by_cases hmem : element ∈ sets (turn 0)
  · rw [record_of_mem hmem, Finset.insert_eq_of_mem hmem]
  rcases Nat.lt_or_ge ((sets (turn 0)).card + 1) least with hfew | henough
  · rw [record_succ_of_few hmem hfew, update_self]
  · rw [record_succ_of_enough hmem henough, record_of_mem, update_self]
    rw [update_self]
    exact Finset.mem_insert_self _ _

/-- The set of the next turn has the element afterwards exactly when it had it already, or the
element was new to the set in use. Assumes: the set in use has enough elements. -/
theorem mem_record_next_iff (hdepth : 2 ≤ depth) (henough : least ≤ (sets (turn 0)).card + 1) :
    element ∈ record least element depth turn sets (turn 1) ↔
      element ∈ sets (turn 1) ∨ element ∉ sets (turn 0) := by
  obtain ⟨depth, rfl⟩ := Nat.exists_eq_add_of_le' hdepth
  by_cases hmem : element ∈ sets (turn 0)
  · rw [record_succ_of_mem hmem]
    simp [hmem]
  · have hentered : record least element (depth + 1) (fun i ↦ turn (i + 1))
        (update sets (turn 0) (insert element (sets (turn 0)))) (turn 1) =
        insert element (update sets (turn 0) (insert element (sets (turn 0))) (turn 1)) :=
      record_inUse (by omega)
    rw [record_succ_of_enough hmem henough, hentered]
    exact iff_of_true (Finset.mem_insert_self _ _) (Or.inr hmem)

theorem inUse_enter (hdepth : 0 < depth) (rotating : RotatingSets ι α) (element : α) :
    (rotating.enter least depth element).inUse = insert element rotating.inUse :=
  record_inUse hdepth

/-- An element of the set in use gets into no other set. -/
theorem mem_enter_iff {rotating : RotatingSets ι α} {known : α} (hknown : known ∈ rotating.inUse)
    (place : ι) :
    known ∈ (rotating.enter least depth element).sets place ↔ known ∈ rotating.sets place := by
  obtain ⟨count, -, hrecorded⟩ :=
    exists_isRecorded least element depth rotating.turn rotating.sets
  refine ⟨fun hmem ↦ ?_, fun hmem ↦ hrecorded.subset place hmem⟩
  rcases Finset.mem_insert.mp (hrecorded.subset_insert place hmem) with rfl | hold
  · -- the element itself: its turn ends at the set in use
    have hnone : count = 0 := by
      by_contra hsome
      exact hrecorded.isNew 0 (Nat.pos_of_ne_zero hsome) hknown
    subst hnone
    change known ∈ record least known depth rotating.turn rotating.sets place at hmem
    rwa [hrecorded.spared place fun i hi ↦ absurd hi (Nat.not_lt_zero i)] at hmem
  · exact hold

/-! ### Sets below one another -/

/-- A set is a subset of an earlier one, and smaller by the elements that were not passed on. -/
structure IsBelow (least : ℕ) (front set : Finset α) : Prop where
  subset : set ⊆ front
  card_le : set.card ≤ front.card - (least - 1)

omit [DecidableEq α] in
theorem isBelow_empty (least : ℕ) (front : Finset α) : IsBelow least front ∅ :=
  ⟨Finset.empty_subset front, by simp⟩

/-- A new element may be passed on by a set with enough elements. -/
theorem IsBelow.insert (hbelow : IsBelow least front set) (hnew : element ∉ front)
    (henough : least ≤ front.card + 1) :
    IsBelow least (insert element front) (insert element set) := by
  refine ⟨Finset.insert_subset_insert element hbelow.subset, ?_⟩
  have hcard := hbelow.card_le
  rw [Finset.card_insert_of_notMem hnew,
    Finset.card_insert_of_notMem fun hmem ↦ hnew (hbelow.subset hmem)]
  omega

/-- A new element may stay with the earlier set. -/
theorem IsBelow.insert_front (hbelow : IsBelow least front set) (element : α) :
    IsBelow least (Insert.insert element front) set :=
  ⟨hbelow.subset.trans (Finset.subset_insert element front),
    hbelow.card_le.trans
      (Nat.sub_le_sub_right (Finset.card_le_card (Finset.subset_insert element front)) _)⟩

/-- The place that takes its turn after `i` rotations has not come before. -/
def IsFirst (turn : ℕ → ι) (i : ℕ) : Prop := ∀ j < i, turn j ≠ turn i

omit [DecidableEq ι] in
/-- The next turns after a rotation, of the other places. -/
theorem IsFirst.of_succ (hfirst : IsFirst (fun i ↦ turn (i + 1)) i)
    (hother : turn (i + 1) ≠ turn 0) :
    IsFirst turn (i + 1) := by
  intro j hj
  cases j with
  | zero => exact hother.symm
  | succ j => exact hfirst j (by omega)

/-- A set is below all sets with an earlier turn. A set behind a place that comes twice is empty:
recording never gets there, as the place has the element when it comes again. -/
structure IsNested (least : ℕ) (rotating : RotatingSets ι α) : Prop where
  below : ∀ i k, i < k → IsFirst rotating.turn i → IsFirst rotating.turn k →
    IsBelow least (rotating.sets (rotating.turn i)) (rotating.sets (rotating.turn k))
  behind : ∀ i j k, i < j → j < k → rotating.turn i = rotating.turn j → IsFirst rotating.turn k →
    rotating.sets (rotating.turn k) = ∅

omit [DecidableEq ι] [DecidableEq α] in
theorem isNested_empty (least : ℕ) (turn : ℕ → ι) :
    IsNested least (⟨fun _ ↦ ∅, turn⟩ : RotatingSets ι α) :=
  ⟨fun _ _ _ _ _ ↦ isBelow_empty least ∅, fun _ _ _ _ _ _ _ ↦ rfl⟩

variable {rotating : RotatingSets ι α}

omit [DecidableEq α] in
theorem IsNested.rotate (hnested : IsNested least rotating) : IsNested least rotating.rotate := by
  have hbehind : ∀ {k : ℕ}, rotating.turn (k + 1) ≠ rotating.turn 0 →
      update rotating.sets (rotating.turn 0) ∅ (rotating.turn (k + 1)) =
        rotating.sets (rotating.turn (k + 1)) :=
    fun hother ↦ update_of_ne hother _ _
  constructor
  · intro i k hik hfirst hlater
    show IsBelow least (update rotating.sets (rotating.turn 0) ∅ (rotating.turn (i + 1)))
      (update rotating.sets (rotating.turn 0) ∅ (rotating.turn (k + 1)))
    by_cases hk : rotating.turn (k + 1) = rotating.turn 0
    · rw [hk, update_self]
      exact isBelow_empty least _
    by_cases hi : rotating.turn (i + 1) = rotating.turn 0
    · -- the place comes again, so what comes later is empty
      rw [hbehind hk, hnested.behind 0 (i + 1) (k + 1) (by omega) (by omega) hi.symm
        (hlater.of_succ hk)]
      exact isBelow_empty least _
    · rw [hbehind hi, hbehind hk]
      exact hnested.below _ _ (by omega) (hfirst.of_succ hi) (hlater.of_succ hk)
  · intro i j k hij hjk hsame hlater
    show update rotating.sets (rotating.turn 0) ∅ (rotating.turn (k + 1)) = ∅
    by_cases hk : rotating.turn (k + 1) = rotating.turn 0
    · rw [hk, update_self]
    · rw [hbehind hk]
      exact hnested.behind (i + 1) (j + 1) (k + 1) (by omega) (by omega) hsame (hlater.of_succ hk)

omit [DecidableEq ι] in
/-- A set that is recorded to had its turn early. -/
theorem IsRecorded.lt_of_isFirst {before : ι → Finset α}
    (hrecorded : IsRecorded least element turn before after count) (hfirst : IsFirst turn k)
    (htaken : after (turn k) ≠ before (turn k)) : k < count := by
  by_contra hlate
  refine htaken (hrecorded.spared (turn k) fun i hi ↦ ?_)
  exact hfirst i (by omega)

theorem IsNested.enter (hnested : IsNested least rotating) (depth : ℕ) (element : α) :
    IsNested least (rotating.enter least depth element) := by
  obtain ⟨count, -, hrecorded⟩ :=
    exists_isRecorded least element depth rotating.turn rotating.sets
  have hspared : ∀ {k : ℕ}, IsFirst rotating.turn k → ¬k < count →
      record least element depth rotating.turn rotating.sets (rotating.turn k) =
        rotating.sets (rotating.turn k) := by
    intro k hfirst hlate
    by_contra htaken
    exact hlate (hrecorded.lt_of_isFirst hfirst htaken)
  constructor
  · intro i k hik hfirst hlater
    have hbelow := hnested.below i k hik hfirst hlater
    show IsBelow least (record least element depth rotating.turn rotating.sets (rotating.turn i))
      (record least element depth rotating.turn rotating.sets (rotating.turn k))
    by_cases hk : k < count
    · rw [hrecorded.taken i (by omega), hrecorded.taken k hk]
      exact hbelow.insert (hrecorded.isNew i (by omega)) (hrecorded.enough i (by omega))
    rw [hspared hlater hk]
    by_cases hi : i < count
    · rw [hrecorded.taken i hi]
      exact hbelow.insert_front element
    · rw [hspared hfirst hi]
      exact hbelow
  · intro i j k hij hjk hsame hlater
    show record least element depth rotating.turn rotating.sets (rotating.turn k) = ∅
    have hlate : ¬k < count := fun hk ↦ hrecorded.injective j (by omega) i hij hsame
    rw [hspared hlater hlate]
    exact hnested.behind i j k hij hjk hsame hlater

omit [DecidableEq α] in
theorem IsNested.renew (hnested : IsNested least rotating) (hot : ℕ) :
    IsNested least (rotating.renew hot) := by
  unfold RotatingSets.renew
  split_ifs
  · exact hnested.rotate
  · exact hnested

theorem IsNested.visit (hnested : IsNested least rotating) (hot depth : ℕ) (element : α) :
    IsNested least (rotating.visit hot least depth element) :=
  (hnested.renew hot).enter depth element

omit [DecidableEq ι] [DecidableEq α] in
/-- A set is a subset of the set in use. -/
theorem IsNested.subset_inUse (hnested : IsNested least rotating)
    (hfirst : IsFirst rotating.turn k) :
    rotating.sets (rotating.turn k) ⊆ rotating.inUse := by
  cases k with
  | zero => exact Finset.Subset.refl _
  | succ k => exact (hnested.below 0 (k + 1) (by omega) (by simp [IsFirst]) hfirst).subset

/-! ### How large a set gets -/

theorem card_inUse_enter_le (least depth : ℕ) (rotating : RotatingSets ι α) (element : α) :
    (rotating.enter least depth element).inUse.card ≤ rotating.inUse.card + 1 := by
  obtain ⟨count, -, hrecorded⟩ :=
    exists_isRecorded least element depth rotating.turn rotating.sets
  exact (Finset.card_le_card (hrecorded.subset_insert _)).trans (Finset.card_insert_le _ _)

/-- The set in use has at most one element more than `hot`, if sets keep an element for themselves:
the next one has then at most `hot` when it takes its turn. -/
theorem IsNested.card_visit_le (hnested : IsNested least rotating) (hleast : 2 ≤ least)
    (hcard : rotating.inUse.card ≤ hot + 1) (depth : ℕ) (element : α) :
    (rotating.visit hot least depth element).inUse.card ≤ hot + 1 := by
  refine (card_inUse_enter_le least depth _ element).trans (Nat.succ_le_succ ?_)
  unfold RotatingSets.renew
  split_ifs with hworn
  · show (update rotating.sets (rotating.turn 0) ∅ (rotating.turn 1)).card ≤ hot
    by_cases hsame : rotating.turn 1 = rotating.turn 0
    · rw [hsame, update_self, Finset.card_empty]
      exact Nat.zero_le hot
    · have hfirst : IsFirst rotating.turn 1 := by
        intro j hj
        obtain rfl : j = 0 := by omega
        exact fun h ↦ hsame h.symm
      have hbelow := (hnested.below 0 1 (by omega) (by simp [IsFirst]) hfirst).card_le
      rw [update_of_ne hsame]
      unfold inUse at hcard
      omega
  · exact Nat.not_lt.mp hworn

/-- A set that is not empty has at most `hot + depth` elements, less one for every rotation before
its turn. -/
def IsBounded (hot depth : ℕ) (rotating : RotatingSets ι α) : Prop :=
  ∀ i, IsFirst rotating.turn i → (rotating.sets (rotating.turn i)).Nonempty →
    (rotating.sets (rotating.turn i)).card + i ≤ hot + depth

omit [DecidableEq ι] [DecidableEq α] in
theorem isBounded_empty (hot depth : ℕ) (turn : ℕ → ι) :
    IsBounded hot depth (⟨fun _ ↦ ∅, turn⟩ : RotatingSets ι α) :=
  fun _ _ hnonempty ↦ absurd hnonempty Finset.not_nonempty_empty

omit [DecidableEq α] in
/-- After a rotation there is room for one element. -/
theorem IsBounded.rotate (hbounded : IsBounded hot depth rotating)
    (hfirst : IsFirst rotating.rotate.turn i)
    (hnonempty : (rotating.rotate.sets (rotating.rotate.turn i)).Nonempty) :
    (rotating.rotate.sets (rotating.rotate.turn i)).card + i + 1 ≤ hot + depth := by
  change (update rotating.sets (rotating.turn 0) ∅ (rotating.turn (i + 1))).Nonempty
    at hnonempty
  show (update rotating.sets (rotating.turn 0) ∅ (rotating.turn (i + 1))).card + i + 1 ≤ _
  by_cases hsame : rotating.turn (i + 1) = rotating.turn 0
  · rw [hsame, update_self] at hnonempty
    exact absurd hnonempty Finset.not_nonempty_empty
  · rw [update_of_ne hsame] at hnonempty ⊢
    exact hbounded (i + 1) (hfirst.of_succ hsame) hnonempty

/-- An element that comes when there is room for it. -/
theorem isBounded_enter (hbounded : IsBounded hot depth rotating)
    (hroom : ∀ i < depth, IsFirst rotating.turn i →
      (rotating.sets (rotating.turn i)).card + i < hot + depth) (element : α) :
    IsBounded hot depth (rotating.enter least depth element) := by
  intro i hfirst hnonempty
  obtain ⟨count, hcount, hrecorded⟩ :=
    exists_isRecorded least element depth rotating.turn rotating.sets
  change (record least element depth rotating.turn rotating.sets (rotating.turn i)).Nonempty
    at hnonempty
  show (record least element depth rotating.turn rotating.sets (rotating.turn i)).card + i ≤ _
  by_cases htaken : record least element depth rotating.turn rotating.sets (rotating.turn i) =
      rotating.sets (rotating.turn i)
  · rw [htaken] at hnonempty ⊢
    exact hbounded i hfirst hnonempty
  · have hearly : i < count := hrecorded.lt_of_isFirst hfirst htaken
    have hinsert := Finset.card_insert_le element (rotating.sets (rotating.turn i))
    have hfits := hroom i (hearly.trans_le hcount) hfirst
    rw [hrecorded.taken i hearly]
    omega

/-- No set outgrows its bound. -/
theorem IsBounded.visit (hbounded : IsBounded hot depth rotating)
    (hnested : IsNested least rotating) (element : α) :
    IsBounded hot depth (rotating.visit hot least depth element) := by
  unfold RotatingSets.visit RotatingSets.renew
  split_ifs with hworn
  · refine isBounded_enter (fun i hfirst hnonempty ↦ ?_) (fun i hi hfirst ↦ ?_) element
    · exact (Nat.le_succ _).trans (hbounded.rotate hfirst hnonempty)
    · rcases (rotating.rotate.sets (rotating.rotate.turn i)).eq_empty_or_nonempty with
        hempty | hsome
      · rw [hempty, Finset.card_empty]
        omega
      · exact hbounded.rotate hfirst hsome
  · -- the other sets are subsets of the one in use, which is not worn
    refine isBounded_enter hbounded (fun i hi hfirst ↦ ?_) element
    have hsub := Finset.card_le_card (hnested.subset_inUse hfirst)
    omega

/-! ### What the sets depend on -/

/-- Elements come one after the other. -/
def visits (hot least depth : ℕ) (rotating : RotatingSets ι α) (elements : List α) :
    RotatingSets ι α :=
  elements.foldl (visit hot least depth) rotating

/-- Recording depends on the sets of the turns only. -/
theorem record_congr (hturn : ∀ i, IsPlace (turn i))
    (hsets : ∀ place, IsPlace place → sets place = others place) {place : ι}
    (hplace : IsPlace place) :
    record least element depth turn sets place = record least element depth turn others place := by
  induction depth generalizing turn sets others with
  | zero => exact hsets place hplace
  | succ depth ih =>
    have hadded : ∀ place, IsPlace place →
        update sets (turn 0) (insert element (sets (turn 0))) place =
          update others (turn 0) (insert element (others (turn 0))) place := by
      intro place hplace
      rw [update_apply, update_apply, hsets _ (hturn 0), hsets place hplace]
    unfold record
    rw [← hsets _ (hturn 0)]
    split_ifs
    · exact hsets place hplace
    · exact hsets _ (hturn 0) ▸ hadded place hplace
    · exact ih (fun i ↦ hturn (i + 1)) (hsets _ (hturn 0) ▸ hadded)

/-- So do visits, and the order of the turns behind them. -/
theorem visits_congr (hturn : ∀ i, IsPlace (turn i))
    (hsets : ∀ place, IsPlace place → sets place = others place) (hot least depth : ℕ)
    (elements : List α) :
    (visits hot least depth ⟨sets, turn⟩ elements).turn =
        (visits hot least depth ⟨others, turn⟩ elements).turn ∧
      ∀ place, IsPlace place → (visits hot least depth ⟨sets, turn⟩ elements).sets place =
        (visits hot least depth ⟨others, turn⟩ elements).sets place := by
  induction elements generalizing turn sets others with
  | nil => exact ⟨rfl, hsets⟩
  | cons element elements ih =>
    have hemptied : ∀ place, IsPlace place →
        update sets (turn 0) ∅ place = update others (turn 0) ∅ place := by
      intro place hplace
      rw [update_apply, update_apply, hsets place hplace]
    have hinUse : (⟨sets, turn⟩ : RotatingSets ι α).inUse =
        (⟨others, turn⟩ : RotatingSets ι α).inUse := hsets _ (hturn 0)
    rw [visits, visits, List.foldl_cons, List.foldl_cons, ← visits, ← visits, visit, visit, renew,
      renew, ← hinUse]
    split_ifs
    · refine ih (fun i ↦ hturn (i + 1)) fun place hplace ↦ ?_
      exact record_congr (fun i ↦ hturn (i + 1)) hemptied hplace
    · refine ih hturn fun place hplace ↦ ?_
      exact record_congr hturn hsets hplace

/-! ### New elements fill the sets -/

/-- What the first of some new elements leaves for the others. -/
theorem notMem_insert_of_nodup {first : α} {rest : List α} (hnodup : (first :: rest).Nodup)
    (hnew : ∀ element ∈ first :: rest, element ∉ set) :
    ∀ element ∈ rest, element ∉ insert first set := by
  intro other hother hin
  rcases Finset.mem_insert.mp hin with rfl | hset
  · exact (List.nodup_cons.mp hnodup).1 hother
  · exact hnew other (List.mem_cons_of_mem _ hother) hset

/-- New elements fill the set in use up to one more than `hot`. -/
theorem visits_fresh (hdepth : 0 < depth) (hnodup : elements.Nodup)
    (hnew : ∀ element ∈ elements, element ∉ rotating.inUse)
    (hfew : rotating.inUse.card + elements.length ≤ hot + 1) :
    (rotating.visits hot least depth elements).inUse = rotating.inUse ∪ elements.toFinset := by
  induction elements generalizing rotating with
  | nil => simp [visits]
  | cons first rest ih =>
    have hfirst : first ∉ rotating.inUse := hnew first List.mem_cons_self
    rw [List.length_cons] at hfew
    have hworn : ¬hot < rotating.inUse.card := by omega
    have hentered : (rotating.visit hot least depth first).inUse =
        insert first rotating.inUse := by
      rw [RotatingSets.visit, RotatingSets.renew, if_neg hworn]
      exact record_inUse hdepth
    have hroom : (rotating.visit hot least depth first).inUse.card + rest.length ≤ hot + 1 := by
      rw [hentered, Finset.card_insert_of_notMem hfirst]
      omega
    have hstill := notMem_insert_of_nodup hnodup hnew
    rw [← hentered] at hstill
    rw [visits, List.foldl_cons, ← visits, ih (List.nodup_cons.mp hnodup).2 hstill hroom, hentered,
      List.toFinset_cons, Finset.insert_union, Finset.union_insert]

/-- The sets of the next `n` turns, at different places, are the same. -/
structure IsShared (n : ℕ) (set : Finset α) (rotating : RotatingSets ι α) : Prop where
  isFirst : ∀ i < n, IsFirst rotating.turn i
  sets_eq : ∀ i < n, rotating.sets (rotating.turn i) = set

/-- Where one element is enough to pass elements on, equal sets stay equal. -/
theorem record_shared (hleast : least ≤ 1) (hnew : element ∉ set) (hn : n ≤ depth)
    (hfirst : ∀ i < n, IsFirst turn i) (hsets : ∀ i < n, sets (turn i) = set) :
    ∀ i < n, record least element depth turn sets (turn i) = insert element set := by
  induction n generalizing depth turn sets with
  | zero => simp
  | succ n ih =>
    obtain ⟨depth, rfl⟩ := Nat.exists_eq_add_of_le' (show 1 ≤ depth by omega)
    have hzero : sets (turn 0) = set := hsets 0 (by omega)
    have hother : ∀ i < n, turn (i + 1) ≠ turn 0 := fun i hi hsame ↦
      hfirst (i + 1) (by omega) 0 (by omega) hsame.symm
    have hadded : record least element (depth + 1) turn sets = record least element depth
        (fun i ↦ turn (i + 1)) (update sets (turn 0) (insert element set)) := by
      rw [record_succ_of_enough (hzero ▸ hnew) (by omega), hzero]
    rw [hadded]
    intro i hi
    cases i with
    | zero =>
      rw [record_of_mem (by simp), update_self]
    | succ i =>
      refine ih (by omega) (fun k hk j hj ↦ hfirst (k + 1) (by omega) (j + 1) (by omega))
        (fun k hk ↦ ?_) i (by omega)
      rw [update_of_ne (hother k hk)]
      exact hsets (k + 1) (by omega)

theorem IsShared.enter (hleast : least ≤ 1) (hshared : IsShared n set rotating) (hn : n ≤ depth)
    (hnew : element ∉ set) :
    IsShared n (insert element set) (rotating.enter least depth element) :=
  ⟨hshared.isFirst, record_shared hleast hnew hn hshared.isFirst hshared.sets_eq⟩

omit [DecidableEq α] in
theorem IsShared.rotate (hshared : IsShared (n + 1) set rotating) :
    IsShared n set rotating.rotate := by
  refine ⟨fun i hi j hj ↦ hshared.isFirst (i + 1) (by omega) (j + 1) (by omega), fun i hi ↦ ?_⟩
  have hother : rotating.turn (i + 1) ≠ rotating.turn 0 := fun hsame ↦
    hshared.isFirst (i + 1) (by omega) 0 (by omega) hsame.symm
  exact (update_of_ne hother _ _).trans (hshared.sets_eq (i + 1) (by omega))

/-- New elements fill equal sets beyond `hot`, one more for every rotation. -/
theorem visits_shared (hleast : least ≤ 1) (hshared : IsShared (n + 1) set rotating)
    (hn : n + 1 ≤ depth) (hnodup : elements.Nodup) (hnew : ∀ element ∈ elements, element ∉ set)
    (hfew : elements.length + min set.card (hot + 1) ≤ hot + (n + 1)) :
    (rotating.visits hot least depth elements).inUse = set ∪ elements.toFinset := by
  induction elements generalizing rotating set n with
  | nil =>
    rw [List.toFinset_nil, Finset.union_empty]
    exact hshared.sets_eq 0 (by omega)
  | cons first rest ih =>
    have hfirst : first ∉ set := hnew first List.mem_cons_self
    have hstill := notMem_insert_of_nodup hnodup hnew
    have hcard := Finset.card_insert_of_notMem hfirst
    have hrest := (List.nodup_cons.mp hnodup).2
    have hinUse : rotating.inUse = set := hshared.sets_eq 0 (by omega)
    have hunion : insert first set ∪ rest.toFinset = set ∪ (first :: rest).toFinset := by
      rw [List.toFinset_cons, Finset.insert_union, Finset.union_insert]
    rw [List.length_cons] at hfew
    rw [visits, List.foldl_cons, ← visits, ← hunion]
    rcases Nat.lt_or_ge hot set.card with hworn | hworn
    · obtain ⟨n, rfl⟩ := Nat.exists_eq_add_of_le' (show 1 ≤ n by omega)
      have hrenewed : rotating.renew hot = rotating.rotate := if_pos (hinUse.symm ▸ hworn)
      have hentered := hshared.rotate.enter hleast (by omega : n + 1 ≤ depth) hfirst
      rw [RotatingSets.visit, hrenewed]
      exact ih hentered (by omega) hrest hstill (by omega)
    · have hrenewed : rotating.renew hot = rotating :=
        if_neg (hinUse.symm ▸ Nat.not_lt.mpr hworn)
      have hentered := hshared.enter hleast hn hfirst
      rw [RotatingSets.visit, hrenewed]
      exact ih hentered hn hrest hstill (by omega)

end RotatingSets

end TdhSocket.Library
