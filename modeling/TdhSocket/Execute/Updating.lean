import Mathlib.Data.Prod.Lex
import TdhSocket.Execute.Reading
import TdhSocket.Execute.UpdateRound

/-!
# UPDATE along the index it changes

The visits that a request plans are those of the rows it wants before it, from its start on and
each row once (`touches`), and it handles as many as its limit allows. The loop keeps to that plan
until it comes to a row again that it has changed (`IsOnTrack`). `EndsInTime` says of the rows
before the request that the loop is over earlier, and `update_touches_once` that this is when it
ends with at most one call of `ha_update_row` for a row.
-/

set_option autoImplicit false

namespace TdhSocket.Execute

open Protocol Decode Library

variable {Outside Record Place : Type} [LinearOrder Place]

/-! ### The visits of a request -/

namespace Job

section Planned

variable (job : Job Record Place)

/-- The rows in the direction of the scan. -/
def inOrder : List (Entry Record) :=
  let sorted := job.initial.insertionSort (Order.Preimage job.index.place (· ≤ ·))
  if isBack job.plan.get.findFlag then sorted.reverse else sorted

/-- The visits of the loop on a table that does not change. -/
def visits : List (Visit Record) :=
  (List.range (job.plan.get.keyNum + 1)).flatMap fun key ↦
    (job.inOrder.map (Prod.mk key)).filter fun visit ↦ decide (job.IsSought visit)

/-- The visits with the first one of each row. -/
def firstVisits (visits : List (Visit Record)) : List (Visit Record) :=
  visits.eraseDupsBy fun visit other ↦ visit.2.id == other.2.id

/-- The visits at which the rows are to be changed, once each, from the start of the request on. -/
def touches : List (Visit Record) :=
  firstVisits (job.visits.drop job.plan.get.start)

/-- The visits of a row again as it is after a visit. -/
def returns (visit : Visit Record) : List (Visit Record) :=
  (job.applied visit.2).toList.flatMap fun new ↦
    ((List.range (job.plan.get.keyNum + 1)).map fun key ↦ (key, ⟨visit.2.id, new⟩)).filter
      fun again ↦ decide (job.IsSought again ∧ job.Precedes visit again)

/-- The visit that reaches the limit, and those of rows that cannot be changed. -/
def stops : List (Visit Record) :=
  (if job.plan.get.limit = 0 then none else job.touches[job.plan.get.limit - 1]?).toList ++
    (job.touches ++ job.touches.flatMap job.returns).filter fun visit ↦
      (job.applied visit.2).isNone

/-- The loop has ended before it changes a row again. -/
def EndsInTime : Prop :=
  ∀ visit ∈ job.touches, ∀ again ∈ job.returns visit, job.applied again.2 ≠ none →
    ∃ last ∈ job.stops, job.Precedes last again

instance : Decidable job.EndsInTime :=
  inferInstanceAs (Decidable (∀ visit ∈ job.touches, _))

variable {job} {visit again : Visit Record}

theorem mem_visits : visit ∈ job.visits ↔ visit.2 ∈ job.initial ∧ job.IsSought visit := by
  have hmem : ∀ entry, entry ∈ job.inOrder ↔ entry ∈ job.initial := by
    intro entry
    unfold inOrder
    split_ifs <;> simp
  simp only [visits, List.mem_flatMap, List.mem_range, List.mem_filter, List.mem_map, hmem,
    decide_eq_true_eq]
  constructor
  · rintro ⟨key, -, ⟨entry, hentry, rfl⟩, hsought⟩
    exact ⟨hentry, hsought⟩
  · rintro ⟨hentry, hsought⟩
    exact ⟨visit.1, hsought.1.lt, ⟨visit.2, hentry, rfl⟩, hsought⟩

theorem mem_returns : again ∈ job.returns visit ↔
    ∃ new, job.applied visit.2 = some new ∧ again.2 = ⟨visit.2.id, new⟩ ∧
      job.IsSought again ∧ job.Precedes visit again := by
  simp only [returns, List.mem_flatMap, Option.mem_toList, List.mem_filter, List.mem_map,
    List.mem_range, decide_eq_true_eq]
  constructor
  · rintro ⟨new, hnew, ⟨key, -, rfl⟩, hagain⟩
    exact ⟨new, hnew, rfl, hagain⟩
  · rintro ⟨new, hnew, hrow, hagain⟩
    exact ⟨new, hnew, ⟨again.1, hagain.1.1.lt, Prod.ext rfl hrow.symm⟩, hagain⟩

theorem mem_stops {last : Visit Record} : last ∈ job.stops ↔
    (job.plan.get.limit ≠ 0 ∧ job.touches[job.plan.get.limit - 1]? = some last) ∨
      ((last ∈ job.touches ∨ ∃ visit ∈ job.touches, last ∈ job.returns visit) ∧
        job.applied last.2 = none) := by
  simp [stops, Option.mem_toList, or_and_right]

theorem pairwise_visits (hdistinct : IsDistinct job.initial) :
    job.visits.Pairwise job.Precedes := by
  have hsorted : (job.initial.insertionSort (Order.Preimage job.index.place (· ≤ ·))).Pairwise
      fun first later ↦ job.index.place first < job.index.place later := by
    have hperm := List.perm_insertionSort (Order.Preimage job.index.place (· ≤ ·)) job.initial
    have hids := List.pairwise_map.mp ((hperm.map Entry.id).nodup_iff.mpr hdistinct)
    refine ((List.pairwise_insertionSort _ job.initial).and hids).imp fun h ↦ ?_
    exact lt_of_le_of_ne h.1 fun hplace ↦ h.2 (job.index.place_id _ _ hplace)
  have horder : job.inOrder.Pairwise fun first later ↦
      job.index.beyond (isBack job.plan.get.findFlag) first later = true := by
    unfold inOrder RowIndex.beyond
    cases isBack job.plan.get.findFlag with
    | false => simpa using hsorted
    | true => simpa [List.pairwise_reverse] using hsorted
  refine List.pairwise_flatMap.mpr ⟨fun key _ ↦ ?_, ?_⟩
  · refine List.Pairwise.filter _ (List.pairwise_map.mpr (horder.imp fun hbeyond ↦ ?_))
    exact Or.inr ⟨rfl, hbeyond⟩
  · refine List.pairwise_lt_range.imp fun hlt visit hvisit later hlater ↦ Or.inl ?_
    obtain ⟨-, -, rfl⟩ := List.mem_map.mp (List.mem_filter.mp hvisit).1
    obtain ⟨-, -, rfl⟩ := List.mem_map.mp (List.mem_filter.mp hlater).1
    exact hlt

theorem mem_of_mem_firstVisits {visits : List (Visit Record)}
    (hvisit : visit ∈ firstVisits visits) : visit ∈ visits := by
  induction hsize : visits.length using Nat.strong_induction_on generalizing visits with
  | _ size ih =>
    cases visits with
    | nil => exact hvisit
    | cons first visits =>
      rw [firstVisits, List.eraseDupsBy_cons, List.mem_cons] at hvisit
      rcases hvisit with rfl | hvisit
      · exact List.mem_cons_self
      · refine List.mem_cons_of_mem _ (List.mem_of_mem_filter (ih _ ?_ hvisit rfl))
        exact (List.length_filter_le _ visits).trans_lt (hsize ▸ Nat.lt_succ_self _)

end Planned

/-! ### How far the loop is -/

section OnTrack

variable {world : World Outside Record} {view : Outside → TableState Record}
  {job : Job Record Place} {vars : FindVars}
  {before middle after : TableState Record} {entry : Entry Record} {done rest : List (Visit Record)}
  {visit again : Visit Record}

/-- `ha_update_row` was called at most once for a row, and only for rows of the request. -/
structure TouchedOnly (job : Job Record Place) (touched : List ℕ) : Prop where
  nodup : touched.Nodup
  matched : ∀ id ∈ touched, ∃ entry ∈ job.initial, entry.id = id ∧
    ∃ key, job.IsSought (key, entry)

/-- The loop has changed the rows of the visits `done`, and comes to the visits `rest` of others. It
comes to a changed row as well, where that is sought and behind its visit. -/
structure IsOnTrack (job : Job Record Place) (done rest : List (Visit Record)) (vars : FindVars)
    (state : TableState Record) : Prop extends job.InScan vars state where
  planned : job.touches = done ++ firstVisits (rest.drop vars.skip)
  touched_eq : state.touched = done.map fun visit ↦ visit.2.id
  nodup : state.touched.Nodup
  skipping : 0 < vars.skip → done = []
  limit_eq : job.plan.get.limit ≠ 0 → done.length + vars.limit = job.plan.get.limit
  sorted : rest.Pairwise job.Precedes
  mem_rest : ∀ visit, visit ∈ rest ↔
    job.Comes vars.isFirst vars.inIndex state visit ∧ visit.2.id ∉ state.touched
  past : ∀ visit ∈ done, ∀ later, job.Comes vars.isFirst vars.inIndex state later →
    job.Precedes visit later
  changed : ∀ visit ∈ done, ∃ new, job.applied visit.2 = some new ∧
    ⟨visit.2.id, new⟩ ∈ state.entries
  again : ∀ visit ∈ done, ∀ later ∈ job.returns visit,
    job.Comes vars.isFirst vars.inIndex state later

theorem exists_matched (hvisit : visit ∈ job.touches) :
    ∃ entry ∈ job.initial, entry.id = visit.2.id ∧ ∃ key, job.IsSought (key, entry) := by
  obtain ⟨hentry, hsought⟩ := mem_visits.mp (List.mem_of_mem_drop (mem_of_mem_firstVisits hvisit))
  exact ⟨visit.2, hentry, rfl, visit.1, hsought⟩

section

variable (htrack : job.IsOnTrack done rest vars before)

include htrack

/-- The loop comes to the planned visits that are not done. -/
theorem IsOnTrack.comes (hvisit : visit ∈ firstVisits (rest.drop vars.skip)) :
    job.Comes vars.isFirst vars.inIndex before visit :=
  ((htrack.mem_rest visit).mp (List.mem_of_mem_drop (mem_of_mem_firstVisits hvisit))).1

/-- The loop comes to a row again, or has the first visit still before it. -/
theorem IsOnTrack.comes_again (hvisit : visit ∈ job.touches) (hagain : again ∈ job.returns visit) :
    job.Comes vars.isFirst vars.inIndex before again ∨
      (job.Comes vars.isFirst vars.inIndex before visit ∧ job.Precedes visit again) := by
  rw [htrack.planned, List.mem_append] at hvisit
  rcases hvisit with hdone | hupcoming
  · exact Or.inl (htrack.again visit hdone again hagain)
  · obtain ⟨new, -, -, -, hprecedes⟩ := mem_returns.mp hagain
    exact Or.inr ⟨htrack.comes hupcoming, hprecedes⟩

theorem IsOnTrack.touchedOnly : job.TouchedOnly before.touched := by
  refine ⟨htrack.nodup, fun id hid ↦ ?_⟩
  rw [htrack.touched_eq] at hid
  obtain ⟨visit, hvisit, rfl⟩ := List.mem_map.mp hid
  exact exists_matched (htrack.planned ▸ List.mem_append_left _ hvisit)

/-- A round that changes neither the visits to come nor the rows. -/
theorem IsOnTrack.of_comes {next : FindVars} (hscan : job.InScan next after)
    (hlimit : next.limit = vars.limit) (hskip : next.skip = vars.skip)
    (hentries : after.entries = before.entries) (htouched : after.touched = before.touched)
    (hcomes : ∀ visit, job.Comes vars.isFirst vars.inIndex before visit ↔
      job.Comes next.isFirst next.inIndex after visit) : job.IsOnTrack done rest next after := by
  refine ⟨hscan, hskip ▸ htrack.planned, htouched ▸ htrack.touched_eq, htouched ▸ htrack.nodup,
    hskip ▸ htrack.skipping, hlimit ▸ htrack.limit_eq, htrack.sorted, ?_, ?_,
    hentries ▸ htrack.changed, ?_⟩ <;> simp only [← hcomes, htouched]
  · exact htrack.mem_rest
  · exact htrack.past
  · exact htrack.again

/-- The loop ends early enough when no visit comes any more. -/
theorem IsOnTrack.endsInTime_of_none
    (hnone : ∀ visit, ¬ job.Comes vars.isFirst vars.inIndex before visit) : job.EndsInTime := by
  intro visit hvisit again hagain _
  rcases htrack.comes_again hvisit hagain with hcomes | ⟨hcomes, -⟩
  · exact absurd hcomes (hnone again)
  · exact absurd hcomes (hnone visit)

/-- The loop ends early enough at its limit. -/
theorem IsOnTrack.endsInTime_of_isFull (hfull : job.IsFull vars) : job.EndsInTime := by
  obtain ⟨hlimit, hzero⟩ := hfull
  have hlast : job.plan.get.limit - 1 < done.length := by
    have hlength := htrack.limit_eq hlimit
    omega
  intro visit hvisit again hagain _
  refine ⟨done.get ⟨_, hlast⟩, mem_stops.mpr (Or.inl ⟨hlimit, ?_⟩), ?_⟩
  · rw [htrack.planned, List.getElem?_append_left hlast]
    exact List.getElem?_eq_getElem hlast
  · rcases htrack.comes_again hvisit hagain with hcomes | ⟨hcomes, hprecedes⟩
    · exact htrack.past _ (List.get_mem _ _) _ hcomes
    · exact (htrack.past _ (List.get_mem _ _) _ hcomes).trans hprecedes

end

/-! ### A row is read -/

section Read

variable (htrack : job.IsOnTrack done rest vars before)
  (hread : job.ReadsRow vars before middle entry) (hpasses : job.passes entry)

include htrack hread hpasses

theorem IsOnTrack.comes_read :
    job.Comes vars.isFirst vars.inIndex before (vars.inIndex, entry) :=
  ⟨⟨htrack.hasKey, hread.ahead.matchesAt htrack.scanning, hpasses⟩, Or.inl ⟨rfl, hread.ahead⟩⟩

/-- A row that is not touched is the next of the visits that come. -/
theorem IsOnTrack.rest_eq (huntouched : entry.id ∉ before.touched) :
    ∃ later, rest = (vars.inIndex, entry) :: later := by
  have hmem := (htrack.mem_rest _).mpr ⟨htrack.comes_read hread hpasses, huntouched⟩
  cases hrest : rest with
  | nil => exact absurd (hrest ▸ hmem) List.not_mem_nil
  | cons first later =>
    have hsorted := htrack.sorted
    rw [hrest] at hmem hsorted
    rcases List.mem_cons.mp hmem with rfl | hlater
    · exact ⟨later, rfl⟩
    · -- the first visit of the list precedes the row read, which no visit that comes does
      have hfirst := ((htrack.mem_rest first).mp (hrest ▸ List.mem_cons_self)).1
      exact absurd ((List.pairwise_cons.mp hsorted).1 _ hlater) (hread.not_precedes hfirst)

theorem IsOnTrack.mem_touches (hskip : vars.skip = 0) (huntouched : entry.id ∉ before.touched) :
    (vars.inIndex, entry) ∈ job.touches := by
  obtain ⟨later, hrest⟩ := htrack.rest_eq hread hpasses huntouched
  rw [htrack.planned, hrest, hskip, List.drop_zero, firstVisits, List.eraseDupsBy_cons]
  exact List.mem_append_right _ List.mem_cons_self

/-- A row that is touched is read as it was changed. -/
theorem IsOnTrack.exists_returns (htouched : entry.id ∈ before.touched) :
    ∃ visit ∈ job.touches, (vars.inIndex, entry) ∈ job.returns visit := by
  have hcomes := htrack.comes_read hread hpasses
  rw [htrack.touched_eq] at htouched
  obtain ⟨visit, hdone, hid⟩ := List.mem_map.mp htouched
  obtain ⟨new, happlied, hnew⟩ := htrack.changed visit hdone
  exact ⟨visit, htrack.planned ▸ List.mem_append_left _ hdone, mem_returns.mpr
    ⟨new, happlied, htrack.distinct.eq_of_id hread.ahead.1 hnew hid.symm, hcomes.1,
      htrack.past visit hdone _ hcomes⟩⟩

/-- The loop ends early enough at a row that cannot be changed. -/
theorem IsOnTrack.endsInTime_of_stop (hskip : vars.skip = 0)
    (happlied : job.applied entry = none) : job.EndsInTime := by
  intro visit hvisit again hagain hstores
  refine ⟨(vars.inIndex, entry), mem_stops.mpr (Or.inr ⟨?_, happlied⟩), ?_⟩
  · by_cases htouched : entry.id ∈ before.touched
    · exact Or.inr (htrack.exists_returns hread hpasses htouched)
    · exact Or.inl (htrack.mem_touches hread hpasses hskip htouched)
  · rcases htrack.comes_again hvisit hagain with hcomes | ⟨hcomes, hprecedes⟩
    · refine hread.precedes hcomes ?_
      rintro rfl
      exact hstores happlied
    · refine (hread.precedes hcomes ?_).trans hprecedes
      rintro rfl
      obtain ⟨new, hnew, -⟩ := mem_returns.mp hagain
      cases happlied.symm.trans hnew

/-- A row that is touched is changed again only where the loop does not end early enough. -/
theorem IsOnTrack.not_endsInTime (htouched : entry.id ∈ before.touched)
    (hstores : job.applied entry ≠ none) : ¬ job.EndsInTime := by
  intro hends
  obtain ⟨visit, hvisit, hagain⟩ := htrack.exists_returns hread hpasses htouched
  obtain ⟨last, hlast, hprecedes⟩ := hends visit hvisit _ hagain hstores
  -- a stop that precedes the row read would have to come, or to be a row changed already
  rcases mem_stops.mp hlast with ⟨hlimit, hget⟩ | ⟨hstop | ⟨other, hother, hstop⟩, hnone⟩
  · have hmore : done.length ≤ job.plan.get.limit - 1 := by
      have hleft : vars.limit ≠ 0 := fun hzero ↦ hread.more ⟨hlimit, hzero⟩
      have hlength := htrack.limit_eq hlimit
      omega
    rw [htrack.planned, List.getElem?_append_right hmore] at hget
    exact hread.not_precedes (htrack.comes (List.mem_of_getElem? hget)) hprecedes
  · rw [htrack.planned, List.mem_append] at hstop
    rcases hstop with hdone | hupcoming
    · obtain ⟨new, hnew, -⟩ := htrack.changed last hdone
      cases hnone.symm.trans hnew
    · exact hread.not_precedes (htrack.comes hupcoming) hprecedes
  · rcases htrack.comes_again hother hstop with hcomes | ⟨hcomes, hback⟩
    · exact hread.not_precedes hcomes hprecedes
    · exact hread.not_precedes hcomes (hback.trans hprecedes)

omit hpasses in
/-- The visits that come behind the next one. -/
theorem IsOnTrack.mem_later {later : List (Visit Record)}
    (hrest : rest = (vars.inIndex, entry) :: later) :
    visit ∈ later ↔ job.Comes false vars.inIndex middle visit ∧ visit.2.id ∉ before.touched := by
  have hmem := htrack.mem_rest visit
  have hsorted := htrack.sorted
  rw [hrest] at hmem hsorted
  rw [List.mem_cons, hread.comes_iff] at hmem
  constructor
  · intro hlater
    obtain ⟨hcomes, hnot⟩ := hmem.mp (Or.inr hlater)
    refine ⟨hcomes.resolve_left ?_, hnot⟩
    rintro ⟨rfl, -⟩
    exact not_precedes_self _ ((List.pairwise_cons.mp hsorted).1 _ hlater)
  · rintro ⟨hcomes, hnot⟩
    refine (hmem.mpr ⟨Or.inr hcomes, hnot⟩).resolve_left ?_
    rintro rfl
    exact not_precedes_self _ (hcomes.precedes hread.cursor_eq)

/-- A row that is skipped. -/
theorem IsOnTrack.skip (hskip : 0 < vars.skip)
    (hscan : job.InScan { vars with isFirst := false, r := 0, skip := vars.skip - 1 } middle) :
    ∃ later, job.IsOnTrack done later
      { vars with isFirst := false, r := 0, skip := vars.skip - 1 } middle := by
  obtain rfl := htrack.skipping hskip
  have huntouched : entry.id ∉ before.touched := by simp [htrack.touched_eq]
  obtain ⟨later, hrest⟩ := htrack.rest_eq hread hpasses huntouched
  have hplanned := htrack.planned
  rw [hrest, ← Nat.sub_add_cancel hskip, List.drop_succ_cons] at hplanned
  exact ⟨later, hscan, hplanned, hread.touched_eq ▸ htrack.touched_eq,
    hread.touched_eq ▸ htrack.nodup, fun _ ↦ rfl, htrack.limit_eq, (hrest ▸ htrack.sorted).of_cons,
    fun visit ↦ hread.touched_eq ▸ htrack.mem_later hread hrest, by simp, by simp, by simp⟩

/-- A row that is changed for the first time. -/
theorem IsOnTrack.update {new : Record} (hskip : vars.skip = 0)
    (huntouched : entry.id ∉ before.touched) (happlied : job.applied entry = some new)
    (hnodup : (middle.change entry new).touched.Nodup)
    (hscan : job.InScan { vars with isFirst := false, r := 0, limit := vars.limit - 1 }
      (middle.change entry new)) :
    ∃ done later,
      job.IsOnTrack done later { vars with isFirst := false, r := 0, limit := vars.limit - 1 }
        (middle.change entry new) := by
  have hcomes := htrack.comes_read hread hpasses
  obtain ⟨later, hrest⟩ := htrack.rest_eq hread hpasses huntouched
  have htouched := hread.touched_change new
  have hentry : entry ∈ middle.entries := hread.entries_eq ▸ hread.ahead.1
  have hother : ∀ visit ∈ done, visit.2.id ≠ entry.id := by
    rw [htrack.touched_eq] at huntouched
    exact fun visit hdone hid ↦ huntouched (hid ▸ List.mem_map_of_mem hdone)
  have hplanned := htrack.planned
  rw [hrest, hskip, List.drop_zero, firstVisits, List.eraseDupsBy_cons] at hplanned
  refine ⟨done ++ [(vars.inIndex, entry)],
    later.filter fun visit ↦ decide ((visit.2.id == entry.id) = false), hscan, ?_, ?_, hnodup, ?_,
    fun hlimit ↦ ?_, ((hrest ▸ htrack.sorted).of_cons).filter _, fun visit ↦ ?_, ?_, ?_, ?_⟩
  · rw [hplanned, hskip, List.append_assoc]
    rfl
  · rw [htouched, htrack.touched_eq, List.map_append]
    rfl
  · exact fun hpos ↦ absurd hskip hpos.ne'
  · have hleft : vars.limit ≠ 0 := fun hzero ↦ hread.more ⟨hlimit, hzero⟩
    have hlength := htrack.limit_eq hlimit
    rw [List.length_append, List.length_singleton]
    dsimp only
    omega
  · rw [List.mem_filter, htrack.mem_later hread hrest, htouched]
    by_cases hid : visit.2.id = entry.id
    · simp [hid]
    · rw [← comes_change_iff hid]
      simp [hid]
  · refine List.forall_mem_append.mpr ⟨fun visit hdone later hlater ↦ ?_,
      List.forall_mem_singleton.mpr fun later hlater ↦ hlater.precedes hread.cursor_eq⟩
    exact (htrack.past visit hdone _ hcomes).trans (hlater.precedes hread.cursor_eq)
  · refine List.forall_mem_append.mpr ⟨fun visit hdone ↦ ?_,
      List.forall_mem_singleton.mpr ⟨new, happlied, mem_replaceRow_self hentry⟩⟩
    obtain ⟨old, hold, hmem⟩ := htrack.changed visit hdone
    have hid : (⟨visit.2.id, old⟩ : Entry Record).id ≠ entry.id := hother visit hdone
    exact ⟨old, hold, (mem_replaceRow_iff hid).mpr (hread.entries_eq ▸ hmem)⟩
  · refine List.forall_mem_append.mpr ⟨fun visit hdone later hlater ↦ ?_,
      List.forall_mem_singleton.mpr fun later hlater ↦ ?_⟩ <;>
      obtain ⟨old, hold, hrow, hsought, hprecedes⟩ := mem_returns.mp hlater
    · have hid : later.2.id ≠ entry.id := hrow ▸ hother visit hdone
      have hcomes := hread.comes_iff.mp (htrack.again visit hdone later hlater)
      rw [or_iff_right fun h ↦ hid (congrArg (fun visit ↦ visit.2.id) h.1)] at hcomes
      exact (comes_change_iff hid).mp hcomes
    · cases happlied.symm.trans hold
      exact comes_changed hread.cursor_eq hentry hrow hsought hprecedes

end Read

/-! ### The rounds left -/

/-- The number of rows beyond the cursor, and more than all before the first read. -/
def rowsBeyond (job : Job Record Place) (isFirst : Bool) (state : TableState Record) : ℕ :=
  if isFirst then state.entries.length + 1
  else (state.entries.filter fun entry ↦ state.cursor.elim false fun current ↦
    job.index.beyond (isBack job.plan.get.findFlag) current entry).length

/-- What gets less from round to round: the keys, the visits planned and not done, the rows beyond
the cursor. -/
def roundsLeft (job : Job Record Place) (vars : FindVars) (state : TableState Record) :
    ℕ ×ₗ ℕ ×ₗ ℕ :=
  toLex (job.plan.get.keyNum - vars.inIndex,
    toLex (job.touches.length - state.touched.length, job.rowsBeyond vars.isFirst state))

theorem ReadsRow.rowsBeyond_lt (hread : job.ReadsRow vars before after entry) :
    job.rowsBeyond false after < job.rowsBeyond vars.isFirst before := by
  simp only [rowsBeyond, Bool.false_eq_true, if_false, hread.cursor_eq, hread.entries_eq,
    Option.elim_some]
  obtain ⟨hentry, -, hplace⟩ := hread.ahead
  cases hfirst : vars.isFirst with
  | true => exact Nat.lt_succ_of_le (List.length_filter_le _ _)
  | false =>
    rw [hfirst] at hplace
    obtain ⟨current, hcursor, hbeyond⟩ := hplace
    simp only [Bool.false_eq_true, if_false, hcursor, Option.elim_some]
    have hfewer := List.monotone_filter_right before.entries fun other
      (hother : job.index.beyond _ entry other = true) ↦ beyond_trans hbeyond hother
    refine lt_of_le_of_ne hfewer.length_le fun hsame ↦ ?_
    have hself := hfewer.eq_of_length hsame ▸ List.mem_filter.mpr ⟨hentry, hbeyond⟩
    simp [not_beyond_self] at hself

/-- A read leaves fewer rounds. -/
theorem ReadsRow.roundsLeft_lt {next : FindVars}
    (hread : job.ReadsRow vars before after entry) (hfirst : next.isFirst = false)
    (hindex : next.inIndex = vars.inIndex) :
    job.roundsLeft next after < job.roundsLeft vars before := by
  rw [roundsLeft, roundsLeft, Prod.Lex.toLex_lt_toLex, Prod.Lex.toLex_lt_toLex, hindex, hfirst,
    hread.touched_eq]
  exact Or.inr ⟨rfl, Or.inr ⟨rfl, hread.rowsBeyond_lt⟩⟩

/-! ### A round -/

section Round

variable (htrack : job.IsOnTrack done rest vars before)

include htrack

/-- A call of `ha_update_row`: for a row that is touched, or for the next one that is planned. -/
theorem IsOnTrack.call (hread : job.ReadsRow vars before middle entry)
    (hpasses : job.passes entry) (hskip : vars.skip = 0) (hstores : job.applied entry ≠ none)
    (htouched : after.touched = before.touched ++ [entry.id]) :
    (¬ job.EndsInTime ∧ ¬ after.touched.Nodup) ∨
      (entry.id ∉ before.touched ∧ job.TouchedOnly after.touched) := by
  by_cases htouch : entry.id ∈ before.touched
  · refine Or.inl ⟨htrack.not_endsInTime hread hpasses htouch hstores, fun hnodup ↦ ?_⟩
    rw [htouched, List.nodup_append] at hnodup
    exact hnodup.2.2 _ htouch _ (List.mem_singleton_self _) rfl
  · refine Or.inr ⟨htouch, ?_⟩
    rw [htouched]
    refine ⟨htrack.nodup.append (List.nodup_singleton _) (by simpa using htouch),
      List.forall_mem_append.mpr ⟨htrack.touchedOnly.matched, List.forall_mem_singleton.mpr ?_⟩⟩
    exact exists_matched (htrack.mem_touches hread hpasses hskip htouch)

/-- A round keeps the loop on its track and leaves fewer rounds, leaves the loop with what was
promised, or changes a row a second time. -/
theorem IsOnTrack.round {next : FindVars ⊕ FindExit}
    (hdoes : job.RoundDoes world view vars before next after) :
    (¬ job.EndsInTime ∧ ¬ after.touched.Nodup) ∨
      Sum.elim (fun vars' ↦ (∃ done rest, job.IsOnTrack done rest vars' after) ∧
          job.roundsLeft vars' after < job.roundsLeft vars before)
        (fun _ ↦ job.TouchedOnly after.touched ∧
          (Undisturbed world view job.plan.table → job.EndsInTime)) next := by
  obtain ⟨-, hscan⟩ := hdoes.keeps htrack.toInScan
  cases hdoes with
  | leaves exit after hreason htouched =>
    refine Or.inr ⟨htouched ▸ htrack.touchedOnly, fun hcalm ↦ ?_⟩
    rcases hreason with hfull | hnot | ⟨hnone, hlast⟩
    · exact htrack.endsInTime_of_isFull hfull
    · exact absurd hcalm hnot
    · refine htrack.endsInTime_of_none fun visit hcomes ↦ ?_
      rcases hcomes.2 with ⟨-, hahead⟩ | ⟨hlt, -⟩
      · exact hnone _ hahead
      · exact hlast (hcomes.1.1 _ hlt)
  | goesOn r after hnone hmore hentries htouched =>
    refine Or.inr ⟨⟨done, rest, htrack.of_comes hscan rfl rfl hentries htouched fun visit ↦
      comes_nextKey_iff hentries hnone⟩, ?_⟩
    have hless := hmore.2.1
    rw [roundsLeft, roundsLeft, Prod.Lex.toLex_lt_toLex]
    exact Or.inl (by dsimp only; omega)
  | filtersOut after entry hread hfails =>
    refine Or.inr ⟨⟨done, rest, htrack.of_comes hscan rfl rfl hread.entries_eq hread.touched_eq
      fun visit ↦ hread.comes_iff.trans (or_iff_right ?_)⟩, hread.roundsLeft_lt rfl rfl⟩
    rintro ⟨rfl, hsought⟩
    exact hfails hsought.2.2
  | skips after entry hread hpasses hskip =>
    exact Or.inr ⟨⟨done, htrack.skip hread hpasses hskip hscan⟩, hread.roundsLeft_lt rfl rfl⟩
  | fails exit middle after entry hread hpasses hskip hreason =>
    rcases hreason with ⟨happlied, htouched⟩ | ⟨hstores, hnot, htouched⟩
    · exact Or.inr ⟨htouched ▸ htrack.touchedOnly, fun _ ↦
        htrack.endsInTime_of_stop hread hpasses hskip happlied⟩
    · exact (htrack.call hread hpasses hskip hstores htouched).imp_right fun h ↦
        ⟨h.2, fun hcalm ↦ absurd hcalm hnot⟩
  | updates middle entry new hread hpasses hskip happlied =>
    have htouched := hread.touched_change new
    refine (htrack.call hread hpasses hskip
      (happlied ▸ Option.some_ne_none new) htouched).imp_right fun ⟨htouch, honly⟩ ↦ ?_
    obtain ⟨done', rest', htrack'⟩ :=
      htrack.update hread hpasses hskip htouch happlied honly.nodup hscan
    refine ⟨⟨done', rest', htrack'⟩, ?_⟩
    have hlength : (before.touched ++ [entry.id]).length ≤ job.touches.length := by
      rw [← htouched, htrack'.planned, htrack'.touched_eq, List.length_append, List.length_map]
      exact Nat.le_add_right _ _
    rw [List.length_append] at hlength
    rw [roundsLeft, roundsLeft, Prod.Lex.toLex_lt_toLex, Prod.Lex.toLex_lt_toLex, htouched,
      List.length_append]
    exact Or.inr ⟨rfl, Or.inl (Nat.sub_lt_sub_left hlength (Nat.lt_succ_self _))⟩

end Round

/-- The loop begins on its track. -/
theorem isOnTrack_visits {state : TableState Record} (hinitial : job.initial = state.entries)
    (hdistinct : IsDistinct state.entries) (huntouched : state.touched = []) :
    job.IsOnTrack [] job.visits ⟨true, job.plan.get.limit, job.plan.get.start, 0, 0⟩ state := by
  refine ⟨⟨hdistinct, (fun h ↦ nomatch h), fun _ h ↦ absurd h (Nat.not_lt_zero _)⟩, rfl,
    huntouched, huntouched ▸ List.nodup_nil, fun _ ↦ rfl, fun _ ↦ Nat.zero_add _,
    pairwise_visits (hinitial ▸ hdistinct), fun visit ↦ ?_, by simp, by simp, by simp⟩
  rw [comes_first_iff, mem_visits, huntouched, hinitial]
  simp [and_comm]

end OnTrack

end Job

/-! ### The update loop -/

section Updates

variable {world : World Outside Record} {index : RowIndex Record Place}
  {view : Outside → TableState Record} {plan : FindPlan Record} {values : TdhsRequestValues}
  {context : Context Outside Record}

/-- The loop of an UPDATE ends, and `ha_update_row` is called at most once for a row, and only for
rows that the request matched before it. -/
def TouchesOnce (world : World Outside Record) (owner : Owner) (index : RowIndex Record Place)
    (view : Outside → TableState Record) (plan : FindPlan Record) (values : TdhsRequestValues)
    (context : Context Outside Record) : Prop :=
  ∃ enough, ∀ rounds, enough ≤ rounds → ∃ exit final,
    Program.loop (findRound world owner (updateHandlers world owner values) plan) rounds
      ⟨true, plan.get.limit, plan.get.start, 0, 0⟩ context = some (exit, final) ∧
    (updateJob world index plan values (view context.outside).entries).TouchedOnly
      (view final.outside).touched

section

variable (hrewrites : Rewrites world plan.table plan.idxnum index view)
  (hpairs : ∀ pair ∈ updatePairs world plan values, pair.2.flag ≠ .now) (owner : Owner)
  (hdistinct : IsDistinct (view context.outside).entries)
  (huntouched : (view context.outside).touched = [])

include hrewrites hpairs hdistinct huntouched

theorem touchesOnce_of_endsInTime
    (hends : (updateJob world index plan values (view context.outside).entries).EndsInTime) :
    TouchesOnce world owner index view plan values context := by
  set job := updateJob world index plan values (view context.outside).entries
  obtain ⟨enough, exit, final, hloop, honly⟩ := Program.loop_returns
    (wellFounded_lt : WellFounded ((· < ·) : ℕ ×ₗ ℕ ×ₗ ℕ → ℕ ×ₗ ℕ ×ₗ ℕ → Prop))
    (fun vars (state : Context Outside Record) ↦ ∃ done rest,
      job.IsOnTrack done rest vars (view state.outside))
    (fun vars state ↦ job.roundsLeft vars (view state.outside))
    (fun vars state ⟨done, rest, htrack⟩ ↦ by
      obtain ⟨next, after, hround, hdoes⟩ :=
        Job.round_does hrewrites hpairs owner rfl htrack.toInScan
      exact ⟨next, after, hround, (htrack.round hdoes).resolve_left fun h ↦ h.1 hends⟩)
    ⟨[], _, Job.isOnTrack_visits rfl hdistinct huntouched⟩
  exact ⟨enough, fun rounds hrounds ↦ ⟨exit, final, Program.loop_of_le hloop hrounds, honly.1⟩⟩

theorem endsInTime_of_touchesOnce (hundisturbed : Undisturbed world view plan.table)
    (htouches : TouchesOnce world owner index view plan values context) :
    (updateJob world index plan values (view context.outside).entries).EndsInTime := by
  set job := updateJob world index plan values (view context.outside).entries
  obtain ⟨enough, hloop⟩ := htouches
  obtain ⟨exit, final, hreturns, honly⟩ := hloop enough le_rfl
  by_contra hlate
  refine absurd honly.nodup (@Program.triple_loop _ _ _ _
    (fun _ state ↦ ¬ (view state.outside).touched.Nodup)
    (fun vars (state : Context Outside Record) ↦
      (∃ done rest, job.IsOnTrack done rest vars (view state.outside)) ∨
        job.InScan vars (view state.outside) ∧ ¬ (view state.outside).touched.Nodup)
    (fun vars state next after hstate hround ↦ ?_) enough _ context exit final
    (Or.inl ⟨[], _, Job.isOnTrack_visits rfl hdistinct huntouched⟩) hreturns)
  -- on its track the loop would end early enough, and a row that is touched twice stays so
  have hscan := hstate.elim (fun ⟨_, _, htrack⟩ ↦ htrack.toInScan) And.left
  obtain ⟨next', after', hround', hdoes⟩ := Job.round_does hrewrites hpairs owner rfl hscan
  cases hround.symm.trans hround'
  obtain ⟨htouched, hkeeps⟩ := hdoes.keeps hscan
  have hstep : _ ∨ ¬ (view after.outside).touched.Nodup := hstate.elim
    (fun ⟨_, _, htrack⟩ ↦ (htrack.round hdoes).symm.imp_right And.right)
    fun h ↦ Or.inr fun hnodup ↦ h.2 (htouched.sublist.nodup hnodup)
  cases next with
  | inl vars' => exact hstep.imp And.left fun hrepeats ↦ ⟨hkeeps, hrepeats⟩
  | inr exit => exact hstep.resolve_left fun h ↦ hlate (h.2 hundisturbed)

/-- UPDATE touches each matching row at most once and ends, if its start, its limit or a value that
cannot be stored ends the loop before it changes a row again; where the storage engine takes every
change and the thread is not killed, only then. Assumes: the storage engine keeps the rows in the
index and changes them there, and no value is the current time. -/
theorem update_touches_once :
    ((updateJob world index plan values (view context.outside).entries).EndsInTime →
      TouchesOnce world owner index view plan values context) ∧
    (Undisturbed world view plan.table →
      (TouchesOnce world owner index view plan values context ↔
        (updateJob world index plan values (view context.outside).entries).EndsInTime)) := by
  have hsufficient := touchesOnce_of_endsInTime hrewrites hpairs owner hdistinct huntouched
  exact ⟨hsufficient, fun hundisturbed ↦ ⟨endsInTime_of_touchesOnce hrewrites hpairs owner hdistinct
    huntouched hundisturbed, hsufficient⟩⟩

end

end Updates

/-! ### A table that is kept in an index -/

section Tables

variable (value : Record → ℕ)

/-- The place of a row: by the numbers, and by the identities where they are equal. -/
def valuePlace (entry : Entry Record) : ℕ ×ₗ ℕ := toLex (value entry.record, entry.id)

/-- The comparison of a number with a key that is a text of digits. -/
def compareValue (key : List TdhsString) (record : Record) : Ordering :=
  Ord.compare (value record) (leadingNumber (key.headD []))

theorem compareValue_sorted (key : List TdhsString) (first later : Entry Record)
    (hplace : valuePlace value first ≤ valuePlace value later) :
    (compareValue value key first.record = .gt → compareValue value key later.record = .gt) ∧
      (compareValue value key later.record = .lt →
        compareValue value key first.record = .lt) := by
  have hvalues : value first.record ≤ value later.record := by
    rcases Prod.Lex.toLex_le_toLex.mp hplace with hlt | ⟨heq, -⟩
    · exact hlt.le
    · exact heq.le
  simp only [compareValue, Nat.compare_eq_gt, Nat.compare_eq_lt]
  omega

/-- An index of the numbers of the rows. -/
def valueRows : RowIndex Record (ℕ ×ₗ ℕ) :=
  ⟨valuePlace value, fun _ _ hplace ↦ congrArg Prod.snd (toLex.injective hplace),
    compareValue value, compareValue_sorted value⟩

/-- A world in which everything succeeds and that keeps a table in an index. -/
def rewritingWorld [Inhabited Record] (table : Table Record) : World (TableState Record) Record :=
  { calmWorld table default with
    index := fun _ _ call state ↦
      (((valueRows value).reached state call).elim (haErrEndOfFile, default) fun entry ↦
          (0, entry.record),
        { state with
          cursor := (valueRows value).reached state call
          endKey := rangeEnd state.endKey call })
    keyCmpIfSame := fun _ _ key record ↦ compareValue value key record != .eq
    row := fun _ call state ↦
      match call with
      | .haUpdateRow _ new => (0, state.cursor.elim state fun entry ↦ state.change entry new)
      | _ => (0, state) }

theorem rewrites_rewritingWorld [Inhabited Record] (opened table : Table Record) (idxnum : ℕ) :
    Rewrites (rewritingWorld value opened) table idxnum (valueRows value) id where
  found call state entry hreached := by
    rw [id] at hreached
    simp only [rewritingWorld, id, hreached, Option.elim_some, and_self]
  notFound call state hreached := by
    rw [id] at hreached
    simp only [rewritingWorld, id, hreached, Option.elim_none]
    exact ⟨Or.inr rfl, none, rfl⟩
  keyCmp _ _ := rfl
  killed_view _ := rfl
  row_code _ _ _ _ := (by decide : (0 : ℤ) ≠ haErrRecordDeleted)
  row_same _ _ _ _ hsame := absurd hsame (by decide : (0 : ℤ) ≠ haErrRecordIsTheSame)
  row_view entry new state hcursor := by
    rw [id] at hcursor
    simp only [rewritingWorld, id, hcursor, Option.elim_some, if_true, TableState.change]

/-- A request thread before the loop, with the positions of the rows as identities. -/
def tableContext (records : List Record) : Context (TableState Record) Record :=
  ⟨⟨records.mapIdx fun id record ↦ ⟨id, record⟩, none, [], []⟩, true, false, false, .ok, 0, 0,
    fun _ ↦ ⟨0, 0, [], []⟩, [], [], []⟩

theorem isDistinct_tableContext (records : List Record) :
    IsDistinct (tableContext records).outside.entries := by
  have hids : (tableContext records).outside.entries.map Entry.id = List.range records.length := by
    refine List.ext_getElem ?_ fun i _ _ ↦ ?_ <;> simp [tableContext]
  unfold IsDistinct
  rw [hids]
  exact List.nodup_range

end Tables

/-- The plan of an UPDATE of the numbers that digits are the keys of. -/
def numbersPlan (findFlag : FindFlag) (digits : List UInt8) (start limit : ℕ) : FindPlan ℕ :=
  planOf (findNumbers findFlag digits start limit) numberTable 0 [numberField] []

/-- The plan touches each of the numbers at most once with ADD 1 or SUB 1. -/
def TouchesNumbers (plan : FindPlan ℕ) (flag : UpdateFlag) (numbers : List ℕ) : Prop :=
  TouchesOnce (rewritingWorld id numberTable) ⟨0, 0⟩ (valueRows id) id plan ⟨1, [⟨flag, [49, 0]⟩]⟩
    (tableContext numbers)

theorem undisturbed_rewritingWorld (table : Table ℕ) :
    Undisturbed (rewritingWorld id numberTable) id table :=
  ⟨fun _ ↦ Bool.false_ne_true, fun _ _ _ _ ↦ Or.inl rfl⟩

/-- SUB 1 on the numbers from 1 on moves each row back, and touches each once. ADD 1 on the numbers
from 1 to 3 moves the row 1 ahead of the cursor, but behind a limit of 1, and a start of 1 leaves no
row. -/
theorem update_touches_once_byOne :
    TouchesNumbers (numbersPlan .ge [49] 0 0) .sub [1, 2, 3] ∧
    ¬ TouchesNumbers (numbersPlan .between [49, 51] 0 0) .add [1] ∧
    TouchesNumbers (numbersPlan .between [49, 51] 0 1) .add [1] ∧
    TouchesNumbers (numbersPlan .between [49, 51] 1 0) .add [1] := by
  have hiff : ∀ {plan : FindPlan ℕ} {flag : UpdateFlag} {numbers : List ℕ},
      (∀ pair ∈ updatePairs (rewritingWorld id numberTable) plan ⟨1, [⟨flag, [49, 0]⟩]⟩,
        pair.2.flag ≠ .now) →
      (TouchesNumbers plan flag numbers ↔
        (updateJob (rewritingWorld id numberTable) (valueRows id) plan ⟨1, [⟨flag, [49, 0]⟩]⟩
          (tableContext numbers).outside.entries).EndsInTime) := fun hpairs ↦
    (update_touches_once (rewrites_rewritingWorld id numberTable _ _) hpairs ⟨0, 0⟩
      (isDistinct_tableContext _) rfl).2 (undisturbed_rewritingWorld _)
  rw [hiff (by decide), hiff (by decide), hiff (by decide), hiff (by decide)]
  decide +kernel

/-- UPDATE of the numbers from 1 to 3 with ADD 1, on a table whose only row is 1: `ha_update_row` is
called three times for the row. -/
theorem update_of_moving_row :
    ((Program.loop (findRound (rewritingWorld id numberTable) ⟨0, 0⟩
        (updateHandlers (rewritingWorld id numberTable) ⟨0, 0⟩ ⟨1, [⟨.add, [49, 0]⟩]⟩)
        (numbersPlan .between [49, 51] 0 0)) 4 ⟨true, 0, 0, 0, 0⟩ (tableContext [1])).map
        fun outcome ↦ (outcome.1, outcome.2.outside.touched)) =
      some (.done haErrEndOfFile, [0, 0, 0]) ∧
    ¬ TouchesNumbers (numbersPlan .between [49, 51] 0 0) .add [1] := by
  refine ⟨by decide +kernel, fun htouches ↦ ?_⟩
  have hends := endsInTime_of_touchesOnce (rewrites_rewritingWorld id numberTable numberTable 0)
    (by decide) ⟨0, 0⟩ (isDistinct_tableContext [1]) rfl (undisturbed_rewritingWorld _) htouches
  exact absurd hends (by decide +kernel)

end TdhSocket.Execute
