import Mathlib.Data.Prod.Lex
import TdhSocket.Execute.Steps

/-!
# Executions come to an end

The loop of `do_find` reads until the storage engine has no more rows, so whether a request thread
ever comes to its end is up to the storage engine. `ScansEnd` is what is asked of it: there is no
endless sequence of reads behind the first of a scan that all find a row, whatever the row handlers
call between them. A round of the loop then goes on with the next key of an IN, makes the first read
of a scan, or is one of finitely many further reads.

`conducts_settles` says that with it the processing of a request returns when it is given enough
rounds, and that more rounds do not change what it returns.
-/

set_option autoImplicit false

namespace TdhSocket.Execute

open Protocol Decode Library Library.Program

variable {Outside Record : Type}

/-! ### Scans -/

/-- The calls behind the first of a scan. -/
def IndexCall.isFurther : IndexCall → Bool
  | .readRangeNext | .indexNext | .indexPrev | .indexNextSame _ => true
  | .indexReadMap _ _ | .indexReadLastMap _ | .readRangeFirst _ _ => false

/-- The answer of a call that found a row or the place of a deleted one. -/
def IsFound (code : ℤ) : Prop := code = 0 ∨ code = haErrRecordDeleted

theorem not_isFound_endOfFile : ¬IsFound haErrEndOfFile := by
  unfold IsFound haErrEndOfFile haErrRecordDeleted
  decide

/-- A read behind the first of a scan finds a row, between other calls of the execution. -/
def ReadsOn (world : World Outside Record) (table : Table Record) (idxnum : ℕ)
    (before after : Outside) : Prop :=
  ∃ call asked, call.isFurther = true ∧
    Relation.ReflTransGen (Called world (rowRights true)) before asked ∧
    IsFound (world.index table idxnum call asked).1.1 ∧
    Relation.ReflTransGen (Called world (rowRights true))
      (world.index table idxnum call asked).2 after

/-- No scan finds rows forever. -/
def ScansEnd (world : World Outside Record) : Prop :=
  ∀ table idxnum, WellFounded fun after before ↦ ReadsOn world table idxnum before after

variable {start final : Context Outside Record}

/-- The calls of some moves. -/
theorem Moves.calls {world : World Outside Record} {owner : Owner} {rights : Rights}
    (hmoves : Moves world owner rights start final) :
    Relation.ReflTransGen (Called world rights) start.outside final.outside := by
  induction hmoves with
  | refl => exact .refl
  | tail _ hmove ih =>
    cases hmove with
    | called hcalled => exact ih.tail hcalled
    | logged hevent => exact ih
    | responded hcode => exact ih
    | counted updateRowNum changeRowNum => exact ih

theorem isFurther_nextCall (stray : Stray) (get : TdhsRequestGet) (inIndex : ℕ) :
    (nextCall stray get inIndex).isFurther = true := by
  unfold nextCall
  cases haFindFlag get.findFlag with
  | keyOrNext => split_ifs <;> rfl
  | keyExact => rfl
  | keyOrPrev => rfl
  | afterKey => rfl
  | beforeKey => rfl

section Rounds

variable {world : World Outside Record} {owner : Owner} {handlers : FindHandlers Outside Record}
  {plan : FindPlan Record}

theorem indexCall_eq {table : Table Record} {idxnum : ℕ} {call : IndexCall} {found : ℤ × Record}
    (hreturns : indexCall world owner table idxnum call start = some (found, final)) :
    found = (world.index table idxnum call start.outside).1 ∧
      final.outside = (world.index table idxnum call start.outside).2 := by
  obtain ⟨asked, middle, hasked, hreturns⟩ := bind_eq_some.mp hreturns
  cases hasked
  obtain ⟨_, noted, hnoted, hreturns⟩ := bind_eq_some.mp hreturns
  cases hreturns
  refine ⟨rfl, ?_⟩
  unfold noteDiscard at hnoted
  split_ifs at hnoted
  · cases hnoted
    rfl
  · cases hnoted
    rfl

/-- The call behind a read that is not the first of its scan. Assumes: it found a row. -/
theorem fetch_further {vars : FindVars} {found : ℤ × Record} (hfirst : vars.isFirst = false)
    (hreturns : fetch world owner plan vars start = some (found, final))
    (hfound : IsFound found.1) :
    ∃ call, call.isFurther = true ∧
      IsFound (world.index plan.table plan.idxnum call start.outside).1.1 ∧
      final.outside = (world.index plan.table plan.idxnum call start.outside).2 := by
  rw [fetch, if_neg (by rw [hfirst]; decide)] at hreturns
  split_ifs at hreturns
  · obtain ⟨read, middle, hread, hreturns⟩ := bind_eq_some.mp hreturns
    obtain ⟨rfl, houtside⟩ := indexCall_eq hread
    split_ifs at hreturns
    · cases hreturns
      exact absurd hfound not_isFound_endOfFile
    · cases hreturns
      exact ⟨.indexPrev, rfl, hfound, houtside⟩
  · obtain ⟨rfl, houtside⟩ := indexCall_eq hreturns
    exact ⟨_, isFurther_nextCall _ _ _, hfound, houtside⟩

/-- A round that does not leave the loop goes on with the next key, or read a row: the first one of
its scan or a further one. -/
theorem findRound_goesOn (hhandlers : RowHandlers world owner true handlers)
    {vars vars' : FindVars}
    (hreturns : findRound world owner handlers plan vars start = some (.inl vars', final)) :
    (vars.inIndex + 1 < plan.get.keyNum ∧ vars'.inIndex = vars.inIndex + 1) ∨
      (vars'.inIndex = vars.inIndex ∧ vars'.isFirst = false ∧
        (vars.isFirst = true ∨
          ReadsOn world plan.table plan.idxnum start.outside final.outside)) := by
  unfold findRound at hreturns
  split_ifs at hreturns
  · cases hreturns
  obtain ⟨killed, asked, hasked, hreturns⟩ := bind_eq_some.mp hreturns
  cases hasked
  split_ifs at hreturns
  · cases hreturns
  obtain ⟨found, fetched, hfetch, hreturns⟩ := bind_eq_some.mp hreturns
  -- What remains is to say for each way to go on that a row was found, and how the calls end.
  have hreads : ∀ {after : Outside}, IsFound found.1 →
      Relation.ReflTransGen (Called world (rowRights true)) fetched.outside after →
        vars.isFirst = true ∨ ReadsOn world plan.table plan.idxnum start.outside after := by
    intro after hfound hcalls
    cases hfirst : vars.isFirst with
    | true => exact .inl rfl
    | false =>
      obtain ⟨call, hfurther, hcode, houtside⟩ := fetch_further hfirst hfetch hfound
      exact .inr ⟨call, _, hfurther, .single (.killed start.outside), hcode, houtside ▸ hcalls⟩
  split_ifs at hreturns with hdeleted herror hfilter
  · cases hreturns
    exact .inr ⟨rfl, rfl, hreads (.inr hdeleted) .refl⟩
  · unfold nextKey at hreturns
    split_ifs at hreturns with hnext hparsed
    · cases hreturns
      exact .inl ⟨hnext.2.1, rfl⟩
    · cases hreturns
    · cases hreturns
  · have hfound : IsFound found.1 := .inl (not_not.mp herror)
    have hcalls : Relation.ReflTransGen (Called world (rowRights true)) fetched.outside
        final.outside := by
      have hcarries := carries_along world owner (rowRights true)
      exact (carries_visit hcarries.toClosed (hhandlers.hold hcarries) plan vars found.2 0
        fetched _ final hreturns).calls
    have hnext : vars'.inIndex = vars.inIndex ∧ vars'.isFirst = false := by
      unfold visit at hreturns
      split_ifs at hreturns
      · cases hreturns
        exact ⟨rfl, rfl⟩
      · obtain ⟨processed, middle, -, hreturns⟩ := bind_eq_some.mp hreturns
        split_ifs at hreturns
        · cases hreturns
        · cases hreturns
        · cases hreturns
          exact ⟨rfl, rfl⟩
    exact .inr ⟨hnext.1, hnext.2, hreads hfound hcalls⟩
  · cases hreturns
    exact .inr ⟨rfl, rfl, hreads (.inl (not_not.mp herror)) .refl⟩

/-- What a round makes smaller: the keys that are left, whether the first read is to be made, and
the rows ahead. -/
def roundMeasure (plan : FindPlan Record) (vars : FindVars) (context : Context Outside Record) :
    ℕ × ℕ × Outside :=
  (plan.get.keyNum - vars.inIndex, if vars.isFirst then 1 else 0, context.outside)

/-- With enough rounds the loop of `do_find` comes to its end. -/
theorem settles_find (hends : ScansEnd world) (hhandlers : RowHandlers world owner true handlers)
    (plan : FindPlan Record) (vars : FindVars) :
    Settles fun rounds ↦ loop (findRound world owner handlers plan) rounds vars := by
  have hsmaller := Nat.lt_wfRel.wf.prod_lex
    (Nat.lt_wfRel.wf.prod_lex (hends plan.table plan.idxnum))
  have hcarries : Carries world owner (scanRights true) fun _ program ↦ Settles program :=
    { closed_settles with move := Goes.settles }
  have hhold := hhandlers.hold (hcarries.mono (rowRights_le_scanRights true))
  refine settles_loop hsmaller (roundMeasure plan) (fun vars state ↦ ?_) vars
  obtain ⟨enough, ⟨next, after⟩, hreturns⟩ := carries_findRound hcarries hhold plan vars state
  have hround := hreturns enough le_rfl
  refine ⟨next, after, hround, ?_⟩
  rintro vars' rfl
  unfold roundMeasure
  rcases findRound_goesOn hhandlers hround with ⟨hless, hnext⟩ | ⟨hsame, hlater, hreads⟩
  · rw [hnext]
    exact .left _ _ (Nat.sub_succ_lt_self _ _ (Nat.lt_of_succ_lt hless))
  · rw [hsame, hlater]
    refine .right _ ?_
    rcases hreads with hfirst | hreads
    · rw [hfirst]
      exact .left _ _ Nat.zero_lt_one
    · cases vars.isFirst with
      | true => exact .left _ _ Nat.zero_lt_one
      | false => exact .right _ hreads

end Rounds

/-- Every program of a request thread returns when it is given enough rounds. -/
theorem conducts_settles {world : World Outside Record} (hends : ScansEnd world)
    (owners : Owner → Prop) :
    Conducts world owners true
      fun (Value : Type) (program : ℕ → Execution Outside Record Value) ↦ Settles program :=
  { closed_settles with
    step := Goes.settles
    find := fun _ _ hhandlers plan vars ↦ settles_find hends hhandlers plan vars }

end TdhSocket.Execute
