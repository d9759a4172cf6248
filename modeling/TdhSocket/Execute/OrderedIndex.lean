import TdhSocket.Execute.Find
import TdhSocket.Library.ListCursor

/-!
# Scans of an ordered index

What the calls of the handler are documented to do on an index whose entries are in the order of
their keys. An entry of a deleted row is still a place for the cursor, and a call that comes to it
returns `HA_ERR_RECORD_DELETED`.

`OrderedIndex.moved` says for each call where it puts the cursor, and `Serves` that a storage engine
answers like that. A scan of `do_find` has a direction, a condition on the entry it begins at and a
condition on those it stays on. `fetch_spec` is the only place that looks at the calls one by one:
the reads of a scan deliver the entries of a list, one after the other, and then no row.
-/

set_option autoImplicit false

namespace TdhSocket.Execute

open Protocol Decode Library

variable {Outside Record : Type}

/-! ### The index -/

/-- An entry of an index. -/
structure Slot (Record : Type) where
  record : Record
  deleted : Bool
  deriving DecidableEq, Repr

/-- An index: its entries in order. `compare key record` is how the record stands to the key, of
which only the parts given are compared. -/
structure OrderedIndex (Record : Type) where
  slots : List (Slot Record)
  compare : List TdhsString → Record → Ordering
  sorted : ∀ key, slots.Pairwise fun first later ↦
    (compare key first.record = .gt → compare key later.record = .gt) ∧
      (compare key later.record = .lt → compare key first.record = .lt)

/-- Where the handler is: its cursor, and the end of the range of `read_range_first`. -/
structure IndexState (Record : Type) where
  cursor : Option (ListCursor (Slot Record))
  endKey : List TdhsString

namespace OrderedIndex

/-- The cursor behind a call, if there is an entry for it. The calls that compare what they read
with a key do so for a row that is not deleted. -/
def moved (index : OrderedIndex Record) (state : IndexState Record) :
    IndexCall → Option (ListCursor (Slot Record))
  | .indexReadMap key .keyExact =>
    ListCursor.first (fun slot ↦ index.compare key slot.record == .eq) index.slots
  | .indexReadMap key .keyOrNext =>
    ListCursor.first (fun slot ↦ index.compare key slot.record != .lt) index.slots
  | .indexReadMap key .afterKey =>
    ListCursor.first (fun slot ↦ index.compare key slot.record == .gt) index.slots
  | .indexReadMap key .keyOrPrev =>
    ListCursor.last (fun slot ↦ index.compare key slot.record != .gt) index.slots
  | .indexReadMap key .beforeKey =>
    ListCursor.last (fun slot ↦ index.compare key slot.record == .lt) index.slots
  | .indexReadLastMap key =>
    ListCursor.last (fun slot ↦ index.compare key slot.record == .eq) index.slots
  | .readRangeFirst startKey endKey =>
    (ListCursor.first (fun slot ↦ index.compare startKey slot.record != .lt) index.slots).filter
      fun cursor ↦ cursor.current.deleted || index.compare endKey cursor.current.record != .gt
  | .readRangeNext => (state.cursor.bind ListCursor.next).filter fun cursor ↦
      cursor.current.deleted || index.compare state.endKey cursor.current.record != .gt
  | .indexNext => state.cursor.bind ListCursor.next
  | .indexPrev => state.cursor.bind ListCursor.prev
  | .indexNextSame key => (state.cursor.bind ListCursor.next).filter fun cursor ↦
      cursor.current.deleted || index.compare key cursor.current.record == .eq

end OrderedIndex

/-- The end of the range behind a call. -/
def endKeyAfter (state : IndexState Record) : IndexCall → List TdhsString
  | .readRangeFirst _ endKey => endKey
  | _ => state.endKey

/-- The code says that there is no further row. -/
def IsNoRow (code : ℤ) : Prop := code = haErrKeyNotFound ∨ code = haErrEndOfFile

/-- The answer for an entry. -/
def IsAnswerFor (slot : Slot Record) (found : ℤ × Record) : Prop :=
  if slot.deleted then found.1 = haErrRecordDeleted else found = (0, slot.record)

/-- The answer of a call and the cursor behind it. -/
def IsIndexAnswer (found : ℤ × Record) (after : IndexState Record)
    (cursor : Option (ListCursor (Slot Record))) : Prop :=
  cursor.elim (IsNoRow found.1) fun cursor ↦
    after.cursor = some cursor ∧ IsAnswerFor cursor.current found

/-- The storage engine has an index and answers from it, and nothing kills the request. -/
structure Serves (world : World Outside Record) (table : Table Record) (idxnum : ℕ)
    (index : OrderedIndex Record) (view : Outside → IndexState Record) : Prop where
  answers : ∀ call outside, IsIndexAnswer (world.index table idxnum call outside).1
    (view (world.index table idxnum call outside).2) (index.moved (view outside) call)
  endKey : ∀ call outside, (view (world.index table idxnum call outside).2).endKey =
    endKeyAfter (view outside) call
  keyCmp : ∀ key record, world.keyCmpIfSame table idxnum key record =
    (index.compare key record != .eq)
  killed : ∀ outside, (world.killed outside).1 = false
  killed_view : ∀ outside, view (world.killed outside).2 = view outside

/-! ### Scans -/

/-- The scan goes from the end of the index to its beginning. -/
def isBack : FindFlag → Bool
  | .le => true
  | .lt => true
  | .deq => true
  | _ => false

section

variable (index : OrderedIndex Record)

/-- A scan may begin at the record. -/
def enters (key : List TdhsString) (record : Record) : FindFlag → Bool
  | .eq => index.compare key record == .eq
  | .deq => index.compare key record == .eq
  | .inKeys => index.compare key record == .eq
  | .ge => index.compare key record != .lt
  | .between => index.compare key record != .lt
  | .gt => index.compare key record == .gt
  | .le => index.compare key record != .gt
  | .lt => index.compare key record == .lt

/-- A scan goes on behind the record. -/
def stays (key endKey : List TdhsString) (record : Record) : FindFlag → Bool
  | .eq => index.compare key record == .eq
  | .deq => index.compare key record == .eq
  | .inKeys => index.compare key record == .eq
  | .between => index.compare endKey record != .gt
  | _ => true

/-! ### The rows of a scan -/

/-- The rows of a scan in its order: those of the entries that are not deleted and in its range. -/
def rowsOf (flag : FindFlag) (key endKey : List TdhsString) : List Record :=
  ((ListCursor.line (isBack flag) index.slots).filter fun slot ↦ !slot.deleted &&
    (enters index key slot.record flag && stays index key endKey slot.record flag)).map Slot.record

/-- A comparison as a scan in a direction sees it. -/
def inDirection (back : Bool) (order : Ordering) : Ordering := if back then order.swap else order

/-- Two records are in the order of a scan, as far as a key tells them apart. -/
def InOrder (back : Bool) (key : List TdhsString) (first later : Record) : Prop :=
  (inDirection back (index.compare key first) = .gt →
    inDirection back (index.compare key later) = .gt) ∧
  (inDirection back (index.compare key later) = .lt →
    inDirection back (index.compare key first) = .lt)

theorem sorted_line (back : Bool) (key : List TdhsString) :
    (ListCursor.line back index.slots).Pairwise fun first later ↦
      InOrder index back key first.record later.record := by
  cases back with
  | false => exact index.sorted key
  | true =>
    refine List.pairwise_reverse.mpr ((index.sorted key).imp fun {first later} h ↦ ?_)
    simp only [InOrder, inDirection, if_true, Ordering.swap_eq_gt, Ordering.swap_eq_lt]
    exact ⟨h.2, h.1⟩

end

/-- A scan for a key alone. -/
def IsExact (flag : FindFlag) : Prop := flag = .eq ∨ flag = .deq ∨ flag = .inKeys

variable {flag : FindFlag} {inIndex : ℕ} {cursor : ListCursor (Slot Record)}
  {slots : List (Slot Record)}

theorem stays_of_isExact {index : OrderedIndex Record} (hexact : IsExact flag)
    (key endKey : List TdhsString) (record : Record) :
    stays index key endKey record flag = enters index key record flag := by
  rcases hexact with rfl | rfl | rfl <;> rfl

/-- The entries a scan for a key alone begins at have the key in any direction. -/
theorem enters_iff_of_isExact {index : OrderedIndex Record} (hexact : IsExact flag)
    {key : List TdhsString} {record : Record} :
    enters index key record flag = true ↔
      inDirection (isBack flag) (index.compare key record) = .eq := by
  rcases hexact with rfl | rfl | rfl <;> cases hcompare : index.compare key record <;>
    simp [enters, inDirection, isBack, hcompare]

section Order

variable {index : OrderedIndex Record} {key endKey : List TdhsString} {first later : Record}

/-- Once a scan of a range has begun, every record is behind its beginning. -/
theorem enters_of_inOrder (hrange : ¬ IsExact flag)
    (horder : InOrder index (isBack flag) key first later)
    (henters : enters index key first flag = true) : enters index key later flag = true := by
  unfold IsExact at hrange
  cases flag with
  | eq | deq | inKeys => simp at hrange
  | ge | between | gt | le | lt =>
    cases hfirst : index.compare key first <;> cases hlater : index.compare key later <;>
      simp_all [enters, InOrder, inDirection, isBack]

/-- Behind a record that a scan does not stay on there is none that it would stay on. Assumes: a
scan for a key alone is not before the key. -/
theorem stays_of_inOrder (horder : InOrder index (isBack flag) key first later)
    (hend : InOrder index (isBack flag) endKey first later)
    (hnotBefore : IsExact flag → inDirection (isBack flag) (index.compare key first) ≠ .lt)
    (hlater : stays index key endKey later flag = true) :
    stays index key endKey first flag = true := by
  by_cases hexact : IsExact flag
  · rw [stays_of_isExact hexact, enters_iff_of_isExact hexact] at hlater ⊢
    cases hfirst : inDirection (isBack flag) (index.compare key first) with
    | eq => rfl
    | lt => exact absurd hfirst (hnotBefore hexact)
    | gt => exact absurd (horder.1 hfirst) (by rw [hlater]; decide)
  · unfold IsExact at hexact
    cases flag with
    | eq | deq | inKeys => simp at hexact
    | between =>
      cases hfirst : index.compare endKey first <;>
        simp_all [stays, InOrder, inDirection, isBack]
    | ge | gt | le | lt => rfl

/-- Only a range is compared with another key than the one it begins at. -/
theorem stays_of_enters (hflag : flag ≠ .between) (henters : enters index key first flag = true) :
    stays index key endKey first flag = true := by
  cases flag with
  | between => exact absurd rfl hflag
  | eq | deq | inKeys => exact henters
  | ge | gt | le | lt => rfl

end Order

section

variable (index : OrderedIndex Record)

/-- The entries from the first on at which a scan may begin. -/
def enteredBy (flag : FindFlag) (key : List TdhsString) : List (Slot Record) :=
  (ListCursor.line (isBack flag) index.slots).dropWhile fun slot ↦
    !enters index key slot.record flag

/-- Behind an entry that a scan does not stay on there is none that it would stay on. -/
theorem stays_pairwise (flag : FindFlag) (key endKey : List TdhsString) :
    (enteredBy index flag key).Pairwise fun first later ↦
      stays index key endKey later.record flag = true →
        stays index key endKey first.record flag = true := by
  have hsorted : ∀ key', (enteredBy index flag key).Pairwise _ := fun key' ↦
    (sorted_line index (isBack flag) key').sublist (List.dropWhile_sublist _)
  have hkey := hsorted key
  refine (hkey.and (hsorted endKey)).imp_of_mem fun {first later} hfirst _ hpair ↦
    stays_of_inOrder hpair.1 hpair.2 fun hexact hbefore ↦ ?_
  cases hentered : enteredBy index flag key with
  | nil =>
    rw [hentered] at hfirst
    cases hfirst
  | cons head rest =>
    have hhead : enters index key head.record flag = true := by
      have hnot := List.head?_dropWhile_not (fun slot : Slot Record ↦
        !enters index key slot.record flag) (ListCursor.line (isBack flag) index.slots)
      rw [show (ListCursor.line (isBack flag) index.slots).dropWhile _ = _ from hentered] at hnot
      simpa using hnot
    rw [enters_iff_of_isExact hexact] at hhead
    rw [hentered] at hfirst hkey
    -- an entry before the key would be before the head, which has the key
    rcases List.mem_cons.mp hfirst with rfl | hfirst
    · exact absurd (hbefore.symm.trans hhead) (by decide)
    · rw [((List.pairwise_cons.mp hkey).1 first hfirst).2 hbefore] at hhead
      cases hhead

/-- The rows that the reads of a scan deliver are the rows of the scan. -/
theorem rows_of_entered (flag : FindFlag) (key endKey : List TdhsString) :
    (((enteredBy index flag key).takeWhile fun slot ↦
      slot.deleted || stays index key endKey slot.record flag).filter
        fun slot ↦ !slot.deleted).map Slot.record = rowsOf index flag key endKey := by
  have hscan := @ListCursor.filter_takeWhile_dropWhile (Slot Record)
    (ListCursor.line (isBack flag) index.slots)
    (fun slot ↦ enters index key slot.record flag && stays index key endKey slot.record flag)
    (fun slot ↦ !slot.deleted) (fun slot ↦ enters index key slot.record flag)
    (fun slot ↦ stays index key endKey slot.record flag)
    (fun slot hslot ↦ (Bool.and_eq_true _ _ ▸ hslot).1)
    (stays_pairwise index flag key endKey) (by
      intro slot hslot
      by_cases hexact : IsExact flag
      · rw [stays_of_isExact hexact, Bool.and_self]
      · have hmono := (sorted_line index (isBack flag) key).imp fun {first later} horder ↦
          enters_of_inOrder hexact horder
        rw [ListCursor.property_of_mem_dropWhile hmono hslot, Bool.true_and])
  simp only [Bool.not_not] at hscan
  exact congrArg (List.map Slot.record) hscan

end

section Fetch

variable (world : World Outside Record) (index : OrderedIndex Record) (get : TdhsRequestGet)

/-- A scan goes on behind the entry: its row is deleted, or the record stays. -/
def staysOn (inIndex : ℕ) (slot : Slot Record) : Bool :=
  slot.deleted || stays index (keyBuf world.stray get inIndex) (keyBuf world.stray get 1)
    slot.record get.findFlag

/-- The entries that the reads of the scan for a key still deliver. -/
def Coming (isFirst : Bool) (inIndex : ℕ) (state : IndexState Record)
    (slots : List (Slot Record)) : Prop :=
  if isFirst then
    slots = (enteredBy index get.findFlag (keyBuf world.stray get inIndex)).takeWhile
      (staysOn world index get inIndex)
  else ∃ cursor, state.cursor = some cursor ∧
    (get.findFlag = .between → state.endKey = keyBuf world.stray get 1) ∧
    slots = (cursor.onward (isBack get.findFlag)).takeWhile (staysOn world index get inIndex)

/-- The cursor behind the first call of a scan. -/
theorem moved_firstCall (state : IndexState Record) (inIndex : ℕ) :
    index.moved state (firstCall world.stray get inIndex) =
      (ListCursor.seek (isBack get.findFlag) (fun slot ↦
        enters index (keyBuf world.stray get inIndex) slot.record get.findFlag)
          index.slots).filter fun cursor ↦ staysOn world index get inIndex cursor.current := by
  by_cases hbetween : get.findFlag = .between
  · simp only [firstCall, staysOn, hbetween]
    rfl
  · have hstays : ∀ slot : Slot Record,
        enters index (keyBuf world.stray get inIndex) slot.record get.findFlag = true →
          staysOn world index get inIndex slot = true := fun slot henters ↦
      (Bool.or_eq_true _ _).mpr (Or.inr (stays_of_enters hbetween henters))
    rw [ListCursor.seek_filter hstays]
    cases hflag : get.findFlag with
    | between => exact absurd hflag hbetween
    | _ =>
      simp only [firstCall, hflag]
      rfl

/-- The cursor behind a later call of a scan. Assumes: the cursor stands on an entry, and the
handler knows the end of a range. -/
theorem moved_nextCall {state : IndexState Record} (inIndex : ℕ)
    (hcursor : state.cursor = some cursor) (hflag : get.findFlag ≠ .deq)
    (hendKey : get.findFlag = .between → state.endKey = keyBuf world.stray get 1) :
    index.moved state (nextCall world.stray get inIndex) =
      (cursor.move (isBack get.findFlag)).filter fun cursor ↦
        staysOn world index get inIndex cursor.current := by
  cases hget : get.findFlag with
  | deq => exact absurd hget hflag
  | between =>
    simp only [nextCall, hget, haFindFlag, if_true, OrderedIndex.moved, hcursor, Option.bind_some,
      hendKey hget, staysOn, stays]
    rfl
  | eq | inKeys =>
    simp only [nextCall, hget, haFindFlag, OrderedIndex.moved, hcursor, Option.bind_some, staysOn,
      stays]
    rfl
  | ge | gt | le | lt =>
    have hall : ∀ moved : Option (ListCursor (Slot Record)),
        moved.filter (fun _ ↦ true) = moved := by
      intro moved
      cases moved <;> rfl
    simp only [nextCall, hget, haFindFlag, OrderedIndex.moved, hcursor, Option.bind_some, staysOn,
      stays, Bool.or_true, hall, reduceCtorEq, if_false]
    rfl

/-- The result of a read: the next entry, or no row. -/
def IsFetched (inIndex : ℕ) (slots : List (Slot Record)) (found : ℤ × Record)
    (after : IndexState Record) : Prop :=
  (slots = [] ∧ IsNoRow found.1) ∨
    ∃ slot rest, slots = slot :: rest ∧ IsAnswerFor slot found ∧
      Coming world index get false inIndex after rest

/-- Assumes: the handler knows the end of a range, and the cursor of the answer delivers the
entries. -/
theorem isFetched_of_delivers {found : ℤ × Record} {after : IndexState Record}
    {cursor : Option (ListCursor (Slot Record))} (hanswer : IsIndexAnswer found after cursor)
    (hendKey : get.findFlag = .between → after.endKey = keyBuf world.stray get 1)
    (hdelivers : ListCursor.Delivers (isBack get.findFlag) (staysOn world index get inIndex) cursor
      slots) : IsFetched world index get inIndex slots found after := by
  cases cursor with
  | none => exact Or.inl ⟨hdelivers, hanswer⟩
  | some cursor =>
    exact Or.inr ⟨_, _, hdelivers, hanswer.2, cursor, hanswer.1, hendKey, rfl⟩

/-- A call of the handler changes what is outside, and logs an error that discards the
transaction. -/
theorem indexCall_apply (owner : Owner) (table : Table Record) (idxnum : ℕ) (call : IndexCall)
    (context : Context Outside Record) :
    ∃ events, indexCall world owner table idxnum call context =
      some ((world.index table idxnum call context.outside).1,
        { context with
          outside := (world.index table idxnum call context.outside).2, events := events }) := by
  by_cases hdiscards : world.discards (world.index table idxnum call context.outside).1.1 = true
  · refine ⟨context.events ++ [.discarded owner], ?_⟩
    simp only [indexCall, ask, noteDiscard, hdiscards, if_true, Program.bind_apply,
      Option.bind_some]
    rfl
  · refine ⟨context.events, ?_⟩
    simp only [indexCall, ask, noteDiscard, hdiscards, Program.bind_apply, Option.bind_some]
    rfl

/-- What `index_prev_same` makes of the answer of `index_prev`. -/
def sameOrEnd (plan : FindPlan Record) (key : List TdhsString) (found : ℤ × Record) : ℤ × Record :=
  if found.1 = 0 ∧ world.keyCmpIfSame plan.table plan.idxnum key found.2 = true then
    (haErrEndOfFile, found.2)
  else found

theorem indexPrevSame_apply (owner : Owner) (plan : FindPlan Record) (key : List TdhsString)
    (context : Context Outside Record) :
    ∃ events, indexPrevSame world owner plan key context =
      some (sameOrEnd world plan key
          (world.index plan.table plan.idxnum .indexPrev context.outside).1,
        { context with
          outside := (world.index plan.table plan.idxnum .indexPrev context.outside).2
          events := events }) := by
  obtain ⟨events, hcall⟩ := indexCall_apply world owner plan.table plan.idxnum .indexPrev context
  refine ⟨events, ?_⟩
  rw [indexPrevSame, Program.bind_of_eq_some hcall, sameOrEnd]
  split_ifs <;> rfl

variable {world} {index} {view : Outside → IndexState Record} {plan : FindPlan Record}

section

variable (hserves : Serves world plan.table plan.idxnum index view)

include hserves

/-- The call of a round that does not compare. Assumes: the cursor behind the call delivers the
entries. -/
theorem indexCall_isFetched (owner : Owner) (call : IndexCall) (context : Context Outside Record)
    (hendKey : plan.get.findFlag = .between → endKeyAfter (view context.outside) call =
      keyBuf world.stray plan.get 1)
    (hdelivers : ListCursor.Delivers (isBack plan.get.findFlag)
      (staysOn world index plan.get inIndex) (index.moved (view context.outside) call) slots) :
    ∃ found outside events, indexCall world owner plan.table plan.idxnum call context =
        some (found, { context with outside := outside, events := events }) ∧
      IsFetched world index plan.get inIndex slots found (view outside) := by
  obtain ⟨events, hcall⟩ := indexCall_apply world owner plan.table plan.idxnum call context
  refine ⟨_, _, events, hcall, isFetched_of_delivers world index plan.get
    (hserves.answers call context.outside) (fun hbetween ↦ ?_) hdelivers⟩
  rw [hserves.endKey]
  exact hendKey hbetween

/-- An answer is kept for a row that is deleted or has the key. -/
theorem isIndexAnswer_sameOrEnd (key : List TdhsString) {found : ℤ × Record}
    {after : IndexState Record} {cursor : Option (ListCursor (Slot Record))}
    (hanswer : IsIndexAnswer found after cursor) :
    IsIndexAnswer (sameOrEnd world plan key found) after (cursor.filter fun cursor ↦
      cursor.current.deleted || index.compare key cursor.current.record == .eq) := by
  rw [sameOrEnd, hserves.keyCmp]
  cases cursor with
  | none =>
    have hcode : found.1 ≠ 0 := by
      rcases hanswer with hcode | hcode <;> rw [hcode] <;> decide
    rw [if_neg fun h ↦ hcode h.1]
    exact hanswer
  | some cursor =>
    obtain ⟨hcursor, hfor⟩ := hanswer
    unfold IsAnswerFor at hfor
    rw [Option.filter_some]
    cases hdeleted : cursor.current.deleted with
    | true =>
      rw [hdeleted, if_pos rfl] at hfor
      rw [if_neg fun h ↦ absurd (hfor.symm.trans h.1) (by decide), Bool.true_or, if_pos rfl]
      exact ⟨hcursor, by rwa [IsAnswerFor, hdeleted, if_pos rfl]⟩
    | false =>
      rw [hdeleted, if_neg Bool.false_ne_true] at hfor
      subst hfor
      cases hsame : index.compare key cursor.current.record == .eq with
      | true => simpa [hsame, IsIndexAnswer, IsAnswerFor, hdeleted, bne] using hcursor
      | false => simp [hsame, IsIndexAnswer, IsNoRow, bne]

/-- `index_prev_same` compares the row that `index_prev` found. -/
theorem indexPrevSame_isFetched (owner : Owner) (context : Context Outside Record)
    (hflag : plan.get.findFlag = .deq) (hcursor : (view context.outside).cursor = some cursor) :
    ∃ found outside events,
      indexPrevSame world owner plan (keyBuf world.stray plan.get inIndex) context =
        some (found, { context with outside := outside, events := events }) ∧
      IsFetched world index plan.get inIndex
        ((cursor.onward true).takeWhile (staysOn world index plan.get inIndex)) found
        (view outside) := by
  obtain ⟨events, hcall⟩ := indexPrevSame_apply world owner plan
    (keyBuf world.stray plan.get inIndex) context
  have hanswer := isIndexAnswer_sameOrEnd hserves (keyBuf world.stray plan.get inIndex)
    (hserves.answers .indexPrev context.outside)
  refine ⟨_, _, events, hcall, isFetched_of_delivers world index plan.get hanswer
    (fun h ↦ absurd (hflag.symm.trans h) (by decide)) ?_⟩
  have hsame : staysOn world index plan.get inIndex = fun slot ↦
      slot.deleted || index.compare (keyBuf world.stray plan.get inIndex) slot.record == .eq := by
    funext slot
    rw [staysOn, hflag]
    rfl
  have hback : isBack plan.get.findFlag = true := by rw [hflag]; rfl
  have hmoved : index.moved (view context.outside) .indexPrev = cursor.move true := by
    simp only [OrderedIndex.moved, hcursor, Option.bind_some]
    rfl
  rw [hback, hmoved, hsame]
  exact (ListCursor.stands_move true cursor).delivers _

/-- The reads of a scan deliver its entries in order. Assumes: the entries are those that are still
to come. -/
theorem fetch_spec (owner : Owner) {vars : FindVars} {context : Context Outside Record}
    (hcoming : Coming world index plan.get vars.isFirst vars.inIndex (view context.outside) slots) :
    ∃ found outside events, fetch world owner plan vars context =
        some (found, { context with outside := outside, events := events }) ∧
      IsFetched world index plan.get vars.inIndex slots found (view outside) := by
  unfold Coming at hcoming
  unfold fetch
  cases hfirst : vars.isFirst with
  | true =>
    rw [hfirst, if_pos rfl] at hcoming
    apply indexCall_isFetched hserves
    · intro hbetween
      simp only [firstCall, hbetween]
      rfl
    · rw [moved_firstCall, hcoming]
      exact (ListCursor.stands_seek _ _ _).delivers _
  | false =>
    rw [hfirst, if_neg Bool.false_ne_true] at hcoming
    obtain ⟨cursor, hcursor, hendKey, rfl⟩ := hcoming
    by_cases hflag : plan.get.findFlag = .deq
    · have hback : isBack plan.get.findFlag = true := by rw [hflag]; rfl
      rw [if_pos hflag, hback]
      exact indexPrevSame_isFetched hserves owner context hflag hcursor
    · rw [if_neg hflag]
      apply indexCall_isFetched hserves
      · intro hbetween
        simp only [nextCall, hbetween]
        exact hendKey hbetween
      · rw [moved_nextCall world index plan.get vars.inIndex hcursor hflag hendKey]
        exact (ListCursor.stands_move _ _).delivers _

end

end Fetch

end TdhSocket.Execute
