import TdhSocket.Execute.Dispatch

/-!
# What the execution of one packet does and leaves alone

Under the table lock, `do_find` and `do_insert` call the world, log events under the name of their
packet, change its response and count rows. `Move` has one constructor for each of these; `Rights`
says which of the more particular ones a part of the execution may do: send chunks of a stream, set
the status of the packet, move the cursor of an index.

A property of programs that holds of every move and is kept by sequences (`Carries`) holds of all
of them, one lemma for each function (`carries_doFindLocked` and the like). `Works` is what the
moves have in common: nothing but the row counters, the response of the own packet and the log of
the storage engine changes, where all that is added is under the own name. Statements are ended
elsewhere, and no error of a row is noted in `write_error`.
-/

set_option autoImplicit false

namespace TdhSocket.Execute

open Protocol Decode Library Library.Program

variable {Outside Record Value Next : Type}

/-! ### Moves -/

/-- The event comes from the execution of a packet. -/
def Event.By (world : World Outside Record) (owner : Owner) : Event Record → Prop
  | .changed other _ => other = owner
  | .discarded other => other = owner ∧ ∃ code, world.discards code = true
  | .ended _ _ => False

/-- What a part of the execution of a packet may do besides: call `write_data_to_response`, set the
status of its packet, and move the cursor of an index. -/
structure Rights where
  streams : Bool
  recodes : Bool
  scans : Bool

/-- A call of the world. -/
inductive Called (world : World Outside Record) (rights : Rights) : Outside → Outside → Prop
  | malloc (size : ℕ) (outside : Outside) :
    Called world rights outside (world.malloc size outside).2
  | easyBufCreate (size : ℕ) (outside : Outside) :
    Called world rights outside (world.easyBufCreate size outside).2
  | killed (outside : Outside) : Called world rights outside (world.killed outside).2
  | now (outside : Outside) : Called world rights outside (world.now outside).2
  | row (table : Table Record) (call : RowCall Record) (outside : Outside) :
    Called world rights outside (world.row table call outside).2
  | insertId (outside : Outside) : Called world rights outside (world.insertId outside).2
  | index (hscans : rights.scans = true) (table : Table Record) (idxnum : ℕ) (call : IndexCall)
      (outside : Outside) : Called world rights outside (world.index table idxnum call outside).2
  | writeData (hstreams : rights.streams = true) (data : List UInt8) (outside : Outside) :
    Called world rights outside (world.writeData data outside).2

/-- One change of the context by the execution of a packet. -/
inductive Move (world : World Outside Record) (owner : Owner) (rights : Rights) :
    Context Outside Record → Context Outside Record → Prop
  | called {context : Context Outside Record} {outside : Outside}
      (hcalled : Called world rights context.outside outside) :
    Move world owner rights context { context with outside := outside }
  | logged {context : Context Outside Record} {event : Event Record}
      (hevent : event.By world owner) :
    Move world owner rights context { context with events := context.events ++ [event] }
  | responded {context : Context Outside Record} {change : Response → Response}
      (hcode : rights.recodes = false → ∀ response, (change response).code = response.code) :
    Move world owner rights context
      { context with
        response := Function.update context.response owner (change (context.response owner)) }
  | counted {context : Context Outside Record} (updateRowNum changeRowNum : ℕ) :
    Move world owner rights context
      { context with updateRowNum := updateRowNum, changeRowNum := changeRowNum }

/-- Any number of moves. -/
abbrev Moves (world : World Outside Record) (owner : Owner) (rights : Rights) :
    Context Outside Record → Context Outside Record → Prop :=
  Relation.ReflTransGen (Move world owner rights)

variable (streams : Bool)

/-- The rights to everything, but for the stream. -/
def fullRights : Rights := ⟨streams, true, true⟩

/-- What the row handlers need. -/
def rowRights : Rights := ⟨streams, false, false⟩

/-- What the loop of `do_find` needs. -/
def scanRights : Rights := ⟨streams, false, true⟩

/-- There are no fewer rights. -/
structure Rights.Le (fewer more : Rights) : Prop where
  streams : fewer.streams = true → more.streams = true
  recodes : fewer.recodes = true → more.recodes = true
  scans : fewer.scans = true → more.scans = true

theorem rowRights_le_scanRights : (rowRights streams).Le (scanRights streams) :=
  ⟨id, id, fun _ ↦ rfl⟩

theorem scanRights_le_fullRights : (scanRights streams).Le (fullRights streams) :=
  ⟨id, fun _ ↦ rfl, fun _ ↦ rfl⟩

theorem rowRights_le_fullRights : (rowRights streams).Le (fullRights streams) :=
  ⟨id, fun _ ↦ rfl, fun _ ↦ rfl⟩

variable {world : World Outside Record} {owner : Owner} {fewer more rights : Rights}
  {start final : Context Outside Record}

theorem Called.mono (hle : fewer.Le more)
    {before after : Outside} (hcalled : Called world fewer before after) :
    Called world more before after := by
  cases hcalled with
  | malloc size => exact .malloc size before
  | easyBufCreate size => exact .easyBufCreate size before
  | killed => exact .killed before
  | now => exact .now before
  | row table call => exact .row table call before
  | insertId => exact .insertId before
  | index hscans table idxnum call => exact .index (hle.scans hscans) table idxnum call before
  | writeData hstreams data => exact .writeData (hle.streams hstreams) data before

theorem Move.mono
    (hle : fewer.Le more)
    (hmove : Move world owner fewer start final) : Move world owner more start final := by
  cases hmove with
  | called hcalled => exact .called (hcalled.mono hle)
  | logged hevent => exact .logged hevent
  | responded hcode =>
    refine .responded fun hmore ↦ hcode ?_
    cases hfewer : fewer.recodes with
    | false => rfl
    | true => exact hmore.symm.trans (hle.recodes hfewer) |>.symm
  | counted updateRowNum changeRowNum => exact .counted updateRowNum changeRowNum

theorem Moves.mono
    (hle : fewer.Le more)
    (hmoves : Moves world owner fewer start final) : Moves world owner more start final :=
  Relation.ReflTransGen.mono (fun _ _ hmove ↦ hmove.mono hle) _ _ hmoves

/-! ### Properties that moves have -/

/-- A property of programs that holds of every single move and is kept by sequences. -/
structure Carries (world : World Outside Record) (owner : Owner) (rights : Rights)
    (holds : Property (Context Outside Record)) : Prop extends Closed holds where
  move : ∀ {Value : Type} {program : Execution Outside Record Value},
    Goes (Move world owner rights) program → holds Value fun _ ↦ program

/-- With fewer rights there are fewer moves. -/
theorem Carries.mono {holds : Property (Context Outside Record)}
    (hcarries : Carries world owner more holds)
    (hle : fewer.Le more) : Carries world owner fewer holds :=
  { hcarries.toClosed with
    move := fun hgoes ↦ hcarries.move (hgoes.mono fun _ _ hmove ↦ hmove.mono hle) }

/-- A move that leaves the responses alone. -/
def SilentMove (world : World Outside Record) (owner : Owner) (rights : Rights)
    (start final : Context Outside Record) : Prop :=
  Move world owner rights start final ∧ final.response = start.response

/-- A property of programs that holds of every move that leaves the responses alone, and is kept by
sequences. -/
structure CarriesSilent (world : World Outside Record) (owner : Owner) (rights : Rights)
    (holds : Property (Context Outside Record)) : Prop extends Closed holds where
  move : ∀ {Value : Type} {program : Execution Outside Record Value},
    Goes (SilentMove world owner rights) program → holds Value fun _ ↦ program

theorem Carries.silent {holds : Property (Context Outside Record)}
    (hcarries : Carries world owner rights holds) :
    CarriesSilent world owner rights holds :=
  { hcarries.toClosed with
    move := fun hgoes ↦ hcarries.move (hgoes.mono fun _ _ hmove ↦ hmove.1) }

theorem carries_along (world : World Outside Record) (owner : Owner) (rights : Rights) :
    Carries world owner rights fun (Value : Type) (program : ℕ → Execution Outside Record Value) ↦
      ∀ rounds, Along (Moves world owner rights) (program rounds) :=
  { closed_along with
    move := fun hgoes _ ↦ hgoes.along.mono fun _ _ ↦ Relation.ReflTransGen.single }

/-! ### Calls -/

section Calls

variable {world : World Outside Record} {owner : Owner} {rights : Rights}
  {holds : Property (Context Outside Record)} (hsilent : CarriesSilent world owner rights holds)

include hsilent

theorem carries_ask {call : Outside → Value × Outside}
    (hcall : ∀ outside, Called world rights outside (call outside).2) :
    holds Value fun _ ↦ ask call :=
  hsilent.move fun start ↦ ⟨_, _, rfl, .called (hcall start.outside), rfl⟩

theorem carries_emit {event : Event Record} (hevent : event.By world owner) :
    holds Unit fun _ ↦ emit event :=
  hsilent.move (goes_modify fun _ ↦ ⟨.logged hevent, rfl⟩)

theorem carries_noteDiscard (code : ℤ) : holds Unit fun _ ↦ noteDiscard world owner code := by
  unfold noteDiscard
  split_ifs with hdiscards
  · exact carries_emit hsilent ⟨rfl, code, hdiscards⟩
  · exact hsilent.pure ()

theorem carries_rowCall (table : Table Record) (call : RowCall Record) :
    holds ℤ fun _ ↦ rowCall world owner table call :=
  hsilent.bind (carries_ask hsilent fun _ ↦ .row table call _) fun code ↦
    hsilent.bind (Closed.ite
      (carries_emit hsilent (show Event.By world owner (.changed owner call) from rfl))
      (carries_noteDiscard hsilent code)) fun _ ↦ hsilent.pure code

theorem carries_indexCall (hscans : rights.scans = true) (table : Table Record) (idxnum : ℕ)
    (call : IndexCall) : holds (ℤ × Record) fun _ ↦ indexCall world owner table idxnum call :=
  hsilent.bind (carries_ask hsilent fun _ ↦ .index hscans table idxnum call _) fun found ↦
    hsilent.bind (carries_noteDiscard hsilent found.1) fun _ ↦ hsilent.pure found

theorem carries_fetch (hscans : rights.scans = true) (plan : FindPlan Record) (vars : FindVars) :
    holds (ℤ × Record) fun _ ↦ fetch world owner plan vars := by
  have hcall := carries_indexCall hsilent hscans plan.table plan.idxnum
  exact Closed.ite (hcall _) (Closed.ite (hsilent.bind (hcall _) fun _ ↦
    Closed.ite (hsilent.pure _) (hsilent.pure _)) (hcall _))

theorem carries_stackLiker (size : ℕ) : holds Bool fun _ ↦ stackLiker world size :=
  Closed.ite (hsilent.pure true) (carries_ask hsilent fun _ ↦ .malloc size _)

theorem carries_updateField (field : Field Record) (value : ValueEntry) (record : Record) :
    holds (Option Record) fun _ ↦ updateField world field value record := by
  unfold updateField
  cases value.flag with
  | set => exact Closed.ite (hsilent.pure _) (hsilent.pure _)
  | add => exact hsilent.pure _
  | sub => exact hsilent.pure _
  | now => exact hsilent.bind (carries_ask hsilent fun _ ↦ .now _) fun _ ↦ hsilent.pure _

theorem carries_updateFields (pairs : List (Field Record × ValueEntry)) (record : Record) :
    holds (Option Record) fun _ ↦ updateFields world pairs record := by
  induction pairs generalizing record with
  | nil => exact hsilent.pure _
  | cons pair pairs ih =>
    exact hsilent.bind (carries_updateField hsilent _ _ record) fun updated ↦
      Closed.elim (hsilent.pure _) ih updated

theorem carries_countRow (changed : Bool) : holds Unit fun _ ↦ countRow changed :=
  hsilent.move (goes_modify fun _ ↦ ⟨.counted _ _, rfl⟩)

variable (table : Table Record)

theorem carries_storeRecord (record new : Record) :
    holds Processed fun _ ↦ storeRecord world owner table record new :=
  hsilent.bind (carries_rowCall hsilent table _) fun _ ↦
    Closed.ite (hsilent.bind (carries_countRow hsilent true) fun _ ↦ hsilent.pure _)
      (Closed.ite (hsilent.bind (carries_countRow hsilent false) fun _ ↦ hsilent.pure _)
        (hsilent.pure _))

theorem carries_updateRecord (pairs : List (Field Record × ValueEntry)) (record : Record) :
    holds Processed fun _ ↦ updateRecord world owner table pairs record :=
  hsilent.bind (carries_updateFields hsilent _ record) fun updated ↦
    Closed.elim (hsilent.pure _) (fun new ↦ carries_storeRecord hsilent table record new) updated

theorem carries_deleteRecord (record : Record) :
    holds Processed fun _ ↦ deleteRecord world owner table record :=
  hsilent.bind (carries_rowCall hsilent table _) fun _ ↦
    Closed.ite (hsilent.bind (carries_countRow hsilent true) fun _ ↦ hsilent.pure _)
      (hsilent.pure _)

theorem carries_countRecord : holds Processed fun _ ↦ countRecord :=
  hsilent.bind (hsilent.move (goes_modify fun _ ↦ ⟨.counted _ _, rfl⟩)) fun _ ↦ hsilent.pure _

theorem carries_insertFields (pairs : List (Field Record × ValueEntry)) (record : Record) :
    holds (Option Record) fun _ ↦ insertFields world pairs record := by
  induction pairs generalizing record with
  | nil => exact hsilent.pure _
  | cons pair pairs ih =>
    refine hsilent.bind ?_ fun updated ↦ Closed.elim (hsilent.pure _) ih updated
    exact Closed.ite
      (hsilent.bind (carries_ask hsilent fun _ ↦ .now _) fun _ ↦ hsilent.pure _)
      (Closed.ite (hsilent.pure _) (hsilent.pure _))

end Calls

/-! ### Responses -/

section Responses

variable {world : World Outside Record} {owner : Owner} {rights : Rights}
  {holds : Property (Context Outside Record)} (hcarries : Carries world owner rights holds)

include hcarries

theorem carries_setResponse {change : Response → Response}
    (hcode : rights.recodes = false → ∀ response, (change response).code = response.code) :
    holds Unit fun _ ↦ setResponse owner change :=
  hcarries.move (goes_modify fun _ ↦ .responded hcode)

theorem carries_writeHeader (types : List UInt8) (allocSize : ℕ) :
    holds RetCode fun _ ↦ writeHeader world owner types allocSize :=
  hcarries.bind (carries_ask hcarries.silent fun _ ↦ .easyBufCreate _ _) fun _ ↦
    Closed.ite (hcarries.bind (carries_setResponse hcarries fun _ _ ↦ rfl) fun _ ↦
      hcarries.pure _) (hcarries.pure _)

theorem carries_appendValue (text : List UInt8) : holds Unit fun _ ↦ appendValue owner text :=
  carries_setResponse hcarries fun _ _ ↦ rfl

theorem carries_endUpdateRecord : holds Unit fun _ ↦ endUpdateRecord owner :=
  hcarries.bind (hcarries.read _) fun _ ↦ hcarries.bind (hcarries.read _) fun _ ↦
    hcarries.bind (carries_appendValue hcarries _) fun _ ↦ carries_appendValue hcarries _

end Responses

/-! ### Row handlers -/

/-- A property of the three handlers. -/
structure HandlersHold (holds : Property (Context Outside Record))
    (handlers : FindHandlers Outside Record) : Prop where
  create : ∀ fields, holds RetCode fun _ ↦ handlers.create fields
  process : ∀ table fields record, holds Processed fun _ ↦ handlers.process table fields record
  finish : holds Unit fun _ ↦ handlers.finish

section Handlers

variable {world : World Outside Record} {owner : Owner}
  {holds : Property (Context Outside Record)}

theorem carries_responseFields (hcarries : Carries world owner (rowRights true) holds)
    (record : Record) (fields : List (Field Record)) :
    holds RetCode fun _ ↦ responseFields world owner record fields := by
  induction fields with
  | nil => exact hcarries.pure _
  | cons field fields ih =>
    exact hcarries.bind (carries_ask hcarries.silent fun _ ↦ .writeData rfl _ _) fun _ ↦
      Closed.ite (hcarries.bind (carries_setResponse hcarries fun _ _ ↦ rfl) fun _ ↦ ih)
        (hcarries.pure _)

theorem handlersHold_getHandlers (hcarries : Carries world owner (rowRights true) holds) :
    HandlersHold holds (getHandlers world owner) where
  create _ := carries_writeHeader hcarries _ _
  process _ fields record := hcarries.bind (carries_responseFields hcarries record fields)
    fun _ ↦ hcarries.pure _
  finish := hcarries.pure ()

variable (hcarries : Carries world owner (rowRights false) holds)

include hcarries

theorem handlersHold_countHandlers : HandlersHold holds (countHandlers world owner) where
  create _ := carries_writeHeader hcarries _ _
  process _ _ _ := carries_countRecord hcarries.silent
  finish := hcarries.bind (hcarries.read _) fun _ ↦ carries_appendValue hcarries _

theorem handlersHold_updateHandlers (values : TdhsRequestValues) :
    HandlersHold holds (updateHandlers world owner values) where
  create _ := carries_writeHeader hcarries _ _
  process table _ record := carries_updateRecord hcarries.silent table _ record
  finish := carries_endUpdateRecord hcarries

theorem handlersHold_deleteHandlers : HandlersHold holds (deleteHandlers world owner) where
  create _ := carries_writeHeader hcarries _ _
  process table _ record := carries_deleteRecord hcarries.silent table record
  finish := carries_endUpdateRecord hcarries

end Handlers

/-! ### do_find and do_insert -/

section Find

variable {world : World Outside Record} {owner : Owner} {streams}
  {holds : Property (Context Outside Record)} {handlers : FindHandlers Outside Record}

theorem carries_visit (hclosed : Closed holds) (hhandlers : HandlersHold holds handlers)
    (plan : FindPlan Record) (vars : FindVars) (record : Record) :
    holds (FindVars ⊕ FindExit) fun _ ↦ visit handlers plan vars record :=
  Closed.ite (hclosed.pure _) (hclosed.bind (hhandlers.process _ _ record) fun _ ↦
    Closed.ite (hclosed.pure _) (Closed.ite (hclosed.pure _) (hclosed.pure _)))

theorem carries_findRound (hcarries : Carries world owner (scanRights streams) holds)
    (hhandlers : HandlersHold holds handlers) (plan : FindPlan Record) (vars : FindVars) :
    holds (FindVars ⊕ FindExit) fun _ ↦ findRound world owner handlers plan vars := by
  have hvisit := carries_visit hcarries.toClosed hhandlers plan vars
  exact Closed.ite (hcarries.pure _)
    (hcarries.bind (carries_ask hcarries.silent fun _ ↦ .killed _) fun _ ↦
      Closed.ite (hcarries.pure _)
        (hcarries.bind (carries_fetch hcarries.silent rfl plan vars) fun found ↦
        Closed.ite (hcarries.pure _) (Closed.ite (hcarries.pure _)
          (Closed.ite (hvisit found.2) (hcarries.pure _)))))

variable (hcarries : Carries world owner (fullRights streams) holds)

include hcarries

theorem carries_setStatus (change : Response → Response) :
    holds Unit fun _ ↦ setResponse owner change :=
  carries_setResponse hcarries fun hno ↦ by cases hno

theorem carries_tdhsResponseError (status code : ℕ) :
    holds RetCode fun _ ↦ tdhsResponseError world owner status code :=
  hcarries.bind (carries_setStatus hcarries _) fun _ ↦
    hcarries.bind (carries_ask hcarries.silent fun _ ↦ .easyBufCreate _ _) fun _ ↦
      Closed.ite (hcarries.bind (carries_setResponse hcarries fun _ _ ↦ rfl) fun _ ↦
        hcarries.pure _) (hcarries.pure _)

theorem carries_tdhsResponseBatch : holds RetCode fun _ ↦ tdhsResponseBatch world owner :=
  hcarries.bind (carries_setStatus hcarries _) fun _ ↦
    hcarries.bind (carries_ask hcarries.silent fun _ ↦ .easyBufCreate _ _) fun _ ↦
      Closed.ite (hcarries.bind (carries_setResponse hcarries fun _ _ ↦ rfl) fun _ ↦
        hcarries.pure _) (hcarries.pure _)

section

variable (hhandlers : HandlersHold holds handlers)

include hhandlers

theorem carries_finishFind (exit : FindExit) :
    holds RetCode fun _ ↦ finishFind world owner handlers exit := by
  cases exit with
  | killed => exact carries_tdhsResponseError hcarries _ _
  | keyMismatch => exact carries_tdhsResponseError hcarries _ _
  | processed ret => exact hcarries.pure _
  | done r =>
    exact Closed.ite (hcarries.bind hhandlers.finish fun _ ↦ hcarries.pure _)
      (carries_tdhsResponseError hcarries _ _)

/-- Assumes: the property holds of the loop. -/
theorem carries_findRows
    (hloop : ∀ plan vars, holds FindExit fun rounds ↦
      loop (findRound world owner handlers plan) rounds vars)
    (betweenBuf : Bool) (plan : FindPlan Record) :
    holds RetCode fun rounds ↦ findRows world rounds owner handlers betweenBuf plan := by
  have herror := carries_tdhsResponseError hcarries
  exact hcarries.bind (carries_setStatus hcarries _) fun _ ↦
    hcarries.bind (hhandlers.create _) fun _ ↦
      Closed.ite (herror _ _) (Closed.ite (herror _ _) (Closed.ite (herror _ _)
        (Closed.ite (herror _ _) (hcarries.bind (hloop plan _) fun exit ↦
          carries_finishFind hcarries hhandlers exit))))

/-- Assumes: the property holds of the loop. -/
theorem carries_doFindLocked
    (hloop : ∀ plan vars, holds FindExit fun rounds ↦
      loop (findRound world owner handlers plan) rounds vars)
    (request : TdhsRequest) (table : Table Record) :
    holds RetCode fun rounds ↦ doFindLocked world rounds owner request handlers table := by
  have herror := carries_tdhsResponseError hcarries
  have hrows := carries_findRows hcarries hhandlers hloop
  have hbuffers : ∀ (size keyLength : ℕ) (rest : ℕ → Bool → Execution Outside Record RetCode),
      (∀ betweenBuf, holds RetCode fun rounds ↦ rest rounds betweenBuf) →
        holds RetCode fun rounds ↦ findBuffers world owner size keyLength (rest rounds) :=
    fun size keyLength rest hrest ↦ hcarries.bind (carries_stackLiker hcarries.silent _) fun _ ↦
      Closed.ite (herror _ _) (hcarries.bind (carries_stackLiker hcarries.silent _) fun _ ↦
        hcarries.bind (carries_stackLiker hcarries.silent _) fun betweenBuf ↦
          Closed.ite (herror _ _) (hrest betweenBuf))
  exact hcarries.bind (hcarries.read _) fun _ ↦ Closed.ite (herror _ _)
    (Closed.elim (herror _ _) (fun idxnum ↦ Closed.elim (herror _ _) (fun fields ↦
      Closed.elim (herror _ _) (fun filters ↦ hbuffers _ _ _ fun betweenBuf ↦
        hrows betweenBuf _) _) _) _)

end

theorem carries_insertRow (table : Table Record) (record : Record) :
    holds RetCode fun _ ↦ insertRow world owner table record :=
  hcarries.bind (carries_rowCall hcarries.silent table _) fun _ ↦
    hcarries.bind (carries_ask hcarries.silent fun _ ↦ .insertId _) fun _ ↦
      Closed.ite (hcarries.bind (carries_appendValue hcarries _) fun _ ↦ hcarries.pure _)
        (carries_tdhsResponseError hcarries _ _)

theorem carries_doInsertLocked (request : TdhsRequest) (table : Table Record) :
    holds RetCode fun _ ↦ doInsertLocked world owner request table := by
  have herror := carries_tdhsResponseError hcarries
  exact hcarries.bind (hcarries.read _) fun _ ↦ Closed.ite (herror _ _)
    (Closed.elim (herror _ _) (fun fields ↦
      hcarries.bind (carries_setStatus hcarries _) fun _ ↦
        hcarries.bind (carries_writeHeader hcarries _ _) fun _ ↦ Closed.ite (herror _ _)
          (hcarries.bind (carries_insertFields hcarries.silent _ _) fun record ↦
            Closed.elim (herror _ _) (carries_insertRow hcarries table) record)) _)

end Find

/-! ### What is left alone -/

/-- What the execution of a packet under the table lock can do to the context. -/
structure Works (world : World Outside Record) (owner : Owner)
    (start final : Context Outside Record) : Prop where
  lock : final.lock = start.lock
  writeError : final.writeError = start.writeError
  inBatch : final.inBatch = start.inBatch
  retcode : final.retcode = start.retcode
  started : final.started = start.started
  outcomes : final.outcomes = start.outcomes
  response : ∀ other, other ≠ owner → final.response other = start.response other
  events : ∃ more, final.events = start.events ++ more ∧ ∀ event ∈ more, event.By world owner

theorem Works.refl (world : World Outside Record) (owner : Owner)
    (start : Context Outside Record) : Works world owner start start :=
  ⟨rfl, rfl, rfl, rfl, rfl, rfl, fun _ _ ↦ rfl, [], (List.append_nil _).symm,
    List.forall_mem_nil _⟩

theorem Works.trans {middle : Context Outside Record}
    (hfirst : Works world owner start middle)
    (hnext : Works world owner middle final) : Works world owner start final := by
  obtain ⟨firstEvents, hfirstEvents, hfirstBy⟩ := hfirst.events
  obtain ⟨nextEvents, hnextEvents, hnextBy⟩ := hnext.events
  refine ⟨hnext.lock.trans hfirst.lock, hnext.writeError.trans hfirst.writeError,
    hnext.inBatch.trans hfirst.inBatch, hnext.retcode.trans hfirst.retcode,
    hnext.started.trans hfirst.started, hnext.outcomes.trans hfirst.outcomes, ?_,
    firstEvents ++ nextEvents, ?_, ?_⟩
  · intro other hother
    exact (hnext.response other hother).trans (hfirst.response other hother)
  · rw [hnextEvents, hfirstEvents, List.append_assoc]
  · intro event hevent
    rcases List.mem_append.mp hevent with hevent | hevent
    · exact hfirstBy event hevent
    · exact hnextBy event hevent

theorem Move.works
    (hmove : Move world owner rights start final) :
    Works world owner start final := by
  cases hmove with
  | called hcalled => exact { Works.refl world owner start with }
  | logged hevent =>
    refine { Works.refl world owner start with events := ⟨[_], rfl, fun other hother ↦ ?_⟩ }
    rw [List.mem_singleton.mp hother]
    exact hevent
  | responded hcode =>
    exact { Works.refl world owner start with
      response := fun other hother ↦ Function.update_of_ne hother _ _ }
  | counted updateRowNum changeRowNum => exact { Works.refl world owner start with }

theorem Moves.works
    (hmoves : Moves world owner rights start final) :
    Works world owner start final := by
  induction hmoves with
  | refl => exact Works.refl world owner start
  | tail _ hmove ih => exact ih.trans hmove.works

/-- A program that does no more than the execution of a packet may. -/
def Keeps (world : World Outside Record) (owner : Owner)
    (program : Execution Outside Record Value) : Prop :=
  ∀ start, Triple (Works world owner start) program fun _ ↦ Works world owner start

section Rules

variable {world : World Outside Record} {owner : Owner}

theorem keeps_pure (value : Value) :
    Keeps world owner (pure value : Execution Outside Record Value) :=
  fun _ ↦ triple_pure fun _ hworks ↦ hworks

theorem keeps_bind {program : Execution Outside Record Value}
    {next : Value → Execution Outside Record Next} (hfirst : Keeps world owner program)
    (hnext : ∀ value, Keeps world owner (next value)) : Keeps world owner (program >>= next) :=
  fun start ↦ triple_bind _ (hfirst start) fun value ↦ hnext value start

theorem keeps_ite {condition : Prop} [Decidable condition] {yes no : Execution Outside Record Value}
    (hyes : Keeps world owner yes)
    (hno : Keeps world owner no) : Keeps world owner (if condition then yes else no) := by
  split_ifs
  · exact hyes
  · exact hno

theorem keeps_loop {Vars Exit : Type} {body : Vars → Execution Outside Record (Vars ⊕ Exit)}
    (hbody : ∀ vars, Keeps world owner (body vars)) (rounds : ℕ) (vars : Vars) :
    Keeps world owner (Program.loop body rounds vars) := by
  intro start
  refine triple_loop (fun _ ↦ Works world owner start) (fun vars ↦ ?_) rounds vars
  refine (hbody vars start).mono (fun _ hworks ↦ hworks) fun next state hworks ↦ ?_
  cases next with
  | inl vars => exact hworks
  | inr exit => exact hworks

theorem carries_keeps (rights : Rights) :
    Carries world owner rights fun (Value : Type) (program : ℕ → Execution Outside Record Value) ↦
      ∀ rounds, Keeps world owner (program rounds) where
  pure value _ := keeps_pure value
  read _ _ _ := triple_read fun _ hworks ↦ hworks
  bind hprogram hnext rounds := keeps_bind (hprogram rounds) fun value ↦ hnext value rounds
  move hgoes _ _ context value final hworks hreturns :=
    hworks.trans (hgoes.along context value final hreturns).works

end Rules

section Kept

variable (world : World Outside Record) (owner : Owner)

theorem keeps_tdhsResponseError (status code : ℕ) :
    Keeps world owner (tdhsResponseError world owner status code) :=
  carries_tdhsResponseError (carries_keeps (fullRights true)) status code 0

/-- Handlers that do no more than the execution of a packet may. -/
structure HandlersKeep (handlers : FindHandlers Outside Record) : Prop where
  create : ∀ fields, Keeps world owner (handlers.create fields)
  process : ∀ table fields record, Keeps world owner (handlers.process table fields record)
  finish : Keeps world owner handlers.finish

variable {world owner}

theorem handlersKeep_of_hold {handlers : FindHandlers Outside Record}
    (hhandlers : HandlersHold (fun (Value : Type) (program : ℕ → Execution Outside Record Value) ↦
      ∀ rounds, Keeps world owner (program rounds)) handlers) :
    HandlersKeep world owner handlers :=
  ⟨fun fields ↦ hhandlers.create fields 0,
    fun table fields record ↦ hhandlers.process table fields record 0, hhandlers.finish 0⟩

theorem keeps_doFindLocked {handlers : FindHandlers Outside Record}
    (hhandlers : HandlersKeep world owner handlers) (rounds : ℕ) (request : TdhsRequest)
    (table : Table Record) :
    Keeps world owner (doFindLocked world rounds owner request handlers table) := by
  have hhold : HandlersHold (fun (Value : Type) (program : ℕ → Execution Outside Record Value) ↦
      ∀ rounds, Keeps world owner (program rounds)) handlers :=
    ⟨fun fields _ ↦ hhandlers.create fields,
      fun table fields record _ ↦ hhandlers.process table fields record, fun _ ↦ hhandlers.finish⟩
  refine carries_doFindLocked (carries_keeps (fullRights true)) hhold (fun plan vars rounds ↦ ?_)
    request table rounds
  refine keeps_loop (fun vars ↦ ?_) rounds vars
  exact carries_findRound (carries_keeps (scanRights true)) hhold plan vars 0

end Kept

end TdhSocket.Execute
