import TdhSocket.Execute.Frame

/-!
# What a request thread does to its context

Around the execution of single packets a request thread opens, locks and unlocks tables, ends
statements, keeps the flags of its context and the lists of the packets it started. `Step` adds
these to the moves of a set of packets. As in `Carries`, a property of programs that holds of every
step, of the loops of `do_find`, and is kept by sequences (`Conducts`) holds of the processing of a
request (`conducts_onServerProcess`).

`conducts_along` and `conducts_settles` are the two properties for which this is used: what the
steps of some packets leave alone, and that with enough rounds the thread comes to its end.
-/

set_option autoImplicit false

namespace TdhSocket.Execute

open Protocol Decode Library Library.Program

variable {Outside Record Value : Type}

/-! ### Steps -/

/-- A call of the world that is made for no single row. -/
inductive StatementCalled (world : World Outside Record) : Outside → Outside → Prop
  | openTable (tableInfo : TdhsRequestTable) (outside : Outside) :
    StatementCalled world outside (world.openTable tableInfo outside).2
  | lockTables (tables : List ℕ) (outside : Outside) :
    StatementCalled world outside (world.lockTables tables outside).2
  | transCommitStmt (outside : Outside) :
    StatementCalled world outside (world.transCommitStmt outside).2
  | timedOut (number : ℕ) (outside : Outside) :
    StatementCalled world outside (world.timedOut number outside).2

/-- One change of the context by a request thread that executes packets of a set. -/
inductive Step (world : World Outside Record) (owners : Owner → Prop) (streams : Bool) :
    Context Outside Record → Context Outside Record → Prop
  | moved {context after : Context Outside Record} {owner : Owner} (howner : owners owner)
      (hmove : Move world owner (fullRights streams) context after) :
    Step world owners streams context after
  | called {context : Context Outside Record} {outside : Outside}
      (hcalled : StatementCalled world context.outside outside) :
    Step world owners streams context { context with outside := outside }
  | noted {context : Context Outside Record} (lock writeError inBatch : Bool)
      (events : List (Event Record)) (outcomes : List Outcome) :
    Step world owners streams context
      { context with
        lock := lock
        writeError := writeError
        inBatch := inBatch
        events := events
        outcomes := outcomes }
  | returned {context : Context Outside Record} {owner : Owner} (howner : owners owner)
      (retcode : RetCode) (more : List Owner) :
    Step world owners streams context
      { context with retcode := retcode, started := context.started ++ more }

/-- Any number of steps. -/
abbrev Steps (world : World Outside Record) (owners : Owner → Prop) (streams : Bool) :
    Context Outside Record → Context Outside Record → Prop :=
  Relation.ReflTransGen (Step world owners streams)

section Frame

variable {world : World Outside Record} {owners : Owner → Prop} {streams : Bool}
  {start final : Context Outside Record} (hsteps : Steps world owners streams start final)

include hsteps

/-- The responses of other packets are left alone. -/
theorem Steps.response_eq {owner : Owner} (howner : ¬owners owner) :
    final.response owner = start.response owner := by
  induction hsteps with
  | refl => rfl
  | tail _ hstep ih =>
    cases hstep with
    | moved hmover hmove =>
      exact (hmove.works.response owner fun hsame ↦ howner (hsame ▸ hmover)).trans ih
    | called _ => exact ih
    | noted _ _ _ _ _ => exact ih
    | returned _ _ _ => exact ih

/-- Without a packet nothing is returned for `execute`. -/
theorem Steps.retcode_eq (hnone : ∀ owner, ¬owners owner) : final.retcode = start.retcode := by
  induction hsteps with
  | refl => rfl
  | tail _ hstep ih =>
    cases hstep with
    | moved hmover _ => exact absurd hmover (hnone _)
    | called _ => exact ih
    | noted _ _ _ _ _ => exact ih
    | returned howner _ _ => exact absurd howner (hnone _)

end Frame

variable {world : World Outside Record}

variable {streams : Bool}

variable {owners : Owner → Prop}

/-- The moves of a packet are steps. -/
theorem Moves.steps {owner : Owner} {start final : Context Outside Record}
    (hmoves : Moves world owner (fullRights streams) start final) (howner : owners owner) :
    Steps world owners streams start final :=
  Relation.ReflTransGen.mono (fun _ _ ↦ .moved howner) _ _ hmoves

/-- Something about the outside that no call of a request thread changes. -/
structure Lasting (world : World Outside Record) (streams : Bool) (Sound : Outside → Prop) :
    Prop where
  called : ∀ {before after : Outside}, Called world (fullRights streams) before after →
    Sound before → Sound after
  statementCalled : ∀ {before after : Outside}, StatementCalled world before after →
    Sound before → Sound after

/-- With fewer rights there are fewer calls. -/
theorem Lasting.quiet {Sound : Outside → Prop} (hlasting : Lasting world streams Sound) :
    Lasting world false Sound := by
  have hle : (fullRights false).Le (fullRights streams) :=
    ⟨fun hno ↦ absurd hno Bool.false_ne_true, id, id⟩
  exact ⟨fun hcalled ↦ hlasting.called (hcalled.mono hle), hlasting.statementCalled⟩

theorem Steps.sound {start final : Context Outside Record}
    (hsteps : Steps world owners streams start final) {Sound : Outside → Prop}
    (hlasting : Lasting world streams Sound) (hsound : Sound start.outside) :
    Sound final.outside := by
  induction hsteps with
  | refl => exact hsound
  | tail _ hstep ih =>
    cases hstep with
    | moved _ hmove =>
      cases hmove with
      | called hcalled => exact hlasting.called hcalled ih
      | logged _ => exact ih
      | responded _ => exact ih
      | counted _ _ => exact ih
    | called hcalled => exact hlasting.statementCalled hcalled ih
    | noted _ _ _ _ _ => exact ih
    | returned _ _ _ => exact ih

/-! ### Properties that steps have -/

/-- The handlers of GET, if chunks may be sent, and of the other types of `do_find`. -/
inductive RowHandlers (world : World Outside Record) (owner : Owner) (streams : Bool) :
    FindHandlers Outside Record → Prop
  | get (hstreams : streams = true) : RowHandlers world owner streams (getHandlers world owner)
  | count : RowHandlers world owner streams (countHandlers world owner)
  | update (values : TdhsRequestValues) :
    RowHandlers world owner streams (updateHandlers world owner values)
  | delete : RowHandlers world owner streams (deleteHandlers world owner)

theorem RowHandlers.hold {owner : Owner} {holds : Property (Context Outside Record)}
    {handlers : FindHandlers Outside Record} (hhandlers : RowHandlers world owner streams handlers)
    (hcarries : Carries world owner (rowRights streams) holds) : HandlersHold holds handlers := by
  have hquiet : Carries world owner (rowRights false) holds :=
    hcarries.mono ⟨fun hno ↦ absurd hno Bool.false_ne_true, id, id⟩
  cases hhandlers with
  | get hstreams =>
    rw [hstreams] at hcarries
    exact handlersHold_getHandlers hcarries
  | count => exact handlersHold_countHandlers hquiet
  | update values => exact handlersHold_updateHandlers hquiet values
  | delete => exact handlersHold_deleteHandlers hquiet

/-- A property of programs that holds of every single step and of the loops of `do_find`, and is
kept by sequences. -/
structure Conducts (world : World Outside Record) (owners : Owner → Prop) (streams : Bool)
    (holds : Property (Context Outside Record)) : Prop extends Closed holds where
  step : ∀ {Value : Type} {program : Execution Outside Record Value},
    Goes (Step world owners streams) program → holds Value fun _ ↦ program
  find : ∀ {owner : Owner}, owners owner → ∀ {handlers : FindHandlers Outside Record},
    RowHandlers world owner streams handlers → ∀ plan vars, holds FindExit fun rounds ↦
      loop (findRound world owner handlers plan) rounds vars

theorem Conducts.carries {holds : Property (Context Outside Record)}
    (hconducts : Conducts world owners streams holds) {owner : Owner} (howner : owners owner) :
    Carries world owner (fullRights streams) holds :=
  { hconducts.toClosed with
    move := fun hgoes ↦ hconducts.step (hgoes.mono fun _ _ ↦ .moved howner) }

theorem conducts_along (world : World Outside Record) (owners : Owner → Prop) (streams : Bool) :
    Conducts world owners streams
      fun (Value : Type) (program : ℕ → Execution Outside Record Value) ↦
        ∀ rounds, Along (Steps world owners streams) (program rounds) := by
  refine { closed_along with
    step := fun hgoes _ ↦ hgoes.along.mono fun _ _ ↦ Relation.ReflTransGen.single
    find := fun {owner} howner {handlers} hhandlers plan vars rounds ↦ ?_ }
  have hround : ∀ vars, Along (Moves world owner (scanRights streams))
      (findRound world owner handlers plan vars) := by
    have hcarries := carries_along world owner (scanRights streams)
    have hhold := hhandlers.hold (hcarries.mono (rowRights_le_scanRights streams))
    exact fun vars ↦ carries_findRound hcarries hhold plan vars rounds
  refine along_loop (fun vars ↦ (hround vars).mono fun start final hmoves ↦ ?_) rounds vars
  exact (hmoves.mono (scanRights_le_fullRights streams)).steps howner

/-! ### Statements -/

section Statements

variable {world : World Outside Record} {owners : Owner → Prop} {streams : Bool}
  {holds : Property (Context Outside Record)} (hconducts : Conducts world owners streams holds)

include hconducts

theorem conducts_ask {call : Outside → Value × Outside}
    (hcall : ∀ outside, StatementCalled world outside (call outside).2) :
    holds Value fun _ ↦ ask call :=
  hconducts.step fun start ↦ ⟨_, _, rfl, .called (hcall start.outside)⟩

/-- A change of the flags and logs. -/
theorem conducts_note {change : Context Outside Record → Context Outside Record}
    (hchange : ∀ context, change context =
      { context with
        lock := (change context).lock
        writeError := (change context).writeError
        inBatch := (change context).inBatch
        events := (change context).events
        outcomes := (change context).outcomes }) :
    holds Unit fun _ ↦ Program.modify change := by
  refine hconducts.step (goes_modify fun context ↦ ?_)
  rw [hchange context]
  exact .noted _ _ _ _ _

theorem conducts_tdhsUnlockTable (request : Option ℕ) :
    holds RetCode fun _ ↦ tdhsUnlockTable world request := by
  have hend : ∀ (ending : Ending) (ret : RetCode), holds RetCode fun _ ↦ (do
      emit (.ended request ending)
      pure ret : Execution Outside Record RetCode) := fun ending ret ↦
    hconducts.bind (conducts_note hconducts fun _ ↦ rfl) fun _ ↦ hconducts.pure ret
  exact hconducts.bind (hconducts.read _) fun _ ↦ Closed.ite (hconducts.pure _) <|
    hconducts.bind (hconducts.read _) fun _ ↦
      hconducts.bind (conducts_note hconducts fun _ ↦ rfl) fun _ ↦ Closed.ite (hend _ _) <|
        hconducts.bind (conducts_ask hconducts fun _ ↦ .transCommitStmt _) fun _ ↦
          Closed.ite (hend _ _) (hend _ _)

theorem conducts_lockTables (bulk : Bool) (tables : List ℕ) :
    holds Unit fun _ ↦ lockTables world bulk tables :=
  hconducts.bind (hconducts.read _) fun _ ↦ Closed.ite (hconducts.pure _) <|
    hconducts.bind (conducts_ask hconducts fun _ ↦ .lockTables _ _) fun _ ↦
      conducts_note hconducts fun _ ↦ rfl

theorem conducts_unlockTables (bulk : Bool) (request : ℕ) :
    holds RetCode fun _ ↦ unlockTables world bulk request :=
  hconducts.bind (hconducts.read _) fun _ ↦ Closed.ite (hconducts.pure _) <|
    hconducts.bind (conducts_tdhsUnlockTable hconducts _) fun _ ↦
      hconducts.bind (conducts_note hconducts fun _ ↦ rfl) fun _ ↦ hconducts.pure _

/-! ### Requests -/

variable {owner : Owner} (howner : owners owner)

include howner in
theorem conducts_tdhsResponseError (status code : ℕ) :
    holds RetCode fun _ ↦ tdhsResponseError world owner status code :=
  carries_tdhsResponseError (hconducts.carries howner) status code

include howner in
/-- A return value for `execute`. -/
theorem conducts_return (retcode : RetCode) :
    holds Unit fun _ ↦ Program.modify fun context : Context Outside Record ↦
      { context with retcode := retcode } := by
  refine hconducts.step (goes_modify fun context ↦ ?_)
  have hreturned : Step world owners streams context _ := .returned howner retcode []
  rwa [List.append_nil] at hreturned

include howner in
theorem conducts_releaseTableLocker (bulk : Bool) :
    holds Unit fun _ ↦ releaseTableLocker world bulk owner :=
  hconducts.bind (conducts_unlockTables hconducts bulk _) fun _ ↦
    hconducts.bind (hconducts.read _) fun _ ↦ Closed.ite
      (hconducts.bind (conducts_tdhsResponseError hconducts howner _ _) fun _ ↦
        conducts_return hconducts howner _) (hconducts.pure _)

include howner in
/-- A body for the table that is open, in the scope of a table locker. -/
theorem conducts_withOpenedTable (bulk : Bool)
    {body : ℕ → Table Record → Execution Outside Record RetCode}
    (hbody : ∀ table, holds RetCode fun rounds ↦ body rounds table) (opened : OpenedTable Record) :
    holds RetCode fun rounds ↦ withOpenedTable world owner (fun address table ↦
      withTableLocker world bulk owner address (body rounds table)) opened := by
  cases opened with
  | noMemory => exact conducts_tdhsResponseError hconducts howner _ _
  | notOpened => exact conducts_tdhsResponseError hconducts howner _ _
  | opened address table =>
    exact hconducts.bind (conducts_lockTables hconducts bulk _) fun _ ↦
      hconducts.bind (hbody table) fun _ ↦
        hconducts.bind (conducts_releaseTableLocker hconducts howner bulk) fun _ ↦
          hconducts.pure _

include howner in
theorem conducts_doFind {handlers : FindHandlers Outside Record}
    (hhandlers : RowHandlers world owner streams handlers) (bulk : Bool) (request : TdhsRequest)
    (opened : OpenedTable Record) :
    holds RetCode fun rounds ↦ doFind world rounds bulk owner request opened handlers := by
  have hcarries := hconducts.carries howner
  have hhold := hhandlers.hold (hcarries.mono (rowRights_le_fullRights streams))
  refine hconducts.bind (hcarries.move (goes_modify fun _ ↦ .counted _ _)) fun _ ↦ ?_
  exact conducts_withOpenedTable hconducts howner bulk
    (fun table ↦ carries_doFindLocked hcarries hhold (hconducts.find howner hhandlers) request
      table) opened

include howner in
theorem conducts_doBatch {loop : ℕ → Execution Outside Record RetCode}
    (hloop : holds RetCode loop) : holds RetCode fun rounds ↦ doBatch world owner (loop rounds) :=
  hconducts.bind (carries_tdhsResponseBatch (hconducts.carries howner)) fun _ ↦
    Closed.ite (hconducts.pure _) <| hconducts.bind (conducts_note hconducts fun _ ↦ rfl) fun _ ↦
      hconducts.bind hloop fun _ ↦ hconducts.bind (conducts_note hconducts fun _ ↦ rfl) fun _ ↦
        hconducts.pure _

theorem conducts_rewriteUntilError {rewritten : List Owner}
    (hrewritten : ∀ owner ∈ rewritten, owners owner) :
    holds RetCode fun _ ↦ rewriteUntilError world rewritten := by
  induction rewritten with
  | nil => exact hconducts.pure _
  | cons owner rewritten ih =>
    have hrest := ih fun other hother ↦ hrewritten other (List.mem_cons_of_mem _ hother)
    have herror := conducts_tdhsResponseError hconducts (hrewritten owner List.mem_cons_self)
    exact hconducts.bind (hconducts.read _) fun _ ↦ Closed.ite
      (hconducts.bind (herror _ _) fun _ ↦ Closed.ite (hconducts.pure _) hrest) hrest

omit hconducts in
/-- The packet is of the set, and is a GET only if chunks may be sent. -/
structure IsConducted (owners : Owner → Prop) (streams : Bool) (work : Work Record) : Prop where
  owner : owners work.owner
  get : work.request.type = .get → streams = true

variable {work : Work Record} {rest : List (Work Record)}
  (hwork : IsConducted owners streams work)
  (hrest : work.request.type = .batch → ∀ work ∈ rest, IsConducted owners streams work)

include hwork hrest in
section

variable (bulk : Bool) {loop : ℕ → Execution Outside Record RetCode}
  (hloop : work.request.type = .batch → holds RetCode loop)

include hloop

/-- Only a batch looks at the packets behind its own. -/
theorem conducts_dispatch :
    holds RetCode fun rounds ↦ dispatch world rounds bulk work rest (loop rounds) := by
  have howner := hwork.owner
  unfold dispatch
  cases htype : work.request.type with
  | get => exact conducts_doFind hconducts howner (.get (hwork.get htype)) _ _ _
  | count => exact conducts_doFind hconducts howner .count _ _ _
  | update => exact conducts_doFind hconducts howner (.update _) _ _ _
  | delete => exact conducts_doFind hconducts howner .delete _ _ _
  | insert =>
    exact conducts_withOpenedTable hconducts howner bulk
      (fun table ↦ carries_doInsertLocked (hconducts.carries howner) _ table) _
  | batch =>
    have hbatch := conducts_doBatch hconducts howner (hloop htype)
    have hall : ∀ owner ∈ work.owner :: rest.map Work.owner, owners owner := by
      intro owner hmem
      rcases List.mem_cons.mp hmem with rfl | hmem
      · exact howner
      · obtain ⟨other, hother, rfl⟩ := List.mem_map.mp hmem
        exact (hrest htype other hother).owner
    refine Closed.ite hbatch ?_
    exact hconducts.bind (carries_stackLiker (hconducts.carries howner).silent _) fun _ ↦
      Closed.ite (conducts_tdhsResponseError hconducts howner _ _) <|
        hconducts.bind (conducts_lockTables hconducts bulk _) fun _ ↦
          hconducts.bind hbatch fun _ ↦
            hconducts.bind (conducts_unlockTables hconducts bulk _) fun _ ↦
              Closed.ite (conducts_rewriteUntilError hconducts hall) (hconducts.pure _)

include hwork hrest in
theorem conducts_executeWith :
    holds RetCode fun rounds ↦ executeWith world rounds bulk work rest (loop rounds) := by
  have hopening : holds Unit fun _ ↦ Program.modify fun context : Context Outside Record ↦
      { context with retcode := .ok, started := context.started ++ [work.owner] } :=
    hconducts.step (goes_modify fun _ ↦ .returned hwork.owner .ok [work.owner])
  exact hconducts.bind hopening fun _ ↦
    hconducts.bind (conducts_dispatch hconducts hwork hrest bulk hloop) fun _ ↦
      hconducts.bind (hconducts.read _) fun _ ↦
        hconducts.bind (conducts_note hconducts fun _ ↦ rfl) fun _ ↦ hconducts.pure _

end

theorem conducts_executeBatch {works : List (Work Record)}
    (hworks : ∀ work ∈ works, IsConducted owners streams work) (bulk : Bool) :
    holds RetCode fun rounds ↦ executeBatch world rounds bulk works := by
  induction works with
  | nil => exact hconducts.pure _
  | cons work works ih =>
    have hothers : ∀ other ∈ works, IsConducted owners streams other := fun other hother ↦
      hworks other (List.mem_cons_of_mem _ hother)
    have hrest := ih hothers
    refine hconducts.bind (conducts_executeWith hconducts (hworks work List.mem_cons_self)
      (fun _ ↦ hothers) bulk fun _ ↦ hrest) fun _ ↦ ?_
    exact Closed.ite
      (hconducts.bind (conducts_note hconducts fun _ ↦ rfl) fun _ ↦ hconducts.pure _)
      (hconducts.bind (conducts_note hconducts fun _ ↦ rfl) fun _ ↦ hrest)

theorem conducts_onServerProcess {chain : OpenedChain Record}
    (hchain : ∀ work ∈ chain.head :: chain.rest, IsConducted owners streams work) (bulk : Bool) :
    holds Done fun rounds ↦ onServerProcess world rounds bulk chain := by
  have hhead := hchain chain.head List.mem_cons_self
  have hothers : ∀ work ∈ chain.rest, IsConducted owners streams work := fun work hmem ↦
    hchain work (List.mem_cons_of_mem _ hmem)
  refine hconducts.bind (conducts_ask hconducts fun _ ↦ .timedOut _ _) fun _ ↦ Closed.ite ?_ ?_
  · exact hconducts.bind (conducts_tdhsResponseError hconducts hhead.owner _ _) fun _ ↦
      hconducts.pure _
  · exact hconducts.bind (conducts_executeWith hconducts hhead (fun _ ↦ hothers) bulk fun _ ↦
      conducts_executeBatch hconducts hothers bulk) fun _ ↦ hconducts.pure _

end Statements

end TdhSocket.Execute
