import TdhSocket.Encode.Writing

/-!
# Packets handed to tdhs_encode

`Sound` says for each phase of the request thread what its packets are like: written up to some
point, waiting in `send_stream`, or ready for the final answer. Every event keeps it (`Sound.step`),
so every packet that is handed to `tdhs_encode` is ready (`handed_isReady`), for every plan whose
writes come in their order and every interleaving in which `pthread_cond_wait` returns behind a
signal.
-/

set_option autoImplicit false

namespace TdhSocket.Encode

open Execute Library
open Connection (References.Request References.RequestEvent)
open Connection.References
  (Fine IsEnabled IsOutside Phase applyRequest cleanupRequest cleanupRequest_fine
    easyConnectionRequestDone fine_idle newRequest onServerIoProcess requestStep_fine)

variable {opens : Owner → Openness} {exchange after : Exchange}

/-! ### Every interleaving -/

/-- No thread executes the request: nothing was written yet, or the packets of the chain are ready
and may be rewritten. -/
structure Resting (exchange : Exchange) : Prop where
  before : exchange.request.spot = .messageList ∨ exchange.request.spot = .taskList ∨
    exchange.request.spot = .taken → exchange.stage = .idle ∧ ∃ opens, Writing opens exchange
  behind : exchange.request.spot = .executed ∨ exchange.request.spot = .requestList →
    exchange.request.retcode = .ok → exchange.stage = .idle ∧ (∃ opens, Writing opens exchange) ∧
      (∀ owner ∈ exchange.chain, IsReady (exchange.packets owner)) ∧
      ∀ entry ∈ exchange.todo, entry.2.isStream = false

/-- What holds in each phase of the request thread. -/
def Situation (exchange : Exchange) : Prop :=
  match exchange.request.phase with
  | .idle => Resting exchange
  | .running => ∃ opens, Writing opens exchange
  | .sending | .waiting | .resumed => Paused exchange
  | .leaving => True

/-- The packets handed to `tdhs_encode` were ready, and what is going to be handed will be. -/
structure Sound (exchange : Exchange) : Prop where
  fine : Fine exchange.request
  handed : ∀ entry ∈ exchange.handed, IsReady entry.2
  rewriting : IsScript (fun _ write ↦ write.isStream = false) exchange.rewriting
  situation : Situation exchange

/-- The phases of a thread in `send_stream`. -/
def IsPausing (phase : Phase) : Prop :=
  phase = .sending ∨ phase = .waiting ∨ phase = .resumed

section Phases

theorem Situation.resting (hsituation : Situation exchange)
    (hphase : exchange.request.phase = .idle) : Resting exchange := by
  unfold Situation at hsituation
  rwa [hphase] at hsituation

theorem Situation.writing (hsituation : Situation exchange)
    (hphase : exchange.request.phase = .running) : ∃ opens, Writing opens exchange := by
  unfold Situation at hsituation
  rwa [hphase] at hsituation

theorem Situation.paused (hsituation : Situation exchange)
    (hphase : IsPausing exchange.request.phase) : Paused exchange := by
  unfold Situation at hsituation
  rcases hphase with hphase | hphase | hphase <;> rwa [hphase] at hsituation

theorem situation_idle (hphase : exchange.request.phase = .idle) (hresting : Resting exchange) :
    Situation exchange := by
  unfold Situation
  rwa [hphase]

theorem situation_running (hphase : exchange.request.phase = .running)
    (hwriting : ∃ opens, Writing opens exchange) : Situation exchange := by
  unfold Situation
  rwa [hphase]

theorem situation_paused (hphase : IsPausing exchange.request.phase) (hpaused : Paused exchange) :
    Situation exchange := by
  unfold Situation
  rcases hphase with hphase | hphase | hphase <;> rwa [hphase]

theorem situation_leaving (hphase : exchange.request.phase = .leaving) : Situation exchange := by
  unfold Situation
  rw [hphase]
  trivial

/-- The request is in none of the lists in which packets wait. -/
def IsRemoved (request : References.Request) : Prop :=
  request.spot = .nowhere ∨ request.spot = .sessionList ∨ request.spot = .withThread

theorem resting_of_isRemoved (hremoved : IsRemoved exchange.request) : Resting exchange := by
  refine ⟨fun hother ↦ ?_, fun hother ↦ ?_⟩
  · rcases hremoved with hspot | hspot | hspot <;> simp [hspot] at hother
  · rcases hremoved with hspot | hspot | hspot <;> simp [hspot] at hother

end Phases

section

variable (hsituation : Situation exchange) (hpackets : after.packets = exchange.packets)
  (hstage : after.stage = exchange.stage) (htodo : after.todo = exchange.todo)
  (hhead : after.head = exchange.head) (hchain : after.chain = exchange.chain)
  (hphase : after.request.phase = exchange.request.phase)

include hsituation hpackets hstage htodo hhead hchain hphase

/-- What holds in each phase but the first depends on the request only by whether its chunk waits
for the IO thread. -/
theorem Situation.congr
    (hspot : after.request.spot = .requestList → exchange.request.spot = .requestList)
    (hresting : exchange.request.phase = .idle → Resting after) : Situation after := by
  have hpausing : IsPausing exchange.request.phase → Paused after := by
    intro hpauses
    have hpaused := hsituation.paused hpauses
    refine hpaused.congr hpackets hstage htodo hhead hchain fun hlist ↦ ?_
    rw [hpackets, hhead]
    exact hpaused.ready (hspot hlist)
  cases hcase : exchange.request.phase with
  | idle => exact situation_idle (hphase.trans hcase) (hresting hcase)
  | running =>
    obtain ⟨opens, hwriting⟩ := hsituation.writing hcase
    exact situation_running (hphase.trans hcase)
      ⟨opens, hwriting.congr hpackets hstage htodo hhead hchain⟩
  | sending => exact situation_paused (.inl (hphase.trans hcase)) (hpausing (.inl hcase))
  | waiting =>
    exact situation_paused (.inr (.inl (hphase.trans hcase))) (hpausing (.inr (.inl hcase)))
  | resumed =>
    exact situation_paused (.inr (.inr (hphase.trans hcase))) (hpausing (.inr (.inr hcase)))
  | leaving => exact situation_leaving (hphase.trans hcase)

/-- The request was taken from the list it was in. -/
theorem Situation.removed
    (hremoved : IsRemoved after.request) : Situation after := by
  refine hsituation.congr hpackets hstage htodo hhead hchain hphase (fun hlist ↦ ?_)
    fun _ ↦ resting_of_isRemoved hremoved
  rcases hremoved with hspot | hspot | hspot <;> simp [hspot] at hlist

end

/-! ### The steps -/

/-- What a thread that writes leaves alone. -/
structure IsFramed (exchange after : Exchange) : Prop where
  request : after.request = exchange.request
  chain : after.chain = exchange.chain
  rewriting : after.rewriting = exchange.rewriting
  handed : after.handed = exchange.handed

theorem writeStep_isFramed (hstep : exchange.writeStep = some after) : IsFramed exchange after := by
  unfold Exchange.writeStep at hstep
  split at hstep
  · split at hstep
    · cases hstep
    · cases hstep
      exact ⟨rfl, rfl, rfl, rfl⟩
    · cases hstep
      exact ⟨rfl, rfl, rfl, rfl⟩
  · split_ifs at hstep
    cases hstep
    exact ⟨rfl, rfl, rfl, rfl⟩
  · cases hstep
    exact ⟨rfl, rfl, rfl, rfl⟩
  · cases hstep
    exact ⟨rfl, rfl, rfl, rfl⟩
  · cases hstep

variable (hsound : Sound exchange)

include hsound

theorem Sound.answer {status : ℕ} (hstatus : 400 ≤ status)
    (hspot : exchange.request.spot = .messageList) : Sound (exchange.answered status) := by
  have henabled : IsEnabled exchange.isClosing exchange.request .answer := hspot
  obtain ⟨hfine, -⟩ := requestStep_fine hsound.fine henabled
    (fun hno ↦ by cases hno)
  obtain ⟨hphase, -⟩ := hsound.fine.outside (.inl hspot)
  refine ⟨hfine, fun entry hentry ↦ ?_, hsound.rewriting,
    situation_idle hphase (resting_of_isRemoved (.inl rfl))⟩
  rcases List.mem_append.mp hentry with hold | hnew
  · exact hsound.handed entry hold
  · rw [List.mem_singleton.mp hnew]
    exact ⟨_, ⟨rfl, rfl, rfl, by decide⟩, .inr ⟨.inr (.inr hstatus), Nat.zero_lt_succ 3⟩⟩

/-- After a failed commit the packets are rewritten. -/
theorem Sound.rewrite (hspot : exchange.request.spot = .executed)
    (hok : exchange.request.retcode = .ok) (hstep : exchange.writeStep = some after) :
    Sound after := by
  have hframed := writeStep_isFramed hstep
  obtain ⟨hphase, -⟩ := hsound.fine.outside (.inr (.inr (.inr hspot)))
  obtain ⟨hidle, ⟨opens, hwriting⟩, hready, hquiet⟩ :=
    (hsound.situation.resting hphase).behind (.inl hspot) hok
  refine ⟨hframed.request ▸ hsound.fine, hframed.handed ▸ hsound.handed,
    hframed.rewriting ▸ hsound.rewriting, situation_idle (hframed.request ▸ hphase) ?_⟩
  refine ⟨fun hother ↦ ?_, fun _ _ ↦ ?_⟩
  · rw [hframed.request, hspot] at hother
    simp at hother
  · unfold Exchange.writeStep at hstep
    rw [hidle] at hstep
    cases htodo : exchange.todo with
    | nil =>
      rw [htodo] at hstep
      cases hstep
    | cons entry rest =>
      obtain ⟨owner, write⟩ := entry
      rw [htodo] at hstep hquiet
      have hnone : ∀ bytes, write ≠ .data bytes := by
        rintro bytes rfl
        have hno : (Write.data bytes).isStream = false := hquiet _ List.mem_cons_self
        cases hno
      obtain ⟨hwritten, hafter⟩ := hwriting.perform hidle htodo hnone
      have hothers : ∀ other ∈ exchange.chain, IsReady (Function.update exchange.packets owner
          ((exchange.packets owner).perform write) other) := by
        intro other hmem
        by_cases hother : other = owner
        · subst hother
          simpa using hwritten
        · simpa [Function.update_of_ne hother] using hready other hmem
      cases write with
      | data bytes => exact absurd rfl (hnone bytes)
      | batch | error _ _ | dataHeader _ _ | updateHeader _ _ _ | value _ =>
        cases hstep
        exact ⟨hidle, hafter, hothers, fun entry hentry ↦
          hquiet entry (List.mem_cons_of_mem _ hentry)⟩

theorem Sound.write (hcan : exchange.CanWrite) (hstep : exchange.writeStep = some after) :
    Sound after := by
  rcases hcan with hphase | ⟨hspot, hok⟩
  · have hframed := writeStep_isFramed hstep
    obtain ⟨opens, hwriting⟩ := hsound.situation.writing hphase
    exact ⟨hframed.request ▸ hsound.fine, hframed.handed ▸ hsound.handed,
      hframed.rewriting ▸ hsound.rewriting,
      situation_running (hframed.request ▸ hphase) (hwriting.writeStep hstep)⟩
  · exact hsound.rewrite hspot hok hstep

/-- The IO thread writes bytes of a chunk, which is emptied behind the wait. -/
theorem Sound.socket (hspot : exchange.request.spot = .sessionList) (count : ℕ) :
    Sound (exchange.socketWritten count) := by
  refine ⟨hsound.fine, hsound.handed, hsound.rewriting, ?_⟩
  have hpaused : Paused exchange → Paused (exchange.socketWritten count) := by
    intro hbefore
    have hsame : (exchange.socketWritten count).resumed = exchange.resumed := by
      refine resumed_setPacket hbefore.parked ?_
      simp [resetStream, tdhsInitResponse, Option.map_map, Function.comp_def]
    refine ⟨hbefore.parked, hsame ▸ hbefore.resumes, fun hlist ↦ ?_⟩
    exact absurd (hspot.symm.trans hlist) (by decide)
  cases hphase : exchange.request.phase with
  | idle => exact situation_idle hphase (resting_of_isRemoved (.inr (.inl hspot)))
  | running =>
    exact absurd (hspot.symm.trans (hsound.fine.running hphase).spot) (by decide)
  | sending =>
    exact situation_paused (.inl hphase) (hpaused (hsound.situation.paused (.inl hphase)))
  | waiting =>
    exact situation_paused (.inr (.inl hphase))
      (hpaused (hsound.situation.paused (.inr (.inl hphase))))
  | resumed =>
    exact situation_paused (.inr (.inr hphase))
      (hpaused (hsound.situation.paused (.inr (.inr hphase))))
  | leaving => exact situation_leaving hphase

theorem Sound.destroy (hcan : exchange.CanDestroy) :
    Sound { exchange with
      isClosing := true
      request := cleanupRequest exchange.request } := by
  refine ⟨cleanupRequest_fine hsound.fine hcan, hsound.handed,
    hsound.rewriting, ?_⟩
  have hsame : ∀ r : References.Request,
      (cleanupRequest r).phase = r.phase ∧
        (cleanupRequest r).spot = r.spot ∧
        (cleanupRequest r).retcode = r.retcode := by
    intro r
    unfold cleanupRequest
    split_ifs
    · exact ⟨rfl, rfl, rfl⟩
    · exact ⟨rfl, rfl, rfl⟩
  obtain ⟨hphase, hspot, hretcode⟩ := hsame exchange.request
  refine hsound.situation.congr rfl rfl rfl rfl rfl hphase hspot.symm.trans fun hidle ↦ ?_
  have hresting := hsound.situation.resting hidle
  refine ⟨fun hother ↦ ?_, fun hother hok ↦ ?_⟩
  · obtain ⟨hstage, opens, hwriting⟩ := hresting.before (hspot ▸ hother)
    exact ⟨hstage, opens, hwriting.congr rfl rfl rfl rfl rfl⟩
  · obtain ⟨hstage, ⟨opens, hwriting⟩, hready⟩ :=
      hresting.behind (hspot ▸ hother) (hretcode ▸ hok)
    exact ⟨hstage, ⟨opens, hwriting.congr rfl rfl rfl rfl rfl⟩, hready⟩

/-- The IO thread takes the request from its list and hands the packets to `tdhs_encode`. -/
theorem Sound.opackets_isReady (hspot : exchange.request.spot = .requestList)
    (hencoded : exchange.isEncoded = true) :
    ∀ owner ∈ exchange.opackets, IsReady (exchange.packets owner) := by
  have hretcode : exchange.request.retcode ≠ .error := by
    intro hno
    simp [Exchange.isEncoded, hno] at hencoded
  unfold Exchange.opackets
  rcases hsound.fine.cases with ⟨hphase, houtside⟩ | ⟨-, hreturned⟩ | ⟨hphase, hsent⟩ | habandoned
  · have hagain := houtside.retcode (.inr hspot)
    have hok : exchange.request.retcode = .ok := by
      cases hcase : exchange.request.retcode with
      | ok => rfl
      | again => exact absurd hcase hagain
      | error => exact absurd hcase hretcode
    rw [if_neg hagain]
    exact ((hsound.situation.resting hphase).behind (.inr hspot) hok).2.2.1
  · exact absurd (hspot.symm.trans hreturned.spot) (by decide)
  · have hpaused := hsound.situation.paused (hphase.imp_right fun hwaits ↦ .inl hwaits.1)
    rw [if_pos hsent.retcode]
    intro owner howner
    rw [List.mem_singleton.mp howner]
    exact hpaused.ready hspot
  · have hother := habandoned.spot
    simp [hspot] at hother

/-- Behind `execute` the packets of the chain are ready, and what is rewritten comes in its order
whatever was written before. -/
theorem Sound.finished (hphase : exchange.request.phase = .running)
    (hidle : exchange.stage = .idle) (htodo : exchange.todo = [])
    (request : References.Request) :
    (∃ opens, Writing opens
        { exchange with todo := exchange.rewriting, request := request }) ∧
      ∀ owner ∈ exchange.chain, IsReady (exchange.packets owner) := by
  obtain ⟨opens, hwriting⟩ := hsound.situation.writing hphase
  have hnone : ∀ owner, exchange.stage.owner ≠ some owner := fun owner ↦ by
    rw [hidle]
    exact fun hno ↦ by cases hno
  have hready : ∀ owner ∈ exchange.chain, IsReady (exchange.packets owner) := by
    intro owner howner
    rcases hwriting.covers owner howner with hready | hleft | hbusy
    · exact hready
    · rw [htodo] at hleft
      exact absurd rfl hleft
    · exact absurd hbusy (hnone owner)
  refine ⟨⟨fun _ ↦ .shut, ?_, fun _ ↦ trivial, (fun _ hno ↦ by cases hno), ?_, ?_, ?_⟩,
    hready⟩
  · exact fun owner ↦ hsound.rewriting.ordered owner .shut
  · intro entry hentry hstream
    exact absurd (hsound.rewriting.allowed entry hentry) (by rw [hstream]; decide)
  · exact fun owner howner ↦ .inl (hready owner howner)
  · exact fun owner howner ↦ absurd howner (hnone owner)

section

variable {event : References.RequestEvent}
  (henabled : IsEnabled exchange.isClosing exchange.request event)
  (hguarded : exchange.IsGuarded event)

include henabled hguarded

/-- The situation behind an event of the request. -/
theorem Sound.situation_request :
    Situation { exchange.follow event with
      request := (applyRequest exchange.request event).1 } := by
  have hfine := hsound.fine
  have hsituation := hsound.situation
  cases event with
  | answer => exact absurd hguarded not_false
  | push =>
    have hspot : exchange.request.spot = .messageList := henabled
    obtain ⟨hphase, -⟩ := hfine.outside (.inl hspot)
    obtain ⟨hidle, opens, hwriting⟩ := (hsituation.resting hphase).before (.inl hspot)
    exact situation_idle hphase ⟨fun _ ↦ ⟨hidle, opens, hwriting.congr rfl rfl rfl rfl rfl⟩,
      fun hother ↦ by simp [applyRequest] at hother⟩
  | take =>
    have hspot : exchange.request.spot = .taskList := henabled
    obtain ⟨hphase, -⟩ := hfine.outside (.inr (.inl hspot))
    obtain ⟨hidle, opens, hwriting⟩ := (hsituation.resting hphase).before (.inr (.inl hspot))
    exact situation_idle hphase ⟨fun _ ↦ ⟨hidle, opens, hwriting.congr rfl rfl rfl rfl rfl⟩,
      fun hother ↦ by simp [applyRequest] at hother⟩
  | start =>
    obtain ⟨hphase, -⟩ := hfine.outside (.inr (.inr (.inl henabled.1)))
    obtain ⟨-, opens, hwriting⟩ :=
      (hsituation.resting hphase).before (.inr (.inr henabled.1))
    exact situation_running rfl ⟨opens, hwriting.congr rfl rfl rfl rfl rfl⟩
  | refuse =>
    obtain ⟨hphase, -⟩ := hfine.outside (.inr (.inr (.inl henabled.1)))
    exact situation_idle hphase
      ⟨fun hother ↦ by simp [applyRequest] at hother,
        fun _ hok ↦ by simp [applyRequest] at hok⟩
  | redispatch =>
    obtain ⟨opens, hwriting⟩ := hsituation.writing henabled.1
    exact situation_idle rfl
      ⟨fun _ ↦ ⟨hguarded, opens, hwriting.congr rfl rfl rfl rfl rfl⟩,
        fun hother ↦ by simp [applyRequest] at hother⟩
  | sendStream =>
    obtain ⟨opens, hwriting⟩ := hsituation.writing henabled
    obtain ⟨owner, hpending⟩ := Option.isSome_iff_exists.mp hguarded
    obtain ⟨hparked, howner⟩ := pending_parked hpending
    obtain ⟨rfl, -⟩ := hwriting.stage owner howner
    have hready : IsReady { exchange.packets exchange.head with code := clientStatusAccept } :=
      hwriting.chunk_isReady hpending
    have hresumed : (exchange.setPacket exchange.head
        { exchange.packets exchange.head with code := clientStatusAccept }).resumed =
        exchange.resumed := resumed_setPacket hparked rfl
    have hsent : Paused (exchange.setPacket exchange.head
        { exchange.packets exchange.head with code := clientStatusAccept }) := by
      refine ⟨hparked, ⟨opens, hresumed ▸ hwriting.resumed hparked⟩, fun _ ↦ ?_⟩
      simpa [Exchange.setPacket] using hready
    refine situation_paused (.inl rfl) ?_
    rw [Exchange.follow, hpending]
    refine hsent.congr rfl rfl rfl rfl rfl fun _ ↦ ?_
    simpa [Exchange.setPacket] using hready
  | wait =>
    have hpaused := hsituation.paused (.inl henabled)
    exact situation_paused (.inr (.inl rfl)) (hpaused.congr rfl rfl rfl rfl rfl hpaused.ready)
  | wake =>
    have hpaused := hsituation.paused (.inr (.inl henabled))
    exact situation_paused (.inr (.inr rfl)) (hpaused.congr rfl rfl rfl rfl rfl hpaused.ready)
  | check =>
    have hpaused := hsituation.paused (.inr (.inr henabled))
    by_cases hclosed : exchange.request.isClosed = true
    · refine situation_leaving ?_
      simp [applyRequest, hclosed]
    · obtain ⟨opens, hwriting⟩ := hpaused.resumes
      refine situation_running ?_ ⟨opens, ?_⟩
      · simp [applyRequest, hclosed]
      · rw [Exchange.follow, if_neg hclosed]
        exact hwriting.congr rfl rfl rfl rfl rfl
  | leave =>
    have habandoned := hfine.leaving henabled
    exact situation_idle rfl (resting_of_isRemoved (habandoned.spot.elim (.inr ∘ .inl) .inl))
  | finish failed =>
    obtain ⟨hidle, htodo⟩ := hguarded
    refine situation_idle rfl ⟨fun hother ↦ ?_, fun _ hok ↦ ?_⟩
    · simp [applyRequest] at hother
    · cases failed with
      | true => simp [applyRequest] at hok
      | false =>
        obtain ⟨hwriting, hready⟩ := hsound.finished henabled hidle (htodo rfl)
          (applyRequest exchange.request (.finish false)).1
        exact ⟨hidle, hwriting, hready, fun entry hentry ↦
          hsound.rewriting.allowed entry hentry⟩
  | handOver =>
    have hspot : exchange.request.spot = .executed := henabled
    obtain ⟨hphase, -⟩ := hfine.outside (.inr (.inr (.inr hspot)))
    refine situation_idle hphase ⟨fun hother ↦ ?_, fun _ hok ↦ ?_⟩
    · simp [applyRequest] at hother
    · obtain ⟨hidle, ⟨opens, hwriting⟩, hready, hquiet⟩ :=
        (hsituation.resting hphase).behind (.inl hspot) hok
      exact ⟨hidle, ⟨opens, hwriting.congr rfl rfl rfl rfl rfl⟩, hready, hquiet⟩
  | sendResponse encoded =>
    have hdone : (easyConnectionRequestDone encoded exchange.request).phase =
          exchange.request.phase ∧
        IsRemoved (easyConnectionRequestDone encoded exchange.request) := by
      unfold easyConnectionRequestDone
      split_ifs
      · exact ⟨rfl, .inr (.inl rfl)⟩
      · exact ⟨rfl, .inl rfl⟩
      · exact ⟨rfl, .inl rfl⟩
    cases encoded with
    | true => exact hsituation.removed rfl rfl rfl rfl rfl hdone.1 hdone.2
    | false => exact hsituation.removed rfl rfl rfl rfl rfl hdone.1 hdone.2
  | drain =>
    have hdone : (onServerIoProcess exchange.request).1.phase =
          exchange.request.phase ∧
        IsRemoved (onServerIoProcess exchange.request).1 := by
      unfold onServerIoProcess
      split_ifs
      · exact ⟨rfl, .inr (.inr rfl)⟩
      · exact ⟨rfl, .inl rfl⟩
    exact hsituation.removed rfl rfl rfl rfl rfl hdone.1 hdone.2

theorem Sound.request
    (hsignal : event = .wake → exchange.request.isSignalled = true) :
    Sound { exchange.follow event with
      request := (applyRequest exchange.request event).1 } := by
  refine ⟨(requestStep_fine hsound.fine henabled hsignal).1, ?_, ?_,
    hsound.situation_request henabled hguarded⟩
  · cases event with
    | sendResponse encoded =>
      cases encoded with
      | false => exact hsound.handed
      | true =>
        intro entry hentry
        rcases List.mem_append.mp hentry with hold | hnew
        · exact hsound.handed entry hold
        · obtain ⟨owner, howner, rfl⟩ := List.mem_map.mp hnew
          exact hsound.opackets_isReady henabled hguarded.symm owner howner
    | sendStream =>
      obtain ⟨owner, hpending⟩ := Option.isSome_iff_exists.mp hguarded
      rw [Exchange.follow, hpending]
      exact hsound.handed
    | check =>
      rw [Exchange.follow]
      split_ifs
      · exact hsound.handed
      · rw [resumed_handed]
        exact hsound.handed
    | answer | push | take | start | refuse | redispatch | wait | wake | leave | finish _
    | handOver | drain => exact hsound.handed
  · cases event with
    | sendResponse encoded =>
      cases encoded with
      | false => exact hsound.rewriting
      | true => exact hsound.rewriting
    | sendStream =>
      obtain ⟨owner, hpending⟩ := Option.isSome_iff_exists.mp hguarded
      rw [Exchange.follow, hpending]
      exact hsound.rewriting
    | check =>
      rw [Exchange.follow]
      split_ifs
      · exact hsound.rewriting
      · rw [resumed_rewriting]
        exact hsound.rewriting
    | answer | push | take | start | refuse | redispatch | wait | wake | leave | finish _
    | handOver | drain => exact hsound.rewriting

end

theorem Sound.step {event : Event} (hsignalled : IsSignalled exchange event)
    (hstep : step exchange event = some after) : Sound after := by
  cases event with
  | answer status =>
    obtain ⟨⟨hspot, hstatus⟩, hsome⟩ := Option.ite_none_right_eq_some.mp hstep
    cases hsome
    exact hsound.answer hstatus hspot
  | write =>
    obtain ⟨hcan, hwrite⟩ := Option.ite_none_right_eq_some.mp hstep
    exact hsound.write hcan hwrite
  | request event =>
    obtain ⟨⟨henabled, hguarded⟩, hsome⟩ := Option.ite_none_right_eq_some.mp hstep
    cases hsome
    refine hsound.request henabled hguarded ?_
    rintro rfl
    exact hsignalled
  | socket count =>
    obtain ⟨hspot, hsome⟩ := Option.ite_none_right_eq_some.mp hstep
    cases hsome
    exact hsound.socket hspot count
  | destroy =>
    obtain ⟨hcan, hsome⟩ := Option.ite_none_right_eq_some.mp hstep
    cases hsome
    exact hsound.destroy hcan

omit hsound

/-- The writes of a plan come in their order, data goes to the first packet, every packet of the
chain is written, and no data is written behind `execute`. -/
structure Plan.IsLegal (plan : Plan) : Prop where
  writes : IsScript (fun owner write ↦ write.isStream = true → owner = plan.head) plan.writes
  rewriting : IsScript (fun _ write ↦ write.isStream = false) plan.rewriting
  covers : ∀ owner ∈ plan.chain, writesOf owner plan.writes ≠ []

theorem Plan.IsLegal.sound {plan : Plan} (hlegal : plan.IsLegal) : Sound (newExchange plan) := by
  refine ⟨?_, List.forall_mem_nil _, hlegal.rewriting, ?_⟩
  · have houtside : IsOutside newRequest :=
      ⟨by decide, rfl, rfl, rfl, rfl, by decide⟩
    exact fine_idle rfl houtside
  · refine situation_idle rfl ⟨fun _ ↦ ⟨rfl, fun _ ↦ .shut, ?_⟩, fun hother ↦ ?_⟩
    · exact ⟨fun owner ↦ hlegal.writes.ordered owner .shut, fun _ ↦ trivial,
        (fun _ hno ↦ by cases hno), fun entry hentry hstream ↦
          hlegal.writes.allowed entry hentry hstream,
        fun owner howner ↦ .inr (.inl (hlegal.covers owner howner)),
        (fun _ hno ↦ by cases hno)⟩
    · rcases hother with hother | hother <;> cases hother

/-- The packets handed to `tdhs_encode` are ready. Assumes: a wait in `send_stream` returns behind a
signal. -/
theorem handed_isReady {plan : Plan} (hlegal : plan.IsLegal)
    (hreached : Reached step IsSignalled (newExchange plan) exchange) :
    ∀ entry ∈ exchange.handed, IsReady entry.2 :=
  (hreached.invariant Sound hlegal.sound fun hsound hsignalled hstep ↦
    hsound.step hsignalled hstep).handed

end TdhSocket.Encode
