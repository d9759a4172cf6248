import TdhSocket.Encode.Exchange

/-!
# What holds while a response is written

`Writing` is the invariant of a thread that writes: the writes that are left come in their order,
each packet has what its next write needs, and every packet of the chain is ready, still to be
written, or just being written. A step of the thread keeps it (`Writing.writeStep`). A chunk that
`send_stream` gives to the IO thread is ready (`Writing.chunk_isReady`), and behind the wait the
thread goes on with an empty buffer, whatever the IO thread did to it (`Writing.resumed`,
`resumed_setPacket`).
-/

set_option autoImplicit false

namespace TdhSocket.Encode

open Execute Library
open Connection (References.Request References.RequestEvent)

/-! ### What holds while a thread writes -/

theorem writesOf_cons_self (owner : Owner) (write : Write) (script : Script) :
    writesOf owner ((owner, write) :: script) = write :: writesOf owner script := by
  simp [writesOf]

theorem writesOf_cons_of_ne {owner other : Owner} (hother : other ≠ owner) (write : Write)
    (script : Script) : writesOf other ((owner, write) :: script) = writesOf other script := by
  simp [writesOf, hother.symm]

/-- What the packet is like at each stage. A buffer that was just emptied has nothing in it until
the next byte is written. -/
def Stage.Holds : Stage → ResponsePacket → Prop
  | .idle, _ => True
  | .begin _ _, packet => 0 < packet.length
  | .word _ _, packet => 4 ≤ packet.room
  | .copy _ left, packet => 0 < left ∧ (0 < packet.length ∨ 0 < packet.room)
  | .full _ left, packet => 0 < left ∧ 0 < packet.length

/-- The writes that are left come in their order, and every packet of the chain is ready, is still
to be written, or is being written. -/
structure Writing (opens : Owner → Openness) (exchange : Exchange) : Prop where
  ordered : ∀ owner, ∃ after,
    (writesOf owner exchange.todo).foldlM Openness.next (opens owner) = some after
  accepts : ∀ owner, Accepts (opens owner) (exchange.packets owner)
  positive : ∀ owner, opens owner = .forData → exchange.stage.owner ≠ some owner →
    0 < (exchange.packets owner).length
  streams : ∀ entry ∈ exchange.todo, entry.2.isStream = true → entry.1 = exchange.head
  covers : ∀ owner ∈ exchange.chain, IsReady (exchange.packets owner) ∨
    writesOf owner exchange.todo ≠ [] ∨ exchange.stage.owner = some owner
  stage : ∀ owner, exchange.stage.owner = some owner →
    owner = exchange.head ∧ opens owner = .forData ∧
      exchange.stage.Holds (exchange.packets owner)

variable {opens : Owner → Openness} {exchange after : Exchange} {owner : Owner}

section

variable (hwriting : Writing opens exchange)

include hwriting

/-- A write that hands nothing over. -/
theorem Writing.perform (hidle : exchange.stage = .idle) {write : Write} {rest : Script}
    (htodo : exchange.todo = (owner, write) :: rest) (hdata : ∀ bytes, write ≠ .data bytes) :
    IsReady ((exchange.packets owner).perform write) ∧ ∃ opened, Writing opened
      { exchange.setPacket owner ((exchange.packets owner).perform write) with todo := rest } := by
  obtain ⟨final, hfinal⟩ := hwriting.ordered owner
  rw [htodo, writesOf_cons_self, List.foldlM_cons] at hfinal
  obtain ⟨next, hnext, hrest⟩ := Option.bind_eq_some_iff.mp hfinal
  obtain ⟨hready, haccepts⟩ := isReady_perform (hwriting.accepts owner) hnext hdata
  have hnone : ∀ other, exchange.stage.owner ≠ some other := fun other ↦ by
    rw [hidle]
    exact fun hno ↦ by cases hno
  refine ⟨hready, Function.update opens owner next, ?_, ?_, ?_, ?_, ?_, ?_⟩
  · intro other
    by_cases hother : other = owner
    · subst hother
      exact ⟨final, by simpa using hrest⟩
    · obtain ⟨last, hlast⟩ := hwriting.ordered other
      rw [htodo, writesOf_cons_of_ne hother] at hlast
      exact ⟨last, by simpa [Function.update_of_ne hother] using hlast⟩
  · intro other
    by_cases hother : other = owner
    · subst hother
      simpa [Exchange.setPacket] using haccepts
    · simpa [Exchange.setPacket, Function.update_of_ne hother] using hwriting.accepts other
  · intro other hopens _
    by_cases hother : other = owner
    · subst hother
      obtain ⟨b, -, ⟨hcode, -⟩ | ⟨-, hpositive⟩⟩ := hready
      · -- The header of a batch is not open for data.
        rw [Function.update_self] at hopens
        subst hopens
        obtain ⟨b, hfilling⟩ := haccepts
        exact absurd (hfilling.code.symm.trans hcode) (by decide)
      · simpa [Exchange.setPacket] using hpositive
    · rw [Function.update_of_ne hother] at hopens
      simpa [Exchange.setPacket, Function.update_of_ne hother] using
        hwriting.positive other hopens (hnone other)
  · intro entry hentry hstream
    exact hwriting.streams entry (htodo ▸ List.mem_cons_of_mem _ hentry) hstream
  · intro other hmem
    by_cases hother : other = owner
    · subst hother
      exact .inl (by simpa [Exchange.setPacket] using hready)
    · have hcovers := hwriting.covers other hmem
      rw [htodo, writesOf_cons_of_ne hother] at hcovers
      simpa [Exchange.setPacket, Function.update_of_ne hother] using hcovers
  · exact fun other howner ↦ absurd howner (hnone other)

/-- `write_data_to_response` is called. -/
theorem Writing.begin (hidle : exchange.stage = .idle) {bytes : List UInt8} {rest : Script}
    (htodo : exchange.todo = (owner, .data bytes) :: rest) :
    Writing opens { exchange with stage := .begin owner bytes.length, todo := rest } := by
  obtain ⟨final, hfinal⟩ := hwriting.ordered owner
  rw [htodo, writesOf_cons_self, List.foldlM_cons] at hfinal
  obtain ⟨next, hnext, hrest⟩ := Option.bind_eq_some_iff.mp hfinal
  have hopens : opens owner = .forData ∧ next = .forData := by
    cases hcase : opens owner with
    | shut =>
      rw [hcase] at hnext
      cases hnext
    | forData =>
      rw [hcase] at hnext
      exact ⟨rfl, (Option.some.inj hnext).symm⟩
    | forValues left =>
      rw [hcase] at hnext
      cases left <;> cases hnext
  have hnone : ∀ other, exchange.stage.owner ≠ some other := fun other ↦ by
    rw [hidle]
    exact fun hno ↦ by cases hno
  refine ⟨?_, hwriting.accepts, ?_, ?_, ?_, ?_⟩
  · intro other
    by_cases hother : other = owner
    · subst hother
      rw [hopens.1]
      exact ⟨final, hopens.2 ▸ hrest⟩
    · obtain ⟨last, hlast⟩ := hwriting.ordered other
      rw [htodo, writesOf_cons_of_ne hother] at hlast
      exact ⟨last, hlast⟩
  · exact fun other hforData _ ↦ hwriting.positive other hforData (hnone other)
  · intro entry hentry hstream
    exact hwriting.streams entry (htodo ▸ List.mem_cons_of_mem _ hentry) hstream
  · intro other hmem
    by_cases hother : other = owner
    · exact .inr (.inr (by rw [hother]; rfl))
    · have hcovers := hwriting.covers other hmem
      rw [htodo, writesOf_cons_of_ne hother] at hcovers
      exact hcovers.imp_right fun hleft ↦ hleft.imp_right fun hno ↦ absurd hno (hnone other)
  · intro other howner
    obtain rfl : owner = other := Option.some.inj howner
    have hhead := hwriting.streams (owner, .data bytes) (htodo ▸ List.mem_cons_self) rfl
    exact ⟨hhead, hopens.1, hwriting.positive owner hopens.1 (hnone owner)⟩

/-- The packet data is written to changes, and the stage with it. -/
theorem Writing.fill (howner : exchange.stage.owner = some owner) {packet : ResponsePacket}
    {stage : Stage} (hfilling : ∃ b, IsFilling packet b)
    (hstage : (stage.owner = some owner ∧ stage.Holds packet) ∨
      (stage = .idle ∧ 0 < packet.length)) :
    Writing opens { exchange.setPacket owner packet with stage := stage } := by
  obtain ⟨hhead, hopens, -⟩ := hwriting.stage owner howner
  have hwritten : stage.owner ≠ some owner → 0 < packet.length := fun hno ↦
    (hstage.resolve_left fun hyes ↦ hno hyes.1).2
  have hothers : ∀ other, other ≠ owner → exchange.stage.owner ≠ some other :=
    fun other hother hno ↦ hother (Option.some.inj (hno.symm.trans howner))
  refine ⟨hwriting.ordered, ?_, ?_, hwriting.streams, ?_, ?_⟩
  · intro other
    by_cases hother : other = owner
    · subst hother
      have haccepts : Accepts .forData packet := hfilling
      rw [hopens]
      simpa [Exchange.setPacket] using haccepts
    · simpa [Exchange.setPacket, Function.update_of_ne hother] using hwriting.accepts other
  · intro other hforData hno
    by_cases hother : other = owner
    · subst hother
      simpa [Exchange.setPacket] using hwritten hno
    · simpa [Exchange.setPacket, Function.update_of_ne hother] using
        hwriting.positive other hforData (hothers other hother)
  · intro other hmem
    by_cases hother : other = owner
    · subst hother
      by_cases hstays : stage.owner = some other
      · exact .inr (.inr hstays)
      · obtain ⟨b, hfilling⟩ := hfilling
        have hready : IsReady packet :=
          ⟨b, hfilling.toIsCounted, .inr ⟨.inl hfilling.code, hwritten hstays⟩⟩
        exact .inl (by simpa [Exchange.setPacket] using hready)
    · have hcovers := hwriting.covers other hmem
      rw [Exchange.setPacket]
      simp only [Function.update_of_ne hother]
      exact hcovers.imp_right fun hleft ↦ .inl
        (hleft.resolve_right (hothers other hother))
  · intro other hother
    rcases hstage with ⟨hsame, hholds⟩ | ⟨rfl, -⟩
    · obtain rfl : owner = other := Option.some.inj (hsame.symm.trans hother)
      exact ⟨hhead, hopens, by simpa [Exchange.setPacket] using hholds⟩
    · cases hother

/-- The buffer of the packet data is written to. -/
theorem Writing.filling (howner : exchange.stage.owner = some owner) :
    (∃ b, IsFilling (exchange.packets owner) b) ∧
      exchange.stage.Holds (exchange.packets owner) := by
  obtain ⟨-, hopens, hholds⟩ := hwriting.stage owner howner
  have haccepts := hwriting.accepts owner
  rw [hopens] at haccepts
  exact ⟨haccepts, hholds⟩

/-- The step of a thread that writes. -/
theorem Writing.writeStep (hstep : exchange.writeStep = some after) :
    ∃ opened, Writing opened after := by
  have hfilling := fun owner (howner : exchange.stage.owner = some owner) ↦
    hwriting.filling howner
  unfold Exchange.writeStep at hstep
  cases hstage : exchange.stage with
  | idle =>
    rw [hstage] at hstep
    cases htodo : exchange.todo with
    | nil =>
      rw [htodo] at hstep
      cases hstep
    | cons entry rest =>
      obtain ⟨owner, write⟩ := entry
      rw [htodo] at hstep
      by_cases hdata : ∃ bytes, write = .data bytes
      · obtain ⟨bytes, rfl⟩ := hdata
        cases hstep
        exact ⟨opens, hwriting.begin hstage htodo⟩
      · have hnone : ∀ bytes, write ≠ .data bytes := fun bytes hno ↦ hdata ⟨bytes, hno⟩
        obtain ⟨-, hafter⟩ := hwriting.perform hstage htodo hnone
        cases write with
        | data bytes => exact absurd rfl (hnone bytes)
        | batch | error _ _ | dataHeader _ _ | updateHeader _ _ _ | value _ =>
          cases hstep
          exact hafter
  | begin owner dataLength =>
    rw [hstage] at hstep hfilling
    have howner : exchange.stage.owner = some owner := congrArg Stage.owner hstage
    dsimp only at hstep
    split_ifs at hstep with hroom
    cases hstep
    have hfilled : Writing opens { exchange.setPacket owner (exchange.packets owner) with
        stage := .word owner dataLength } :=
      hwriting.fill howner (hfilling owner rfl).1 (.inl ⟨rfl, Nat.le_of_not_lt hroom⟩)
    rw [Exchange.setPacket, Function.update_eq_self] at hfilled
    exact ⟨opens, hfilled⟩
  | word owner dataLength =>
    rw [hstage] at hstep hfilling
    have howner : exchange.stage.owner = some owner := congrArg Stage.owner hstage
    cases hstep
    obtain ⟨⟨b, hbuffer⟩, hholds⟩ := hfilling owner rfl
    obtain ⟨hafter, hlength⟩ := hbuffer.append hholds
    refine ⟨opens, hwriting.fill howner ⟨_, hafter⟩ ?_⟩
    split_ifs with hzero
    · exact .inr ⟨rfl, by omega⟩
    · exact .inl ⟨rfl, Nat.pos_of_ne_zero hzero, .inl (by omega)⟩
  | copy owner left =>
    rw [hstage] at hstep hfilling
    have howner : exchange.stage.owner = some owner := congrArg Stage.owner hstage
    cases hstep
    obtain ⟨⟨b, hbuffer⟩, hleft, hpositive⟩ := hfilling owner rfl
    obtain ⟨hafter, hlength⟩ := hbuffer.append
      (Nat.min_le_left (exchange.packets owner).room left)
    refine ⟨opens, hwriting.fill howner ⟨_, hafter⟩ ?_⟩
    split_ifs with hzero
    · exact .inr ⟨rfl, by omega⟩
    · exact .inl ⟨rfl, Nat.pos_of_ne_zero hzero, by omega⟩
  | full owner left =>
    rw [hstage] at hstep
    cases hstep

end

/-! ### What holds while a chunk is sent -/

/-- The stage behind the wait of `send_stream`. -/
def Stage.resumed : Stage → Stage
  | .begin owner dataLength => .word owner dataLength
  | .full owner left => .copy owner left
  | stage => stage

section

variable (exchange : Exchange)

theorem resumed_stage : exchange.resumed.stage = exchange.stage.resumed := by
  unfold Exchange.resumed
  cases hstage : exchange.stage <;> simp [Stage.resumed, hstage]

theorem resumed_packets : exchange.resumed.packets =
    exchange.stage.parked.elim exchange.packets fun owner ↦
      Function.update exchange.packets owner (resetStream (exchange.packets owner)) := by
  unfold Exchange.resumed
  cases hstage : exchange.stage <;> simp [Stage.parked, Exchange.setPacket]

theorem resumed_todo : exchange.resumed.todo = exchange.todo := by
  unfold Exchange.resumed
  split <;> rfl

theorem resumed_head : exchange.resumed.head = exchange.head := by
  unfold Exchange.resumed
  split <;> rfl

theorem resumed_handed : exchange.resumed.handed = exchange.handed := by
  unfold Exchange.resumed
  split <;> rfl

theorem resumed_rewriting : exchange.resumed.rewriting = exchange.rewriting := by
  unfold Exchange.resumed
  split <;> rfl

theorem resumed_chain : exchange.resumed.chain = exchange.chain := by
  unfold Exchange.resumed
  split <;> rfl

end

/-- What is left behind the wait of `send_stream` depends neither on the status nor on what the IO
thread sent. -/
theorem resumed_setPacket (hparked : exchange.stage.parked = some owner)
    {packet : ResponsePacket}
    (hreset : resetStream packet = resetStream (exchange.packets owner)) :
    (exchange.setPacket owner packet).resumed = exchange.resumed := by
  cases hstage : exchange.stage with
  | idle | word _ _ | copy _ _ =>
    rw [hstage] at hparked
    cases hparked
  | begin writing _ | full writing _ =>
    rw [hstage] at hparked
    obtain rfl : writing = owner := Option.some.inj hparked
    simp [Exchange.resumed, Exchange.setPacket, hstage, hreset]

theorem pending_parked (hpending : exchange.pending = some owner) :
    exchange.stage.parked = some owner ∧ exchange.stage.owner = some owner := by
  unfold Exchange.pending at hpending
  cases hstage : exchange.stage with
  | idle | word _ _ | copy _ _ =>
    rw [hstage] at hpending
    cases hpending
  | begin writing _ =>
    rw [hstage] at hpending
    dsimp only at hpending
    split_ifs at hpending
    exact ⟨hpending, hpending⟩
  | full writing _ =>
    rw [hstage] at hpending
    exact ⟨hpending, hpending⟩

/-- Behind the wait of `send_stream` the thread goes on with an empty buffer. -/
theorem Writing.resumed (hwriting : Writing opens exchange)
    (hparked : exchange.stage.parked = some owner) : Writing opens exchange.resumed := by
  cases hstage : exchange.stage with
  | idle | word _ _ | copy _ _ =>
    rw [hstage] at hparked
    cases hparked
  | begin writing dataLength =>
    have howner : exchange.stage.owner = some writing := congrArg Stage.owner hstage
    obtain ⟨⟨b, hbuffer⟩, -⟩ := hwriting.filling howner
    obtain ⟨hemptied, hroom⟩ := hbuffer.resetStream
    have hfilled : Writing opens { exchange.setPacket writing
        (resetStream (exchange.packets writing)) with stage := .word writing dataLength } :=
      hwriting.fill howner hemptied (.inl ⟨rfl, hroom⟩)
    simpa [Exchange.resumed, hstage] using hfilled
  | full writing left =>
    have howner : exchange.stage.owner = some writing := congrArg Stage.owner hstage
    obtain ⟨⟨b, hbuffer⟩, hholds⟩ := hwriting.filling howner
    rw [hstage] at hholds
    obtain ⟨hemptied, hroom⟩ := hbuffer.resetStream
    have hfilled : Writing opens { exchange.setPacket writing
        (resetStream (exchange.packets writing)) with stage := .copy writing left } :=
      hwriting.fill howner hemptied (.inl ⟨rfl, hholds.1, .inr (by omega)⟩)
    simpa [Exchange.resumed, hstage] using hfilled

/-- A chunk that `send_stream` gives to the IO thread is ready. -/
theorem Writing.chunk_isReady (hwriting : Writing opens exchange)
    (hpending : exchange.pending = some owner) :
    IsReady { exchange.packets owner with code := clientStatusAccept } := by
  obtain ⟨hparked, howner⟩ := pending_parked hpending
  obtain ⟨⟨b, hbuffer⟩, hholds⟩ := hwriting.filling howner
  refine ⟨b, ⟨hbuffer.wbuff, hbuffer.pos, hbuffer.last, hbuffer.lt⟩, .inr ⟨.inr (.inl rfl), ?_⟩⟩
  cases hstage : exchange.stage with
  | idle | word _ _ | copy _ _ =>
    rw [hstage] at hparked
    cases hparked
  | begin _ _ =>
    rw [hstage] at hholds
    exact hholds
  | full _ _ =>
    rw [hstage] at hholds
    exact hholds.2

/-- The thread is in `send_stream`, and the chunk is ready as long as the IO thread has not encoded
it. -/
structure Paused (exchange : Exchange) : Prop where
  parked : exchange.stage.parked = some exchange.head
  resumes : ∃ opens, Writing opens exchange.resumed
  ready : exchange.request.spot = .requestList → IsReady (exchange.packets exchange.head)

/-! ### Changes that do not count -/

/-- Only the packets, and what is to be written to them, count. -/
theorem Writing.congr (hwriting : Writing opens exchange)
    (hpackets : after.packets = exchange.packets)
    (hstage : after.stage = exchange.stage) (htodo : after.todo = exchange.todo)
    (hhead : after.head = exchange.head) (hchain : after.chain = exchange.chain) :
    Writing opens after := by
  refine ⟨?_, ?_, ?_, ?_, ?_, ?_⟩
  · exact htodo ▸ hwriting.ordered
  · exact hpackets ▸ hwriting.accepts
  · exact hpackets ▸ hstage ▸ hwriting.positive
  · exact htodo ▸ hhead ▸ hwriting.streams
  · exact hchain ▸ hpackets ▸ htodo ▸ hstage ▸ hwriting.covers
  · exact hpackets ▸ hstage ▸ hhead ▸ hwriting.stage

/-- The thread stays in `send_stream`. -/
theorem Paused.congr (hpaused : Paused exchange) (hpackets : after.packets = exchange.packets)
    (hstage : after.stage = exchange.stage) (htodo : after.todo = exchange.todo)
    (hhead : after.head = exchange.head) (hchain : after.chain = exchange.chain)
    (hready : after.request.spot = .requestList → IsReady (after.packets after.head)) :
    Paused after := by
  obtain ⟨opens, hwriting⟩ := hpaused.resumes
  refine ⟨by rw [hstage, hhead, hpaused.parked], ⟨opens, hwriting.congr ?_ ?_ ?_ ?_ ?_⟩, hready⟩
  · rw [resumed_packets, resumed_packets, hstage, hpackets]
  · rw [resumed_stage, resumed_stage, hstage]
  · rw [resumed_todo, resumed_todo, htodo]
  · rw [resumed_head, resumed_head, hhead]
  · rw [resumed_chain, resumed_chain, hchain]

end TdhSocket.Encode
