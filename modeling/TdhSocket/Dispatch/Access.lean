import TdhSocket.Decode.Documented
import TdhSocket.Dispatch.Process
import TdhSocket.Library.Runs

/-!
# Access control

A connection is served frame by frame, and the settings of the server may be other ones at each
frame. The permissions of a connection are fixed by its handshake, the switch is looked at for each
request. `access_control` says over every run that the first frame is the handshake of every pushed
request, and that nothing is processed behind a first frame that is none.
-/

set_option autoImplicit false

namespace TdhSocket.Dispatch

open Connection Decode Library Protocol Reader

/-! ### The handshake -/

/-- A packet is a handshake with a read and a write code: the command, the header, a protocol
version that has a decoder, the time-out and the codes. -/
structure IsHandshake (packet : TdhsPacket) (readCode writeCode : WireString) : Prop where
  command : packet.commandIdOrResponseCode = requestTypeShakeHands
  payload : ∃ protocolVersion timeOut rest, (protocolVersion = 1 ∨ protocolVersion = 2) ∧
    packet.rdata = shakeHandsHeader ++ BigEndian.toBytes protocolVersion ++
      BigEndian.toBytes timeOut ++ readCode.encode ++ writeCode.encode ++ rest

/-- The two codes are read as two strings. -/
theorem recognises_readCodes :
    Recognises readCodes fun codes word ↦ ∃ readCode writeCode : WireString,
      codes = (readCode.bytes, writeCode.bytes) ∧ word = readCode.encode ++ writeCode.encode := by
  refine Recognises.congr ((reads_readString none).seq fun readCode ↦
    (reads_readString none).map (Prod.mk readCode)) fun codes word ↦ ?_
  simp only [Prod.exists, true_and]

/-- What `authenticate` leaves: a failure, or the permissions for the two codes of the payload. -/
theorem authenticate_cases (authRead authWrite : TdhsString → Bool) (context : ConnectionContext)
    (packet : TdhsPacket) (hlength : packet.length = packet.rdata.length)
    (henough : shakeHandsTotalSize ≤ packet.length) :
    ((authenticate authRead authWrite context packet).ret = .error ∧
      (authenticate authRead authWrite context packet).context = context) ∨
    ∃ (readCode writeCode : WireString) (rest : List UInt8),
      packet.rdata.drop shakeHandsTotalSize = readCode.encode ++ writeCode.encode ++ rest ∧
      (authenticate authRead authWrite context packet).ret = .again ∧
      (authenticate authRead authWrite context packet).context =
        { context with
          isShaked := true
          canRead := context.canRead || authRead readCode.bytes
          canWrite := context.canWrite || authWrite writeCode.bytes } := by
  have hrun : readCodes packet.rdata
      ⟨shakeHandsTotalSize, packet.length - shakeHandsTotalSize⟩ =
      runOn readCodes (packet.rdata.take shakeHandsTotalSize)
        (packet.rdata.drop shakeHandsTotalSize) := by
    rw [hlength] at henough ⊢
    unfold runOn
    rw [List.take_append_drop, List.length_take, Nat.min_eq_left henough, List.length_drop]
  unfold authenticate
  dsimp only
  rw [hrun]
  split
  · exact Or.inl ⟨rfl, rfl⟩
  · next readBytes writeBytes hresult =>
    obtain ⟨_, rest, hrest, ⟨readCode, writeCode, hcodes, rfl⟩, -⟩ :=
      recognises_readCodes.sound hresult
    cases hcodes
    exact Or.inr ⟨readCode, writeCode, rest, hrest, rfl, rfl⟩

/-- The fixed part of a handshake is the header and two words. -/
theorem rdata_eq_of_fixed {rdata readCode writeCode rest : List UInt8}
    (henough : shakeHandsTotalSize ≤ rdata.length) (hheader : rdata.take 4 = shakeHandsHeader)
    (hrest : rdata.drop shakeHandsTotalSize = readCode ++ writeCode ++ rest) :
    rdata = shakeHandsHeader ++ BigEndian.toBytes (BigEndian.ofBytes (rdata.drop 4)) ++
      BigEndian.toBytes (BigEndian.ofBytes (rdata.drop 8)) ++ readCode ++ writeCode ++ rest := by
  have htwelve : 12 ≤ rdata.length := henough
  have hversion := BigEndian.toBytes_ofBytes_append_drop (rdata.drop 4)
    (by rw [List.length_drop]; omega)
  have htimeOut := BigEndian.toBytes_ofBytes_append_drop (rdata.drop 8)
    (by rw [List.length_drop]; omega)
  rw [List.drop_drop] at hversion htimeOut
  have hcodes : rdata.drop (8 + 4) = readCode ++ writeCode ++ rest := hrest
  calc rdata = rdata.take 4 ++ rdata.drop 4 := (List.take_append_drop 4 _).symm
    _ = shakeHandsHeader ++ (BigEndian.toBytes (BigEndian.ofBytes (rdata.drop 4)) ++
        rdata.drop 8) := by rw [hheader, hversion]
    _ = shakeHandsHeader ++ (BigEndian.toBytes (BigEndian.ofBytes (rdata.drop 4)) ++
        (BigEndian.toBytes (BigEndian.ofBytes (rdata.drop 8)) ++
          (readCode ++ writeCode ++ rest))) := by rw [← hcodes, htimeOut]
    _ = _ := by simp only [List.append_assoc]

/-- What `shake_hands_if` leaves of a connection that is not shaken: a failure without permissions
gained, or a handshake with the permissions for its codes. -/
theorem shakeHandsIf_cases {authRead authWrite : TdhsString → Bool} {context : ConnectionContext}
    {packet : TdhsPacket} (hfresh : context.isShaked = false)
    (hlength : packet.length = packet.rdata.length) :
    ((shakeHandsIf authRead authWrite context packet).ret = .error ∧
      (shakeHandsIf authRead authWrite context packet).context.isShaked = false ∧
      (shakeHandsIf authRead authWrite context packet).context.canRead = context.canRead ∧
      (shakeHandsIf authRead authWrite context packet).context.canWrite = context.canWrite) ∨
    ∃ readCode writeCode, IsHandshake packet readCode writeCode ∧
      (shakeHandsIf authRead authWrite context packet).ret = .again ∧
      (shakeHandsIf authRead authWrite context packet).context.isShaked = true ∧
      (shakeHandsIf authRead authWrite context packet).context.canRead =
        (context.canRead || authRead readCode.bytes) ∧
      (shakeHandsIf authRead authWrite context packet).context.canWrite =
        (context.canWrite || authWrite writeCode.bytes) := by
  unfold shakeHandsIf
  rw [if_neg (by rw [hfresh]; decide)]
  dsimp only
  split_ifs with hcommand hheader hend
  · exact Or.inl ⟨rfl, hfresh, rfl, rfl⟩
  · exact Or.inl ⟨rfl, hfresh, rfl, rfl⟩
  · exact Or.inl ⟨rfl, hfresh, rfl, rfl⟩
  · split
    · exact Or.inl ⟨rfl, hfresh, rfl, rfl⟩
    · next version hversion =>
      obtain ⟨hcommandEq, henough⟩ : packet.commandIdOrResponseCode = requestTypeShakeHands ∧
          shakeHandsTotalSize ≤ packet.length := by
        rw [not_or, not_not, not_lt] at hcommand
        exact hcommand
      rcases authenticate_cases authRead authWrite { context with
        decodeRequest := some version
        timeOut := BigEndian.ofBytes (packet.rdata.drop 8) } packet hlength henough with
        ⟨hret, hcontext⟩ | ⟨readCode, writeCode, rest, hrest, hret, hcontext⟩
      · rw [hcontext]
        exact Or.inl ⟨hret, hfresh, rfl, rfl⟩
      · have hpayload := rdata_eq_of_fixed (hlength ▸ henough) (not_not.mp hheader) hrest
        refine Or.inr ⟨readCode, writeCode, ⟨hcommandEq, _, _, rest, ?_, hpayload⟩, hret, ?_, ?_,
          ?_⟩
        · unfold decodeRequestArray at hversion
          split_ifs at hversion with hone htwo
          · exact Or.inl hone
          · exact Or.inr htwo
        all_goals rw [hcontext]

/-! ### Serving a connection -/

/-- A frame that was processed: the server at that time, the packets, and what became of it. -/
structure Handled where
  server : Server
  chain : PacketChain
  ret : ProcessRet
  pushed : Option Push

/-- A connection: its context, whether it is open, and the frames processed on it in order. -/
structure Served where
  context : ConnectionContext
  isOpen : Bool
  history : List Handled

/-- The context of a connection before its first frame. -/
def newContext : ConnectionContext := ⟨false, none, 0, false, false⟩

/-- A connection that was accepted. -/
def newServed : Served := ⟨newContext, true, []⟩

/-- A frame arrives at a server, whose counters other connections change as well. -/
structure Arrival where
  server : Server
  counters : Counters
  chain : PacketChain

/-- A frame on an open connection is processed; `EASY_ERROR` destroys the connection. -/
def serve (served : Served) (arrival : Arrival) : Option Served :=
  if served.isOpen then
    let processed := onServerIoProcess arrival.server served.context arrival.counters arrival.chain
    some {
      context := processed.context
      isOpen := processed.ret != .error
      history := served.history ++
        [⟨arrival.server, arrival.chain, processed.ret, processed.pushed⟩] }
  else none

/-- The packets are those `tdhs_decode` makes of a frame. -/
def IsHandedOver (_ : Served) (arrival : Arrival) : Prop :=
  ∃ pool input rest, (tdhsDecode pool input).answer = .packet arrival.chain rest

/-! ### What a frame may do -/

/-- The request types that read. -/
def IsReadType (type : RequestType) : Prop := type = .get ∨ type = .count

/-- The frame is a handshake whose read code, if the permission to read is asked for, and whose
write code, if that to write is, match those of the server at its time. -/
def Grants (shake : Handled) (mayRead mayWrite : Prop) : Prop :=
  ∃ readCode writeCode, IsHandshake shake.chain.packet readCode writeCode ∧
    (mayRead → readCode.bytes = resetAuthCode shake.server.authReadCode) ∧
    (mayWrite → writeCode.bytes = resetAuthCode shake.server.authWriteCode)

/-- The first frame granted the permissions. -/
def IsGranted (history : List Handled) (mayRead mayWrite : Prop) : Prop :=
  ∃ shake ∈ history.head?, Grants shake mayRead mayWrite

theorem Grants.mono {shake : Handled} {mayRead mayWrite mayRead' mayWrite' : Prop}
    (hgrants : Grants shake mayRead mayWrite) (hread : mayRead' → mayRead)
    (hwrite : mayWrite' → mayWrite) : Grants shake mayRead' mayWrite' := by
  obtain ⟨readCode, writeCode, hshake, hreadCode, hwriteCode⟩ := hgrants
  exact ⟨readCode, writeCode, hshake, fun h ↦ hreadCode (hread h), fun h ↦ hwriteCode (hwrite h)⟩

/-- A frame that is pushed is behind the handshake, with the permissions its type needs while the
switch is on. -/
def IsAllowed (before : List Handled) (handled : Handled) : Prop :=
  ∀ push, handled.pushed = some push →
    ∃ type, requestTypeOf handled.chain.packet.commandIdOrResponseCode = some type ∧
      IsGranted before (handled.server.authOn = true ∧ IsReadType type)
        (handled.server.authOn = true ∧ ¬IsReadType type)

/-- Every frame was allowed, and one with others behind it had the handshake before it or was it. -/
def IsControlled (history : List Handled) : Prop :=
  ∀ before handled after, history = before ++ handled :: after →
    IsAllowed before handled ∧ (after ≠ [] → IsGranted (before ++ [handled]) False False)

/-- The invariant of a connection. -/
structure IsGuarded (served : Served) : Prop where
  shaken : served.context.isShaked = true →
    IsGranted served.history (served.context.canRead = true) (served.context.canWrite = true)
  fresh : served.context.isShaked = false →
    served.context.canRead = false ∧ served.context.canWrite = false ∧
      (served.isOpen = true → served.history = [])
  controlled : IsControlled served.history

theorem isControlled_append {history : List Handled} {handled : Handled}
    (hcontrolled : IsControlled history) (hallowed : IsAllowed history handled)
    (hgranted : history ≠ [] → IsGranted history False False) :
    IsControlled (history ++ [handled]) := by
  intro before other after hsplit
  rcases List.eq_nil_or_concat after with rfl | ⟨front, last, rfl⟩
  · obtain ⟨rfl, hlast⟩ := List.append_inj' hsplit rfl
    cases hlast
    exact ⟨hallowed, fun hne ↦ absurd rfl hne⟩
  · rw [List.concat_eq_append, ← List.cons_append, ← List.append_assoc] at hsplit
    obtain ⟨hhistory, -⟩ := List.append_inj' hsplit rfl
    obtain ⟨hother, hmore⟩ := hcontrolled before other front hhistory
    refine ⟨hother, fun _ ↦ ?_⟩
    by_cases hfront : front = []
    · subst hfront
      have hsame : before ++ [other] = history := hhistory.symm
      rw [hsame]
      exact hgranted (by rw [← hsame]; exact List.concat_ne_nil other before)
    · exact hmore hfront

/-- The type of a decoded first request is that of the command. -/
theorem type_of_requestAt_zero {env : DecodeEnv} {chain : PacketChain} {first : TdhsRequest}
    (hlength : chain.packet.length = chain.packet.rdata.length)
    (hret : (decodeRequest env chain).ret = none)
    (hfirst : requestAt (decodeRequest env chain).calls 0 = some first) :
    requestTypeOf chain.packet.commandIdOrResponseCode = some first.type := by
  cases htype : requestTypeOf chain.packet.commandIdOrResponseCode with
  | none => simp [decodeRequest, decodeCall, htype] at hret
  | some type =>
    by_cases hbatch : type = .batch
    · subst hbatch
      simp only [decodeRequest, decodeCall, htype, requestAt, beq_self_eq_true,
        List.find?_cons_of_pos, Option.bind_some, Option.some.injEq] at hfirst
      rw [← hfirst]
      rfl
    · rw [decodeRequest_of_type htype hbatch] at hret hfirst
      cases hresult : (runDecoder (decoderOf env.version env.pool env.stray type)
          chain.packet).result with
      | error code => simp [decodeSingle, hresult] at hret
      | ok request =>
        simp only [decodeSingle, hresult, requestAt, beq_self_eq_true, List.find?_cons_of_pos,
          Option.bind_some, Option.some.injEq] at hfirst
        subst hfirst
        rw [runDecoder, hlength] at hresult
        obtain ⟨wire, rfl, -, -, rfl⟩ :=
          (decoderOf_ok_iff env.version env.pool env.stray hbatch _ _).mp hresult
        cases wire <;> rfl

/-- The pool of a request is that of the writes exactly when it does not read. -/
theorem optimize_write_iff (server : Server) (counters : Counters) (request : TdhsRequest) :
    (optimize server counters request).1 = .write ↔ ¬IsReadType request.type := by
  have hread : (optimizeRead server counters request).1 ≠ .write := by
    unfold optimizeRead optimizeInTurn
    dsimp only
    split
    · nofun
    · split_ifs <;> nofun
    · split_ifs <;> nofun
  unfold optimize IsReadType
  cases request.type <;> simp [hread]

/-- A request that is pushed was permitted by its type. -/
theorem permitted_of_pushed {server : Server} {context : ConnectionContext} {counters : Counters}
    {chain : PacketChain} {push : Push}
    (hlength : chain.packet.length = chain.packet.rdata.length)
    (hpushed : (decodeAndDispatch server context counters chain).pushed = some push) :
    ∃ type, requestTypeOf chain.packet.commandIdOrResponseCode = some type ∧
      (server.authOn = true ∧ IsReadType type → context.canRead = true) ∧
      (server.authOn = true ∧ ¬IsReadType type → context.canWrite = true) := by
  obtain ⟨version, first, -, hret, hfirst, hdispatch⟩ := of_decodeAndDispatch_pushed hpushed
  obtain ⟨hpermitted, htype, -⟩ := of_dispatch_pushed hdispatch
  refine ⟨first.type, type_of_requestAt_zero hlength hret hfirst, ?_, ?_⟩
  · rintro ⟨hauth, hread⟩
    have hpool : push.type ≠ .write :=
      htype ▸ fun h ↦ (optimize_write_iff server counters first).mp h hread
    simpa [isPermitted, hpool, canRead, hauth] using hpermitted
  · rintro ⟨hauth, hwrite⟩
    have hpool : push.type = .write :=
      htype.trans ((optimize_write_iff server counters first).mpr hwrite)
    simpa [isPermitted, hpool, canWrite, hauth] using hpermitted

/-! ### Every run -/

variable {arrival : Arrival}

/-- What a frame does to a connection that is not shaken yet. -/
theorem IsGuarded.serve_fresh {served : Served} (hguarded : IsGuarded served)
    (hopen : served.isOpen = true) (hfresh : served.context.isShaked = false)
    (hlength : arrival.chain.packet.length = arrival.chain.packet.rdata.length) {after : Served}
    (hserve : serve served arrival = some after) : IsGuarded after := by
  obtain ⟨hread, hwrite, hempty⟩ := hguarded.fresh hfresh
  unfold serve at hserve
  rw [if_pos hopen, hempty hopen] at hserve
  rcases @shakeHandsIf_cases (tdhsAuthRead arrival.server) (tdhsAuthWrite arrival.server)
    served.context arrival.chain.packet hfresh hlength with
    ⟨hret, hshaked, hreads, hwrites⟩ | ⟨readCode, writeCode, hshake, hret, hshaked, hreads, hwrites⟩
  · simp only [onServerIoProcess, hret] at hserve
    cases hserve
    refine ⟨fun h ↦ ?_, fun _ ↦ ⟨hreads.trans hread, hwrites.trans hwrite, nofun⟩, ?_⟩
    · rw [hshaked] at h
      cases h
    · exact isControlled_append (fun _ _ _ h ↦ by simp at h) (fun _ h ↦ nomatch h)
        (fun h ↦ absurd rfl h)
  · simp only [onServerIoProcess, hret] at hserve
    cases hserve
    refine ⟨fun _ ↦ ⟨_, rfl, readCode, writeCode, hshake, fun h ↦ ?_, fun h ↦ ?_⟩, fun h ↦ ?_, ?_⟩
    · rw [hreads, hread] at h
      simpa [tdhsAuthRead] using h
    · rw [hwrites, hwrite] at h
      simpa [tdhsAuthWrite] using h
    · rw [hshaked] at h
      cases h
    · exact isControlled_append (fun _ _ _ h ↦ by simp at h) (fun _ h ↦ nomatch h)
        (fun h ↦ absurd rfl h)

/-- What a frame does to a connection that is shaken. -/
theorem IsGuarded.serve_shaken {served : Served} (hguarded : IsGuarded served)
    (hopen : served.isOpen = true) (hshaked : served.context.isShaked = true)
    (hlength : arrival.chain.packet.length = arrival.chain.packet.rdata.length) {after : Served}
    (hserve : serve served arrival = some after) : IsGuarded after := by
  have hprocess : onServerIoProcess arrival.server served.context arrival.counters arrival.chain =
      decodeAndDispatch arrival.server served.context arrival.counters arrival.chain := by
    simp [onServerIoProcess, shakeHandsIf, hshaked]
  unfold serve at hserve
  rw [if_pos hopen, hprocess] at hserve
  cases hserve
  obtain ⟨shake, hmem, hgrants⟩ := hguarded.shaken hshaked
  have hcontext := context_decodeAndDispatch arrival.server served.context arrival.counters
    arrival.chain
  refine ⟨fun _ ↦ ?_, fun h ↦ ?_, ?_⟩
  · simp only [hcontext]
    exact ⟨shake, by rw [List.head?_append, hmem]; rfl, hgrants⟩
  · rw [hcontext, hshaked] at h
    cases h
  · refine isControlled_append hguarded.controlled (fun push hpushed ↦ ?_)
      (fun _ ↦ ⟨shake, hmem, hgrants.mono False.elim False.elim⟩)
    obtain ⟨type, htype, hread, hwrite⟩ := permitted_of_pushed hlength hpushed
    exact ⟨type, htype, shake, hmem, hgrants.mono hread hwrite⟩

theorem IsGuarded.serve {served after : Served} (hguarded : IsGuarded served)
    (hframe : IsHandedOver served arrival) (hserve : serve served arrival = some after) :
    IsGuarded after := by
  obtain ⟨pool, input, rest, hdecoded⟩ := hframe
  have hlength := length_of_tdhsDecode hdecoded _ List.mem_cons_self
  have hopen : served.isOpen = true := by
    by_contra hclosed
    simp [Dispatch.serve, hclosed] at hserve
  cases hshaked : served.context.isShaked with
  | false => exact hguarded.serve_fresh hopen hshaked hlength hserve
  | true => exact hguarded.serve_shaken hopen hshaked hlength hserve

/-- Over every run of frames and settings: a frame that is pushed to a request thread has a type,
and the first frame of the connection is before it and is a handshake; while the switch is on, the
read code of that handshake matched for GET and COUNT, and the write code for the other types. When
the first frame is not a handshake, no frame behind it is processed. -/
theorem access_control (served : Served) (hreached : Reached serve IsHandedOver newServed served)
    (before after : List Handled) (handled : Handled)
    (hhistory : served.history = before ++ handled :: after) :
    (∀ push, handled.pushed = some push →
      ∃ type, requestTypeOf handled.chain.packet.commandIdOrResponseCode = some type ∧
        ∃ shake ∈ before.head?, ∃ readCode writeCode,
          IsHandshake shake.chain.packet readCode writeCode ∧
          (handled.server.authOn = true ∧ IsReadType type →
            readCode.bytes = resetAuthCode shake.server.authReadCode) ∧
          (handled.server.authOn = true ∧ ¬IsReadType type →
            writeCode.bytes = resetAuthCode shake.server.authWriteCode)) ∧
    ((∀ first ∈ served.history.head?, ∀ readCode writeCode,
      ¬IsHandshake first.chain.packet readCode writeCode) → after = []) := by
  have hguarded : IsGuarded served := hreached.invariant IsGuarded
    ⟨nofun, fun _ ↦ ⟨rfl, rfl, fun _ ↦ rfl⟩, fun _ _ _ h ↦ by simp [newServed] at h⟩
    fun hbefore hframe hserve ↦ hbefore.serve hframe hserve
  obtain ⟨hallowed, hmore⟩ := hguarded.controlled before handled after hhistory
  refine ⟨hallowed, fun hnone ↦ ?_⟩
  by_contra hafter
  obtain ⟨shake, hmem, readCode, writeCode, hshake, -⟩ := hmore hafter
  refine hnone shake ?_ readCode writeCode hshake
  rw [hhistory, List.append_cons, List.head?_append, hmem]
  rfl

/-- A server with authentication, the read code `r` and the write code `w`. -/
def guardedServer : Server where
  authOn := true
  authReadCode := some [114]
  authWriteCode := some [119]
  balance := ⟨4, 2, .lv1, false, false, false⟩
  optimizeOn := false
  hasFilters := false
  filterCheck := fun _ ↦ false
  slowReadLimit := false
  poolOf := fun _ ↦ ⟨4, fun _ ↦ none, fun _ ↦ 0, 0⟩
  connection := 1
  memoryOk := true
  pool := roomyPool
  stray := fun _ ↦ 0

/-- Counters that were not used. -/
def newCounters : Counters := ⟨0, fun _ ↦ 0, 0, 0, 0, 0⟩

/-- A packet with a command and a payload, the other words zero. -/
def packetOf (command : ℕ) (payload : List UInt8) : TdhsPacket :=
  ⟨command, 0, 0, payload.length, payload⟩

/-- The handshake of a client with the write code `w`. -/
def writerHandshake : TdhsPacket :=
  packetOf requestTypeShakeHands
    [84, 68, 72, 83, 0, 0, 0, 2, 0, 0, 0, 0, 0, 0, 0, 0, 0, 0, 0, 2, 119, 0]

/-- The INSERT of no values into the table `t1` of the database `a`. -/
def insertIntoT1 : TdhsPacket :=
  packetOf 12
    [0, 0, 0, 2, 97, 0, 0, 0, 0, 3, 116, 49, 0, 0, 0, 0, 0, 0, 0, 0, 0, 0, 0, 0, 0]

/-- The handshake and the INSERT. -/
def writerRun : List Arrival :=
  [⟨guardedServer, newCounters, writerHandshake, []⟩,
    ⟨guardedServer, newCounters, insertIntoT1, []⟩]

theorem access_control_writer :
    ∃ served shake handled, Reached serve IsHandedOver newServed served ∧
      served.history = [shake, handled] ∧ handled.pushed.map Push.thread = some 1 ∧
      ∃ readCode writeCode, IsHandshake shake.chain.packet readCode writeCode ∧
        writeCode.bytes = resetAuthCode shake.server.authWriteCode := by
  have hview : (run serve newServed writerRun).map (fun served ↦ served.history.map fun handled ↦
      (handled.chain.packet, handled.server.authOn, handled.pushed.map Push.thread)) =
      some [(writerHandshake, true, none), (insertIntoT1, true, some 1)] := by decide +kernel
  obtain ⟨served, hrun, hhistory⟩ := Option.map_eq_some_iff.mp hview
  obtain ⟨shake, rest, hshake, -, hrest⟩ := List.map_eq_cons_iff.mp hhistory
  obtain ⟨handled, none, rfl, hhandled, hnone⟩ := List.map_eq_cons_iff.mp hrest
  cases List.map_eq_nil_iff.mp hnone
  obtain ⟨hpacket, hauth, hthread⟩ : handled.chain.packet = insertIntoT1 ∧
      handled.server.authOn = true ∧ handled.pushed.map Push.thread = some 1 := by
    simpa using hhandled
  have hreached : Reached serve IsHandedOver newServed served := by
    refine reached_run .start (fun arrival harrival before ↦ ?_) hrun
    refine ⟨roomyPool, encodeHeader Frame.magicBytes
      ⟨arrival.chain.packet.commandIdOrResponseCode, 0, 0, arrival.chain.packet.length⟩ ++
        arrival.chain.packet.rdata, [], ?_⟩
    simp only [writerRun, List.mem_cons, List.not_mem_nil, or_false] at harrival
    rcases harrival with rfl | rfl <;> decide +kernel
  obtain ⟨push, hpush, -⟩ := Option.map_eq_some_iff.mp hthread
  obtain ⟨type, htype, found, hfound, readCode, writeCode, hcodes, -, hwrite⟩ :=
    (access_control served hreached [shake] [] handled hshake).1 push hpush
  rw [hpacket] at htype
  obtain rfl : RequestType.insert = type := by
    exact Option.some.inj htype
  cases hfound
  exact ⟨served, shake, handled, hreached, hshake, hthread, readCode, writeCode, hcodes,
    hwrite ⟨hauth, by simp [IsReadType]⟩⟩

end TdhSocket.Dispatch
