import TdhSocket.Execute.Statuses

/-!
# The writes to a response

Everything a request thread does to the response of a packet is a call of one of the functions of
`tdh_socket_encode_response.hpp`. A `Script` is a sequence of such calls, each with its packet;
`perform` is what they make of the responses. `Openness` says in which order they come: a batch
header, an error and a header of columns may be written at any time and start the response anew,
values come behind the header of an UPDATE, and data behind the header of a GET.

When response buffers can be had, every program of a request thread writes by a script that keeps
this order (`Follows`), and leaves the packet it executes written (`Answered`).
-/

set_option autoImplicit false

namespace TdhSocket.Execute

open Protocol Decode Library Library.Program

/-! ### Writes -/

/-- A write to the response of a packet: `tdhs_response_batch`, `tdhs_response_error`, the functions
for the two kinds of headers behind `tdhs_init_response`, a value of an ender, and
`write_data_to_response`. -/
inductive Write
  | batch
  | error (status code : ℕ)
  | dataHeader (types : List UInt8) (writeBuffSize : ℕ)
  | updateHeader (type : UInt8) (fieldSize num : ℕ)
  | value (text : List UInt8)
  | data (bytes : List UInt8)
  deriving DecidableEq, Repr

/-- The writes of a GET, which may send chunks. -/
def Write.isStream : Write → Bool
  | .dataHeader _ _ | .data _ => true
  | .batch | .error _ _ | .updateHeader _ _ _ | .value _ => false

/-- What a write makes of a response. -/
def Response.write (response : Response) : Write → Response
  | .batch => ⟨clientStatusMultiStatus, 0, [], []⟩
  | .error status code => ⟨status, 4, BigEndian.toBytes code, []⟩
  | .dataHeader types _ =>
    ⟨clientStatusOk, 4 + types.length, BigEndian.toBytes types.length ++ types, []⟩
  | .updateHeader type _ num =>
    ⟨clientStatusOk, 4 + num, BigEndian.toBytes num ++ List.replicate num type, []⟩
  | .value text =>
    { response with
      wbuff := response.wbuff ++ (BigEndian.toBytes text.length ++ text)
      length := response.length + (4 + text.length) }
  | .data bytes => { response with data := response.data ++ [bytes] }

/-- What may be written to a packet without starting its response anew: nothing, data, or a number
of values. -/
inductive Openness
  | shut
  | forData
  | forValues (left : ℕ)
  deriving DecidableEq, Repr

/-- The order of writes. The sizes of the buffers are `uint32_t`, and the texts of values come from
arrays of at most 48 characters. -/
def Openness.next : Openness → Write → Option Openness
  | _, .batch => some .shut
  | _, .error status _ => if 400 ≤ status then some .shut else none
  | _, .dataHeader types writeBuffSize =>
    if max (4 + types.length) writeBuffSize + tdhSocketHeaderLength < 2 ^ 32 then some .forData
    else none
  | _, .updateHeader _ _ num => if num ≤ 2 then some (.forValues num) else none
  | .forValues (left + 1), .value text =>
    if text.length ≤ 48 then some (.forValues left) else none
  | .forData, .data _ => some .forData
  | _, .value _ => none
  | _, .data _ => none

/-- Writes with their packets. -/
abbrev Script : Type := List (Owner × Write)

/-- The writes to one packet. -/
def writesOf (owner : Owner) (script : Script) : List Write :=
  script.filterMap fun entry ↦ if entry.1 = owner then some entry.2 else none

/-- What a script makes of the responses. -/
def perform (script : Script) (responses : Owner → Response) : Owner → Response :=
  script.foldl (fun responses entry ↦
    Function.update responses entry.1 ((responses entry.1).write entry.2)) responses

theorem writesOf_append (owner : Owner) (script more : Script) :
    writesOf owner (script ++ more) = writesOf owner script ++ writesOf owner more :=
  List.filterMap_append

theorem perform_append (script more : Script) (responses : Owner → Response) :
    perform (script ++ more) responses = perform more (perform script responses) :=
  List.foldl_append

theorem writesOf_map_self (owner : Owner) (writes : List Write) :
    writesOf owner (writes.map (Prod.mk owner)) = writes := by
  induction writes with
  | nil => rfl
  | cons write writes ih =>
    simp only [writesOf, List.map_cons, List.filterMap_cons, if_true] at ih ⊢
    rw [ih]

theorem writesOf_map_of_ne {owner other : Owner} (hother : other ≠ owner) (writes : List Write) :
    writesOf other (writes.map (Prod.mk owner)) = [] := by
  simp [writesOf, hother.symm]

/-! ### Scripts -/

/-- The writes are allowed, and those to each packet are in order whatever was written before. -/
structure IsScript (allowed : Owner → Write → Prop) (script : Script) : Prop where
  allowed : ∀ entry ∈ script, allowed entry.1 entry.2
  ordered : ∀ owner before, ∃ after,
    (writesOf owner script).foldlM Openness.next before = some after

variable {allowed : Owner → Write → Prop} {owner : Owner}

theorem isScript_nil (allowed : Owner → Write → Prop) : IsScript allowed [] :=
  ⟨List.forall_mem_nil _, fun _ before ↦ ⟨before, rfl⟩⟩

theorem IsScript.append {script more : Script} (hfirst : IsScript allowed script)
    (hnext : IsScript allowed more) : IsScript allowed (script ++ more) := by
  refine ⟨fun entry hentry ↦ ?_, fun other before ↦ ?_⟩
  · rcases List.mem_append.mp hentry with hentry | hentry
    · exact hfirst.allowed entry hentry
    · exact hnext.allowed entry hentry
  · obtain ⟨middle, hmiddle⟩ := hfirst.ordered other before
    obtain ⟨after, hafter⟩ := hnext.ordered other middle
    refine ⟨after, ?_⟩
    rw [writesOf_append, List.foldlM_append, hmiddle]
    exact hafter

/-- The writes to one packet. -/
theorem isScript_map {writes : List Write} (hallowed : ∀ write ∈ writes, allowed owner write)
    (hordered : ∀ before, ∃ after, writes.foldlM Openness.next before = some after) :
    IsScript allowed (writes.map (Prod.mk owner)) := by
  refine ⟨fun entry hentry ↦ ?_, fun other before ↦ ?_⟩
  · obtain ⟨write, hwrite, rfl⟩ := List.mem_map.mp hentry
    exact hallowed write hwrite
  · by_cases hother : other = owner
    · rw [hother, writesOf_map_self]
      exact hordered before
    · rw [writesOf_map_of_ne hother]
      exact ⟨before, rfl⟩

/-- A write that starts a response anew. -/
def Write.Starts (write : Write) (openness : Openness) : Prop :=
  ∀ before : Openness, before.next write = some openness

theorem starts_batch : Write.batch.Starts .shut := fun before ↦ by cases before <;> rfl

variable {status num : ℕ} {types text : List UInt8} {created : RetCode}

theorem starts_error (hstatus : 400 ≤ status) (code : ℕ) :
    (Write.error status code).Starts .shut := fun before ↦ by
  cases before <;> exact if_pos hstatus

theorem starts_updateHeader (type : UInt8) (fieldSize : ℕ) (hnum : num ≤ 2) :
    (Write.updateHeader type fieldSize num).Starts (.forValues num) := fun before ↦ by
  cases before <;> exact if_pos hnum

/-! ### Programs that follow a script -/

variable {Outside Record Value : Type} {world : World Outside Record} {rounds : ℕ} {bulk : Bool}
  {start middle final : Context Outside Record}

section

variable (allowed : Owner → Write → Prop)

/-- The responses were changed by a script that writes to some packets. -/
def Covers (owners : List Owner) (start final : Context Outside Record) : Prop :=
  ∃ script, IsScript allowed script ∧ (∀ owner ∈ owners, writesOf owner script ≠ []) ∧
    final.response = perform script start.response

/-- The responses were changed by a script. -/
def Follows (start final : Context Outside Record) : Prop :=
  Covers allowed [] start final

/-- The responses were changed by a script that writes to a packet. -/
def Answered (owner : Owner) (start final : Context Outside Record) : Prop :=
  Covers allowed [owner] start final

end

/-- The responses are as before. -/
def SameResponse (start final : Context Outside Record) : Prop := final.response = start.response

variable {owners : List Owner} {openness : Openness} {handlers : FindHandlers Outside Record}

theorem Covers.trans {more : List Owner} (hfirst : Covers allowed owners start middle)
    (hnext : Covers allowed more middle final) : Covers allowed (owners ++ more) start final := by
  obtain ⟨script, hscript, hwritten, hresponse⟩ := hfirst
  obtain ⟨rest, hrest, hrestWritten, hfinal⟩ := hnext
  refine ⟨script ++ rest, hscript.append hrest, fun owner howner ↦ ?_, ?_⟩
  · rw [writesOf_append]
    rcases List.mem_append.mp howner with howner | howner
    · exact List.append_ne_nil_of_left_ne_nil (hwritten owner howner) _
    · exact List.append_ne_nil_of_right_ne_nil _ (hrestWritten owner howner)
  · rw [hfinal, hresponse, perform_append]

theorem Covers.mono {fewer : List Owner} (hcovers : Covers allowed owners start final)
    (hfewer : fewer ⊆ owners) : Covers allowed fewer start final := by
  obtain ⟨script, hscript, hwritten, hresponse⟩ := hcovers
  exact ⟨script, hscript, fun owner howner ↦ hwritten owner (hfewer howner), hresponse⟩

theorem Covers.follows (hcovers : Covers allowed owners start final) :
    Follows allowed start final := hcovers.mono (List.nil_subset _)

theorem SameResponse.follows (hsame : SameResponse start final) : Follows allowed start final :=
  ⟨[], isScript_nil allowed, List.forall_mem_nil _, hsame⟩

theorem Follows.trans (hfirst : Follows allowed start middle)
    (hnext : Follows allowed middle final) : Follows allowed start final :=
  Covers.trans hfirst hnext

theorem Follows.covers (hfirst : Follows allowed start middle)
    (hnext : Covers allowed owners middle final) : Covers allowed owners start final :=
  Covers.trans hfirst hnext

theorem Covers.trans_follows (hfirst : Covers allowed owners start middle)
    (hnext : Follows allowed middle final) : Covers allowed owners start final :=
  (hfirst.trans hnext).mono (List.subset_append_left owners [])

instance : Std.Refl (Follows allowed : Context Outside Record → Context Outside Record → Prop) :=
  ⟨fun _ ↦ SameResponse.follows rfl⟩

instance : Trans (Follows allowed : Context Outside Record → Context Outside Record → Prop)
    (Follows allowed) (Follows allowed) := ⟨Follows.trans⟩

instance : Std.Refl (SameResponse : Context Outside Record → Context Outside Record → Prop) :=
  ⟨fun _ ↦ rfl⟩

instance : Trans (SameResponse : Context Outside Record → Context Outside Record → Prop)
    SameResponse SameResponse := ⟨fun hfirst hnext ↦ Eq.trans hnext hfirst⟩

/-- A program whose moves leave the responses alone. -/
theorem carries_sameResponse (world : World Outside Record) (owner : Owner) (rights : Rights) :
    CarriesSilent world owner rights
      fun (Value : Type) (program : ℕ → Execution Outside Record Value) ↦
        ∀ rounds, Along SameResponse (program rounds) :=
  { closed_along with move := fun hgoes _ ↦ hgoes.along.mono fun _ _ hmove ↦ hmove.2 }

/-- Assumes: the program belongs to no packet. -/
theorem follows_of_statement {program : Execution Outside Record Value}
    (hsteps : Along (Steps world (fun _ ↦ False) false) program) :
    Along (Follows allowed) program :=
  hsteps.mono fun _ _ hstepped ↦
    SameResponse.follows (funext fun _ ↦ hstepped.response_eq not_false)

/-! ### One packet -/

section

variable (allowed : Owner → Write → Prop)

/-- A packet may be written, with data only if chunks may be sent. -/
def Admits (owner : Owner) (streams : Bool) : Prop :=
  ∀ write : Write, (write.isStream = true → streams = true) → allowed owner write

/-- Writes to one packet that are in order, behind others. -/
def Continues (owner : Owner) (before : Openness) (start final : Context Outside Record) : Prop :=
  ∃ writes : List Write, (∀ write ∈ writes, allowed owner write) ∧
    (∃ after, writes.foldlM Openness.next before = some after) ∧
    final.response = perform (writes.map (Prod.mk owner)) start.response

/-- Writes to one packet behind which the same may be written as before. -/
def Adds (owner : Owner) (openness : Openness) (start final : Context Outside Record) : Prop :=
  ∃ writes : List Write, (∀ write ∈ writes, allowed owner write) ∧
    writes.foldlM Openness.next openness = some openness ∧
    final.response = perform (writes.map (Prod.mk owner)) start.response

end

theorem SameResponse.adds (hsame : SameResponse start final) :
    Adds allowed owner openness start final :=
  ⟨[], List.forall_mem_nil _, rfl, hsame⟩

/-- Writes behind additions are writes from their start on. -/
theorem Adds.append (hadds : Adds allowed owner openness start middle) {more : List Write}
    {after : Openness} (hmore : ∀ write ∈ more, allowed owner write)
    (hafter : more.foldlM Openness.next openness = some after)
    (hfinal : final.response = perform (more.map (Prod.mk owner)) middle.response) :
    ∃ writes : List Write, (∀ write ∈ writes, allowed owner write) ∧
      writes.foldlM Openness.next openness = some after ∧
      final.response = perform (writes.map (Prod.mk owner)) start.response := by
  obtain ⟨writes, hallowed, hsame, hresponse⟩ := hadds
  refine ⟨writes ++ more, List.forall_mem_append.mpr ⟨hallowed, hmore⟩, ?_, ?_⟩
  · rw [List.foldlM_append, hsame]
    exact hafter
  · rw [hfinal, hresponse, List.map_append, perform_append]

theorem Adds.continues (hadds : Adds allowed owner openness start middle)
    (hcontinues : Continues allowed owner openness middle final) :
    Continues allowed owner openness start final := by
  obtain ⟨more, hmore, ⟨after, hafter⟩, hfinal⟩ := hcontinues
  obtain ⟨writes, hallowed, hall, hresponse⟩ := hadds.append hmore hafter hfinal
  exact ⟨writes, hallowed, ⟨after, hall⟩, hresponse⟩

theorem Adds.trans (hfirst : Adds allowed owner openness start middle)
    (hnext : Adds allowed owner openness middle final) :
    Adds allowed owner openness start final := by
  obtain ⟨more, hmore, hagain, hfinal⟩ := hnext
  exact hfirst.append hmore hagain hfinal

instance {openness : Openness} :
    Std.Refl (Adds allowed owner openness :
      Context Outside Record → Context Outside Record → Prop) :=
  ⟨fun _ ↦ SameResponse.adds rfl⟩

instance {openness : Openness} :
    Trans (Adds allowed owner openness : Context Outside Record → Context Outside Record → Prop)
      (Adds allowed owner openness) (Adds allowed owner openness) := ⟨Adds.trans⟩

/-- The response of a packet was written once. -/
def Wrote (owner : Owner) (write : Write) (start final : Context Outside Record) : Prop :=
  final.response = Function.update start.response owner ((start.response owner).write write)

/-- A response that was started anew and continued. -/
theorem Wrote.answered {write : Write} (hwrote : Wrote owner write start middle)
    (hstarts : write.Starts openness) (hallowed : allowed owner write)
    (hcontinues : Continues allowed owner openness middle final) :
    Answered allowed owner start final := by
  obtain ⟨writes, hwrites, ⟨after, hafter⟩, hfinal⟩ := hcontinues
  refine ⟨(write :: writes).map (Prod.mk owner), isScript_map ?_ fun before ↦ ⟨after, ?_⟩, ?_, ?_⟩
  · exact List.forall_mem_cons.mpr ⟨hallowed, hwrites⟩
  · rw [List.foldlM_cons, hstarts before]
    exact hafter
  · intro other hother
    rw [List.mem_singleton.mp hother, writesOf_map_self]
    exact List.cons_ne_nil _ _
  · rw [hfinal, hwrote]
    rfl

theorem continues_refl (allowed : Owner → Write → Prop) (owner : Owner) (openness : Openness)
    (context : Context Outside Record) : Continues allowed owner openness context context :=
  ⟨[], List.forall_mem_nil _, ⟨openness, rfl⟩, rfl⟩

/-- One write before others. -/
theorem Wrote.continues {write : Write} {before : Openness}
    (hwrote : Wrote owner write start middle) (hnext : before.next write = some openness)
    (hallowed : allowed owner write) (hcontinues : Continues allowed owner openness middle final) :
    Continues allowed owner before start final := by
  obtain ⟨writes, hwrites, ⟨after, hafter⟩, hfinal⟩ := hcontinues
  refine ⟨write :: writes, List.forall_mem_cons.mpr ⟨hallowed, hwrites⟩, ⟨after, ?_⟩, ?_⟩
  · rw [List.foldlM_cons, hnext]
    exact hafter
  · rw [hfinal, hwrote]
    rfl

section Errors

variable (hallocates : Allocates world)

include hallocates

theorem tdhsResponseError_wrote (status code : ℕ) :
    Along (Wrote owner (.error status code)) (tdhsResponseError world owner status code) := by
  intro start ret final hreturns
  obtain ⟨_, _, hset, hreturns⟩ := bind_eq_some.mp hreturns
  cases hset
  obtain ⟨created, _, hcreated, hreturns⟩ := bind_eq_some.mp hreturns
  cases hcreated
  rw [hallocates.easyBufCreate, if_pos rfl] at hreturns
  cases hreturns
  simp [Wrote, Response.write]

theorem tdhsResponseBatch_wrote :
    Along (Wrote owner .batch) (tdhsResponseBatch world owner) := by
  intro start ret final hreturns
  obtain ⟨_, _, hset, hreturns⟩ := bind_eq_some.mp hreturns
  cases hset
  obtain ⟨created, _, hcreated, hreturns⟩ := bind_eq_some.mp hreturns
  cases hcreated
  rw [hallocates.easyBufCreate, if_pos rfl] at hreturns
  cases hreturns
  simp [Wrote, Response.write]

variable {streams : Bool} (hadmits : Admits allowed owner streams)

include hadmits

theorem answered_error (hstatus : 400 ≤ status) (code : ℕ) :
    Along (Answered allowed owner) (tdhsResponseError world owner status code) := by
  refine (tdhsResponseError_wrote hallocates status code).mono fun start final hwrote ↦ ?_
  exact hwrote.answered (starts_error hstatus code) (hadmits _ (fun hno ↦ by cases hno))
    (continues_refl allowed owner .shut final)

theorem continues_error (hstatus : 400 ≤ status) (code : ℕ) (before : Openness) :
    Along (Continues allowed owner before) (tdhsResponseError world owner status code) := by
  refine (tdhsResponseError_wrote hallocates status code).mono fun start final hwrote ↦ ?_
  exact hwrote.continues (starts_error hstatus code before) (hadmits _ (fun hno ↦ by cases hno))
    (continues_refl allowed owner .shut final)

end Errors

/-! ### Row handlers -/

/-- The context behind `tdhs_init_response`. -/
def initialised (owner : Owner) (start : Context Outside Record) : Context Outside Record :=
  { start with
    response := Function.update start.response owner
      { start.response owner with code := clientStatusOk, length := 0 } }

/-- A header behind `tdhs_init_response` starts the response anew. -/
theorem writeHeader_wrote (hallocates : Allocates world) {allocSize : ℕ} {write : Write}
    (hwrite : ∀ response : Response, response.write write =
      ⟨clientStatusOk, 4 + types.length, BigEndian.toBytes types.length ++ types, []⟩)
    (hreturns : writeHeader world owner types allocSize (initialised owner start) =
      some (created, final)) : created = .ok ∧ Wrote owner write start final := by
  obtain ⟨granted, _, hgranted, hreturns⟩ := bind_eq_some.mp hreturns
  cases hgranted
  rw [hallocates.easyBufCreate, if_pos rfl] at hreturns
  cases hreturns
  refine ⟨rfl, ?_⟩
  simp [Wrote, hwrite, initialised]

/-- What the handlers of `do_find` write: a header, and behind it data or values. -/
structure HandlersWrite (allowed : Owner → Write → Prop) (owner : Owner)
    (handlers : FindHandlers Outside Record) (fields : List (Field Record)) (header : Write)
    (openness : Openness) : Prop where
  starts : header.Starts openness
  admitted : allowed owner header
  create : ∀ start created final,
    handlers.create fields (initialised owner start) = some (created, final) →
      created = .ok ∧ Wrote owner header start final
  process : ∀ table record, Along (Adds allowed owner openness)
    (handlers.process table fields record)
  finish : Along (Continues allowed owner openness) handlers.finish

theorem appendValue_wrote (owner : Owner) (text : List UInt8) :
    Along (Wrote owner (.value text)) (appendValue owner text : Execution Outside Record Unit) := by
  intro start _ final hreturns
  cases hreturns
  rfl

/-- What is noted behind `write_data_to_response`. -/
theorem noteData_wrote (owner : Owner) (bytes : List UInt8) :
    Along (Wrote owner (.data bytes)) (setResponse owner fun response ↦
      { response with data := response.data ++ [bytes] } : Execution Outside Record Unit) := by
  intro start _ final hreturns
  cases hreturns
  rfl

theorem length_printedValue_le (text : List UInt8) : (printedValue text).length ≤ 11 := by
  unfold printedValue
  simp only [List.length_take, List.length_append, List.length_singleton]
  omega

theorem SameResponse.continues (hsame : SameResponse start middle)
    (hcontinues : Continues allowed owner openness middle final) :
    Continues allowed owner openness start final :=
  hsame.adds.continues hcontinues

/-- Nothing is written before what is continued. -/
theorem silent_continues {Next : Type} {program : Execution Outside Record Value}
    {next : Value → Execution Outside Record Next}
    (hprogram : Along SameResponse program)
    (hnext : ∀ value, Along (Continues allowed owner openness) (next value)) :
    Along (Continues allowed owner openness) (program >>= next) :=
  along_chain (fun hsame hrest ↦ hsame.continues hrest) hprogram hnext

theorem Wrote.adds {write : Write} (hwrote : Wrote owner write start final)
    (hnext : openness.next write = some openness) (hallowed : allowed owner write) :
    Adds allowed owner openness start final := by
  refine ⟨[write], List.forall_mem_singleton.mpr hallowed, ?_, hwrote⟩
  rw [List.foldlM_cons, hnext]
  rfl

/-- A header of an UPDATE, or of a COUNT. -/
theorem writeUpdateHeader_wrote (hallocates : Allocates world) {type : UInt8} {fieldSize : ℕ}
    (hreturns : writeUpdateHeaderToResponse world owner type fieldSize num
      (initialised owner start) = some (created, final)) :
    created = .ok ∧ Wrote owner (.updateHeader type fieldSize num) start final :=
  writeHeader_wrote hallocates (fun _ ↦ by simp [Response.write]) hreturns

section Handlers

variable {streams : Bool} (hadmits : Admits allowed owner streams)

include hadmits

theorem continues_appendValue (htext : text.length ≤ 48) (left : ℕ) :
    Along (Continues allowed owner (.forValues (left + 1)))
      (appendValue owner text : Execution Outside Record Unit) :=
  (appendValue_wrote owner text).mono fun _ final hwrote ↦ hwrote.continues (if_pos htext)
    (hadmits _ fun hno ↦ by cases hno) (continues_refl allowed owner _ final)

theorem continues_endUpdateRecord :
    Along (Continues allowed owner (.forValues 2))
      (endUpdateRecord owner : Execution Outside Record Unit) := by
  have htext : ∀ number, (printedValue (printInt number)).length ≤ 48 := fun number ↦
    (length_printedValue_le _).trans (by decide)
  refine silent_continues (along_read _) fun updateRowNum ↦
    silent_continues (along_read _) fun changeRowNum ↦ ?_
  exact along_chain (fun hwrote hrest ↦ hwrote.continues (if_pos (htext _))
    (hadmits _ fun hno ↦ by cases hno) hrest) (appendValue_wrote owner _)
      fun _ ↦ continues_appendValue hadmits (htext _) 0

variable (hallocates : Allocates world)

include hallocates

/-- Handlers that write a header and a number of values, and nothing for a row. -/
theorem handlersWrite_values (fields : List (Field Record)) (hnum : num ≤ 2)
    (hcreate : ∀ fields, handlers.create fields =
      writeUpdateHeaderToResponse world owner mysqlTypeLong 10 num)
    (hprocess : ∀ table record, Along SameResponse (handlers.process table fields record))
    (hfinish : Along (Continues allowed owner (.forValues num)) handlers.finish) :
    HandlersWrite allowed owner handlers fields (.updateHeader mysqlTypeLong 10 num)
      (.forValues num) where
  starts := starts_updateHeader _ _ hnum
  admitted := hadmits _ fun hno ↦ by cases hno
  create start created final hreturns := by
    rw [hcreate] at hreturns
    exact writeUpdateHeader_wrote hallocates hreturns
  process table record := (hprocess table record).mono fun _ _ hsame ↦ hsame.adds
  finish := hfinish

omit hallocates in
/-- Data behind its header, one write for each field. -/
theorem adds_responseFields (hstreams : streams = true) (record : Record)
    (fields : List (Field Record)) :
    Along (Adds allowed owner .forData) (responseFields world owner record fields) := by
  induction fields with
  | nil => exact along_pure _
  | cons field fields ih =>
    have hwritten : Along SameResponse (ask (world.writeData (responseValue field record)) :
        Execution Outside Record Bool) := by
      intro start written final hreturns
      cases hreturns
      rfl
    refine along_bind (hwritten.mono fun _ _ hsame ↦ hsame.adds) fun written ↦
      along_ite (along_bind ?_ fun _ ↦ ih) (along_pure _)
    exact (noteData_wrote owner _).mono fun _ _ hwrote ↦
      hwrote.adds rfl (hadmits _ fun _ ↦ hstreams)

/-- The handlers of GET. Assumes: the size of the buffer is a `uint32_t`. -/
theorem handlersWrite_get (hstreams : streams = true) (fields : List (Field Record))
    (hsize : max (4 + fields.length) world.writeBuffSize + tdhSocketHeaderLength < 2 ^ 32) :
    HandlersWrite allowed owner (getHandlers world owner) fields
      (.dataHeader (fields.map fun field ↦ UInt8.ofNat field.type) world.writeBuffSize)
      .forData where
  starts before := by cases before <;> exact if_pos (by rwa [List.length_map])
  admitted := hadmits _ fun _ ↦ hstreams
  create start created final hreturns := writeHeader_wrote hallocates (fun _ ↦ rfl) hreturns
  process table record := along_bind (adds_responseFields hadmits hstreams record fields)
    fun _ ↦ along_pure _
  finish := fun start _ final hreturns ↦ by
    cases hreturns
    exact continues_refl allowed owner .forData start

/-- The handlers of `do_find`. -/
theorem RowHandlers.write
    (hhandlers : RowHandlers world owner streams handlers) (fields : List (Field Record))
    (hsize : max (4 + fields.length) world.writeBuffSize + tdhSocketHeaderLength < 2 ^ 32) :
    ∃ header openness, HandlersWrite allowed owner handlers fields header openness := by
  have hsilent := carries_sameResponse world owner (rowRights false)
  cases hhandlers with
  | get hstreams => exact ⟨_, _, handlersWrite_get hadmits hallocates hstreams fields hsize⟩
  | count =>
    refine ⟨_, _, handlersWrite_values hadmits hallocates fields (by decide : 1 ≤ 2)
      (fun _ ↦ rfl) (fun _ _ ↦ carries_countRecord hsilent 0) ?_⟩
    exact silent_continues (along_read _) fun _ ↦ continues_appendValue hadmits
      ((length_printedValue_le _).trans (by decide)) 0
  | update values =>
    exact ⟨_, _, handlersWrite_values hadmits hallocates fields (by decide : 2 ≤ 2)
      (fun _ ↦ rfl) (fun table record ↦ carries_updateRecord hsilent table _ record 0)
      (continues_endUpdateRecord hadmits)⟩
  | delete =>
    exact ⟨_, _, handlersWrite_values hadmits hallocates fields (by decide : 2 ≤ 2)
      (fun _ ↦ rfl) (fun table record ↦ carries_deleteRecord hsilent table record 0)
      (continues_endUpdateRecord hadmits)⟩

end Handlers

/-! ### do_find -/

section Find

variable {streams : Bool} (hadmits : Admits allowed owner streams) (hallocates : Allocates world)

theorem adds_findRound {plan : FindPlan Record} {header : Write}
    (hwrite : HandlersWrite allowed owner handlers plan.fields header openness)
    (vars : FindVars) :
    Along (Adds allowed owner openness) (findRound world owner handlers plan vars) := by
  have hsilent := carries_sameResponse world owner (scanRights true)
  have hadds : ∀ {Value : Type} {program : Execution Outside Record Value},
      Along SameResponse program → Along (Adds allowed owner openness) program :=
    fun halong ↦ halong.mono fun _ _ hsame ↦ hsame.adds
  have hvisit : ∀ record, Along (Adds allowed owner openness)
      (visit handlers plan vars record) := fun record ↦
    along_ite (along_pure _) <| along_bind (hwrite.process _ record) fun _ ↦
      along_ite (along_pure _) (along_ite (along_pure _) (along_pure _))
  refine along_ite (along_pure _) <|
    along_bind (hadds (carries_ask hsilent (fun _ ↦ .killed _) 0)) fun _ ↦
      along_ite (along_pure _) <|
        along_bind (hadds (carries_fetch hsilent rfl plan vars 0)) fun found ↦ ?_
  exact along_ite (along_pure _) <| along_ite (along_pure _) <|
    along_ite (hvisit found.2) (along_pure _)

include hadmits hallocates

theorem continues_finishFind {fields : List (Field Record)} {header : Write}
    (hwrite : HandlersWrite allowed owner handlers fields header openness) (exit : FindExit) :
    Along (Continues allowed owner openness) (finishFind world owner handlers exit) := by
  have herror : ∀ {status : ℕ}, 400 ≤ status → ∀ code, Along (Continues allowed owner openness)
      (tdhsResponseError world owner status code) := fun hstatus code ↦
    continues_error hallocates hadmits hstatus code openness
  have hpure : ∀ ret, Along (Continues allowed owner openness)
      (pure ret : Execution Outside Record RetCode) := by
    intro ret start _ final hreturns
    cases hreturns
    exact continues_refl allowed owner openness start
  cases exit with
  | killed => exact herror (by decide) _
  | keyMismatch => exact herror (by decide) _
  | processed ret => exact hpure ret
  | done r =>
    refine along_ite ?_ (herror (by decide) _)
    intro start ret final hreturns
    obtain ⟨_, middle, hfinish, hreturns⟩ := bind_eq_some.mp hreturns
    cases hreturns
    exact hwrite.finish start _ _ hfinish

theorem answered_findRows {plan : FindPlan Record} {header : Write}
    (hwrite : HandlersWrite allowed owner handlers plan.fields header openness)
    (betweenBuf : Bool) :
    Along (Answered allowed owner) (findRows world rounds owner handlers betweenBuf plan) := by
  have herror : ∀ {status : ℕ}, 400 ≤ status → ∀ code, Along (Continues allowed owner openness)
      (tdhsResponseError world owner status code) := fun hstatus code ↦
    continues_error hallocates hadmits hstatus code openness
  intro start ret final hreturns
  obtain ⟨_, _, hinit, hreturns⟩ := bind_eq_some.mp hreturns
  cases hinit
  obtain ⟨created, opened, hcreated, hreturns⟩ := bind_eq_some.mp hreturns
  obtain ⟨-, hwrote⟩ := hwrite.create start created opened hcreated
  refine hwrote.answered hwrite.starts hwrite.admitted ?_
  refine along_ite (herror (by decide) _) (along_ite (herror (by decide) _)
    (along_ite (herror (by decide) _) (along_ite (herror (by decide) _) ?_))) opened ret final
      hreturns
  exact along_chain (fun hadds hrest ↦ hadds.continues hrest)
    (along_loop (fun vars ↦ adds_findRound hwrite vars) rounds _) fun exit ↦
      continues_finishFind hadmits hallocates hwrite exit

end Find

end TdhSocket.Execute
