import TdhSocket.Execute.Printed
import TdhSocket.Execute.Rows

/-!
# What GET and COUNT answer

`do_find` around its loop, for a request whose names and keys fit the table. `doFindLocked_reads`
carries what `loop_keys` says about any process handler from the loop to the whole function; GET and
COUNT are two of these handlers, and what they keep of their rows is what they answer.
-/

set_option autoImplicit false

namespace TdhSocket.Execute

open Protocol Decode Library

variable {Outside Record : Type}

/-! ### The whole of do_find -/

/-- The names of a request are found in the table, and its keys fit the index. -/
structure FindsIndex (stray : Stray) (request : TdhsRequest) (table : Table Record) (idxnum : ℕ)
    (fields : List (Field Record)) (filters : List (BoundFilter Record)) : Prop where
  index_eq : tdhsOpenIndex table request.tableInfo.index = some idxnum
  fields_eq : parseField table
    (entries request.tableInfo.fields stray.field request.tableInfo.fieldNum) = some fields
  filters_eq : requestFilters stray table request.get.filter = some filters
  counts : GetCounts request.get
  keys_ne : request.get.keys ≠ []
  between : request.get.findFlag = .between → 1 < request.get.keys.length
  fits : ∀ key ∈ request.get.keys,
    parseIndex (table.keyInfo.getD idxnum ⟨[], [], 0⟩) key = true

/-- The plan of `do_find` for a request. -/
def planOf (request : TdhsRequest) (table : Table Record) (idxnum : ℕ)
    (fields : List (Field Record)) (filters : List (BoundFilter Record)) : FindPlan Record :=
  ⟨table, idxnum, table.keyInfo.getD idxnum ⟨[], [], 0⟩, fields, filters, fillFilterBuf filters,
    request.get⟩

@[simp] theorem planOf_get (request : TdhsRequest) (table : Table Record) (idxnum : ℕ)
    (fields : List (Field Record)) (filters : List (BoundFilter Record)) :
    (planOf request table idxnum fields filters).get = request.get := rfl

/-- Three handlers of `do_find` that keep `Seen` of their rows and make `Done` of it in the end. -/
structure Handles (owner : Owner) (handlers : FindHandlers Outside Record)
    (plan : FindPlan Record) (view : Outside → IndexState Record)
    (context : Context Outside Record) (Seen Done : List Record → Context Outside Record → Prop) :
    Prop where
  observes : Observes handlers plan view Seen
  creates : ∀ outside, ∃ middle after,
    tdhsInitResponse owner { context with outside := outside } = some ((), middle) ∧
      handlers.create plan.fields middle = some (.ok, after) ∧ Seen [] after
  finishes : ∀ rows before, Seen rows before → ∃ final,
    handlers.finish before = some ((), final) ∧ Done rows final

section Find

variable {world : World Outside Record} {owner : Owner} {request : TdhsRequest}
  {table : Table Record} {idxnum : ℕ} {fields : List (Field Record)}
  {filters : List (BoundFilter Record)} {index : OrderedIndex Record}
  {view : Outside → IndexState Record} {context : Context Outside Record}

theorem stackLiker_of_allocates (hallocates : Allocates world) (size : ℕ)
    (context : Context Outside Record) :
    ∃ outside, stackLiker world size context =
      some (true, { context with outside := outside }) := by
  unfold stackLiker
  split_ifs with hsmall
  · exact ⟨context.outside, rfl⟩
  · refine ⟨(world.malloc size context.outside).2, ?_⟩
    rw [ask, hallocates.malloc]

theorem findBuffers_of_allocates (hallocates : Allocates world) (owner : Owner)
    (filterBufSize keyLength : ℕ) (context : Context Outside Record) :
    ∃ outside, ∀ rest : Bool → Execution Outside Record RetCode,
      findBuffers world owner filterBufSize keyLength rest context =
        rest true { context with outside := outside } := by
  obtain ⟨first, hfirst⟩ := stackLiker_of_allocates hallocates filterBufSize context
  obtain ⟨second, hsecond⟩ := stackLiker_of_allocates hallocates keyLength
    { context with outside := first }
  obtain ⟨third, hthird⟩ := stackLiker_of_allocates hallocates keyLength
    { context with outside := second }
  refine ⟨third, fun rest ↦ ?_⟩
  rw [findBuffers, Program.bind_of_eq_some hfirst, if_neg (by decide),
    Program.bind_of_eq_some hsecond, Program.bind_of_eq_some hthird, if_neg (by decide)]

/-- A key below the count is one of the keys of the request. -/
theorem FindsIndex.parseIndex_keyAt
    (hfinds : FindsIndex world.stray request table idxnum fields filters) {i : ℕ}
    (hi : i < request.get.keyNum) :
    parseIndex (table.keyInfo.getD idxnum ⟨[], [], 0⟩) (keyAt world.stray request.get i) =
      true := by
  have hlength : i < request.get.keys.length := hfinds.counts.keys_filled ▸ hi
  rw [keyAt, entries_eq hfinds.counts.keys_filled, List.getD_eq_getElem _ _ hlength]
  exact hfinds.fits _ (List.getElem_mem hlength)

/-- From the response header on. -/
theorem findRows_reads {handlers : FindHandlers Outside Record}
    {Seen Done : List Record → Context Outside Record → Prop}
    (hfinds : FindsIndex world.stray request table idxnum fields filters)
    (hserves : Serves world table idxnum index view)
    (hhandles : Handles owner handlers (planOf request table idxnum fields filters) view context
      Seen Done) (outside : Outside) :
    ∃ enough, ∀ rounds, enough ≤ rounds → ∃ final,
      findRows world rounds owner handlers true (planOf request table idxnum fields filters)
        { context with outside := outside } = some (.ok, final) ∧
      Done (requestedRows index filters request.get) final := by
  obtain ⟨middle, after, hinit, hcreate, hseen⟩ := hhandles.creates outside
  have hpositive : 0 < request.get.keyNum := by
    rw [← hfinds.counts.keys_filled]
    exact List.length_pos_iff.mpr hfinds.keys_ne
  have hkeys : ∀ i < request.get.keyNum, parseIndex
      (planOf request table idxnum fields filters).info (keyAt world.stray request.get i) = true :=
    fun i hi ↦ hfinds.parseIndex_keyAt hi
  obtain ⟨enough, r, before, hloop, hend, hbefore⟩ :=
    @loop_keys _ _ [] after world owner handlers (planOf request table idxnum fields filters) index
      view Seen hserves hhandles.observes hkeys
      ⟨true, request.get.limit, request.get.start, 0, 0⟩ rfl rfl hseen
  rw [List.nil_append] at hbefore
  have hrequested : Seen (requestedRows index filters request.get) before := by
    simp only [rowsLeft, planOf, filterRecord_fillFilterBuf,
      keyRows_append_rowsFrom hfinds.counts world.stray hfinds.keys_ne hfinds.between] at hbefore
    exact hbefore
  obtain ⟨final, hfinish, hdone⟩ := hhandles.finishes _ _ hrequested
  refine ⟨enough, fun rounds hrounds ↦ ⟨final, ?_, hdone⟩⟩
  have hloop' : Program.loop
      (findRound world owner handlers (planOf request table idxnum fields filters)) rounds
      ⟨true, request.get.limit, request.get.start, 0, 0⟩ after = some (.done r, before) :=
    Program.loop_of_le hloop hrounds
  have hfirst : ¬ (!parseIndex (planOf request table idxnum fields filters).info
      (keyAt world.stray request.get 0)) = true := by
    rw [hkeys 0 hpositive]
    decide
  have hsecond : ¬ (request.get.findFlag = .between ∧ parseIndex
      (planOf request table idxnum fields filters).info (keyAt world.stray request.get 1) =
        false) := by
    rintro ⟨hbetween, hfails⟩
    have hone : 1 < request.get.keyNum := hfinds.counts.keys_filled ▸ hfinds.between hbetween
    rw [hkeys 1 hone] at hfails
    exact Bool.false_ne_true hfails.symm
  rw [findRows, Program.bind_of_eq_some hinit, Program.bind_of_eq_some hcreate,
    if_neg (by decide), planOf_get, if_neg hfirst, if_neg (fun h ↦ Bool.false_ne_true h.2.symm),
    if_neg hsecond]
  refine (Program.bind_of_eq_some hloop').trans ?_
  rw [finishFind, if_pos hend, Program.bind_of_eq_some hfinish]
  rfl

/-- Whatever the handlers make of the rows they are given, they make of the rows requested. Assumes:
the request fits the table, memory can be had, and the storage engine serves the index. -/
theorem doFindLocked_reads {handlers : FindHandlers Outside Record}
    {Seen Done : List Record → Context Outside Record → Prop} (hlock : context.lock = true)
    (hallocates : Allocates world)
    (hfinds : FindsIndex world.stray request table idxnum fields filters)
    (hserves : Serves world table idxnum index view)
    (hhandles : Handles owner handlers (planOf request table idxnum fields filters) view context
      Seen Done) :
    ∃ enough, ∀ rounds, enough ≤ rounds → ∃ final,
      doFindLocked world rounds owner request handlers table context = some (.ok, final) ∧
      Done (requestedRows index filters request.get) final := by
  obtain ⟨outside, hbuffers⟩ := findBuffers_of_allocates hallocates owner
    (if filters.length = 0 then 0 else calcFilterBufSize filters)
    (table.keyInfo.getD idxnum ⟨[], [], 0⟩).keyLength context
  obtain ⟨enough, hrows⟩ := findRows_reads hfinds hserves hhandles outside
  refine ⟨enough, fun rounds hrounds ↦ ?_⟩
  obtain ⟨final, hfind, hdone⟩ := hrows rounds hrounds
  refine ⟨final, ?_, hdone⟩
  rw [doFindLocked, Program.bind_of_eq_some (Program.read_apply _ _), hlock, if_neg (by decide),
    hfinds.index_eq]
  simp only [Option.elim_some, findOpened, hfinds.fields_eq, hfinds.filters_eq]
  exact (hbuffers _).trans hfind

/-! ### GET -/

/-- A change of the response of a packet, as far as the handlers look at it. -/
theorem setResponse_apply (owner : Owner) (change : Response → Response)
    (context : Context Outside Record) :
    ∃ after, setResponse owner change context = some ((), after) ∧
      after.response owner = change (context.response owner) ∧
      after.outside = context.outside ∧ after.changeRowNum = context.changeRowNum :=
  ⟨_, rfl, Function.update_self _ _ _, rfl, rfl⟩

/-- The connection of the request stays open, and writing to it leaves the index alone. -/
structure StaysConnected (world : World Outside Record) (view : Outside → IndexState Record) :
    Prop where
  written : ∀ data outside, (world.writeData data outside).1 = true
  view_eq : ∀ data outside, view (world.writeData data outside).2 = view outside

/-- The values that GET hands out for some rows. -/
def valuesOf (fields : List (Field Record)) (rows : List Record) : List (List UInt8) :=
  rows.flatMap fun record ↦ fields.map fun field ↦ responseValue field record

theorem responseFields_of_connected (hconnected : StaysConnected world view) (owner : Owner)
    (record : Record) (fields : List (Field Record)) (context : Context Outside Record) :
    ∃ after, responseFields world owner record fields context = some (.ok, after) ∧
      view after.outside = view context.outside ∧
      (after.response owner).code = (context.response owner).code ∧
      (after.response owner).data = (context.response owner).data ++
        fields.map fun field ↦ responseValue field record := by
  induction fields generalizing context with
  | nil => exact ⟨context, rfl, rfl, rfl, (List.append_nil _).symm⟩
  | cons field fields ih =>
    have hasked : ask (world.writeData (responseValue field record)) context = some (true,
        { context with
          outside := (world.writeData (responseValue field record) context.outside).2 }) := by
      rw [ask, hconnected.written]
    obtain ⟨middle, hset, hresponse, houtside, -⟩ := setResponse_apply owner
      (fun response ↦ { response with data := response.data ++ [responseValue field record] })
      { context with
        outside := (world.writeData (responseValue field record) context.outside).2 }
    obtain ⟨after, hrest, hview, hcode, hdata⟩ := ih middle
    refine ⟨after, ?_, ?_, ?_, ?_⟩
    · rw [responseFields, Program.bind_of_eq_some hasked, if_pos rfl,
        Program.bind_of_eq_some hset, hrest]
    · rw [hview, houtside, hconnected.view_eq]
    · rw [hcode, hresponse]
    · rw [hdata, hresponse, List.map_cons]
      exact (List.append_cons _ _ _).symm

/-- What GET keeps of its rows: their values. -/
def GetSeen (owner : Owner) (fields : List (Field Record)) (rows : List Record)
    (context : Context Outside Record) : Prop :=
  (context.response owner).code = clientStatusOk ∧
    (context.response owner).data = valuesOf fields rows

/-- Assumes: there is memory for the buffer. -/
theorem writeHeader_apply {allocSize : ℕ}
    (hcreated : (world.easyBufCreate (allocSize + tdhSocketHeaderLength) context.outside).1 = true)
    (owner : Owner) (types : List UInt8) :
    ∃ after, writeHeader world owner types allocSize context = some (.ok, after) ∧
      after.changeRowNum = context.changeRowNum ∧
      after.response owner =
        { context.response owner with
          wbuff := BigEndian.toBytes types.length ++ types
          data := []
          length := (context.response owner).length + (4 + types.length) } := by
  have hasked : ask (world.easyBufCreate (allocSize + tdhSocketHeaderLength)) context =
      some (true, { context with
        outside := (world.easyBufCreate (allocSize + tdhSocketHeaderLength)
          context.outside).2 }) := by
    rw [ask, hcreated]
  obtain ⟨after, hset, hresponse, -, hchange⟩ := setResponse_apply owner
    (fun response ↦
      { response with
        wbuff := BigEndian.toBytes types.length ++ types
        data := []
        length := response.length + (4 + types.length) })
    { context with
      outside := (world.easyBufCreate (allocSize + tdhSocketHeaderLength) context.outside).2 }
  refine ⟨after, ?_, hchange, hresponse⟩
  rw [writeHeader, Program.bind_of_eq_some hasked, if_pos rfl, Program.bind_of_eq_some hset]
  rfl

/-- Assumes: there is memory for the buffer. -/
theorem writeHeader_of_allocates (hallocates : Allocates world) (owner : Owner)
    (types : List UInt8) (allocSize : ℕ) (context : Context Outside Record) :
    ∃ after, writeHeader world owner types allocSize context = some (.ok, after) ∧
      after.changeRowNum = context.changeRowNum ∧
      (after.response owner).code = (context.response owner).code ∧
      (after.response owner).wbuff = BigEndian.toBytes types.length ++ types ∧
      (after.response owner).data = [] := by
  obtain ⟨after, hheader, hchange, hresponse⟩ :=
    writeHeader_apply (hallocates.easyBufCreate _ context.outside) owner types
  refine ⟨after, hheader, hchange, ?_⟩
  rw [hresponse]
  exact ⟨rfl, rfl, rfl⟩

theorem handles_getHandlers (hallocates : Allocates world)
    (hconnected : StaysConnected world view) (plan : FindPlan Record) :
    Handles owner (getHandlers world owner) plan view context (GetSeen owner plan.fields)
      (GetSeen owner plan.fields) where
  observes := by
    refine ⟨fun rows record context hseen ↦ ?_, fun rows context outside events hseen ↦ hseen⟩
    obtain ⟨after, hfields, hview, hcode, hdata⟩ :=
      responseFields_of_connected hconnected owner record plan.fields context
    refine ⟨after, Program.bind_of_eq_some hfields, ⟨hcode.trans hseen.1, ?_⟩, hview⟩
    rw [hdata, hseen.2, valuesOf, valuesOf, List.flatMap_append, List.flatMap_singleton]
  creates := by
    intro outside
    obtain ⟨middle, hinit, hresponse, -, -⟩ := setResponse_apply owner
      (fun response ↦ { response with code := clientStatusOk, length := 0 })
      { context with outside := outside }
    obtain ⟨after, hheader, -, hcode, -, hdata⟩ := writeHeader_of_allocates hallocates owner
      (plan.fields.map fun field ↦ UInt8.ofNat field.type) _ middle
    refine ⟨middle, after, hinit, hheader, ?_, hdata⟩
    rw [hcode, hresponse]
  finishes := fun rows before hseen ↦ ⟨before, rfl, hseen⟩

/-! ### COUNT -/

/-- The response header of a COUNT: one column of the type `MYSQL_TYPE_LONG`. -/
def countHeader : List UInt8 := BigEndian.toBytes 1 ++ [mysqlTypeLong]

/-- The response of a COUNT with a text for the number. -/
def countResponse (text : List UInt8) : List UInt8 :=
  countHeader ++ (BigEndian.toBytes text.length ++ text)

theorem countResponse_injective : Function.Injective countResponse := by
  intro first second hsame
  exact (List.append_inj (List.append_cancel_left hsame) rfl).2

/-- What COUNT keeps of its rows: how many there are, in 32 bits. -/
def CountSeen (owner : Owner) (rows : List Record) (context : Context Outside Record) : Prop :=
  context.changeRowNum = rows.length % 2 ^ 32 ∧
    (context.response owner).code = clientStatusOk ∧
    (context.response owner).wbuff = countHeader

/-- What COUNT answers for its rows. -/
def CountDone (owner : Owner) (rows : List Record) (context : Context Outside Record) : Prop :=
  (context.response owner).code = clientStatusOk ∧
    (context.response owner).wbuff =
      countResponse (printedValue (printInt (rows.length % 2 ^ 32)))

theorem handles_countHandlers (hallocates : Allocates world) (hcounter : context.changeRowNum = 0)
    (plan : FindPlan Record) :
    Handles owner (countHandlers world owner) plan view context (CountSeen owner)
      (CountDone owner) where
  observes := by
    refine ⟨fun rows record context hseen ↦ ?_, fun rows context outside events hseen ↦ hseen⟩
    have hnumber : (context.changeRowNum + 1) % 2 ^ 32 = (rows ++ [record]).length % 2 ^ 32 := by
      rw [hseen.1, List.length_append, List.length_singleton, Nat.mod_add_mod]
    exact ⟨_, rfl, ⟨hnumber, hseen.2⟩, rfl⟩
  creates := by
    intro outside
    obtain ⟨middle, hinit, hresponse, -, hkept⟩ := setResponse_apply owner
      (fun response ↦ { response with code := clientStatusOk, length := 0 })
      { context with outside := outside }
    obtain ⟨after, hheader, hchange, hcode, hwbuff, -⟩ := writeHeader_of_allocates hallocates
      owner (List.replicate 1 mysqlTypeLong) _ middle
    refine ⟨middle, after, hinit, hheader, ?_, ?_, hwbuff⟩
    · rw [hchange, hkept]
      exact hcounter
    · rw [hcode, hresponse]
  finishes := by
    intro rows before hseen
    obtain ⟨final, hset, hresponse, -, -⟩ := setResponse_apply owner
      (fun response ↦
        { response with
          wbuff := response.wbuff ++
            (BigEndian.toBytes (printedValue (printInt before.changeRowNum)).length ++
              printedValue (printInt before.changeRowNum))
          length := response.length +
            (4 + (printedValue (printInt before.changeRowNum)).length) }) before
    refine ⟨final, hset, ?_, ?_⟩
    · rw [hresponse]
      exact hseen.2.1
    · rw [hresponse, ← hseen.1, countResponse, ← hseen.2.2]

/-! ### The rows and the number -/

/-- A GET or COUNT is about the rows requested: whatever a process handler makes of the rows it is
given, it makes of these, and GET answers with their values. The number COUNT answers with is their
number exactly when it is below 2 ^ 31. Assumes: the request fits the table, the storage engine
serves the index, memory can be had and the connection stays open. -/
theorem find_reads_rows (hlock : context.lock = true) (hcounter : context.changeRowNum = 0)
    (hallocates : Allocates world)
    (hfinds : FindsIndex world.stray request table idxnum fields filters)
    (hserves : Serves world table idxnum index view) (hconnected : StaysConnected world view) :
    (∀ (handlers : FindHandlers Outside Record)
        (Seen Done : List Record → Context Outside Record → Prop),
      Handles owner handlers (planOf request table idxnum fields filters) view context Seen Done →
      ∃ enough, ∀ rounds, enough ≤ rounds → ∃ final,
        doFindLocked world rounds owner request handlers table context = some (.ok, final) ∧
        Done (requestedRows index filters request.get) final) ∧
    (∃ enough, ∀ rounds, enough ≤ rounds → ∃ final,
      doFindLocked world rounds owner request (getHandlers world owner) table context =
        some (.ok, final) ∧
      (final.response owner).code = clientStatusOk ∧
      (final.response owner).data = valuesOf fields (requestedRows index filters request.get)) ∧
    ∃ enough, ∀ rounds, enough ≤ rounds → ∃ final,
      doFindLocked world rounds owner request (countHandlers world owner) table context =
        some (.ok, final) ∧
      (final.response owner).code = clientStatusOk ∧
      ((final.response owner).wbuff =
          countResponse (decimal (requestedRows index filters request.get).length) ↔
        (requestedRows index filters request.get).length < 2 ^ 31) := by
  refine ⟨fun handlers Seen Done hhandles ↦
      doFindLocked_reads hlock hallocates hfinds hserves hhandles,
    doFindLocked_reads hlock hallocates hfinds hserves
      (handles_getHandlers hallocates hconnected _), ?_⟩
  obtain ⟨enough, hreads⟩ := doFindLocked_reads hlock hallocates hfinds hserves
    (handles_countHandlers hallocates hcounter _)
  refine ⟨enough, fun rounds hrounds ↦ ?_⟩
  obtain ⟨final, hfind, hcode, hwbuff⟩ := hreads rounds hrounds
  refine ⟨final, hfind, hcode, ?_⟩
  rw [hwbuff, countResponse_injective.eq_iff, printed_eq_iff]

end Find

/-! ### An index of numbers -/

/-- An index of numbers, whose keys are texts of digits. -/
def numberIndex (slots : List (Slot ℕ))
    (hsorted : slots.Pairwise fun first later ↦ first.record ≤ later.record) :
    OrderedIndex ℕ where
  slots := slots
  compare key record := Ord.compare record (leadingNumber (key.headD []))
  sorted key := hsorted.imp fun {first later} hle ↦ by
    simp only [Nat.compare_eq_gt, Nat.compare_eq_lt]
    omega

variable (index : OrderedIndex ℕ)

/-- A world in which everything succeeds and that serves an index. What is outside is the place of
the cursor. -/
def servingWorld : World (IndexState ℕ) ℕ :=
  { calmWorld numberTable 0 with
    index := fun _ _ call state ↦
      ((index.moved state call).elim (haErrEndOfFile, 0) fun cursor ↦
          (if cursor.current.deleted then haErrRecordDeleted else 0, cursor.current.record),
        ⟨index.moved state call, endKeyAfter state call⟩)
    keyCmpIfSame := fun _ _ key record ↦ index.compare key record != .eq }

theorem serves_servingWorld (table : Table ℕ) (idxnum : ℕ) :
    Serves (servingWorld index) table idxnum index id where
  answers call state := by
    simp only [servingWorld, id]
    cases index.moved state call with
    | none => exact Or.inr rfl
    | some cursor =>
      refine ⟨rfl, ?_⟩
      unfold IsAnswerFor
      cases hdeleted : cursor.current.deleted <;> simp [hdeleted]
  endKey _ _ := rfl
  keyCmp _ _ := rfl
  killed _ := rfl
  killed_view _ := rfl

theorem allocates_servingWorld : Allocates (servingWorld index) :=
  ⟨fun _ _ ↦ rfl, fun _ _ ↦ rfl⟩

/-- A request thread that holds the lock of the table. -/
def lockedContext : Context (IndexState ℕ) ℕ :=
  ⟨⟨none, []⟩, true, false, false, .ok, 0, 0, fun _ ↦ ⟨0, 0, [], []⟩, [], [], []⟩

/-- A request for the numbers that one digit or one of several digits is the key of. -/
def findNumbers (findFlag : FindFlag) (digits : List UInt8) (start limit : ℕ) : TdhsRequest where
  type := .get
  tableInfo := ⟨1, [116, 0], [116, 0], primaryString, [[118, 0]]⟩
  get := ⟨digits.length, ⟨10, 10⟩, digits.map fun digit ↦ ⟨1, [[digit, 0]]⟩, findFlag, start, limit,
    ⟨0, []⟩⟩
  values := zeroValues

/-- Assumes: there are digits, two for a range, and no more than keys have place. -/
theorem findsIndex_findNumbers (stray : Stray) {findFlag : FindFlag} {digits : List UInt8}
    (hdigits : digits ≠ []) (hplace : digits.length ≤ 10)
    (hbetween : findFlag = .between → 1 < digits.length) (start limit : ℕ) :
    FindsIndex stray (findNumbers findFlag digits start limit) numberTable 0 [numberField] [] where
  index_eq := by
    change tdhsOpenIndex numberTable primaryString = some 0
    decide
  fields_eq := rfl
  filters_eq := rfl
  counts := by
    have hkey : ∀ key ∈ (findNumbers findFlag digits start limit).get.keys,
        key.keyFieldNum = 1 ∧ key.key.length = 1 := by
      intro key hmem
      obtain ⟨digit, -, rfl⟩ := List.mem_map.mp hmem
      exact ⟨rfl, rfl⟩
    refine ⟨Nat.zero_le _, hplace, fun key hmem ↦ ?_, rfl, List.length_map _,
      fun key hmem ↦ ?_⟩
    · rw [(hkey key hmem).1]
      decide
    · rw [(hkey key hmem).1, (hkey key hmem).2]
  keys_ne := by simpa [findNumbers] using hdigits
  between := by simpa [findNumbers] using hbetween
  fits := by
    intro key hmem
    obtain ⟨digit, -, rfl⟩ := List.mem_map.mp hmem
    rfl

/-- Five numbers and the entry of a deleted one. -/
def fiveNumbers : OrderedIndex ℕ :=
  numberIndex [⟨1, false⟩, ⟨1, true⟩, ⟨1, false⟩, ⟨2, false⟩, ⟨3, false⟩, ⟨3, false⟩] (by decide)

/-- IN 3, 1 from the second row on, two rows: the second 3 and the first 1. -/
theorem find_reads_rows_fiveNumbers :
    (∃ enough, ∀ rounds, enough ≤ rounds → ∃ final,
      doFindLocked (servingWorld fiveNumbers) rounds ⟨0, 0⟩ (findNumbers .inKeys [51, 49] 1 2)
        (getHandlers (servingWorld fiveNumbers) ⟨0, 0⟩) numberTable lockedContext =
          some (.ok, final) ∧
      (final.response ⟨0, 0⟩).data = valuesOf [numberField] [3, 1]) ∧
    ∃ enough, ∀ rounds, enough ≤ rounds → ∃ final,
      doFindLocked (servingWorld fiveNumbers) rounds ⟨0, 0⟩ (findNumbers .inKeys [51, 49] 1 2)
        (countHandlers (servingWorld fiveNumbers) ⟨0, 0⟩) numberTable lockedContext =
          some (.ok, final) ∧
      (final.response ⟨0, 0⟩).wbuff = countResponse (decimal 2) := by
  have hrows : requestedRows fiveNumbers [] (findNumbers .inKeys [51, 49] 1 2).get = [3, 1] := by
    decide
  have hreads := @find_reads_rows _ _ (servingWorld fiveNumbers) ⟨0, 0⟩
    (findNumbers .inKeys [51, 49] 1 2) numberTable 0 [numberField] [] fiveNumbers id lockedContext
    rfl rfl (allocates_servingWorld _)
    (findsIndex_findNumbers _ (by decide) (by decide) (by decide) 1 2)
    (serves_servingWorld _ _ _) ⟨fun _ _ ↦ rfl, fun _ _ ↦ rfl⟩
  rw [hrows] at hreads
  obtain ⟨-, ⟨enough, hget⟩, enough', hcount⟩ := hreads
  refine ⟨⟨enough, fun rounds hrounds ↦ ?_⟩, enough', fun rounds hrounds ↦ ?_⟩
  · obtain ⟨final, hfind, -, hdata⟩ := hget rounds hrounds
    exact ⟨final, hfind, hdata⟩
  · obtain ⟨final, hfind, -, hwbuff⟩ := hcount rounds hrounds
    exact ⟨final, hfind, hwbuff.mpr (by decide)⟩

/-- An index of as many ones. -/
def manyOnes (number : ℕ) : OrderedIndex ℕ :=
  numberIndex (List.replicate number ⟨1, false⟩) (List.pairwise_replicate.mpr (Or.inr le_rfl))

theorem requestedRows_manyOnes (number : ℕ) :
    requestedRows (manyOnes number) [] (findNumbers .eq [49] 0 0).get =
      List.replicate number 1 := by
  have hone : (!(⟨1, false⟩ : Slot ℕ).deleted && (manyOnes number).compare [[49, 0]]
      (⟨1, false⟩ : Slot ℕ).record == .eq) = true := by
    change (Ord.compare 1 (leadingNumber [49, 0]) == .eq) = true
    decide
  have hrows : rowsWith (manyOnes number)
      (fun record ↦ (manyOnes number).compare [[49, 0]] record == .eq) =
        List.replicate number 1 := by
    have hslots : (manyOnes number).slots = List.replicate number ⟨1, false⟩ := rfl
    rw [rowsWith, hslots, List.filter_replicate, if_pos hone, List.map_replicate]
  have hfilter : (List.replicate number 1).filter (passes ([] : List (BoundFilter ℕ))) =
      List.replicate number 1 := List.filter_eq_self.mpr fun _ _ ↦ rfl
  exact (congrArg (List.filter (passes [])) hrows).trans hfilter

/-- COUNT of 2 ^ 31 rows: the answer is the text -214748364 and a zero byte. -/
theorem count_of_many_rows :
    (requestedRows (manyOnes (2 ^ 31)) [] (findNumbers .eq [49] 0 0).get).length = 2 ^ 31 ∧
    ∃ enough, ∀ rounds, enough ≤ rounds → ∃ final,
      doFindLocked (servingWorld (manyOnes (2 ^ 31))) rounds ⟨0, 0⟩ (findNumbers .eq [49] 0 0)
        (countHandlers (servingWorld (manyOnes (2 ^ 31))) ⟨0, 0⟩) numberTable lockedContext =
          some (.ok, final) ∧
      (final.response ⟨0, 0⟩).wbuff =
        countResponse [45, 50, 49, 52, 55, 52, 56, 51, 54, 52, 0] ∧
      (final.response ⟨0, 0⟩).wbuff ≠ countResponse (decimal (2 ^ 31)) := by
  have hlength : (requestedRows (manyOnes (2 ^ 31)) [] (findNumbers .eq [49] 0 0).get).length =
      2 ^ 31 := by
    rw [requestedRows_manyOnes, List.length_replicate]
  refine ⟨hlength, ?_⟩
  obtain ⟨enough, hreads⟩ := @doFindLocked_reads _ _ (servingWorld (manyOnes (2 ^ 31))) ⟨0, 0⟩
    (findNumbers .eq [49] 0 0) numberTable 0 [numberField] [] (manyOnes (2 ^ 31)) id lockedContext
    _ _ _ rfl (allocates_servingWorld _)
    (findsIndex_findNumbers _ (by decide) (by decide) (by decide) 0 0)
    (serves_servingWorld _ _ _) (handles_countHandlers (allocates_servingWorld _) rfl _)
  refine ⟨enough, fun rounds hrounds ↦ ?_⟩
  obtain ⟨final, hfind, -, hwbuff⟩ := hreads rounds hrounds
  rw [hlength] at hwbuff
  refine ⟨final, hfind, ?_, ?_⟩
  · rw [hwbuff]
    decide +kernel
  · rw [hwbuff, Ne, countResponse_injective.eq_iff, printed_eq_iff]
    exact lt_irrefl _

end TdhSocket.Execute
