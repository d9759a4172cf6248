import TdhSocket.Tables.Invariant
import TdhSocket.Tables.WriteRounds

/-!
# The query cache is invalidated for the changed tables

Before the locks of a period are released, `query_cache_invalidate3` is called for the tables whose
node has the flag `modified`. The flag is set for every row that is changed, but it is never taken
back: a node of `for_cached_opened_table` keeps it from round to round, and without group commit a
node of the pool keeps it from one lock period of a round to the next.

`Since` says what a lock period does to the flags, `exact_iff` what follows for the tables that are
invalidated, and `query_cache_exact` that in every sequence of rounds a lock period invalidates
exactly the changed tables if and only if no table without a changed row is locked with the flag
set.
-/

set_option autoImplicit false

namespace TdhSocket.Tables

open Decode Library

variable {hashCode : HashCode} {address : Node → ℕ} {cacheTableNum : ℕ} {set : TableSet}
  {tables : List MysqlTable}

/-! ### The nodes of the requests -/

/-- A node that `open_table` gave to a request of the round: it is in the hash table, or it has no
table. -/
def Held (set : TableSet) (node : Node) : Prop :=
  node ∈ set.nodes ∨ ∃ serial < set.poolNodes, node = .inPool serial ∧
    (set.openedTable node).mysqlTable = none

variable {node : Node} {table : MysqlTable}

theorem Held.mem_nodes (hheld : Held set node)
    (htable : (set.openedTable node).mysqlTable = some table) : node ∈ set.nodes := by
  rcases hheld with hmem | ⟨serial, -, -, hnone⟩
  · exact hmem
  · rw [htable] at hnone
    cases hnone

variable {other : TableSet} {key : UInt64} {requests : List (WriteRequest OpenedWrite)}
  {period : LockPeriod}

theorem SameTables.nodes (hsame : SameTables set other) :
    other.nodes = set.nodes := by
  rw [TableSet.nodes, hsame.hashTableForOpened, TableSet.nodes]

theorem SameTables.trans {third : TableSet} (hfirst : SameTables set other)
    (hsecond : SameTables other third) : SameTables set third where
  hashTableForOpened := hsecond.hashTableForOpened.trans hfirst.hashTableForOpened
  mysqlTable node := (hsecond.mysqlTable node).trans (hfirst.mysqlTable node)
  poolNodes := hsecond.poolNodes.trans hfirst.poolNodes
  openedTableNum := hsecond.openedTableNum.trans hfirst.openedTableNum
  needLockTables := hsecond.needLockTables.trans hfirst.needLockTables
  alreadyCachedTableNum := hsecond.alreadyCachedTableNum.trans hfirst.alreadyCachedTableNum
  cachedTable := hsecond.cachedTable.trans hfirst.cachedTable
  openTables := hsecond.openTables.trans hfirst.openTables

theorem SameTables.held (hsame : SameTables set other) (hheld : Held set node) :
    Held other node := by
  unfold Held
  rw [hsame.nodes, hsame.poolNodes, hsame.mysqlTable]
  exact hheld

/-- Two nodes of the hash table have two tables. -/
theorem Opened.node_inj (hopened : Opened hashCode set tables) {first second : Node}
    (hfirst : first ∈ set.nodes) (hsecond : second ∈ set.nodes)
    (hsame : (set.openedTable first).mysqlTable = (set.openedTable second).mysqlTable) :
    first = second := by
  have hnodup : set.hashTables.Nodup :=
    hopened.hashTables_perm.nodup_iff.mpr (nodup_map_some hopened.names)
  exact List.inj_on_of_nodup_map hnodup hfirst hsecond hsame

theorem mem_nodes_addOpenedTable {other : Node} :
    other ∈ (addOpenedTable key node table set).nodes ↔ other = node ∨ other ∈ set.nodes :=
  ((ChainedHash.forEach_add set.hashTableForOpened key node).map Prod.snd).mem_iff.trans
    List.mem_cons

theorem held_addOpenedTable {other : Node} (hheld : Held set other) :
    Held (addOpenedTable key node table set) other := by
  by_cases hsame : other = node
  · exact .inl (mem_nodes_addOpenedTable.mpr (.inl hsame))
  · rcases hheld with hmem | ⟨serial, hlt, rfl, hnone⟩
    · exact .inl (mem_nodes_addOpenedTable.mpr (.inr hmem))
    · refine .inr ⟨serial, hlt, rfl, ?_⟩
      rw [addOpenedTable_of_ne key table set hsame]
      exact hnone

theorem held_allocNode (hheld : Held set node) : Held (allocNode set) node := by
  rcases hheld with hmem | ⟨serial, hlt, rfl, hnone⟩
  · exact .inl hmem
  · have hne : Node.inPool serial ≠ .inPool set.poolNodes :=
      fun heq ↦ Nat.ne_of_lt hlt (Node.inPool.inj heq)
    refine .inr ⟨serial, Nat.lt_succ_of_lt hlt, rfl, ?_⟩
    exact (congrArg OpenedTable.mysqlTable (Function.update_of_ne hne _ _)).trans hnone

theorem held_allocNode_self (set : TableSet) : Held (allocNode set) (.inPool set.poolNodes) := by
  have hfresh : (allocNode set).openedTable (.inPool set.poolNodes) = ⟨none, false⟩ :=
    Function.update_self _ _ _
  exact .inr ⟨set.poolNodes, Nat.lt_succ_self _, rfl, congrArg OpenedTable.mysqlTable hfresh⟩

/-- The loop over the cached tables keeps the nodes of the requests. -/
theorem held_takeAllCached (hsound : Sound hashCode cacheTableNum set)
    (hheld : Held set node) : Held (takeAllCached hashCode set) node := by
  obtain ⟨tables, cached, hplaces⟩ := hsound
  unfold takeAllCached
  split
  · next hsome =>
    have htables : tables = [] := by
      refine hplaces.apart.resolve_left fun hnil ↦ Nat.ne_of_gt hsome ?_
      rw [hplaces.inSlots.num, hnil]
      rfl
    subst htables
    have htaken := hplaces.inSlots.taken hplaces.inHash (Nat.le_refl cached.length)
    rw [← hplaces.inSlots.num] at htaken
    have hnodes : set.nodes = [] := List.eq_nil_of_length_eq_zero hplaces.inHash.length_nodes
    rcases hheld with hmem | ⟨serial, hlt, rfl, hnone⟩
    · rw [hnodes] at hmem
      exact absurd hmem List.not_mem_nil
    · refine .inr ⟨serial, htaken.poolNodes ▸ hlt, rfl, ?_⟩
      exact (congrArg OpenedTable.mysqlTable (htaken.inPool serial)).trans hnone
  · exact hheld

/-- A request's node is held, and those of the earlier requests still are. -/
theorem held_openTable (hsound : Sound hashCode cacheTableNum set) (type : RequestType)
    (info : TdhsRequestTable) (answer : OpenAnswer) :
    (∀ node, (openTable hashCode type info answer set).1 = some node →
      Held (openTable hashCode type info answer set).2 node) ∧
    ∀ node, Held set node → Held (openTable hashCode type info answer set).2 node := by
  unfold openTable
  split
  · exact ⟨fun _ h ↦ (Option.some_ne_none _ h.symm).elim, fun _ h ↦ h⟩
  have htaken : ∀ node, Held set node → Held (takeAllCached hashCode set) node :=
    fun _ ↦ held_takeAllCached hsound
  generalize takeAllCached hashCode set = taken at htaken ⊢
  dsimp only
  cases hfound : taken.hashTableForOpened.findEx (hashCode (namesOf info)) fun node ↦
      compareTableInfo info (taken.openedTable node) with
  | some found =>
    refine ⟨fun node hnode ↦ ?_, htaken⟩
    obtain rfl : found = node := Option.some.inj hnode
    exact .inl (List.mem_map_of_mem (ChainedHash.findEx_eq_some hfound).1)
  | none =>
    rw [Option.elim_none, openNew]
    split
    · cases answer.table with
      | none =>
        refine ⟨fun node hnode ↦ ?_, fun node hheld ↦ held_allocNode (htaken node hheld)⟩
        obtain rfl : Node.inPool taken.poolNodes = node := Option.some.inj hnode
        exact held_allocNode_self taken
      | some table =>
        refine ⟨fun node hnode ↦ ?_, fun node hheld ↦ ?_⟩
        · obtain rfl : Node.inPool taken.poolNodes = node := Option.some.inj hnode
          exact .inl (mem_nodes_addOpenedTable.mpr (.inl rfl))
        · exact held_addOpenedTable (held_allocNode (htaken node hheld))
    · exact ⟨fun _ h ↦ (Option.some_ne_none _ h.symm).elim, htaken⟩

/-! ### Opening the tables of a round -/

/-- The nodes of a write are held. -/
def HeldWrite (set : TableSet) (write : OpenedWrite) : Prop :=
  ∀ node, write.opened = some node → Held set node

/-- The nodes of a request are held. -/
def HeldRequest (set : TableSet) (request : WriteRequest OpenedWrite) : Prop :=
  ∀ write ∈ request.writes, HeldWrite set write

/-- What a loop over a list makes of the context and leaves for its elements. Assumes: each round
keeps an invariant, is good for its own result and keeps what is good for the earlier ones. -/
theorem eachSet_spec {First Second : Type} (change : First → TableSet → Second × TableSet)
    (Invariant : TableSet → Prop) (Good : TableSet → Second → Prop) {elements : List First}
    (hchange : ∀ element ∈ elements, ∀ set, Invariant set →
      Invariant (change element set).2 ∧ Good (change element set).2 (change element set).1 ∧
        ∀ other, Good set other → Good (change element set).2 other)
    (hset : Invariant set) :
    Invariant (eachSet change elements set).2 ∧
      (∀ result ∈ (eachSet change elements set).1, Good (eachSet change elements set).2 result) ∧
      ∀ other, Good set other → Good (eachSet change elements set).2 other := by
  induction elements generalizing set with
  | nil => exact ⟨hset, fun _ h ↦ absurd h List.not_mem_nil, fun _ h ↦ h⟩
  | cons element elements ih =>
    obtain ⟨hone, hgood, hkept⟩ := hchange element List.mem_cons_self set hset
    obtain ⟨hall, hresults, hothers⟩ :=
      ih (fun other hother ↦ hchange other (List.mem_cons_of_mem _ hother)) hone
    refine ⟨hall, fun result hresult ↦ ?_, fun other hother ↦ hothers other (hkept other hother)⟩
    rcases List.mem_cons.mp hresult with rfl | hresult
    · exact hothers _ hgood
    · exact hresults result hresult

theorem openWrite_spec {write : PlainWrite}
    (hnames : ∀ table, write.answer.table = some table → table.name = namesOf write.info)
    (hsound : Sound hashCode cacheTableNum set) :
    Sound hashCode cacheTableNum (openWrite hashCode write set).2 ∧
      HeldWrite (openWrite hashCode write set).2 (openWrite hashCode write set).1 ∧
      ∀ node, Held set node → Held (openWrite hashCode write set).2 node := by
  obtain ⟨hown, hothers⟩ := held_openTable hsound write.type write.info write.answer
  exact ⟨hsound.openTable write.type hnames, hown, hothers⟩

theorem openRequest_spec {request : WriteRequest PlainWrite}
    (hnames : ∀ write ∈ request.writes, ∀ table, write.answer.table = some table →
      table.name = namesOf write.info) (hsound : Sound hashCode cacheTableNum set) :
    Sound hashCode cacheTableNum (openRequest hashCode request set).2 ∧
      HeldRequest (openRequest hashCode request set).2 (openRequest hashCode request set).1 ∧
      ∀ node, Held set node → Held (openRequest hashCode request set).2 node := by
  cases request with
  | plain processed locked write =>
    obtain ⟨hopened, hown, hothers⟩ := openWrite_spec (hnames write List.mem_cons_self) hsound
    refine ⟨hopened, fun other hother ↦ ?_, hothers⟩
    obtain rfl := List.mem_singleton.mp hother
    exact hown
  | batch processed memory locked writes executed =>
    obtain ⟨hopened, hown, hothers⟩ :=
      eachSet_spec (openWrite hashCode) (Sound hashCode cacheTableNum) HeldWrite
        (fun write hwrite set hset ↦ by
          obtain ⟨hone, hheld, hkept⟩ := openWrite_spec (hnames write hwrite) hset
          exact ⟨hone, hheld, fun _ hother node hnode ↦ hkept node (hother node hnode)⟩) hsound
    refine ⟨hopened, hown, fun node hheld ↦ ?_⟩
    exact hothers ⟨some node, []⟩ (fun other hother ↦ Option.some.inj hother ▸ hheld) node rfl

/-- Behind the opening of the tables the invariant holds, and the nodes of all requests are held. -/
theorem openRequests_spec {requests : List (WriteRequest PlainWrite)}
    (hnames : ∀ request ∈ requests, ∀ write ∈ request.writes, ∀ table,
      write.answer.table = some table → table.name = namesOf write.info)
    (hsound : Sound hashCode cacheTableNum set) :
    Sound hashCode cacheTableNum (eachSet (openRequest hashCode) requests set).2 ∧
      ∀ request ∈ (eachSet (openRequest hashCode) requests set).1,
        HeldRequest (eachSet (openRequest hashCode) requests set).2 request := by
  obtain ⟨hopened, hown, -⟩ :=
    eachSet_spec (openRequest hashCode) (Sound hashCode cacheTableNum) HeldRequest
      (fun request hrequest set hset ↦ by
        obtain ⟨hone, hheld, hkept⟩ := openRequest_spec (hnames request hrequest) hset
        exact ⟨hone, hheld, fun _ hother write hwrite node hnode ↦
          hkept node (hother write hwrite node hnode)⟩) hsound
  exact ⟨hopened, hown⟩

/-! ### A lock period -/

/-- What has happened to the flags since the locks were taken, when some lock periods had ended. -/
structure Since (start : TableSet) (periods : List LockPeriod) (progress : Progress) : Prop where
  same : SameTables start progress.set
  periods : progress.periods = periods
  lock : progress.set.lock = start.lock
  bulk : progress.set.bulk = start.bulk
  modified : ∀ node ∈ start.nodes, ∀ table,
    (start.openedTable node).mysqlTable = some table →
    ((progress.set.openedTable node).modified = true ↔
      (start.openedTable node).modified = true ∨ table ∈ progress.changed)

variable {start : TableSet} {periods : List LockPeriod} {progress : Progress}

theorem since_start (start : TableSet) (periods : List LockPeriod) :
    Since start periods ⟨start, periods, []⟩ where
  same := .refl start
  periods := rfl
  lock := rfl
  bulk := rfl
  modified _ _ _ _ := (or_iff_left List.not_mem_nil).symm

section

variable (hopened : Opened hashCode start tables) (hsince : Since start periods progress)
  (hnode : node ∈ start.nodes) (htable : (start.openedTable node).mysqlTable = some table)

include hopened hsince hnode htable

/-- A row call keeps it. -/
theorem Since.noteRow (answer : ℤ) :
    Since start periods (noteRow node table progress answer) := by
  unfold Tables.noteRow
  split
  · refine ⟨hsince.same.trans (sameTables_noteModified node progress.set),
      hsince.periods, hsince.lock, hsince.bulk, fun other hother otherTable hotherTable ↦ ?_⟩
    have hbefore := hsince.modified other hother otherTable hotherTable
    dsimp only
    rw [List.mem_append, List.mem_singleton]
    by_cases heq : other = node
    · subst heq
      obtain rfl : otherTable = table := Option.some.inj (hotherTable.symm.trans htable)
      rw [noteModified_self]
      exact iff_of_true rfl (.inr (.inr rfl))
    · have hne : otherTable ≠ table := by
        rintro rfl
        exact heq (hopened.node_inj hother hnode (hotherTable.trans htable.symm))
      rw [noteModified_of_ne progress.set heq, hbefore, or_iff_left hne]
  · exact hsince

/-- The row calls of a write keep it. -/
theorem Since.executeLocked (rowAnswers : List ℤ) :
    Since start periods (executeLocked node table rowAnswers progress) := by
  unfold Tables.executeLocked
  split
  · clear * - hopened hsince hnode htable
    induction rowAnswers generalizing progress with
    | nil => exact hsince
    | cons answer rowAnswers ih => exact ih (hsince.noteRow hopened hnode htable answer)
  · exact hsince

end

theorem openedBy_eq_some {opened : Option Node} {found : Node × MysqlTable}
    (hfound : openedBy set opened = some found) :
    opened = some found.1 ∧ (set.openedTable found.1).mysqlTable = some found.2 := by
  unfold openedBy at hfound
  obtain ⟨node, rfl, hfound⟩ := Option.bind_eq_some_iff.mp hfound
  obtain ⟨table, htable, rfl⟩ := Option.map_eq_some_iff.mp hfound
  exact ⟨rfl, htable⟩

/-- A write inside a batch or with group commit keeps it. -/
theorem Since.executeInside (hopened : Opened hashCode start tables)
    (hsince : Since start periods progress) {write : OpenedWrite} (hheld : HeldWrite start write) :
    Since start periods (executeInside progress write) := by
  unfold Tables.executeInside
  cases hfound : openedBy progress.set write.opened with
  | none => exact hsince
  | some found =>
    obtain ⟨hnode, htable⟩ := openedBy_eq_some hfound
    rw [hsince.same.mysqlTable] at htable
    exact hsince.executeLocked hopened ((hheld _ hnode).mem_nodes htable) htable write.rowAnswers

/-! ### What is invalidated -/

/-- The tables that are invalidated in the period are exactly the locked ones of changed rows. -/
def LockPeriod.Exact (period : LockPeriod) : Prop :=
  ∀ table, some table ∈ period.tables → (table ∈ period.invalidated ↔ table ∈ period.changed)

/-- The node of the table has the flag `modified`. -/
def Flagged (set : TableSet) (table : MysqlTable) : Prop :=
  ∃ node ∈ set.nodes, (set.openedTable node).mysqlTable = some table ∧
    (set.openedTable node).modified = true

/-- Every table that is locked with the flag set has a changed row in the period. -/
def LockPeriod.NoneStale (period : LockPeriod) : Prop :=
  ∀ table, some table ∈ period.tables → Flagged period.before table → table ∈ period.changed

variable {nodes : List Node}

theorem mem_invalidated :
    table ∈ invalidated set nodes ↔ ∃ node ∈ nodes, (set.openedTable node).modified = true ∧
      (set.openedTable node).mysqlTable = some table := by
  unfold invalidated
  rw [List.mem_filterMap]
  refine exists_congr fun node ↦ and_congr_right fun _ ↦ ?_
  split
  · next hmodified => exact (and_iff_right hmodified).symm
  · next hmodified => exact iff_of_false nofun fun h ↦ hmodified h.1

/-- A lock period of the tables of some nodes. -/
theorem Since.exact_iff (hopened : Opened hashCode start tables)
    (hsince : Since start periods progress) (hnodes : ∀ node ∈ nodes, node ∈ start.nodes)
    (htables : ∀ table, some table ∈ period.tables ↔ ∃ node ∈ nodes,
      (start.openedTable node).mysqlTable = some table)
    (hbefore : period.before = start) (hchanged : period.changed = progress.changed)
    (hinvalidated : period.invalidated = invalidated progress.set nodes) :
    period.Exact ↔ period.NoneStale := by
  have htable : ∀ table, some table ∈ period.tables →
      (table ∈ period.invalidated ↔ Flagged period.before table ∨ table ∈ period.changed) := by
    intro table hlocked
    obtain ⟨node, hnode, hmysql⟩ := (htables table).mp hlocked
    have hmodified := hsince.modified node (hnodes node hnode) table hmysql
    -- the table has one node, so its flag decides both sides
    have hend : table ∈ period.invalidated ↔
        (progress.set.openedTable node).modified = true := by
      rw [hinvalidated, mem_invalidated]
      constructor
      · rintro ⟨other, hother, hflag, hsame⟩
        rw [hsince.same.mysqlTable] at hsame
        rw [← hopened.node_inj (hnodes other hother) (hnodes node hnode)
          (hsame.trans hmysql.symm)]
        exact hflag
      · intro hflag
        exact ⟨node, hnode, hflag, (hsince.same.mysqlTable node).trans hmysql⟩
    have hbegin : Flagged period.before table ↔ (start.openedTable node).modified = true := by
      rw [hbefore]
      constructor
      · rintro ⟨other, hother, hsame, hflag⟩
        rw [← hopened.node_inj hother (hnodes node hnode) (hsame.trans hmysql.symm)]
        exact hflag
      · intro hflag
        exact ⟨node, hnodes node hnode, hmysql, hflag⟩
    rw [hend, hbegin, hchanged, hmodified]
  refine forall_congr' fun table ↦ forall_congr' fun hlocked ↦ ?_
  rw [htable table hlocked]
  exact or_iff_right_iff_imp

/-! ### The process loop -/

/-- The process loop, from the bulk `lock_table` on: every lock period that has ended is exact where
no table is stale, and with group commit the period of the round is going on. -/
structure Going (base : TableSet) (progress : Progress) : Prop where
  same : SameTables base progress.set
  bulk : progress.set.bulk = base.bulk
  periods : ∀ period ∈ progress.periods, (period.Exact ↔ period.NoneStale)
  since : base.bulk = true → Since base [] progress

variable {base : TableSet}

theorem going_start (base : TableSet) : Going base ⟨base, [], []⟩ where
  same := .refl base
  bulk := rfl
  periods _ h := absurd h List.not_mem_nil
  since _ := since_start base []

/-- `tdhs_unlock_table_lite` under a lock. -/
theorem tdhsUnlockTableLite_of_lock (hlock : set.lock = true) (nodes : List Node) :
    tdhsUnlockTableLite true nodes set = invalidated set nodes := by
  unfold tdhsUnlockTableLite
  rw [hlock]
  cases nodes with
  | nil => rfl
  | cons node nodes => rfl

/-- `tdhs_unlock_table` under a lock. -/
theorem Opened.tdhsUnlockTable_of_lock (hopened : Opened hashCode set tables)
    (hlock : set.lock = true) : tdhsUnlockTable true set = invalidated set set.nodes := by
  unfold tdhsUnlockTable
  rw [hlock, hopened.count, ← hopened.length_nodes, TableSet.nodes]
  cases set.hashTableForOpened.forEach.map Prod.snd with
  | nil => rfl
  | cons node nodes => rfl

@[simp] theorem lockTables_bulk (locked : Bool) (set : TableSet) :
    (lockTables locked set).bulk = set.bulk := by
  unfold lockTables
  split <;> rfl

@[simp] theorem unlockTables_bulk (set : TableSet) : (unlockTables set).bulk = set.bulk := by
  unfold unlockTables
  split <;> rfl

/-- Some work under the lock for the tables of some nodes. Assumes: the work only changes rows of
tables that are open. -/
theorem Going.withLockTables (hopened : Opened hashCode base tables) (hgoing : Going base progress)
    (locked : Bool) (hnodes : ∀ node ∈ nodes, node ∈ base.nodes) {work : Progress → Progress}
    (hwork : ∀ start periods progress, SameTables base start → Since start periods progress →
      Since start periods (work progress)) :
    Going base (withLockTables locked nodes work progress) := by
  unfold Tables.withLockTables
  split
  · next hbulk =>
    have hsince := hwork base [] progress (.refl base) (hgoing.since (hgoing.bulk ▸ hbulk))
    refine ⟨hsince.same, hsince.bulk, fun period hperiod ↦ ?_, fun _ ↦ hsince⟩
    rw [hsince.periods] at hperiod
    exact absurd hperiod List.not_mem_nil
  · next hbulk =>
    have hstart : SameTables base (lockTables locked progress.set) :=
      hgoing.same.trans (sameTables_lockTables locked progress.set)
    have hdone := hwork _ progress.periods _ hstart (since_start _ progress.periods)
    have hsame := hstart.trans hdone.same
    refine ⟨hsame.trans (sameTables_unlockTables _), ?_, ?_, ?_⟩
    · rw [unlockTables_bulk, hdone.bulk, lockTables_bulk, hgoing.bulk]
    · intro period hperiod
      rcases List.mem_append.mp hperiod with hperiod | hperiod
      · rw [hdone.periods] at hperiod
        exact hgoing.periods period hperiod
      · split at hperiod
        · next hlock =>
          obtain rfl := List.mem_singleton.mp hperiod
          have hinside : ∀ node ∈ nodes, node ∈ (lockTables locked progress.set).nodes :=
            hstart.nodes ▸ hnodes
          refine hdone.exact_iff (hstart.opened hopened) hinside (fun table ↦ List.mem_map) rfl rfl
            (tdhsUnlockTableLite_of_lock hlock nodes)
        · exact absurd hperiod List.not_mem_nil
    · intro hbase
      rw [hgoing.bulk, hbase] at hbulk
      exact absurd rfl hbulk

/-- The nodes that a batch collects. -/
theorem mem_collectOpened {opened : List (Option Node)} {bloom : List ℕ}
    (hnode : node ∈ collectOpened address set opened bloom nodes) :
    node ∈ nodes ∨ ∃ table, some node ∈ opened ∧
      (set.openedTable node).mysqlTable = some table := by
  induction opened generalizing bloom nodes with
  | nil => exact .inl hnode
  | cons first rest ih =>
    have hlater : ∀ {bloom nodes}, node ∈ collectOpened address set rest bloom nodes →
        node ∈ nodes ∨ ∃ table, some node ∈ first :: rest ∧
          (set.openedTable node).mysqlTable = some table := by
      intro bloom nodes hnode
      refine (ih hnode).imp_right ?_
      rintro ⟨table, hmem, htable⟩
      exact ⟨table, List.mem_cons_of_mem _ hmem, htable⟩
    unfold collectOpened at hnode
    cases hfound : openedBy set first with
    | none =>
      rw [hfound] at hnode
      exact hlater hnode
    | some found =>
      rw [hfound, Option.elim_some] at hnode
      split at hnode
      · exact hlater hnode
      · rcases hlater hnode with hmem | hmem
        · rcases List.mem_append.mp hmem with hmem | hmem
          · exact .inl hmem
          · obtain rfl := List.mem_singleton.mp hmem
            obtain ⟨rfl, htable⟩ := openedBy_eq_some hfound
            exact .inr ⟨found.2, List.mem_cons_self, htable⟩
        · exact .inr hmem

/-- One request of the process loop. -/
theorem Going.processWrite (hopened : Opened hashCode base tables) (hgoing : Going base progress)
    {request : WriteRequest OpenedWrite} (hheld : HeldRequest base request) :
    Going base (processWrite address progress request) := by
  cases request with
  | plain processed locked write =>
    rw [Tables.processWrite]
    split
    · cases hfound : openedBy progress.set write.opened with
      | none => exact hgoing
      | some found =>
        obtain ⟨hnode, htable⟩ := openedBy_eq_some hfound
        rw [hgoing.same.mysqlTable] at htable
        have hmem := (hheld write List.mem_cons_self _ hnode).mem_nodes htable
        refine hgoing.withLockTables hopened locked (fun node h ↦ List.mem_singleton.mp h ▸ hmem)
          fun start periods inside hsame hsince ↦ ?_
        exact hsince.executeLocked (hsame.opened hopened) (hsame.nodes ▸ hmem)
          ((hsame.mysqlTable _).trans htable) write.rowAnswers
    · exact hgoing
  | batch processed memory locked writes executed =>
    rw [Tables.processWrite]
    split
    · refine hgoing.withLockTables hopened locked (fun node hnode ↦ ?_)
        fun start periods inside hsame hsince ↦ ?_
      · rcases mem_collectOpened hnode with hmem | ⟨table, hmem, htable⟩
        · exact absurd hmem List.not_mem_nil
        · obtain ⟨write, hwrite, hopenedBy⟩ := List.mem_map.mp hmem
          rw [hgoing.same.mysqlTable] at htable
          exact (hheld write hwrite node hopenedBy).mem_nodes htable
      · refine List.foldlRecOn _ _ hsince fun _ hbefore write hwrite ↦
          hbefore.executeInside (hsame.opened hopened) fun node hnode ↦ ?_
        exact hsame.held (hheld write (List.mem_of_mem_take hwrite) node hnode)
    · exact hgoing

/-- The whole process loop. -/
theorem Going.foldl_processWrite (address : Node → ℕ) (hopened : Opened hashCode base tables)
    (hheld : ∀ request ∈ requests, HeldRequest base request) (hgoing : Going base progress) :
    Going base (requests.foldl (Tables.processWrite address) progress) :=
  List.foldlRecOn _ _ hgoing fun _ hbefore request hrequest ↦
    hbefore.processWrite hopened (hheld request hrequest)

/-! ### Rounds -/

/-- A period in which nothing is locked. -/
theorem exact_iff_of_nil (htables : period.tables = []) :
    period.Exact ↔ period.NoneStale := by
  refine iff_of_true (fun table hlocked ↦ ?_) fun table hlocked ↦ ?_
  · rw [htables] at hlocked
    exact absurd hlocked List.not_mem_nil
  · rw [htables] at hlocked
    exact absurd hlocked List.not_mem_nil

/-- The part of a round behind the opening of the tables. -/
theorem processAll_spec (address : Node → ℕ) (hsound : Sound hashCode cacheTableNum set)
    (round : WriteRound) (hheld : ∀ request ∈ requests, HeldRequest set request) :
    (∀ period ∈ (processAll address cacheTableNum round requests set).1,
      (period.Exact ↔ period.NoneStale)) ∧
    Sound hashCode cacheTableNum (processAll address cacheTableNum round requests set).2 := by
  obtain ⟨tables, cached, hplaces⟩ := id hsound
  have hlocked := sameTables_lockTable round.memory round.locked set
  have hopened := hlocked.opened hplaces.inHash
  have hdone := (going_start (lockTable round.memory round.locked set).2).foldl_processWrite
    address hopened fun request hrequest write hwrite node hnode ↦
      hlocked.held (hheld request hrequest write hwrite node hnode)
  constructor
  · intro period hperiod
    unfold processAll at hperiod
    rcases List.mem_append.mp hperiod with hperiod | hperiod
    · exact hdone.periods period hperiod
    · split at hperiod
      · next hlock =>
        rw [Bool.and_eq_true] at hlock
        obtain rfl := List.mem_singleton.mp hperiod
        cases hcall : (lockTable round.memory round.locked set).1 with
        | none => exact exact_iff_of_nil rfl
        | some call =>
          have hsince := hdone.since (hdone.bulk ▸ hlock.1)
          have hall := hsound.isTableSet.locksAll _ _ call hcall
          refine hsince.exact_iff hopened (fun _ h ↦ h) (fun table ↦ ?_) rfl rfl ?_
          · refine (hall.perm.mem_iff.trans List.mem_map).trans ?_
            rw [hlocked.nodes]
            refine exists_congr fun node ↦ and_congr_right fun _ ↦ ?_
            rw [hlocked.mysqlTable]
          · rw [← hsince.same.nodes]
            exact (hsince.same.opened hopened).tdhsUnlockTable_of_lock hlock.2
      · exact absurd hperiod List.not_mem_nil
  · have hunlocked := ((hlocked.trans hdone.same).trans (sameTables_unlockTable _)).sound hsound
    exact hunlocked.closeTable round.cacheOnAtClose

theorem Sound.closeIfNeeded (hsound : Sound hashCode cacheTableNum set) :
    Sound hashCode cacheTableNum (closeIfNeeded set) := by
  unfold Tables.closeIfNeeded
  split
  · obtain ⟨tables, cached, hplaces⟩ := hsound.closeCachedTable
    exact ⟨tables, cached, hplaces.inHash.congr rfl (fun _ _ ↦ rfl) (Nat.le_refl _) rfl rfl,
      hplaces.inSlots.congr rfl rfl, hplaces.apart, hplaces.placed⟩
  · exact hsound

/-- A round keeps the invariant, and its lock periods are exact where no table is stale. -/
theorem writeRound_spec (hsound : Sound hashCode cacheTableNum set) {round : WriteRound}
    (hnames : RoundSharesNames set round) :
    (∀ period ∈ (writeRound hashCode address cacheTableNum round set).1,
      (period.Exact ↔ period.NoneStale)) ∧
    Sound hashCode cacheTableNum (writeRound hashCode address cacheTableNum round set).2 := by
  have hbegun : Sound hashCode cacheTableNum
      (if round.cacheOnAtStart then set else closeCachedTable set) := by
    split
    · exact hsound
    · exact hsound.closeCachedTable
  have hstarted := (sameTables_setGroupCommit true round.groupCommit _).sound hbegun
  obtain ⟨hopened, hheld⟩ := openRequests_spec hnames hstarted
  unfold writeRound
  dsimp only
  split
  · exact ⟨fun _ h ↦ absurd h List.not_mem_nil, hopened.closeIfNeeded⟩
  · obtain ⟨hperiods, hclosed⟩ := processAll_spec address hopened round hheld
    exact ⟨hperiods, hclosed.closeIfNeeded⟩

/-- In every sequence of rounds, a lock period invalidates exactly the tables of changed rows among
the locked ones if and only if every table that is locked with the flag set has a changed row.
Assumes: opened tables have the names of their requests. -/
theorem query_cache_exact (hashCode : HashCode) (address : Node → ℕ) (cacheTableNum : ℕ)
    {set : TableSet}
    (hreached : Reached (roundStep hashCode address cacheTableNum) RoundSharesNames
      initTableSet set) {round : WriteRound} (hnames : RoundSharesNames set round)
    {period : LockPeriod}
    (hperiod : period ∈ (writeRound hashCode address cacheTableNum round set).1) :
    period.Exact ↔ period.NoneStale := by
  have hsound : Sound hashCode cacheTableNum set := by
    refine hreached.invariant (Sound hashCode cacheTableNum) sound_initTableSet ?_
    intro before after other hbefore hother hstep
    cases hstep
    exact (writeRound_spec hbefore hother).2
  exact (writeRound_spec hsound hnames).1 period hperiod

/-! ### Rounds on tables of one database -/

/-- A round of UPDATE requests, given by their tables and the answers of their row calls. The tables
are cached between rounds. -/
def sampleRound (groupCommit : Bool) (updates : List (UInt8 × List ℤ)) : WriteRound where
  cacheOnAtStart := true
  cacheOnAtClose := true
  groupCommit := groupCommit
  memory := true
  locked := true
  requests := updates.map fun update ↦
    .plain true true ⟨.update, infoOf update.1, ⟨true, some (tableOf update.1)⟩, update.2⟩

theorem roundSharesNames_sampleRound (set : TableSet) (groupCommit : Bool)
    (updates : List (UInt8 × List ℤ)) : RoundSharesNames set (sampleRound groupCommit updates) := by
  intro request hrequest write hwrite table htable
  obtain ⟨update, -, rfl⟩ := List.mem_map.mp hrequest
  obtain rfl := List.mem_singleton.mp hwrite
  obtain rfl : tableOf update.1 = table := Option.some.inj htable
  simp [tableOf, infoOf, namesOf, Execute.content]

/-- Behind a round that changes a row of the table `t`, a round that has a request for it and
changes a row of `u` invalidates `u` alone. -/
theorem query_cache_exact_changed :
    ∃ set, run (roundStep (fun _ ↦ 7) (fun _ ↦ 0) 2) initTableSet
        [sampleRound true [(116, [0])]] = some set ∧
      ∃ period ∈ (writeRound (fun _ ↦ 7) (fun _ ↦ 0) 2
        (sampleRound true [(116, []), (117, [0])]) set).1,
        period.tables = [some (tableOf 116), some (tableOf 117)] ∧
          period.changed = [tableOf 117] ∧ period.Exact := by
  refine ⟨_, rfl, _, List.mem_cons_self, rfl, rfl, ?_⟩
  refine (query_cache_exact (fun _ ↦ 7) (fun _ ↦ 0) 2
    (.next _ .start (roundSharesNames_sampleRound _ true [(116, [0])]) rfl)
    (roundSharesNames_sampleRound _ true [(116, []), (117, [0])]) List.mem_cons_self).mpr ?_
  -- both nodes come from the opening of the second round, without the flag
  rintro table - ⟨node, hnode, -, hmodified⟩
  change node ∈ [Node.inPool 1, Node.forCached 0] at hnode
  rcases List.mem_pair.mp hnode with rfl | rfl <;> cases hmodified

/-- Two rounds that change a row of a table, and then one that does not: the node of the cache slot
still has the flag of the second round. Without group commit two requests of one round are
enough. -/
theorem stale_flag_invalidates :
    (∃ set, run (roundStep (fun _ ↦ 7) (fun _ ↦ 0) 2) initTableSet
        [sampleRound true [(116, [0])], sampleRound true [(116, [0])]] = some set ∧
      ∃ period ∈ (writeRound (fun _ ↦ 7) (fun _ ↦ 0) 2 (sampleRound true [(116, [])]) set).1,
        period.tables = [some (tableOf 116)] ∧ period.changed = [] ∧
          period.invalidated = [tableOf 116] ∧ ¬period.Exact) ∧
    ∃ period ∈ (writeRound (fun _ ↦ 7) (fun _ ↦ 0) 2 (sampleRound false [(116, [0]), (116, [])])
        initTableSet).1,
      period.tables = [some (tableOf 116)] ∧ period.changed = [] ∧
        period.invalidated = [tableOf 116] ∧ ¬period.Exact := by
  have hwrong : ∀ period : LockPeriod, period.tables = [some (tableOf 116)] → period.changed = [] →
      period.invalidated = [tableOf 116] → ¬period.Exact := by
    intro period htables hchanged hinvalidated hexact
    have hiff := hexact (tableOf 116) (htables ▸ List.mem_cons_self)
    rw [hchanged, hinvalidated] at hiff
    exact absurd (hiff.mp List.mem_cons_self) List.not_mem_nil
  refine ⟨⟨_, rfl, _, List.mem_cons_self, rfl, rfl, rfl, hwrong _ rfl rfl rfl⟩, ?_⟩
  exact ⟨_, List.mem_cons_of_mem _ List.mem_cons_self, rfl, rfl, rfl, hwrong _ rfl rfl rfl⟩

end TdhSocket.Tables
