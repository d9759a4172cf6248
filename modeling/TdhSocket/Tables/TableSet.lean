import TdhSocket.Dispatch.Balance
import TdhSocket.Execute.Table
import TdhSocket.Library.ChainedHash

/-!
# The opened and cached tables of a request thread

The part of `tdh_socket_dbcontext.cpp` that opens, locks and closes tables. A table that a request
names is looked up in `hash_table_for_opened` and opened if it is not there. At the end of a round
`close_table` keeps the tables in the slots of `cached_table` if there are few enough, else it
closes them; the next `open_table` moves them back into the hash table, where the node of slot `i`
is `for_cached_opened_table[i]`. The nodes of newly opened tables are allocated in
`pool_for_open_table`.

`openTables` observes the thread: it has the tables that were opened and not closed by
`close_thread_tables`. The key under which a table stands is a function of its names,
`make_hash_code_for_table`; nothing here depends on which one.
-/

set_option autoImplicit false

namespace TdhSocket.Tables

open Decode Execute Library

/-! ### Data -/

/-- The names of a table, without their terminating zeros. -/
structure TableName where
  db : List UInt8
  table : List UInt8
  deriving DecidableEq, Repr

/-- `TABLE`: its address and the names in its share. -/
structure MysqlTable where
  address : ℕ
  name : TableName
  deriving DecidableEq, Repr

/-- The address of an `opened_table_t`: an element of `for_cached_opened_table`, or a node allocated
in `pool_for_open_table`, numbered through. -/
inductive Node
  | forCached (slot : ℕ)
  | inPool (serial : ℕ)
  deriving DecidableEq, Repr

/-- `opened_table_t`, without the links of the hash table. -/
structure OpenedTable where
  mysqlTable : Option MysqlTable
  modified : Bool
  deriving DecidableEq, Repr

/-- `cached_table_t`. -/
structure CachedTable where
  table : Option MysqlTable
  hashCodeForTable : UInt64
  deriving DecidableEq, Repr

/-- The number of buckets that `easy_hash_create` makes for `REQUEST_HASH_LEN`. -/
def requestHashSize : ℕ := 16

theorem mask_lt (code : ℕ) : code &&& (requestHashSize - 1) < requestHashSize :=
  Nat.lt_of_le_of_lt Nat.and_le_right (by decide)

/-- The bucket of a key. -/
def bucketOf (key : UInt64) : Fin requestHashSize := ⟨_, mask_lt (Dispatch.easyHashKey key).toNat⟩

/-- `hash_table_for_opened`. -/
abbrev OpenedHash : Type := ChainedHash UInt64 Node bucketOf

/-- `DBCONTEXT_MAX_CACHE_LOCK_TABLES`. -/
def dbcontextMaxCacheLockTables : ℕ := 128

/-- The members of `tdhs_dbcontext` for tables. -/
structure TableSet where
  hashTableForOpened : OpenedHash
  openedTable : Node → OpenedTable
  poolNodes : ℕ
  cachedTable : ℕ → CachedTable
  alreadyCachedTableNum : ℕ
  openedTableNum : ℕ
  lastOpenedTableNum : ℕ
  needLockTables : ℕ → Option MysqlTable
  needCloseCachedTable : Bool
  bulk : Bool
  lock : Bool
  openTables : List MysqlTable

/-- A context behind `init`. -/
def initTableSet : TableSet where
  hashTableForOpened := .empty
  openedTable _ := ⟨none, false⟩
  poolNodes := 0
  cachedTable _ := ⟨none, 0⟩
  alreadyCachedTableNum := 0
  openedTableNum := 0
  lastOpenedTableNum := 0
  needLockTables _ := none
  needCloseCachedTable := false
  bulk := true
  lock := false
  openTables := []

/-! ### `open_table` -/

/-- The names in a request. -/
def namesOf (info : TdhsRequestTable) : TableName := ⟨content info.db, content info.table⟩

/-- `strncmp` finds no difference in two texts of one length, which end at their first zero. -/
def strncmpSame : List UInt8 → List UInt8 → Bool
  | left :: lefts, right :: rights =>
    left == right && (left == 0 || strncmpSame lefts rights)
  | _, _ => true

/-- `compare_table_info` finds no difference. -/
def compareTableInfo (info : TdhsRequestTable) (hashedTable : OpenedTable) : Bool :=
  hashedTable.mysqlTable.elim false fun table ↦
    (content info.db).length == table.name.db.length &&
      (content info.table).length == table.name.table.length &&
      strncmpSame (content info.db) table.name.db &&
      strncmpSame (content info.table) table.name.table

/-- A table goes into the hash table, and into `need_lock_tables` as long as there is room. -/
def addOpenedTable (key : UInt64) (node : Node) (table : MysqlTable) (set : TableSet) : TableSet :=
  { set with
    hashTableForOpened := set.hashTableForOpened.add key node
    openedTable := Function.update set.openedTable node
      { set.openedTable node with mysqlTable := some table }
    needLockTables :=
      if set.openedTableNum < dbcontextMaxCacheLockTables then
        Function.update set.needLockTables set.openedTableNum (some table)
      else set.needLockTables
    openedTableNum := set.openedTableNum + 1 }

theorem addOpenedTable_of_ne (key : UInt64) {node other : Node} (table : MysqlTable)
    (set : TableSet) (hne : other ≠ node) :
    (addOpenedTable key node table set).openedTable other = set.openedTable other :=
  Function.update_of_ne hne _ _

/-- `make_hash_code_for_table` on the names of a table. -/
abbrev HashCode : Type := TableName → UInt64

variable (hashCode : HashCode) (set : TableSet)

/-- One round of the loop over the cached tables. -/
def takeCached (slot : ℕ) : TableSet :=
  (set.cachedTable slot).table.elim set fun table ↦
    let stored := (set.cachedTable slot).hashCodeForTable
    let key := if 0 < stored then stored else hashCode table.name
    { addOpenedTable key (.forCached slot) table set with
      cachedTable := Function.update set.cachedTable slot ⟨none, 0⟩ }

/-- The cached tables become opened ones. -/
def takeAllCached : TableSet :=
  if 0 < set.alreadyCachedTableNum then
    { (List.range set.alreadyCachedTableNum).foldl (takeCached hashCode) set with
      alreadyCachedTableNum := 0 }
  else set

/-- A node of `easy_pool_calloc`. -/
def allocNode : TableSet :=
  { set with
    poolNodes := set.poolNodes + 1
    openedTable := Function.update set.openedTable (.inPool set.poolNodes) ⟨none, false⟩ }

/-- What `open_table` gets from outside: whether `easy_pool_calloc` has memory, and the answer of
`tdhs_open_table`. -/
structure OpenAnswer where
  memory : Bool
  table : Option MysqlTable
  deriving DecidableEq, Repr

/-- The part of `open_table` for a table that is not in the hash table. -/
def openNew (info : TdhsRequestTable) (answer : OpenAnswer) (set : TableSet) :
    Option Node × TableSet :=
  if answer.memory then
    let node := Node.inPool set.poolNodes
    let allocated := allocNode set
    (some node, answer.table.elim { allocated with needCloseCachedTable := true } fun table ↦
      addOpenedTable (hashCode (namesOf info)) node table
        { allocated with openTables := allocated.openTables ++ [table] })
  else (none, set)

/-- `open_table`: what it leaves in `req.opened_table`, and the context. -/
def openTable (type : RequestType) (info : TdhsRequestTable) (answer : OpenAnswer)
    (set : TableSet) : Option Node × TableSet :=
  if type = .batch then (none, set)
  else
    let taken := takeAllCached hashCode set
    (taken.hashTableForOpened.findEx (hashCode (namesOf info)) fun node ↦
        compareTableInfo info (taken.openedTable node)).elim
      (openNew hashCode info answer taken) fun node ↦ (some node, taken)

/-! ### Locks -/

/-- `set_group_commit`. -/
def setGroupCommit (needWrite gc : Bool) (set : TableSet) : TableSet :=
  if needWrite then { set with bulk := gc } else set

/-- A call of `mysql_lock_tables`: the array and its count. -/
structure LockCall where
  tables : List (Option MysqlTable)
  count : ℕ
  deriving DecidableEq, Repr

/-- The array of the bulk `lock_table`: `need_lock_tables`, or one with room for all tables that is
filled by a walk over the hash table. There is none if there is no memory for it. -/
def lockArray (memory : Bool) (set : TableSet) : Option (List (Option MysqlTable)) :=
  if set.openedTableNum ≤ dbcontextMaxCacheLockTables then
    some ((List.range set.openedTableNum).map set.needLockTables)
  else if memory then
    some (set.hashTableForOpened.forEach.map fun entry ↦ (set.openedTable entry.2).mysqlTable)
  else none

/-- The bulk `lock_table`: its call of `mysql_lock_tables`, if it makes one, and the context. -/
def lockTable (memory locked : Bool) (set : TableSet) : Option LockCall × TableSet :=
  if set.bulk then
    (lockArray memory set).elim (none, set) fun tables ↦
      (some ⟨tables, set.openedTableNum⟩, { set with lock := locked })
  else (none, set)

/-- A loop that invalidates the query cache for the tables that were modified. -/
def invalidated (nodes : List Node) : List MysqlTable :=
  nodes.filterMap fun node ↦
    if (set.openedTable node).modified then (set.openedTable node).mysqlTable else none

/-- The tables for which `tdhs_unlock_table` calls `query_cache_invalidate3`. -/
def tdhsUnlockTable (needWrite : Bool) (set : TableSet) : List MysqlTable :=
  if set.lock && needWrite && decide (0 < set.hashTableForOpened.count) then
    invalidated set (set.hashTableForOpened.forEach.map Prod.snd)
  else []

/-- The tables for which `tdhs_unlock_table_lite` calls `query_cache_invalidate3`. -/
def tdhsUnlockTableLite (needWrite : Bool) (nodes : List Node) (set : TableSet) :
    List MysqlTable :=
  if set.lock && needWrite && decide (0 < nodes.length) then invalidated set nodes else []

/-- The bulk `unlock_table`. -/
def unlockTable : TableSet :=
  if set.bulk then { set with lock := false } else set

/-- `lock_table` for some tables, outside a batch. -/
def lockTables (locked : Bool) (set : TableSet) : TableSet :=
  if set.bulk then set else { set with lock := locked }

/-- `unlock_table` for some tables, outside a batch. -/
def unlockTables : TableSet :=
  if set.bulk then set else { set with lock := false }

/-- A row of the table of a node was inserted, updated or deleted. -/
def noteModified (node : Node) (set : TableSet) : TableSet :=
  { set with
    openedTable := Function.update set.openedTable node
      { set.openedTable node with modified := true } }

theorem noteModified_self (node : Node) (set : TableSet) :
    (noteModified node set).openedTable node = { set.openedTable node with modified := true } :=
  Function.update_self _ _ _

theorem noteModified_of_ne {node other : Node} (set : TableSet) (hne : other ≠ node) :
    (noteModified node set).openedTable other = set.openedTable other :=
  Function.update_of_ne hne _ _

/-! ### Closing -/

/-- `clean_hash_table`. -/
def cleanHashTable : TableSet := { set with hashTableForOpened := .empty }

/-- The loop of `close_table` that stores the nodes of a walk in the slots from one on. -/
def storeCached (openedTable : Node → OpenedTable) :
    List (UInt64 × Node) → ℕ → (ℕ → CachedTable) → ℕ → CachedTable
  | [], _, slots => slots
  | entry :: entries, slot, slots =>
    storeCached openedTable entries (slot + 1)
      (Function.update slots slot ⟨(openedTable entry.2).mysqlTable, entry.1⟩)

/-- `tdhs_close_table`. -/
def tdhsCloseTable : TableSet := { set with openTables := [] }

/-- `close_table`. -/
def closeTable (cacheTableNum : ℕ) (tdhsCacheTableOn : Bool) (set : TableSet) : TableSet :=
  let counted := { set with lastOpenedTableNum := set.openedTableNum }
  if set.openedTableNum = 0 then counted
  else
    let closed :=
      if tdhsCacheTableOn && decide (set.openedTableNum ≤ cacheTableNum) then
        { counted with
          cachedTable :=
            storeCached set.openedTable set.hashTableForOpened.forEach 0 set.cachedTable
          alreadyCachedTableNum := set.openedTableNum }
      else tdhsCloseTable counted
    cleanHashTable { closed with openedTableNum := 0 }

/-- `close_cached_table`. -/
def closeCachedTable : TableSet :=
  { tdhsCloseTable set with alreadyCachedTableNum := 0 }

/-! ### Sequences of calls -/

/-- A call of the context, with what it gets from outside. -/
inductive Call
  | openTable (type : RequestType) (info : TdhsRequestTable) (answer : OpenAnswer)
  | setGroupCommit (gc : Bool)
  | lockTable (memory locked : Bool)
  | unlockTable
  | lockTables (locked : Bool)
  | unlockTables
  | noteModified (node : Node)
  | closeTable (tdhsCacheTableOn : Bool)
  | closeCachedTable

/-- The context behind a call. -/
def apply (cacheTableNum : ℕ) (needWrite : Bool) (set : TableSet) : Call → TableSet
  | .openTable type info answer => (openTable hashCode type info answer set).2
  | .setGroupCommit gc => setGroupCommit needWrite gc set
  | .lockTable memory locked => (lockTable memory locked set).2
  | .unlockTable => unlockTable set
  | .lockTables locked => lockTables locked set
  | .unlockTables => unlockTables set
  | .noteModified node => noteModified node set
  | .closeTable tdhsCacheTableOn => closeTable cacheTableNum tdhsCacheTableOn set
  | .closeCachedTable => closeCachedTable set

/-- Every call can happen in every state. -/
def step (cacheTableNum : ℕ) (needWrite : Bool) (set : TableSet) (call : Call) : Option TableSet :=
  some (apply hashCode cacheTableNum needWrite set call)

/-- An opened table has the names of the request. -/
def SharesNames (_ : TableSet) : Call → Prop
  | .openTable _ info answer => ∀ table, answer.table = some table → table.name = namesOf info
  | _ => True

end TdhSocket.Tables
