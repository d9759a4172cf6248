import TdhSocket.Tables.TableSet

/-!
# The rounds of a write thread

`tdhs_request_on_wakeup` and `tdhs_request_doreq_for_write` as far as tables, locks and the query
cache are concerned. With group commit the tables of a round are locked once, from the bulk
`lock_table` to `tdhs_unlock_table`; without it each plain request and each batch has a lock period
of its own, which ends with `tdhs_unlock_table_lite`.

What a request does to rows is given by the answers of its row calls (`ha_update_row`,
`ha_delete_row`, `ha_write_row`): an answer of zero is a row that was changed, and sets the flag
`modified` of the node. A `LockPeriod` records what was locked, what was changed and what was
invalidated.
-/

set_option autoImplicit false

namespace TdhSocket.Tables

open Decode Library

/-! ### Requests -/

/-- An UPDATE, DELETE or INSERT: its table, what `open_table` gets from outside, and the answers of
the row calls that it makes under a lock. -/
structure PlainWrite where
  type : RequestType
  info : TdhsRequestTable
  answer : OpenAnswer
  rowAnswers : List ℤ

/-- A write behind `open_table`, with `req.opened_table`. -/
structure OpenedWrite where
  opened : Option Node
  rowAnswers : List ℤ

/-- A request on the list of the thread. `processed` is false when its connection is closed or it
has waited too long. `locked` is the answer of `mysql_lock_tables` where the request locks its
tables itself. A batch needs `memory` for its tables, and `executed` of its writes are executed. -/
inductive WriteRequest (Write : Type)
  | plain (processed locked : Bool) (write : Write)
  | batch (processed memory locked : Bool) (writes : List Write) (executed : ℕ)

/-- A wake-up of a write thread. `tdhs_cache_table_on` is read at its beginning and in
`close_table`; `memory` and `locked` are for the bulk `lock_table`. -/
structure WriteRound where
  cacheOnAtStart : Bool
  cacheOnAtClose : Bool
  groupCommit : Bool
  memory : Bool
  locked : Bool
  requests : List (WriteRequest PlainWrite)

/-! ### Opening -/

/-- A loop over a list that changes the context. -/
def eachSet {First Second : Type} (change : First → TableSet → Second × TableSet) :
    List First → TableSet → List Second × TableSet
  | [], set => ([], set)
  | first :: rest, set =>
    let one := change first set
    let others := eachSet change rest one.2
    (one.1 :: others.1, others.2)

variable (hashCode : HashCode)

/-- `open_table` for a write. -/
def openWrite (write : PlainWrite) (set : TableSet) : OpenedWrite × TableSet :=
  let opened := openTable hashCode write.type write.info write.answer set
  (⟨opened.1, write.rowAnswers⟩, opened.2)

/-- `open_table` for the packets of a request, which leaves the packet of a batch itself alone. -/
def openRequest : WriteRequest PlainWrite → TableSet → WriteRequest OpenedWrite × TableSet
  | .plain processed locked write, set =>
    let opened := openWrite hashCode write set
    (.plain processed locked opened.1, opened.2)
  | .batch processed memory locked writes executed, set =>
    let opened := eachSet (openWrite hashCode) writes set
    (.batch processed memory locked opened.1 executed, opened.2)

/-! ### Lock periods -/

/-- A lock period that ended with `tdhs_unlock_table` or `tdhs_unlock_table_lite`: the array that
was locked, the context when it was, the tables of the rows that were changed and the tables for
which `query_cache_invalidate3` was called before the locks were released. -/
structure LockPeriod where
  tables : List (Option MysqlTable)
  before : TableSet
  changed : List MysqlTable
  invalidated : List MysqlTable

/-- The context, the lock periods that ended and the tables of the rows that were changed since the
locks were taken. -/
structure Progress where
  set : TableSet
  periods : List LockPeriod
  changed : List MysqlTable

/-- A row call has answered. -/
def noteRow (node : Node) (table : MysqlTable) (progress : Progress) (answer : ℤ) : Progress :=
  if answer = 0 then
    { progress with
      set := noteModified node progress.set
      changed := progress.changed ++ [table] }
  else progress

/-- The part of `do_find` and `do_insert` under the table lock. -/
def executeLocked (node : Node) (table : MysqlTable) (rowAnswers : List ℤ)
    (progress : Progress) : Progress :=
  if progress.set.lock then rowAnswers.foldl (noteRow node table) progress else progress

/-- The table of a request, if it is open. -/
def openedBy (set : TableSet) (opened : Option Node) : Option (Node × MysqlTable) :=
  opened.bind fun node ↦ (set.openedTable node).mysqlTable.map fun table ↦ (node, table)

/-- `execute` on a write inside a batch or with group commit, where the table locker does
nothing. -/
def executeInside (progress : Progress) (write : OpenedWrite) : Progress :=
  (openedBy progress.set write.opened).elim progress fun found ↦
    executeLocked found.1 found.2 write.rowAnswers progress

/-- Some work between `lock_table` and `unlock_table` for the tables of some nodes. With group
commit the two do nothing. -/
def withLockTables (locked : Bool) (nodes : List Node) (work : Progress → Progress)
    (progress : Progress) : Progress :=
  if progress.set.bulk then work progress
  else
    let start := lockTables locked progress.set
    let done := work ⟨start, progress.periods, []⟩
    let period : LockPeriod := ⟨nodes.map fun node ↦ (start.openedTable node).mysqlTable, start,
      done.changed, tdhsUnlockTableLite true nodes done.set⟩
    ⟨unlockTables done.set, done.periods ++ if done.set.lock then [period] else [], []⟩

variable (address : Node → ℕ)

/-- The table loop of `do_batch_with_lock`: the nodes collected so far, and the bits of the bloom
filter that are set. A node has the bit of its address. -/
def collectOpened (set : TableSet) : List (Option Node) → List ℕ → List Node → List Node
  | [], _, nodes => nodes
  | opened :: rest, bloom, nodes =>
    (openedBy set opened).elim (collectOpened set rest bloom nodes) fun found ↦
      if bloom.contains (address found.1 % 32) && nodes.contains found.1 then
        collectOpened set rest bloom nodes
      else collectOpened set rest (address found.1 % 32 :: bloom) (nodes ++ [found.1])

/-- The process loop for one request. -/
def processWrite (progress : Progress) : WriteRequest OpenedWrite → Progress
  | .plain processed locked write =>
    if processed then
      (openedBy progress.set write.opened).elim progress fun found ↦
        withLockTables locked [found.1] (executeLocked found.1 found.2 write.rowAnswers) progress
    else progress
  | .batch processed memory locked writes executed =>
    if processed && (progress.set.bulk || memory) then
      withLockTables locked
        (collectOpened address progress.set (writes.map OpenedWrite.opened) [] [])
        (fun inside ↦ (writes.take executed).foldl executeInside inside) progress
    else progress

/-! ### Rounds -/

variable (cacheTableNum : ℕ)

/-- The part of `tdhs_request_doreq_for_write` behind the opening of the tables. -/
def processAll (round : WriteRound) (requests : List (WriteRequest OpenedWrite))
    (opened : TableSet) : List LockPeriod × TableSet :=
  let locked := lockTable round.memory round.locked opened
  let done := requests.foldl (processWrite address) ⟨locked.2, [], []⟩
  let period : LockPeriod := ⟨locked.1.elim [] LockCall.tables, locked.2, done.changed,
    tdhsUnlockTable true done.set⟩
  (done.periods ++ if done.set.bulk && done.set.lock then [period] else [],
    closeTable cacheTableNum round.cacheOnAtClose (unlockTable done.set))

/-- The end of `tdhs_request_on_wakeup`. -/
def closeIfNeeded (set : TableSet) : TableSet :=
  if set.needCloseCachedTable then
    { closeCachedTable set with needCloseCachedTable := false }
  else set

/-- `tdhs_request_on_wakeup` of a write thread: the lock periods of the round, and the context. -/
def writeRound (round : WriteRound) (set : TableSet) : List LockPeriod × TableSet :=
  let started := setGroupCommit true round.groupCommit
    (if round.cacheOnAtStart then set else closeCachedTable set)
  let opened := eachSet (openRequest hashCode) round.requests started
  if round.requests.length = 0 then ([], closeIfNeeded opened.2)
  else
    let processed := processAll address cacheTableNum round opened.1 opened.2
    (processed.1, closeIfNeeded processed.2)

/-- Every round can happen in every state. -/
def roundStep (set : TableSet) (round : WriteRound) : Option TableSet :=
  some (writeRound hashCode address cacheTableNum round set).2

/-- The writes of a request. -/
def WriteRequest.writes {Write : Type} : WriteRequest Write → List Write
  | .plain _ _ write => [write]
  | .batch _ _ _ writes _ => writes

/-- The tables that a round opens have the names of their requests. -/
def RoundSharesNames (_ : TableSet) (round : WriteRound) : Prop :=
  ∀ request ∈ round.requests, ∀ write ∈ request.writes, ∀ table,
    write.answer.table = some table → table.name = namesOf write.info

end TdhSocket.Tables
