import TdhSocket.Dispatch.Access

/-!
# The thread of a write

With the three switches off, a write is executed by the thread of the hash code of its table, and a
batch as a whole by the thread of its first request (`write_affinity`). A later request of a batch
is therefore not on the thread of its own table (`batch_leaves_table_thread`). The hash code zero
is taken for no choice and is left out here: the source then hashes the connection.
-/

set_option autoImplicit false

namespace TdhSocket.Dispatch

open Connection Decode Protocol

/-- The request that decides about the thread: the first of a batch, or the request itself. -/
def Push.decider (push : Push) : Option TdhsRequest :=
  push.requests.tail.head?.or push.requests.head?

/-- The three switches are off. -/
structure IsSerial (settings : BalanceSettings) : Prop where
  insert : settings.concurrencyInsert = false
  update : settings.concurrencyUpdate = false
  delete : settings.concurrencyDelete = false

/-- A frame on some connection was pushed to the write pool of a server whose switches are off. -/
structure IsWritePush (server : Server) (push : Push) : Prop where
  serial : IsSerial server.balance
  type : push.type = .write
  pushed : ∃ context counters chain,
    (onServerIoProcess server context counters chain).pushed = some push

/-- A write has the hash code of its table. -/
theorem tableNeedBalance_of_serial {settings : BalanceSettings} (hserial : IsSerial settings)
    (counters : Counters) {request : TdhsRequest} (hwrite : IsPlainWrite request.type)
    (type : OptimizeType) (customHash : UInt64) :
    (tableNeedBalance settings counters request type customHash).1 =
      hashCodeTable request.tableInfo := by
  unfold tableNeedBalance writeHash
  rcases hwrite with htype | htype | htype
  · simp [htype, hserial.update]
  · simp [htype, hserial.delete]
  · simp [htype, hserial.insert]

/-- A pushed request comes from `dispatch`. -/
theorem dispatch_of_pushed {server : Server} {context : ConnectionContext} {counters : Counters}
    {chain : PacketChain} {push : Push}
    (hpushed : (onServerIoProcess server context counters chain).pushed = some push) :
    ∃ context first others reserved,
      (dispatch server context counters first others reserved).pushed = some push := by
  unfold onServerIoProcess at hpushed
  dsimp only at hpushed
  split at hpushed
  · cases hpushed
  · cases hpushed
  · obtain ⟨version, first, -, -, -, hdispatch⟩ := of_decodeAndDispatch_pushed hpushed
    exact ⟨_, first, _, _, hdispatch⟩

/-- A write goes to the thread of the hash code of the request that decides. -/
theorem IsWritePush.thread_eq {server : Server} {push : Push} (hpush : IsWritePush server push)
    {request : TdhsRequest} (hdecider : push.decider = some request)
    (hwrite : IsPlainWrite request.type)
    (hhash : hashCodeTable request.tableInfo ≠ 0) :
    push.thread = (hashCodeTable request.tableInfo).toNat % (server.poolOf .write).threadCount := by
  obtain ⟨context, counters, chain, hpushed⟩ := hpush.pushed
  obtain ⟨context, first, others, reserved, hdispatch⟩ := dispatch_of_pushed hpushed
  obtain ⟨-, -, hthread, hrequests⟩ := of_dispatch_pushed hdispatch
  obtain rfl : others.headD first = request := by
    cases others with
    | nil => simpa [Push.decider, hrequests] using hdecider
    | cons second rest => simpa [Push.decider, hrequests] using hdecider
  rw [hpush.type] at hthread
  simp only [hashFor, if_true] at hthread
  rw [tableNeedBalance_of_serial hpush.serial _ hwrite] at hthread
  rw [hthread, threadOf, if_neg hhash]

/-- With the three switches off, two frames on any connections whose deciding requests (a write
itself, the first request of a batch) are writes with the same db and table name are executed by the
same thread, for every size of the pool. Assumes: the hash code of the names is not zero, and the
size of the pool has not changed between the two. -/
theorem write_affinity (server server' : Server) (push push' : Push)
    (hpush : IsWritePush server push) (hpush' : IsWritePush server' push')
    (hsize : (server.poolOf .write).threadCount = (server'.poolOf .write).threadCount)
    (request request' : TdhsRequest) (hdecider : push.decider = some request)
    (hdecider' : push'.decider = some request') (hwrite : IsPlainWrite request.type)
    (hwrite' : IsPlainWrite request'.type) (hdb : request.tableInfo.db = request'.tableInfo.db)
    (htable : request.tableInfo.table = request'.tableInfo.table)
    (hhash : hashCodeTable request.tableInfo ≠ 0) : push.thread = push'.thread := by
  have hsame : hashCodeTable request'.tableInfo = hashCodeTable request.tableInfo := by
    rw [hashCodeTable, hashCodeTable, hdb, htable]
  rw [hpush.thread_eq hdecider hwrite hhash, hpush'.thread_eq hdecider' hwrite' (hsame ▸ hhash),
    hsame, hsize]

/-- A shaken connection of a client that may write. -/
def writerContext : ConnectionContext := ⟨true, some binaryV2, 0, false, true⟩

/-- The server seen from another connection. -/
def otherConnection : Server := { guardedServer with connection := 2 }

/-- The INSERT of no values into the table `t2` of the database `a`. -/
def insertIntoT2 : TdhsPacket :=
  packetOf 12
    [0, 0, 0, 2, 97, 0, 0, 0, 0, 3, 116, 50, 0, 0, 0, 0, 0, 0, 0, 0, 0, 0, 0, 0, 0]

/-- The frame of a packet, with a `reserved` word. -/
def frameOf (packet : TdhsPacket) (reserved : ℕ) : List UInt8 :=
  encodeHeader Frame.magicBytes ⟨packet.commandIdOrResponseCode, 0, reserved, packet.length⟩ ++
    packet.rdata

/-- The frames of the INSERTs into `t1` and `t2`. -/
def insertFrames : List UInt8 := frameOf insertIntoT1 0 ++ frameOf insertIntoT2 0

/-- A batch of the INSERTs into `t1` and `t2`. -/
def batchOfInserts : PacketChain :=
  ⟨⟨requestTypeBatch, 0, 2, insertFrames.length, insertFrames⟩, [insertIntoT1, insertIntoT2]⟩

/-- The INSERT into a table of the database `a`, as it is decoded. -/
def insertRequest (table : TdhsString) : TdhsRequest :=
  ⟨.insert, ⟨0, [97, 0], table, primaryString, []⟩, zeroGet, zeroValues⟩

theorem pushed_batchOfInserts :
    (onServerIoProcess guardedServer writerContext newCounters batchOfInserts).pushed =
      some ⟨.write, 1, [batchRequest, insertRequest [116, 49, 0], insertRequest [116, 50, 0]]⟩ := by
  decide +kernel

theorem pushed_insertIntoT1 :
    (onServerIoProcess otherConnection writerContext newCounters ⟨insertIntoT1, []⟩).pushed =
      some ⟨.write, 1, [insertRequest [116, 49, 0]]⟩ := by decide +kernel

theorem write_affinity_t1 :
    ∃ push push' : Push, push.requests.length = 3 ∧ push'.requests.length = 1 ∧
      push.thread = push'.thread :=
  ⟨_, _, rfl, rfl, write_affinity guardedServer otherConnection _ _
    ⟨⟨rfl, rfl, rfl⟩, rfl, _, _, _, pushed_batchOfInserts⟩
    ⟨⟨rfl, rfl, rfl⟩, rfl, _, _, _, pushed_insertIntoT1⟩ rfl (insertRequest [116, 49, 0])
    (insertRequest [116, 49, 0]) rfl rfl (Or.inr (Or.inr rfl)) (Or.inr (Or.inr rfl)) rfl rfl
    (by decide +kernel)⟩

/-- An INSERT into `t2` in a batch and one of its own are executed by different threads. -/
theorem batch_leaves_table_thread :
    (tdhsDecode roomyPool (frameOf batchOfInserts.packet 2)).answer = .packet batchOfInserts [] ∧
    ∃ push push', IsWritePush guardedServer push ∧ IsWritePush otherConnection push' ∧
      (onServerIoProcess guardedServer writerContext newCounters batchOfInserts).pushed =
        some push ∧
      insertRequest [116, 50, 0] ∈ push.requests ∧ insertRequest [116, 50, 0] ∈ push'.requests ∧
      push.thread ≠ push'.thread := by
  have hplain : (onServerIoProcess otherConnection writerContext newCounters
      ⟨insertIntoT2, []⟩).pushed = some ⟨.write, 2, [insertRequest [116, 50, 0]]⟩ := by
    decide +kernel
  exact ⟨by decide +kernel, _, _, ⟨⟨rfl, rfl, rfl⟩, rfl, _, _, _, pushed_batchOfInserts⟩,
    ⟨⟨rfl, rfl, rfl⟩, rfl, _, _, _, hplain⟩, pushed_batchOfInserts, by simp, by simp, by decide⟩

end TdhSocket.Dispatch
