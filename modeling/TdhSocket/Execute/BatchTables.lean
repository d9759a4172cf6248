import TdhSocket.Execute.BatchShape
import TdhSocket.Optimize.BloomFilters
import TdhSocket.Protocol.Framing

/-!
# The tables of a batch

The table loop of `do_batch_with_lock` on its arrays. A bitmap indexed by the address of an
`opened_table` stands in front of a linear search, and addresses share bits. The bit of every
collected table is set (`TableArrays.Holds`), so an unset bit means a new table and the search
decides the rest: the loop is plain deduplication (`collectTables_eq`), and its arrays of
`batch_num` entries suffice (`TableArrays.Holds.run`).
-/

set_option autoImplicit false

namespace TdhSocket.Execute

open Protocol Library
open Optimize (fsize)

variable {Record : Type}

/-- The `opened_table` of a packet, where its table is open. -/
def OpenedTable.address : OpenedTable Record → Option ℕ
  | .opened address _ => some address
  | _ => none

/-- The arrays of the loop up to the index `i`, and the bitmap. -/
structure TableArrays (Record : Type) where
  easyTableBloom : List UInt8
  openedTables : List ℕ
  mysqlTables : List (Table Record)

/-- One packet of the table loop. A write behind the end of the arrays has no value. -/
def collectTable (batchNum : ℕ) (arrays : TableArrays Record) :
    OpenedTable Record → Option (TableArrays Record)
  | .opened ot table =>
    if getBit arrays.easyTableBloom (ot % fsize 256) && arrays.openedTables.contains ot then
      some arrays
    else if arrays.openedTables.length < batchNum then
      some ⟨setBit arrays.easyTableBloom (ot % fsize 256), arrays.openedTables ++ [ot],
        arrays.mysqlTables ++ [table]⟩
    else none
  | _ => some arrays

/-- The table loop of `do_batch_with_lock`, for the opened tables along the chain. -/
def batchTables (batchNum : ℕ) (chain : List (OpenedTable Record)) :
    Option (TableArrays Record) :=
  chain.foldlM (collectTable batchNum) ⟨List.replicate (fsize 256) 0, [], []⟩

/-- The bits that are set are those of a list, the bit of every collected table is among them, and
each table stands beside its node. -/
structure TableArrays.Holds (mysqlTable : ℕ → Table Record) (bloom : List ℕ)
    (arrays : TableArrays Record) : Prop where
  length : arrays.easyTableBloom.length = fsize 256
  bit : ∀ k, getBit arrays.easyTableBloom k = bloom.contains k
  marked : ∀ ot ∈ arrays.openedTables, ot % 32 ∈ bloom
  mysqlTables : arrays.mysqlTables = arrays.openedTables.map mysqlTable

variable {mysqlTable : ℕ → Table Record} {bloom tables : List ℕ} {arrays : TableArrays Record}
  {chain : List (OpenedTable Record)} {ot batchNum : ℕ}

section

variable (hmarked : ∀ ot ∈ tables, ot % 32 ∈ bloom)

include hmarked

theorem mark_test : (bloom.contains (ot % 32) && tables.contains ot) = tables.contains ot := by
  by_cases hmem : ot ∈ tables
  · simp [hmem, hmarked ot hmem]
  · simp [hmem]

theorem mark_cons : ∀ other ∈ tables ++ [ot], other % 32 ∈ ot % 32 :: bloom := by
  intro other hmem
  rcases List.mem_append.mp hmem with hold | hnew
  · exact List.mem_cons_of_mem _ (hmarked other hold)
  · rw [List.mem_singleton.mp hnew]
    exact List.mem_cons_self

/-- The loop keeps the first occurrence of each table. -/
theorem collectTables_eq (hdistinct : tables.eraseDups = tables) :
    collectTables chain bloom tables =
      (tables ++ chain.filterMap OpenedTable.address).eraseDups := by
  induction chain generalizing bloom tables with
  | nil => simp [collectTables, hdistinct]
  | cons opened rest ih =>
    cases opened with
    | noMemory => exact ih hmarked hdistinct
    | notOpened => exact ih hmarked hdistinct
    | opened ot table =>
      rw [collectTables, mark_test hmarked]
      by_cases hmem : ot ∈ tables
      · rw [if_pos (by simpa using hmem), ih hmarked hdistinct]
        simp [OpenedTable.address, List.eraseDups_append, List.cons_removeAll, hmem]
      · have hsnoc : (tables ++ [ot]).eraseDups = tables ++ [ot] := by
          simp [List.eraseDups_append, hdistinct, List.cons_removeAll, hmem, List.eraseDups_cons]
        rw [if_neg (by simpa using hmem), ih (mark_cons hmarked) hsnoc]
        simp [OpenedTable.address]

end

namespace TableArrays.Holds

/-- A table that is not there yet is put behind the others. -/
theorem add (harrays : arrays.Holds mysqlTable bloom) :
    Holds mysqlTable (ot % 32 :: bloom) ⟨setBit arrays.easyTableBloom (ot % fsize 256),
      arrays.openedTables ++ [ot], arrays.mysqlTables ++ [mysqlTable ot]⟩ where
  length := (length_setBit _ _).trans harrays.length
  bit k := by
    have hin : ot % fsize 256 < 8 * arrays.easyTableBloom.length := by
      rw [harrays.length, fsize]
      omega
    rw [getBit_setBit hin, harrays.bit, List.contains_cons]
    rfl
  marked := mark_cons harrays.marked
  mysqlTables := by simp [harrays.mysqlTables]

/-- The loop over the rest of the chain, with room for every packet that is left. -/
theorem run (hnode : ∀ ot table, .opened ot table ∈ chain → table = mysqlTable ot)
    (harrays : arrays.Holds mysqlTable bloom)
    (hroom : arrays.openedTables.length + chain.length ≤ batchNum) :
    ∃ final, chain.foldlM (collectTable batchNum) arrays = some final ∧
      final.openedTables = collectTables chain bloom arrays.openedTables ∧
      final.mysqlTables = final.openedTables.map mysqlTable ∧
      final.openedTables.length ≤ batchNum := by
  induction chain generalizing bloom arrays with
  | nil => exact ⟨arrays, rfl, rfl, harrays.mysqlTables, hroom⟩
  | cons opened rest ih =>
    have hlater := fun ot table hmem ↦ hnode ot table (List.mem_cons_of_mem _ hmem)
    rw [List.length_cons] at hroom
    cases opened with
    | noMemory => exact ih hlater harrays (by omega)
    | notOpened => exact ih hlater harrays (by omega)
    | opened ot table =>
      obtain rfl := hnode ot table List.mem_cons_self
      have htest : (getBit arrays.easyTableBloom (ot % fsize 256) &&
          arrays.openedTables.contains ot) = arrays.openedTables.contains ot := by
        rw [harrays.bit]
        exact mark_test harrays.marked
      rw [List.foldlM_cons, collectTable, htest, collectTables, mark_test harrays.marked]
      by_cases hmem : arrays.openedTables.contains ot
      · rw [if_pos hmem, if_pos hmem]
        exact ih hlater harrays (by omega)
      · rw [if_neg hmem, if_neg hmem, if_pos (by omega)]
        exact ih hlater harrays.add (by simp; omega)

end TableArrays.Holds

section

variable {pool : EasyPool} {input left : List UInt8} {packets : PacketChain}
  (hdecoded : (tdhsDecode pool input).answer = .packet packets left)
  (hbatch : packets.packet.commandIdOrResponseCode = requestTypeBatch)

include hdecoded hbatch

/-- A decoded batch has as many packets as its `reserved` says. -/
theorem length_next_of_batch :
    packets.next.length = packets.packet.reserved := by
  obtain ⟨hinput, rfl, -⟩ := tdhsDecode_eq_packet_iff.mp hdecoded
  exact (length_batchLoop hinput.complete).trans (if_pos hbatch)

/-- Whatever the addresses of the nodes, `do_batch_with_lock` collects the distinct open tables of
the chain of a batch in the order in which they first occur, each beside its node and at most
`batch_num` of them. They are the tables that `doBatchWithLock` locks. Assumes: the chain is a
decoded batch, and a node has one `mysql_table`. -/
theorem batch_tables_distinct
    (rest : List (Work Record)) (hrest : rest.length = packets.next.length)
    (mysqlTable : ℕ → Table Record)
    (hnode : ∀ ot table, .opened ot table ∈ rest.map Work.opened → table = mysqlTable ot) :
    ∃ arrays, batchTables packets.packet.reserved (rest.map Work.opened) = some arrays ∧
      arrays.openedTables = ((rest.map Work.opened).filterMap OpenedTable.address).eraseDups ∧
      arrays.mysqlTables = arrays.openedTables.map mysqlTable ∧
      arrays.openedTables.length ≤ packets.packet.reserved ∧
      collectTables (rest.map Work.opened) [] [] = arrays.openedTables := by
  have hbound : (rest.map Work.opened).length = packets.packet.reserved := by
    rw [List.length_map, hrest, length_next_of_batch hdecoded hbatch]
  have hstart : TableArrays.Holds mysqlTable []
      (⟨List.replicate (fsize 256) 0, [], []⟩ : TableArrays Record) := by
    refine ⟨List.length_replicate, fun k ↦ ?_, List.forall_mem_nil _, rfl⟩
    rw [getBit_replicate]
    rfl
  obtain ⟨final, hrun, hopened, hmysql, hlength⟩ :=
    hstart.run hnode ((Nat.zero_add _).trans hbound).le
  refine ⟨final, hrun, ?_, hmysql, hlength, hopened.symm⟩
  rw [hopened, collectTables_eq (List.forall_mem_nil _) rfl, List.nil_append]

end

/-- The packets of INSERT requests, for the addresses of their nodes. -/
def insertsAt (addresses : List ℕ) : List (Work ℕ) :=
  addresses.map fun address ↦ ⟨⟨0, 0⟩, insertNumber 49, 0, .opened address numberTable⟩

/-- A batch of three, where two nodes share a bit and the first occurs twice. -/
theorem batch_tables_distinct_shared_bit :
    ∃ arrays, batchTables 3 ((insertsAt [32, 64, 32]).map Work.opened) = some arrays ∧
      arrays.openedTables = [32, 64] ∧ arrays.mysqlTables = [numberTable, numberTable] := by
  have hdecoded : (tdhsDecode roomyPool (frameOf 20 3
      (frameOf 12 0 [] ++ frameOf 12 0 [] ++ frameOf 12 0 []))).answer =
      .packet ⟨⟨20, 0, 3, 60, frameOf 12 0 [] ++ frameOf 12 0 [] ++ frameOf 12 0 []⟩,
        List.replicate 3 ⟨12, 0, 0, 0, []⟩⟩ [] := by
    decide +kernel
  obtain ⟨arrays, hsome, hopened, hmysql, -⟩ := batch_tables_distinct hdecoded rfl
    (insertsAt [32, 64, 32]) rfl (fun _ ↦ numberTable) (by simp +contextual [insertsAt, or_imp])
  have hdistinct : arrays.openedTables = [32, 64] := hopened
  exact ⟨arrays, hsome, hdistinct, by simpa [hdistinct] using hmysql⟩

end TdhSocket.Execute
