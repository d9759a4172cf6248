import Mathlib.Data.List.Perm.Basic
import TdhSocket.Library.Runs
import TdhSocket.Tables.TableSet

/-!
# Where the tables of a request thread are

`Opened` relates the hash table, the counter and `need_lock_tables` to the list of the opened
tables, in the order in which they were opened, and `Cached` the slots to the list of the cached
ones. At each time one of the two lists is empty. `Opened.add` is the step of both loops that open
tables; every call keeps the invariant (`Sound.apply`), and `table_set_sound` reads it off for every
sequence of calls.
-/

set_option autoImplicit false

namespace TdhSocket.Tables

open Decode Execute Library

variable {hashCode : HashCode} {cacheTableNum : ℕ} {needWrite : Bool} {set : TableSet}
  {tables cached : List MysqlTable}

/-! ### Opened tables -/

/-- The nodes of the hash table. -/
def TableSet.nodes (set : TableSet) : List Node := set.hashTableForOpened.forEach.map Prod.snd

/-- A walk over the hash table, with the table of each node. -/
def TableSet.walk (set : TableSet) : List (UInt64 × Option MysqlTable) :=
  set.hashTableForOpened.forEach.map fun entry ↦ (entry.1, (set.openedTable entry.2).mysqlTable)

/-- How an opened table stands in the hash table. -/
def standing (hashCode : HashCode) (table : MysqlTable) : UInt64 × Option MysqlTable :=
  (hashCode table.name, some table)

/-- The tables of the list are the opened ones. -/
structure Opened (hashCode : HashCode) (set : TableSet) (tables : List MysqlTable) : Prop where
  walk : set.walk.Perm (tables.map (standing hashCode))
  nodes_nodup : set.nodes.Nodup
  pool : ∀ serial, Node.inPool serial ∈ set.nodes → serial < set.poolNodes
  count : set.hashTableForOpened.count = tables.length
  num : set.openedTableNum = tables.length
  names : (tables.map MysqlTable.name).Nodup
  array : tables.length ≤ dbcontextMaxCacheLockTables →
    (List.range tables.length).map set.needLockTables = tables.map some

theorem Opened.length_nodes (hopened : Opened hashCode set tables) :
    set.nodes.length = tables.length := by
  have hlength := hopened.walk.length_eq
  rw [TableSet.walk, List.length_map, List.length_map] at hlength
  rw [TableSet.nodes, List.length_map, hlength]

/-- A context without opened tables. -/
theorem opened_nil (hhash : set.hashTableForOpened = .empty) (hnum : set.openedTableNum = 0) :
    Opened hashCode set [] := by
  have hwalk : set.walk = [] := by
    rw [TableSet.walk, hhash, ChainedHash.forEach_empty]
    rfl
  have hnodes : set.nodes = [] := by
    rw [TableSet.nodes, hhash, ChainedHash.forEach_empty]
    rfl
  refine ⟨?_, ?_, ?_, ?_, hnum, List.nodup_nil, fun _ ↦ rfl⟩
  · rw [hwalk]
    exact List.Perm.refl _
  · rw [hnodes]
    exact List.nodup_nil
  · intro serial hserial
    rw [hnodes] at hserial
    exact absurd hserial List.not_mem_nil
  · rw [hhash]
    rfl

variable {other : TableSet} {table : MysqlTable} {info : TdhsRequestTable}

/-- The other members do not matter. -/
theorem Opened.congr (hopened : Opened hashCode set tables)
    (hhash : other.hashTableForOpened = set.hashTableForOpened)
    (htables : ∀ node ∈ set.nodes,
      (other.openedTable node).mysqlTable = (set.openedTable node).mysqlTable)
    (hpool : set.poolNodes ≤ other.poolNodes) (hnum : other.openedTableNum = set.openedTableNum)
    (harray : other.needLockTables = set.needLockTables) : Opened hashCode other tables := by
  have hnodes : other.nodes = set.nodes := by rw [TableSet.nodes, hhash, TableSet.nodes]
  have hwalk : other.walk = set.walk := by
    rw [TableSet.walk, hhash]
    refine List.map_congr_left fun entry hentry ↦ ?_
    rw [htables entry.2 (List.mem_map_of_mem hentry)]
  refine ⟨hwalk ▸ hopened.walk, hnodes ▸ hopened.nodes_nodup, ?_, hhash ▸ hopened.count,
    hnum.trans hopened.num, hopened.names, harray ▸ hopened.array⟩
  intro serial hserial
  rw [hnodes] at hserial
  exact Nat.lt_of_lt_of_le (hopened.pool serial hserial) hpool

/-- A new node with its table in front of a walk, up to the order. -/
theorem walk_addOpenedTable {key : UInt64} {node : Node}
    (hnode : node ∉ set.nodes) :
    (addOpenedTable key node table set).walk.Perm ((key, some table) :: set.walk) := by
  have hadded := ChainedHash.forEach_add set.hashTableForOpened key node
  refine (hadded.map _).trans ?_
  rw [List.map_cons]
  have hnew : ((addOpenedTable key node table set).openedTable node).mysqlTable = some table := by
    simp [addOpenedTable]
  have hothers : set.hashTableForOpened.forEach.map (fun entry ↦
      (entry.1, ((addOpenedTable key node table set).openedTable entry.2).mysqlTable)) =
        set.walk := by
    refine List.map_congr_left fun entry hentry ↦ ?_
    have hne : entry.2 ≠ node := ne_of_mem_of_not_mem (List.mem_map_of_mem hentry) hnode
    rw [addOpenedTable_of_ne key table set hne]
  rw [hothers, hnew]

/-- The step of both loops: a table is added. Assumes: its node and its names are new, and the key
is that of its names. -/
theorem Opened.add (hopened : Opened hashCode set tables) {node : Node}
    (hnode : node ∉ set.nodes) (hpool : ∀ serial, node = .inPool serial → serial < set.poolNodes)
    (hname : table.name ∉ tables.map MysqlTable.name) :
    Opened hashCode (addOpenedTable (hashCode table.name) node table set) (tables ++ [table]) := by
  have hnodes : (addOpenedTable (hashCode table.name) node table set).nodes.Perm
      (node :: set.nodes) :=
    (ChainedHash.forEach_add set.hashTableForOpened (hashCode table.name) node).map Prod.snd
  have hlength : (tables ++ [table]).length = tables.length + 1 := List.length_append
  refine ⟨?_, ?_, ?_, ?_, ?_, ?_, ?_⟩
  · rw [List.map_append]
    refine (walk_addOpenedTable hnode).trans ?_
    exact (hopened.walk.cons _).trans (List.perm_append_singleton _ _).symm
  · exact hnodes.nodup_iff.mpr (List.nodup_cons.mpr ⟨hnode, hopened.nodes_nodup⟩)
  · intro serial hserial
    rcases List.mem_cons.mp (hnodes.mem_iff.mp hserial) with heq | hserial
    · exact hpool serial heq.symm
    · exact hopened.pool serial hserial
  · rw [hlength, ← hopened.count]
    rfl
  · rw [hlength, ← hopened.num]
    rfl
  · rw [List.map_append]
    refine List.nodup_append.mpr ⟨hopened.names, List.nodup_singleton _, ?_⟩
    intro name hold other hnew
    rw [List.mem_singleton.mp hnew]
    exact ne_of_mem_of_not_mem hold hname
  · intro hroom
    rw [hlength] at hroom ⊢
    have hlt : set.openedTableNum < dbcontextMaxCacheLockTables := hopened.num ▸ hroom
    have harray : (addOpenedTable (hashCode table.name) node table set).needLockTables =
        Function.update set.needLockTables tables.length (some table) := by
      unfold addOpenedTable
      rw [← hopened.num]
      exact if_pos hlt
    rw [harray, List.range_succ, List.map_append, List.map_append,
      ← hopened.array (Nat.le_of_succ_le hroom)]
    refine congrArg₂ (· ++ ·) (List.map_congr_left fun place hplace ↦ ?_) ?_
    · exact Function.update_of_ne (Nat.ne_of_lt (List.mem_range.mp hplace)) _ _
    · exact congrArg (fun last ↦ [last]) (Function.update_self _ _ _)

/-- A walk has the opened tables in some order. -/
theorem Opened.walked (hopened : Opened hashCode set tables) :
    ∃ walked : List MysqlTable, set.walk = walked.map (standing hashCode) ∧ walked.Perm tables := by
  have hpairs : List.Forall₂ (fun entry table ↦ entry = standing hashCode table)
      (tables.map (standing hashCode)) tables :=
    List.forall₂_map_left_iff.mpr (List.forall₂_same.mpr fun _ _ ↦ rfl)
  obtain ⟨walked, hwalked, hperm⟩ := List.perm_comp_forall₂ hopened.walk hpairs
  refine ⟨walked, ?_, hperm⟩
  exact List.forall₂_eq_eq_eq ▸ List.forall₂_map_right_iff.mpr hwalked

/-! ### Looking a table up -/

theorem strncmpSame_self (text : List UInt8) : strncmpSame text text = true := by
  induction text with
  | nil => rfl
  | cons byte rest ih => simp [strncmpSame, ih]

/-- A table with the names of a request is accepted. -/
theorem compareTableInfo_of_name {opened : OpenedTable}
    (htable : opened.mysqlTable = some table)
    (hname : table.name = namesOf info) : compareTableInfo info opened = true := by
  unfold compareTableInfo
  rw [htable, Option.elim_some, hname]
  simp [namesOf, strncmpSame_self]

/-- If nothing is found, no opened table has the names. -/
theorem Opened.name_notMem (hopened : Opened hashCode set tables)
    (hnone : set.hashTableForOpened.findEx (hashCode (namesOf info)) (fun node ↦
      compareTableInfo info (set.openedTable node)) = none) :
    namesOf info ∉ tables.map MysqlTable.name := by
  intro hmem
  obtain ⟨table, htable, hname⟩ := List.mem_map.mp hmem
  have hwalk : standing hashCode table ∈ set.walk :=
    hopened.walk.mem_iff.mpr (List.mem_map_of_mem htable)
  obtain ⟨⟨key, node⟩, hentry, hstanding⟩ := List.mem_map.mp hwalk
  obtain ⟨hkey, hnode⟩ := Prod.mk.inj hstanding
  obtain rfl : key = hashCode (namesOf info) := hkey.trans (congrArg hashCode hname)
  have hrejected := ChainedHash.findEx_eq_none_iff.mp hnone node hentry
  rw [compareTableInfo_of_name hnode hname] at hrejected
  exact Bool.false_ne_true hrejected.symm

/-! ### Cached tables -/

/-- The tables of the list are the cached ones. -/
structure Cached (hashCode : HashCode) (cacheTableNum : ℕ) (set : TableSet)
    (cached : List MysqlTable) : Prop where
  num : set.alreadyCachedTableNum = cached.length
  le : cached.length ≤ cacheTableNum
  slots : ∀ slot table, cached[slot]? = some table →
    set.cachedTable slot = ⟨some table, hashCode table.name⟩
  names : (cached.map MysqlTable.name).Nodup

theorem cached_nil (hnum : set.alreadyCachedTableNum = 0) :
    Cached hashCode cacheTableNum set [] :=
  ⟨hnum, Nat.zero_le _, fun _ table hslot ↦ (Option.some_ne_none table hslot.symm).elim,
    List.nodup_nil⟩

theorem Cached.congr (hcached : Cached hashCode cacheTableNum set cached)
    (hnum : other.alreadyCachedTableNum = set.alreadyCachedTableNum)
    (hslots : other.cachedTable = set.cachedTable) :
    Cached hashCode cacheTableNum other cached :=
  ⟨hnum.trans hcached.num, hcached.le, hslots ▸ hcached.slots, hcached.names⟩

/-- The context behind some rounds of the loop over the cached tables. -/
structure Taken (hashCode : HashCode) (before after : TableSet) (cached : List MysqlTable)
    (rounds : ℕ) : Prop where
  opened : Opened hashCode after (cached.take rounds)
  nodes : ∀ node ∈ after.nodes, ∃ slot < rounds, node = .forCached slot
  slots : ∀ slot, rounds ≤ slot → after.cachedTable slot = before.cachedTable slot
  openTables : after.openTables = before.openTables
  poolNodes : after.poolNodes = before.poolNodes
  inPool : ∀ serial, after.openedTable (.inPool serial) = before.openedTable (.inPool serial)

theorem Cached.taken (hcached : Cached hashCode cacheTableNum set cached)
    (hopened : Opened hashCode set []) {rounds : ℕ} (hrounds : rounds ≤ cached.length) :
    Taken hashCode set ((List.range rounds).foldl (takeCached hashCode) set) cached rounds := by
  induction rounds with
  | zero =>
    have hnodes : set.nodes = [] := List.eq_nil_of_length_eq_zero hopened.length_nodes
    refine ⟨hopened, ?_, fun _ _ ↦ rfl, rfl, rfl, fun _ ↦ rfl⟩
    intro node hnode
    rw [List.range_zero, List.foldl_nil, hnodes] at hnode
    exact absurd hnode List.not_mem_nil
  | succ rounds ih =>
    have htaken := ih (Nat.le_of_succ_le hrounds)
    rw [List.range_succ, List.foldl_append, List.foldl_cons, List.foldl_nil]
    generalize (List.range rounds).foldl (takeCached hashCode) set = after at htaken ⊢
    obtain ⟨table, htable⟩ : ∃ table, cached[rounds]? = some table :=
      ⟨_, List.getElem?_eq_getElem hrounds⟩
    have hslot := (htaken.slots rounds (Nat.le_refl _)).trans (hcached.slots rounds table htable)
    have hsplit : cached.take (rounds + 1) = cached.take rounds ++ [table] := by
      rw [List.take_add_one, htable]
      rfl
    have hnode : Node.forCached rounds ∉ after.nodes := by
      intro hmem
      obtain ⟨slot, hlt, heq⟩ := htaken.nodes _ hmem
      exact Nat.ne_of_gt hlt (Node.forCached.inj heq)
    have hname : table.name ∉ (cached.take rounds).map MysqlTable.name := by
      have hnames := hcached.names.sublist ((List.take_sublist (rounds + 1) cached).map _)
      rw [hsplit, List.map_append] at hnames
      exact fun hmem ↦ List.disjoint_of_nodup_append hnames hmem List.mem_cons_self
    have hadded := htaken.opened.add hnode (fun _ h ↦ nomatch h) hname
    rw [← hsplit] at hadded
    unfold takeCached
    rw [hslot, Option.elim_some]
    dsimp only
    rw [ite_self]
    refine ⟨hadded.congr rfl (fun _ _ ↦ rfl) (Nat.le_refl _) rfl rfl, ?_, ?_, htaken.openTables,
      htaken.poolNodes, ?_⟩
    · intro node hmem
      have hperm := (ChainedHash.forEach_add after.hashTableForOpened (hashCode table.name)
        (.forCached rounds)).map Prod.snd
      rcases List.mem_cons.mp (hperm.mem_iff.mp hmem) with rfl | hmem
      · exact ⟨rounds, Nat.lt_succ_self _, rfl⟩
      · obtain ⟨slot, hlt, heq⟩ := htaken.nodes node hmem
        exact ⟨slot, Nat.lt_succ_of_lt hlt, heq⟩
    · intro slot hle
      exact (Function.update_of_ne (Nat.ne_of_gt hle) _ _).trans
        (htaken.slots slot (Nat.le_of_succ_le hle))
    · intro serial
      have hne : Node.inPool serial ≠ .forCached rounds := nofun
      exact (addOpenedTable_of_ne (hashCode table.name) table after hne).trans
        (htaken.inPool serial)

/-! ### The invariant -/

/-- The opened and the cached tables, of which one kind is missing, are all that are open. -/
structure Places (hashCode : HashCode) (cacheTableNum : ℕ) (set : TableSet)
    (tables cached : List MysqlTable) : Prop where
  inHash : Opened hashCode set tables
  inSlots : Cached hashCode cacheTableNum set cached
  apart : cached = [] ∨ tables = []
  placed : ∀ table ∈ set.openTables, table ∈ tables ∨ table ∈ cached

/-- Each open table has its place. -/
def Sound (hashCode : HashCode) (cacheTableNum : ℕ) (set : TableSet) : Prop :=
  ∃ tables cached, Places hashCode cacheTableNum set tables cached

theorem sound_initTableSet : Sound hashCode cacheTableNum initTableSet :=
  ⟨[], [], opened_nil rfl rfl, cached_nil rfl, .inl rfl, fun _ h ↦ absurd h List.not_mem_nil⟩

/-- Behind the loop over the cached tables no table is cached. -/
theorem Sound.takeAllCached (hsound : Sound hashCode cacheTableNum set) :
    ∃ tables, Places hashCode cacheTableNum (takeAllCached hashCode set) tables [] := by
  obtain ⟨tables, cached, hplaces⟩ := hsound
  unfold Tables.takeAllCached
  rcases hplaces.apart with rfl | rfl
  · have hnone : ¬0 < set.alreadyCachedTableNum := by
      rw [hplaces.inSlots.num]
      exact Nat.lt_irrefl 0
    rw [if_neg hnone]
    exact ⟨tables, hplaces⟩
  · split
    · have htaken := hplaces.inSlots.taken hplaces.inHash (Nat.le_refl cached.length)
      rw [hplaces.inSlots.num]
      have hopened := htaken.opened
      rw [List.take_length] at hopened
      refine ⟨cached, hopened.congr rfl (fun _ _ ↦ rfl) (Nat.le_refl _) rfl rfl, cached_nil rfl,
        .inl rfl, fun table htable ↦ ?_⟩
      have hplaced := hplaces.placed table (htaken.openTables ▸ htable)
      exact .inl (hplaced.resolve_left List.not_mem_nil)
    · next hnone =>
      have hcached : cached = [] := by
        refine List.eq_nil_of_length_eq_zero ?_
        rw [← hplaces.inSlots.num]
        exact Nat.eq_zero_of_not_pos hnone
      subst hcached
      exact ⟨[], hplaces⟩

/-- A node from the pool is in no bucket. -/
theorem Opened.allocNode (hopened : Opened hashCode set tables) :
    Opened hashCode (allocNode set) tables ∧ Node.inPool set.poolNodes ∉ set.nodes := by
  have hfresh : Node.inPool set.poolNodes ∉ set.nodes :=
    fun hmem ↦ Nat.lt_irrefl _ (hopened.pool _ hmem)
  refine ⟨hopened.congr rfl (fun node hnode ↦ ?_) (Nat.le_succ _) rfl rfl, hfresh⟩
  exact congrArg _ (Function.update_of_ne (ne_of_mem_of_not_mem hnode hfresh) _ _)

/-- `open_table` keeps the invariant. Assumes: an opened table has the names of the request. -/
theorem Sound.openTable (hsound : Sound hashCode cacheTableNum set) (type : RequestType)
    {answer : OpenAnswer}
    (hnames : ∀ table, answer.table = some table → table.name = namesOf info) :
    Sound hashCode cacheTableNum (openTable hashCode type info answer set).2 := by
  unfold Tables.openTable
  split
  · exact hsound
  obtain ⟨tables, hplaces⟩ := hsound.takeAllCached
  generalize Tables.takeAllCached hashCode set = taken at hplaces ⊢
  dsimp only
  cases hfound : taken.hashTableForOpened.findEx (hashCode (namesOf info)) fun node ↦
      compareTableInfo info (taken.openedTable node) with
  | some node => exact ⟨tables, [], hplaces⟩
  | none =>
    rw [Option.elim_none, openNew]
    split
    · obtain ⟨hallocated, hfresh⟩ := hplaces.inHash.allocNode
      have hcached := hplaces.inSlots
      cases htable : answer.table with
      | none =>
        exact ⟨tables, [], hallocated.congr rfl (fun _ _ ↦ rfl) (Nat.le_refl _) rfl rfl,
          hcached.congr rfl rfl, .inl rfl, hplaces.placed⟩
      | some table =>
        have hname := hnames table htable
        have hopened : Opened hashCode { Tables.allocNode taken with
            openTables := (Tables.allocNode taken).openTables ++ [table] } tables :=
          hallocated.congr rfl (fun _ _ ↦ rfl) (Nat.le_refl _) rfl rfl
        have hnew : table.name ∉ tables.map MysqlTable.name :=
          hname ▸ hplaces.inHash.name_notMem hfound
        have hserial : ∀ serial, Node.inPool taken.poolNodes = .inPool serial →
            serial < taken.poolNodes + 1 :=
          fun serial heq ↦ Node.inPool.inj heq ▸ Nat.lt_succ_self _
        have hadded := hopened.add hfresh hserial hnew
        rw [hname] at hadded
        refine ⟨tables ++ [table], [], hadded, hcached.congr rfl rfl, .inl rfl, ?_⟩
        intro other hother
        left
        rcases List.mem_append.mp hother with hother | hother
        · exact List.mem_append_left _ ((hplaces.placed other hother).resolve_right
            List.not_mem_nil)
        · exact List.mem_append_right _ hother
    · exact ⟨tables, [], hplaces⟩

/-- The slots behind the loop of `close_table`. -/
theorem storeCached_apply (openedTable : Node → OpenedTable) (entries : List (UInt64 × Node))
    (first : ℕ) (slots : ℕ → CachedTable) (slot : ℕ) :
    storeCached openedTable entries first slots slot =
      if first ≤ slot then
        (entries[slot - first]?).elim (slots slot) fun entry ↦
          ⟨(openedTable entry.2).mysqlTable, entry.1⟩
      else slots slot := by
  induction entries generalizing first slots with
  | nil => simp [storeCached]
  | cons entry entries ih =>
    rw [storeCached, ih]
    rcases Nat.lt_trichotomy slot first with hlt | rfl | hgt
    · rw [if_neg (by omega), if_neg (by omega), Function.update_of_ne (by omega)]
    · rw [if_neg (by omega), if_pos (Nat.le_refl _), Function.update_self, Nat.sub_self]
      rfl
    · have hshift : slot - first = slot - (first + 1) + 1 := by omega
      rw [if_pos (by omega), if_pos (by omega), Function.update_of_ne (by omega), hshift,
        List.getElem?_cons_succ]

/-- The walk of `close_table` caches all opened tables. -/
theorem Opened.storeCached (hopened : Opened hashCode set tables)
    (hroom : set.openedTableNum ≤ cacheTableNum) :
    ∃ cached, cached.Perm tables ∧
      Cached hashCode cacheTableNum
        { set with
          cachedTable :=
            storeCached set.openedTable set.hashTableForOpened.forEach 0 set.cachedTable
          alreadyCachedTableNum := set.openedTableNum } cached := by
  obtain ⟨walked, hwalk, hperm⟩ := hopened.walked
  have hlength : set.openedTableNum = walked.length := hopened.num.trans hperm.length_eq.symm
  refine ⟨walked, hperm, hlength, hlength ▸ hroom, ?_, ?_⟩
  · intro slot table hslot
    have hentry : set.walk[slot]? = some (standing hashCode table) := by
      rw [hwalk, List.getElem?_map, hslot]
      rfl
    rw [TableSet.walk, List.getElem?_map] at hentry
    obtain ⟨entry, hentry, hstanding⟩ := Option.map_eq_some_iff.mp hentry
    obtain ⟨hkey, htable⟩ := Prod.mk.inj hstanding
    dsimp only
    rw [storeCached_apply, if_pos (Nat.zero_le _), Nat.sub_zero, hentry, Option.elim_some,
      htable, hkey]
  · exact (hperm.map _).nodup_iff.mpr hopened.names

/-- `close_table` keeps the invariant. -/
theorem Sound.closeTable (hsound : Sound hashCode cacheTableNum set) (tdhsCacheTableOn : Bool) :
    Sound hashCode cacheTableNum (closeTable cacheTableNum tdhsCacheTableOn set) := by
  obtain ⟨tables, cached, hplaces⟩ := hsound
  unfold Tables.closeTable
  dsimp only
  split
  · exact ⟨tables, cached, hplaces.inHash.congr rfl (fun _ _ ↦ rfl) (Nat.le_refl _) rfl rfl,
      hplaces.inSlots.congr rfl rfl, hplaces.apart, hplaces.placed⟩
  · next hnum =>
    have hcached : cached = [] := by
      refine hplaces.apart.resolve_right fun hnil ↦ hnum ?_
      rw [hplaces.inHash.num, hnil]
      rfl
    subst hcached
    split
    · next hkept =>
      rw [Bool.and_eq_true, decide_eq_true_eq] at hkept
      obtain ⟨kept, hperm, hslots⟩ := hplaces.inHash.storeCached hkept.2
      refine ⟨[], kept, opened_nil rfl rfl, hslots.congr rfl rfl, .inr rfl, ?_⟩
      intro table htable
      have hplaced := (hplaces.placed table htable).resolve_right List.not_mem_nil
      exact .inr (hperm.mem_iff.mpr hplaced)
    · exact ⟨[], [], opened_nil rfl rfl, hplaces.inSlots.congr rfl rfl, .inl rfl,
        fun _ h ↦ absurd h List.not_mem_nil⟩

/-- Two contexts with the same tables: they differ in flags and in `last_opened_table_num` only. -/
structure SameTables (set other : TableSet) : Prop where
  hashTableForOpened : other.hashTableForOpened = set.hashTableForOpened
  mysqlTable : ∀ node, (other.openedTable node).mysqlTable = (set.openedTable node).mysqlTable
  poolNodes : other.poolNodes = set.poolNodes
  openedTableNum : other.openedTableNum = set.openedTableNum
  needLockTables : other.needLockTables = set.needLockTables
  alreadyCachedTableNum : other.alreadyCachedTableNum = set.alreadyCachedTableNum
  cachedTable : other.cachedTable = set.cachedTable
  openTables : other.openTables = set.openTables

theorem SameTables.refl (set : TableSet) : SameTables set set :=
  ⟨rfl, fun _ ↦ rfl, rfl, rfl, rfl, rfl, rfl, rfl⟩

theorem sameTables_flags (set : TableSet) (bulk lock : Bool) :
    SameTables set { set with bulk := bulk, lock := lock } :=
  ⟨rfl, fun _ ↦ rfl, rfl, rfl, rfl, rfl, rfl, rfl⟩

theorem sameTables_setGroupCommit (needWrite gc : Bool) (set : TableSet) :
    SameTables set (setGroupCommit needWrite gc set) := by
  unfold setGroupCommit
  split
  · exact sameTables_flags set gc set.lock
  · exact .refl set

theorem sameTables_lockTable (memory locked : Bool) (set : TableSet) :
    SameTables set (lockTable memory locked set).2 := by
  unfold lockTable
  split
  · cases lockArray memory set with
    | none => exact .refl set
    | some tables => exact sameTables_flags set set.bulk locked
  · exact .refl set

theorem sameTables_unlockTable (set : TableSet) : SameTables set (unlockTable set) := by
  unfold unlockTable
  split
  · exact sameTables_flags set set.bulk false
  · exact .refl set

theorem sameTables_lockTables (locked : Bool) (set : TableSet) :
    SameTables set (lockTables locked set) := by
  unfold lockTables
  split
  · exact .refl set
  · exact sameTables_flags set set.bulk locked

theorem sameTables_unlockTables (set : TableSet) : SameTables set (unlockTables set) := by
  unfold unlockTables
  split
  · exact .refl set
  · exact sameTables_flags set set.bulk false

theorem sameTables_noteModified (node : Node) (set : TableSet) :
    SameTables set (noteModified node set) := by
  refine ⟨rfl, fun other ↦ ?_, rfl, rfl, rfl, rfl, rfl, rfl⟩
  by_cases hnode : other = node
  · rw [hnode, noteModified_self]
  · rw [noteModified_of_ne set hnode]

theorem SameTables.opened (hsame : SameTables set other)
    (hopened : Opened hashCode set tables) : Opened hashCode other tables :=
  hopened.congr hsame.hashTableForOpened (fun node _ ↦ hsame.mysqlTable node) hsame.poolNodes.ge
    hsame.openedTableNum hsame.needLockTables

theorem SameTables.sound (hsame : SameTables set other)
    (hsound : Sound hashCode cacheTableNum set) : Sound hashCode cacheTableNum other := by
  obtain ⟨tables, cached, hplaces⟩ := hsound
  exact ⟨tables, cached, hsame.opened hplaces.inHash,
    hplaces.inSlots.congr hsame.alreadyCachedTableNum hsame.cachedTable, hplaces.apart,
    hsame.openTables ▸ hplaces.placed⟩

/-- `close_cached_table` keeps the invariant. -/
theorem Sound.closeCachedTable (hsound : Sound hashCode cacheTableNum set) :
    Sound hashCode cacheTableNum (closeCachedTable set) := by
  obtain ⟨tables, cached, hplaces⟩ := hsound
  exact ⟨tables, [], hplaces.inHash.congr rfl (fun _ _ ↦ rfl) (Nat.le_refl _) rfl rfl,
    cached_nil rfl, .inl rfl, fun _ h ↦ absurd h List.not_mem_nil⟩

/-- Every call keeps the invariant. -/
theorem Sound.apply (hsound : Sound hashCode cacheTableNum set) {call : Call}
    (hnames : SharesNames set call) :
    Sound hashCode cacheTableNum (apply hashCode cacheTableNum needWrite set call) := by
  cases call with
  | openTable type info answer => exact hsound.openTable type hnames
  | setGroupCommit gc => exact (sameTables_setGroupCommit needWrite gc set).sound hsound
  | lockTable memory locked => exact (sameTables_lockTable memory locked set).sound hsound
  | unlockTable => exact (sameTables_unlockTable set).sound hsound
  | lockTables locked => exact (sameTables_lockTables locked set).sound hsound
  | unlockTables => exact (sameTables_unlockTables set).sound hsound
  | noteModified node => exact (sameTables_noteModified node set).sound hsound
  | closeTable tdhsCacheTableOn => exact hsound.closeTable tdhsCacheTableOn
  | closeCachedTable => exact hsound.closeCachedTable

/-! ### Every sequence of calls -/

/-- The tables of the nodes of the hash table. -/
def TableSet.hashTables (set : TableSet) : List (Option MysqlTable) :=
  set.nodes.map fun node ↦ (set.openedTable node).mysqlTable

/-- A call of `mysql_lock_tables` has each table of the hash table once. -/
structure LocksAll (set : TableSet) (call : LockCall) : Prop where
  perm : call.tables.Perm set.hashTables
  nodup : call.tables.Nodup
  count_eq : call.count = call.tables.length

/-- What holds for the tables of a request thread: the counters, the names, the array of the bulk
lock, the number of cached tables and the places of the open ones. -/
structure IsTableSet (cacheTableNum : ℕ) (set : TableSet) : Prop where
  openedTableNum_eq : set.openedTableNum = set.nodes.length
  count_eq : set.hashTableForOpened.count = set.nodes.length
  isSome : ∀ table ∈ set.hashTables, table.isSome = true
  names_nodup : (set.hashTables.map (Option.map MysqlTable.name)).Nodup
  locksAll : ∀ memory locked call, (lockTable memory locked set).1 = some call → LocksAll set call
  cached_le : set.alreadyCachedTableNum ≤ cacheTableNum
  placed : ∀ table ∈ set.openTables, some table ∈ set.hashTables ∨
    ∃ slot < set.alreadyCachedTableNum, (set.cachedTable slot).table = some table

theorem TableSet.hashTables_eq (set : TableSet) : set.hashTables = set.walk.map Prod.snd := by
  rw [TableSet.hashTables, TableSet.nodes, TableSet.walk, List.map_map, List.map_map]
  rfl

theorem Opened.hashTables_perm (hopened : Opened hashCode set tables) :
    set.hashTables.Perm (tables.map some) := by
  rw [set.hashTables_eq]
  refine (hopened.walk.map Prod.snd).trans ?_
  rw [List.map_map]
  exact List.Perm.refl _

theorem lockTable_eq_some {memory locked : Bool} {call : LockCall}
    (hcall : (lockTable memory locked set).1 = some call) :
    ∃ array, lockArray memory set = some array ∧ call = ⟨array, set.openedTableNum⟩ := by
  unfold lockTable at hcall
  split at hcall
  · cases harray : lockArray memory set with
    | none =>
      rw [harray] at hcall
      cases hcall
    | some array =>
      rw [harray] at hcall
      exact ⟨array, rfl, (Option.some.inj hcall).symm⟩
  · cases hcall

/-- The array of the bulk lock, in both cases. -/
theorem Opened.lockArray_perm (hopened : Opened hashCode set tables) {memory : Bool}
    {array : List (Option MysqlTable)} (harray : lockArray memory set = some array) :
    array.Perm (tables.map some) := by
  unfold lockArray at harray
  split at harray
  · next hroom =>
    obtain rfl := Option.some.inj harray
    rw [hopened.num] at hroom ⊢
    rw [hopened.array hroom]
  · split at harray
    · obtain rfl := Option.some.inj harray
      have hwalk : set.hashTables = _ := set.hashTables_eq
      have hperm := hopened.hashTables_perm
      rw [hwalk, TableSet.walk, List.map_map] at hperm
      exact hperm
    · cases harray

theorem nodup_map_some (hnames : (tables.map MysqlTable.name).Nodup) :
    (tables.map some).Nodup :=
  (List.Nodup.of_map _ hnames).map (Option.some_injective _)

/-- The invariant in terms of the members of the context. -/
theorem Sound.isTableSet (hsound : Sound hashCode cacheTableNum set) :
    IsTableSet cacheTableNum set := by
  obtain ⟨tables, cached, hplaces⟩ := hsound
  have hopened := hplaces.inHash
  have hperm := hopened.hashTables_perm
  refine ⟨?_, ?_, ?_, ?_, ?_, ?_, ?_⟩
  · rw [hopened.num, hopened.length_nodes]
  · rw [hopened.count, hopened.length_nodes]
  · intro table htable
    obtain ⟨opened, -, rfl⟩ := List.mem_map.mp (hperm.mem_iff.mp htable)
    rfl
  · refine (hperm.map _).nodup_iff.mpr ?_
    rw [List.map_map]
    have hnames := hopened.names.map (Option.some_injective TableName)
    rw [List.map_map] at hnames
    exact hnames
  · intro memory locked call hcall
    obtain ⟨array, harray, rfl⟩ := lockTable_eq_some hcall
    have hlock := hopened.lockArray_perm harray
    refine ⟨hlock.trans hperm.symm, hlock.nodup_iff.mpr (nodup_map_some hopened.names), ?_⟩
    rw [hlock.length_eq, List.length_map, hopened.num]
  · rw [hplaces.inSlots.num]
    exact hplaces.inSlots.le
  · intro table htable
    rcases hplaces.placed table htable with htable | htable
    · exact .inl (hperm.mem_iff.mpr (List.mem_map_of_mem htable))
    · obtain ⟨slot, hslot⟩ := List.mem_iff_getElem?.mp htable
      refine .inr ⟨slot, ?_, ?_⟩
      · rw [hplaces.inSlots.num]
        exact (List.getElem?_eq_some_iff.mp hslot).1
      · rw [hplaces.inSlots.slots slot table hslot]

/-- In every state that a sequence of calls reaches, the counters count the nodes of the hash table,
no two nodes have one table, the bulk lock locks each of their tables once, no more tables are
cached than may be, and every open table has its place. Assumes: opened tables have the names of
their requests. -/
theorem table_set_sound (hashCode : HashCode) (cacheTableNum : ℕ) (needWrite : Bool)
    {set : TableSet}
    (hreached : Reached (step hashCode cacheTableNum needWrite) SharesNames initTableSet set) :
    IsTableSet cacheTableNum set := by
  have hsound : Sound hashCode cacheTableNum set := by
    refine hreached.invariant (Sound hashCode cacheTableNum) sound_initTableSet ?_
    intro before after call hsound hnames hstep
    cases hstep
    exact hsound.apply hnames
  exact hsound.isTableSet

/-- A table of the database `d` in a request. -/
def infoOf (name : UInt8) : TdhsRequestTable := ⟨0, [100, 0], [name, 0], [], []⟩

/-- A table of the database `d`. -/
def tableOf (name : UInt8) : MysqlTable := ⟨name.toNat, ⟨[100], [name]⟩⟩

/-- The opening of a table that is there. -/
def openOf (name : UInt8) : Call := .openTable .update (infoOf name) ⟨true, some (tableOf name)⟩

/-- A round that opens two tables and caches them, and the beginning of a round that finds one of
them again and opens a third. -/
def sampleCalls : List Call :=
  [openOf 116, openOf 117, .lockTable true true, .noteModified (.inPool 1), .unlockTable,
    .closeTable true, .openTable .update (infoOf 117) ⟨true, none⟩, openOf 118]

theorem sharesNames_sampleCalls : ∀ call ∈ sampleCalls, ∀ set, SharesNames set call := by
  simp [sampleCalls, openOf, SharesNames, tableOf, infoOf, namesOf, content]

/-- All keys are one here. The cached tables are found again, in the nodes of their slots. -/
theorem table_set_sound_sample :
    ∃ set, run (step (fun _ ↦ 7) 2 true) initTableSet sampleCalls = some set ∧
      set.openedTableNum = 3 ∧
      set.hashTables = [some (tableOf 118), some (tableOf 116), some (tableOf 117)] ∧
      IsTableSet 2 set := by
  refine ⟨_, rfl, rfl, rfl, table_set_sound (fun _ ↦ 7) 2 true ?_⟩
  exact reached_run .start sharesNames_sampleCalls rfl

end TdhSocket.Tables
