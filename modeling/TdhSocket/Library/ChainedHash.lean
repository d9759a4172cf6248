import Mathlib.Data.List.FinRange

/-!
# Hash tables with chained buckets

The nodes of a table stand in buckets, each with its key; a bucket is chosen by the key, and a new
node goes to the front of its bucket. That every node stands in the bucket of its key is a field of
the table. `forEach` walks all buckets.

`forEach_add` says what a walk sees behind `add`, and `findEx_eq_none_iff` that `findEx` looks at
every node of a key.
-/

set_option autoImplicit false

namespace TdhSocket.Library

/-- A table whose bucket for a key is given by `index`. -/
structure ChainedHash (Key Node : Type) {size : ℕ} (index : Key → Fin size) where
  buckets : Fin size → List (Key × Node)
  count : ℕ
  placed : ∀ bucket, ∀ entry ∈ buckets bucket, index entry.1 = bucket

namespace ChainedHash

variable {Key Node : Type} {size : ℕ} {index : Key → Fin size}

/-- The table without nodes. -/
def empty : ChainedHash Key Node index where
  buckets _ := []
  count := 0
  placed _ _ hentry := absurd hentry List.not_mem_nil

variable (table : ChainedHash Key Node index)

theorem placed_update (key : Key) (node : Node) (bucket : Fin size) :
    ∀ entry ∈ Function.update table.buckets (index key)
      ((key, node) :: table.buckets (index key)) bucket, index entry.1 = bucket := by
  intro entry hentry
  by_cases hbucket : bucket = index key
  · subst hbucket
    rw [Function.update_self] at hentry
    rcases List.mem_cons.mp hentry with rfl | hentry
    · rfl
    · exact table.placed _ entry hentry
  · rw [Function.update_of_ne hbucket] at hentry
    exact table.placed bucket entry hentry

/-- A node is put in front of the bucket of its key. -/
def add (key : Key) (node : Node) : ChainedHash Key Node index where
  buckets := Function.update table.buckets (index key) ((key, node) :: table.buckets (index key))
  count := table.count + 1
  placed := placed_update table key node

/-- The nodes with their keys, bucket by bucket. -/
def forEach : List (Key × Node) :=
  (List.finRange size).flatMap table.buckets

/-- The first node in the bucket of a key that has the key and is accepted. -/
def findEx [DecidableEq Key] (table : ChainedHash Key Node index) (key : Key)
    (accepts : Node → Bool) : Option Node :=
  ((table.buckets (index key)).find? fun entry ↦
    decide (entry.1 = key) && accepts entry.2).map Prod.snd

@[simp] theorem forEach_empty : (empty : ChainedHash Key Node index).forEach = [] := by
  unfold forEach empty
  exact List.flatMap_eq_nil_iff.mpr fun _ _ ↦ rfl

theorem mem_forEach {table : ChainedHash Key Node index} {entry : Key × Node} :
    entry ∈ table.forEach ↔ entry ∈ table.buckets (index entry.1) := by
  unfold forEach
  rw [List.mem_flatMap]
  constructor
  · rintro ⟨bucket, -, hentry⟩
    rw [table.placed bucket entry hentry]
    exact hentry
  · intro hentry
    exact ⟨_, List.mem_finRange _, hentry⟩

/-- A walk over a family of lists when one of them gets a new first element. -/
theorem flatMap_update_perm {Place Element : Type} [DecidableEq Place] {places : List Place}
    (hnodup : places.Nodup) {place : Place} (hplace : place ∈ places)
    (lists : Place → List Element) (element : Element) :
    (places.flatMap (Function.update lists place (element :: lists place))).Perm
      (element :: places.flatMap lists) := by
  induction places with
  | nil => exact absurd hplace List.not_mem_nil
  | cons first rest ih =>
    obtain ⟨hfirst, hrest⟩ := List.nodup_cons.mp hnodup
    rw [List.flatMap_cons, List.flatMap_cons]
    by_cases hsame : place = first
    · subst hsame
      have hothers : rest.flatMap (Function.update lists place (element :: lists place)) =
          rest.flatMap lists :=
        List.flatMap_congr fun other hother ↦
          Function.update_of_ne (ne_of_mem_of_not_mem hother hfirst) _ _
      rw [Function.update_self, hothers]
      exact List.Perm.refl _
    · rw [Function.update_of_ne (Ne.symm hsame)]
      have hmem : place ∈ rest := (List.mem_cons.mp hplace).resolve_left hsame
      exact ((ih hrest hmem).append_left _).trans List.perm_middle

/-- A walk sees the new node and the old ones. -/
theorem forEach_add (key : Key) (node : Node) :
    (table.add key node).forEach.Perm ((key, node) :: table.forEach) :=
  flatMap_update_perm (List.nodup_finRange size) (List.mem_finRange _) table.buckets (key, node)

variable {table} [DecidableEq Key]

/-- A node that is found is in the table, with the key, and is accepted. -/
theorem findEx_eq_some {key : Key} {accepts : Node → Bool} {node : Node}
    (hfound : table.findEx key accepts = some node) :
    (key, node) ∈ table.forEach ∧ accepts node = true := by
  unfold findEx at hfound
  obtain ⟨entry, hentry, rfl⟩ := Option.map_eq_some_iff.mp hfound
  have haccepted := List.find?_some hentry
  rw [Bool.and_eq_true, decide_eq_true_eq] at haccepted
  obtain ⟨rfl, haccepts⟩ := haccepted
  exact ⟨mem_forEach.mpr (List.mem_of_find?_eq_some hentry), haccepts⟩

/-- Nothing is found exactly when no node of the key is accepted. -/
theorem findEx_eq_none_iff {key : Key} {accepts : Node → Bool} :
    table.findEx key accepts = none ↔
      ∀ node, (key, node) ∈ table.forEach → accepts node = false := by
  unfold findEx
  rw [Option.map_eq_none_iff, List.find?_eq_none]
  constructor
  · intro hnone node hnode
    have hrejected := hnone _ (mem_forEach.mp hnode)
    rw [decide_eq_true rfl, Bool.true_and] at hrejected
    exact Bool.eq_false_of_not_eq_true hrejected
  · rintro hnone ⟨other, node⟩ hentry haccepted
    rw [Bool.and_eq_true, decide_eq_true_eq] at haccepted
    obtain ⟨rfl, haccepts⟩ := haccepted
    rw [hnone node (mem_forEach.mpr hentry)] at haccepts
    exact Bool.false_ne_true haccepts

end ChainedHash

end TdhSocket.Library
