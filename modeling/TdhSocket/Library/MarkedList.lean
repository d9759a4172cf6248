import Mathlib.Data.List.Nodup

/-!
# Lists whose link is their mark

A singly linked list through a field of its nodes, where the field is also the mark of membership:
a node that is in no list has no link, and the last node of a list links to itself. `add` appends a
node unless it is marked, `close` ends the list for walking, and `detach` walks it and takes the
links away; `walk` is the two together.

`Holds` relates the field and the two ends to the list of the members. `Holds.add` is the step and
`walk_eq` the walk: it visits the members in order, once each, and leaves no link.
-/

set_option autoImplicit false

namespace TdhSocket.Library.MarkedList

open Function

/-- The two ends of a list. -/
structure Ends (Node : Type) where
  head : Option Node
  tail : Option Node
  deriving DecidableEq, Repr

/-- The link field of the nodes. -/
abbrev Links (Node : Type) : Type := Node → Option Node

variable {Node : Type}

/-! ### Members -/

/-- Each node of a list links to the next one, and the last to itself. -/
def Marked (next : Links Node) : List Node → Prop
  | [] => True
  | [node] => next node = some node
  | node :: other :: rest => next node = some other ∧ Marked next (other :: rest)

/-- A list has some members. -/
structure Holds (next : Links Node) (ends : Ends Node) (members : List Node) : Prop where
  head_eq : ends.head = members.head?
  tail_eq : ends.tail = members.getLast?
  nodup : members.Nodup
  marked : Marked next members

variable {next : Links Node} {members : List Node} {ends : Ends Node}

theorem Marked.congr {other : Links Node} (hmarked : Marked next members)
    (hsame : ∀ node ∈ members, other node = next node) : Marked other members := by
  induction members with
  | nil => trivial
  | cons node rest ih =>
    cases rest with
    | nil => exact (hsame node List.mem_cons_self).trans hmarked
    | cons second rest =>
      exact ⟨(hsame node List.mem_cons_self).trans hmarked.1,
        ih hmarked.2 fun other hother ↦ hsame other (List.mem_cons_of_mem _ hother)⟩

variable {node : Node} {fuel : ℕ}

theorem Marked.ne_none (hmarked : Marked next members) (hnode : node ∈ members) :
    next node ≠ none := by
  induction members with
  | nil => cases hnode
  | cons first rest ih =>
    cases rest with
    | nil =>
      rw [List.mem_singleton.mp hnode, show next first = some first from hmarked]
      exact Option.some_ne_none _
    | cons second rest =>
      rcases List.mem_cons.mp hnode with rfl | hnode
      · rw [hmarked.1]
        exact Option.some_ne_none _
      · exact ih hmarked.2 hnode

/-- The first of two or more nodes is not the last one. -/
theorem exists_last_ne {first second : Node} {rest : List Node} (hfirst : first ∉ second :: rest) :
    ∃ last, (second :: rest).getLast? = some last ∧ first ≠ last := by
  have hmem : (second :: rest).getLast (List.cons_ne_nil _ _) ∈ second :: rest :=
    List.getLast_mem _
  exact ⟨_, List.getLast?_eq_some_getLast _, fun h ↦ hfirst (h ▸ hmem)⟩

theorem holds_nil (next : Links Node) : Holds next ⟨none, none⟩ [] :=
  ⟨rfl, rfl, List.nodup_nil, trivial⟩

variable [DecidableEq Node]

/-! ### Operations -/

section

variable (ends : Ends Node)

/-- A node is appended unless it is marked. -/
def add (node : Node) (next : Links Node) : Ends Node × Links Node :=
  if next node = none then
    (⟨some (ends.head.getD node), some node⟩,
      update (if ends.head = none then next
        else ends.tail.elim next fun tail ↦ update next tail (some node))
        node (some node))
  else (ends, next)

/-- The last node gets no link. -/
def close (next : Links Node) : Links Node :=
  ends.tail.elim next fun tail ↦ update next tail none

/-- A walk from a node on, which takes the links away: the nodes that are visited and the links
behind it. More nodes than `fuel` are not walked. -/
def detach (next : Links Node) : ℕ → Option Node → Option (List Node × Links Node)
  | _, none => some ([], next)
  | 0, some _ => none
  | fuel + 1, some node =>
    (detach (update next node none) fuel (next node)).map fun walked ↦
      (node :: walked.1, walked.2)

/-- A list is closed and walked, if it has a last node. -/
def walk (next : Links Node) (fuel : ℕ) : Option (List Node × Links Node) :=
  if ends.tail = none then some ([], next) else detach (close ends next) fuel ends.head

/-- A node that is appended is marked as the last one. Assumes: the node is in no list. -/
theorem marked_append (hmarked : Marked next members) (hnodup : members.Nodup)
    (hnode : node ∉ members) :
    Marked (update (members.getLast?.elim next fun tail ↦
      update next tail (some node)) node (some node)) (members ++ [node]) := by
  induction members with
  | nil => exact update_self _ _ _
  | cons first rest ih =>
    obtain ⟨hfirst, hrest⟩ := List.nodup_cons.mp hnodup
    have hne : first ≠ node := fun h ↦ hnode (h ▸ List.mem_cons_self)
    cases rest with
    | nil =>
      refine ⟨?_, update_self _ _ _⟩
      rw [update_of_ne hne]
      exact update_self _ _ _
    | cons second rest =>
      obtain ⟨last, hlast, hother⟩ := exists_last_ne hfirst
      have htail := ih hmarked.2 hrest fun h ↦ hnode (List.mem_cons_of_mem _ h)
      rw [List.getLast?_cons_cons, hlast] at *
      refine ⟨?_, htail⟩
      rw [update_of_ne hne, Option.elim_some, update_of_ne hother]
      exact hmarked.1

/-! ### Appending -/

theorem add_of_marked (hmarked : next node ≠ none) : add ends node next = (ends, next) :=
  if_neg hmarked

end

section

variable (hholds : Holds next ends members)

include hholds

/-- The links behind `add`, in terms of the members. -/
theorem Holds.links_add (hfree : next node = none) :
    (add ends node next).2 = update (members.getLast?.elim next fun tail ↦
      update next tail (some node)) node (some node) := by
  unfold add
  rw [if_pos hfree, hholds.head_eq, hholds.tail_eq]
  cases members with
  | nil => rfl
  | cons first rest => rfl

/-- A node that has no link becomes the last member. -/
theorem Holds.add (hfree : next node = none) :
    Holds (add ends node next).2 (add ends node next).1 (members ++ [node]) := by
  have hnode : node ∉ members := fun hmem ↦ hholds.marked.ne_none hmem hfree
  constructor
  · unfold MarkedList.add
    rw [if_pos hfree, hholds.head_eq]
    cases members with
    | nil => rfl
    | cons first rest => rfl
  · unfold MarkedList.add
    rw [if_pos hfree, List.getLast?_concat]
  · rw [← List.concat_eq_append]
    exact hholds.nodup.concat hnode
  · rw [hholds.links_add hfree]
    exact marked_append hholds.marked hholds.nodup hnode

/-- `add` changes the links of the members and of the node only. -/
theorem Holds.add_of_notMem (hfree : next node = none) {other : Node} (hother : other ∉ members)
    (hne : other ≠ node) : (MarkedList.add ends node next).2 other = next other := by
  rw [hholds.links_add hfree, update_of_ne hne]
  cases hlast : members.getLast? with
  | none => rfl
  | some last =>
    have hmem : last ∈ members := List.mem_of_getLast? hlast
    have hlink : other ≠ last := fun h ↦ hother (h ▸ hmem)
    exact update_of_ne hlink _ _

end

/-- A second list stays as it is. Assumes: the two lists have no common member. -/
theorem Holds.add_other {other : Ends Node} {others : List Node} (hother : Holds next other others)
    (hholds : Holds next ends members) (hdisjoint : ∀ node ∈ others, node ∉ members)
    (hfree : next node = none) :
    Holds (MarkedList.add ends node next).2 other others := by
  refine ⟨hother.head_eq, hother.tail_eq, hother.nodup, hother.marked.congr fun member hmember ↦ ?_⟩
  have hne : member ≠ node := fun h ↦ hother.marked.ne_none hmember (h ▸ hfree)
  exact hholds.add_of_notMem hfree (hdisjoint member hmember) hne

/-- Behind `add` the node is marked, and every other node is marked if it was. -/
theorem Holds.add_eq_none_iff (hholds : Holds next ends members) (hfree : next node = none)
    (other : Node) :
    (MarkedList.add ends node next).2 other = none ↔ next other = none ∧ other ≠ node := by
  have hadded : Holds _ _ (members ++ [node]) := hholds.add hfree
  by_cases hmem : other ∈ members ++ [node]
  · refine iff_of_false (hadded.marked.ne_none hmem) fun h ↦ ?_
    rcases List.mem_append.mp hmem with hmem | hmem
    · exact hholds.marked.ne_none hmem h.1
    · exact h.2 (List.mem_singleton.mp hmem)
  · rw [List.mem_append, List.mem_singleton, not_or] at hmem
    rw [hholds.add_of_notMem hfree hmem.1 hmem.2]
    exact (and_iff_left hmem.2).symm

/-! ### Walking -/

/-- The links without those of some nodes. -/
def unlink (next : Links Node) (nodes : List Node) : Links Node :=
  fun node ↦ if node ∈ nodes then none else next node

theorem unlink_update (next : Links Node) (first : Node) (rest : List Node) :
    unlink (update next first none) rest = unlink next (first :: rest) := by
  funext node
  unfold unlink
  by_cases hfirst : node = first
  · rw [hfirst, update_self, if_pos List.mem_cons_self, ite_self]
  · rw [update_of_ne hfirst]
    simp only [List.mem_cons, hfirst, false_or]

theorem detach_marked (hnodup : members.Nodup) (hmarked : Marked next members)
    (hfuel : members.length ≤ fuel) :
    detach (close ⟨members.head?, members.getLast?⟩ next) fuel members.head? =
      some (members, unlink next members) := by
  induction members generalizing next fuel with
  | nil =>
    cases fuel with
    | zero => rfl
    | succ fuel => rfl
  | cons first rest ih =>
    obtain ⟨fuel, rfl⟩ := Nat.exists_eq_add_one_of_ne_zero (Nat.ne_zero_of_lt hfuel)
    obtain ⟨hfirst, hrest⟩ := List.nodup_cons.mp hnodup
    have hbehind : Marked (update next first none) rest → _ :=
      fun hmarked ↦ ih hrest hmarked (Nat.le_of_succ_le_succ hfuel)
    rw [unlink_update] at hbehind
    cases rest with
    | nil =>
      have hend : close ⟨some first, some first⟩ next first = none := update_self _ _ _
      have hsame : update (close ⟨some first, some first⟩ next) first none =
          update next first none := update_idem _ _ _
      have hwalk := hbehind trivial
      change (detach (update (close ⟨some first, some first⟩ next) first none) fuel
        (close ⟨some first, some first⟩ next first)).map _ = _
      rw [hend, hsame]
      exact congrArg (Option.map fun walked ↦ (first :: walked.1, walked.2)) hwalk
    | cons second rest =>
      obtain ⟨last, hlast, hother⟩ := exists_last_ne hfirst
      have hkept : ∀ node ∈ second :: rest, update next first none node = next node :=
        fun node hnode ↦ update_of_ne (ne_of_mem_of_not_mem hnode hfirst) _ _
      have hwalk := hbehind (hmarked.2.congr hkept)
      have hlink : close ⟨some first, some last⟩ next first = some second :=
        (update_of_ne hother _ _).trans hmarked.1
      -- the link of the first node goes away before the walk, that of the last one with `close`
      have hswap : update (close ⟨some first, some last⟩ next) first none =
          close ⟨some second, some last⟩ (update next first none) :=
        update_comm hother.symm _ _ _
      rw [List.getLast?_cons_cons, hlast]
      rw [hlast] at hwalk
      change (detach (update (close ⟨some first, some last⟩ next) first none) fuel
        (close ⟨some first, some last⟩ next first)).map _ = _
      rw [hlink, hswap]
      exact congrArg (Option.map fun walked ↦ (first :: walked.1, walked.2)) hwalk

/-- A second list stays as it is. Assumes: none of the nodes is in it. -/
theorem Holds.unlink_other {nodes : List Node}
    (hholds : Holds next ends members) (hdisjoint : ∀ node ∈ members, node ∉ nodes) :
    Holds (unlink next nodes) ends members :=
  ⟨hholds.head_eq, hholds.tail_eq, hholds.nodup,
    hholds.marked.congr fun node hnode ↦ if_neg (hdisjoint node hnode)⟩

/-- The walk over a list visits the members, in order, and takes their links away. Assumes: the
walk is not cut off. -/
theorem Holds.walk_eq (hholds : Holds next ends members) (hfuel : members.length ≤ fuel) :
    walk ends next fuel = some (members, unlink next members) := by
  obtain ⟨head, tail⟩ := ends
  obtain rfl : head = members.head? := hholds.head_eq
  obtain rfl : tail = members.getLast? := hholds.tail_eq
  have hdetach := detach_marked hholds.nodup hholds.marked hfuel
  unfold walk
  split
  · next hempty =>
    rw [List.getLast?_eq_none_iff.mp hempty]
    rfl
  · exact hdetach

end TdhSocket.Library.MarkedList
