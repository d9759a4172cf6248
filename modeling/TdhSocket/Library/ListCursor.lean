import Mathlib.Data.List.Basic

/-!
# Cursors on a list

A cursor stands on an item and knows what is on both sides of it. `first` and `last` put a cursor on
the first or the last item with a property, `next` and `prev` move it by one.

A scan goes one way. `line` is a list as a scan in that way meets it and `onward` what a cursor
still has before it; `stands_seek` and `stands_move` are the same statement for both ways.
`filter_takeWhile_dropWhile` says what a scan finds that begins at the first item with one property
and stops at the first live item without another one.
-/

set_option autoImplicit false

namespace TdhSocket.Library

variable {Item : Type}

/-- A cursor: its item, and the items on both sides of it, the nearest first. -/
structure ListCursor (Item : Type) where
  behind : List Item
  current : Item
  ahead : List Item
  deriving DecidableEq, Repr

namespace ListCursor

section

variable (cursor : ListCursor Item)

/-- The cursor seen from the other end of the list. -/
def flip : ListCursor Item :=
  ⟨cursor.ahead, cursor.current, cursor.behind⟩

/-- The cursor on the next item. -/
def next : Option (ListCursor Item) :=
  match cursor.ahead with
  | [] => none
  | item :: rest => some ⟨cursor.current :: cursor.behind, item, rest⟩

/-- The cursor on the previous item. -/
def prev : Option (ListCursor Item) := cursor.flip.next.map flip

end

/-- A cursor on the first item with a property. -/
def first (property : Item → Bool) (items : List Item) : Option (ListCursor Item) :=
  match items.dropWhile fun item ↦ !property item with
  | [] => none
  | item :: rest => some ⟨(items.takeWhile fun item ↦ !property item).reverse, item, rest⟩

/-- A cursor on the last item with a property. -/
def last (property : Item → Bool) (items : List Item) : Option (ListCursor Item) :=
  (first property items.reverse).map flip

/-! ### Scans in one direction -/

section

variable (back : Bool)

/-- The list in the order in which a scan meets it. -/
def line (items : List Item) : List Item := if back then items.reverse else items

/-- What is before a cursor in the direction of a scan. -/
def onward (cursor : ListCursor Item) : List Item :=
  if back then cursor.behind else cursor.ahead

/-- The first item with a property in the direction of a scan. -/
def seek (property : Item → Bool) (items : List Item) : Option (ListCursor Item) :=
  if back then last property items else first property items

/-- One step in the direction of a scan. -/
def move (cursor : ListCursor Item) : Option (ListCursor Item) :=
  if back then cursor.prev else cursor.next

/-- The cursor stands on the head of a list and has the tail before it. -/
def Stands (cursor : Option (ListCursor Item)) (items : List Item) : Prop :=
  cursor.elim (items = []) fun cursor ↦ items = cursor.current :: cursor.onward back

end

theorem stands_next (cursor : ListCursor Item) : Stands false cursor.next cursor.ahead := by
  obtain ⟨behind, current, ahead⟩ := cursor
  cases ahead with
  | nil => rfl
  | cons item rest => rfl

theorem stands_first (property : Item → Bool) (items : List Item) :
    Stands false (first property items) (items.dropWhile fun item ↦ !property item) := by
  unfold first
  split
  · assumption
  · assumption

variable {cursor : Option (ListCursor Item)} {items : List Item} {back : Bool}
  {property found : Item → Bool}

theorem Stands.flip (hstands : Stands false cursor items) :
    Stands true (cursor.map ListCursor.flip) items := by
  cases cursor with
  | none => exact hstands
  | some cursor => exact hstands

theorem stands_seek (back : Bool) (property : Item → Bool) (items : List Item) :
    Stands back (seek back property items)
      ((line back items).dropWhile fun item ↦ !property item) := by
  cases back with
  | false => exact stands_first property items
  | true => exact (stands_first property items.reverse).flip

theorem stands_move (back : Bool) (cursor : ListCursor Item) :
    Stands back (cursor.move back) (cursor.onward back) := by
  cases back with
  | false => exact stands_next cursor
  | true => exact (stands_next cursor.flip).flip

/-- The item a scan begins at has the property. -/
theorem property_of_seek {cursor : ListCursor Item}
    (hseek : seek back property items = some cursor) :
    property cursor.current = true := by
  have hstands := stands_seek back property items
  rw [hseek] at hstands
  have hhead := List.head?_dropWhile_not (fun item ↦ !property item) (line back items)
  rw [show (line back items).dropWhile (fun item ↦ !property item) = _ from hstands] at hhead
  simpa using hhead

/-- A condition that the property implies does not change where a scan begins. -/
theorem seek_filter {stays : Item → Bool}
    (hstays : ∀ item, property item = true → stays item = true) :
    (seek back property items).filter (fun cursor ↦ stays cursor.current) =
      seek back property items := by
  cases hseek : seek back property items with
  | none => rfl
  | some cursor => simp [Option.filter, hstays _ (property_of_seek hseek)]

/-! ### What a scan delivers -/

/-- The cursor stands on the first of the items delivered, and the others are those before it up to
the first that does not stay in the scan. -/
def Delivers (back : Bool) (stays : Item → Bool) (cursor : Option (ListCursor Item))
    (items : List Item) : Prop :=
  cursor.elim (items = []) fun cursor ↦
    items = cursor.current :: (cursor.onward back).takeWhile stays

theorem Stands.delivers (hstands : Stands back cursor items) (stays : Item → Bool) :
    Delivers back stays (cursor.filter fun cursor ↦ stays cursor.current)
      (items.takeWhile stays) := by
  cases cursor with
  | none =>
    rw [show items = [] from hstands]
    rfl
  | some cursor =>
    rw [show items = _ from hstands]
    cases hstays : stays cursor.current with
    | false => simp [Delivers, Option.filter, hstays]
    | true => simp [Delivers, Option.filter, hstays]

/-! ### Scans of an ordered list -/

/-- A scan that steps over dead items finds every live item that stays. Assumes: behind an item that
does not stay no item does. -/
theorem filter_takeWhile (live stays : Item → Bool)
    (hstays : items.Pairwise fun first later ↦ stays later = true → stays first = true) :
    (items.takeWhile fun item ↦ !live item || stays item).filter live =
      items.filter fun item ↦ live item && stays item := by
  induction items with
  | nil => rfl
  | cons item items ih =>
    obtain ⟨hitem, hitems⟩ := List.pairwise_cons.mp hstays
    cases hlive : live item with
    | false => simp [hlive, ih hitems]
    | true =>
      cases hstay : stays item with
      | true => simp [hlive, hstay, ih hitems]
      | false =>
        have hnone : ∀ other ∈ items, ¬ (live other && stays other) = true := by
          intro other hother hboth
          rw [Bool.and_eq_true] at hboth
          exact Bool.false_ne_true (hstay.symm.trans (hitem other hother hboth.2))
        simp only [List.takeWhile_cons, List.filter_cons, hlive, hstay]
        simpa using hnone

/-- Items before the first with a property do not have it. -/
theorem filter_dropWhile {enters : Item → Bool} (items : List Item)
    (hfound : ∀ item, found item = true → enters item = true) :
    (items.dropWhile fun item ↦ !enters item).filter found = items.filter found := by
  induction items with
  | nil => rfl
  | cons item items ih =>
    cases henters : enters item with
    | true => simp [henters]
    | false =>
      have hnot : found item = false := by
        rw [Bool.eq_false_iff]
        intro hitem
        exact Bool.false_ne_true (henters.symm.trans (hfound item hitem))
      simp [henters, hnot, ih]

/-- Assumes: behind an item with the property every item has it. -/
theorem property_of_mem_dropWhile
    (hproperty : items.Pairwise fun first later ↦ property first = true → property later = true)
    {item : Item} (hitem : item ∈ items.dropWhile fun item ↦ !property item) :
    property item = true := by
  induction items with
  | nil => exact absurd hitem List.not_mem_nil
  | cons head items ih =>
    obtain ⟨hhead, hitems⟩ := List.pairwise_cons.mp hproperty
    cases hhas : property head with
    | false =>
      rw [List.dropWhile_cons, hhas] at hitem
      exact ih hitems hitem
    | true =>
      rw [List.dropWhile_cons, hhas] at hitem
      rcases List.mem_cons.mp hitem with rfl | htail
      · exact hhas
      · exact hhead item htail hhas

/-- A scan from the first item that enters, over dead items, up to the first live item that does not
stay. Assumes: from the first that enters on, behind an item that does not stay no item does, and
those that stay are those that are looked for. -/
theorem filter_takeWhile_dropWhile {live enters stays : Item → Bool}
    (hfound : ∀ item, found item = true → enters item = true)
    (hstays : (items.dropWhile fun item ↦ !enters item).Pairwise fun first later ↦
      stays later = true → stays first = true)
    (hsame : ∀ item ∈ items.dropWhile fun item ↦ !enters item, stays item = found item) :
    ((items.dropWhile fun item ↦ !enters item).takeWhile
      fun item ↦ !live item || stays item).filter live =
        items.filter fun item ↦ live item && found item := by
  have hboth : ∀ item, (live item && found item) = true → enters item = true := by
    intro item hitem
    rw [Bool.and_eq_true] at hitem
    exact hfound item hitem.2
  rw [filter_takeWhile live stays hstays, ← filter_dropWhile items hboth]
  exact List.filter_congr fun item hitem ↦ by rw [hsame item hitem]

end ListCursor

end TdhSocket.Library
