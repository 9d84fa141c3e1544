/-
Singly linked queues.

A head pointer and one link for every item; `none` is the null pointer.  `Chain` says that
the links lead from a pointer through the items of a list to the null pointer.  An item is
appended behind a walk along the links to the null pointer, and removed at the head.
-/

import Mathlib.Data.List.Nodup
import Mathlib.Logic.Function.Basic

namespace Xv6.Library

open Function

structure LinkedQueue (Item : Type) where
  head : Option Item := none
  next : Item → Option Item := fun _ => none

namespace LinkedQueue

variable {Item : Type}

/-- The pointer leads through the items of the list to the null pointer. -/
def Chain (next : Item → Option Item) : Option Item → List Item → Prop
  | pointer, [] => pointer = none
  | pointer, item :: rest => pointer = some item ∧ Chain next (next item) rest

/-- The walk `for(pp = &head; *pp; pp = &(*pp)->next)`: the place of the null pointer, which
is `none` for the head.  There is no result if the walk does not end. -/
def lastPlace (next : Item → Option Item) : Nat → Option Item → Option Item → Option (Option Item)
  | 0, _, _ => none
  | _ + 1, place, none => some place
  | fuel + 1, _, some item => lastPlace next fuel (some item) (next item)

section Operations

variable [DecidableEq Item]

/-- The place gets a pointer to the item. -/
def link (queue : LinkedQueue Item) : Option Item → Item → LinkedQueue Item
  | none, item => { queue with head := some item }
  | some place, item => { queue with next := update queue.next place (some item) }

/-- The item is appended: its own link is cleared, and the null pointer is made to point to
it. -/
def append (queue : LinkedQueue Item) (fuel : Nat) (item : Item) : Option (LinkedQueue Item) :=
  let queue := { queue with next := update queue.next item none }
  (lastPlace queue.next fuel none queue.head).map (fun place => queue.link place item)

end Operations

/-- The head is removed. -/
def pop (queue : LinkedQueue Item) (item : Item) : LinkedQueue Item :=
  { queue with head := queue.next item }

def Holds (queue : LinkedQueue Item) (items : List Item) : Prop :=
  Chain queue.next queue.head items

variable {queue : LinkedQueue Item} {items : List Item} {item : Item} {next : Item → Option Item}
  {pointer : Option Item}

theorem Holds.head (holds : queue.Holds items) :
    queue.head = items.head? := by
  cases items with
  | nil => exact holds
  | cons item rest => exact holds.1

theorem Holds.pop {rest : List Item} (holds : queue.Holds (item :: rest)) :
    (queue.pop item).Holds rest := holds.2

theorem holds_empty : (({} : LinkedQueue Item)).Holds [] := rfl

theorem Chain.congr {other : Item → Option Item} (chain : Chain next pointer items)
    (same : ∀ item ∈ items, other item = next item) :
    Chain other pointer items := by
  induction items generalizing pointer with
  | nil => exact chain
  | cons item rest ih =>
    refine ⟨chain.1, ?_⟩
    rw [same item List.mem_cons_self]
    exact ih chain.2 fun later member => same later (List.mem_cons_of_mem _ member)

theorem Chain.lastPlace (chain : Chain next pointer items) {fuel : Nat}
    (enough : items.length < fuel) (place : Option Item) :
    LinkedQueue.lastPlace next fuel place pointer = some (items.getLast?.or place) := by
  induction items generalizing pointer fuel place with
  | nil =>
    obtain ⟨fuel, rfl⟩ := Nat.exists_eq_succ_of_ne_zero (Nat.ne_zero_of_lt enough)
    have null : pointer = none := chain
    rw [null]
    rfl
  | cons item rest ih =>
    obtain ⟨fuel, rfl⟩ := Nat.exists_eq_succ_of_ne_zero (Nat.ne_zero_of_lt enough)
    obtain ⟨here, later⟩ := chain
    rw [here, LinkedQueue.lastPlace, ih later (Nat.lt_of_succ_lt_succ enough)]
    cases rest with
    | nil => rfl
    | cons second others =>
      rw [List.getLast?_cons_cons, List.getLast?_cons]
      rfl

variable [DecidableEq Item]

theorem Chain.extend {last : Item} (chain : Chain next pointer (items ++ [last]))
    (nodup : (items ++ [last]).Nodup) (fresh : item ∉ items ++ [last]) (cleared : next item = none)
    :
    Chain (update next last (some item)) pointer (items ++ [last] ++ [item]) := by
  induction items generalizing pointer with
  | nil =>
    have different : item ≠ last := fun same => fresh (same ▸ List.mem_singleton_self last)
    refine ⟨chain.1, ?_⟩
    rw [update_self]
    refine ⟨rfl, ?_⟩
    rw [update_of_ne different]
    exact cleared
  | cons first rest ih =>
    obtain ⟨absent, later⟩ := List.nodup_cons.mp nodup
    have different : first ≠ last := by
      rintro rfl
      exact absent (List.mem_append_right _ (List.mem_singleton_self first))
    refine ⟨chain.1, ?_⟩
    rw [update_of_ne different]
    exact ih chain.2 later fun member => fresh (List.mem_cons_of_mem _ member)

theorem Holds.append (holds : queue.Holds items) (nodup : items.Nodup) (fresh : item ∉ items)
    {fuel : Nat} (enough : items.length < fuel) :
    ∃ longer, queue.append fuel item = some longer ∧ longer.Holds (items ++ [item]) := by
  have chain : Chain (update queue.next item none) queue.head items := by
    apply Chain.congr holds
    intro other member
    apply update_of_ne
    rintro rfl
    exact fresh member
  have walked := Chain.lastPlace chain enough none
  unfold LinkedQueue.append
  simp only [walked, Option.map_some]
  refine ⟨_, rfl, ?_⟩
  rcases List.eq_nil_or_concat items with rfl | ⟨before, last, rfl⟩
  · exact ⟨rfl, update_self _ _ _⟩
  · rw [List.concat_eq_append] at chain nodup fresh ⊢
    rw [List.getLast?_concat, Option.some_or]
    exact Chain.extend chain nodup fresh (update_self _ _ _)

end LinkedQueue

end Xv6.Library
