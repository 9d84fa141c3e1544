/-
Doubly linked rings with a head node.

The links of the head and of every item are two functions; `none` is the head.  `Ring`
says that the items of a list are linked in this order, from the head around to the head
again.  Linking an item in behind the head and unlinking an item keep rings, and a walk
along the links from the head visits exactly the items of the list.
-/

import Mathlib.Data.List.Nodup
import Mathlib.Logic.Function.Basic

namespace Xv6.Library

open Function

structure Links (Item : Type) where
  next : Option Item → Option Item
  prev : Option Item → Option Item

namespace Links

variable {Item : Type}

/-- The head alone. -/
def empty : Links Item where
  next := fun _ => none
  prev := fun _ => none

/-- The same links, walked the other way. -/
def reverse (links : Links Item) : Links Item where
  next := links.prev
  prev := links.next

section Operations

variable [DecidableEq Item] (links : Links Item)

/-- The item is linked in behind the head. -/
def linkFront (item : Item) : Links Item where
  next := update (update links.next (some item) (links.next none))
    none (some item)
  prev := update (update links.prev (some item) none)
    (links.next none) (some item)

/-- Two nodes are linked to each other. -/
def join (first last : Option Item) : Links Item where
  next := update links.next first last
  prev := update links.prev last first

def unlink (item : Item) : Links Item :=
  links.join (links.prev (some item)) (links.next (some item))

theorem join_next (first last : Option Item) :
    (links.join first last).next = update links.next first last := rfl

theorem join_prev (first last : Option Item) :
    (links.join first last).prev = update links.prev last first := rfl

theorem linkFront_next (item : Item) :
    (links.linkFront item).next =
      update (update links.next (some item) (links.next none))
        none (some item) := rfl

theorem linkFront_prev (item : Item) :
    (links.linkFront item).prev =
      update (update links.prev (some item) none)
        (links.next none) (some item) := rfl

end Operations

/-- Where a walk ends: at an item that passes the test, back at the head, or nowhere within
the given number of nodes. -/
inductive Walk (Item : Type)
  | found (item : Item)
  | absent
  | stuck
  deriving DecidableEq

def walk (links : Links Item) (test : Item → Bool) : Nat → Option Item → Walk Item
  | 0, _ => .stuck
  | _ + 1, none => .absent
  | fuel + 1, some item =>
    if test item then .found item else links.walk test fuel (links.next (some item))

/-- The items lie between two nodes, linked in their order. -/
def Segment (links : Links Item) : Option Item → List Item → Option Item → Prop
  | first, [], last => links.next first = last ∧ links.prev last = first
  | first, item :: items, last =>
    (links.next first = some item ∧ links.prev (some item) = first) ∧
      Segment links (some item) items last

structure Ring (links : Links Item) (items : List Item) : Prop where
  distinct : items.Nodup
  linked : links.Segment none items none

variable {links : Links Item} {items : List Item}

theorem ring_empty : (empty : Links Item).Ring [] := ⟨List.nodup_nil, rfl, rfl⟩

/-! ### Segments -/

variable {first last : Option Item} {item : Item} {fuel : Nat}

theorem segment_append {left right : List Item} :
    links.Segment first (left ++ item :: right) last ↔
      links.Segment first left (some item) ∧ links.Segment (some item) right last := by
  induction left generalizing first with
  | nil => rfl
  | cons head left ih =>
    change _ ∧ links.Segment (some head) (left ++ item :: right) last ↔
      (_ ∧ links.Segment (some head) left (some item)) ∧ _
    rw [ih]
    exact and_assoc.symm

theorem Segment.reverse (segment : links.Segment first items last) :
    links.reverse.Segment last items.reverse first := by
  induction items generalizing first with
  | nil => exact ⟨segment.2, segment.1⟩
  | cons item items ih =>
    obtain ⟨⟨next, prev⟩, rest⟩ := segment
    rw [List.reverse_cons]
    apply segment_append.mpr
    exact ⟨ih rest, prev, next⟩

theorem Segment.congr {other : Links Item} (segment : links.Segment first items last)
    (nexts : ∀ node, node ∈ first :: items.map some → other.next node = links.next node)
    (prevs : ∀ node, node ∈ last :: items.map some → other.prev node = links.prev node) :
    other.Segment first items last := by
  induction items generalizing first with
  | nil =>
    refine ⟨?_, ?_⟩
    · rw [nexts first (List.mem_cons_self ..)]
      exact segment.1
    · rw [prevs last (List.mem_cons_self ..)]
      exact segment.2
  | cons item items ih =>
    obtain ⟨⟨next, prev⟩, rest⟩ := segment
    refine ⟨⟨?_, ?_⟩, ih rest ?_ ?_⟩
    · rw [nexts first (List.mem_cons_self ..)]
      exact next
    · rw [prevs (some item) (by simp)]
      exact prev
    · intro node member
      exact nexts node (List.mem_cons_of_mem _ member)
    · intro node member
      apply prevs node
      rcases List.mem_cons.mp member with same | inside
      · exact List.mem_cons.mpr (Or.inl same)
      · exact List.mem_cons_of_mem _ (List.mem_cons_of_mem _ inside)

theorem Segment.prev_mem (segment : links.Segment first items last) :
    links.prev last ∈ first :: items.map some := by
  induction items generalizing first with
  | nil =>
    rw [segment.2]
    exact List.mem_cons_self ..
  | cons item items ih =>
    exact List.mem_cons_of_mem _ (ih segment.2)

private theorem some_mem_map {items : List Item} :
    some item ∈ items.map some ↔ item ∈ items := by
  simp

private theorem none_not_mem_map {items : List Item} : none ∉ items.map some := by
  simp

section Operations

variable [DecidableEq Item]

theorem Segment.retarget {first last target : Option Item}
    (segment : links.Segment first items last)
    (distinct : (first :: items.map some).Nodup) (fresh : target ∉ items.map some) :
    (links.join (links.prev last) target).Segment first items target := by
  induction items generalizing first with
  | nil =>
    refine ⟨?_, ?_⟩
    · rw [segment.2, join_next, update_self]
    · rw [segment.2, join_prev, update_self]
  | cons item items ih =>
    obtain ⟨⟨next, prev⟩, rest⟩ := segment
    obtain ⟨apart, distinctRest⟩ := List.nodup_cons.mp distinct
    refine ⟨⟨?_, ?_⟩, ih rest distinctRest ?_⟩
    · have different : first ≠ links.prev last := by
        intro same
        exact apart (same ▸ rest.prev_mem)
      rw [join_next, update_of_ne different]
      exact next
    · have different : some item ≠ target := by
        intro same
        exact fresh (same ▸ List.mem_cons_self ..)
      rw [join_prev, update_of_ne different]
      exact prev
    · exact fun member => fresh (List.mem_cons_of_mem _ member)

theorem Ring.linkFront (ring : links.Ring items) {item : Item} (fresh : item ∉ items) :
    (links.linkFront item).Ring (item :: items) := by
  refine ⟨List.nodup_cons.mpr ⟨fresh, ring.distinct⟩, ⟨?_, ?_⟩, ?_⟩
  · rw [linkFront_next, update_self]
  · have apart : some item ≠ links.next none := by
      intro same
      cases items with
      | nil =>
        rw [ring.linked.1] at same
        cases same
      | cons head items =>
        rw [ring.linked.1.1, Option.some.injEq] at same
        exact fresh (same ▸ List.mem_cons_self ..)
    rw [linkFront_prev, update_of_ne apart, update_self]
  · have distinct := ring.distinct
    cases items with
    | nil =>
      refine ⟨?_, ?_⟩
      · rw [linkFront_next, update_of_ne (Option.some_ne_none item),
          update_self]
        exact ring.linked.1
      · rw [linkFront_prev, ring.linked.1, update_self]
    | cons head items =>
      obtain ⟨⟨next, prev⟩, rest⟩ := ring.linked
      obtain ⟨notAgain, _⟩ := List.nodup_cons.mp distinct
      refine ⟨⟨?_, ?_⟩, rest.congr ?_ ?_⟩
      · rw [linkFront_next, update_of_ne (Option.some_ne_none item),
          update_self]
        exact next
      · rw [linkFront_prev, next, update_self]
      · -- Neither the new item nor the head is a source of the remaining links.
        intro node member
        have inside : node ∈ (head :: items).map some := member
        have notHead : node ≠ none := fun same => none_not_mem_map (same ▸ inside)
        have notItem : node ≠ some item :=
          fun same => fresh (some_mem_map.mp (same ▸ inside))
        rw [linkFront_next, update_of_ne notHead, update_of_ne notItem]
      · intro node member
        have notFirst : node ≠ links.next none := by
          intro same
          rw [next] at same
          rw [same] at member
          rcases List.mem_cons.mp member with impossible | inside
          · cases impossible
          · exact notAgain (some_mem_map.mp inside)
        have notItem : node ≠ some item := by
          intro same
          rw [same] at member
          rcases List.mem_cons.mp member with impossible | inside
          · cases impossible
          · exact fresh (List.mem_cons_of_mem _ (some_mem_map.mp inside))
        rw [linkFront_prev, update_of_ne notFirst, update_of_ne notItem]

theorem Ring.unlink_split {before after : List Item} {item : Item}
    (ring : links.Ring (before ++ item :: after)) :
    (links.unlink item).Ring (before ++ after) := by
  obtain ⟨left, right⟩ := segment_append.mp ring.linked
  have distinct := ring.distinct
  rw [List.nodup_append] at distinct
  obtain ⟨distinctBefore, distinctAfter, disjoint⟩ := distinct
  obtain ⟨notAfter, distinctRest⟩ := List.nodup_cons.mp distinctAfter
  have path : (none :: before.map some).Nodup :=
    List.nodup_cons.mpr ⟨none_not_mem_map,
      distinctBefore.map (fun _ _ same => Option.some.inj same)⟩
  refine ⟨?_, ?_⟩
  · exact ((List.sublist_cons_self item after).append_left before).nodup ring.distinct
  · cases after with
    | nil =>
      rw [List.append_nil]
      unfold unlink
      rw [right.1]
      exact left.retarget path none_not_mem_map
    | cons head after =>
      obtain ⟨⟨next, prev⟩, rest⟩ := right
      have notBefore : head ∉ before := fun member =>
        disjoint head member head (List.mem_cons_of_mem _ (List.mem_cons_self ..)) rfl
      apply segment_append.mpr
      refine ⟨?_, rest.congr ?_ ?_⟩
      · unfold unlink
        rw [next]
        exact left.retarget path (fun member => notBefore (some_mem_map.mp member))
      · intro node member
        apply update_of_ne
        intro same
        have source := left.prev_mem
        rw [← same] at source
        have inside : node ∈ (head :: after).map some := member
        rcases List.mem_cons.mp source with atHead | earlier
        · exact none_not_mem_map (atHead ▸ inside)
        · obtain ⟨common, isBefore, rfl⟩ := List.mem_map.mp earlier
          exact disjoint common isBefore common
            (List.mem_cons_of_mem _ (some_mem_map.mp inside)) rfl
      · intro node member
        apply update_of_ne
        intro same
        rw [next] at same
        rw [same] at member
        rcases List.mem_cons.mp member with impossible | inside
        · cases impossible
        · exact (List.nodup_cons.mp distinctRest).1 (some_mem_map.mp inside)

theorem Ring.unlink (ring : links.Ring items) {item : Item} (member : item ∈ items) :
    (links.unlink item).Ring (items.erase item) := by
  obtain ⟨before, after, notBefore, split, erased⟩ := List.exists_erase_eq member
  rw [erased]
  rw [split] at ring
  exact ring.unlink_split

end Operations

/-! ### Walks -/

theorem Ring.reverse (ring : links.Ring items) : links.reverse.Ring items.reverse :=
  ⟨List.nodup_reverse.mpr ring.distinct, ring.linked.reverse⟩

theorem Segment.walk (segment : links.Segment first items none) (test : Item → Bool)
    (enough : items.length < fuel) :
    links.walk test fuel (links.next first) =
      match items.find? test with
      | some item => .found item
      | none => .absent := by
  induction items generalizing first fuel with
  | nil =>
    obtain ⟨less, rfl⟩ := Nat.exists_eq_succ_of_ne_zero (Nat.ne_of_gt enough)
    rw [segment.1]
    rfl
  | cons item items ih =>
    obtain ⟨less, rfl⟩ := Nat.exists_eq_succ_of_ne_zero (Nat.ne_of_gt (Nat.zero_lt_of_lt enough))
    obtain ⟨⟨next, _⟩, rest⟩ := segment
    rw [next, Links.walk]
    cases passed : test item with
    | true => rw [if_pos rfl, List.find?_cons_of_pos passed]
    | false =>
      rw [if_neg Bool.false_ne_true, List.find?_cons_of_neg (Bool.eq_false_iff.mp passed)]
      exact ih rest (Nat.lt_of_succ_lt_succ enough)

theorem Ring.walk_found (ring : links.Ring items) {test : Item → Bool}
    (enough : items.length < fuel) (walked : links.walk test fuel (links.next none) = .found item) :
    test item = true := by
  rw [ring.linked.walk test enough] at walked
  cases search : items.find? test with
  | none =>
    rw [search] at walked
    cases walked
  | some first =>
    rw [search] at walked
    cases walked
    exact List.find?_some search

theorem Ring.walk_absent (ring : links.Ring items) {test : Item → Bool}
    (enough : items.length < fuel) (walked : links.walk test fuel (links.next none) = .absent) :
    ∀ item, item ∈ items → test item = false := by
  rw [ring.linked.walk test enough] at walked
  intro item member
  cases search : items.find? test with
  | none => exact Bool.eq_false_iff.mpr (List.find?_eq_none.mp search item member)
  | some first =>
    rw [search] at walked
    cases walked

end Links

end Xv6.Library
