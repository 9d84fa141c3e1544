/-
A bounded first-in first-out queue kept in a circular array.

The empty queue is marked by a front and a rear of minus one, and the number of
elements is kept beside the two indices.  `Stores` relates such an array to the
list of its elements from front to rear; every operation is specified by what it
does to that list, so that clients never look at an index.
-/

import Mathlib.Tactic

namespace Xv6.Library

structure CircularQueue (Element : Type) where
  front : Int
  rear : Int
  size : Int
  cells : Int → Option Element

namespace CircularQueue

variable {Element : Type}

def empty : CircularQueue Element :=
  { front := -1, rear := -1, size := 0, cells := fun _ => none }

def isEmpty (ring : CircularQueue Element) : Bool :=
  ring.front == -1

def isFull (capacity : Nat) (ring : CircularQueue Element) : Bool :=
  ring.front == ring.rear + 1 || (ring.front == 0 && ring.rear == (capacity : Int) - 1)

def enqueue (capacity : Nat) (ring : CircularQueue Element) (item : Element) : CircularQueue Element :=
  let rear := (ring.rear + 1) % (capacity : Int)
  { front := if ring.front = -1 then 0 else ring.front
    rear := rear
    size := ring.size + 1
    cells := fun index => if index = rear then some item else ring.cells index }

/-- Taking from an empty queue reads the cell before the array. -/
def dequeue (capacity : Nat) (ring : CircularQueue Element) : Option Element × CircularQueue Element :=
  (ring.cells ring.front,
    if ring.front = ring.rear then
      { ring with front := -1, rear := -1, size := ring.size - 1 }
    else
      { ring with
        front := (ring.front + 1) % (capacity : Int)
        size := ring.size - 1 })

/-- The search for an item: all indices outside the gap when the occupied part
wraps around, else the indices from front to rear. -/
def holds [DecidableEq Element] (capacity : Nat) (ring : CircularQueue Element)
    (item : Element) : Bool :=
  if ring.rear < ring.front then
    (List.range capacity).any (fun (index : Nat) =>
      (decide (ring.front ≤ (index : Int)) || decide ((index : Int) ≤ ring.rear)) &&
        ring.cells (index : Int) == some item)
  else
    decide (0 ≤ ring.front) &&
      (List.range (ring.rear - ring.front + 1).toNat).any (fun (offset : Nat) =>
        ring.cells (ring.front + (offset : Int)) == some item)

/-- The elements from front to rear. -/
def contents (capacity : Nat) (ring : CircularQueue Element) : List Element :=
  (List.range ring.size.toNat).filterMap (fun (offset : Nat) =>
    ring.cells ((ring.front + (offset : Int)) % (capacity : Int)))

/-- The array holds exactly these items, the first at the front. -/
inductive Stores (capacity : Nat) (ring : CircularQueue Element) : List Element → Prop
  | empty (front : ring.front = -1) (rear : ring.rear = -1) (size : ring.size = 0) :
      Stores capacity ring []
  | occupied (items : List Element) (nonempty : 0 < items.length)
      (fits : items.length ≤ capacity)
      (lower : 0 ≤ ring.front) (upper : ring.front < capacity)
      (rear : ring.rear = (ring.front + items.length - 1) % (capacity : Int))
      (size : ring.size = items.length)
      (cells : ∀ offset : Nat, offset < items.length →
        ring.cells ((ring.front + offset) % (capacity : Int)) = items[offset]?) :
      Stores capacity ring items

/-! ### Positions in the array -/

private theorem position_cases {capacity front : Int} (offset : Int) (lower : 0 ≤ front)
    (upper : front < capacity) (nonnegative : 0 ≤ offset) (bounded : offset ≤ capacity) :
    (front + offset < capacity ∧ (front + offset) % capacity = front + offset) ∨
      (capacity ≤ front + offset ∧
        (front + offset) % capacity = front + offset - capacity) := by
  by_cases within : front + offset < capacity
  · exact Or.inl ⟨within, Int.emod_eq_of_lt (by omega) within⟩
  · right
    refine ⟨by omega, ?_⟩
    rw [← Int.sub_emod_right]
    exact Int.emod_eq_of_lt (by omega) (by omega)

variable {capacity : Nat} {ring : CircularQueue Element} {items : List Element}

theorem stores_empty : Stores capacity (empty : CircularQueue Element) [] :=
  Stores.empty rfl rfl rfl

theorem Stores.size_eq (stores : Stores capacity ring items) :
    ring.size = items.length := by
  cases stores with
  | empty front rear size => simpa using size
  | occupied items nonempty fits lower upper rear size cells => exact size

/-- Either the marked empty queue, or both indices inside the array and the
element count determined by their distance. -/
theorem Stores.bounds (stores : Stores capacity ring items) :
    (ring.front = -1 ∧ ring.rear = -1 ∧ ring.size = 0) ∨
      (0 ≤ ring.front ∧ ring.front < capacity ∧ 0 ≤ ring.rear ∧ ring.rear < capacity ∧
        ring.size = (ring.rear - ring.front) % (capacity : Int) + 1) := by
  cases stores with
  | empty front rear size => exact Or.inl ⟨front, rear, size⟩
  | occupied items nonempty fits lower upper rear size cells =>
    right
    have positive : (0 : Int) < capacity := by omega
    have last : (ring.front + ((items.length : Int) - 1)) % (capacity : Int) = ring.rear := by
      rw [rear]; congr 1; omega
    have distance : (ring.rear - ring.front) % (capacity : Int) = items.length - 1 := by
      rw [← last, Int.emod_sub_emod]
      rw [show ring.front + ((items.length : Int) - 1) - ring.front = items.length - 1 by omega]
      exact Int.emod_eq_of_lt (by omega) (by omega)
    refine ⟨lower, upper, ?_, ?_, by omega⟩
    · rw [rear]; exact Int.emod_nonneg _ (by omega)
    · rw [rear]; exact Int.emod_lt_of_pos _ positive

theorem Stores.isEmpty_iff (stores : Stores capacity ring items) :
    ring.isEmpty = true ↔ items = [] := by
  cases stores with
  | empty front rear size => simp [isEmpty, front]
  | occupied items nonempty fits lower upper rear size cells =>
    have marked : ring.front ≠ -1 := by omega
    have present : items ≠ [] := List.length_pos_iff.mp nonempty
    simp [isEmpty, marked, present]

theorem Stores.isFull_iff (stores : Stores capacity ring items) (positive : 0 < capacity) :
    ring.isFull capacity = true ↔ items.length = capacity := by
  simp only [isFull, Bool.or_eq_true, Bool.and_eq_true, beq_iff_eq]
  cases stores with
  | empty front rear size =>
    simp only [front, rear, List.length_nil]
    omega
  | occupied items nonempty fits lower upper rear size cells =>
    have last := position_cases ((items.length : Int) - 1) lower upper
      (by omega) (by omega)
    rw [show ring.front + ((items.length : Int) - 1) = ring.front + items.length - 1 by omega,
      ← rear] at last
    omega

private theorem positions_differ {front : Int} {first second : Nat}
    (lower : 0 ≤ front) (upper : front < capacity) (order : first < second)
    (bounded : second < capacity) :
    (front + first) % (capacity : Int) ≠ (front + second) % (capacity : Int) := by
  have firstAt := position_cases (first : Int) lower upper (by omega) (by omega)
  have secondAt := position_cases (second : Int) lower upper (by omega) (by omega)
  omega

/-! ### The operations on the stored list -/

theorem Stores.enqueue (stores : Stores capacity ring items)
    (room : items.length < capacity) (item : Element) :
    Stores capacity (ring.enqueue capacity item) (items ++ [item]) := by
  cases stores with
  | empty front rear size =>
    have positive : (0 : Int) < capacity := by simp only [List.length_nil] at room; omega
    have target : (ring.rear + 1) % (capacity : Int) = 0 := by rw [rear]; simp
    apply Stores.occupied
    · simp
    · simp only [List.length_append, List.length_nil, List.length_singleton]; omega
    · simp [CircularQueue.enqueue, front]
    · simpa [CircularQueue.enqueue, front] using positive
    · simp [CircularQueue.enqueue, front, target]
    · simp [CircularQueue.enqueue, size]
    · intro offset bounded
      have atFront : offset = 0 := by simpa using bounded
      subst offset
      simp [CircularQueue.enqueue, front, target]
  | occupied items nonempty fits lower upper rear size cells =>
    have marked : ring.front ≠ -1 := by omega
    have target : (ring.rear + 1) % (capacity : Int) =
        (ring.front + items.length) % (capacity : Int) := by
      rw [rear, Int.emod_add_emod]; congr 1; omega
    apply Stores.occupied
    · simp
    · simp only [List.length_append, List.length_singleton]; omega
    · simpa [CircularQueue.enqueue, marked] using lower
    · simpa [CircularQueue.enqueue, marked] using upper
    · simp only [CircularQueue.enqueue, marked, if_false, target, List.length_append,
        List.length_singleton]
      congr 1
      omega
    · simp [CircularQueue.enqueue, size]
    · intro offset bounded
      simp only [CircularQueue.enqueue, marked, if_false, target]
      simp only [List.length_append, List.length_singleton] at bounded
      by_cases last : offset = items.length
      · subst offset
        simp
      · have before : offset < items.length := by omega
        rw [if_neg (positions_differ lower upper before room), cells offset before,
          List.getElem?_append_left before]

theorem Stores.dequeue {item : Element} (stores : Stores capacity ring (item :: items)) :
    (ring.dequeue capacity).1 = some item ∧
      Stores capacity (ring.dequeue capacity).2 items := by
  cases stores with
  | occupied _ nonempty fits lower upper rear size cells =>
    simp only [List.length_cons, Nat.cast_add, Nat.cast_one] at fits rear size
    have atFront : ring.front % (capacity : Int) = ring.front :=
      Int.emod_eq_of_lt lower upper
    have head : ring.cells ring.front = some item := by
      have read := cells 0 (by simp)
      simpa [atFront] using read
    refine ⟨head, ?_⟩
    have last := position_cases (items.length : Int) lower upper
      (by omega) (by omega)
    rw [show ring.front + ((items.length : Int) + 1) - 1 = ring.front + items.length by omega]
      at rear
    rw [← rear] at last
    cases items with
    | nil =>
      simp only [List.length_nil, Nat.cast_zero] at last size
      have meet : ring.front = ring.rear := by omega
      rw [CircularQueue.dequeue, if_pos meet]
      exact Stores.empty rfl rfl (by simp [size])
    | cons next rest =>
      simp only [List.length_cons] at fits last
      have apart : ring.front ≠ ring.rear := by omega
      rw [CircularQueue.dequeue, if_neg apart]
      apply Stores.occupied
      · simp
      · simp only [List.length_cons]; omega
      · exact Int.emod_nonneg _ (by omega)
      · exact Int.emod_lt_of_pos _ (by omega)
      · simp only
        rw [rear, add_sub_assoc, Int.emod_add_emod]
        congr 1
        omega
      · simp only [size]; omega
      · intro offset bounded
        have shifted := cells (offset + 1) (by simpa using bounded)
        simp only [Int.emod_add_emod]
        rw [List.getElem?_cons_succ] at shifted
        rw [← shifted]
        congr 2
        push_cast
        omega

private theorem stores_cell_iff (cells : ∀ offset : Nat, offset < items.length →
      ring.cells ((ring.front + offset) % (capacity : Int)) = items[offset]?)
    (item : Element) :
    item ∈ items ↔ ∃ offset : Nat, offset < items.length ∧
      ring.cells ((ring.front + offset) % (capacity : Int)) = some item := by
  constructor
  · intro member
    obtain ⟨offset, bounded, same⟩ := List.mem_iff_getElem.mp member
    refine ⟨offset, bounded, ?_⟩
    rw [cells offset bounded, List.getElem?_eq_getElem bounded, same]
  · rintro ⟨offset, bounded, found⟩
    rw [cells offset bounded] at found
    exact List.mem_of_getElem? found

/-- The search meets every stored position and nothing else: an index outside
the gap is a unique number of places behind the front. -/
theorem Stores.holds_iff [DecidableEq Element] (stores : Stores capacity ring items)
    (item : Element) : ring.holds capacity item = true ↔ item ∈ items := by
  cases stores with
  | empty front rear size =>
    simp [holds, front, rear]
  | occupied items nonempty fits lower upper rear size cells =>
    rw [stores_cell_iff cells item]
    have last := position_cases ((items.length : Int) - 1) lower upper
      (by omega) (by omega)
    rw [show ring.front + ((items.length : Int) - 1) = ring.front + items.length - 1 by omega,
      ← rear] at last
    by_cases wrapped : ring.rear < ring.front
    · simp only [holds, wrapped, if_true, List.any_eq_true, List.mem_range,
        Bool.and_eq_true, Bool.or_eq_true, decide_eq_true_eq, beq_iff_eq]
      constructor
      · rintro ⟨index, inside, side | side, found⟩
        · refine ⟨(index - ring.front).toNat, by omega, ?_⟩
          rw [show ring.front + ((index - ring.front).toNat : Int) = index by omega,
            Int.emod_eq_of_lt (by omega) (by omega)]
          exact found
        · refine ⟨(index + capacity - ring.front).toNat, by omega, ?_⟩
          rw [show ring.front + ((index + capacity - ring.front).toNat : Int) =
            index + capacity by omega, Int.add_emod_right,
            Int.emod_eq_of_lt (by omega) (by omega)]
          exact found
      · rintro ⟨offset, bounded, found⟩
        have place := position_cases (offset : Int) lower upper
          (by omega) (by omega)
        refine ⟨((ring.front + offset) % (capacity : Int)).toNat, by omega, by omega, ?_⟩
        rw [Int.toNat_of_nonneg (by omega)]
        exact found
    · simp only [holds, wrapped, if_false, Bool.and_eq_true, decide_eq_true_eq,
        List.any_eq_true, List.mem_range, beq_iff_eq]
      constructor
      · rintro ⟨-, offset, bounded, found⟩
        refine ⟨offset, by omega, ?_⟩
        rw [Int.emod_eq_of_lt (by omega) (by omega)]
        exact found
      · rintro ⟨offset, bounded, found⟩
        refine ⟨lower, offset, by omega, ?_⟩
        rw [Int.emod_eq_of_lt (by omega) (by omega)] at found
        exact found

private theorem range_filterMap_getElem? (items : List Element) :
    (List.range items.length).filterMap (fun offset => items[offset]?) = items := by
  induction items with
  | nil => rfl
  | cons head tail ih =>
    rw [List.length_cons, List.range_succ_eq_map, List.filterMap_cons, List.filterMap_map]
    simp only [List.getElem?_cons_zero, List.cons.injEq, true_and]
    exact ih

theorem Stores.contents_eq (stores : Stores capacity ring items) :
    ring.contents capacity = items := by
  cases stores with
  | empty front rear size => simp [contents, size]
  | occupied items nonempty fits lower upper rear size cells =>
    rw [contents, size, Int.toNat_natCast]
    rw [List.filterMap_congr (g := fun (offset : Nat) => items[offset]?)]
    · exact range_filterMap_getElem? items
    · intro offset member
      exact cells offset (List.mem_range.mp member)

end CircularQueue

end Xv6.Library
