/-
Families of first-in first-out queues in which an item waits at most once.

This is the abstract counterpart of a multilevel queue: one list for each
level, and an insertion that does nothing for an item already waiting at any
level.
-/

import Mathlib.Tactic

namespace Xv6.Library

open Function

namespace LevelQueues

variable {Element : Type} {levels : Nat}

/-- The item waits at some level. -/
def Queued (levels : Nat) (queues : Nat → List Element) (item : Element) : Prop :=
  ∃ level, level < levels ∧ item ∈ queues level

instance [DecidableEq Element] (queues : Nat → List Element) (item : Element) :
    Decidable (Queued levels queues item) :=
  inferInstanceAs (Decidable (∃ level, level < levels ∧ item ∈ queues level))

/-- No item waits twice, neither at one level nor at two. -/
structure Distinct (levels : Nat) (queues : Nat → List Element) : Prop where
  nodup : ∀ level, level < levels → (queues level).Nodup
  apart : ∀ left right item, left < levels → right < levels →
    item ∈ queues left → item ∈ queues right → left = right

def enqueue [DecidableEq Element] (levels : Nat) (queues : Nat → List Element)
    (level : Nat) (item : Element) : Nat → List Element :=
  if Queued levels queues item then queues
  else update queues level (queues level ++ [item])

theorem distinct_nil : Distinct levels (fun _ => ([] : List Element)) where
  nodup := fun _ _ => List.nodup_nil
  apart := fun _ _ _ _ _ member => by cases member

theorem Distinct.replace {queues : Nat → List Element} (distinct : Distinct levels queues)
    (level : Nat) {items : List Element} (nodup : items.Nodup)
    (subset : ∀ item, item ∈ items → item ∈ queues level) :
    Distinct levels (update queues level items) := by
  have within : ∀ other item, item ∈ update queues level items other →
      item ∈ queues other := by
    intro other item member
    by_cases same : other = level
    · subst other
      rw [update_self] at member
      exact subset item member
    · rwa [update_of_ne same] at member
  constructor
  · intro other bounded
    by_cases same : other = level
    · subst other
      rwa [update_self]
    · rw [update_of_ne same]
      exact distinct.nodup other bounded
  · intro left right item leftBound rightBound inLeft inRight
    exact distinct.apart left right item leftBound rightBound
      (within left item inLeft) (within right item inRight)

section Insertion

variable [DecidableEq Element] {queues : Nat → List Element} {level : Nat} {item : Element}

theorem enqueue_of_queued (queued : Queued levels queues item) :
    enqueue levels queues level item = queues :=
  if_pos queued

theorem enqueue_of_absent (absent : ¬Queued levels queues item) :
    enqueue levels queues level item =
      update queues level (queues level ++ [item]) :=
  if_neg absent

theorem mem_enqueue (other : Nat) (found : Element) :
    found ∈ enqueue levels queues level item other ↔
      found ∈ queues other ∨
        (¬Queued levels queues item ∧ other = level ∧ found = item) := by
  by_cases queued : Queued levels queues item
  · simp [enqueue_of_queued queued, queued]
  · rw [enqueue_of_absent queued]
    by_cases same : other = level
    · subst other
      simp [queued]
    · simp [same]

theorem queued_enqueue (bounded : level < levels) (found : Element) :
    Queued levels (enqueue levels queues level item) found ↔
      Queued levels queues found ∨ found = item := by
  simp only [Queued, mem_enqueue]
  constructor
  · rintro ⟨other, inside, member | ⟨_, _, same⟩⟩
    · exact Or.inl ⟨other, inside, member⟩
    · exact Or.inr same
  · rintro (⟨other, inside, member⟩ | same)
    · exact ⟨other, inside, Or.inl member⟩
    · subst found
      by_cases queued : Queued levels queues item
      · obtain ⟨other, inside, member⟩ := queued
        exact ⟨other, inside, Or.inl member⟩
      · exact ⟨level, bounded, Or.inr ⟨queued, rfl, rfl⟩⟩

theorem Distinct.enqueue (distinct : Distinct levels queues) (bounded : level < levels) :
    Distinct levels (enqueue levels queues level item) := by
  by_cases queued : Queued levels queues item
  · rwa [enqueue_of_queued queued]
  · have absent : ∀ other, other < levels → item ∉ queues other :=
      fun other inside member => queued ⟨other, inside, member⟩
    constructor
    · intro other inside
      rw [enqueue_of_absent queued]
      by_cases same : other = level
      · subst other
        rw [update_self]
        exact (List.nodup_append_comm.mp
          (List.nodup_cons.mpr ⟨absent level bounded, distinct.nodup level bounded⟩))
      · rw [update_of_ne same]
        exact distinct.nodup other inside
    · intro left right found leftBound rightBound inLeft inRight
      rw [mem_enqueue] at inLeft inRight
      rcases inLeft with inLeft | ⟨_, atLeft, same⟩ <;>
        rcases inRight with inRight | ⟨_, atRight, same'⟩
      · exact distinct.apart left right found leftBound rightBound inLeft inRight
      · exact absurd (same' ▸ inLeft) (absent left leftBound)
      · exact absurd (same ▸ inRight) (absent right rightBound)
      · rw [atLeft, atRight]

end Insertion

/-! ### A loop that inserts -/

section Loop

variable [DecidableEq Element]

/-- Each item in turn goes to its target level, if it has one. -/
def enqueueAll (levels : Nat) (target : Element → Option Nat) :
    (Nat → List Element) → List Element → Nat → List Element
  | queues, [] => queues
  | queues, item :: rest =>
    match target item with
    | some level => enqueueAll levels target (enqueue levels queues level item) rest
    | none => enqueueAll levels target queues rest

theorem enqueueAll_congr {levels : Nat} {target target' : Element → Option Nat}
    {items : List Element} (same : ∀ item ∈ items, target item = target' item)
    (queues : Nat → List Element) :
    enqueueAll levels target queues items = enqueueAll levels target' queues items := by
  induction items generalizing queues with
  | nil => rfl
  | cons item rest ih =>
    obtain ⟨here, later⟩ := List.forall_mem_cons.mp same
    simp only [enqueueAll, here]
    cases target' item with
    | none => exact ih later queues
    | some level => exact ih later _

/-- The loop appends to each level, in order, the items that are sent there and were
in no queue at the start. -/
theorem enqueueAll_apply {levels : Nat} {target : Element → Option Nat}
    {items : List Element}
    (bounded : ∀ item ∈ items, ∀ level, target item = some level → level < levels)
    (nodup : items.Nodup) (queues : Nat → List Element) (level : Nat) :
    enqueueAll levels target queues items level =
      queues level ++ items.filter (fun item =>
        decide (target item = some level ∧ ¬Queued levels queues item)) := by
  induction items generalizing queues with
  | nil => simp [enqueueAll]
  | cons item rest ih =>
    obtain ⟨boundedHere, boundedLater⟩ := List.forall_mem_cons.mp bounded
    obtain ⟨fresh, nodupRest⟩ := List.nodup_cons.mp nodup
    cases sent : target item with
    | none =>
      simp only [enqueueAll, sent]
      rw [ih boundedLater nodupRest, List.filter_cons_of_neg]
      simp [sent]
    | some chosen =>
      simp only [enqueueAll, sent]
      rw [ih boundedLater nodupRest]
      -- inserting this item does not change which of the others wait
      have unaffected : ∀ other ∈ rest,
          (Queued levels (enqueue levels queues chosen item) other ↔
            Queued levels queues other) := by
        intro other member
        rw [queued_enqueue (boundedHere chosen sent)]
        have different : other ≠ item := fun same => fresh (same ▸ member)
        simp [different]
      have sameRest : rest.filter (fun other => decide (target other = some level ∧
            ¬Queued levels (enqueue levels queues chosen item) other)) =
          rest.filter (fun other => decide (target other = some level ∧
            ¬Queued levels queues other)) := by
        apply List.filter_congr
        intro other member
        simp only [unaffected other member]
      rw [sameRest]
      by_cases queued : Queued levels queues item
      · rw [enqueue_of_queued queued, List.filter_cons_of_neg]
        simp [queued]
      · rw [enqueue_of_absent queued]
        by_cases here : level = chosen
        · subst level
          rw [update_self, List.filter_cons_of_pos (by simp [sent, queued])]
          simp
        · rw [update_of_ne here, List.filter_cons_of_neg]
          simp only [sent, Option.some.injEq, decide_eq_true_eq]
          exact fun both => here both.1.symm

end Loop

end LevelQueues

end Xv6.Library
