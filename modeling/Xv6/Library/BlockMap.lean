/-
Blocks of a store and the slots that refer to them.

A slot holds the number of a block, or 0.  Of the blocks below `high`, those below `low` are
always in use, and each of the others is marked as used iff a slot holds it; no two slots
hold the same block.  Allocation and freeing keep this.
-/

import Mathlib.Tactic

namespace Xv6.Library

variable {Slot : Type}

structure BlockMap (low high : Nat) (used : Nat → Bool) (held : Slot → Nat) : Prop where
  positive : 0 < low
  range : ∀ s, held s ≠ 0 → low ≤ held s ∧ held s < high
  inj : ∀ s t, held s ≠ 0 → held s = held t → s = t
  marked : ∀ b, b < high → (used b = true ↔ b < low ∨ ∃ s, held s = b)

namespace BlockMap

variable {low high : Nat} {used used' : Nat → Bool} {held held' : Slot → Nat}

theorem congr (map : BlockMap low high used held) (sameUsed : ∀ b, b < high → used' b = used b)
    (sameHeld : ∀ s, held' s = held s) : BlockMap low high used' held' := by
  obtain rfl : held' = held := funext sameHeld
  refine ⟨map.positive, map.range, map.inj, ?_⟩
  intro b bounded
  rw [sameUsed b bounded]
  exact map.marked b bounded

theorem fresh (map : BlockMap low high used held) {b : Nat} (bounded : b < high)
    (free : used b = false) : low ≤ b ∧ ∀ s, held s ≠ b := by
  have notMarked : ¬(b < low ∨ ∃ s, held s = b) := by
    rw [← map.marked b bounded, free]
    nofun
  refine ⟨?_, ?_⟩
  · by_contra below
    exact notMarked (Or.inl (not_le.mp below))
  · intro s same
    exact notMarked (Or.inr ⟨s, same⟩)

theorem used_of_held (map : BlockMap low high used held) {s : Slot} (holds : held s ≠ 0) :
    used (held s) = true :=
  (map.marked _ (map.range s holds).2).mpr (Or.inr ⟨s, rfl⟩)

/-- A free block is put into an empty slot. -/
theorem alloc (map : BlockMap low high used held) {s : Slot} {b : Nat} (empty : held s = 0)
    (bounded : b < high) (free : used b = false)
    (marks : ∀ c, c < high → used' c = (decide (b = c) || used c))
    (gives : held' s = b) (keeps : ∀ t, t ≠ s → held' t = held t) :
    BlockMap low high used' held' := by
  obtain ⟨above, unheld⟩ := map.fresh bounded free
  have positive := map.positive
  refine ⟨positive, ?_, ?_, ?_⟩
  · intro t holds
    by_cases same : t = s
    · rw [same, gives]
      exact ⟨above, bounded⟩
    · rw [keeps t same] at holds ⊢
      exact map.range t holds
  · intro t u holds equal
    by_cases first : t = s
    · by_cases second : u = s
      · rw [first, second]
      · rw [first, gives, keeps u second] at equal
        exact absurd equal.symm (unheld u)
    · by_cases second : u = s
      · rw [second, gives, keeps t first] at equal
        exact absurd equal (unheld t)
      · rw [keeps t first] at holds
        rw [keeps t first, keeps u second] at equal
        exact map.inj t u holds equal
  · intro c inside
    rw [marks c inside, Bool.or_eq_true, decide_eq_true_eq, map.marked c inside]
    constructor
    · rintro (rfl | below | ⟨t, holds⟩)
      · exact Or.inr ⟨s, gives⟩
      · exact Or.inl below
      · by_cases same : t = s
        · have zero : c = 0 := by rw [← holds, same, empty]
          exact Or.inl (by omega)
        · exact Or.inr ⟨t, by rw [keeps t same, holds]⟩
    · rintro (below | ⟨t, holds⟩)
      · exact Or.inr (Or.inl below)
      · by_cases same : t = s
        · rw [same, gives] at holds
          exact Or.inl holds
        · rw [keeps t same] at holds
          exact Or.inr (Or.inr ⟨t, holds⟩)

end BlockMap

end Xv6.Library
