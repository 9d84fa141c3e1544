/-
Reference counts.

The cells of a table point to targets, and code that is running holds further references
in its hands.  Counts are balanced when each is the number of both.  References move
between the hands and the table, are duplicated and are dropped.
-/

import Mathlib.Algebra.Order.BigOperators.Group.Finset
import Mathlib.Data.Multiset.Count
import Mathlib.Tactic.Ring

namespace Xv6.Library

open Function

variable {Index Target : Type} [Fintype Index] [DecidableEq Target]

/-- The number of cells that point to a target. -/
@[irreducible]
def pointers (table : Index → Option Target) (target : Target) : Nat :=
  ∑ i, if table i = some target then 1 else 0

theorem pointers_update [DecidableEq Index] (table : Index → Option Target) (i : Index)
    (cell : Option Target) (target : Target) :
    pointers (update table i cell) target + (if table i = some target then 1 else 0) =
      pointers table target + (if cell = some target then 1 else 0) := by
  unfold pointers
  have rest : ∑ j ∈ Finset.univ.erase i,
        (if update table i cell j = some target then 1 else 0) =
      ∑ j ∈ Finset.univ.erase i, (if table j = some target then 1 else 0) := by
    apply Finset.sum_congr rfl
    intro j inside
    rw [update_of_ne (Finset.ne_of_mem_erase inside)]
  rw [← Finset.add_sum_erase Finset.univ _ (Finset.mem_univ i),
    ← Finset.add_sum_erase Finset.univ _ (Finset.mem_univ i), update_self, rest]
  ring

theorem pointers_pos {table : Index → Option Target} {i : Index} {target : Target}
    (cell : table i = some target) : 0 < pointers table target := by
  unfold pointers
  apply Finset.sum_pos'
  · exact fun _ _ => Nat.zero_le _
  · refine ⟨i, Finset.mem_univ i, ?_⟩
    rw [if_pos cell]
    exact Nat.one_pos

theorem exists_cell_of_pointers {table : Index → Option Target} {target : Target}
    (some_cell : pointers table target ≠ 0) : ∃ i, table i = some target := by
  unfold pointers at some_cell
  obtain ⟨i, _, found⟩ := Finset.exists_ne_zero_of_sum_ne_zero some_cell
  exact ⟨i, of_not_not (fun missing => found (if_neg missing))⟩

def Balanced (refs : Target → Nat) (table : Index → Option Target) (hand : Multiset Target) :
    Prop :=
  ∀ target, refs target = pointers table target + hand.count target

namespace Balanced

variable {refs : Target → Nat} {table : Index → Option Target} {hand : Multiset Target}
  {target : Target} {i : Index}

theorem pos_of_cell (balanced : Balanced refs table hand) (cell : table i = some target) :
    0 < refs target := by
  rw [balanced target]
  exact Nat.add_pos_left (pointers_pos cell) _

theorem pos_of_hand (balanced : Balanced refs table hand) (member : target ∈ hand) :
    0 < refs target := by
  rw [balanced target]
  exact Nat.add_pos_right _ (Multiset.count_pos.mpr member)

theorem dup (balanced : Balanced refs table hand) (target : Target) :
    Balanced (update refs target (refs target + 1)) table (target ::ₘ hand) := by
  intro other
  by_cases same : other = target
  · rw [same, update_self, Multiset.count_cons_self, balanced target]
    rfl
  · rw [update_of_ne same, Multiset.count_cons_of_ne same]
    exact balanced other

theorem drop (balanced : Balanced refs table (target ::ₘ hand)) :
    Balanced (update refs target (refs target - 1)) table hand := by
  intro other
  have before := balanced other
  by_cases same : other = target
  · rw [same, Multiset.count_cons_self] at before
    rw [same, update_self, before]
    rfl
  · rw [Multiset.count_cons_of_ne same] at before
    rw [update_of_ne same]
    exact before

variable [DecidableEq Index]

theorem store (balanced : Balanced refs table (target ::ₘ hand)) (empty : table i = none) :
    Balanced refs (update table i (some target)) hand := by
  intro other
  have update := pointers_update table i (some target) other
  have before := balanced other
  rw [empty, if_neg (by simp)] at update
  by_cases same : other = target
  · rw [same, Multiset.count_cons_self] at before
    rw [same, if_pos rfl] at update
    rw [same]
    omega
  · rw [Multiset.count_cons_of_ne same] at before
    rw [if_neg (fun equal => same (Option.some.inj equal).symm)] at update
    omega

theorem clear (balanced : Balanced refs table hand) (cell : table i = some target) :
    Balanced refs (update table i none) (target ::ₘ hand) := by
  intro other
  have update := pointers_update table i none other
  have before := balanced other
  rw [cell, if_neg (by simp : ¬ (none : Option Target) = some other)] at update
  by_cases same : other = target
  · rw [same, if_pos rfl] at update
    rw [same] at before ⊢
    rw [Multiset.count_cons_self]
    omega
  · rw [if_neg (fun equal => same (Option.some.inj equal).symm)] at update
    rw [Multiset.count_cons_of_ne same]
    omega

end Balanced

end Xv6.Library
