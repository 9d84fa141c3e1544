/-
One pass over a list for an item of least key.

An eligible item replaces the best one so far only if its key is strictly
smaller, so of several items with the least key the earliest wins, unless the
pass was started with one of them.
-/

import Mathlib.Tactic

namespace Xv6.Library

variable {Element : Type} (eligible : Element → Bool) (key : Element → Int)

def leastScan : Option Element → List Element → Option Element
  | best, [] => best
  | best, item :: rest =>
    if eligible item then
      match best with
      | none => leastScan (some item) rest
      | some chosen =>
        if key item < key chosen then leastScan (some item) rest
        else leastScan (some chosen) rest
    else leastScan best rest

/-- The chosen item stands in the list, is eligible, and is strictly smaller than
every eligible item before it. -/
def FirstLeast (items : List Element) (chosen : Element) : Prop :=
  ∃ before after, items = before ++ chosen :: after ∧ eligible chosen = true ∧
    ∀ item ∈ before, eligible item = true → key chosen < key item

variable {eligible key}

theorem FirstLeast.cons {item chosen : Element} {rest : List Element}
    (first : FirstLeast eligible key rest chosen)
    (larger : eligible item = true → key chosen < key item) :
    FirstLeast eligible key (item :: rest) chosen := by
  obtain ⟨before, after, split, good, smaller⟩ := first
  refine ⟨item :: before, after, ?_, good, ?_⟩
  · rw [split]
    rfl
  · exact List.forall_mem_cons.mpr ⟨larger, smaller⟩

variable (eligible key)

/-- A pass that starts with an item ends with it, or with the first eligible item
of the least key, which is then smaller than the key at the start. -/
theorem leastScan_some (first : Element) (items : List Element) :
    ∃ chosen, leastScan eligible key (some first) items = some chosen ∧
      key chosen ≤ key first ∧
      (∀ item ∈ items, eligible item = true → key chosen ≤ key item) ∧
      (chosen = first ∨
        (key chosen < key first ∧ FirstLeast eligible key items chosen)) := by
  induction items generalizing first with
  | nil => exact ⟨first, rfl, le_refl _, by simp, Or.inl rfl⟩
  | cons item rest ih =>
    by_cases candidate : eligible item = true
    · by_cases better : key item < key first
      · obtain ⟨chosen, found, least, bound, origin⟩ := ih item
        refine ⟨chosen, by simp [leastScan, candidate, better, found], by omega,
          List.forall_mem_cons.mpr ⟨fun _ => least, bound⟩, Or.inr ⟨by omega, ?_⟩⟩
        rcases origin with same | ⟨less, firstLeast⟩
        · subst chosen
          exact ⟨[], rest, rfl, candidate, by simp⟩
        · exact firstLeast.cons (fun _ => less)
      · obtain ⟨chosen, found, least, bound, origin⟩ := ih first
        refine ⟨chosen, by simp [leastScan, candidate, better, found], least,
          List.forall_mem_cons.mpr ⟨fun _ => by omega, bound⟩, ?_⟩
        rcases origin with same | ⟨less, firstLeast⟩
        · exact Or.inl same
        · exact Or.inr ⟨less, firstLeast.cons (fun _ => by omega)⟩
    · obtain ⟨chosen, found, least, bound, origin⟩ := ih first
      refine ⟨chosen, by simp [leastScan, candidate, found], least,
        List.forall_mem_cons.mpr ⟨fun fits => absurd fits candidate, bound⟩, ?_⟩
      rcases origin with same | ⟨less, firstLeast⟩
      · exact Or.inl same
      · exact Or.inr ⟨less, firstLeast.cons (fun fits => absurd fits candidate)⟩

variable {eligible key}

theorem leastScan_none {items : List Element} {chosen : Element}
    (found : leastScan eligible key none items = some chosen) :
    FirstLeast eligible key items chosen ∧
      ∀ item ∈ items, eligible item = true → key chosen ≤ key item := by
  induction items with
  | nil => cases found
  | cons item rest ih =>
    by_cases candidate : eligible item = true
    · obtain ⟨best, scanned, least, bound, origin⟩ := leastScan_some eligible key item rest
      simp only [leastScan, candidate, if_true, scanned, Option.some.injEq] at found
      subst best
      refine ⟨?_, List.forall_mem_cons.mpr ⟨fun _ => least, bound⟩⟩
      rcases origin with same | ⟨less, firstLeast⟩
      · subst chosen
        exact ⟨[], rest, rfl, candidate, by simp⟩
      · exact firstLeast.cons (fun _ => less)
    · have scanned : leastScan eligible key none rest = some chosen := by
        simpa [leastScan, candidate] using found
      obtain ⟨firstLeast, bound⟩ := ih scanned
      exact ⟨firstLeast.cons (fun fits => absurd fits candidate),
        List.forall_mem_cons.mpr ⟨fun fits => absurd fits candidate, bound⟩⟩

end Xv6.Library
