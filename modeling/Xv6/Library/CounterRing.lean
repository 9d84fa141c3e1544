/-
Ring buffers addressed by counters that wrap around.

A buffer of `cap` cells is filled and emptied by two counters of `w` bits that only ever
increase, modulo `2 ^ w`; a counter addresses the cell of its remainder by `cap`.  Where
`cap` divides `2 ^ w` the wrap-around of the counters is not visible in the contents.
-/

import Mathlib.Data.BitVec
import Mathlib.Tactic.Ring

namespace Xv6.Library

open Function

section CounterRing

variable {Value : Type} {w : Nat}

/-- How far one counter is ahead of another. -/
def span (first last : BitVec w) : Nat := (last - first).toNat

/-- The values between two counters, oldest first. -/
def segment (cap : Nat) (data : Nat → Value) (first last : BitVec w) : List Value :=
  (List.range (span first last)).map (fun k => data ((first.toNat + k) % cap))

@[simp]
theorem span_self (counter : BitVec w) : span counter counter = 0 := by
  unfold span
  rw [BitVec.sub_self, BitVec.toNat_zero]

variable {first last middle : BitVec w}

theorem span_eq_zero : span first last = 0 ↔ first = last := by
  constructor
  · intro empty
    have same : last - first = 0#w := by
      apply BitVec.eq_of_toNat_eq
      rw [BitVec.toNat_zero]
      exact empty
    exact (sub_eq_zero.mp same).symm
  · intro same
    rw [same, span_self]

theorem last_toNat (first last : BitVec w) :
    last.toNat = (first.toNat + span first last) % 2 ^ w := by
  have reached : last = first + (last - first) := by ring
  conv_lhs => rw [reached]
  exact BitVec.toNat_add first (last - first)

theorem span_eq_iff {count : Nat} (small : count < 2 ^ w) :
    last = first + BitVec.ofNat w count ↔ span first last = count := by
  constructor
  · intro same
    have apart : last - first = BitVec.ofNat w count := by rw [same]; ring
    unfold span
    rw [apart, BitVec.toNat_ofNat, Nat.mod_eq_of_lt small]
  · intro same
    have apart : last - first = BitVec.ofNat w count := by
      apply BitVec.eq_of_toNat_eq
      rw [BitVec.toNat_ofNat, Nat.mod_eq_of_lt small]
      exact same
    rw [← apart]
    ring

theorem span_succ (small : span first last + 1 < 2 ^ w) :
    span first (last + 1) = span first last + 1 := by
  have apart : last + 1 - first = (last - first) + 1#w := by
    change last + 1#w - first = _
    ring
  have one : 1 < 2 ^ w := by omega
  unfold span at small ⊢
  rw [apart, BitVec.toNat_add, BitVec.toNat_ofNat, Nat.mod_eq_of_lt one, Nat.mod_eq_of_lt small]

theorem span_pred {count : Nat} (ahead : span first last = count + 1) :
    span (first + 1) last = count := by
  have bound : span first last < 2 ^ w := (last - first).isLt
  rw [ahead] at bound
  have reached := (span_eq_iff bound).mpr ahead
  apply (span_eq_iff (Nat.lt_of_succ_lt bound)).mp
  rw [reached, BitVec.ofNat_add]
  change first + (BitVec.ofNat w count + 1#w) = first + 1#w + BitVec.ofNat w count
  ring

theorem span_back (some : first ≠ last) :
    span first last = span first (last - 1) + 1 := by
  have positive : span first last ≠ 0 := fun empty => some (span_eq_zero.mp empty)
  obtain ⟨count, ahead⟩ := Nat.exists_eq_succ_of_ne_zero positive
  have bound : span first last < 2 ^ w := (last - first).isLt
  have reached := (span_eq_iff bound).mpr rfl
  rw [ahead] at bound
  have back : last - 1 = first + BitVec.ofNat w count := by
    rw [reached, ahead, Nat.succ_eq_add_one, BitVec.ofNat_add]
    change first + (BitVec.ofNat w count + 1#w) - 1#w = _
    ring
  rw [ahead, (span_eq_iff (Nat.lt_of_succ_lt bound)).mp back]

theorem span_split (inside : span first middle ≤ span first last) :
    span first last = span first middle + span middle last := by
  have whole : last - first = (middle - first) + (last - middle) := by ring
  have total : span first last = (span first middle + span middle last) % 2 ^ w := by
    unfold span
    rw [whole, BitVec.toNat_add]
  have near : span first middle < 2 ^ w := (middle - first).isLt
  have far : span middle last < 2 ^ w := (last - middle).isLt
  by_cases fits : span first middle + span middle last < 2 ^ w
  · rw [total, Nat.mod_eq_of_lt fits]
  · rw [Nat.mod_eq_sub_mod (Nat.le_of_not_lt fits), Nat.mod_eq_of_lt (by omega)] at total
    omega

variable {cap : Nat} (data : Nat → Value)

@[simp]
theorem segment_self (counter : BitVec w) : segment cap data counter counter = [] := by
  rw [segment, span_self, List.range_zero, List.map_nil]

@[simp]
theorem length_segment (first last : BitVec w) :
    (segment cap data first last).length = span first last := by
  rw [segment, List.length_map, List.length_range]

theorem cell_last (divides : cap ∣ 2 ^ w) (first last : BitVec w) :
    last.toNat % cap = (first.toNat + span first last) % cap := by
  rw [last_toNat first last, Nat.mod_mod_of_dvd _ divides]

/-- Filling the cell behind the newest value leaves the values alone, as long as not all cells
are in use. -/
theorem segment_update (divides : cap ∣ 2 ^ w) (room : span first last < cap)
    (inside : span first middle ≤ span first last) (value : Value) :
    segment cap (update data (last.toNat % cap) value) first middle =
      segment cap data first middle := by
  unfold segment
  apply List.map_congr_left
  intro k before
  have earlier := List.mem_range.mp before
  apply update_of_ne
  rw [cell_last divides first]
  intro same
  have congruent : k ≡ span first last [MOD cap] := Nat.ModEq.add_left_cancel' _ same
  have equal := Nat.ModEq.eq_of_lt_of_lt congruent (by omega) room
  omega

/-- Filling the cell behind the newest value appends to the contents, as long as not all
cells are in use. -/
theorem segment_push (divides : cap ∣ 2 ^ w) (room : span first last < cap) (wide : cap < 2 ^ w)
    (value : Value) :
    segment cap (update data (last.toNat % cap) value) first (last + 1) =
      segment cap data first last ++ [value] := by
  have kept := segment_update data divides room (Nat.le_refl _) value
  unfold segment at kept ⊢
  rw [span_succ (by omega), List.range_succ, List.map_append, List.map_singleton, kept,
    ← cell_last divides, update_self]

theorem segment_split (divides : cap ∣ 2 ^ w) (inside : span first middle ≤ span first last) :
    segment cap data first last = segment cap data first middle ++ segment cap data middle last := by
  unfold segment
  rw [span_split inside, List.range_add, List.map_append, List.map_map]
  congr 1
  apply List.map_congr_left
  intro k _
  change data ((first.toNat + (span first middle + k)) % cap) = data ((middle.toNat + k) % cap)
  congr 1
  rw [Nat.add_mod middle.toNat, cell_last divides first middle, ← Nat.add_mod, Nat.add_assoc]

theorem segment_back (divides : cap ∣ 2 ^ w) (some : first ≠ last) :
    segment cap data first last =
      segment cap data first (last - 1) ++ [data ((last - 1).toNat % cap)] := by
  unfold segment
  rw [span_back some, List.range_succ, List.map_append, List.map_singleton, ← cell_last divides]

theorem segment_pop (divides : cap ∣ 2 ^ w) (some : first ≠ last) :
    segment cap data first last =
      data (first.toNat % cap) :: segment cap data (first + 1) last := by
  have positive : span first last ≠ 0 := fun empty => some (span_eq_zero.mp empty)
  obtain ⟨count, ahead⟩ := Nat.exists_eq_succ_of_ne_zero positive
  unfold segment
  rw [span_pred ahead, ahead, List.range_succ_eq_map, List.map_cons, List.map_map,
    Nat.add_zero]
  congr 1
  apply List.map_congr_left
  intro k _
  have next := cell_last divides first (first + 1)
  have one : span first (first + 1) = 1 := by
    have bound : span first last < 2 ^ w := (last - first).isLt
    exact (span_eq_iff (by omega)).mp rfl
  rw [one] at next
  change data ((first.toNat + (k + 1)) % cap) = data (((first + 1).toNat + k) % cap)
  congr 1
  rw [Nat.add_mod ((first + 1).toNat), next, ← Nat.add_mod]
  congr 1
  omega

end CounterRing

end Xv6.Library
