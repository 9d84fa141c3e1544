/-
Numbers, bits and records in areas of bytes.

`slice` loads bytes and `patch` stores them.  Records of one width lie in an area like the
elements of an array; storing one of them leaves the others alone.
-/

import Mathlib.Data.List.GetD
import Mathlib.Tactic

namespace Xv6.Library

/-! ### Little-endian numbers -/

/-- The lowest bytes of a number, the lowest one first. -/
def toBytes : Nat → Nat → List UInt8
  | 0, _ => []
  | width + 1, value => UInt8.ofNat value :: toBytes width (value / 256)

def ofBytes : List UInt8 → Nat
  | [] => 0
  | low :: rest => low.toNat + 256 * ofBytes rest

@[simp]
theorem length_toBytes (width value : Nat) : (toBytes width value).length = width := by
  induction width generalizing value with
  | zero => rfl
  | succ width ih => rw [toBytes, List.length_cons, ih]

theorem ofBytes_toBytes (width value : Nat) : ofBytes (toBytes width value) = value % 256 ^ width := by
  induction width generalizing value with
  | zero => rw [toBytes, ofBytes, pow_zero, Nat.mod_one]
  | succ width ih =>
    have split : value % (256 * 256 ^ width) = value % 256 + 256 * (value / 256 % 256 ^ width) :=
      Nat.mod_mul
    rw [toBytes, ofBytes, ih, UInt8.toNat_ofNat', pow_succ' 256 width, split]

theorem ofBytes_toBytes_of_lt {width value : Nat} (fits : value < 256 ^ width) :
    ofBytes (toBytes width value) = value := by
  rw [ofBytes_toBytes, Nat.mod_eq_of_lt fits]

theorem ofBytes_lt (bytes : List UInt8) : ofBytes bytes < 256 ^ bytes.length := by
  induction bytes with
  | nil => exact Nat.one_pos
  | cons low rest ih =>
    have small := low.toNat_lt
    rw [ofBytes, List.length_cons, pow_succ]
    omega

theorem ofBytes_replicate_zero (count : Nat) : ofBytes (List.replicate count 0) = 0 := by
  induction count with
  | zero => rfl
  | succ count ih =>
    rw [List.replicate_succ, ofBytes, ih]
    rfl

/-! ### Loading and storing bytes -/

abbrev Area : Type := Nat → UInt8

namespace Area

variable (area : Area)

def slice (start count : Nat) : List UInt8 :=
  (List.range count).map (fun i => area (start + i))

def patch (start : Nat) (data : List UInt8) : Area := fun o =>
  if start ≤ o then data.getD (o - start) (area o) else area o

@[simp]
theorem length_slice (start count : Nat) : (area.slice start count).length = count := by
  rw [slice, List.length_map, List.length_range]

@[simp]
theorem getElem_slice (start count i : Nat) (inside : i < (area.slice start count).length) :
    (area.slice start count)[i] = area (start + i) := by
  simp [slice]

theorem slice_add (start first second : Nat) :
    area.slice start (first + second) =
      area.slice start first ++ area.slice (start + first) second := by
  unfold slice
  rw [List.range_add, List.map_append, List.map_map]
  refine congrArg _ (List.map_congr_left ?_)
  intro i _
  rw [Function.comp_apply, Nat.add_assoc]

variable {start count width : Nat} {data : List UInt8}

theorem take_slice {first : Nat} (fewer : first ≤ count) :
    (area.slice start count).take first = area.slice start first := by
  obtain ⟨rest, rfl⟩ := Nat.exists_eq_add_of_le fewer
  rw [slice_add]
  exact List.take_left' (length_slice _ _ _)

theorem drop_slice (start first count : Nat) :
    (area.slice start count).drop first = area.slice (start + first) (count - first) := by
  by_cases fewer : first ≤ count
  · obtain ⟨rest, rfl⟩ := Nat.exists_eq_add_of_le fewer
    rw [slice_add, Nat.add_sub_cancel_left]
    exact List.drop_left' (length_slice _ _ _)
  · rw [List.drop_eq_nil_of_le (by rw [length_slice]; omega), Nat.sub_eq_zero_of_le (by omega)]
    rfl

theorem slice_congr {other : Area} (same : ∀ o, start ≤ o → o < start + count → area o = other o) :
    area.slice start count = other.slice start count := by
  unfold slice
  refine List.map_congr_left ?_
  intro i inside
  rw [List.mem_range] at inside
  exact same (start + i) (by omega) (by omega)

theorem patch_inside {i : Nat} (inside : i < data.length) :
    area.patch start data (start + i) = data[i] := by
  unfold patch
  rw [if_pos (Nat.le_add_right start i), Nat.add_sub_cancel_left,
    List.getD_eq_getElem _ _ inside]

theorem patch_outside {o : Nat} (outside : o < start ∨ start + data.length ≤ o) :
    area.patch start data o = area o := by
  unfold patch
  split
  · rename_i above
    exact List.getD_eq_default _ _ (by omega)
  · rfl

/-- A patched byte depends only on the old byte at its place, and inside the patch not even
on that. -/
theorem patch_congr {other : Area} {o : Nat}
    (same : o < start ∨ start + data.length ≤ o → area o = other o) :
    area.patch start data o = other.patch start data o := by
  by_cases inside : start ≤ o ∧ o < start + data.length
  · obtain ⟨i, rfl⟩ := Nat.exists_eq_add_of_le inside.1
    have bounded : i < data.length := by omega
    rw [area.patch_inside bounded, other.patch_inside bounded]
  · have outside : o < start ∨ start + data.length ≤ o := by omega
    rw [area.patch_outside outside, other.patch_outside outside, same outside]

theorem patch_append (start : Nat) (first second : List UInt8) :
    area.patch start (first ++ second) =
      (area.patch start first).patch (start + first.length) second := by
  funext o
  by_cases inFirst : start ≤ o ∧ o < start + first.length
  · obtain ⟨i, rfl⟩ := Nat.exists_eq_add_of_le inFirst.1
    have bounded : i < first.length := by omega
    have whole : i < (first ++ second).length := by
      rw [List.length_append]
      omega
    rw [area.patch_inside whole, List.getElem_append_left bounded,
      patch_outside _ (by omega), area.patch_inside bounded]
  · by_cases inSecond : start + first.length ≤ o ∧ o < start + first.length + second.length
    · obtain ⟨i, rfl⟩ := Nat.exists_eq_add_of_le inSecond.1
      have bounded : i < second.length := by omega
      have whole : first.length + i < (first ++ second).length := by
        rw [List.length_append]
        omega
      rw [patch_inside _ bounded, Nat.add_assoc, area.patch_inside whole,
        List.getElem_append_right (Nat.le_add_right _ _)]
      congr 1
      omega
    · rw [patch_outside _ (by rw [List.length_append]; omega), patch_outside _ (by omega),
        patch_outside _ (by omega)]

theorem slice_patch_self (start : Nat) (data : List UInt8) :
    (area.patch start data).slice start data.length = data := by
  apply List.ext_getElem
  · rw [length_slice]
  · intro i _ inside
    rw [getElem_slice, area.patch_inside inside]

theorem slice_patch_apart {other : Nat}
    (apart : other + count ≤ start ∨ start + data.length ≤ other) :
    (area.patch start data).slice other count = area.slice other count := by
  apply slice_congr
  intro o low high
  exact area.patch_outside (by omega)

/-- Storing bytes that start inside the first `size` bytes or right behind them. -/
theorem slice_patch_grow {size : Nat} (data : List UInt8) (inside : start ≤ size) :
    (area.patch start data).slice 0 (max size (start + data.length)) =
      (area.slice 0 size).take start ++ data ++ (area.slice 0 size).drop (start + data.length) := by
  have split : max size (start + data.length) =
      start + (data.length + (size - (start + data.length))) := by omega
  rw [split, slice_add, slice_add, Nat.zero_add, slice_patch_self,
    slice_patch_apart _ (Or.inl (by omega)), slice_patch_apart _ (Or.inr (by omega)),
    take_slice _ inside, drop_slice, Nat.zero_add, List.append_assoc]

/-! ### Arrays of records -/

def record (width k : Nat) : List UInt8 := area.slice (width * k) width

def setRecord (width k : Nat) (data : List UInt8) : Area := area.patch (width * k) data

theorem record_setRecord_self (k : Nat) (full : data.length = width) :
    (area.setRecord width k data).record width k = data := by
  unfold record setRecord
  rw [← full]
  exact area.slice_patch_self _ data

theorem record_setRecord_other {k other : Nat} (full : data.length = width) (different : k ≠ other)
    :
    (area.setRecord width k data).record width other = area.record width other := by
  unfold record setRecord
  refine area.slice_patch_apart ?_
  rw [full]
  rcases Nat.lt_or_gt_of_ne different with before | after
  · have bounded := Nat.mul_le_mul_left width (Nat.succ_le_of_lt before)
    rw [Nat.mul_succ] at bounded
    exact Or.inr bounded
  · have bounded := Nat.mul_le_mul_left width (Nat.succ_le_of_lt after)
    rw [Nat.mul_succ] at bounded
    exact Or.inl bounded

/-! ### Bits -/

def bit (i : Nat) : Bool := (area (i / 8)).toNat.testBit (i % 8)

def setBit (i : Nat) : Area :=
  area.patch (i / 8) [UInt8.ofNat ((area (i / 8)).toNat ||| 2 ^ (i % 8))]

def clearBit (i : Nat) : Area :=
  area.patch (i / 8) [UInt8.ofNat ((area (i / 8)).toNat &&& (255 ^^^ 2 ^ (i % 8)))]

theorem testBit_ofNat (value k : Nat) (low : k < 8) :
    (UInt8.ofNat value).toNat.testBit k = value.testBit k := by
  rw [UInt8.toNat_ofNat', Nat.testBit_mod_two_pow]
  simp [low]

theorem patch_one (o : Nat) (value : UInt8) (other : Nat) :
    area.patch o [value] other = if other = o then value else area other := by
  by_cases same : other = o
  · rw [if_pos same, same]
    have inside : 0 < [value].length := Nat.one_pos
    exact area.patch_inside inside
  · rw [if_neg same]
    refine area.patch_outside ?_
    rw [List.length_singleton]
    omega

theorem bit_setBit (i j : Nat) : (area.setBit i).bit j = (decide (i = j) || area.bit j) := by
  unfold bit setBit
  rw [patch_one]
  by_cases sameByte : j / 8 = i / 8
  · rw [if_pos sameByte, testBit_ofNat _ _ (Nat.mod_lt j (by omega)), Nat.testBit_or,
      Nat.testBit_two_pow, sameByte, Bool.or_comm]
    congr 1
    rw [decide_eq_decide]
    omega
  · rw [if_neg sameByte]
    have different : i ≠ j := by
      intro same
      exact sameByte (by rw [same])
    simp [different]

end Area

end Xv6.Library
