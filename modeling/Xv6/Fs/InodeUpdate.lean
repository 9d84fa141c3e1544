/-
One inode of a consistent disk is rewritten.

The blocks of the files are not touched, so that the other files keep their bytes.  The disk
stays consistent if the new inode has the blocks of the old one.
-/

import Mathlib.Tactic
import Xv6.Fs.Content

namespace Xv6.Fs.Disk

open Library

variable {disk : Disk} {sb : Superblock} {i : Nat} {d : Dinode}

theorem setDinode_block (layout : sb.Wf) (inside : i < sb.ninodes) {b : Nat}
    (above : sb.bmapstart ≤ b) : disk.setDinode sb i d b = disk b := by
  have below := Locked.inodeBlock_lt layout inside
  exact setBlock_other _ _ (by omega)

theorem Consistent.held_above (consistent : disk.Consistent sb) {place : Nat × Nat}
    (holds : held sb disk (disk.dinode sb) place ≠ 0) :
    sb.bmapstart ≤ held sb disk (disk.dinode sb) place := by
  have above := (consistent.map.range _ holds).1
  have start := Locked.bmapstart_lt_dataStart sb
  omega

theorem held_indirect (inside : i < sb.ninodes) (allocated : (disk.dinode sb i).type ≠ 0) :
    held sb disk (disk.dinode sb) (i, NDIRECT) = (disk.dinode sb i).addrs Locked.indirect := by
  have bounded : NDIRECT < SLOTS := by decide
  unfold held
  rw [if_pos ⟨inside, allocated, bounded⟩]
  rfl

theorem held_free {k : Nat} (free : (disk.dinode sb i).type = 0) :
    held sb disk (disk.dinode sb) (i, k) = 0 :=
  if_neg (fun live => live.2.1 free)

section Update

variable (consistent : disk.Consistent sb) (inside : i < sb.ninodes)

include consistent inside

theorem held_setDinode_other {j : Nat} (different : j ≠ i) (k : Nat) :
    held sb (disk.setDinode sb i d) ((disk.setDinode sb i d).dinode sb) (j, k) =
      held sb disk (disk.dinode sb) (j, k) := by
  have same : (disk.setDinode sb i d).dinode sb j = _ := dinode_setDinode_other disk d different
  unfold held
  rw [same]
  by_cases live : j < sb.ninodes ∧ (disk.dinode sb j).type ≠ 0 ∧ k < SLOTS
  · rw [if_pos live, if_pos live]
    refine slot_congr ?_ k
    intro some
    refine setDinode_block consistent.layout inside ?_
    rw [← held_indirect live.1 live.2.1] at some ⊢
    exact consistent.held_above some
  · rw [if_neg live, if_neg live]

theorem used_setDinode (b : Nat) : (disk.setDinode sb i d).used sb b = disk.used sb b :=
  used_congr _ (setDinode_block consistent.layout inside (Nat.le_add_left _ _))

theorem bytes_setDinode_other {j : Nat} (different : j ≠ i) (isInode : j < sb.ninodes)
    (allocated : (disk.dinode sb j).type ≠ 0) (file : (disk.dinode sb j).type ≠ T_DEV) :
    (disk.setDinode sb i d).bytes sb j = disk.bytes sb j := by
  unfold bytes
  rw [dinode_setDinode_other disk d different]
  refine Area.slice_congr _ ?_
  intro pos _ bounded
  rw [Nat.zero_add] at bounded
  have extent := consistent.extent j isInode allocated file
  have block := div_lt_blocksFor bounded
  have holds := (extent.data _ (lt_of_lt_of_le block extent.bound)).mpr block
  unfold content
  rw [held_setDinode_other consistent inside different,
    setDinode_block consistent.layout inside (consistent.held_above holds)]

variable (wf : d.Wf)
  (own : ∀ k, k < SLOTS →
    (if d.type = 0 then 0 else disk.slot d k) = held sb disk (disk.dinode sb) (i, k))

include wf own

theorem held_setDinode (place : Nat × Nat) :
    held sb (disk.setDinode sb i d) ((disk.setDinode sb i d).dinode sb) place =
      held sb disk (disk.dinode sb) place := by
  obtain ⟨j, k⟩ := place
  by_cases same : j = i
  · subst same
    by_cases bounded : k < SLOTS
    · rw [← own k bounded]
      unfold held
      rw [dinode_setDinode_self disk sb j wf]
      by_cases free : d.type = 0
      · rw [if_neg (fun live => live.2.1 free), if_pos free]
      · rw [if_pos ⟨inside, free, bounded⟩, if_neg free]
        refine slot_congr ?_ k
        intro some
        have indirect := own NDIRECT (by decide)
        rw [if_neg free] at indirect
        change d.addrs Locked.indirect = _ at indirect
        refine setDinode_block consistent.layout inside ?_
        rw [indirect] at some ⊢
        exact consistent.held_above some
    · unfold held
      rw [if_neg (fun live => bounded live.2.2), if_neg (fun live => bounded live.2.2)]
  · exact held_setDinode_other consistent inside same k

theorem Consistent.setDinode
    (extent : d.type ≠ 0 → d.type ≠ T_DEV →
      Extent (held sb disk (disk.dinode sb)) i (blocksFor d.size)) :
    (disk.setDinode sb i d).Consistent sb := by
  have slots := held_setDinode consistent inside wf own
  have used := used_setDinode (d := d) consistent inside
  refine ⟨consistent.layout, consistent.map.congr (fun b _ => used b) slots, ?_⟩
  have sameSlots : held sb (disk.setDinode sb i d) ((disk.setDinode sb i d).dinode sb) =
      held sb disk (disk.dinode sb) := funext slots
  rw [sameSlots]
  intro j isInode
  by_cases same : j = i
  · rw [same, dinode_setDinode_self disk sb i wf]
    exact extent
  · rw [dinode_setDinode_other disk d same]
    exact consistent.extent j isInode

end Update

theorem slot_of_empty {k : Nat} (empty : ∀ k, d.addrs k = 0) : disk.slot d k = 0 := by
  unfold slot
  split
  · exact empty _
  · rw [if_pos (empty _)]

theorem Consistent.fill (consistent : disk.Consistent sb) (inside : i < sb.ninodes)
    (free : (disk.dinode sb i).type = 0) (wf : d.Wf) (size : d.size = 0)
    (empty : ∀ k, d.addrs k = 0) : (disk.setDinode sb i d).Consistent sb := by
  refine consistent.setDinode inside wf ?_ ?_
  · intro k _
    rw [held_free free, slot_of_empty empty, ite_self]
  · intro _ _
    rw [size]
    refine ⟨Nat.zero_le _, ?_, ?_⟩
    · intro n _
      rw [held_free free]
      exact iff_of_false (fun differs => differs rfl) (Nat.not_lt_zero n)
    · rw [held_free free]
      exact iff_of_false (fun differs => differs rfl) (Nat.not_lt_zero _)

theorem Consistent.own_of_addrs (inside : i < sb.ninodes)
    (allocated : (disk.dinode sb i).type ≠ 0) (type : d.type ≠ 0)
    (addrs : d.addrs = (disk.dinode sb i).addrs) (k : Nat) (bounded : k < SLOTS) :
    (if d.type = 0 then 0 else disk.slot d k) = held sb disk (disk.dinode sb) (i, k) := by
  unfold held
  rw [if_neg type, if_pos ⟨inside, allocated, bounded⟩]
  unfold slot
  rw [addrs]

end Xv6.Fs.Disk
