/-
The block allocation invariant of the file system, and what the block layer does to it.

A slot of an inode is one of its block pointers: the direct ones, the pointer to the
indirect block, and the entries of the indirect block.  The slots of all allocated inodes
and the free map form a block map, and an inode has exactly its first blocks.  An
allocation fills one empty slot with a fresh block; a write to a data block changes no
slot.
-/

import Mathlib.Tactic
import Xv6.Fs.Blocks
import Xv6.Library.BlockMap

namespace Xv6.Fs

open Function Library Code

/-! ### Slots -/

abbrev SLOTS : Nat := MAXFILE + 1

/-- Slots 0 to 11 are direct, 12 is the indirect block and the others are its entries. -/
def Disk.slot (disk : Disk) (d : Dinode) (k : Nat) : Nat :=
  if inside : k < NDIRECT + 1 then d.addrs ⟨k, inside⟩
  else if d.addrs Locked.indirect = 0 then 0
  else disk.entry (d.addrs Locked.indirect) (k - (NDIRECT + 1))

theorem Disk.slot_congr {disk disk' : Disk} {d : Dinode}
    (block : d.addrs Locked.indirect ≠ 0 →
      disk' (d.addrs Locked.indirect) = disk (d.addrs Locked.indirect)) (k : Nat) :
    disk'.slot d k = disk.slot d k := by
  unfold Disk.slot
  by_cases direct : k < NDIRECT + 1
  · rw [dif_pos direct, dif_pos direct]
  · rw [dif_neg direct, dif_neg direct]
    by_cases none : d.addrs Locked.indirect = 0
    · rw [if_pos none, if_pos none]
    · rw [if_neg none, if_neg none]
      exact Disk.entry_congr _ _ (block none)

/-- The slot of the `n`th block of a file. -/
def blockSlot (n : Nat) : Nat := if n < NDIRECT then n else n + 1

theorem blockSlot_lt {n : Nat} (inside : n < MAXFILE) : blockSlot n < SLOTS := by
  unfold blockSlot
  simp only [MAXFILE, SLOTS, NDIRECT, NINDIRECT] at *
  split <;> omega

theorem blockSlot_ne_indirect (n : Nat) : blockSlot n ≠ NDIRECT := by
  unfold blockSlot
  simp only [NDIRECT]
  split <;> omega

theorem blockSlot_inj {n m : Nat} (same : blockSlot n = blockSlot m) : n = m := by
  unfold blockSlot at same
  simp only [NDIRECT] at same
  split at same <;> split at same <;> omega

/-- The slots of all allocated inodes, where `inode` gives the inodes. -/
def held (sb : Superblock) (disk : Disk) (inode : Nat → Dinode) (place : Nat × Nat) : Nat :=
  if place.1 < sb.ninodes ∧ (inode place.1).type ≠ 0 ∧ place.2 < SLOTS then
    disk.slot (inode place.1) place.2
  else 0

/-- `ceil(size / BSIZE)`. -/
def blocksFor (size : Nat) : Nat := (size + BSIZE - 1) / BSIZE

/-- An inode has exactly its first blocks, and the indirect block iff it needs it. -/
structure Extent (slots : Nat × Nat → Nat) (i blocks : Nat) : Prop where
  bound : blocks ≤ MAXFILE
  data : ∀ n, n < MAXFILE → (slots (i, blockSlot n) ≠ 0 ↔ n < blocks)
  indirect : slots (i, NDIRECT) ≠ 0 ↔ NDIRECT < blocks

/-- The invariant, for given inodes with given numbers of blocks. -/
structure Consistent (sb : Superblock) (disk : Disk) (inode : Nat → Dinode)
    (blocks : Nat → Nat) : Prop where
  layout : sb.Wf
  map : BlockMap sb.dataStart sb.size (disk.used sb) (held sb disk inode)
  extent : ∀ i, i < sb.ninodes → (inode i).type ≠ 0 → (inode i).type ≠ T_DEV →
    Extent (held sb disk inode) i (blocks i)

/-- The block allocation invariant of a disk whose inodes are all up to date. -/
def Disk.Consistent (disk : Disk) (sb : Superblock) : Prop :=
  Fs.Consistent sb disk (disk.dinode sb) (fun i => blocksFor (disk.dinode sb i).size)

/-- A disk whose inodes are all empty, with only the metadata marked. -/
theorem Disk.Consistent.of_empty {disk : Disk} {sb : Superblock} (layout : sb.Wf)
    (bitmap : ∀ b, b < sb.size → disk.used sb b = decide (b < sb.dataStart))
    (empty : ∀ i, i < sb.ninodes →
      (disk.dinode sb i).size = 0 ∧ ∀ k, (disk.dinode sb i).addrs k = 0) :
    disk.Consistent sb := by
  have nothing : ∀ place, held sb disk (disk.dinode sb) place = 0 := by
    intro place
    unfold held
    split
    · rename_i inside
      unfold Disk.slot
      split
      · exact (empty _ inside.1).2 _
      · rw [if_pos ((empty _ inside.1).2 _)]
    · rfl
  have positive : 0 < sb.dataStart := Nat.succ_pos _
  refine ⟨layout, ⟨positive, ?_, ?_, ?_⟩, ?_⟩
  · intro place holds
    exact absurd (nothing place) holds
  · intro place _ holds
    exact absurd (nothing place) holds
  · intro b bounded
    rw [bitmap b bounded, decide_eq_true_iff]
    constructor
    · exact Or.inl
    · rintro (below | ⟨place, same⟩)
      · exact below
      · rw [← same, nothing place]
        exact positive
  · intro i inside _ _
    have size : blocksFor (disk.dinode sb i).size = 0 := by
      rw [(empty i inside).1]
      rfl
    refine ⟨by rw [size]; omega, ?_, ?_⟩
    · intro n _
      rw [nothing, size]
      exact iff_of_false (fun differs => differs rfl) (Nat.not_lt_zero n)
    · rw [nothing, size]
      exact iff_of_false (fun differs => differs rfl) (Nat.not_lt_zero _)

/-! ### Free blocks -/

def Disk.freeBlocks (disk : Disk) (sb : Superblock) : Finset Nat :=
  (Finset.range sb.size).filter (fun b => disk.used sb b = false)

/-- The number of free blocks. -/
def Disk.free (disk : Disk) (sb : Superblock) : Nat := (disk.freeBlocks sb).card

theorem Disk.free_congr {disk disk' : Disk} {sb : Superblock}
    (same : ∀ c, c < sb.size → disk'.used sb c = disk.used sb c) :
    disk'.free sb = disk.free sb := by
  have sets : disk'.freeBlocks sb = disk.freeBlocks sb := by
    apply Finset.filter_congr
    intro c inside
    rw [same c (Finset.mem_range.mp inside)]
  unfold Disk.free
  rw [sets]

/-- The blocks that a file with so many data blocks takes: these and an indirect block. -/
def charge (blocks : Nat) : Nat := blocks + if NDIRECT < blocks then 1 else 0

theorem charge_mono {blocks more : Nat} (le : blocks ≤ more) : charge blocks ≤ charge more := by
  unfold charge
  split <;> split <;> omega

namespace Locked

variable (sb : Superblock) (inum : Nat)

/-- The locked inode stands for its copy on the disk. -/
def inode (s : Locked) : Nat → Dinode := update (s.disk.dinode sb) inum s.ip

def slots (s : Locked) : Nat × Nat → Nat := held sb s.disk (s.inode sb inum)

/-- The invariant while an inode is locked and has so many blocks. -/
structure Inv (s : Locked) (blocks : Nat) : Prop where
  consistent : Consistent sb s.disk (s.inode sb inum)
    (update (fun i => blocksFor (s.disk.dinode sb i).size) inum blocks)
  wf : s.ip.Wf
  inside : inum < sb.ninodes
  allocated : s.ip.type ≠ 0
  file : s.ip.type ≠ T_DEV

variable {sb inum} {s s' : Locked}

@[simp]
theorem inode_self : s.inode sb inum inum = s.ip := by simp [inode]

variable {i b blocks : Nat}

theorem inode_other (different : i ≠ inum) :
    s.inode sb inum i = s.disk.dinode sb i := by simp [inode, different]

namespace Inv

variable {blocks : Nat} (inv : s.Inv sb inum blocks)

include inv

theorem map : BlockMap sb.dataStart sb.size (s.disk.used sb) (s.slots sb inum) :=
  inv.consistent.map

theorem extent : Extent (s.slots sb inum) inum blocks := by
  have own := inv.consistent.extent inum inv.inside (by simpa using inv.allocated)
    (by simpa using inv.file)
  rw [update_self] at own
  exact own

theorem slot_eq {k : Nat} (bounded : k < SLOTS) :
    s.slots sb inum (inum, k) = s.disk.slot s.ip k := by
  unfold slots held
  rw [if_pos]
  · rw [inode_self]
  · exact ⟨inv.inside, by simpa using inv.allocated, bounded⟩

theorem indirect_eq : s.slots sb inum (inum, NDIRECT) = s.ip.addrs indirect := by
  rw [inv.slot_eq (by decide)]
  rfl

end Inv

/-! ### What a change leaves alone -/

/-- The other inodes, their slots and their blocks are as before. -/
structure Keeps (sb : Superblock) (inum : Nat) (s s' : Locked) : Prop where
  dinode : ∀ i, i ≠ inum → i < sb.ninodes → s'.disk.dinode sb i = s.disk.dinode sb i
  slots : ∀ i k, i ≠ inum → s'.slots sb inum (i, k) = s.slots sb inum (i, k)
  block : ∀ i k, i ≠ inum → s.slots sb inum (i, k) ≠ 0 →
    s'.disk (s.slots sb inum (i, k)) = s.disk (s.slots sb inum (i, k))

theorem Keeps.refl (s : Locked) : Keeps sb inum s s :=
  ⟨fun _ _ _ => rfl, fun _ _ _ => rfl, fun _ _ _ _ => rfl⟩

theorem Keeps.trans {s'' : Locked} (first : Keeps sb inum s s') (second : Keeps sb inum s' s'') :
    Keeps sb inum s s'' := by
  refine ⟨?_, ?_, ?_⟩
  · intro i different inside
    rw [second.dinode i different inside, first.dinode i different inside]
  · intro i k different
    rw [second.slots i k different, first.slots i k different]
  · intro i k different holds
    have same := first.slots i k different
    have later := second.block i k different (by rw [same]; exact holds)
    rw [same] at later
    rw [later, first.block i k different holds]

/-- The slots of other inodes depend only on their copies on the disk and on their indirect
blocks. -/
theorem slots_other (different : i ≠ inum)
    (dinode : i < sb.ninodes → s'.disk.dinode sb i = s.disk.dinode sb i)
    (block : s.slots sb inum (i, NDIRECT) ≠ 0 →
      s'.disk (s.slots sb inum (i, NDIRECT)) = s.disk (s.slots sb inum (i, NDIRECT))) (k : Nat) :
    s'.slots sb inum (i, k) = s.slots sb inum (i, k) := by
  unfold slots held at block ⊢
  simp only [inode_other different] at block ⊢
  by_cases inside : i < sb.ninodes
  · rw [dinode inside]
    by_cases live : i < sb.ninodes ∧ (s.disk.dinode sb i).type ≠ 0 ∧ k < SLOTS
    · rw [if_pos live, if_pos live]
      rw [if_pos ⟨live.1, live.2.1, by decide⟩] at block
      exact Disk.slot_congr block k
    · rw [if_neg live, if_neg live]
  · rw [if_neg (fun live => inside live.1), if_neg (fun live => inside live.1)]

/-! ### Layout -/

theorem bitmapBlock_lt (bounded : b < sb.size) :
    Disk.bitmapBlock sb b < sb.dataStart := by
  unfold Disk.bitmapBlock Superblock.dataStart
  have small : b / BPB ≤ sb.size / BPB := Nat.div_le_div_right (Nat.le_of_lt bounded)
  omega

theorem inodeBlock_lt (layout : sb.Wf) (bounded : i < sb.ninodes) :
    Disk.inodeBlock sb i < sb.bmapstart := by
  have room := layout.inodes
  have small : i / IPB ≤ sb.ninodes / IPB := Nat.div_le_div_right (Nat.le_of_lt bounded)
  unfold Disk.inodeBlock
  omega

theorem bmapstart_le_bitmapBlock (sb : Superblock) (b : Nat) : sb.bmapstart ≤ Disk.bitmapBlock sb b :=
  Nat.le_add_left _ _

theorem bmapstart_lt_dataStart (sb : Superblock) : sb.bmapstart < sb.dataStart := by
  unfold Superblock.dataStart
  exact Nat.lt_succ_of_le (Nat.le_add_right _ _)

/-! ### One allocation -/

/-- An empty slot of the locked inode has got a fresh block; besides it only the free map
and the indirect block may have changed. -/
structure Allocated (sb : Superblock) (inum : Nat) (s s' : Locked) (k b : Nat) : Prop where
  bounded : b < sb.size
  free : s.disk.used sb b = false
  used : ∀ c, c < sb.size → s'.disk.used sb c = (decide (b = c) || s.disk.used sb c)
  empty : s.slots sb inum (inum, k) = 0
  gives : s'.slots sb inum (inum, k) = b
  own : ∀ j, j ≠ k → s'.slots sb inum (inum, j) = s.slots sb inum (inum, j)
  ip : s'.ip = { s.ip with addrs := s'.ip.addrs }
  wf : s'.ip.Wf
  dinode : ∀ i, i < sb.ninodes → s'.disk.dinode sb i = s.disk.dinode sb i
  block : ∀ c, sb.dataStart ≤ c → c ≠ b → c ≠ s.slots sb inum (inum, NDIRECT) →
    s'.disk c = s.disk c

namespace Allocated

variable {blocks k b : Nat} (allocated : Allocated sb inum s s' k b)

include allocated

theorem unheld (map : BlockMap sb.dataStart sb.size (s.disk.used sb) (s.slots sb inum))
    (place : Nat × Nat) : s.slots sb inum place ≠ b :=
  (map.fresh allocated.bounded allocated.free).2 place

theorem keeps (map : BlockMap sb.dataStart sb.size (s.disk.used sb) (s.slots sb inum)) :
    Keeps sb inum s s' := by
  have blockOf : ∀ i j, i ≠ inum → s.slots sb inum (i, j) ≠ 0 →
      s'.disk (s.slots sb inum (i, j)) = s.disk (s.slots sb inum (i, j)) := by
    intro i j different holds
    refine allocated.block _ (map.range _ holds).1 (allocated.unheld map _) ?_
    intro same
    have place := map.inj _ _ holds same
    exact different (Prod.mk.inj place).1
  refine ⟨fun i _ => allocated.dinode i, ?_, blockOf⟩
  intro i j different
  exact slots_other different (allocated.dinode i) (blockOf i NDIRECT different) j

theorem map (map : BlockMap sb.dataStart sb.size (s.disk.used sb) (s.slots sb inum)) :
    BlockMap sb.dataStart sb.size (s'.disk.used sb) (s'.slots sb inum) := by
  refine map.alloc allocated.empty allocated.bounded allocated.free allocated.used
    allocated.gives ?_
  rintro ⟨i, j⟩ different
  by_cases same : i = inum
  · subst same
    refine allocated.own j ?_
    rintro rfl
    exact different rfl
  · exact (allocated.keeps map).slots i j same

theorem data (map : BlockMap sb.dataStart sb.size (s.disk.used sb) (s.slots sb inum)) {i j : Nat}
    (isData : j ≠ NDIRECT) (holds : s.slots sb inum (i, j) ≠ 0) :
    s'.disk (s.slots sb inum (i, j)) = s.disk (s.slots sb inum (i, j)) := by
  refine allocated.block _ (map.range _ holds).1 (allocated.unheld map _) ?_
  intro same
  exact isData (Prod.mk.inj (map.inj _ _ holds same)).2

end Allocated

/-- The disk after `balloc` has taken a block. -/
def afterBalloc (sb : Superblock) (disk : Disk) (b : Nat) : Disk :=
  (disk.setUsed sb b).setBlock b (fun _ => 0)

theorem afterBalloc_self (disk : Disk) (b : Nat) : afterBalloc sb disk b b = fun _ => 0 :=
  Disk.setBlock_self _ _ _

theorem afterBalloc_other {disk : Disk} {c : Nat} (different : c ≠ b)
    (noBitmap : c ≠ Disk.bitmapBlock sb b) : afterBalloc sb disk b c = disk c := by
  unfold afterBalloc Disk.setUsed
  rw [Disk.setBlock_other _ _ different, Disk.setBlock_other _ _ noBitmap]

theorem afterBalloc_block {disk : Disk} {c : Nat} (bounded : b < sb.size) (above : sb.dataStart ≤ c)
    (different : c ≠ b) : afterBalloc sb disk b c = disk c := by
  refine afterBalloc_other different ?_
  have below := bitmapBlock_lt bounded
  omega

theorem own_slots (inside : inum < sb.ninodes) (allocated : s.ip.type ≠ 0) (k : Nat) :
    s.slots sb inum (inum, k) = if k < SLOTS then s.disk.slot s.ip k else 0 := by
  unfold slots held
  simp only [inode_self]
  by_cases bounded : k < SLOTS
  · rw [if_pos ⟨inside, allocated, bounded⟩, if_pos bounded]
  · rw [if_neg (fun live => bounded live.2.2), if_neg bounded]

section Fresh

variable {b : Nat}
  (map : BlockMap sb.dataStart sb.size (s.disk.used sb) (s.slots sb inum))
  (bounded : b < sb.size) (free : s.disk.used sb b = false)

include map bounded free

theorem fresh_above : sb.dataStart ≤ b := (map.fresh bounded free).1

theorem fresh_ne_zero : b ≠ 0 := by
  have above := fresh_above map bounded free
  have positive := map.positive
  omega

theorem afterBalloc_used {c : Nat} (inside : c < sb.size) :
    (afterBalloc sb s.disk b).used sb c = (decide (b = c) || s.disk.used sb c) := by
  rw [← Disk.used_setUsed]
  refine Disk.used_congr _ (Disk.setBlock_other _ _ ?_)
  have below := bitmapBlock_lt inside
  have above := fresh_above map bounded free
  omega

theorem afterBalloc_dinode (layout : sb.Wf) {i : Nat} (inside : i < sb.ninodes) :
    (afterBalloc sb s.disk b).dinode sb i = s.disk.dinode sb i := by
  refine Disk.dinode_congr _ (afterBalloc_other ?_ ?_)
  · have below := inodeBlock_lt layout inside
    have start := bmapstart_lt_dataStart sb
    have above := fresh_above map bounded free
    omega
  · have below := inodeBlock_lt layout inside
    have start := bmapstart_le_bitmapBlock sb b
    omega

end Fresh

/-! ### The allocations in bmap -/

/-- The invariant without the extents, which `bmap` breaks while it allocates an indirect
block. -/
structure Base (sb : Superblock) (inum : Nat) (s : Locked) : Prop where
  layout : sb.Wf
  map : BlockMap sb.dataStart sb.size (s.disk.used sb) (s.slots sb inum)
  wf : s.ip.Wf
  inside : inum < sb.ninodes
  allocated : s.ip.type ≠ 0

theorem Inv.base (inv : s.Inv sb inum blocks) : s.Base sb inum :=
  ⟨inv.consistent.layout, inv.map, inv.wf, inv.inside, inv.allocated⟩

theorem Allocated.base {k : Nat} (allocated : Allocated sb inum s s' k b) (base : s.Base sb inum) :
    s'.Base sb inum := by
  refine ⟨base.layout, allocated.map base.map, allocated.wf, base.inside, ?_⟩
  rw [allocated.ip]
  exact base.allocated

section Pointers

variable {b : Nat} (base : s.Base sb inum) (bounded : b < sb.size)
  (free : s.disk.used sb b = false)

include base bounded free

theorem Base.pointer {i : Fin (NDIRECT + 1)} (empty : s.ip.addrs i = 0) :
    Allocated sb inum s ({ s with disk := afterBalloc sb s.disk b }.setAddr i b) i.val b := by
  have slotsOf := own_slots base.inside base.allocated
  have slotsOf' := own_slots (s := { s with disk := afterBalloc sb s.disk b }.setAddr i b)
    base.inside base.allocated
  have small : i.val < SLOTS := lt_of_lt_of_le i.isLt (by decide)
  refine ⟨bounded, free, fun c inside => afterBalloc_used base.map bounded free inside, ?_, ?_, ?_,
    rfl, ?_, fun j inside => afterBalloc_dinode base.map bounded free base.layout inside, ?_⟩
  · rw [slotsOf, if_pos small, Disk.slot, dif_pos i.isLt]
    exact empty
  · rw [slotsOf', if_pos small, Disk.slot, dif_pos i.isLt]
    simp [setAddr]
  · intro k different
    rw [slotsOf, slotsOf']
    by_cases isSlot : k < SLOTS
    · rw [if_pos isSlot, if_pos isSlot]
      unfold Disk.slot
      by_cases direct : k < NDIRECT + 1
      · rw [dif_pos direct, dif_pos direct]
        have other : (⟨k, direct⟩ : Fin (NDIRECT + 1)) ≠ i := by
          rintro rfl
          exact different rfl
        simp [setAddr, other]
      · rw [dif_neg direct, dif_neg direct]
        by_cases isIndirect : indirect = i
        · -- the new indirect block has no entries
          have none : s.ip.addrs indirect = 0 := by rw [isIndirect, empty]
          have given : (setAddr { s with disk := afterBalloc sb s.disk b } i b).ip.addrs
              indirect = b := by simp [setAddr, isIndirect]
          rw [if_pos none, given, if_neg (fresh_ne_zero base.map bounded free)]
          exact Disk.entry_of_zero _ _ (afterBalloc_self _ _)
        · have kept : (setAddr { s with disk := afterBalloc sb s.disk b } i b).ip.addrs
              indirect = s.ip.addrs indirect := by simp [setAddr, isIndirect]
          rw [kept]
          by_cases none : s.ip.addrs indirect = 0
          · rw [if_pos none, if_pos none]
          · rw [if_neg none, if_neg none]
            have isHeld : s.slots sb inum (inum, NDIRECT) = s.ip.addrs indirect := by
              rw [slotsOf, if_pos (by decide)]
              rfl
            refine Disk.entry_congr _ _ (afterBalloc_block bounded ?_ ?_)
            · rw [← isHeld]
              exact (base.map.range _ (by rw [isHeld]; exact none)).1
            · rw [← isHeld]
              exact (base.map.fresh bounded free).2 _
    · rw [if_neg isSlot, if_neg isSlot]
  · have wf := base.wf
    refine ⟨wf.type, wf.major, wf.minor, wf.nlink, wf.size, ?_⟩
    intro j
    by_cases same : j = i
    · have numbers := base.layout.numbers
      simp only [setAddr, same, update_self]
      omega
    · simp only [setAddr, update_of_ne same]
      exact wf.addrs j
  · intro c above different _
    exact afterBalloc_block bounded above different

theorem Base.entry {j : Nat} (small : j < NINDIRECT) (some : s.ip.addrs indirect ≠ 0)
    (empty : s.disk.entry (s.ip.addrs indirect) j = 0) :
    Allocated sb inum s
      { s with disk := (afterBalloc sb s.disk b).setEntry (s.ip.addrs indirect) j b }
      (NDIRECT + 1 + j) b := by
  have slotsOf := own_slots base.inside base.allocated
  have slotsOf' := own_slots
    (s := { s with disk := (afterBalloc sb s.disk b).setEntry (s.ip.addrs indirect) j b })
    base.inside base.allocated
  have isHeld : s.slots sb inum (inum, NDIRECT) = s.ip.addrs indirect := by
    rw [slotsOf, if_pos (by decide)]
    rfl
  have above : sb.dataStart ≤ s.ip.addrs indirect := by
    rw [← isHeld]
    exact (base.map.range _ (by rw [isHeld]; exact some)).1
  have notFresh : s.ip.addrs indirect ≠ b := by
    rw [← isHeld]
    exact (base.map.fresh bounded free).2 _
  have isSlot : NDIRECT + 1 + j < SLOTS := by
    simp only [NDIRECT, SLOTS, MAXFILE, NINDIRECT] at *
    omega
  have entrySlot : ∀ (disk : Disk) (k : Nat), ¬k < NDIRECT + 1 →
      disk.slot s.ip k = disk.entry (s.ip.addrs indirect) (k - (NDIRECT + 1)) := by
    intro disk k notDirect
    rw [Disk.slot, dif_neg notDirect, if_neg some]
  have notDirect : ¬NDIRECT + 1 + j < NDIRECT + 1 := by omega
  have numbers := base.layout.numbers
  refine ⟨bounded, free, ?_, ?_, ?_, ?_, rfl, base.wf, ?_, ?_⟩
  · intro c inside
    rw [← afterBalloc_used base.map bounded free inside]
    refine Disk.used_congr _ (Disk.setBlock_other _ _ ?_)
    have below := bitmapBlock_lt inside
    omega
  · rw [slotsOf, if_pos isSlot, entrySlot _ _ notDirect, Nat.add_sub_cancel_left]
    exact empty
  · rw [slotsOf', if_pos isSlot, entrySlot _ _ notDirect, Nat.add_sub_cancel_left]
    exact Disk.entry_setEntry_self _ _ _ (by omega)
  · intro k different
    rw [slotsOf, slotsOf']
    by_cases isSlot : k < SLOTS
    · rw [if_pos isSlot, if_pos isSlot]
      by_cases direct : k < NDIRECT + 1
      · rw [Disk.slot, Disk.slot, dif_pos direct, dif_pos direct]
      · rw [entrySlot _ _ direct, entrySlot _ _ direct]
        rw [Disk.entry_setEntry_other _ _ (by omega)]
        exact Disk.entry_congr _ _ (afterBalloc_block bounded above notFresh)
    · rw [if_neg isSlot, if_neg isSlot]
  · intro i inside
    rw [← afterBalloc_dinode base.map bounded free base.layout inside]
    refine Disk.dinode_congr _ (Disk.setBlock_other _ _ ?_)
    have below := inodeBlock_lt base.layout inside
    have start := bmapstart_lt_dataStart sb
    omega
  · intro c isData different notIndirect
    rw [isHeld] at notIndirect
    change (afterBalloc sb s.disk b).setBlock _ _ c = _
    rw [Disk.setBlock_other _ _ notIndirect]
    exact afterBalloc_block bounded isData different

end Pointers

/-- The only way in which an allocation can fail. -/
def Full (cause : Stop) : Prop := cause = .panic .ballocOutOfBlocks

theorem Allocated.free_succ {k : Nat} (allocated : Allocated sb inum s s' k b) :
    s'.disk.free sb + 1 = s.disk.free sb := by
  have member : b ∈ s.disk.freeBlocks sb :=
    Finset.mem_filter.mpr ⟨Finset.mem_range.mpr allocated.bounded, allocated.free⟩
  have erased : s'.disk.freeBlocks sb = (s.disk.freeBlocks sb).erase b := by
    ext c
    simp only [Disk.freeBlocks, Finset.mem_erase, Finset.mem_filter, Finset.mem_range]
    by_cases inside : c < sb.size
    · rw [allocated.used c inside, Bool.or_eq_false_iff, decide_eq_false_iff_not, eq_comm]
      tauto
    · simp only [inside, false_and, and_false]
  unfold Disk.free
  rw [erased]
  exact Finset.card_erase_add_one member

/-- The code takes so many blocks and returns with the postcondition, or there are fewer. -/
def Takes (sb : Superblock) {Value : Type} (code : Op Value) (s : Locked) (cost : Nat)
    (post : Value → Locked → Prop) : Prop :=
  code.Ends s (fun cause => Full cause ∧ s.disk.free sb < cost)
    (fun value s' => s'.disk.free sb + cost = s.disk.free sb ∧ post value s')

namespace Takes

variable {Value Result : Type} {code : Op Value} {rest : Value → Op Result} {cost more : Nat}
  {post : Value → Locked → Prop} {final : Result → Locked → Prop} {value : Value}

theorem ends (takes : Takes sb code s cost post) : code.Ends s Full post :=
  Ends.of_ran takes (fun _ _ few => few.1) (fun _ _ _ holds => holds.2)

theorem mono {weaker : Value → Locked → Prop} (takes : Takes sb code s cost post)
    (same : more = cost) (implies : ∀ value s', post value s' → weaker value s') :
    Takes sb code s more weaker := by
  rw [same]
  exact Ends.mono takes (fun value s' holds => ⟨holds.1, implies value s' holds.2⟩)

theorem bind {total : Nat} (sum : total = cost + more) (first : Takes sb code s cost post)
    (second : ∀ value middle, post value middle → Takes sb (rest value) middle more final) :
    Takes sb (code >>= rest) s total final := by
  apply Ends.bind (Ends.excuse first ?_)
  · rintro value middle ⟨paid, holds⟩
    apply Ends.of_ran (second value middle holds)
    · rintro cause _ ⟨full, few⟩
      exact ⟨full, by omega⟩
    · rintro result s' _ ⟨left, done⟩
      exact ⟨by omega, done⟩
  · rintro cause ⟨full, few⟩
    exact ⟨full, by omega⟩

theorem after (ran : code s = .ok (value, s')) (same : s'.disk.free sb = s.disk.free sb)
    (next : Takes sb (rest value) s' cost final) : Takes sb (code >>= rest) s cost final := by
  unfold Takes at next
  rw [same] at next
  exact Ends.bind_of_ok ran next

theorem of_pure (holds : post value s) : Takes sb (pure value) s 0 post :=
  Ends.of_pure ⟨rfl, holds⟩

end Takes

/-- `balloc` and the assignment of the block to an empty slot. -/
theorem balloc_takes {k : Nat} {change : Nat → Locked → Locked}
    (allocated : ∀ b, b < sb.size → s.disk.used sb b = false →
      Allocated sb inum s (change b { s with disk := afterBalloc sb s.disk b }) k b) :
    Takes sb (do let addr ← balloc sb; modify (change addr); pure addr) s 1
      (fun addr s' => Allocated sb inum s s' k addr ∧
        s' = change addr { s with disk := afterBalloc sb s.disk addr }) := by
  have short : (balloc sb).Ends s (fun cause => Full cause ∧ s.disk.free sb < 1) (fun b s' =>
      b < sb.size ∧ s.disk.used sb b = false ∧
        s' = { s with disk := afterBalloc sb s.disk b }) := by
    unfold Ends balloc
    cases found : (List.range sb.size).find? (fun b => !s.disk.used sb b) with
    | none =>
      refine ⟨rfl, Nat.lt_one_iff.mpr (Finset.card_eq_zero.mpr ?_)⟩
      apply Finset.filter_eq_empty_iff.mpr
      intro b inside unused
      have taken := List.find?_eq_none.mp found b
        (List.mem_range.mpr (Finset.mem_range.mp inside))
      rw [unused] at taken
      exact taken rfl
    | some b =>
      have free := List.find?_some found
      have inside := List.mem_range.mp (List.mem_of_find?_eq_some found)
      exact ⟨inside, by simpa using free, rfl⟩
  apply Ends.bind short
  rintro b middle ⟨bounded, free, rfl⟩
  have placed := allocated b bounded free
  exact Ends.of_ok rfl ⟨placed.free_succ, placed, rfl⟩

theorem addrOrAlloc_takes (base : s.Base sb inum) (i : Fin (NDIRECT + 1)) :
    Takes sb (addrOrAlloc sb i) s (if s.ip.addrs i = 0 then 1 else 0) (fun addr s' =>
      (s.ip.addrs i ≠ 0 ∧ addr = s.ip.addrs i ∧ s' = s) ∨
      (s.ip.addrs i = 0 ∧ Allocated sb inum s s' i.val addr ∧ s'.ip.addrs i = addr)) := by
  unfold addrOrAlloc
  apply Takes.after rfl rfl
  by_cases empty : s.ip.addrs i = 0
  · rw [if_pos empty, if_pos empty]
    apply (balloc_takes (fun b bounded free => base.pointer bounded free empty)).mono rfl
    rintro b s' ⟨allocated, rfl⟩
    exact Or.inr ⟨empty, allocated, by simp [setAddr]⟩
  · rw [if_neg empty, if_neg empty]
    exact Takes.of_pure (Or.inl ⟨empty, rfl, rfl⟩)

theorem entryOrAlloc_takes (base : s.Base sb inum) {j : Nat} (small : j < NINDIRECT)
    (some : s.ip.addrs indirect ≠ 0) :
    Takes sb (entryOrAlloc sb (s.ip.addrs indirect) j) s
      (if s.disk.entry (s.ip.addrs indirect) j = 0 then 1 else 0) (fun addr s' =>
        (s.disk.entry (s.ip.addrs indirect) j ≠ 0 ∧
          addr = s.disk.entry (s.ip.addrs indirect) j ∧ s' = s) ∨
        (s.disk.entry (s.ip.addrs indirect) j = 0 ∧
          Allocated sb inum s s' (NDIRECT + 1 + j) addr)) := by
  unfold entryOrAlloc
  apply Takes.after rfl rfl
  by_cases empty : s.disk.entry (s.ip.addrs indirect) j = 0
  · rw [if_pos empty, if_pos empty]
    apply (balloc_takes (fun b bounded free => base.entry bounded free small some empty)).mono rfl
    rintro b s' ⟨allocated, _⟩
    exact Or.inr ⟨empty, allocated⟩
  · rw [if_neg empty, if_neg empty]
    exact Takes.of_pure (Or.inl ⟨empty, rfl, rfl⟩)

theorem Inv.of_keeps {more : Nat} (inv : s.Inv sb inum blocks) (keeps : Keeps sb inum s s')
    (base : s'.Base sb inum) (file : s'.ip.type ≠ T_DEV)
    (extent : Extent (s'.slots sb inum) inum more) : s'.Inv sb inum more := by
  refine ⟨⟨base.layout, base.map, ?_⟩, base.wf, base.inside, base.allocated, file⟩
  intro i inside live isFile
  by_cases same : i = inum
  · rw [same, update_self]
    exact extent
  · rw [update_of_ne same]
    rw [inode_other same, keeps.dinode i same inside] at live isFile
    have before := inv.consistent.extent i inside (by rw [inode_other same]; exact live)
      (by rw [inode_other same]; exact isFile)
    rw [update_of_ne same] at before
    rw [keeps.dinode i same inside]
    refine ⟨before.bound, ?_, ?_⟩
    · intro n bounded
      have slot : held sb s'.disk (s'.inode sb inum) (i, blockSlot n) = _ :=
        keeps.slots i (blockSlot n) same
      rw [slot]
      exact before.data n bounded
    · have slot : held sb s'.disk (s'.inode sb inum) (i, NDIRECT) = _ :=
        keeps.slots i NDIRECT same
      rw [slot]
      exact before.indirect

/-- What `bmap` has done for block `bn` of an inode with so many blocks. -/
structure Mapped (sb : Superblock) (inum blocks bn : Nat) (s s' : Locked) (addr : Nat) :
    Prop where
  inv : s'.Inv sb inum (max blocks (bn + 1))
  addr : addr = s'.slots sb inum (inum, blockSlot bn)
  same : bn < blocks → s' = s
  keeps : Keeps sb inum s s'
  ip : s'.ip = { s.ip with addrs := s'.ip.addrs }
  dinode : s'.disk.dinode sb inum = s.disk.dinode sb inum
  data : ∀ n, n < blocks → s'.slots sb inum (inum, blockSlot n) = s.slots sb inum (inum, blockSlot n) ∧
    s'.disk (s.slots sb inum (inum, blockSlot n)) = s.disk (s.slots sb inum (inum, blockSlot n))

theorem Mapped.refl {bn : Nat} (inv : s.Inv sb inum blocks) (inside : bn < blocks) :
    Mapped sb inum blocks bn s s (s.slots sb inum (inum, blockSlot bn)) := by
  refine ⟨?_, rfl, fun _ => rfl, Keeps.refl s, rfl, rfl, fun _ _ => ⟨rfl, rfl⟩⟩
  rw [Nat.max_eq_left inside]
  exact inv

/-- The next block has been allocated. -/
theorem Mapped.next (inv : s.Inv sb inum blocks) (room : blocks < MAXFILE)
    (allocated : Allocated sb inum s s' (blockSlot blocks) b)
    (needed : NDIRECT ≤ blocks → NDIRECT < blocks) : Mapped sb inum blocks blocks s s' b := by
  have keeps := allocated.keeps inv.map
  have base := allocated.base inv.base
  have fresh := fresh_ne_zero inv.map allocated.bounded allocated.free
  have extent := inv.extent
  have file : s'.ip.type ≠ T_DEV := by
    rw [allocated.ip]
    exact inv.file
  refine ⟨?_, allocated.gives.symm, fun less => absurd less (lt_irrefl _), keeps, allocated.ip,
    allocated.dinode inum inv.inside, ?_⟩
  · rw [Nat.max_eq_right (Nat.le_succ _)]
    refine inv.of_keeps keeps base file ⟨room, ?_, ?_⟩
    · intro n bounded
      by_cases new : n = blocks
      · rw [new, allocated.gives]
        exact ⟨fun _ => Nat.lt_succ_self _, fun _ => fresh⟩
      · rw [allocated.own _ (fun same => new (blockSlot_inj same)), extent.data n bounded]
        omega
    · rw [allocated.own _ (Ne.symm (blockSlot_ne_indirect _)), extent.indirect]
      omega
  · intro n less
    have holds := (extent.data n (lt_trans less room)).mpr less
    refine ⟨allocated.own _ ?_, allocated.data inv.map (blockSlot_ne_indirect n) holds⟩
    intro same
    exact absurd (blockSlot_inj same) (Nat.ne_of_lt less)

/-- The indirect block and its first entry have been allocated. -/
theorem Mapped.first_indirect {middle : Locked} {ind : Nat} (inv : s.Inv sb inum NDIRECT)
    (first : Allocated sb inum s middle NDIRECT ind)
    (second : Allocated sb inum middle s' (blockSlot NDIRECT) b) :
    Mapped sb inum NDIRECT NDIRECT s s' b := by
  have base := first.base inv.base
  have keeps := (first.keeps inv.map).trans (second.keeps base.map)
  have fresh := fresh_ne_zero inv.map first.bounded first.free
  have freshEntry := fresh_ne_zero base.map second.bounded second.free
  have extent := inv.extent
  have ip : s'.ip = { s.ip with addrs := s'.ip.addrs } := by
    rw [second.ip, first.ip]
  have file : s'.ip.type ≠ T_DEV := by
    rw [ip]
    exact inv.file
  have own : ∀ n, n ≠ NDIRECT →
      s'.slots sb inum (inum, blockSlot n) = s.slots sb inum (inum, blockSlot n) := by
    intro n other
    rw [second.own _ (fun same => other (blockSlot_inj same)),
      first.own _ (blockSlot_ne_indirect n)]
  refine ⟨?_, second.gives.symm, fun less => absurd less (lt_irrefl _), keeps, ip, ?_, ?_⟩
  · rw [Nat.max_eq_right (Nat.le_succ _)]
    refine inv.of_keeps keeps (second.base base) file ⟨by decide, ?_, ?_⟩
    · intro n bounded
      by_cases new : n = NDIRECT
      · rw [new, second.gives]
        exact ⟨fun _ => Nat.lt_succ_self _, fun _ => freshEntry⟩
      · rw [own n new, extent.data n bounded]
        omega
    · rw [second.own _ (Ne.symm (blockSlot_ne_indirect _)), first.gives]
      exact ⟨fun _ => Nat.lt_succ_self _, fun _ => fresh⟩
  · rw [second.dinode inum inv.inside, first.dinode inum inv.inside]
  · intro n less
    have holds := (extent.data n (lt_trans less (by decide))).mpr less
    have middleSlot := first.own _ (blockSlot_ne_indirect n)
    refine ⟨own n (Nat.ne_of_lt less), ?_⟩
    have later := second.data base.map (blockSlot_ne_indirect n) (i := inum)
      (by rw [middleSlot]; exact holds)
    rw [middleSlot] at later
    rw [later, first.data inv.map (blockSlot_ne_indirect n) holds]

section Pointers

variable {bn : Nat} (inv : s.Inv sb inum blocks) (bounded : bn < MAXFILE)

include inv

theorem Inv.indirect_iff : s.ip.addrs indirect ≠ 0 ↔ NDIRECT < blocks := by
  rw [← inv.indirect_eq]
  exact inv.extent.indirect

include bounded

theorem Inv.direct_eq (direct : bn < NDIRECT) : s.slots sb inum (inum, blockSlot bn) =
    s.ip.addrs ⟨bn, Nat.lt_succ_of_lt direct⟩ := by
  have isDirect : blockSlot bn = bn := if_pos direct
  rw [inv.slot_eq (blockSlot_lt bounded), isDirect, Disk.slot, dif_pos (Nat.lt_succ_of_lt direct)]

theorem Inv.direct_iff (direct : bn < NDIRECT) :
    s.ip.addrs ⟨bn, Nat.lt_succ_of_lt direct⟩ ≠ 0 ↔ bn < blocks := by
  rw [← inv.direct_eq bounded direct]
  exact inv.extent.data bn bounded

theorem Inv.entry_eq (large : NDIRECT ≤ bn) (some : s.ip.addrs indirect ≠ 0) :
    s.slots sb inum (inum, blockSlot bn) =
      s.disk.entry (s.ip.addrs indirect) (bn - NDIRECT) := by
  have isEntry : blockSlot bn = bn + 1 := if_neg (not_lt.mpr large)
  rw [inv.slot_eq (blockSlot_lt bounded), isEntry, Disk.slot, dif_neg (by omega), if_neg some]
  congr 1

theorem Inv.entry_iff (large : NDIRECT ≤ bn) (some : s.ip.addrs indirect ≠ 0) :
    s.disk.entry (s.ip.addrs indirect) (bn - NDIRECT) ≠ 0 ↔ bn < blocks := by
  rw [← inv.entry_eq bounded large some]
  exact inv.extent.data bn bounded

end Pointers

/-- A fresh indirect block has no entries. -/
theorem Inv.first_entry {middle : Locked} {ind : Nat} (inv : s.Inv sb inum NDIRECT)
    (first : Allocated sb inum s middle NDIRECT ind) (some : middle.ip.addrs indirect ≠ 0) :
    middle.disk.entry (middle.ip.addrs indirect) 0 = 0 := by
  have base := first.base inv.base
  have bounded : NDIRECT < MAXFILE := by decide
  have own := first.own (blockSlot NDIRECT) (blockSlot_ne_indirect _)
  have empty : s.slots sb inum (inum, blockSlot NDIRECT) = 0 := by
    by_contra holds
    exact lt_irrefl _ ((inv.extent.data NDIRECT bounded).mp holds)
  rw [own_slots base.inside base.allocated, if_pos (blockSlot_lt bounded), empty, Disk.slot,
    dif_neg (by decide), if_neg some] at own
  exact own

/-- The charge of one more block. -/
theorem charge_succ (blocks : Nat) :
    charge (blocks + 1) - charge blocks = if blocks = NDIRECT then 2 else 1 := by
  unfold charge
  split <;> split <;> split <;> omega

theorem bmap_takes {bn : Nat} (inv : s.Inv sb inum blocks) (next : bn ≤ blocks)
    (bounded : bn < MAXFILE) :
    Takes sb (bmap sb bn) s (charge (max blocks (bn + 1)) - charge blocks)
      (fun addr s' => Mapped sb inum blocks bn s s' addr) := by
  have base := inv.base
  have none : bn < blocks → charge (max blocks (bn + 1)) - charge blocks = 0 := by
    intro present
    rw [Nat.max_eq_left present, Nat.sub_self]
  have one : ¬bn < blocks → bn = blocks ∧
      charge (max blocks (bn + 1)) - charge blocks = if bn = NDIRECT then 2 else 1 := by
    intro absent
    obtain rfl : bn = blocks := by omega
    rw [Nat.max_eq_right (Nat.le_succ bn), charge_succ]
    exact ⟨rfl, rfl⟩
  unfold bmap
  by_cases direct : bn < NDIRECT
  · rw [dif_pos direct]
    have isDirect : blockSlot bn = bn := if_pos direct
    have filled := inv.direct_iff bounded direct
    apply (addrOrAlloc_takes base ⟨bn, Nat.lt_succ_of_lt direct⟩).mono
    · by_cases present : bn < blocks
      · rw [none present, if_neg (filled.mpr present)]
      · rw [(one present).2, if_neg (by omega),
          if_pos (by_contra fun some => present (filled.mp some))]
    · rintro addr after (⟨some, rfl, rfl⟩ | ⟨empty, allocated, _⟩)
      · rw [← inv.direct_eq bounded direct]
        exact Mapped.refl inv (filled.mp some)
      · have last := (one (fun present => filled.mpr present empty)).1
        have placed : Allocated sb inum s after (blockSlot bn) addr := by
          rw [isDirect]
          exact allocated
        subst last
        exact Mapped.next inv bounded placed (fun large => absurd direct (not_lt.mpr large))
  · rw [dif_neg direct]
    have large := not_lt.mp direct
    have small : bn - NDIRECT < NINDIRECT := by
      simp only [MAXFILE] at bounded
      omega
    have isEntry : blockSlot bn = NDIRECT + 1 + (bn - NDIRECT) := by
      unfold blockSlot
      rw [if_neg direct]
      omega
    rw [if_pos small]
    have first := addrOrAlloc_takes base indirect
    by_cases some : s.ip.addrs indirect = 0
    · -- the file had no indirect block, so that this is its first entry
      have few : ¬NDIRECT < blocks := fun more => inv.indirect_iff.mpr more some
      obtain rfl : bn = NDIRECT := by omega
      obtain rfl : blocks = NDIRECT := by omega
      rw [if_pos some] at first
      have cost : charge (max NDIRECT (NDIRECT + 1)) - charge NDIRECT = 1 + 1 := by decide
      apply Takes.bind cost first
      rintro ind middle (⟨holds, _⟩ | ⟨_, allocated, given⟩)
      · exact absurd some holds
      · have fresh : middle.ip.addrs indirect ≠ 0 := by
          rw [given]
          exact fresh_ne_zero inv.map allocated.bounded allocated.free
        have empty := inv.first_entry allocated fresh
        rw [← given]
        apply (entryOrAlloc_takes (allocated.base base) small fresh).mono
        · rw [Nat.sub_self, if_pos empty]
        · rintro addr after (⟨filled, _⟩ | ⟨_, second⟩)
          · exact absurd empty filled
          · exact Mapped.first_indirect inv allocated second
    · have filled := inv.entry_iff bounded large some
      have more := inv.indirect_iff.mp some
      rw [if_neg some] at first
      apply Takes.bind (Nat.zero_add _).symm first
      rintro ind middle (⟨_, rfl, rfl⟩ | ⟨absent, _⟩)
      · apply (entryOrAlloc_takes base small some).mono
        · by_cases present : bn < blocks
          · rw [none present, if_neg (filled.mpr present)]
          · rw [(one present).2, if_neg (by omega),
              if_pos (by_contra fun holds => present (filled.mp holds))]
        · rintro addr after (⟨holds, rfl, rfl⟩ | ⟨empty, allocated⟩)
          · rw [← inv.entry_eq bounded large some]
            exact Mapped.refl inv (filled.mp holds)
          · have last := (one (fun present => filled.mpr present empty)).1
            subst last
            rw [← isEntry] at allocated
            exact Mapped.next inv bounded allocated (fun _ => more)
      · exact absurd absent some

theorem bmap_ends {bn : Nat} (inv : s.Inv sb inum blocks) (next : bn ≤ blocks)
    (bounded : bn < MAXFILE) :
    (bmap sb bn).Ends s Full (fun addr s' => Mapped sb inum blocks bn s s' addr) :=
  (bmap_takes inv next bounded).ends

end Locked

end Xv6.Fs
