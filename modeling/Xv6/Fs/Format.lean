/-
The format of the disk (`fs.h`), as `mkfs.c` and the kernel share it.

A block is an area of bytes.  On-disk inodes, directory entries, block numbers in an
indirect block and the bits of the free map are stored in the byte order of the x86; each
has a load, a store, and the laws that connect them.
-/

import Mathlib.Tactic
import Xv6.Library.Bytes
import Xv6.Library.CStrings

namespace Xv6.Fs

open Library

abbrev BSIZE : Nat := 512

abbrev ROOTINO : Nat := 1

abbrev NDIRECT : Nat := 12

/-- `BSIZE / sizeof(uint)`. -/
abbrev NINDIRECT : Nat := 128

abbrev MAXFILE : Nat := NDIRECT + NINDIRECT

/-- Inodes per block. -/
abbrev IPB : Nat := 8

/-- Bitmap bits per block. -/
abbrev BPB : Nat := BSIZE * 8

abbrev DIRSIZ : Nat := 14

abbrev T_DIR : Nat := 1

abbrev T_FILE : Nat := 2

abbrev T_DEV : Nat := 3

structure Superblock where
  size : Nat
  nblocks : Nat
  ninodes : Nat
  nlog : Nat
  logstart : Nat
  inodestart : Nat
  bmapstart : Nat
  deriving DecidableEq

/-- The first block behind the free map. -/
def Superblock.dataStart (sb : Superblock) : Nat := sb.bmapstart + sb.size / BPB + 1

/-- The inode blocks come before the free map and behind the super block, and all block
numbers fit into a `uint`. -/
structure Superblock.Wf (sb : Superblock) : Prop where
  super : 1 < sb.inodestart
  inodes : sb.inodestart + sb.ninodes / IPB < sb.bmapstart
  numbers : sb.size < 2 ^ 32

namespace Superblock

/-- `struct superblock`. -/
def bytes (sb : Superblock) : List UInt8 :=
  toBytes 4 sb.size ++ (toBytes 4 sb.nblocks ++ (toBytes 4 sb.ninodes ++ (toBytes 4 sb.nlog ++
    (toBytes 4 sb.logstart ++ (toBytes 4 sb.inodestart ++ toBytes 4 sb.bmapstart)))))

def ofRecord (bytes : List UInt8) : Superblock where
  size := ofBytes (bytes.take 4)
  nblocks := ofBytes ((bytes.drop 4).take 4)
  ninodes := ofBytes ((bytes.drop 8).take 4)
  nlog := ofBytes ((bytes.drop 12).take 4)
  logstart := ofBytes ((bytes.drop 16).take 4)
  inodestart := ofBytes ((bytes.drop 20).take 4)
  bmapstart := ofBytes ((bytes.drop 24).take 4)

end Superblock

/-! ### On-disk inodes -/

/-- `struct dinode`, which is also what an in-memory inode copies of it. -/
structure Dinode where
  type : Nat := 0
  major : Nat := 0
  minor : Nat := 0
  nlink : Nat := 0
  size : Nat := 0
  addrs : Fin (NDIRECT + 1) → Nat := fun _ => 0

namespace Dinode

/-- All fields fit into their `short`s and `uint`s. -/
structure Wf (d : Dinode) : Prop where
  type : d.type < 2 ^ 16
  major : d.major < 2 ^ 16
  minor : d.minor < 2 ^ 16
  nlink : d.nlink < 2 ^ 16
  size : d.size < 2 ^ 32
  addrs : ∀ i, d.addrs i < 2 ^ 32

/-- The 64 bytes of an inode. -/
def bytes (d : Dinode) : List UInt8 :=
  toBytes 2 d.type ++ (toBytes 2 d.major ++ (toBytes 2 d.minor ++ (toBytes 2 d.nlink ++
    (toBytes 4 d.size ++ (List.ofFn fun i => toBytes 4 (d.addrs i)).flatten))))

def ofRecord (bytes : List UInt8) : Dinode where
  type := ofBytes (bytes.take 2)
  major := ofBytes ((bytes.drop 2).take 2)
  minor := ofBytes ((bytes.drop 4).take 2)
  nlink := ofBytes ((bytes.drop 6).take 2)
  size := ofBytes ((bytes.drop 8).take 4)
  addrs i := ofBytes (((bytes.drop 12).drop (4 * i.val)).take 4)

end Dinode

theorem length_flatten_words {n : Nat} (word : Fin n → List UInt8)
    (full : ∀ i, (word i).length = 4) : (List.ofFn word).flatten.length = 4 * n := by
  induction n with
  | zero => rfl
  | succ n ih =>
    rw [List.ofFn_succ, List.flatten_cons, List.length_append, full, ih _ (fun i => full _)]
    omega

theorem flatten_words_get {n : Nat} (word : Fin n → List UInt8)
    (full : ∀ i, (word i).length = 4) (i : Fin n) :
    ((List.ofFn word).flatten.drop (4 * i.val)).take 4 = word i := by
  induction n with
  | zero => exact i.elim0
  | succ n ih =>
    rw [List.ofFn_succ, List.flatten_cons]
    cases i using Fin.cases with
    | zero =>
      rw [Fin.val_zero, Nat.mul_zero, List.drop_zero]
      exact List.take_left' (full 0)
    | succ i =>
      have shift : 4 * i.succ.val = (word 0).length + 4 * i.val := by
        rw [full, Fin.val_succ]
        omega
      rw [shift, ← List.drop_drop, List.drop_left]
      exact ih _ (fun j => full j.succ) i

namespace Dinode

@[simp]
theorem length_bytes (d : Dinode) : d.bytes.length = 64 := by
  have words := length_flatten_words (fun i => toBytes 4 (d.addrs i)) (fun _ => length_toBytes _ _)
  simp only [bytes, List.length_append, length_toBytes, words, NDIRECT]

theorem ofRecord_bytes {d : Dinode} (wf : d.Wf) : ofRecord d.bytes = d := by
  have fit16 : ∀ value, value < 2 ^ 16 → ofBytes (toBytes 2 value) = value :=
    fun value fits => ofBytes_toBytes_of_lt fits
  have fit32 : ∀ value, value < 2 ^ 32 → ofBytes (toBytes 4 value) = value :=
    fun value fits => ofBytes_toBytes_of_lt fits
  have two : ∀ value, (toBytes 2 value).length = 2 := fun _ => length_toBytes _ _
  have four : ∀ value, (toBytes 4 value).length = 4 := fun _ => length_toBytes _ _
  have drop2 : d.bytes.drop 2 = toBytes 2 d.major ++ (toBytes 2 d.minor ++ (toBytes 2 d.nlink ++
      (toBytes 4 d.size ++ (List.ofFn fun i => toBytes 4 (d.addrs i)).flatten))) :=
    List.drop_left' (two _)
  have drop4 : d.bytes.drop 4 = toBytes 2 d.minor ++ (toBytes 2 d.nlink ++
      (toBytes 4 d.size ++ (List.ofFn fun i => toBytes 4 (d.addrs i)).flatten)) := by
    rw [show (4 : Nat) = 2 + 2 from rfl, ← List.drop_drop, drop2]
    exact List.drop_left' (two _)
  have drop6 : d.bytes.drop 6 = toBytes 2 d.nlink ++
      (toBytes 4 d.size ++ (List.ofFn fun i => toBytes 4 (d.addrs i)).flatten) := by
    rw [show (6 : Nat) = 4 + 2 from rfl, ← List.drop_drop, drop4]
    exact List.drop_left' (two _)
  have drop8 : d.bytes.drop 8 =
      toBytes 4 d.size ++ (List.ofFn fun i => toBytes 4 (d.addrs i)).flatten := by
    rw [show (8 : Nat) = 6 + 2 from rfl, ← List.drop_drop, drop6]
    exact List.drop_left' (two _)
  have drop12 : d.bytes.drop 12 = (List.ofFn fun i => toBytes 4 (d.addrs i)).flatten := by
    rw [show (12 : Nat) = 8 + 4 from rfl, ← List.drop_drop, drop8]
    exact List.drop_left' (four _)
  have type : d.bytes.take 2 = toBytes 2 d.type := List.take_left' (two _)
  unfold ofRecord
  rw [type, drop2, drop4, drop6, drop8, drop12, List.take_left' (two _), List.take_left' (two _),
    List.take_left' (two _), List.take_left' (four _), fit16 _ wf.type, fit16 _ wf.major,
    fit16 _ wf.minor, fit16 _ wf.nlink, fit32 _ wf.size]
  congr 1
  funext i
  rw [flatten_words_get (fun i => toBytes 4 (d.addrs i)) (fun _ => four _) i]
  exact fit32 _ (wf.addrs i)

theorem ofRecord_wf (bytes : List UInt8) : (ofRecord bytes).Wf := by
  have narrow : ∀ (count : Nat) (part : List UInt8),
      ofBytes (part.take count) < 256 ^ count := by
    intro count part
    refine lt_of_lt_of_le (ofBytes_lt _) (Nat.pow_le_pow_right (by omega) ?_)
    rw [List.length_take]
    exact Nat.min_le_left _ _
  exact ⟨narrow 2 _, narrow 2 _, narrow 2 _, narrow 2 _, narrow 4 _, fun _ => narrow 4 _⟩

end Dinode

/-! ### Directory entries -/

/-- `struct dirent`. -/
structure Dirent where
  inum : Nat
  name : List UInt8

namespace Dirent

/-- The 16 bytes of an entry. -/
def bytes (de : Dirent) : List UInt8 := toBytes 2 de.inum ++ strncpy DIRSIZ de.name

def ofRecord (bytes : List UInt8) : Dirent where
  inum := ofBytes (bytes.take 2)
  name := cstr DIRSIZ (bytes.drop 2)

@[simp]
theorem length_bytes (de : Dirent) : de.bytes.length = 16 := by
  unfold bytes
  rw [List.length_append, length_toBytes, length_strncpy]
  rfl

end Dirent

/-! ### The blocks of the disk -/

abbrev Disk : Type := Nat → Area

namespace Disk

variable (disk : Disk)

def setBlock (b : Nat) (area : Area) : Disk := Function.update disk b area

/-- `readsb`. -/
def readsb : Superblock := .ofRecord ((disk 1).slice 0 28)

/-- `IBLOCK`. -/
def inodeBlock (sb : Superblock) (inum : Nat) : Nat := inum / IPB + sb.inodestart

/-- `BBLOCK`. -/
def bitmapBlock (sb : Superblock) (b : Nat) : Nat := b / BPB + sb.bmapstart

def dinode (sb : Superblock) (inum : Nat) : Dinode :=
  .ofRecord ((disk (inodeBlock sb inum)).record 64 (inum % IPB))

def setDinode (sb : Superblock) (inum : Nat) (d : Dinode) : Disk :=
  disk.setBlock (inodeBlock sb inum)
    ((disk (inodeBlock sb inum)).setRecord 64 (inum % IPB) d.bytes)

/-- The bit of a block in the free map. -/
def used (sb : Superblock) (b : Nat) : Bool := (disk (bitmapBlock sb b)).bit (b % BPB)

def setUsed (sb : Superblock) (b : Nat) : Disk :=
  disk.setBlock (bitmapBlock sb b) ((disk (bitmapBlock sb b)).setBit (b % BPB))

def clearUsed (sb : Superblock) (b : Nat) : Disk :=
  disk.setBlock (bitmapBlock sb b) ((disk (bitmapBlock sb b)).clearBit (b % BPB))

/-- Entry `a[j]` of a block that is read as an array of `uint`s. -/
def entry (b j : Nat) : Nat := ofBytes ((disk b).record 4 j)

def setEntry (b j value : Nat) : Disk :=
  disk.setBlock b ((disk b).setRecord 4 j (toBytes 4 value))

@[simp]
theorem setBlock_self (b : Nat) (area : Area) : disk.setBlock b area b = area := by
  simp [setBlock]

variable {b other : Nat} {sb : Superblock}

theorem setBlock_other (area : Area) (different : other ≠ b) :
    disk.setBlock b area other = disk other := by
  simp [setBlock, different]

/-! ### Laws of the inode area -/

theorem inode_place_inj {i j : Nat} (block : inodeBlock sb i = inodeBlock sb j)
    (place : i % IPB = j % IPB) : i = j := by
  unfold inodeBlock at block
  rw [← Nat.div_add_mod i IPB, ← Nat.div_add_mod j IPB, place, Nat.add_right_cancel block]

theorem dinode_setDinode_self (sb : Superblock) (inum : Nat) {d : Dinode} (wf : d.Wf) :
    (disk.setDinode sb inum d).dinode sb inum = d := by
  unfold dinode setDinode
  rw [setBlock_self, Area.record_setRecord_self _ _ d.length_bytes, Dinode.ofRecord_bytes wf]

theorem dinode_setDinode_other {inum : Nat} (d : Dinode) (different : other ≠ inum) :
    (disk.setDinode sb inum d).dinode sb other = disk.dinode sb other := by
  unfold dinode setDinode
  by_cases block : inodeBlock sb other = inodeBlock sb inum
  · rw [block, setBlock_self, Area.record_setRecord_other _ d.length_bytes]
    intro place
    exact different (inode_place_inj block place.symm)
  · rw [setBlock_other _ _ block]

theorem dinode_wf (sb : Superblock) (inum : Nat) : (disk.dinode sb inum).Wf :=
  Dinode.ofRecord_wf _

theorem dinode_congr {other : Disk} {inum : Nat}
    (same : disk (inodeBlock sb inum) = other (inodeBlock sb inum)) :
    disk.dinode sb inum = other.dinode sb inum := by
  unfold dinode
  rw [same]

/-! ### Laws of the free map -/

theorem bitmap_place_inj {c : Nat} (block : bitmapBlock sb b = bitmapBlock sb c)
    (place : b % BPB = c % BPB) : b = c := by
  unfold bitmapBlock at block
  rw [← Nat.div_add_mod b BPB, ← Nat.div_add_mod c BPB, place, Nat.add_right_cancel block]

theorem used_setUsed (sb : Superblock) (b c : Nat) :
    (disk.setUsed sb b).used sb c = (decide (b = c) || disk.used sb c) := by
  unfold used setUsed
  by_cases block : bitmapBlock sb c = bitmapBlock sb b
  · rw [block, setBlock_self, Area.bit_setBit]
    congr 1
    rw [decide_eq_decide]
    exact ⟨fun place => bitmap_place_inj block.symm place, fun same => by rw [same]⟩
  · rw [setBlock_other _ _ block]
    have different : b ≠ c := by
      intro same
      exact block (by rw [same])
    simp [different]

theorem used_congr {other : Disk} (same : disk (bitmapBlock sb b) = other (bitmapBlock sb b)) :
    disk.used sb b = other.used sb b := by
  unfold used
  rw [same]

/-! ### Laws of indirect blocks -/

theorem entry_setEntry_self (b j : Nat) {value : Nat} (fits : value < 2 ^ 32) :
    (disk.setEntry b j value).entry b j = value := by
  unfold entry setEntry
  rw [setBlock_self, Area.record_setRecord_self _ _ (length_toBytes _ _)]
  exact ofBytes_toBytes_of_lt fits

theorem entry_setEntry_other {j : Nat} (value : Nat) (different : j ≠ other) :
    (disk.setEntry b j value).entry b other = disk.entry b other := by
  unfold entry setEntry
  rw [setBlock_self, Area.record_setRecord_other _ (length_toBytes _ _) different]

theorem entry_congr {other : Disk} (j : Nat) (same : disk b = other b) :
    disk.entry b j = other.entry b j := by
  unfold entry
  rw [same]

theorem entry_of_zero (j : Nat) (zero : disk b = fun _ => 0) : disk.entry b j = 0 := by
  have bytes : (disk b).record 4 j = List.replicate 4 0 := by
    rw [zero]
    rfl
  unfold entry
  rw [bytes, ofBytes_replicate_zero]

end Disk

end Xv6.Fs
