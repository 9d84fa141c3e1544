/-
The image that `mkfs` leaves, against the invariant of the kernel.

`main` sets the size of the root directory to the next multiple of the block size above it.
If the entries fill their blocks exactly, the new size counts a block that was never
allocated.  Otherwise the image is consistent, as long as there are inodes for all files.
-/

import Mathlib.Tactic
import Xv6.Mkfs.Image

namespace Xv6.Mkfs

open Library Fs Code State

/-! ### The tree of a list of files -/

namespace Tree

theorem files_putAll (tree : Tree) (files : List InputFile) :
    (tree.putAll files).files = tree.files ++ files.map InputFile.content := by
  induction files generalizing tree with
  | nil => exact (List.append_nil _).symm
  | cons file rest ih =>
    change ((tree.put file).putAll rest).files = _
    rw [ih, List.map_cons]
    change tree.files ++ [file.content] ++ _ = _
    rw [List.append_assoc, List.singleton_append]

theorem length_entries_putAll (tree : Tree) (files : List InputFile) :
    (tree.putAll files).entries.length = tree.entries.length + files.length := by
  induction files generalizing tree with
  | nil => rfl
  | cons file rest ih =>
    change ((tree.put file).putAll rest).entries.length = _
    rw [ih, List.length_cons]
    change (tree.entries ++ [_]).length + _ = _
    rw [List.length_append, List.length_singleton]
    omega

theorem length_root_putAll (files : List InputFile) :
    (bare.putAll files).root.length = 16 * (files.length + 2) := by
  rw [length_root, length_entries_putAll]
  change 16 * (2 + files.length) = _
  omega

theorem cost_putAll (files : List InputFile) :
    (bare.putAll files).cost = charge (blocksFor (16 * (files.length + 2))) +
      (files.map (fun file => fileCost file.content)).sum := by
  unfold cost
  rw [files_putAll]
  change fileCost _ + (([] ++ files.map InputFile.content).map fileCost).sum = _
  rw [List.nil_append, List.map_map]
  unfold fileCost
  rw [length_root_putAll]
  rfl

end Tree

/-! ### Inode numbers -/

section Numbers

variable {α β : Type} {code : Run α} {first second : Nat}

/-- The code takes so many inode numbers, whether they exist or not. -/
def Allots (count : Nat) (code : Run α) : Prop :=
  ∀ st, code.Ends st (fun _ => True) (fun _ st' => st'.freeinode = st.freeinode + count)

theorem Allots.bind {rest : α → Run β} (one : Allots first code)
    (two : ∀ value, Allots second (rest value)) : Allots (first + second) (code >>= rest) := by
  intro st
  refine (one st).bind ?_
  intro value middle numbered
  refine (two value middle).mono ?_
  intro _ after more
  rw [more, numbered, Nat.add_assoc]

theorem Allots.next {rest : α → Run β} (one : Allots 0 code)
    (two : ∀ value, Allots second (rest value)) : Allots second (code >>= rest) :=
  Nat.zero_add second ▸ one.bind two

theorem allots_pure (value : α) : Allots 0 (pure value) :=
  fun _ => Ends.of_pure rfl

theorem allots_require (condition : Prop) [Decidable condition] (failure : Failure) :
    Allots 0 (require condition failure) := by
  unfold require
  split
  · exact allots_pure ()
  · exact fun _ => Ends.of_stop trivial

theorem allots_wsect (sec : Nat) (buf : Area) : Allots 0 (wsect sec buf) :=
  fun _ => Ends.of_ok rfl rfl

theorem allots_rsect (sec : Nat) : Allots 0 (rsect sec) := by
  intro st
  by_cases inside : sec < st.sectors
  · exact Ends.of_ok (if_pos inside) rfl
  · unfold Ends rsect
    rw [if_neg inside]
    trivial

theorem allots_winode (inum : Nat) (ip : Dinode) : Allots 0 (winode inum ip) :=
  (allots_rsect _).next (fun _ => allots_wsect _ _)

theorem allots_rinode (inum : Nat) : Allots 0 (rinode inum) :=
  (allots_rsect _).next (fun _ => allots_pure _)

theorem allots_nextBlock : Allots 0 nextBlock :=
  fun _ => Ends.of_ok rfl rfl

theorem allots_ialloc (type : Nat) : Allots 1 (ialloc type) := by
  intro st
  refine Ends.bind_of_ok rfl (Ends.bind_of_ok rfl ?_)
  exact ((allots_winode _ _).next (fun _ => allots_pure st.freeinode)) _

theorem allots_mapAddr (din : Dinode) (i : Fin (NDIRECT + 1)) : Allots 0 (mapAddr din i) := by
  unfold mapAddr
  split
  · exact allots_nextBlock.next (fun _ => allots_pure _)
  · exact allots_pure din

theorem allots_mapEntry (b j : Nat) : Allots 0 (mapEntry b j) := by
  refine (allots_rsect b).next (fun indirect => ?_)
  split
  · exact allots_nextBlock.next (fun _ => (allots_wsect _ _).next (fun _ => allots_pure _))
  · exact allots_pure _

theorem allots_mapBlock (din : Dinode) (fbn : Nat) : Allots 0 (mapBlock din fbn) := by
  unfold mapBlock
  split
  · exact (allots_mapAddr _ _).next (fun _ => allots_pure _)
  · exact (allots_mapAddr _ _).next (fun _ => (allots_mapEntry _ _).next (fun _ => allots_pure _))

theorem allots_appendBlocks (fuel : Nat) (din : Dinode) (off : Nat) (p : List UInt8) :
    Allots 0 (appendBlocks fuel din off p) := by
  induction fuel generalizing din off p with
  | zero => exact allots_pure _
  | succ fuel ih =>
    unfold appendBlocks
    split
    · exact allots_pure _
    · refine (allots_require (off / BSIZE < MAXFILE) _).next (fun _ => ?_)
      refine (allots_mapBlock din (off / BSIZE)).next ?_
      rintro ⟨x, din⟩
      exact (allots_rsect x).next (fun _ => (allots_wsect _ _).next (fun _ => ih _ _ _))

theorem allots_iappend (inum : Nat) (p : List UInt8) : Allots 0 (iappend inum p) :=
  (allots_rinode inum).next (fun _ => (allots_appendBlocks _ _ _ _).next
    (fun _ => allots_winode _ _))

theorem allots_appendReads (inum : Nat) (reads : List (List UInt8)) :
    Allots 0 (appendReads inum reads) := by
  induction reads with
  | nil => exact allots_pure ()
  | cons piece rest ih => exact (allots_iappend inum piece).next (fun _ => ih)

theorem allots_addFile (rootino : Nat) (file : InputFile) : Allots 1 (addFile rootino file) :=
  (allots_require _ _).next (fun _ => (allots_ialloc T_FILE).bind (fun _ =>
    (allots_iappend _ _).next (fun _ => allots_appendReads _ _)))

theorem allots_addFiles (rootino : Nat) (files : List InputFile) :
    Allots files.length (addFiles rootino files) := by
  induction files with
  | nil => exact allots_pure ()
  | cons file rest ih =>
    rw [List.length_cons, Nat.add_comm]
    exact (allots_addFile rootino file).bind (fun _ => ih)

theorem allots_finish (rootino : Nat) : Allots 0 (finish rootino) := by
  refine (allots_rinode rootino).next (fun din => (allots_winode rootino _).next (fun _ st => ?_))
  refine Ends.bind_of_ok rfl ?_
  exact ((allots_require (st.freeblock < BSIZE * 8) _).next (fun _ => allots_wsect _ _)) st

/-- Every file takes the next inode number, however many there are. -/
theorem main_freeinode {files : List InputFile} {st : State}
    (ran : main files {} = .ok ((), st)) : st.freeinode = files.length + 2 := by
  obtain ⟨bare, rooted, holds⟩ := writeRoot_ok
  unfold main at ran
  rw [bind_ok rooted] at ran
  have counted := (((allots_addFiles ROOTINO files).bind (fun _ => allots_finish ROOTINO))
    bare).post_of_ok ran
  rw [counted, holds.freeinode]
  change 0 + 2 + files.length = _
  omega

end Numbers

/-! ### The image -/

theorem blocksFor_fixed (entries : Nat) :
    blocksFor ((16 * entries / BSIZE + 1) * BSIZE) = entries / 32 + 1 := by
  unfold blocksFor
  simp only [BSIZE]
  omega

theorem blocksFor_entries {entries : Nat} (partly : entries % 32 ≠ 0) :
    blocksFor (16 * entries) = entries / 32 + 1 := by
  unfold blocksFor
  simp only [BSIZE]
  omega

/-- The slots of the image are those of the disk that `mkfs` has built. -/
structure Final (files : List InputFile) (st' : State) (st : State) : Prop where
  holds : Holds (Tree.bare.putAll files) st
  plain : ∀ file ∈ files, InputFile.slash ∉ file.name
  freeblock : st'.freeblock = st.freeblock
  image : st'.image = st.disk.setDinode sb ROOTINO (fixedRoot (st.disk.dinode sb ROOTINO))

namespace Final

variable {files : List InputFile} {st st' : State}

theorem of_ran (few : files.length ≤ 198) (ran : main files {} = .ok ((), st')) :
    ∃ st, Final files st' st := by
  obtain ⟨plain, st, holds, _, blocks, image⟩ :=
    (main_ends (Nat.add_le_add_right few 2)).post_of_ok ran
  exact ⟨st, holds, plain, blocks, image⟩

theorem rootSize (final : Final files st' st) :
    (st.disk.dinode sb ROOTINO).size = 16 * (files.length + 2) := by
  rw [final.holds.root.size, Tree.length_root_putAll]

theorem fixed_wf (final : Final files st' st) (few : files.length ≤ 198) :
    (fixedRoot (st.disk.dinode sb ROOTINO)).Wf := by
  have wf := Disk.dinode_wf st.disk sb ROOTINO
  refine ⟨wf.type, wf.major, wf.minor, wf.nlink, ?_, wf.addrs⟩
  change ((st.disk.dinode sb ROOTINO).size / BSIZE + 1) * BSIZE < _
  rw [final.rootSize]
  simp only [BSIZE]
  omega

theorem fixed_slots (final : Final files st' st) (k : Nat) (bounded : k < SLOTS) :
    (if (fixedRoot (st.disk.dinode sb ROOTINO)).type = 0 then 0
      else st.disk.slot (fixedRoot (st.disk.dinode sb ROOTINO)) k) =
        held sb st.disk (st.disk.dinode sb) (ROOTINO, k) := by
  have type : (st.disk.dinode sb ROOTINO).type ≠ 0 := by
    rw [final.holds.root.type]
    decide
  exact Disk.Consistent.own_of_addrs (by decide) type type rfl k bounded

theorem held_image (final : Final files st' st) (few : files.length ≤ 198) (place : Nat × Nat) :
    held sb st'.image (st'.image.dinode sb) place = held sb st.disk (st.disk.dinode sb) place := by
  rw [final.image]
  exact Disk.held_setDinode final.holds.consistent (by decide) (final.fixed_wf few)
    final.fixed_slots place

theorem rootExtent (final : Final files st' st) :
    Extent (held sb st.disk (st.disk.dinode sb)) ROOTINO
      (blocksFor (16 * (files.length + 2))) := by
  have extent := final.holds.consistent.extent ROOTINO (by decide)
    (by rw [final.holds.root.type]; decide) (by rw [final.holds.root.type]; decide)
  rw [final.rootSize] at extent
  exact extent

theorem imageRootSize (final : Final files st' st) (few : files.length ≤ 198) :
    (st'.image.dinode sb ROOTINO).size = (16 * (files.length + 2) / BSIZE + 1) * BSIZE := by
  rw [final.image, Disk.dinode_setDinode_self _ _ _ (final.fixed_wf few)]
  change ((st.disk.dinode sb ROOTINO).size / BSIZE + 1) * BSIZE = _
  rw [final.rootSize]

theorem readsb (final : Final files st' st) : st'.image.readsb = sb := by
  have block : st'.image 1 = Area.patch (fun _ => 0) 0 sb.bytes := by
    rw [final.image, ← final.holds.super, ← disk_other (by decide)]
    exact Disk.setBlock_other _ _ (by decide)
  unfold Disk.readsb
  rw [block]
  have bytes : Area.slice (Area.patch (fun _ => 0) 0 sb.bytes) 0 28 = sb.bytes :=
    Area.slice_patch_self _ _ _
  rw [bytes]
  decide

/-- If the entries of the root directory fill its blocks, its size counts one block too many. -/
theorem consistent_iff (final : Final files st' st) (few : files.length ≤ 198) :
    st'.image.Consistent sb ↔ (files.length + 2) % 32 ≠ 0 := by
  constructor
  · intro consistent full
    have type : (st'.image.dinode sb ROOTINO).type = T_DIR := by
      rw [final.image, Disk.dinode_setDinode_self _ _ _ (final.fixed_wf few)]
      exact final.holds.root.type
    have extent := consistent.extent ROOTINO (by decide) (by rw [type]; decide)
      (by rw [type]; decide)
    rw [final.imageRootSize few, blocksFor_fixed] at extent
    have inside : (files.length + 2) / 32 < MAXFILE := lt_of_le_of_lt (b := 6) (by omega) (by decide)
    have counted := (extent.data _ inside).mpr (Nat.lt_succ_self _)
    rw [final.held_image few] at counted
    have allocated := (final.rootExtent.data _ inside).mp counted
    unfold blocksFor at allocated
    simp only [BSIZE] at allocated
    omega
  · intro partly
    rw [final.image]
    refine final.holds.consistent.setDinode (by decide) (final.fixed_wf few) final.fixed_slots ?_
    intro _ _
    change Extent _ _ (blocksFor (((st.disk.dinode sb ROOTINO).size / BSIZE + 1) * BSIZE))
    rw [final.rootSize, blocksFor_fixed, ← blocksFor_entries partly]
    exact final.rootExtent

end Final

/-- Whenever `mkfs` finishes, the image is as the kernel wants it exactly if there are at most
198 files and the entries of the root directory do not fill its blocks. -/
theorem mkfs_consistent {files : List InputFile} {st : State}
    (ran : main files {} = .ok ((), st)) :
    st.freeinode ≤ sb.ninodes ∧ st.freeblock ≤ sb.size ∧ st.image.readsb = sb ∧
        st.image.Consistent sb ↔
      files.length ≤ 198 ∧ (files.length + 2) % 32 ≠ 0 := by
  have numbers : st.freeinode ≤ sb.ninodes ↔ files.length ≤ 198 := by
    rw [main_freeinode ran]
    change _ ≤ 198 + 2 ↔ _
    omega
  rw [numbers]
  refine and_congr_right (fun few => ?_)
  obtain ⟨before, final⟩ := Final.of_ran few ran
  rw [final.consistent_iff few, final.freeblock]
  exact ⟨fun holds => holds.2.2, fun partly => ⟨final.holds.sound.below, final.readsb, partly⟩⟩

/-- A file `a` with so many bytes, read at once. -/
def fileA (content : List UInt8) (some : content ≠ []) (short : content.length ≤ BSIZE) :
    InputFile where
  name := [97]
  terminated := by simp
  reads := [content]
  pieces := by
    intro piece member
    rw [List.mem_singleton.mp member]
    exact ⟨some, short⟩

/-- An empty file `a`. -/
def emptyA : InputFile where
  name := [97]
  terminated := by simp
  reads := []
  pieces := nofun

theorem finishes {files : List InputFile} (few : files.length ≤ 198)
    (plain : ∀ file ∈ files, InputFile.slash ∉ file.name)
    (fits : ¬(Tree.bare.putAll files).Overfull) : ∃ st, main files {} = .ok ((), st) := by
  obtain ⟨_, st, ran, _⟩ := (main_ends (Nat.add_le_add_right few 2)).exists_ok (by
    rintro _ (⟨file, member, slash⟩ | overfull)
    · exact plain file member slash
    · exact fits overfull)
  exact ⟨st, ran⟩

theorem mkfs_consistent_one_file :
    ∃ st, main [fileA [104, 105] (by decide) (by decide)] {} = .ok ((), st) ∧
      st.image.Consistent sb := by
  have finished : ∃ st, main [fileA [104, 105] (by decide) (by decide)] {} = .ok ((), st) := by
    refine finishes (by decide) (by decide) ?_
    rintro (blocks | root | large)
    · rw [Tree.cost_putAll] at blocks
      exact absurd blocks (by decide)
    · rw [Tree.length_root_putAll] at root
      exact absurd root (by decide)
    · rw [Tree.files_putAll] at large
      exact absurd large (by decide)
  obtain ⟨st, ran⟩ := finished
  exact ⟨st, ran, ((mkfs_consistent ran).mpr (by decide)).2.2.2⟩

/-- With 30 files the root directory has 32 entries in one block, and a size of two blocks. -/
theorem mkfs_thirty_files :
    ∃ st, main (List.replicate 30 emptyA) {} = .ok ((), st) ∧
      (st.image.dinode sb ROOTINO).size = 2 * BSIZE ∧
      held sb st.image (st.image.dinode sb) (ROOTINO, blockSlot 1) = 0 ∧
      ¬st.image.Consistent sb := by
  have finished : ∃ st, main (List.replicate 30 emptyA) {} = .ok ((), st) := by
    refine finishes (by decide) (by decide) ?_
    rintro (blocks | root | large)
    · rw [Tree.cost_putAll] at blocks
      exact absurd blocks (by decide)
    · rw [Tree.length_root_putAll] at root
      exact absurd root (by decide)
    · rw [Tree.files_putAll] at large
      exact absurd large (by decide)
  obtain ⟨st, ran⟩ := finished
  obtain ⟨before, final⟩ := Final.of_ran (by decide) ran
  have size : (st.image.dinode sb ROOTINO).size = 2 * BSIZE := final.imageRootSize (by decide)
  have slot : held sb st.image (st.image.dinode sb) (ROOTINO, blockSlot 1) = 0 := by
    rw [final.held_image (by decide)]
    by_contra holds
    have present := (final.rootExtent.data 1 (by decide)).mp holds
    exact absurd present (by decide)
  exact ⟨st, ran, size, slot, fun consistent => (final.consistent_iff (by decide)).mp consistent rfl⟩

/-- Whenever `mkfs` finishes with at most 198 files, inode `j + 2` of the image is a file with
one link and the bytes of the `j`-th of them, and the inodes behind them are free. -/
theorem mkfs_stores_files (files : List InputFile) :
    (main files).Ends {} (fun _ => True) (fun _ st => files.length ≤ 198 →
      (∀ j (inside : j < files.length),
        IsFile st.image (j + 2) T_FILE (files[j].content)) ∧
      ∀ i, files.length + 2 ≤ i → i < NINODES → (st.image.dinode sb i).type = 0) := by
  have returns : (main files).Ends {} (fun _ => True) (fun _ _ => True) := by
    unfold Ends
    split <;> trivial
  refine returns.of_ran (fun _ _ _ => trivial) (fun _ st ran _ few => ?_)
  obtain ⟨before, final⟩ := Final.of_ran few ran
  have holds := final.holds
  have stored : (Tree.bare.putAll files).files = files.map InputFile.content :=
    Tree.files_putAll Tree.bare files
  rw [final.image]
  refine ⟨fun j inside => ?_, fun i high low => ?_⟩
  · have file := holds.file j (by rw [stored, List.length_map]; exact inside)
    simp only [stored, List.getElem_map] at file
    exact file.setDinode holds.consistent (by decide) (by simp [ROOTINO])
      (by simp only [NINODES]; omega) (by decide) (by decide)
  · rw [Disk.dinode_setDinode_other _ _ (by simp only [ROOTINO]; omega)]
    apply holds.free i _ low
    rw [holds.freeinode, stored, List.length_map]
    exact high

end Xv6.Mkfs
