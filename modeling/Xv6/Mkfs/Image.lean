/-
What the image means while `mkfs` builds it.

A tree has the entries of the root directory and the contents of the files, in the order of
their inodes.  The image holds a tree if the disk with the free map to come is consistent,
the inodes have these contents, and exactly the blocks that they need have been handed out.
Each operation of `mkfs` takes an image of one tree to an image of the next, or fails because
the next tree does not fit.
-/

import Mathlib.Tactic
import Xv6.Fs.InodeUpdate
import Xv6.Mkfs.Simulation

namespace Xv6.Mkfs

open Library Fs Code State

/-! ### Trees -/

structure Tree where
  entries : List Dirent := []
  files : List (List UInt8) := []

namespace Tree

/-- The bytes of the root directory. -/
def root (tree : Tree) : List UInt8 := tree.entries.flatMap Dirent.bytes

/-- The blocks of a file with these bytes. -/
def fileCost (bytes : List UInt8) : Nat := charge (blocksFor bytes.length)

def cost (tree : Tree) : Nat := fileCost tree.root + (tree.files.map fileCost).sum

def link (tree : Tree) (de : Dirent) : Tree := { tree with entries := tree.entries ++ [de] }

/-- A new file with these bytes. -/
def add (tree : Tree) (bytes : List UInt8) : Tree := { tree with files := tree.files ++ [bytes] }

/-- Some part of the tree has no place on the disk. -/
def Overfull (tree : Tree) : Prop :=
  FSSIZE < nmeta + tree.cost ∨ MAXFILE * BSIZE < tree.root.length ∨
    ∃ bytes ∈ tree.files, MAXFILE * BSIZE < bytes.length

theorem root_link (tree : Tree) (de : Dirent) : (tree.link de).root = tree.root ++ de.bytes := by
  unfold root link
  rw [List.flatMap_append, List.flatMap_singleton]

theorem length_root (tree : Tree) : tree.root.length = 16 * tree.entries.length := by
  unfold root
  induction tree.entries with
  | nil => rfl
  | cons de rest ih =>
    rw [List.flatMap_cons, List.length_append, ih, Dirent.length_bytes, List.length_cons]
    omega

theorem cost_add (tree : Tree) (bytes : List UInt8) :
    (tree.add bytes).cost = tree.cost + fileCost bytes := by
  unfold cost add
  rw [List.map_append, List.sum_append, List.map_singleton, List.sum_singleton, ← Nat.add_assoc]
  rfl

theorem link_add (tree : Tree) (bytes : List UInt8) (de : Dirent) :
    (tree.add bytes).link de = (tree.link de).add bytes := rfl

theorem fileCost_mono {few many : List UInt8} (less : few.length ≤ many.length) :
    fileCost few ≤ fileCost many :=
  charge_mono (blocksFor_mono less)

theorem cost_link (tree : Tree) (de : Dirent) :
    (tree.link de).cost + fileCost tree.root = tree.cost + fileCost (tree.root ++ de.bytes) := by
  unfold cost
  rw [root_link]
  change _ + (tree.files.map fileCost).sum + _ = _
  omega

theorem Overfull.link {tree : Tree} (overfull : tree.Overfull) (de : Dirent) :
    (tree.link de).Overfull := by
  have longer : tree.root.length ≤ (tree.root ++ de.bytes).length := by
    rw [List.length_append]
    omega
  rcases overfull with blocks | root | file
  · have more := fileCost_mono longer
    have cost := tree.cost_link de
    exact Or.inl (by omega)
  · refine Or.inr (Or.inl ?_)
    rw [root_link]
    omega
  · exact Or.inr (Or.inr file)

theorem Overfull.add {tree : Tree} (overfull : tree.Overfull) (bytes : List UInt8) :
    (tree.add bytes).Overfull := by
  rcases overfull with blocks | root | ⟨file, member, large⟩
  · refine Or.inl ?_
    rw [cost_add]
    omega
  · exact Or.inr (Or.inl root)
  · exact Or.inr (Or.inr ⟨file, List.mem_append_left _ member, large⟩)

theorem Overfull.grow {tree : Tree} {few many : List UInt8} (overfull : (tree.add few).Overfull)
    (less : few.length ≤ many.length) : (tree.add many).Overfull := by
  rcases overfull with blocks | root | ⟨file, member, large⟩
  · have more := fileCost_mono less
    refine Or.inl ?_
    rw [cost_add] at blocks ⊢
    omega
  · exact Or.inr (Or.inl root)
  · rcases List.mem_append.mp member with old | new
    · exact Or.inr (Or.inr ⟨file, List.mem_append_left _ old, large⟩)
    · rw [List.mem_singleton.mp new] at large
      exact Or.inr (Or.inr ⟨many, List.mem_append_right _ List.mem_cons_self, by omega⟩)

end Tree

/-! ### Images -/

/-- The inode of a file with these bytes. -/
structure IsFile (disk : Disk) (i type : Nat) (bytes : List UInt8) : Prop where
  type : (disk.dinode sb i).type = type
  nlink : (disk.dinode sb i).nlink = 1
  bytes : disk.bytes sb i = bytes

variable {disk : Disk} {i type : Nat} {st : State} {tree : Tree}

theorem IsFile.size {bytes : List UInt8} (file : IsFile disk i type bytes) :
    (disk.dinode sb i).size = bytes.length := by
  rw [← file.bytes, Disk.length_bytes]

theorem IsFile.setDinode {j : Nat} {bytes : List UInt8} {d : Dinode}
    (file : IsFile disk j type bytes) (consistent : disk.Consistent sb) (inside : i < NINODES)
    (different : j ≠ i) (isInode : j < NINODES) (allocated : type ≠ 0) (notDevice : type ≠ T_DEV) :
    IsFile (disk.setDinode sb i d) j type bytes := by
  have same : (disk.setDinode sb i d).dinode sb j = _ :=
    Disk.dinode_setDinode_other disk d different
  have bytesSame := Disk.bytes_setDinode_other (d := d) consistent inside different isInode
    (by rw [file.type]; exact allocated) (by rw [file.type]; exact notDevice)
  exact ⟨by rw [same]; exact file.type, by rw [same]; exact file.nlink,
    by rw [bytesSame]; exact file.bytes⟩

theorem fresh_wf (small : type < 2 ^ 16) :
    ({ type := type, nlink := 1 } : Dinode).Wf :=
  ⟨small, Nat.two_pow_pos 16, Nat.two_pow_pos 16, Nat.one_lt_two_pow (by decide),
    Nat.two_pow_pos 32, fun _ => Nat.two_pow_pos 32⟩

theorem IsFile.fresh (small : type < 2 ^ 16) :
    IsFile (disk.setDinode sb i { type := type, nlink := 1 }) i type [] := by
  have self := Disk.dinode_setDinode_self disk sb i (fresh_wf small)
  refine ⟨by rw [self], by rw [self], ?_⟩
  rw [← List.length_eq_zero_iff, Disk.length_bytes, self]

theorem ialloc_eq (sound : Sound st) (inside : st.freeinode < NINODES) (type : Nat) :
    ∃ st', ialloc type st = .ok (st.freeinode, st') ∧ Sound st' ∧
      st'.freeinode = st.freeinode + 1 ∧ st'.freeblock = st.freeblock ∧
      st'.disk = st.disk.setDinode sb st.freeinode { type := type, nlink := 1 } ∧
      ∀ b, b < sb.inodestart → st'.image b = st.image b := by
  have bumped : Sound { st with freeinode := st.freeinode + 1 } :=
    ⟨sound.sectors, sound.above, sound.below, sound.zero⟩
  refine ⟨{ st with freeinode := st.freeinode + 1 }.updated st.freeinode
    { type := type, nlink := 1 }, ?_, bumped.updated inside _, rfl, rfl, disk_updated inside _,
      fun b low => image_updated _ inside low⟩
  unfold ialloc
  rw [bind_ok rfl, bind_ok rfl, bind_ok (bumped.winode inside _)]
  rfl

structure Holds (tree : Tree) (st : State) : Prop where
  sound : Sound st
  consistent : st.disk.Consistent sb
  freeinode : st.freeinode = tree.files.length + 2
  few : tree.files.length + 2 ≤ NINODES
  free : ∀ i, st.freeinode ≤ i → i < NINODES → (st.disk.dinode sb i).type = 0
  root : IsFile st.disk ROOTINO T_DIR tree.root
  file : ∀ j (inside : j < tree.files.length), IsFile st.disk (j + 2) T_FILE tree.files[j]
  count : st.freeblock = nmeta + tree.cost
  super : st.image 1 = Area.patch (fun _ => 0) 0 sb.bytes

namespace Appended

variable {inum : Nat} {p : List UInt8} {st st' : State}

theorem isFile_self {type : Nat} {bytes : List UInt8} (appended : Appended inum p st st')
    (file : IsFile st.disk inum type bytes) : IsFile st'.disk inum type (bytes ++ p) := by
  obtain ⟨ip, written⟩ := appended.written
  have copy : st'.disk.dinode sb inum = ip := written.rest.copy
  have fields : ip = { st.disk.dinode sb inum with
      size := max (st.disk.dinode sb inum).size ((st.disk.dinode sb inum).size + p.length)
      addrs := ip.addrs } := written.ip
  refine ⟨?_, ?_, ?_⟩
  · rw [copy, fields]
    exact file.type
  · rw [copy, fields]
    exact file.nlink
  · have result := written.bytes
    change st'.disk.bytes sb inum = (st.disk.bytes sb inum).take _ ++ p ++
      (st.disk.bytes sb inum).drop _ at result
    rw [result, file.bytes, file.size, List.take_length,
      List.drop_eq_nil_of_le (Nat.le_add_right _ _), List.append_nil]

theorem isFile_other {i type : Nat} {bytes : List UInt8} (appended : Appended inum p st st')
    (file : IsFile st.disk i type bytes) (different : i ≠ inum) (inside : i < NINODES)
    (allocated : type ≠ 0) (notDevice : type ≠ T_DEV) : IsFile st'.disk i type bytes := by
  obtain ⟨ip, written⟩ := appended.written
  have same := written.dinode i different inside
  have bytesSame := written.others i different inside (by rw [file.type]; exact allocated)
    (by rw [file.type]; exact notDevice)
  exact ⟨by rw [same]; exact file.type, by rw [same]; exact file.nlink,
    by rw [bytesSame]; exact file.bytes⟩

theorem consistent (appended : Appended inum p st st') : st'.disk.Consistent sb := by
  obtain ⟨ip, written⟩ := appended.written
  exact written.rest.consistent

theorem dinode_other {i : Nat} (appended : Appended inum p st st') (different : i ≠ inum)
    (inside : i < NINODES) : st'.disk.dinode sb i = st.disk.dinode sb i := by
  obtain ⟨ip, written⟩ := appended.written
  exact written.dinode i different inside

end Appended

namespace Holds

variable {tree : Tree} {st st' : State}

theorem lockRoot (holds : Holds tree st) :
    Locked.AtRest sb ROOTINO ⟨st.disk, st.disk.dinode sb ROOTINO⟩ :=
  holds.consistent.lock (by decide) (by rw [holds.root.type]; decide)
    (by rw [holds.root.type]; decide)

/-- An entry is appended to the root directory. -/
theorem link (holds : Holds tree st) (de : Dirent) :
    (iappend ROOTINO de.bytes).Ends st (fun _ => (tree.link de).Overfull)
      (fun _ st' => Holds (tree.link de) st') := by
  have some : de.bytes ≠ [] := by
    intro none
    have length := de.length_bytes
    rw [none] at length
    cases length
  have size := holds.root.size
  have cost := tree.cost_link de
  have count := holds.count
  refine ((iappend_ends holds.sound holds.lockRoot some).excuse ?_).mono ?_
  · intro _ overflows
    rw [size] at overflows
    rcases overflows with full | large
    · refine Or.inl ?_
      unfold NoRoom at full
      rw [Nat.max_eq_right (blocksFor_mono (Nat.le_add_right _ _)), ← List.length_append] at full
      unfold Tree.fileCost at cost
      omega
    · refine Or.inr (Or.inl ?_)
      rw [Tree.root_link, List.length_append]
      exact large
  · intro _ st' appended
    refine ⟨appended.sound, appended.consistent, appended.freeinode.trans holds.freeinode,
      holds.few, ?_, ?_, ?_, ?_, ?_⟩
    · intro i above inside
      have different : i ≠ ROOTINO := by
        have number := holds.freeinode
        rw [appended.freeinode] at above
        simp only [ROOTINO]
        omega
      rw [appended.dinode_other different inside]
      rw [appended.freeinode] at above
      exact holds.free i above inside
    · rw [Tree.root_link]
      exact appended.isFile_self holds.root
    · intro j inside
      have number : j + 2 < NINODES := lt_of_lt_of_le (Nat.add_lt_add_right inside 2) holds.few
      exact appended.isFile_other (holds.file j inside) (by simp only [ROOTINO]; omega) number
        (by decide) (by decide)
    · have later := appended.count
      rw [size, ← List.length_append] at later
      unfold Tree.fileCost at cost
      omega
    · rw [appended.low 1 (by decide)]
      exact holds.super

/-- `ialloc` starts a new file. -/
theorem create (holds : Holds tree st) (room : tree.files.length + 2 < NINODES) :
    ∃ st', ialloc T_FILE st = .ok (tree.files.length + 2, st') ∧ Holds (tree.add []) st' := by
  have inside : st.freeinode < NINODES := by
    rw [holds.freeinode]
    exact room
  obtain ⟨st', ran, sound, number, blocks, disk, low⟩ := ialloc_eq holds.sound inside T_FILE
  refine ⟨st', by rw [← holds.freeinode]; exact ran, sound, ?_, ?_, ?_, ?_, ?_, ?_, ?_, ?_⟩
  · rw [disk]
    exact holds.consistent.fill inside (holds.free _ (le_refl _) inside) (fresh_wf (by decide)) rfl
      (fun _ => rfl)
  · change _ = (tree.files ++ [[]]).length + 2
    rw [number, holds.freeinode, List.length_append, List.length_singleton]
  · change (tree.files ++ [[]]).length + 2 ≤ NINODES
    rw [List.length_append, List.length_singleton]
    omega
  · intro i above isInode
    rw [number] at above
    rw [disk, Disk.dinode_setDinode_other _ _ (by omega)]
    exact holds.free i (by omega) isInode
  · rw [disk]
    have different : ROOTINO ≠ st.freeinode := by
      rw [holds.freeinode]
      simp only [ROOTINO]
      omega
    exact holds.root.setDinode holds.consistent inside different (by decide) (by decide) (by decide)
  · intro j bounded
    change j < (tree.files ++ [[]]).length at bounded
    rw [List.length_append, List.length_singleton] at bounded
    rw [disk]
    by_cases old : j < tree.files.length
    · have entry : (tree.add []).files[j] = tree.files[j] := List.getElem_append_left old
      rw [entry]
      have different : j + 2 ≠ st.freeinode := by
        rw [holds.freeinode]
        omega
      exact (holds.file j old).setDinode holds.consistent inside different (by omega) (by decide)
        (by decide)
    · obtain rfl : j = tree.files.length := by omega
      have entry : (tree.add []).files[tree.files.length] = [] := by
        simp [Tree.add]
      rw [entry, ← holds.freeinode]
      exact IsFile.fresh (by decide)
  · rw [Tree.cost_add, blocks]
    exact holds.count
  · exact (low 1 (by decide)).trans holds.super

/-- The last file grows. -/
theorem append {bytes p : List UInt8} (holds : Holds (tree.add bytes) st) (some : p ≠ []) :
    (iappend (tree.files.length + 2) p).Ends st (fun _ => (tree.add (bytes ++ p)).Overfull)
      (fun _ st' => Holds (tree.add (bytes ++ p)) st') := by
  have last : tree.files.length < (tree.add bytes).files.length := by
    simp [Tree.add]
  have entry : (tree.add bytes).files[tree.files.length] = bytes := by
    simp [Tree.add]
  have file := holds.file tree.files.length last
  rw [entry] at file
  have few := holds.few
  have inside : tree.files.length + 2 < NINODES := by omega
  have rest := holds.consistent.lock inside (by rw [file.type]; decide) (by rw [file.type]; decide)
  have size := file.size
  have count := holds.count
  rw [Tree.cost_add] at count
  refine ((iappend_ends holds.sound rest some).excuse ?_).mono ?_
  · intro _ overflows
    rw [size, ← List.length_append] at overflows
    rcases overflows with full | large
    · refine Or.inl ?_
      have longer : bytes.length ≤ (bytes ++ p).length := by
        rw [List.length_append]
        omega
      unfold NoRoom at full
      rw [Nat.max_eq_right (blocksFor_mono longer)] at full
      rw [Tree.cost_add]
      unfold Tree.fileCost at count ⊢
      omega
    · exact Or.inr (Or.inr ⟨bytes ++ p, List.mem_append_right _ List.mem_cons_self, large⟩)
  · intro _ st' appended
    refine ⟨appended.sound, appended.consistent, ?_, ?_, ?_, ?_, ?_, ?_, ?_⟩
    · rw [appended.freeinode, holds.freeinode]
      simp [Tree.add]
    · simpa [Tree.add] using few
    · intro i above isInode
      have number := holds.freeinode
      rw [appended.freeinode] at above
      rw [appended.dinode_other (by omega) isInode]
      exact holds.free i above isInode
    · exact appended.isFile_other holds.root (by simp only [ROOTINO]; omega) (by decide) (by decide)
        (by decide)
    · intro j bounded
      by_cases old : j < tree.files.length
      · have before := holds.file j (by omega)
        have oldEntry : (tree.add bytes).files[j] = tree.files[j] := List.getElem_append_left old
        have newEntry : (tree.add (bytes ++ p)).files[j] = tree.files[j] :=
          List.getElem_append_left old
        rw [oldEntry] at before
        rw [newEntry]
        exact appended.isFile_other before (by omega) (by omega) (by decide) (by decide)
      · have atMost : j < tree.files.length + 1 := by
          simpa [Tree.add] using bounded
        obtain rfl : j = tree.files.length := by omega
        have newEntry : (tree.add (bytes ++ p)).files[tree.files.length] = bytes ++ p := by
          simp [Tree.add]
        rw [newEntry]
        exact appended.isFile_self file
    · have later := appended.count
      rw [size, ← List.length_append] at later
      rw [Tree.cost_add]
      unfold Tree.fileCost at count ⊢
      omega
    · rw [appended.low 1 (by decide)]
      exact holds.super

theorem appendReads {bytes : List UInt8} {reads : List (List UInt8)}
    (holds : Holds (tree.add bytes) st) (pieces : ∀ piece ∈ reads, piece ≠ []) :
    (Mkfs.appendReads (tree.files.length + 2) reads).Ends st
      (fun _ => (tree.add (bytes ++ reads.flatten)).Overfull)
      (fun _ st' => Holds (tree.add (bytes ++ reads.flatten)) st') := by
  induction reads generalizing st bytes with
  | nil =>
    rw [List.flatten_nil, List.append_nil]
    exact Ends.of_pure holds
  | cons piece rest ih =>
    unfold Mkfs.appendReads
    rw [List.flatten_cons, ← List.append_assoc]
    refine Ends.bind ((holds.append (pieces piece List.mem_cons_self)).excuse ?_) ?_
    · intro _ overfull
      refine overfull.grow ?_
      rw [List.length_append, List.length_append, List.length_append]
      exact Nat.le_add_right _ _
    · intro _ st' appended
      exact ih appended (fun other member => pieces other (List.mem_cons_of_mem _ member))

end Holds

/-! ### Whole runs -/

namespace Tree

/-- The tree with one more input file. -/
def put (tree : Tree) (file : InputFile) : Tree :=
  (tree.link ⟨tree.files.length + 2, file.plainName⟩).add file.content

def putAll (tree : Tree) (files : List InputFile) : Tree := files.foldl put tree

/-- The root directory alone. -/
def bare : Tree where
  entries := [⟨ROOTINO, [46]⟩, ⟨ROOTINO, [46, 46]⟩]

theorem Overfull.putAll {tree : Tree} (overfull : tree.Overfull) (files : List InputFile) :
    (tree.putAll files).Overfull := by
  induction files generalizing tree with
  | nil => exact overfull
  | cons file rest ih => exact ih ((overfull.link _).add _)

end Tree

theorem addFile_ends (holds : Holds tree st) (room : tree.files.length + 2 < NINODES)
    (file : InputFile) :
    (addFile ROOTINO file).Ends st
      (fun _ => InputFile.slash ∈ file.name ∨ (tree.put file).Overfull)
      (fun _ st' => InputFile.slash ∉ file.name ∧ Holds (tree.put file) st') := by
  unfold addFile
  by_cases plain : InputFile.slash ∉ file.name
  · refine Ends.bind_of_ok (require_of plain) ?_
    obtain ⟨st₁, ran, created⟩ := holds.create room
    refine Ends.bind_of_ok ran ?_
    have link := created.link ⟨tree.files.length + 2, file.plainName⟩
    rw [Tree.link_add] at link
    refine Ends.bind (link.excuse ?_) ?_
    · intro _ overfull
      have grown : (tree.put file).Overfull := overfull.grow (Nat.zero_le _)
      exact Or.inr grown
    · intro _ st₂ linked
      have append := linked.appendReads (fun piece member => (file.pieces piece member).1)
      rw [List.nil_append] at append
      refine (append.excuse ?_).mono ?_
      · intro _ overfull
        exact Or.inr overfull
      · intro _ st' whole
        exact ⟨plain, whole⟩
  · exact Ends.bind_of_error (require_not plain) (Or.inl (not_not.mp plain))

theorem addFiles_ends (holds : Holds tree st) {files : List InputFile}
    (room : tree.files.length + files.length + 2 ≤ NINODES) :
    (addFiles ROOTINO files).Ends st
      (fun _ => (∃ file ∈ files, InputFile.slash ∈ file.name) ∨ (tree.putAll files).Overfull)
      (fun _ st' => (∀ file ∈ files, InputFile.slash ∉ file.name) ∧
        Holds (tree.putAll files) st') := by
  induction files generalizing tree st with
  | nil => exact Ends.of_pure ⟨nofun, holds⟩
  | cons file rest ih =>
    rw [List.length_cons] at room
    unfold addFiles
    refine Ends.bind ((addFile_ends holds (by omega) file).excuse ?_) ?_
    · rintro _ (slash | overfull)
      · exact Or.inl ⟨file, List.mem_cons_self, slash⟩
      · exact Or.inr (overfull.putAll rest)
    · rintro _ st' ⟨plain, added⟩
      have length : (tree.put file).files.length = tree.files.length + 1 := by
        simp [Tree.put, Tree.add, Tree.link]
      refine ((ih added (by omega)).excuse ?_).mono ?_
      · rintro _ (⟨other, member, slash⟩ | overfull)
        · exact Or.inl ⟨other, List.mem_cons_of_mem _ member, slash⟩
        · exact Or.inr overfull
      · rintro _ final ⟨plainRest, whole⟩
        refine ⟨?_, whole⟩
        intro other member
        rcases List.mem_cons.mp member with rfl | later
        · exact plain
        · exact plainRest other later

/-! ### The root directory -/

theorem writeZeroes_eq (sectors : List Nat) (st : State) (zero : st.image = fun _ _ => 0) :
    writeZeroes sectors st =
      .ok ((), { st with sectors := sectors.foldl (fun n i => max n (i + 1)) st.sectors }) := by
  induction sectors generalizing st with
  | nil => rfl
  | cons i rest ih =>
    have blank : st.image.setBlock i (fun _ => 0) = fun _ _ => 0 := by
      rw [zero]
      exact Function.update_eq_self i _
    have written : wsect i (fun _ => 0) st = .ok ((), { st with
        image := fun _ _ => 0
        sectors := max st.sectors (i + 1) }) := by
      rw [← blank]
      rfl
    unfold writeZeroes
    rw [bind_ok written, ih _ rfl, zero]
    rfl

theorem foldl_max_range (count : Nat) :
    (List.range count).foldl (fun n i => max n (i + 1)) 0 = count := by
  induction count with
  | zero => rfl
  | succ count ih =>
    rw [List.range_succ, List.foldl_append, ih, List.foldl_cons, List.foldl_nil]
    omega

/-- After the super block has been written. -/
def blank : State where
  image := Disk.setBlock (fun _ _ => 0) 1 (Area.patch (fun _ => 0) 0 sb.bytes)
  sectors := FSSIZE
  freeblock := nmeta

theorem blank_image {b : Nat} (other : b ≠ 1) : blank.image b = fun _ => 0 := by
  change Disk.setBlock (fun _ _ => 0) 1 _ b = _
  exact Disk.setBlock_other _ _ other

theorem blank_sound : Sound blank := by
  refine ⟨rfl, le_refl _, by decide, ?_⟩
  intro b above
  refine blank_image ?_
  rintro rfl
  exact absurd above (by decide)

theorem blank_dinode (inside : i < NINODES) : blank.disk.dinode sb i = {} := by
  have range := inodeBlock_range inside
  have zero : blank.disk (Disk.inodeBlock sb i) = fun _ => 0 := by
    rw [disk_other (Nat.ne_of_lt range.2)]
    refine blank_image ?_
    rw [sb_inodestart] at range
    omega
  have bytes : ∀ k, Area.record (fun _ => 0) 64 k = ({} : Dinode).bytes := by
    intro k
    rfl
  unfold Disk.dinode
  rw [zero, bytes]
  refine Dinode.ofRecord_bytes ?_
  exact ⟨Nat.two_pow_pos 16, Nat.two_pow_pos 16, Nat.two_pow_pos 16, Nat.two_pow_pos 16,
    Nat.two_pow_pos 32, fun _ => Nat.two_pow_pos 32⟩

theorem blank_consistent : blank.disk.Consistent sb := by
  refine Disk.Consistent.of_empty sb_wf ?_ ?_
  · intro b inside
    exact used_disk blank inside
  · intro i inside
    rw [blank_dinode inside]
    exact ⟨rfl, fun _ => rfl⟩

theorem holds_empty : ∃ st, ialloc T_DIR blank = .ok (ROOTINO, st) ∧ Holds {} st := by
  obtain ⟨st, ran, sound, number, blocks, disk, low⟩ := ialloc_eq blank_sound (by decide) T_DIR
  refine ⟨st, ran, sound, ?_, number, by decide, ?_, ?_, nofun, blocks, ?_⟩
  · rw [disk]
    exact blank_consistent.fill (by decide) (by rw [blank_dinode (by decide)])
      (fresh_wf (by decide)) rfl (fun _ => rfl)
  · intro i above inside
    have different : i ≠ ROOTINO := by
      rw [number] at above
      change 1 + 1 ≤ i at above
      simp only [ROOTINO]
      omega
    have first : blank.freeinode = ROOTINO := rfl
    rw [disk, first, Disk.dinode_setDinode_other _ _ different, blank_dinode inside]
  · rw [disk]
    exact IsFile.fresh (by decide)
  · rw [low 1 (by decide)]
    change Disk.setBlock (fun _ _ => 0) 1 _ 1 = _
    exact Disk.setBlock_self _ _ _

theorem Tree.not_overfull (files : tree.files = []) (few : tree.entries.length ≤ 2) :
    ¬tree.Overfull := by
  have length := tree.length_root
  have one : blocksFor tree.root.length ≤ 1 := by
    rw [blocksFor_le]
    simp only [BSIZE]
    omega
  have cost : tree.cost ≤ 1 := by
    unfold Tree.cost Tree.fileCost
    rw [files]
    exact charge_mono one
  rintro (blocks | root | ⟨bytes, member, _⟩)
  · rw [nmeta_eq] at blocks
    simp only [FSSIZE] at blocks
    omega
  · have limit : 32 ≤ MAXFILE * BSIZE := by decide
    omega
  · rw [files] at member
    cases member

theorem writeRoot_ok : ∃ st, writeRoot {} = .ok (ROOTINO, st) ∧ Holds Tree.bare st := by
  have zeroed : writeZeroes (List.range FSSIZE) { freeblock := nmeta } =
      .ok ((), { sectors := FSSIZE, freeblock := nmeta }) := by
    rw [writeZeroes_eq _ _ rfl]
    change Except.ok ((), ({ sectors := (List.range FSSIZE).foldl (fun n i => max n (i + 1)) 0
                             freeblock := nmeta } : State)) = _
    rw [foldl_max_range]
  have written : wsect 1 (Area.patch (fun _ => 0) 0 sb.bytes)
      { sectors := FSSIZE, freeblock := nmeta } = .ok ((), blank) := rfl
  obtain ⟨st, created, empty⟩ := holds_empty
  obtain ⟨_, st₁, dot, one⟩ := (empty.link ⟨ROOTINO, [46]⟩).exists_ok
    (fun _ => Tree.not_overfull rfl (by decide))
  obtain ⟨_, st₂, dotdot, both⟩ := (one.link ⟨ROOTINO, [46, 46]⟩).exists_ok
    (fun _ => Tree.not_overfull rfl (by decide))
  refine ⟨st₂, ?_, both⟩
  unfold writeRoot
  rw [bind_ok rfl, bind_ok zeroed, bind_ok written, bind_ok created, bind_ok (require_of rfl),
    bind_ok dot, bind_ok dotdot]
  rfl

/-! ### The end of main -/

/-- The inode of the root directory with its size as `main` fixes it. -/
def fixedRoot (d : Dinode) : Dinode := { d with size := (d.size / BSIZE + 1) * BSIZE }

theorem finish_ok (holds : Holds tree st) :
    ∃ st', finish ROOTINO st = .ok ((), st') ∧
      st'.freeinode = st.freeinode ∧ st'.freeblock = st.freeblock ∧
      st'.image = st.disk.setDinode sb ROOTINO (fixedRoot (st.disk.dinode sb ROOTINO)) := by
  have sound : Sound (st.updated ROOTINO (fixedRoot (st.disk.dinode sb ROOTINO))) :=
    holds.sound.updated (by decide) _
  have below := holds.sound.below
  refine ⟨(st.updated ROOTINO (fixedRoot (st.disk.dinode sb ROOTINO))).stored sb.bmapstart
    (bitmap st.freeblock), ?_, rfl, rfl, disk_updated (by decide) _⟩
  have small : st.freeblock < BSIZE * 8 := lt_of_le_of_lt below (by decide)
  have bitmapWritten : balloc st.freeblock
      (st.updated ROOTINO (fixedRoot (st.disk.dinode sb ROOTINO))) =
        .ok ((), (st.updated ROOTINO (fixedRoot (st.disk.dinode sb ROOTINO))).stored sb.bmapstart
          (bitmap st.freeblock)) := by
    unfold balloc
    rw [bind_ok (require_of small), sound.wsect _ (by decide)]
  unfold finish
  rw [bind_ok (holds.sound.rinode (by decide)), bind_ok (holds.sound.winode (by decide) _),
    bind_ok rfl]
  exact bitmapWritten

/-- `mkfs` finishes if the names have no slash and the files fit, and not otherwise. -/
theorem main_ends {files : List InputFile} (few : files.length + 2 ≤ NINODES) :
    (main files).Ends {}
      (fun _ => (∃ file ∈ files, InputFile.slash ∈ file.name) ∨
        (Tree.bare.putAll files).Overfull)
      (fun _ st' => (∀ file ∈ files, InputFile.slash ∉ file.name) ∧
        ∃ st, Holds (Tree.bare.putAll files) st ∧ st'.freeinode = st.freeinode ∧
          st'.freeblock = st.freeblock ∧
          st'.image = st.disk.setDinode sb ROOTINO (fixedRoot (st.disk.dinode sb ROOTINO))) := by
  obtain ⟨st, ran, bare⟩ := writeRoot_ok
  unfold main
  refine Ends.bind_of_ok ran ?_
  refine Ends.bind (addFiles_ends bare (by change 0 + files.length + 2 ≤ NINODES; omega)) ?_
  rintro _ st₁ ⟨plain, holds⟩
  obtain ⟨st₂, finished, number, blocks, image⟩ := finish_ok holds
  exact Ends.of_ok finished ⟨plain, st₁, holds, number, blocks, image⟩

end Xv6.Mkfs
