/-
What `readi` and `writei` do to the bytes of a file.

The content of an inode is an area of bytes: position `pos` lies in block `pos / BSIZE` of
the file.  `readi` returns a slice of it and changes nothing; `writei` patches it, allocates
what is missing, and leaves the other inodes alone.
-/

import Mathlib.Tactic
import Xv6.Fs.Allocation

namespace Xv6.Fs

open Function Library Code

/-! ### Positions and blocks -/

theorem blocksFor_le {size blocks : Nat} : blocksFor size ≤ blocks ↔ size ≤ blocks * BSIZE := by
  unfold blocksFor
  simp only [BSIZE]
  omega

theorem lt_blocksFor {size n : Nat} : n < blocksFor size ↔ n * BSIZE < size := by
  unfold blocksFor
  simp only [BSIZE]
  omega

theorem div_lt_of_lt {pos blocks : Nat} (inside : pos < blocks * BSIZE) : pos / BSIZE < blocks :=
  Nat.div_lt_of_lt_mul (by rw [Nat.mul_comm]; exact inside)

theorem div_lt_blocksFor {pos size : Nat} (inside : pos < size) : pos / BSIZE < blocksFor size := by
  rw [lt_blocksFor]
  exact lt_of_le_of_lt (Nat.div_mul_le_self pos BSIZE) inside

namespace Locked

variable {sb : Superblock} {inum : Nat} {s s' : Locked} {blocks : Nat}

/-- The content of an inode by position. -/
def content (sb : Superblock) (inum : Nat) (s : Locked) (i : Nat) : Area := fun pos =>
  s.disk (s.slots sb inum (i, blockSlot (pos / BSIZE))) (pos % BSIZE)

/-! ### Reading -/

/-- The content of the locked inode, through its own pointers. -/
def area (s : Locked) : Area := fun pos =>
  s.disk (s.disk.slot s.ip (blockSlot (pos / BSIZE))) (pos % BSIZE)

/-- The locked inode has at least its first blocks. -/
structure Present (s : Locked) (blocks : Nat) : Prop where
  bound : blocks ≤ MAXFILE
  filled : ∀ bn, bn < blocks → s.disk.slot s.ip (blockSlot bn) ≠ 0

variable {off pos : Nat}

theorem Inv.present (inv : s.Inv sb inum blocks) : s.Present blocks := by
  refine ⟨inv.extent.bound, ?_⟩
  intro bn inside
  have bounded : bn < MAXFILE := lt_of_lt_of_le inside inv.extent.bound
  rw [← inv.slot_eq (blockSlot_lt bounded)]
  exact (inv.extent.data bn bounded).mpr inside

section Store

variable {bn : Nat} (inv : s.Inv sb inum blocks) (inside : bn < blocks) (area : Area)

/-- The state with other bytes in a block of the locked inode. -/
def store (sb : Superblock) (inum : Nat) (s : Locked) (bn : Nat) (area : Area) : Locked :=
  { s with disk := s.disk.setBlock (s.slots sb inum (inum, blockSlot bn)) area }

include inv

theorem store_block {place : Nat × Nat} (different : place ≠ (inum, blockSlot bn))
    (holds : s.slots sb inum place ≠ 0) :
    (s.store sb inum bn area).disk (s.slots sb inum place) = s.disk (s.slots sb inum place) := by
  refine Disk.setBlock_other _ _ ?_
  intro same
  exact different (inv.map.inj _ _ holds same)

include inside

theorem Inv.holds : s.slots sb inum (inum, blockSlot bn) ≠ 0 :=
  (inv.extent.data bn (lt_of_lt_of_le inside inv.extent.bound)).mpr inside

theorem store_dinode {i : Nat} (isInode : i < sb.ninodes) :
    (s.store sb inum bn area).disk.dinode sb i = s.disk.dinode sb i := by
  refine Disk.dinode_congr _ (Disk.setBlock_other _ _ ?_)
  have above := (inv.map.range _ (inv.holds inside)).1
  have below := inodeBlock_lt inv.consistent.layout isInode
  have start := bmapstart_lt_dataStart sb
  omega

theorem store_used {c : Nat} (isBlock : c < sb.size) :
    (s.store sb inum bn area).disk.used sb c = s.disk.used sb c := by
  refine Disk.used_congr _ (Disk.setBlock_other _ _ ?_)
  have above := (inv.map.range _ (inv.holds inside)).1
  have below := bitmapBlock_lt isBlock
  omega

theorem store_slots (place : Nat × Nat) :
    (s.store sb inum bn area).slots sb inum place = s.slots sb inum place := by
  obtain ⟨i, k⟩ := place
  by_cases own : i = inum
  · subst own
    rw [own_slots inv.inside inv.allocated,
      own_slots (s := s.store sb i bn area) inv.inside inv.allocated]
    have slot : (s.store sb i bn area).disk.slot s.ip k = s.disk.slot s.ip k := by
      refine Disk.slot_congr ?_ k
      intro some
      rw [← inv.indirect_eq] at some ⊢
      refine store_block inv area ?_ some
      intro same
      exact blockSlot_ne_indirect bn (Prod.mk.inj same).2.symm
    change (if k < SLOTS then (s.store sb i bn area).disk.slot s.ip k else 0) = _
    rw [slot]
  · refine slots_other own (store_dinode inv inside area) ?_ k
    intro holds
    refine store_block inv area ?_ holds
    intro same
    exact own (Prod.mk.inj same).1

theorem store_keeps : Keeps sb inum s (s.store sb inum bn area) := by
  refine ⟨fun i _ isInode => store_dinode inv inside area isInode,
    fun i k _ => store_slots inv inside area (i, k), ?_⟩
  intro i k different holds
  refine store_block inv area ?_ holds
  intro same
  exact different (Prod.mk.inj same).1

theorem store_inv : (s.store sb inum bn area).Inv sb inum blocks := by
  have slots := store_slots inv inside area
  have map := inv.map.congr (fun c isBlock => store_used inv inside area isBlock) slots
  refine inv.of_keeps (store_keeps inv inside area)
    ⟨inv.consistent.layout, map, inv.wf, inv.inside, inv.allocated⟩ inv.file ?_
  have extent := inv.extent
  refine ⟨extent.bound, ?_, ?_⟩
  · intro n bounded
    rw [slots]
    exact extent.data n bounded
  · rw [slots]
    exact extent.indirect

end Store

/-- A patch of one block is a patch of the content. -/
theorem store_content (inv : s.Inv sb inum blocks) {data : List UInt8}
    (inside : off / BSIZE < blocks) (within : off % BSIZE + data.length ≤ BSIZE)
    (present : pos / BSIZE < blocks) :
    (s.store sb inum (off / BSIZE)
      ((s.disk (s.slots sb inum (inum, blockSlot (off / BSIZE)))).patch (off % BSIZE) data)).content
        sb inum inum pos = (s.content sb inum inum).patch off data pos := by
  unfold content
  rw [store_slots inv inside]
  by_cases block : pos / BSIZE = off / BSIZE
  · rw [block]
    change s.disk.setBlock _ _ _ _ = _
    rw [Disk.setBlock_self]
    by_cases written : off ≤ pos ∧ pos < off + data.length
    · obtain ⟨j, rfl⟩ := Nat.exists_eq_add_of_le written.1
      have bounded : j < data.length := by omega
      have place : (off + j) % BSIZE = off % BSIZE + j := by
        simp only [BSIZE] at *
        omega
      rw [place, Area.patch_inside _ bounded, Area.patch_inside _ bounded]
    · have split := Nat.div_add_mod pos BSIZE
      have splitOff := Nat.div_add_mod off BSIZE
      rw [block] at split
      rw [Area.patch_outside _ (by omega), Area.patch_outside _ (by omega), block]
  · have outside : pos < off ∨ off + data.length ≤ pos := by
      simp only [BSIZE] at *
      omega
    rw [Area.patch_outside _ outside]
    refine congrFun (store_block inv _ ?_ (inv.holds present)) _
    intro same
    exact block (blockSlot_inj (Prod.mk.inj same).2)

/-! ### The loop of writei -/

/-- The bytes have been written from the offset on, to a file that had so many blocks. -/
structure Wrote (sb : Superblock) (inum blocks off : Nat) (src : List UInt8) (s s' : Locked) :
    Prop where
  inv : s'.Inv sb inum (max blocks (blocksFor (off + src.length)))
  keeps : Keeps sb inum s s'
  ip : s'.ip = { s.ip with addrs := s'.ip.addrs }
  dinode : s'.disk.dinode sb inum = s.disk.dinode sb inum
  same : off + src.length ≤ blocks * BSIZE → s'.ip = s.ip
  content : ∀ pos, pos / BSIZE < blocks ∨ (off ≤ pos ∧ pos < off + src.length) →
    s'.content sb inum inum pos = (s.content sb inum inum).patch off src pos

theorem Wrote.nil (inv : s.Inv sb inum blocks) (reached : off ≤ blocks * BSIZE) :
    Wrote sb inum blocks off [] s s := by
  refine ⟨?_, Keeps.refl s, rfl, rfl, fun _ => rfl, ?_⟩
  · rw [List.length_nil, Nat.add_zero, Nat.max_eq_left (blocksFor_le.mpr reached)]
    exact inv
  · intro pos _
    rw [Area.patch_outside]
    rw [List.length_nil]
    omega

theorem Mapped.content {bn addr : Nat} (mapped : Mapped sb inum blocks bn s s' addr)
    (present : pos / BSIZE < blocks) :
    s'.content sb inum inum pos = s.content sb inum inum pos := by
  obtain ⟨slot, block⟩ := mapped.data _ present
  unfold Locked.content
  rw [slot, block]

/-- One round of the loop of `writei`, and the rounds after it. -/
theorem Mapped.wrote {addr m : Nat} {src : List UInt8} {s₁ s₃ : Locked}
    (mapped : Mapped sb inum blocks (off / BSIZE) s s₁ addr)
    (wrote : Wrote sb inum (max blocks (off / BSIZE + 1)) (off + m) (src.drop m)
      (s₁.store sb inum (off / BSIZE)
        ((s₁.disk (s₁.slots sb inum (inum, blockSlot (off / BSIZE)))).patch (off % BSIZE)
          (src.take m))) s₃) (most : m ≤ src.length) (withinBlock : m ≤ BSIZE - off % BSIZE)
    (progress : 0 < m) :
    Wrote sb inum blocks off src s s₃ := by
  have taken : (src.take m).length = m := by
    rw [List.length_take, Nat.min_eq_left most]
  have rest : off + m + (src.drop m).length = off + src.length := by
    rw [List.length_drop]
    omega
  have remainder : off % BSIZE < BSIZE := Nat.mod_lt _ (by decide)
  have split := Nat.div_add_mod off BSIZE
  have present : off / BSIZE < max blocks (off / BSIZE + 1) := by omega
  have needed : off / BSIZE < blocksFor (off + src.length) := by
    rw [lt_blocksFor, Nat.mul_comm]
    omega
  refine ⟨?_, ?_, ?_, ?_, ?_, ?_⟩
  · have inv := wrote.inv
    rw [rest] at inv
    have same : max (max blocks (off / BSIZE + 1)) (blocksFor (off + src.length)) =
        max blocks (blocksFor (off + src.length)) := by omega
    rw [same] at inv
    exact inv
  · exact (mapped.keeps.trans (store_keeps mapped.inv present _)).trans wrote.keeps
  · rw [wrote.ip]
    change { s₁.ip with addrs := s₃.ip.addrs } = _
    rw [mapped.ip]
  · rw [wrote.dinode, store_dinode mapped.inv present _ mapped.inv.inside, mapped.dinode]
  · intro inside
    have block : off / BSIZE < blocks := div_lt_of_lt (by omega)
    rw [wrote.same]
    · change s₁.ip = s.ip
      rw [mapped.same block]
    · rw [rest, Nat.max_eq_left block]
      exact inside
  · intro pos region
    have known : pos / BSIZE < max blocks (off / BSIZE + 1) ∨
        (off + m ≤ pos ∧ pos < off + m + (src.drop m).length) := by
      rw [rest]
      by_cases first : pos < off + m
      · rcases region with old | ⟨low, _⟩
        · exact Or.inl (by omega)
        · refine Or.inl ?_
          simp only [BSIZE] at *
          omega
      · rcases region with old | ⟨_, high⟩
        · exact Or.inl (by omega)
        · exact Or.inr ⟨by omega, high⟩
    rw [wrote.content pos known]
    conv_rhs => rw [← List.take_append_drop m src, Area.patch_append, taken]
    refine Area.patch_congr _ ?_
    intro outside
    have inBlocks : pos / BSIZE < max blocks (off / BSIZE + 1) := by
      rcases known with old | inside
      · exact old
      · omega
    rw [store_content mapped.inv present (by omega) inBlocks]
    refine Area.patch_congr _ ?_
    intro unwritten
    refine mapped.content ?_
    rcases region with old | ⟨low, high⟩
    · exact old
    · omega

/-- The loop of `writei` takes what the new blocks are charged. -/
theorem writeBlocks_takes (fuel : Nat) {src : List UInt8} (inv : s.Inv sb inum blocks)
    (enough : src.length ≤ fuel) (reached : off ≤ blocks * BSIZE)
    (fits : off + src.length ≤ MAXFILE * BSIZE) :
    Takes sb (writeBlocks sb fuel off src) s
      (charge (max blocks (blocksFor (off + src.length))) - charge blocks) (fun off' s' =>
        off' = off + src.length ∧ Wrote sb inum blocks off src s s') := by
  induction fuel generalizing s blocks off src with
  | zero =>
    obtain rfl : src = [] := List.length_eq_zero_iff.mp (by omega)
    rw [List.length_nil, Nat.add_zero, Nat.max_eq_left (blocksFor_le.mpr reached), Nat.sub_self]
    exact Takes.of_pure ⟨rfl, Wrote.nil inv reached⟩
  | succ fuel ih =>
    unfold writeBlocks
    by_cases finished : src = []
    · rw [if_pos finished, finished, List.length_nil, Nat.add_zero,
        Nat.max_eq_left (blocksFor_le.mpr reached), Nat.sub_self]
      exact Takes.of_pure ⟨rfl, Wrote.nil inv reached⟩
    · rw [if_neg finished]
      have some : 0 < src.length := List.length_pos_iff.mpr finished
      have remainder : off % BSIZE < BSIZE := Nat.mod_lt _ (by decide)
      have split := Nat.div_add_mod off BSIZE
      have next : off / BSIZE ≤ blocks := by
        simp only [BSIZE] at *
        omega
      have bounded : off / BSIZE < MAXFILE := div_lt_of_lt (by omega)
      have needed : off / BSIZE < blocksFor (off + src.length) := by
        rw [lt_blocksFor, Nat.mul_comm]
        omega
      have final : max (max blocks (off / BSIZE + 1)) (blocksFor (off + src.length)) =
          max blocks (blocksFor (off + src.length)) := by omega
      have grows : charge blocks ≤ charge (max blocks (off / BSIZE + 1)) :=
        charge_mono (Nat.le_max_left _ _)
      have growsMore : charge (max blocks (off / BSIZE + 1)) ≤
          charge (max blocks (blocksFor (off + src.length))) := charge_mono (by omega)
      have sum : charge (max blocks (blocksFor (off + src.length))) - charge blocks =
          (charge (max blocks (off / BSIZE + 1)) - charge blocks) +
          (charge (max blocks (blocksFor (off + src.length))) -
            charge (max blocks (off / BSIZE + 1))) := by omega
      apply Takes.bind sum (bmap_takes inv next bounded)
      intro addr s₁ mapped
      have most : min src.length (BSIZE - off % BSIZE) ≤ src.length := Nat.min_le_left _ _
      have withinBlock : min src.length (BSIZE - off % BSIZE) ≤ BSIZE - off % BSIZE :=
        Nat.min_le_right _ _
      have progress : 0 < min src.length (BSIZE - off % BSIZE) := by omega
      generalize min src.length (BSIZE - off % BSIZE) = m at most withinBlock progress ⊢
      have rest : off + m + (src.drop m).length = off + src.length := by
        rw [List.length_drop]
        omega
      have present : off / BSIZE < max blocks (off / BSIZE + 1) := by omega
      rw [mapped.addr]
      have stored := store_inv mapped.inv present
        ((s₁.disk (s₁.slots sb inum (inum, blockSlot (off / BSIZE)))).patch (off % BSIZE)
          (src.take m))
      have reached' : off + m ≤ max blocks (off / BSIZE + 1) * BSIZE := by
        simp only [BSIZE] at *
        omega
      have shorter : (src.drop m).length ≤ fuel := by omega
      have later := ih stored shorter reached' (by rw [rest]; exact fits)
      rw [rest, final] at later
      apply Takes.after rfl
        (Disk.free_congr (fun c isBlock => store_used mapped.inv present _ isBlock))
      apply later.mono rfl
      rintro off' s₃ ⟨rfl, wrote⟩
      exact ⟨rfl, mapped.wrote wrote most withinBlock progress⟩

/-! ### iupdate -/

/-- The locked inode and its copy on the disk both become `d`. -/
def flush (sb : Superblock) (inum : Nat) (s : Locked) (d : Dinode) : Locked where
  disk := s.disk.setDinode sb inum d
  ip := d

section Flush

variable {d : Dinode} (base : s.Base sb inum)

theorem flush_dinode {i : Nat} (different : i ≠ inum) :
    (s.flush sb inum d).disk.dinode sb i = s.disk.dinode sb i :=
  Disk.dinode_setDinode_other _ d different

include base

theorem flush_block {c : Nat} (above : sb.bmapstart ≤ c) : (s.flush sb inum d).disk c = s.disk c := by
  refine Disk.setBlock_other _ _ ?_
  have below := inodeBlock_lt base.layout base.inside
  omega

theorem flush_held {place : Nat × Nat} (holds : s.slots sb inum place ≠ 0) :
    (s.flush sb inum d).disk (s.slots sb inum place) = s.disk (s.slots sb inum place) := by
  refine flush_block base ?_
  have above := (base.map.range _ holds).1
  have start := bmapstart_lt_dataStart sb
  omega

theorem flush_used (c : Nat) : (s.flush sb inum d).disk.used sb c = s.disk.used sb c :=
  Disk.used_congr _ (flush_block base (bmapstart_le_bitmapBlock sb c))

theorem flush_slots (addrs : d.addrs = s.ip.addrs) (allocated : d.type ≠ 0)
    (place : Nat × Nat) : (s.flush sb inum d).slots sb inum place = s.slots sb inum place := by
  obtain ⟨i, k⟩ := place
  by_cases own : i = inum
  · subst own
    have slotsOf := own_slots base.inside base.allocated
    rw [slotsOf, own_slots (s := s.flush sb i d) base.inside allocated]
    have slot : (s.flush sb i d).disk.slot d k = s.disk.slot s.ip k := by
      have sameAddrs : ∀ disk : Disk, disk.slot d k = disk.slot s.ip k := by
        intro disk
        unfold Disk.slot
        rw [addrs]
      rw [sameAddrs]
      refine Disk.slot_congr ?_ k
      intro some
      have isHeld : s.slots sb i (i, NDIRECT) = s.ip.addrs indirect := by
        rw [slotsOf, if_pos (by decide)]
        rfl
      rw [← isHeld] at some ⊢
      exact flush_held base some
    change (if k < SLOTS then (s.flush sb i d).disk.slot d k else 0) = _
    rw [slot]
  · exact slots_other own (fun _ => flush_dinode own) (flush_held base) k

theorem flush_keeps (addrs : d.addrs = s.ip.addrs) (allocated : d.type ≠ 0) :
    Keeps sb inum s (s.flush sb inum d) :=
  ⟨fun _ different _ => flush_dinode different,
    fun i k _ => flush_slots base addrs allocated (i, k), fun _ _ _ => flush_held base⟩

end Flush

theorem flush_inv {d : Dinode} (inv : s.Inv sb inum blocks) (wf : d.Wf)
    (addrs : d.addrs = s.ip.addrs) (type : d.type = s.ip.type) :
    (s.flush sb inum d).Inv sb inum blocks := by
  have base := inv.base
  have allocated : d.type ≠ 0 := by
    rw [type]
    exact inv.allocated
  have slots := flush_slots base addrs allocated
  have extent := inv.extent
  refine inv.of_keeps (flush_keeps base addrs allocated)
    ⟨base.layout, base.map.congr (fun c _ => flush_used base c) slots, wf, base.inside, allocated⟩
    ?_ ⟨extent.bound, ?_, ?_⟩
  · change d.type ≠ T_DEV
    rw [type]
    exact inv.file
  · intro n bounded
    rw [slots]
    exact extent.data n bounded
  · rw [slots]
    exact extent.indirect

/-! ### Between operations -/

/-- The locked inode equals its copy on the disk, which is consistent. -/
structure AtRest (sb : Superblock) (inum : Nat) (s : Locked) : Prop where
  inv : s.Inv sb inum (blocksFor s.ip.size)
  copy : s.disk.dinode sb inum = s.ip

end Locked

/-- The content of an inode of a disk whose inodes are all up to date. -/
def Disk.content (disk : Disk) (sb : Superblock) (i : Nat) : Area := fun pos =>
  disk (held sb disk (disk.dinode sb) (i, blockSlot (pos / BSIZE))) (pos % BSIZE)

/-- The bytes of a file. -/
def Disk.bytes (disk : Disk) (sb : Superblock) (i : Nat) : List UInt8 :=
  (disk.content sb i).slice 0 (disk.dinode sb i).size

@[simp]
theorem Disk.length_bytes (disk : Disk) (sb : Superblock) (i : Nat) :
    (disk.bytes sb i).length = (disk.dinode sb i).size :=
  Area.length_slice _ _ _

namespace Locked

variable {sb : Superblock} {inum : Nat} {s s' : Locked}

theorem AtRest.inode_eq (rest : s.AtRest sb inum) : s.inode sb inum = s.disk.dinode sb := by
  unfold inode
  rw [← rest.copy]
  exact update_eq_self _ _

theorem AtRest.slots_eq (rest : s.AtRest sb inum) :
    s.slots sb inum = held sb s.disk (s.disk.dinode sb) := by
  unfold slots
  rw [rest.inode_eq]

theorem AtRest.content_eq (rest : s.AtRest sb inum) (i : Nat) :
    s.content sb inum i = s.disk.content sb i := by
  unfold content Disk.content
  rw [rest.slots_eq]

theorem AtRest.consistent (rest : s.AtRest sb inum) : s.disk.Consistent sb := by
  have consistent := rest.inv.consistent
  rw [rest.inode_eq, ← rest.copy] at consistent
  have counts : update (fun i => blocksFor (s.disk.dinode sb i).size) inum
      (blocksFor (s.disk.dinode sb inum).size) =
        fun i => blocksFor (s.disk.dinode sb i).size :=
    update_eq_self inum _
  rw [counts] at consistent
  exact consistent

end Locked

theorem Disk.Consistent.lock {disk : Disk} {sb : Superblock} (consistent : disk.Consistent sb)
    {i : Nat} (inside : i < sb.ninodes) (allocated : (disk.dinode sb i).type ≠ 0)
    (file : (disk.dinode sb i).type ≠ T_DEV) : Locked.AtRest sb i ⟨disk, disk.dinode sb i⟩ := by
  have same : Locked.inode sb i ⟨disk, disk.dinode sb i⟩ = disk.dinode sb :=
    update_eq_self i _
  have counts : update (fun j => blocksFor (disk.dinode sb j).size) i
      (blocksFor (disk.dinode sb i).size) = fun j => blocksFor (disk.dinode sb j).size :=
    update_eq_self i _
  refine ⟨⟨?_, Disk.dinode_wf _ _ _, inside, allocated, file⟩, rfl⟩
  rw [same, counts]
  exact consistent

end Xv6.Fs
