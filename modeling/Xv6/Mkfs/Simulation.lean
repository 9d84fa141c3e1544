/-
`mkfs` does what the kernel would do.

While `mkfs` runs, the free map is in its head: the blocks below `freeblock` are used.  On
the disk that has this free map, `iappend` is the kernel's `writei` at the end of the file:
`balloc` finds the block `freeblock`, and the block is zero already.  `mkfs` fails only where
the kernel would run out of blocks or find the file too large.
-/

import Mathlib.Tactic
import Xv6.Fs.ReadWrite
import Xv6.Mkfs.Model

namespace Xv6.Mkfs

open Function Library Fs Code

theorem nmeta_eq : nmeta = 59 := rfl

theorem sb_bmapstart : sb.bmapstart = 58 := rfl

theorem sb_inodestart : sb.inodestart = 32 := rfl

theorem sb_wf : sb.Wf := ⟨by decide, by decide, by decide⟩

theorem bit_bitmap (used b : Nat) : (bitmap used).bit b = decide (b < used) := by
  unfold bitmap
  induction used with
  | zero =>
    change Area.bit (fun _ => 0) b = _
    unfold Area.bit
    simp
  | succ used ih =>
    rw [List.range_succ, List.foldl_append, List.foldl_cons, List.foldl_nil, Area.bit_setBit, ih]
    rw [← Bool.decide_or, decide_eq_decide]
    omega

theorem bitmap_succ (used : Nat) : bitmap (used + 1) = (bitmap used).setBit used := by
  unfold bitmap
  rw [List.range_succ, List.foldl_append]
  rfl

namespace State

/-- The image with the free map that `balloc` is going to write. -/
def disk (st : State) : Disk := st.image.setBlock sb.bmapstart (bitmap st.freeblock)

/-- After `freeblock++`. -/
def grown (st : State) : State := { st with freeblock := st.freeblock + 1 }

/-- After `wsect` inside the image. -/
def stored (st : State) (sec : Nat) (buf : Area) : State :=
  { st with image := st.image.setBlock sec buf }

/-- The sectors of the image exist, and those that have not been handed out are zero. -/
structure Sound (st : State) : Prop where
  sectors : st.sectors = FSSIZE
  above : nmeta ≤ st.freeblock
  below : st.freeblock ≤ FSSIZE
  zero : ∀ b, st.freeblock ≤ b → st.image b = fun _ => 0

variable {st : State}

variable {b sec : Nat}

theorem disk_other (other : b ≠ sb.bmapstart) : st.disk b = st.image b :=
  Disk.setBlock_other _ _ other

theorem disk_stored (buf : Area) (other : sec ≠ sb.bmapstart) :
    (st.stored sec buf).disk = st.disk.setBlock sec buf := by
  unfold disk stored Disk.setBlock
  exact update_comm other _ _ _

theorem Sound.ne_bmapstart (above : nmeta ≤ b) : b ≠ sb.bmapstart := by
  rw [sb_bmapstart]
  rw [nmeta_eq] at above
  omega

theorem Sound.wsect (sound : Sound st) (buf : Area) (inside : sec < FSSIZE) :
    Mkfs.wsect sec buf st = .ok ((), st.stored sec buf) := by
  have sectors : max st.sectors (sec + 1) = st.sectors := by
    rw [sound.sectors]
    omega
  change Except.ok ((), { st with
    image := st.image.setBlock sec buf, sectors := max st.sectors (sec + 1) }) = _
  rw [sectors]
  rfl

theorem Sound.rsect (sound : Sound st) (inside : sec < FSSIZE) :
    Mkfs.rsect sec st = .ok (st.image sec, st) := by
  unfold Mkfs.rsect
  rw [sound.sectors, if_pos inside]

theorem Sound.stored (sound : Sound st) (buf : Area) (used : sec < st.freeblock) :
    Sound (st.stored sec buf) := by
  refine ⟨sound.sectors, sound.above, sound.below, ?_⟩
  intro b free
  have different : b ≠ sec := by
    intro same
    exact absurd used (not_lt.mpr (same ▸ free))
  exact (Disk.setBlock_other _ _ different).trans (sound.zero b free)

theorem Sound.grown (sound : Sound st) (room : st.freeblock < FSSIZE) : Sound st.grown :=
  ⟨sound.sectors, Nat.le_succ_of_le sound.above, room,
    fun b free => sound.zero b (Nat.le_of_succ_le free)⟩

theorem used_disk (st : State) (inside : b < FSSIZE) :
    st.disk.used sb b = decide (b < st.freeblock) := by
  have small : b < BPB := lt_trans inside (by decide)
  have block : Disk.bitmapBlock sb b = sb.bmapstart := by
    unfold Disk.bitmapBlock
    rw [Nat.div_eq_of_lt small, Nat.zero_add]
  unfold Disk.used disk
  rw [block, Disk.setBlock_self, Nat.mod_eq_of_lt small]
  exact bit_bitmap _ _

/-- `freeblock++` is what an allocation does to the disk. -/
theorem Sound.disk_grown (sound : Sound st) (room : st.freeblock < FSSIZE) :
    st.grown.disk = Locked.afterBalloc sb st.disk st.freeblock := by
  have small : st.freeblock < BPB := lt_trans room (by decide)
  have block : Disk.bitmapBlock sb st.freeblock = sb.bmapstart := by
    unfold Disk.bitmapBlock
    rw [Nat.div_eq_of_lt small, Nat.zero_add]
  have marked : st.disk.setUsed sb st.freeblock = st.grown.disk := by
    unfold Disk.setUsed disk
    rw [block, Disk.setBlock_self, Nat.mod_eq_of_lt small, ← bitmap_succ]
    exact update_idem _ _ _
  unfold Locked.afterBalloc
  rw [marked]
  have zero : st.grown.disk st.freeblock = fun _ => 0 :=
    (disk_other (Sound.ne_bmapstart sound.above)).trans (sound.zero _ (le_refl _))
  rw [← zero]
  exact (update_eq_self _ _).symm

theorem Sound.balloc (sound : Sound st) (room : st.freeblock < FSSIZE) (ip : Dinode) :
    Fs.balloc sb ⟨st.disk, ip⟩ = .ok (st.freeblock, ⟨st.grown.disk, ip⟩) := by
  have found : (List.range sb.size).find? (fun b => !st.disk.used sb b) = some st.freeblock := by
    rw [List.find?_range_eq_some]
    refine ⟨?_, List.mem_range.mpr room, ?_⟩
    · rw [used_disk st room]
      simp
    · intro b less
      rw [used_disk st (lt_trans less room)]
      simpa using less
  unfold Fs.balloc
  rw [found, sound.disk_grown room]
  rfl

end State

open State

/-! ### Counting blocks -/

/-- The blocks of a file with so many data blocks, the indirect block included. -/
def charge (blocks : Nat) : Nat := blocks + if NDIRECT < blocks then 1 else 0

/-- `mapBlock` has done what `bmap` does. -/
structure Maps (din : Dinode) (blocks fbn : Nat) (st : State) (x : Nat) (din' : Dinode)
    (st' : State) : Prop where
  bmap : Fs.bmap sb fbn ⟨st.disk, din⟩ = .ok (x, ⟨st'.disk, din'⟩)
  sound : Sound st'
  count : st'.freeblock + charge blocks = st.freeblock + charge (max blocks (fbn + 1))
  freeinode : st'.freeinode = st.freeinode
  metadata : ∀ b, b < nmeta → st'.image b = st.image b

/-- What is left of the image does not hold the blocks that are needed. -/
def NoRoom (st : State) (blocks more : Nat) : Prop :=
  FSSIZE + charge blocks < st.freeblock + charge more

theorem charge_direct {blocks : Nat} (direct : blocks < NDIRECT) :
    charge (blocks + 1) = charge blocks + 1 := by
  unfold charge
  rw [if_neg (by omega), if_neg (by omega)]

theorem charge_indirect {blocks : Nat} (large : NDIRECT < blocks) :
    charge (blocks + 1) = charge blocks + 1 := by
  unfold charge
  rw [if_pos (by omega), if_pos large]

/-! ### Finding and allocating a block -/

theorem nextBlock_eq (st : State) : nextBlock st = .ok (st.freeblock, st.grown) := rfl

/-- `mapAddr` allocates as `addrOrAlloc` does, unless the image is full. -/
theorem mapAddr_alloc {st : State} (sound : Sound st) {din : Dinode} {i : Fin (NDIRECT + 1)}
    (empty : din.addrs i = 0) :
    mapAddr din i st =
        .ok ({ din with addrs := update din.addrs i st.freeblock }, st.grown) ∧
      (st.freeblock < FSSIZE → addrOrAlloc sb i ⟨st.disk, din⟩ =
        .ok (st.freeblock,
          ⟨st.grown.disk, { din with addrs := update din.addrs i st.freeblock }⟩)) := by
  refine ⟨?_, ?_⟩
  · unfold mapAddr
    rw [if_pos empty, bind_ok (nextBlock_eq st)]
    rfl
  · intro room
    unfold addrOrAlloc
    rw [bind_ok rfl, if_pos empty, bind_ok (sound.balloc room din)]
    rfl

theorem mapAddr_found (st : State) {din : Dinode} {i : Fin (NDIRECT + 1)}
    (some : din.addrs i ≠ 0) :
    mapAddr din i st = .ok (din, st) ∧
      addrOrAlloc sb i ⟨st.disk, din⟩ = .ok (din.addrs i, ⟨st.disk, din⟩) := by
  refine ⟨?_, ?_⟩
  · unfold mapAddr
    rw [if_neg some]
    rfl
  · unfold addrOrAlloc
    rw [bind_ok rfl, if_neg some]
    rfl

/-- The state after `mapEntry` has allocated. -/
def State.linked (st : State) (b j : Nat) : State :=
  st.grown.stored b ((st.image b).setRecord 4 j (toBytes 4 st.freeblock))

theorem mapEntry_alloc {st : State} (sound : Sound st) {b j : Nat} (din : Dinode)
    (above : nmeta ≤ b) (below : b < st.freeblock) (empty : st.disk.entry b j = 0) :
    mapEntry b j st = .ok (st.freeblock, st.linked b j) ∧
      (st.freeblock < FSSIZE → entryOrAlloc sb b j ⟨st.disk, din⟩ =
        .ok (st.freeblock, ⟨(st.linked b j).disk, din⟩)) := by
  have inside : b < FSSIZE := lt_of_lt_of_le below sound.below
  have notBitmap := Sound.ne_bmapstart above
  have same : st.disk b = st.image b := disk_other notBitmap
  have entry : ofBytes ((st.image b).record 4 j) = 0 := by
    rw [← same]
    exact empty
  have sectors : max st.sectors (b + 1) = st.sectors := by
    rw [sound.sectors]
    omega
  have write : wsect b ((st.image b).setRecord 4 j (toBytes 4 st.freeblock)) st.grown =
      .ok ((), st.linked b j) := by
    change Except.ok ((), { st.grown with
      image := st.image.setBlock b ((st.image b).setRecord 4 j (toBytes 4 st.freeblock))
      sectors := max st.sectors (b + 1) }) = _
    rw [sectors]
    rfl
  refine ⟨?_, ?_⟩
  · unfold mapEntry
    rw [bind_ok (sound.rsect inside), if_pos entry, bind_ok (nextBlock_eq st), bind_ok write]
    rfl
  · intro room
    have grown : st.grown.disk b = st.image b := disk_other notBitmap
    unfold entryOrAlloc
    rw [bind_ok rfl, if_pos empty, bind_ok (sound.balloc room din)]
    change Except.ok (st.freeblock, (⟨st.grown.disk.setEntry b j st.freeblock, din⟩ : Locked)) = _
    unfold State.linked
    rw [disk_stored _ notBitmap, Disk.setEntry, grown]

theorem mapEntry_found {st : State} (sound : Sound st) {b j : Nat} (din : Dinode)
    (above : nmeta ≤ b) (below : b < FSSIZE) (some : st.disk.entry b j ≠ 0) :
    mapEntry b j st = .ok (st.disk.entry b j, st) ∧
      entryOrAlloc sb b j ⟨st.disk, din⟩ = .ok (st.disk.entry b j, ⟨st.disk, din⟩) := by
  have same : st.disk b = st.image b := disk_other (Sound.ne_bmapstart above)
  have entry : ofBytes ((st.image b).record 4 j) = st.disk.entry b j := by
    rw [← same]
    rfl
  refine ⟨?_, ?_⟩
  · unfold mapEntry
    rw [bind_ok (sound.rsect below), entry, if_neg some]
    rfl
  · unfold entryOrAlloc
    rw [bind_ok rfl, if_neg some]
    rfl

/-- `mapBlock` does what `bmap` does; if there is no room, it fails or finds a block behind the
end of the image. -/
def Mapping (st : State) (din : Dinode) (blocks fbn : Nat) : Prop :=
  (mapBlock din fbn).Ends st (fun _ => NoRoom st blocks (max blocks (fbn + 1)))
    (fun r st' => (st'.sectors = FSSIZE ∧ FSSIZE ≤ r.1 ∧ NoRoom st blocks (max blocks (fbn + 1))) ∨
      Maps din blocks fbn st r.1 r.2 st')

variable {st : State} {din : Dinode} {blocks x off inum : Nat} {p : List UInt8}

theorem Maps.found {fbn : Nat} (sound : Sound st)
    (bmap : Fs.bmap sb fbn ⟨st.disk, din⟩ = .ok (x, ⟨st.disk, din⟩)) (inside : fbn < blocks) :
    Maps din blocks fbn st x din st := by
  refine ⟨bmap, sound, ?_, rfl, fun _ _ => rfl⟩
  rw [Nat.max_eq_left inside]

section Map

variable {st : State} {din : Dinode} {inum blocks fbn : Nat}

theorem slot_range (inv : Locked.Inv sb inum ⟨st.disk, din⟩ blocks) {k : Nat}
    (holds : Locked.slots sb inum ⟨st.disk, din⟩ (inum, k) ≠ 0) :
    nmeta ≤ Locked.slots sb inum ⟨st.disk, din⟩ (inum, k) ∧
      Locked.slots sb inum ⟨st.disk, din⟩ (inum, k) < st.freeblock := by
  have range := inv.map.range _ holds
  have used := inv.map.used_of_held holds
  change st.disk.used sb _ = true at used
  rw [used_disk st range.2] at used
  exact ⟨range.1, of_decide_eq_true used⟩

variable (sound : Sound st) (inv : Locked.Inv sb inum ⟨st.disk, din⟩ blocks)

include sound inv

theorem mapBlock_direct (next : fbn ≤ blocks) (direct : fbn < NDIRECT) :
    Mapping st din blocks fbn := by
  have bounded : fbn < MAXFILE := lt_of_lt_of_le direct (by decide)
  have slot : Locked.slots sb inum ⟨st.disk, din⟩ (inum, blockSlot fbn) =
      din.addrs ⟨fbn, Nat.lt_succ_of_lt direct⟩ := by
    rw [inv.slot_eq (blockSlot_lt bounded), blockSlot, if_pos direct, Disk.slot,
      dif_pos (Nat.lt_succ_of_lt direct)]
  have filled := inv.extent.data fbn bounded
  rw [slot] at filled
  have kernel : Fs.bmap sb fbn = addrOrAlloc sb ⟨fbn, Nat.lt_succ_of_lt direct⟩ := by
    unfold Fs.bmap
    rw [dif_pos direct]
  unfold Mapping mapBlock
  rw [dif_pos direct]
  by_cases empty : din.addrs ⟨fbn, Nat.lt_succ_of_lt direct⟩ = 0
  · have last : fbn = blocks := by
      by_contra other
      exact filled.mpr (lt_of_le_of_ne next other) empty
    have more : charge (max blocks (fbn + 1)) = charge blocks + 1 := by
      rw [last, Nat.max_eq_right (Nat.le_succ _)]
      exact charge_direct (last ▸ direct)
    obtain ⟨ran, kernelRan⟩ := mapAddr_alloc sound empty
    refine Ends.bind_of_ok ran (Ends.of_pure ?_)
    dsimp only
    rw [update_self]
    by_cases room : st.freeblock < FSSIZE
    · refine Or.inr ⟨by rw [kernel]; exact kernelRan room, sound.grown room, ?_, rfl,
        fun _ _ => rfl⟩
      rw [more]
      change st.freeblock + 1 + charge blocks = _
      omega
    · refine Or.inl ⟨sound.sectors, not_lt.mp room, ?_⟩
      unfold NoRoom
      rw [more]
      omega
  · obtain ⟨ran, kernelRan⟩ := mapAddr_found st empty
    refine Ends.bind_of_ok ran (Ends.of_pure ?_)
    exact Or.inr (Maps.found sound (by rw [kernel]; exact kernelRan) (filled.mp empty))

/-- The file has an indirect block already. -/
theorem mapBlock_entry (next : fbn ≤ blocks) (large : ¬fbn < NDIRECT) (bounded : fbn < MAXFILE)
    (some : din.addrs Locked.indirect ≠ 0) :
    Mapping st din blocks fbn := by
  have isSlot : Locked.slots sb inum ⟨st.disk, din⟩ (inum, NDIRECT) = din.addrs Locked.indirect :=
    inv.indirect_eq
  obtain ⟨above, below⟩ := slot_range inv (by rw [isSlot]; exact some)
  rw [isSlot] at above below
  have small : fbn - NDIRECT < NINDIRECT := by
    simp only [MAXFILE] at bounded
    omega
  have slot : Locked.slots sb inum ⟨st.disk, din⟩ (inum, blockSlot fbn) =
      st.disk.entry (din.addrs Locked.indirect) (fbn - NDIRECT) := by
    have place : blockSlot fbn = fbn + 1 := if_neg large
    rw [inv.slot_eq (blockSlot_lt bounded), place, Disk.slot, dif_neg (by omega), if_neg some,
      Nat.add_sub_add_right]
  have filled := inv.extent.data fbn bounded
  rw [slot] at filled
  have beyond : NDIRECT < blocks := by
    rw [← inv.extent.indirect, inv.indirect_eq]
    exact some
  obtain ⟨ran, kernelAddr⟩ := mapAddr_found st some
  have kernel : Fs.bmap sb fbn ⟨st.disk, din⟩ =
      entryOrAlloc sb (din.addrs Locked.indirect) (fbn - NDIRECT) ⟨st.disk, din⟩ := by
    unfold Fs.bmap
    rw [dif_neg large, if_pos small, bind_ok kernelAddr]
  unfold Mapping mapBlock
  rw [dif_neg large]
  refine Ends.bind_of_ok ran ?_
  by_cases empty : st.disk.entry (din.addrs Locked.indirect) (fbn - NDIRECT) = 0
  · have last : fbn = blocks := by
      by_contra other
      exact filled.mpr (lt_of_le_of_ne next other) empty
    have more : charge (max blocks (fbn + 1)) = charge blocks + 1 := by
      rw [last, Nat.max_eq_right (Nat.le_succ _)]
      exact charge_indirect beyond
    obtain ⟨linked, kernelRan⟩ := mapEntry_alloc sound din above below empty
    refine Ends.bind_of_ok linked (Ends.of_pure ?_)
    by_cases room : st.freeblock < FSSIZE
    · refine Or.inr ⟨by rw [kernel]; exact kernelRan room,
        (sound.grown room).stored _ (Nat.lt_succ_of_lt below), ?_, rfl, ?_⟩
      · rw [more]
        change st.freeblock + 1 + charge blocks = _
        omega
      · intro b isMeta
        exact Disk.setBlock_other _ _ (Nat.ne_of_lt (lt_of_lt_of_le isMeta above))
    · refine Or.inl ⟨sound.sectors, not_lt.mp room, ?_⟩
      unfold NoRoom
      rw [more]
      omega
  · obtain ⟨found, kernelRan⟩ := mapEntry_found sound din above
      (lt_of_lt_of_le below sound.below) empty
    refine Ends.bind_of_ok found (Ends.of_pure ?_)
    exact Or.inr (Maps.found sound (by rw [kernel]; exact kernelRan) (filled.mp empty))

/-- The first block behind the direct ones. -/
theorem mapBlock_first_indirect (next : fbn ≤ blocks) (large : ¬fbn < NDIRECT)
    (none : din.addrs Locked.indirect = 0) :
    Mapping st din blocks fbn := by
  have few : ¬NDIRECT < blocks := by
    rw [← inv.extent.indirect, inv.indirect_eq]
    exact not_not.mpr none
  obtain rfl : fbn = NDIRECT := by omega
  obtain rfl : blocks = NDIRECT := by omega
  have more : charge (max NDIRECT (NDIRECT + 1)) = charge NDIRECT + 2 := rfl
  have below := sound.below
  obtain ⟨ran, kernelAddr⟩ := mapAddr_alloc sound none
  unfold Mapping mapBlock
  rw [dif_neg large]
  refine Ends.bind_of_ok ran ?_
  dsimp only
  rw [update_self]
  by_cases room : st.freeblock < FSSIZE
  · have grown := sound.grown room
    have zero : st.grown.disk st.freeblock = fun _ => 0 :=
      (disk_other (Sound.ne_bmapstart sound.above)).trans (sound.zero _ (le_refl _))
    obtain ⟨linked, kernelRan⟩ := mapEntry_alloc (j := NDIRECT - NDIRECT) grown
      { din with addrs := update din.addrs Locked.indirect st.freeblock } sound.above
      (Nat.lt_succ_self _) (Disk.entry_of_zero _ _ zero)
    refine Ends.bind_of_ok linked (Ends.of_pure ?_)
    by_cases more' : st.freeblock + 1 < FSSIZE
    · refine Or.inr ⟨?_, (grown.grown more').stored _ (by change _ < st.freeblock + 1 + 1; omega),
        ?_, rfl, ?_⟩
      · unfold Fs.bmap
        rw [dif_neg large, if_pos (by decide), bind_ok (kernelAddr room)]
        exact kernelRan more'
      · rw [more]
        change st.freeblock + 1 + 1 + charge NDIRECT = _
        omega
      · intro b isMeta
        exact Disk.setBlock_other _ _ (Nat.ne_of_lt (lt_of_lt_of_le isMeta sound.above))
    · refine Or.inl ⟨sound.sectors, not_lt.mp more', ?_⟩
      unfold NoRoom
      rw [more]
      omega
  · have failed : mapEntry st.freeblock (NDIRECT - NDIRECT) st.grown = .error .read := by
      have outside : ¬st.freeblock < st.grown.sectors := by
        change ¬st.freeblock < st.sectors
        rw [sound.sectors]
        exact room
      unfold mapEntry
      change (rsect st.freeblock st.grown >>= _) = _
      unfold rsect
      rw [if_neg outside]
      rfl
    refine Ends.bind_of_error failed ?_
    unfold NoRoom
    rw [more]
    omega

theorem mapBlock_ends (next : fbn ≤ blocks) (bounded : fbn < MAXFILE) :
    Mapping st din blocks fbn := by
  by_cases direct : fbn < NDIRECT
  · exact mapBlock_direct sound inv next direct
  · by_cases none : din.addrs Locked.indirect = 0
    · exact mapBlock_first_indirect sound inv next direct none
    · exact mapBlock_entry sound inv next direct bounded none

end Map

/-! ### The loop of iappend -/

theorem charge_mono {few many : Nat} (less : few ≤ many) : charge few ≤ charge many := by
  unfold charge
  split <;> split <;> omega

theorem require_of {condition : Prop} [Decidable condition] {failure : Failure} (holds : condition)
    : require condition failure st = .ok ((), st) := by
  unfold require
  rw [if_pos holds]
  rfl

theorem require_not {condition : Prop} [Decidable condition] {failure : Failure}
    (fails : ¬condition) : require condition failure st = .error failure := by
  unfold require
  rw [if_neg fails]
  rfl

/-- The loop has done what the loop of `writei` does. -/
structure Appends (fuel : Nat) (din : Dinode) (blocks off : Nat) (p : List UInt8) (st : State)
    (off' : Nat) (din' : Dinode) (st' : State) : Prop where
  fits : off + p.length ≤ MAXFILE * BSIZE
  kernel : writeBlocks sb fuel off p ⟨st.disk, din⟩ = .ok (off', ⟨st'.disk, din'⟩)
  sound : Sound st'
  count : st'.freeblock + charge blocks =
    st.freeblock + charge (max blocks (blocksFor (off + p.length)))
  freeinode : st'.freeinode = st.freeinode
  metadata : ∀ b, b < nmeta → st'.image b = st.image b

/-- There is no room for the bytes, on the disk or in the file. -/
def Overflows (st : State) (blocks size : Nat) : Prop :=
  NoRoom st blocks (max blocks (blocksFor size)) ∨ MAXFILE * BSIZE < size

theorem Appends.nil {fuel : Nat} (sound : Sound st) (bound : blocks ≤ MAXFILE)
    (reached : off ≤ blocks * BSIZE) :
    Appends fuel din blocks off [] st off din st := by
  have most : blocks * BSIZE ≤ MAXFILE * BSIZE := Nat.mul_le_mul_right _ bound
  refine ⟨le_trans reached most, ?_, sound, ?_, rfl, fun _ _ => rfl⟩
  · cases fuel with
    | zero => rfl
    | succ fuel => rfl
  · rw [List.length_nil, Nat.add_zero, Nat.max_eq_left (blocksFor_le.mpr reached)]

theorem Maps.stored {st' : State} {din' : Dinode} {fbn : Nat}
    (maps : Maps din blocks fbn st x din' st') (inv : Locked.Inv sb inum ⟨st.disk, din⟩ blocks)
    (next : fbn ≤ blocks) (bounded : fbn < MAXFILE) (area : Area) :
    nmeta ≤ x ∧ x < st'.freeblock ∧
      Locked.Inv sb inum ⟨(st'.stored x area).disk, din'⟩ (max blocks (fbn + 1)) := by
  have mapped := (Locked.bmap_ends inv next bounded).post_of_ok maps.bmap
  have present : fbn < max blocks (fbn + 1) := by omega
  obtain ⟨above, below⟩ := slot_range mapped.inv (mapped.inv.holds present)
  have stored := Locked.store_inv mapped.inv present area
  unfold Locked.store at stored
  rw [← mapped.addr] at above below stored
  rw [disk_stored area (Sound.ne_bmapstart above)]
  exact ⟨above, below, stored⟩

/-- The bytes of one round, as `writei` counts them. -/
def round (off : Nat) (p : List UInt8) : Nat := min p.length (BSIZE - off % BSIZE)

theorem round_eq (off : Nat) (p : List UInt8) :
    min p.length ((off / BSIZE + 1) * BSIZE - off) = round off p := by
  unfold round
  have split := Nat.div_add_mod off BSIZE
  simp only [BSIZE] at *
  omega

theorem round_le (off : Nat) (p : List UInt8) : round off p ≤ p.length := Nat.min_le_left _ _

theorem round_pos (off : Nat) (some : p ≠ []) : 0 < round off p := by
  have length : 0 < p.length := List.length_pos_iff.mpr some
  have remainder : off % BSIZE < BSIZE := Nat.mod_lt _ (by decide)
  unfold round
  omega

theorem round_reaches (off blocks : Nat) (p : List UInt8) :
    off + round off p ≤ max blocks (off / BSIZE + 1) * BSIZE := by
  have split := Nat.div_add_mod off BSIZE
  have remainder : off % BSIZE < BSIZE := Nat.mod_lt _ (by decide)
  have step : (off / BSIZE + 1) * BSIZE ≤ max blocks (off / BSIZE + 1) * BSIZE :=
    Nat.mul_le_mul_right _ (Nat.le_max_right _ _)
  unfold round
  simp only [BSIZE] at *
  omega

theorem round_rest (off : Nat) (p : List UInt8) :
    off + round off p + (p.drop (round off p)).length = off + p.length := by
  have most := round_le off p
  rw [List.length_drop]
  omega

theorem needs_block (off : Nat) (some : p ≠ []) :
    off / BSIZE < blocksFor (off + p.length) := by
  have length : 0 < p.length := List.length_pos_iff.mpr some
  have split := Nat.div_add_mod off BSIZE
  rw [lt_blocksFor, Nat.mul_comm]
  omega

/-- One round of the loop, and the rounds after it. -/
theorem Appends.round {fuel : Nat} {st' st₂ : State} {din' din₂ : Dinode} {off' : Nat}
    (maps : Maps din blocks (off / BSIZE) st x din' st') (above : nmeta ≤ x) (some : p ≠ [])
    (rest : Appends fuel din' (max blocks (off / BSIZE + 1)) (off + round off p)
      (p.drop (round off p))
      (st'.stored x ((st'.image x).patch (off % BSIZE) (p.take (round off p)))) off' din₂ st₂) :
    Appends (fuel + 1) din blocks off p st off' din₂ st₂ := by
  have needed := needs_block off some
  have joined : max (max blocks (off / BSIZE + 1)) (blocksFor (off + p.length)) =
      max blocks (blocksFor (off + p.length)) := by omega
  have same : st'.disk x = st'.image x := disk_other (Sound.ne_bmapstart above)
  have length := round_rest off p
  refine ⟨?_, ?_, rest.sound, ?_, rest.freeinode.trans maps.freeinode, ?_⟩
  · rw [← length]
    exact rest.fits
  · have kernel := rest.kernel
    rw [disk_stored _ (Sound.ne_bmapstart above), ← same] at kernel
    unfold writeBlocks
    rw [if_neg some, bind_ok maps.bmap]
    exact kernel
  · have before := maps.count
    have after := rest.count
    rw [length, joined] at after
    change _ = st'.freeblock + _ at after
    omega
  · intro b isMeta
    rw [rest.metadata b isMeta, ← maps.metadata b isMeta]
    exact Disk.setBlock_other _ _ (Nat.ne_of_lt (lt_of_lt_of_le isMeta above))

theorem appendBlocks_ends (fuel : Nat) (sound : Sound st)
    (inv : Locked.Inv sb inum ⟨st.disk, din⟩ blocks) (enough : p.length ≤ fuel)
    (reached : off ≤ blocks * BSIZE) :
    (appendBlocks fuel din off p).Ends st (fun _ => Overflows st blocks (off + p.length))
      (fun r st' => Appends fuel din blocks off p st r.1 r.2 st') := by
  induction fuel generalizing st din blocks off p with
  | zero =>
    obtain rfl : p = [] := List.length_eq_zero_iff.mp (by omega)
    exact Ends.of_pure (Appends.nil sound inv.extent.bound reached)
  | succ fuel ih =>
    unfold appendBlocks
    by_cases finished : p = []
    · rw [if_pos finished, finished]
      exact Ends.of_pure (Appends.nil sound inv.extent.bound reached)
    · rw [if_neg finished]
      have next : off / BSIZE ≤ blocks := by
        simp only [BSIZE] at *
        omega
      have needed := needs_block off finished
      have noRoom : NoRoom st blocks (max blocks (off / BSIZE + 1)) →
          Overflows st blocks (off + p.length) := by
        intro full
        have least : max blocks (off / BSIZE + 1) ≤ max blocks (blocksFor (off + p.length)) := by
          omega
        have more := charge_mono least
        unfold NoRoom at full
        refine Or.inl ?_
        unfold NoRoom
        omega
      have place : off - off / BSIZE * BSIZE = off % BSIZE := by
        simp only [BSIZE] at *
        omega
      dsimp only
      rw [round_eq, place]
      by_cases bounded : off / BSIZE < MAXFILE
      · refine Ends.bind_of_ok (require_of bounded) ?_
        refine Ends.bind ((mapBlock_ends sound inv next bounded).excuse (fun _ => noRoom)) ?_
        rintro ⟨x, din'⟩ st' (⟨sectors, outside, full⟩ | maps)
        · have failed : rsect x st' = .error .read := by
            unfold rsect
            rw [sectors, if_neg (not_lt.mpr outside)]
          exact Ends.bind_of_error failed (noRoom full)
        · obtain ⟨above, below, stored⟩ := maps.stored inv next bounded
            ((st'.image x).patch (off % BSIZE) (p.take (round off p)))
          have inImage : x < FSSIZE := lt_of_lt_of_le below maps.sound.below
          dsimp only
          refine Ends.bind_of_ok (maps.sound.rsect inImage) ?_
          refine Ends.bind_of_ok (maps.sound.wsect _ inImage) ?_
          have progress := round_pos off finished
          have fewer : (p.drop (round off p)).length ≤ fuel := by
            rw [List.length_drop]
            omega
          have recursive := ih (maps.sound.stored _ below) stored fewer
            (round_reaches off blocks p)
          rw [round_rest] at recursive
          refine (recursive.excuse ?_).mono (fun r st₂ rest => rest.round maps above finished)
          rintro _ (full | large)
          · have already := maps.count
            have joined : max (max blocks (off / BSIZE + 1)) (blocksFor (off + p.length)) =
                max blocks (blocksFor (off + p.length)) := by omega
            refine Or.inl ?_
            unfold NoRoom at full ⊢
            rw [joined] at full
            change FSSIZE + _ < st'.freeblock + _ at full
            omega
          · exact Or.inr large
      · refine Ends.bind_of_error (require_not bounded) (Or.inr ?_)
        have some : 0 < p.length := List.length_pos_iff.mpr finished
        simp only [BSIZE] at *
        omega

/-! ### Inodes -/

namespace State

variable {st : State} {inum : Nat}

/-- After `winode`. -/
def updated (st : State) (inum : Nat) (d : Dinode) : State :=
  st.stored (Disk.inodeBlock sb inum)
    ((st.image (Disk.inodeBlock sb inum)).setRecord 64 (inum % IPB) d.bytes)

theorem inodeBlock_range (inside : inum < NINODES) :
    sb.inodestart ≤ Disk.inodeBlock sb inum ∧ Disk.inodeBlock sb inum < sb.bmapstart := by
  unfold Disk.inodeBlock
  rw [sb_inodestart, sb_bmapstart]
  simp only [NINODES, IPB] at *
  omega

theorem inodeBlock_lt_nmeta (inside : inum < NINODES) : Disk.inodeBlock sb inum < nmeta :=
  lt_trans (inodeBlock_range inside).2 (by decide)

theorem disk_updated (inside : inum < NINODES) (d : Dinode) :
    (st.updated inum d).disk = st.disk.setDinode sb inum d := by
  have other := Nat.ne_of_lt (inodeBlock_range inside).2
  unfold updated Disk.setDinode
  rw [disk_stored _ other, disk_other other]

theorem Sound.updated (sound : Sound st) (inside : inum < NINODES) (d : Dinode) :
    Sound (st.updated inum d) :=
  sound.stored _ (lt_of_lt_of_le (inodeBlock_lt_nmeta inside) sound.above)

theorem image_updated {b : Nat} (d : Dinode) (inside : inum < NINODES) (low : b < sb.inodestart) :
    (st.updated inum d).image b = st.image b :=
  Disk.setBlock_other _ _ (Nat.ne_of_lt (lt_of_lt_of_le low (inodeBlock_range inside).1))

theorem Sound.winode (sound : Sound st) (inside : inum < NINODES) (d : Dinode) :
    Mkfs.winode inum d st = .ok ((), st.updated inum d) := by
  have inImage : Disk.inodeBlock sb inum < FSSIZE := lt_trans (inodeBlock_lt_nmeta inside) (by decide)
  unfold Mkfs.winode
  rw [bind_ok (sound.rsect inImage), sound.wsect _ inImage]
  rfl

theorem Sound.rinode (sound : Sound st) (inside : inum < NINODES) :
    Mkfs.rinode inum st = .ok (st.disk.dinode sb inum, st) := by
  have inImage : Disk.inodeBlock sb inum < FSSIZE := lt_trans (inodeBlock_lt_nmeta inside) (by decide)
  unfold Mkfs.rinode Disk.dinode
  rw [bind_ok (sound.rsect inImage), disk_other (Nat.ne_of_lt (inodeBlock_range inside).2)]
  rfl

end State

/-! ### iappend -/

/-- The bytes have been appended to a file of the image. -/
structure Appended (inum : Nat) (p : List UInt8) (st st' : State) : Prop where
  sound : Sound st'
  written : ∃ ip, Locked.Written sb inum (st.disk.dinode sb inum).size p
    ⟨st.disk, st.disk.dinode sb inum⟩ ⟨st'.disk, ip⟩
  fits : (st.disk.dinode sb inum).size + p.length ≤ MAXFILE * BSIZE
  count : st'.freeblock + charge (blocksFor (st.disk.dinode sb inum).size) =
    st.freeblock + charge (blocksFor ((st.disk.dinode sb inum).size + p.length))
  freeinode : st'.freeinode = st.freeinode
  low : ∀ b, b < sb.inodestart → st'.image b = st.image b

theorem blocksFor_mono {small large : Nat} (less : small ≤ large) :
    blocksFor small ≤ blocksFor large := by
  unfold blocksFor
  simp only [BSIZE]
  omega

theorem iappend_ends (sound : Sound st)
    (rest : Locked.AtRest sb inum ⟨st.disk, st.disk.dinode sb inum⟩) (some : p ≠ []) :
    (iappend inum p).Ends st
      (fun _ => Overflows st (blocksFor (st.disk.dinode sb inum).size)
        ((st.disk.dinode sb inum).size + p.length))
      (fun _ st' => Appended inum p st st') := by
  have inside : inum < NINODES := rest.inv.inside
  have reached := blocksFor_le.mp (le_refl (blocksFor (st.disk.dinode sb inum).size))
  unfold iappend
  refine Ends.bind_of_ok (sound.rinode inside) ?_
  refine Ends.bind (appendBlocks_ends p.length sound rest.inv (le_refl _) reached) ?_
  rintro ⟨off', din'⟩ st' appends
  obtain ⟨rfl, wrote⟩ := (Locked.writeBlocks_takes p.length rest.inv (le_refl _) reached
    appends.fits).ends.post_of_ok appends.kernel
  refine Ends.of_ok (appends.sound.winode inside _) ?_
  have length : 0 < p.length := List.length_pos_iff.mpr some
  have limit : MAXFILE * BSIZE < 2 ^ 32 := by decide
  have fits := appends.fits
  have kernel : writei sb {} inum (st.disk.dinode sb inum).size p
      ⟨st.disk, st.disk.dinode sb inum⟩ =
        .ok ((p.length : Int), ⟨(st'.updated inum
          { din' with size := (st.disk.dinode sb inum).size + p.length }).disk,
            { din' with size := (st.disk.dinode sb inum).size + p.length }⟩) := by
    have oldSize : din'.size = (st.disk.dinode sb inum).size := by
      have ip : din' = { st.disk.dinode sb inum with addrs := din'.addrs } := wrote.ip
      rw [ip]
    have whole : ((st.disk.dinode sb inum).size + p.length) % 2 ^ 32 =
        (st.disk.dinode sb inum).size + p.length := Nat.mod_eq_of_lt (by omega)
    unfold writei
    rw [bind_ok rfl, if_neg rest.inv.file, whole, if_neg (by dsimp only; omega),
      if_neg (not_lt.mpr fits), bind_ok appends.kernel, bind_ok rfl,
      if_pos ⟨length, by dsimp only; omega⟩, disk_updated inside]
    rfl
  have written := (Locked.writei_ends {} rest (by omega) (by omega)).post_of_ok kernel
  rcases written with ⟨failed, _⟩ | ⟨_, _, _, written⟩
  · omega
  · refine ⟨appends.sound.updated inside _, ⟨_, written⟩, fits, ?_, appends.freeinode, ?_⟩
    · have count := appends.count
      rw [Nat.max_eq_right (blocksFor_mono (Nat.le_add_right _ _))] at count
      exact count
    · intro b low
      rw [image_updated _ inside low]
      exact appends.metadata b (lt_trans low (by decide))

end Xv6.Mkfs
