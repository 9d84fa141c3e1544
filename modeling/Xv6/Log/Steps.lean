/-
What the functions of the log model do to a storage, and what each event can do.

The cache is looked at here for the last time: what follows sees a storage through its
disk, through what `bread` returns and through which buffers are dirty.
-/

import Xv6.Log.Model

namespace Xv6.Log

open Function Library

/-! ### Buffers -/

/-- A storage without the choice of which clean blocks are cached: the disk, what
`bread` returns, which buffers are dirty, and the header in memory. -/
structure View where
  disk : Nat → Block
  read : Nat → Block
  dirty : Nat → Bool
  lh : LogHeader

namespace View

def write (view : View) (blockno : Nat) (data : Block) : View where
  disk := update view.disk blockno data
  read := update view.read blockno data
  dirty := update view.dirty blockno false
  lh := view.lh

/-- A clean buffer holds what is on the disk. -/
def Coherent (view : View) : Prop :=
  ∀ blockno, view.dirty blockno = false → view.read blockno = view.disk blockno

theorem Coherent.write {view : View} (coherent : view.Coherent) (blockno : Nat)
    (data : Block) : (view.write blockno data).Coherent := by
  intro other clean
  simp only [View.write] at clean ⊢
  by_cases same : other = blockno
  · subst other
    rw [update_self, update_self]
  · rw [update_of_ne same] at clean
    rw [update_of_ne same, update_of_ne same]
    exact coherent other clean

end View

namespace Storage

variable (storage : Storage)

def view : View := ⟨storage.disk, storage.read, storage.dirty, storage.lh⟩

theorem read_setBuf (blockno : Nat) (buf : Buf) :
    (storage.setBuf blockno (some buf)).read =
      update storage.read blockno buf.data := by
  funext other
  by_cases same : other = blockno
  · subst other
    simp [read, setBuf]
  · simp [read, setBuf, same]

theorem dirty_setBuf (blockno : Nat) (buf : Option Buf) :
    (storage.setBuf blockno buf).dirty =
      update storage.dirty blockno (buf.any Buf.dirty) := by
  funext other
  by_cases same : other = blockno
  · subst other
    simp [dirty, setBuf]
  · simp [dirty, setBuf, same]

theorem view_bread (blockno : Nat) : (storage.bread blockno).view = storage.view := by
  have read : (storage.bread blockno).read = storage.read := by
    rw [bread, read_setBuf, update_eq_self]
  have dirty : (storage.bread blockno).dirty = storage.dirty := by
    rw [bread, dirty_setBuf, Option.any_some, update_eq_self]
  unfold view
  rw [read, dirty]
  rfl

theorem view_bwrite (blockno : Nat) (data : Block) :
    (storage.bwrite blockno data).view = storage.view.write blockno data := by
  have read : (storage.bwrite blockno data).read =
      update storage.read blockno data := by
    rw [← read_setBuf storage blockno ⟨data, false⟩]
    funext other
    by_cases same : other = blockno
    · subst other
      simp [Storage.read, bwrite, setBuf]
    · simp [Storage.read, bwrite, setBuf, same]
  have dirty := storage.dirty_setBuf blockno (some ⟨data, false⟩)
  unfold view View.write
  rw [read]
  exact congrArg (fun flags => View.mk _ _ flags _) dirty

theorem view_recycle {storage after : Storage} {blockno : Nat}
    (coherent : storage.view.Coherent) (recycled : storage.recycle blockno = some after) :
    after.view = storage.view ∧ after.stage = storage.stage ∧
      after.active = storage.active := by
  unfold recycle at recycled
  split at recycled
  · cases recycled
  · rename_i flag
    have clean : storage.dirty blockno = false := Bool.not_eq_true _ ▸ flag
    cases recycled
    have read : (storage.setBuf blockno none).read = storage.read := by
      funext other
      by_cases same : other = blockno
      · subst other
        have found := coherent blockno clean
        change storage.read blockno = storage.disk blockno at found
        rw [found]
        simp [Storage.read, setBuf]
      · simp [Storage.read, setBuf, same]
    have dirty : (storage.setBuf blockno none).dirty = storage.dirty := by
      rw [dirty_setBuf, Option.any_none, ← clean, update_eq_self]
    refine ⟨?_, rfl, rfl⟩
    unfold view
    rw [read, dirty]
    rfl

/-- `log_write` under the lock, where the header has room. -/
def logged (blockno : Nat) (data : Block) (tested : List Nat) : Storage :=
  { storage.setBuf blockno (some ⟨data, true⟩) with
    lh := storage.lh.record blockno
    tested := tested }

theorem view_logged (blockno : Nat) (data : Block) (tested : List Nat) :
    (storage.logged blockno data tested).view =
      { disk := storage.disk
        read := update storage.read blockno data
        dirty := update storage.dirty blockno true
        lh := storage.lh.record blockno } := by
  have read := storage.read_setBuf blockno ⟨data, true⟩
  have dirty := storage.dirty_setBuf blockno (some ⟨data, true⟩)
  exact congrArg₂ (fun contents flags => View.mk storage.disk contents flags _) read dirty

variable (layout : Layout)

theorem view_writeHead : (storage.writeHead layout).view =
    storage.view.write layout.start (storage.lh.store (storage.read layout.start)) :=
  storage.view_bwrite _ _

theorem view_writeLog (tail : Nat) : (storage.writeLog layout tail).view =
    storage.view.write (layout.slot tail) (storage.read (storage.lh.block tail)) := by
  rw [writeLog, view_bwrite, view_bread]

theorem view_installTrans (tail : Nat) : (storage.installTrans layout tail).view =
    storage.view.write (storage.lh.block tail) (storage.read (layout.slot tail)) := by
  rw [installTrans, view_bwrite, view_bread]

theorem view_readHead : (storage.readHead layout).view =
    { storage.view with lh := storage.lh.load (storage.read layout.start) } := by
  have same := storage.view_bread layout.start
  have read := congrArg View.read same
  have dirty := congrArg View.dirty same
  exact congrArg₂ (fun contents flags => View.mk storage.disk contents flags _) read dirty

end Storage

/-! ### Headers -/

namespace LogHeader

variable (lh : LogHeader)

@[simp]
theorem length_blocks : lh.blocks.length = lh.n := by
  rw [blocks, List.length_map, List.length_range]

theorem mem_blocks {blockno : Nat} :
    blockno ∈ lh.blocks ↔ ∃ i, i < lh.n ∧ lh.block i = blockno := by
  simp only [blocks, List.mem_map, List.mem_range]

@[simp]
theorem store_n (hb : Block) : lh.store hb 0 = lh.n := rfl

theorem store_block (hb : Block) (bound : lh.n ≤ LOGSIZE) {i : Nat} (used : i < lh.n) :
    lh.store hb (Fin.ofNat WORDS (i + 1)) = lh.block i := by
  have small : i + 1 < WORDS := by
    change lh.n ≤ 30 at bound
    change i + 1 < 128
    omega
  have word : (Fin.ofNat WORDS (i + 1)).val = i + 1 := Nat.mod_eq_of_lt small
  rw [store, word, if_neg (Nat.succ_ne_zero i), if_pos (Nat.succ_le_of_lt used),
    Nat.add_sub_cancel]

/-- Recording a block appends it unless it is logged already. -/
theorem record_cases (blockno : Nat) :
    (blockno ∈ lh.blocks ∧ lh.record blockno = lh) ∨
      (blockno ∉ lh.blocks ∧
        lh.record blockno = ⟨lh.n + 1, update lh.block lh.n blockno⟩) := by
  by_cases member : blockno ∈ lh.blocks
  · have found : lh.blocks.findIdx (fun logged => logged == blockno) < lh.blocks.length :=
      List.findIdx_lt_length_of_exists ⟨blockno, member, beq_self_eq_true blockno⟩
    have hit := List.findIdx_getElem (w := found)
    have inside : lh.blocks.findIdx (fun logged => logged == blockno) < lh.n := by
      rw [length_blocks] at found
      exact found
    simp only [blocks, List.getElem_map, List.getElem_range, beq_iff_eq] at hit
    have unchanged : update lh.block
        (lh.blocks.findIdx (fun logged => logged == blockno)) blockno = lh.block := by
      rw [update_eq_self_iff]
      exact hit.symm
    refine Or.inl ⟨member, ?_⟩
    rw [record, if_neg (Nat.ne_of_lt inside)]
    exact congrArg (LogHeader.mk lh.n) unchanged
  · have missing : lh.blocks.findIdx (fun logged => logged == blockno) = lh.n := by
      rw [← length_blocks lh]
      apply List.findIdx_eq_length.mpr
      intro logged present
      rw [beq_eq_false_iff_ne]
      intro same
      subst logged
      exact member present
    refine Or.inr ⟨member, ?_⟩
    simp only [record, missing, if_true]

theorem mem_record {blockno other : Nat} :
    other ∈ (lh.record blockno).blocks ↔ other = blockno ∨ other ∈ lh.blocks := by
  rcases lh.record_cases blockno with ⟨member, same⟩ | ⟨absent, grown⟩
  · rw [same]
    constructor
    · exact Or.inr
    · intro either
      rcases either with equal | present
      · exact equal ▸ member
      · exact present
  · have listed : (lh.record blockno).blocks = lh.blocks ++ [blockno] := by
      rw [grown]
      simp only [blocks, List.range_succ, List.map_append, List.map_singleton,
        update_self]
      congr 1
      apply List.map_congr_left
      intro i inside
      exact update_of_ne (Nat.ne_of_lt (List.mem_range.mp inside)) _ _
    rw [listed, List.mem_append, List.mem_singleton, or_comm]

end LogHeader

/-! ### Events -/

/-- Everything that `commit`, the end of `end_op` and `recover_from_log` can do next. -/
inductive Advance (layout : Layout) (before : Storage) : Storage → Prop
  | skips (stage : before.stage = .commit) (nothing : before.lh.n = 0) :
      Advance layout before (before.setStage .release)
  | starts (stage : before.stage = .commit) (entries : 0 < before.lh.n) :
      Advance layout before (before.setStage (.writeLog 0))
  | copies (tail : Nat) (stage : before.stage = .writeLog tail) (more : tail < before.lh.n) :
      Advance layout before ((before.writeLog layout tail).setStage (.writeLog (tail + 1)))
  | copied (tail : Nat) (stage : before.stage = .writeLog tail) (all : before.lh.n ≤ tail) :
      Advance layout before (before.setStage .writeHead)
  | records (stage : before.stage = .writeHead) :
      Advance layout before ((before.writeHead layout).setStage (.installTrans .commit 0))
  | installs (caller : Caller) (tail : Nat) (stage : before.stage = .installTrans caller tail)
      (more : tail < before.lh.n) :
      Advance layout before
        ((before.installTrans layout tail).setStage (.installTrans caller (tail + 1)))
  | installed (caller : Caller) (tail : Nat) (stage : before.stage = .installTrans caller tail)
      (all : before.lh.n ≤ tail) :
      Advance layout before { before with lh.n := 0, stage := .eraseHead caller }
  | erases (stage : before.stage = .eraseHead .commit) :
      Advance layout before ((before.writeHead layout).setStage .release)
  | recovers (stage : before.stage = .eraseHead .recovery) :
      Advance layout before ((before.writeHead layout).setStage .idle)
  | releases (stage : before.stage = .release) :
      Advance layout before { before with committing := false, stage := .idle }
  | loads (stage : before.stage = .readHead) :
      Advance layout before
        ((before.readHead layout).setStage (.installTrans .recovery 0))

theorem advance_inversion {layout : Layout} {before after : Storage}
    (advanced : before.advance layout = some after) : Advance layout before after := by
  unfold Storage.advance at advanced
  split at advanced
  · cases advanced
  · cases advanced
  · rename_i stage
    split at advanced
    · rename_i positive
      cases advanced
      exact .starts stage positive
    · rename_i nothing
      cases advanced
      exact .skips stage (Nat.eq_zero_of_not_pos nothing)
  · rename_i tail stage
    split at advanced
    · rename_i more
      cases advanced
      exact .copies tail stage more
    · rename_i all
      cases advanced
      exact .copied tail stage (Nat.le_of_not_lt all)
  · rename_i stage
    cases advanced
    exact .records stage
  · rename_i caller tail stage
    split at advanced
    · rename_i more
      cases advanced
      exact .installs caller tail stage more
    · rename_i all
      cases advanced
      exact .installed caller tail stage (Nat.le_of_not_lt all)
  · rename_i stage
    cases advanced
    exact .erases stage
  · rename_i stage
    cases advanced
    exact .recovers stage
  · rename_i stage
    cases advanced
    exact .releases stage
  · rename_i stage
    cases advanced
    exact .loads stage

/-- Everything that an event can do. -/
inductive Step (layout : Layout) (before : Storage) : Event → Storage → Prop
  | begins (p : Nat) (running : before.stage.running = true)
      (free : before.committing = false)
      (room : before.lh.n + (before.outstanding + 1) * MAXOPBLOCKS ≤ LOGSIZE) :
      Step layout before (.beginOp p)
        { before with
          outstanding := before.outstanding + 1
          active := p :: before.active }
  | tests (p : Nat) (running : before.stage.running = true) (member : p ∈ before.active) :
      Step layout before (.logTest p) { before with tested := p :: before.tested }
  | logs (p blockno : Nat) (data : Block) (running : before.stage.running = true)
      (member : p ∈ before.active) (home : layout.Home blockno)
      (space : blockno ∈ before.lh.blocks ∨ before.lh.n < LOGSIZE) :
      Step layout before (.logWrite p blockno data)
        (before.logged blockno data (before.tested.erase p))
  | ends (p : Nat) (member : p ∈ before.active) (more : before.outstanding - 1 ≠ 0) :
      Step layout before (.endOp p)
        { before with
          outstanding := before.outstanding - 1
          active := before.active.erase p }
  | commits (p : Nat) (running : before.stage.running = true) (member : p ∈ before.active)
      (free : before.committing = false) (last : before.outstanding - 1 = 0) :
      Step layout before (.endOp p)
        { before with
          outstanding := before.outstanding - 1
          committing := true
          stage := .commit
          active := before.active.erase p }
  | panicsTesting (p : Nat) (panic : Panic)
      (running : before.stage.running = true) (member : p ∈ before.active)
      (cause : panic = .tooBigTransaction ∧
          (before.lh.n ≥ LOGSIZE ∨ before.lh.n ≥ layout.size - 1) ∨
        panic = .outsideTransaction ∧ before.outstanding < 1) :
      Step layout before (.logTest p) (before.panic panic)
  | overruns (p blockno : Nat) (data : Block) (running : before.stage.running = true)
      (member : p ∈ before.active) (absent : blockno ∉ before.lh.blocks)
      (full : before.lh.n ≥ LOGSIZE) :
      Step layout before (.logWrite p blockno data)
        { before.panic .overrun with tested := before.tested.erase p }
  | panicsEnding (p : Nat) (running : before.stage.running = true)
      (member : p ∈ before.active) (busy : before.committing = true) :
      Step layout before (.endOp p)
        { before with
          outstanding := before.outstanding - 1
          stage := .halted .committing
          active := before.active.erase p }
  | advances {after : Storage} (advanced : Advance layout before after) :
      Step layout before .advance after
  | reads (blockno : Nat) (live : before.stage.stopped = false) :
      Step layout before (.bread blockno) (before.bread blockno)
  | recycles (blockno : Nat) {after : Storage} (live : before.stage.stopped = false)
      (recycled : before.recycle blockno = some after) :
      Step layout before (.recycle blockno) after
  | crashes : Step layout before .crash (Storage.boot before.disk)

theorem step_inversion {layout : Layout} {before after : Storage} {event : Event}
    (stepped : before.step layout event = some after) : Step layout before event after := by
  cases event with
  | beginOp p =>
    simp only [Storage.step, Storage.beginOp] at stepped
    split at stepped
    · rename_i allowed
      split at stepped
      · cases stepped
      · rename_i free
        split at stepped
        · cases stepped
        · rename_i room
          cases stepped
          exact .begins p allowed.1 (Bool.not_eq_true _ ▸ free) (Nat.le_of_not_lt room)
    · cases stepped
  | logTest p =>
    simp only [Storage.step, Storage.logTest] at stepped
    split at stepped
    · rename_i allowed
      cases stepped
      split
      · rename_i full
        exact .panicsTesting p _ allowed.1 allowed.2.1 (Or.inl ⟨rfl, full⟩)
      · split
        · rename_i outside
          exact .panicsTesting p _ allowed.1 allowed.2.1 (Or.inr ⟨rfl, outside⟩)
        · exact .tests p allowed.1 allowed.2.1
    · cases stepped
  | logWrite p blockno data =>
    simp only [Storage.step, Storage.logWrite] at stepped
    split at stepped
    · rename_i allowed
      obtain ⟨running, member, _, home⟩ := allowed
      cases stepped
      split
      · rename_i full
        exact .overruns p blockno data running member full.1 full.2
      · rename_i space
        refine .logs p blockno data running member home ?_
        by_contra full
        rw [not_or, Nat.not_lt] at full
        exact space full
    · cases stepped
  | endOp p =>
    simp only [Storage.step, Storage.endOp] at stepped
    split at stepped
    · rename_i allowed
      cases stepped
      split
      · rename_i busy
        exact .panicsEnding p allowed.1 allowed.2.1 busy
      · rename_i free
        split
        · rename_i last
          exact .commits p allowed.1 allowed.2.1 (Bool.not_eq_true _ ▸ free) last
        · rename_i more
          exact .ends p allowed.2.1 more
    · cases stepped
  | advance => exact .advances (advance_inversion stepped)
  | bread blockno =>
    simp only [Storage.step] at stepped
    split at stepped
    · cases stepped
    · rename_i live
      cases stepped
      exact .reads blockno (Bool.not_eq_true _ ▸ live)
  | recycle blockno =>
    simp only [Storage.step] at stepped
    split at stepped
    · cases stepped
    · rename_i live
      exact .recycles blockno (Bool.not_eq_true _ ▸ live) stepped
  | crash =>
    cases stepped
    exact .crashes

end Xv6.Log
