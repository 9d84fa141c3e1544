/-
The invariant of the log.

At every moment the disk alone determines a store: the home blocks with the logged
transaction, if the header names one, installed over them.  This store is what the
committed writes make of the first disk, and it changes only when `write_head` commits.
Around it stands what each stage of `commit` and of `recover_from_log` relies on.
-/

import Xv6.Library.RedoLog
import Xv6.Log.Steps

namespace Xv6.Log

open Function Library

/-! ### Operations and the committing process -/

/-- Between `log.committing = 1` and `log.committing = 0`. -/
def Stage.committing : Stage → Bool
  | .commit | .writeLog _ | .writeHead | .installTrans .commit _ | .eraseHead .commit
  | .release => true
  | _ => false

theorem Stage.idle_of_running {stage : Stage} (running : stage.running = true)
    (free : stage.committing = false) : stage = .idle := by
  cases stage with
  | idle => rfl
  | installTrans caller | eraseHead caller =>
    cases caller with
    | commit => cases free
    | recovery => cases running
  | readHead => cases running
  | halted panic => cases running
  | _ => cases free

theorem Stage.live_of_running {stage : Stage} (running : stage.running = true) :
    stage.stopped = false := by
  cases stage with
  | halted panic => cases running
  | _ => rfl

/-- `log.outstanding` counts the operations, and none is under way while the log is
committed or recovered.  The machine stops only for want of room in the log. -/
structure CallsInv (storage : Storage) : Prop where
  counted : storage.outstanding = storage.active.length
  flagged : storage.stage.stopped = false → storage.committing = storage.stage.committing
  quiet : storage.stage.stopped = false → storage.stage ≠ .idle → storage.active = []
  cause : ∀ panic, storage.stage = .halted panic →
    panic = .tooBigTransaction ∨ panic = .overrun

namespace CallsInv

variable {layout : Layout} {before after : Storage}

theorem boot (disk : Nat → Block) : CallsInv (Storage.boot disk) :=
  ⟨rfl, fun _ => rfl, fun _ _ => rfl, nofun⟩

theorem idle_of_member {p : Nat} (inv : CallsInv before)
    (running : before.stage.running = true) (member : p ∈ before.active) :
    before.stage = .idle := by
  by_contra busy
  rw [inv.quiet (Stage.live_of_running running) busy] at member
  exact List.not_mem_nil member

theorem idle_of_free (inv : CallsInv before) (running : before.stage.running = true)
    (free : before.committing = false) : before.stage = .idle := by
  rw [inv.flagged (Stage.live_of_running running)] at free
  exact Stage.idle_of_running running free

theorem move {stage : Stage} (inv : CallsInv before) (stands : before.stage = stage)
    (live : stage.stopped = false) (busy : stage ≠ .idle)
    (outstanding : after.outstanding = before.outstanding)
    (active : after.active = before.active)
    (flag : before.committing = stage.committing → after.committing = after.stage.committing)
    (goes : after.stage.stopped = false) : CallsInv after := by
  subst stage
  refine ⟨?_, fun _ => flag (inv.flagged live), fun _ _ => ?_, fun panic halted => ?_⟩
  · rw [outstanding, active]
    exact inv.counted
  · rw [active]
    exact inv.quiet live busy
  · rw [halted] at goes
    cases goes

theorem advance (inv : CallsInv before) (advanced : Advance layout before after) :
    CallsInv after := by
  cases advanced with
  | skips stage | starts stage | copies _ stage | copied _ stage | records stage | erases stage
  | recovers stage | loads stage => exact inv.move stage rfl nofun rfl rfl id rfl
  | installs caller tail stage | installed caller tail stage =>
    cases caller with
    | commit | recovery => exact inv.move stage rfl nofun rfl rfl id rfl
  | releases stage => exact inv.move stage rfl nofun rfl rfl (fun _ => rfl) rfl

theorem step {event : Event} (inv : CallsInv before) (stepped : Step layout before event after) :
    CallsInv after := by
  cases stepped with
  | begins p running free room =>
    refine ⟨?_, inv.flagged, ?_, inv.cause⟩
    · exact congrArg (· + 1) inv.counted
    · intro _ busy
      exact absurd (inv.idle_of_free running free) busy
  | tests | logs | reads => exact ⟨inv.counted, inv.flagged, inv.quiet, inv.cause⟩
  | ends p member more =>
    refine ⟨?_, inv.flagged, ?_, inv.cause⟩
    · change before.outstanding - 1 = (before.active.erase p).length
      rw [List.length_erase_of_mem member, inv.counted]
    · intro live busy
      rw [inv.quiet live busy] at member
      cases member
  | commits p running member free last =>
    have none : before.active.erase p = [] := by
      rw [← List.length_eq_zero_iff, List.length_erase_of_mem member, ← inv.counted]
      exact last
    refine ⟨?_, fun _ => rfl, fun _ _ => none, nofun⟩
    change before.outstanding - 1 = (before.active.erase p).length
    rw [none, last]
    rfl
  | panicsTesting p panic running member cause =>
    refine ⟨inv.counted, nofun, nofun, ?_⟩
    intro other halted
    cases halted
    rcases cause with ⟨tooBig, _⟩ | ⟨_, outside⟩
    · exact Or.inl tooBig
    · rw [inv.counted] at outside
      exact absurd (List.length_pos_of_mem member) (by omega)
  | overruns p blockno data running member absent full =>
    refine ⟨inv.counted, nofun, nofun, ?_⟩
    intro other halted
    cases halted
    exact Or.inr rfl
  | panicsEnding p running member busy =>
    have idle := inv.idle_of_member running member
    have flag := inv.flagged (by rw [idle]; rfl)
    rw [idle, busy] at flag
    cases flag
  | advances advanced => exact inv.advance advanced
  | recycles blockno live recycled =>
    unfold Storage.recycle at recycled
    split at recycled
    · cases recycled
    · cases recycled
      exact ⟨inv.counted, inv.flagged, inv.quiet, inv.cause⟩
  | crashes => exact boot before.disk

end CallsInv

/-! ### The log on the disk -/

namespace Layout

variable (layout : Layout)

/-- The header that `read_head` finds. -/
def header (disk : Nat → Block) : LogHeader := LogHeader.load {} (disk layout.start)

/-- The transaction that the header names. -/
def entries (disk : Nat → Block) : List (Nat × Block) :=
  (List.range (layout.header disk).n).map
    (fun tail => ((layout.header disk).block tail, disk (layout.slot tail)))

/-- What `recover_from_log` makes of a disk, as far as home blocks are concerned. -/
def replay (disk : Nat → Block) : Nat → Block := install (layout.entries disk) disk

theorem start_outside : ¬ layout.Home layout.start := by
  have room := layout.room
  unfold Home
  omega

theorem slot_outside {tail : Nat} (fits : tail + 1 < layout.size) :
    ¬ layout.Home (layout.slot tail) := by
  unfold Home slot
  omega

theorem home_ne {blockno other : Nat} (home : layout.Home blockno)
    (outside : ¬ layout.Home other) : blockno ≠ other := by
  intro same
  exact outside (same ▸ home)

theorem slot_ne_start (tail : Nat) : layout.slot tail ≠ layout.start := by
  unfold slot
  omega

theorem slot_injective {first second : Nat} (same : layout.slot first = layout.slot second) :
    first = second := by
  unfold slot at same
  omega

theorem replay_empty {disk : Nat → Block} (empty : (layout.header disk).n = 0) :
    layout.replay disk = disk := by
  rw [replay, entries, empty]
  rfl

end Layout

/-- The room that `log_write` tests for is there when the block is recorded. -/
def LogHeader.HasRoom (lh : LogHeader) (layout : Layout) (blockno : Nat) : Prop :=
  blockno ∈ lh.blocks ∨ lh.n < LOGSIZE ∧ lh.n < layout.size - 1

/-- A header that the log blocks have room for and that names home blocks only. -/
structure LogHeader.Sound (lh : LogHeader) (layout : Layout) : Prop where
  bound : lh.n ≤ LOGSIZE
  fits : lh.n < layout.size
  home : ∀ i, i < lh.n → layout.Home (lh.block i)

namespace LogHeader.Sound

variable {layout : Layout} {lh : LogHeader}

theorem empty (none : lh.n = 0) : lh.Sound layout := by
  refine ⟨?_, ?_, ?_⟩
  · rw [none]
    exact Nat.zero_le _
  · rw [none]
    exact layout.room
  · intro i used
    rw [none] at used
    exact absurd used (Nat.not_lt_zero i)

theorem slot_outside (sound : lh.Sound layout) {tail : Nat} (used : tail < lh.n) :
    ¬ layout.Home (layout.slot tail) :=
  layout.slot_outside (by have := sound.fits; omega)

theorem record (sound : lh.Sound layout) {blockno : Nat} (home : layout.Home blockno)
    (room : lh.HasRoom layout blockno) : (lh.record blockno).Sound layout := by
  have length : (lh.record blockno).n ≤ LOGSIZE ∧ (lh.record blockno).n < layout.size := by
    rcases lh.record_cases blockno with ⟨_, same⟩ | ⟨absent, grown⟩
    · rw [same]
      exact ⟨sound.bound, sound.fits⟩
    · obtain ⟨space, fits⟩ := room.resolve_left absent
      rw [grown]
      exact ⟨space, Nat.add_lt_of_lt_sub fits⟩
  refine ⟨length.1, length.2, ?_⟩
  intro i used
  have member := (lh.record blockno).mem_blocks.mpr ⟨i, used, rfl⟩
  rcases lh.mem_record.mp member with same | old
  · rw [same]
    exact home
  · obtain ⟨j, inside, equal⟩ := lh.mem_blocks.mp old
    rw [← equal]
    exact sound.home j inside

end LogHeader.Sound

namespace Layout

variable (layout : Layout)

theorem entries_congr {before after : Nat → Block} (sound : (layout.header before).Sound layout)
    (agree : ∀ blockno, ¬ layout.Home blockno → after blockno = before blockno) :
    layout.header after = layout.header before ∧
      layout.entries after = layout.entries before := by
  have header : layout.header after = layout.header before := by
    unfold Layout.header
    rw [agree layout.start layout.start_outside]
  refine ⟨header, ?_⟩
  unfold entries
  rw [header]
  apply List.map_congr_left
  intro tail inside
  rw [agree _ (sound.slot_outside (List.mem_range.mp inside))]

/-- After `write_head` the disk names the transaction of the memory. -/
theorem header_store {lh : LogHeader} (bound : lh.n ≤ LOGSIZE) (disk : Nat → Block)
    (hb : Block) :
    (layout.header (update disk layout.start (lh.store hb))).n = lh.n ∧
      ∀ i, i < lh.n →
        (layout.header (update disk layout.start (lh.store hb))).block i =
          lh.block i := by
  unfold header
  rw [update_self]
  refine ⟨rfl, ?_⟩
  intro i used
  change (if i < lh.store hb 0 then _ else _) = _
  rw [LogHeader.store_n, if_pos used]
  exact lh.store_block hb bound used

end Layout

/-! ### The stages -/

section Stages

variable (layout : Layout) (base : Nat → Block)

/-- A transaction is collected, or copied to the log: the log on the disk is empty, and
reading shows the pending writes, whose blocks are pinned. -/
structure Collecting (view : View) (committed pending : List (Nat × Block)) : Prop where
  empty : (layout.header view.disk).n = 0
  pinned : ∀ blockno, view.dirty blockno = true → blockno ∈ view.lh.blocks
  shown : ∀ blockno, layout.Home blockno →
    view.read blockno = install (committed ++ pending) base blockno

/-- The first entries have been copied to their log blocks. -/
def Copied (view : View) (tail : Nat) : Prop :=
  ∀ i, i < tail → i < view.lh.n → view.disk (layout.slot i) = view.read (view.lh.block i)

/-- The log on the disk is the one in memory, and what is left of it completes the
home blocks. -/
structure Installing (view : View) (committed : List (Nat × Block)) (tail : Nat) : Prop where
  length : (layout.header view.disk).n = view.lh.n
  block : ∀ i, i < view.lh.n → (layout.header view.disk).block i = view.lh.block i
  remaining : ∀ blockno, layout.Home blockno →
    install ((layout.entries view.disk).drop tail) view.disk blockno =
      install committed base blockno
  pinned : ∀ blockno, view.dirty blockno = true →
    ∃ i, tail ≤ i ∧ i < view.lh.n ∧ view.lh.block i = blockno

structure Installed (view : View) (committed : List (Nat × Block)) : Prop where
  empty : view.lh.n = 0
  clean : ∀ blockno, view.dirty blockno = false
  complete : ∀ blockno, layout.Home blockno →
    view.disk blockno = install committed base blockno

/-- What holds at a stage, apart from what always holds. -/
def Stage.Holds (view : View) (committed pending : List (Nat × Block)) : Stage → Prop
  | .idle | .commit | .release => Collecting layout base view committed pending
  | .writeLog tail =>
    Collecting layout base view committed pending ∧ Copied layout view tail
  | .writeHead =>
    Collecting layout base view committed pending ∧ Copied layout view view.lh.n
  | .installTrans _ tail => pending = [] ∧ Installing layout base view committed tail
  | .eraseHead _ => pending = [] ∧ Installed layout base view committed
  | .readHead => pending = [] ∧ ∀ blockno, view.dirty blockno = false
  | .halted _ => False

/-- While the machine runs. -/
structure Live (view : View) (stage : Stage) (committed pending : List (Nat × Block)) :
    Prop where
  coherent : view.Coherent
  sound : view.lh.Sound layout
  holds : stage.Holds layout base view committed pending

/-- What a crash at this moment would find. -/
structure Durable (disk : Nat → Block) (committed : List (Nat × Block)) : Prop where
  header : (layout.header disk).Sound layout
  replay : ∀ blockno, layout.Home blockno →
    layout.replay disk blockno = install committed base blockno

structure LogInv (storage : Storage) (committed pending : List (Nat × Block)) : Prop where
  durable : Durable layout base storage.disk committed
  live : storage.stage.stopped = false →
    Live layout base storage.view storage.stage committed pending

end Stages

variable {layout : Layout} {base : Nat → Block} {view : View}
  {committed pending : List (Nat × Block)}

variable {blockno tail : Nat} {caller : Caller}

theorem View.Coherent.clean_outside (coherent : view.Coherent)
    (collecting : Collecting layout base view committed pending) (absent : blockno ∉ view.lh.blocks)
    : view.read blockno = view.disk blockno := by
  apply coherent
  cases flag : view.dirty blockno with
  | false => rfl
  | true => exact absurd (collecting.pinned blockno flag) absent

/-- Writing outside of the home blocks does not disturb an installation or what
reading shows. -/
theorem View.write_home (view : View) {outside : Nat} (data : Block) (log : ¬ layout.Home outside)
    (home : layout.Home blockno) :
    (view.write outside data).disk blockno = view.disk blockno ∧
      (view.write outside data).read blockno = view.read blockno := by
  have different := layout.home_ne home log
  exact ⟨update_of_ne different _ _, update_of_ne different _ _⟩

theorem View.dirty_of_write {other : Nat} {data : Block}
    (flag : (view.write blockno data).dirty other = true) : view.dirty other = true := by
  by_cases same : other = blockno
  · subst other
    simp [View.write] at flag
  · simpa [View.write, same] using flag

/-! ### `log_write` -/

theorem Live.logWrite (live : Live layout base view .idle committed pending) (data : Block)
    (home : layout.Home blockno) (room : view.lh.HasRoom layout blockno) :
    Live layout base
      { disk := view.disk
        read := update view.read blockno data
        dirty := update view.dirty blockno true
        lh := view.lh.record blockno }
      .idle committed (pending ++ [(blockno, data)]) := by
  have collecting : Collecting layout base view committed pending := live.holds
  refine ⟨?_, live.sound.record home room, ⟨collecting.empty, ?_, ?_⟩⟩
  · intro other clean
    have different : other ≠ blockno := by
      intro same
      subst other
      simp at clean
    simp only [update_of_ne different] at clean ⊢
    exact live.coherent other clean
  · intro other flag
    apply view.lh.mem_record.mpr
    by_cases same : other = blockno
    · exact Or.inl same
    · simp only [update_of_ne same] at flag
      exact Or.inr (collecting.pinned other flag)
  · intro other otherHome
    rw [← List.append_assoc, install_concat]
    by_cases same : other = blockno
    · subst other
      simp only [update_self]
    · simp only [update_of_ne same]
      exact collecting.shown other otherHome

/-! ### `commit` -/

theorem Collecting.durable (collecting : Collecting layout base view committed pending)
    (complete : ∀ blockno, layout.Home blockno →
      view.disk blockno = install committed base blockno) :
    Durable layout base view.disk committed := by
  refine ⟨.empty collecting.empty, ?_⟩
  intro blockno home
  rw [layout.replay_empty collecting.empty]
  exact complete blockno home

theorem Durable.complete {disk : Nat → Block} (durable : Durable layout base disk committed)
    (empty : (layout.header disk).n = 0) (home : layout.Home blockno) :
    disk blockno = install committed base blockno := by
  rw [← durable.replay blockno home, layout.replay_empty empty]

theorem Live.writeLog (live : Live layout base view (.writeLog tail) committed pending)
    (durable : Durable layout base view.disk committed) (more : tail < view.lh.n) :
    let next := view.write (layout.slot tail) (view.read (view.lh.block tail))
    Live layout base next (.writeLog (tail + 1)) committed pending ∧
      Durable layout base next.disk committed := by
  intro next
  obtain ⟨collecting, copied⟩ := live.holds
  have outside := live.sound.slot_outside more
  have reads : ∀ i, i < view.lh.n → next.read (view.lh.block i) = view.read (view.lh.block i) :=
    fun i used => (view.write_home _ outside (live.sound.home i used)).2
  have collectingNext : Collecting layout base next committed pending := by
    refine ⟨?_, ?_, ?_⟩
    · unfold Layout.header
      rw [show next.disk layout.start = view.disk layout.start from
        update_of_ne (layout.slot_ne_start tail).symm _ _]
      exact collecting.empty
    · intro blockno flag
      exact collecting.pinned blockno (View.dirty_of_write flag)
    · intro blockno home
      rw [(view.write_home _ outside home).2]
      exact collecting.shown blockno home
  refine ⟨⟨live.coherent.write _ _, live.sound, collectingNext, ?_⟩, ?_⟩
  · intro i earlier used
    rw [show next.lh = view.lh from rfl, reads i used]
    by_cases same : i = tail
    · subst i
      exact update_self _ _ _
    · have different : layout.slot i ≠ layout.slot tail :=
        fun equal => same (layout.slot_injective equal)
      rw [show next.disk (layout.slot i) = view.disk (layout.slot i) from
        update_of_ne different _ _]
      exact copied i (by omega) used
  · apply collectingNext.durable
    intro blockno home
    rw [(view.write_home _ outside home).1]
    exact durable.complete collecting.empty home

/-- The commit point: the header reaches the disk and with it the whole transaction. -/
theorem Live.writeHead (live : Live layout base view .writeHead committed pending) :
    let next := view.write layout.start (view.lh.store (view.read layout.start))
    Live layout base next (.installTrans .commit 0) (committed ++ pending) [] ∧
      Durable layout base next.disk (committed ++ pending) := by
  intro next
  obtain ⟨collecting, copied⟩ := live.holds
  obtain ⟨length, block⟩ :=
    layout.header_store live.sound.bound view.disk (view.read layout.start)
  have named : layout.entries next.disk =
      view.lh.blocks.map (fun blockno => (blockno, view.read blockno)) := by
    unfold Layout.entries LogHeader.blocks
    rw [show (layout.header next.disk).n = view.lh.n from length, List.map_map]
    apply List.map_congr_left
    intro i inside
    have used := List.mem_range.mp inside
    have slot : next.disk (layout.slot i) = view.disk (layout.slot i) :=
      update_of_ne (layout.slot_ne_start i) _ _
    rw [show (layout.header next.disk).block i = view.lh.block i from block i used, slot,
      copied i used used]
    rfl
  have durable : Durable layout base next.disk (committed ++ pending) := by
    refine ⟨⟨?_, ?_, ?_⟩, ?_⟩
    · exact length.trans_le live.sound.bound
    · exact length.trans_lt live.sound.fits
    · intro i used
      have inside : i < view.lh.n := used.trans_eq length
      exact block i inside ▸ live.sound.home i inside
    · intro blockno home
      rw [Layout.replay, named, install_view, ← collecting.shown blockno home]
      split
      · rfl
      · rename_i absent
        rw [live.coherent.clean_outside collecting absent]
        exact (view.write_home _ layout.start_outside home).1
  refine ⟨⟨live.coherent.write _ _, live.sound, rfl, length, block, durable.replay, ?_⟩, durable⟩
  intro blockno flag
  obtain ⟨i, used, same⟩ :=
    view.lh.mem_blocks.mp (collecting.pinned blockno (View.dirty_of_write flag))
  exact ⟨i, Nat.zero_le i, used, same⟩

/-! ### `install_trans` -/

theorem Layout.length_entries (disk : Nat → Block) :
    (layout.entries disk).length = (layout.header disk).n := by
  rw [Layout.entries, List.length_map, List.length_range]

theorem Installing.entries_drop (installing : Installing layout base view committed tail)
    (more : tail < view.lh.n) :
    (layout.entries view.disk).drop tail =
      (view.lh.block tail, view.disk (layout.slot tail)) ::
        (layout.entries view.disk).drop (tail + 1) := by
  have inside : tail < (layout.entries view.disk).length := by
    rw [Layout.length_entries, installing.length]
    exact more
  rw [List.drop_eq_getElem_cons inside]
  congr 1
  simp only [Layout.entries, List.getElem_map, List.getElem_range]
  rw [installing.block tail more]

theorem Live.installTrans
    (live : Live layout base view (.installTrans caller tail) committed pending)
    (durable : Durable layout base view.disk committed) (more : tail < view.lh.n) :
    let next := view.write (view.lh.block tail) (view.read (layout.slot tail))
    Live layout base next (.installTrans caller (tail + 1)) committed pending ∧
      Durable layout base next.disk committed := by
  intro next
  obtain ⟨none, installing⟩ := live.holds
  have home := live.sound.home tail more
  have outside := live.sound.slot_outside more
  -- Only home blocks are dirty, so the log block is read as it is on the disk.
  have logged : view.read (layout.slot tail) = view.disk (layout.slot tail) := by
    apply live.coherent
    cases flag : view.dirty (layout.slot tail) with
    | false => rfl
    | true =>
      obtain ⟨i, _, used, same⟩ := installing.pinned _ flag
      exact absurd (same ▸ live.sound.home i used) outside
  obtain ⟨header, entries⟩ : layout.header next.disk = layout.header view.disk ∧
      layout.entries next.disk = layout.entries view.disk := by
    apply layout.entries_congr durable.header
    intro other log
    exact update_of_ne (layout.home_ne home log).symm _ _
  have left := installing.entries_drop more
  refine ⟨⟨live.coherent.write _ _, live.sound, none, ?_, ?_, ?_, ?_⟩, ?_, ?_⟩
  · rw [header]
    exact installing.length
  · rw [header]
    exact installing.block
  · intro blockno homeBlock
    rw [entries, ← installing.remaining blockno homeBlock, left, install_cons, ← logged]
    rfl
  · intro blockno flag
    obtain ⟨i, later, used, same⟩ := installing.pinned blockno (View.dirty_of_write flag)
    refine ⟨i, ?_, used, same⟩
    by_contra early
    have last : i = tail := by omega
    subst last same
    simp [next, View.write] at flag
  · rw [header]
    exact durable.header
  · intro blockno homeBlock
    have member : view.lh.block tail ∈ (layout.entries view.disk).map Prod.fst := by
      have first : view.lh.block tail ∈
          ((layout.entries view.disk).drop tail).map Prod.fst := by
        rw [left]
        exact List.mem_cons_self
      exact List.Sublist.subset ((List.drop_sublist _ _).map _) first
    rw [← durable.replay blockno homeBlock, Layout.replay, Layout.replay, entries,
      ← install_update member (view.read (layout.slot tail)) view.disk]
    rfl

theorem Live.installed (live : Live layout base view (.installTrans caller tail) committed pending)
    (all : view.lh.n ≤ tail) :
    Live layout base { view with lh.n := 0 } (.eraseHead caller) committed pending := by
  obtain ⟨none, installing⟩ := live.holds
  refine ⟨live.coherent, .empty rfl, none, rfl, ?_, ?_⟩
  · intro blockno
    cases flag : view.dirty blockno with
    | false => rfl
    | true =>
      obtain ⟨i, later, used, _⟩ := installing.pinned blockno flag
      omega
  · intro blockno home
    have finished : (layout.entries view.disk).drop tail = [] := by
      apply List.drop_eq_nil_of_le
      rw [Layout.length_entries, installing.length]
      exact all
    rw [← installing.remaining blockno home, finished, install_nil]

/-! ### The second `write_head` and `read_head` -/

theorem Live.eraseHead (live : Live layout base view (.eraseHead caller) committed pending) :
    let next := view.write layout.start (view.lh.store (view.read layout.start))
    next.Coherent ∧ next.lh.Sound layout ∧
      Collecting layout base next committed pending ∧
      Durable layout base next.disk committed := by
  intro next
  obtain ⟨none, installed⟩ := live.holds
  have empty : (layout.header next.disk).n = 0 :=
    (layout.header_store live.sound.bound view.disk _).1.trans installed.empty
  have collecting : Collecting layout base next committed pending := by
    refine ⟨empty, ?_, ?_⟩
    · intro blockno flag
      have dirty := View.dirty_of_write flag
      rw [installed.clean blockno] at dirty
      cases dirty
    · intro blockno home
      rw [(view.write_home _ layout.start_outside home).2, none, List.append_nil,
        live.coherent blockno (installed.clean blockno)]
      exact installed.complete blockno home
  refine ⟨live.coherent.write _ _, live.sound, collecting, collecting.durable ?_⟩
  intro blockno home
  rw [(view.write_home _ layout.start_outside home).1]
  exact installed.complete blockno home

theorem Live.readHead (live : Live layout base view .readHead committed pending)
    (durable : Durable layout base view.disk committed) :
    Live layout base { view with lh := view.lh.load (view.read layout.start) }
      (.installTrans .recovery 0) committed pending := by
  obtain ⟨none, clean⟩ := live.holds
  have found := live.coherent layout.start (clean layout.start)
  have block : ∀ i, i < (layout.header view.disk).n →
      (layout.header view.disk).block i =
        (view.lh.load (view.disk layout.start)).block i := by
    intro i used
    change i < view.disk layout.start 0 at used
    simp only [Layout.header, LogHeader.load, if_pos used]
  rw [found]
  refine ⟨live.coherent, ⟨durable.header.bound, durable.header.fits, ?_⟩, none, rfl, block,
    durable.replay, ?_⟩
  · intro i used
    exact block i used ▸ durable.header.home i used
  · intro blockno flag
    exact absurd flag (by simp [clean blockno])

/-! ### Steps -/

namespace LogInv

variable {before after : Storage}

theorem boot {disk : Nat → Block} (durable : Durable layout base disk committed) :
    LogInv layout base (Storage.boot disk) committed [] where
  durable := durable
  live := fun _ => ⟨fun _ _ => rfl, .empty rfl, rfl, fun _ => rfl⟩

theorem move (inv : LogInv layout base before committed pending)
    (same : after.view = before.view) (running : before.stage.stopped = false)
    (holds : before.stage.Holds layout base before.view committed pending →
      after.stage.Holds layout base before.view committed pending) :
    LogInv layout base after committed pending := by
  have disk : after.disk = before.disk := congrArg View.disk same
  have live := inv.live running
  refine ⟨disk ▸ inv.durable, fun _ => ?_⟩
  rw [same]
  exact ⟨live.coherent, live.sound, holds live.holds⟩

theorem halt (inv : LogInv layout base before committed pending)
    (disk : after.disk = before.disk) (stopped : after.stage.stopped = true)
    (writes : List (Nat × Block)) : LogInv layout base after committed writes := by
  refine ⟨disk ▸ inv.durable, fun live => ?_⟩
  rw [stopped] at live
  cases live

theorem of_view {next : View} {stage : Stage}
    (live : Live layout base next stage committed pending)
    (durable : Durable layout base next.disk committed) (viewed : after.view = next)
    (stands : after.stage = stage) : LogInv layout base after committed pending := by
  subst viewed stands
  exact ⟨durable, fun _ => live⟩

end LogInv

theorem Advance.logInv {before after : Storage} (advanced : Advance layout before after)
    (inv : LogInv layout base before committed pending) :
    (before.stage ≠ .writeHead → LogInv layout base after committed pending) ∧
      (before.stage = .writeHead → LogInv layout base after (committed ++ pending) []) := by
  have live := inv.live
  have durable := inv.durable
  cases advanced with
  | skips stage | releases stage =>
    rw [stage]
    exact ⟨fun _ => inv.move rfl (by rw [stage]; rfl) (by rw [stage]; exact id), nofun⟩
  | starts stage entries =>
    rw [stage]
    refine ⟨fun _ => inv.move rfl (by rw [stage]; rfl) ?_, nofun⟩
    rw [stage]
    exact fun collecting => ⟨collecting, fun i earlier => absurd earlier (Nat.not_lt_zero i)⟩
  | copies tail stage more =>
    rw [stage] at live ⊢
    obtain ⟨kept, safe⟩ := (live rfl).writeLog durable more
    exact ⟨fun _ => .of_view kept safe (before.view_writeLog layout tail) rfl, nofun⟩
  | copied tail stage all =>
    rw [stage]
    refine ⟨fun _ => inv.move rfl (by rw [stage]; rfl) ?_, nofun⟩
    rw [stage]
    intro holds
    exact ⟨holds.1, fun i _ used => holds.2 i (Nat.lt_of_lt_of_le used all) used⟩
  | records stage =>
    rw [stage] at live ⊢
    obtain ⟨kept, safe⟩ := (live rfl).writeHead
    exact ⟨fun other => absurd rfl other,
      fun _ => .of_view kept safe (before.view_writeHead layout) rfl⟩
  | installs caller tail stage more =>
    rw [stage] at live ⊢
    obtain ⟨kept, safe⟩ := (live rfl).installTrans durable more
    exact ⟨fun _ => .of_view kept safe (before.view_installTrans layout tail) rfl, nofun⟩
  | installed caller tail stage all =>
    rw [stage] at live ⊢
    exact ⟨fun _ => .of_view ((live rfl).installed all) durable rfl rfl, nofun⟩
  | erases stage =>
    rw [stage] at live ⊢
    obtain ⟨coherent, sound, collecting, safe⟩ := (live rfl).eraseHead
    have kept : Live layout base _ .release committed pending := ⟨coherent, sound, collecting⟩
    exact ⟨fun _ => .of_view kept safe (before.view_writeHead layout) rfl, nofun⟩
  | recovers stage =>
    rw [stage] at live ⊢
    obtain ⟨coherent, sound, collecting, safe⟩ := (live rfl).eraseHead
    have kept : Live layout base _ .idle committed pending := ⟨coherent, sound, collecting⟩
    exact ⟨fun _ => .of_view kept safe (before.view_writeHead layout) rfl, nofun⟩
  | loads stage =>
    rw [stage] at live ⊢
    exact ⟨fun _ => .of_view ((live rfl).readHead durable) durable
      (before.view_readHead layout) rfl, nofun⟩

end Xv6.Log
