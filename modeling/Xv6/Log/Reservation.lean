/-
Log space.

`begin_op` admits an operation only if the log has room for what is in it and for
`MAXOPBLOCKS` blocks of every admitted operation, so the blocks in the log and the
unused parts of the reservations never exceed `LOGSIZE`.  `mkfs` gives the log
`LOGSIZE` blocks, header included, and `log_write` panics when `LOGSIZE - 1` blocks
are in it: operations that use their reservations in full run into the panic, or past the
end of the log if their tests overlap.  Those that leave one block unused do neither.
-/

import Xv6.Log.Journal

namespace Xv6.Log

open Library

/-- The distinct blocks that an operation has logged. -/
def blocksOf (op : Nat) (writes : List Write) : Finset Nat :=
  ((writesOf op writes).map Write.blockno).toFinset

/-- No operation has logged more than `budget` distinct blocks. -/
def Journal.Within (journal : Journal) (budget : Nat) : Prop :=
  ∀ op, (blocksOf op journal.logged).card ≤ budget

/-- What is left of the reservation of the operation that `p` is executing. -/
def Journal.remaining (journal : Journal) (p : Nat) : Nat :=
  MAXOPBLOCKS - (blocksOf (journal.current p) journal.logged).card

def reserved (storage : Storage) (journal : Journal) : Nat :=
  (storage.active.map journal.remaining).sum

/-! ### Budgets -/

theorem blocksOf_concat (op : Nat) (writes : List Write) (write : Write) :
    blocksOf op (writes ++ [write]) =
      if write.op = op then insert write.blockno (blocksOf op writes)
      else blocksOf op writes := by
  unfold blocksOf
  rw [writesOf_concat]
  by_cases same : write.op = op
  · rw [if_pos same, if_pos same, List.map_append, List.toFinset_append, List.map_singleton,
      Finset.union_comm]
    rfl
  · rw [if_neg same, if_neg same, List.append_nil]

theorem blocksOf_subset (op : Nat) (writes : List Write) (write : Write) :
    blocksOf op writes ⊆ blocksOf op (writes ++ [write]) := by
  rw [blocksOf_concat]
  split
  · exact Finset.subset_insert _ _
  · exact Finset.Subset.refl _

namespace Journal

variable {journal : Journal} {budget : Nat}

theorem Within.of_logWrite {write : Write} (within : (journal.logWrite write).Within budget) :
    journal.Within budget := by
  intro op
  exact (Finset.card_le_card (blocksOf_subset op journal.logged write)).trans (within op)

theorem Within.of_observe {storage : Storage} {event : Event}
    (within : (observe storage event journal).Within budget) : journal.Within budget := by
  cases event with
  | logWrite p blockno data => exact Within.of_logWrite within
  | advance =>
    change (if storage.stage = .writeHead then journal.commit else journal).Within _ at within
    split at within <;> exact within
  | _ => exact within

theorem within_of_logged (few : ∀ op ∈ journal.logged.map Write.op,
    (blocksOf op journal.logged).card ≤ budget) : journal.Within budget := by
  intro op
  by_cases logged : op ∈ journal.logged.map Write.op
  · exact few op logged
  · have none : writesOf op journal.logged = [] := by
      apply List.filter_eq_nil_iff.mpr
      intro write member
      rw [beq_iff_eq]
      exact fun same => logged (List.mem_map.mpr ⟨write, member, same⟩)
    rw [blocksOf, none]
    exact Nat.zero_le _

theorem remaining_le (p : Nat) : journal.remaining p ≤ MAXOPBLOCKS := Nat.sub_le _ _

theorem Within.remaining_pos (within : journal.Within (MAXOPBLOCKS - 1)) (p : Nat) :
    0 < journal.remaining p := by
  have bound := within (journal.current p)
  change (blocksOf (journal.current p) journal.logged).card ≤ 9 at bound
  change 0 < 10 - (blocksOf (journal.current p) journal.logged).card
  omega

theorem remaining_logWrite_le (write : Write) (p : Nat) :
    (journal.logWrite write).remaining p ≤ journal.remaining p :=
  Nat.sub_le_sub_left (Finset.card_le_card (blocksOf_subset _ journal.logged write)) _

theorem Within.remaining_logWrite_lt {p blockno : Nat} {data : Block}
    (within : (journal.logWrite ⟨journal.current p, blockno, data⟩).Within (MAXOPBLOCKS - 1))
    (new : blockno ∉ blocksOf (journal.current p) journal.logged) :
    (journal.logWrite ⟨journal.current p, blockno, data⟩).remaining p <
      journal.remaining p := by
  have bound := within (journal.current p)
  change (blocksOf (journal.current p) (journal.logged ++ [_])).card ≤ 9 at bound
  change 10 - (blocksOf (journal.current p) (journal.logged ++ [_])).card <
    10 - (blocksOf (journal.current p) journal.logged).card
  rw [blocksOf_concat, if_pos rfl, Finset.card_insert_of_notMem new] at bound ⊢
  omega

end Journal

theorem reserved_le (storage : Storage) (journal : Journal) :
    reserved storage journal ≤ storage.active.length * MAXOPBLOCKS := by
  unfold reserved
  rw [← List.length_map journal.remaining, ← smul_eq_mul]
  apply List.sum_le_card_nsmul
  intro left member
  obtain ⟨p, _, same⟩ := List.mem_map.mp member
  rw [← same]
  exact Journal.remaining_le p

theorem length_le_reserved (storage : Storage) {journal : Journal}
    (within : journal.Within (MAXOPBLOCKS - 1)) :
    storage.active.length ≤ reserved storage journal := by
  unfold reserved
  rw [← List.length_map journal.remaining]
  apply List.length_le_sum_of_one_le
  intro left member
  obtain ⟨p, _, same⟩ := List.mem_map.mp member
  rw [← same]
  exact within.remaining_pos p

theorem sum_erase_add {active : List Nat} {p : Nat} (member : p ∈ active) (left : Nat → Nat) :
    ((active.erase p).map left).sum + left p = (active.map left).sum := by
  have same := ((List.perm_cons_erase member).map left).sum_eq
  rw [same, List.map_cons, List.sum_cons, Nat.add_comm]

/-! ### The reservation -/

/-- What holds while no operation has logged more than `MAXOPBLOCKS - 1` blocks. -/
structure ReservationInv (storage : Storage) (journal : Journal) : Prop where
  live : storage.stage.stopped = false
  covered : ∀ write ∈ journal.pending, write.blockno ∈ storage.lh.blocks
  drained : storage.stage = .release ∨ storage.stage = .idle ∧ storage.active = [] →
    storage.lh.n = 0
  space : storage.stage = .idle → storage.lh.n + reserved storage journal ≤ LOGSIZE
  -- The operation that ends last leaves the unused block of another one behind.
  slack : storage.stage = .idle → storage.active.length ≤ 1 →
    storage.lh.n + reserved storage journal < LOGSIZE

namespace ReservationInv

variable {layout : Layout} {image : Image layout} {before after : Storage} {journal : Journal}

theorem quiet (live : after.stage.stopped = false) (busy : after.stage ≠ .idle)
    (covered : ∀ write ∈ journal.pending, write.blockno ∈ after.lh.blocks)
    (drained : after.stage = .release → after.lh.n = 0) : ReservationInv after journal where
  live := live
  covered := covered
  drained := by
    intro stage
    rcases stage with released | ⟨idle, _⟩
    · exact drained released
    · exact absurd idle busy
  space := fun idle => absurd idle busy
  slack := fun idle => absurd idle busy

theorem rests (stage : after.stage = .idle) (active : after.active = [])
    (empty : after.lh.n = 0)
    (covered : ∀ write ∈ journal.pending, write.blockno ∈ after.lh.blocks) :
    ReservationInv after journal where
  live := by
    rw [stage]
    rfl
  covered := covered
  drained := fun _ => empty
  space := by
    intro _
    rw [empty, reserved, active]
    exact Nat.zero_le LOGSIZE
  slack := by
    intro _ _
    rw [empty, reserved, active]
    exact Nat.zero_lt_succ _

theorem same (inv : ReservationInv before journal) (stage : after.stage = before.stage)
    (active : after.active = before.active) (lh : after.lh = before.lh) :
    ReservationInv after journal := by
  obtain ⟨live, covered, drained, space, slack⟩ := inv
  unfold reserved at space slack
  rw [← stage] at live
  rw [← lh] at covered
  rw [← stage, ← active, ← lh] at drained space slack
  exact ⟨live, covered, drained, space, slack⟩

variable {p blockno : Nat}

theorem begins (inv : ReservationInv before journal) (calls : CallsInv before)
    (idle : before.stage = .idle)
    (room : before.lh.n + (before.outstanding + 1) * MAXOPBLOCKS ≤ LOGSIZE)
    (stage : after.stage = before.stage) (active : after.active = p :: before.active)
    (lh : after.lh = before.lh) : ReservationInv after (journal.beginOp p) := by
  have bound := reserved_le after (journal.beginOp p)
  rw [active, List.length_cons] at bound
  rw [calls.counted] at room
  refine ⟨?_, ?_, ?_, ?_, ?_⟩
  · rw [stage]
    exact inv.live
  · rw [lh]
    exact inv.covered
  · intro rests
    rw [stage, active, idle] at rests
    rcases rests with released | ⟨_, none⟩
    · cases released
    · cases none
  · intro _
    rw [lh]
    exact (Nat.add_le_add_left bound _).trans room
  · intro _ single
    rw [active, List.length_cons] at single
    have none : before.active = [] := List.length_eq_zero_iff.mp (by omega)
    have empty := inv.drained (Or.inr ⟨idle, none⟩)
    rw [none] at bound
    rw [lh, empty]
    exact Nat.lt_of_le_of_lt (Nat.add_le_add_left bound 0) (by decide)

theorem logged_block (inv : ReservationInv before journal) (opened : JournalInv before journal)
    (member : p ∈ before.active) (logged : blockno ∈ blocksOf (journal.current p) journal.logged) :
    blockno ∈ before.lh.blocks := by
  rw [blocksOf, ← (opened.opened p member).2, List.mem_toFinset] at logged
  obtain ⟨write, present, same⟩ := List.mem_map.mp logged
  rw [← same]
  exact inv.covered write (List.mem_filter.mp present).1

theorem logs_total (inv : ReservationInv before journal) (opened : JournalInv before journal)
    (data : Block) (member : p ∈ before.active)
    (within :
      (journal.logWrite ⟨journal.current p, blockno, data⟩).Within (MAXOPBLOCKS - 1)) :
    (before.lh.record blockno).n +
        (before.active.map
          (journal.logWrite ⟨journal.current p, blockno, data⟩).remaining).sum ≤
      before.lh.n + reserved before journal := by
  have weaker : ∀ q ∈ before.active,
      (journal.logWrite ⟨journal.current p, blockno, data⟩).remaining q ≤
        journal.remaining q :=
    fun q _ => journal.remaining_logWrite_le _ q
  rcases before.lh.record_cases blockno with ⟨_, same⟩ | ⟨absent, grown⟩
  · rw [same]
    exact Nat.add_le_add_left (List.sum_le_sum weaker) _
  · have new : blockno ∉ blocksOf (journal.current p) journal.logged :=
      fun logged => absurd (inv.logged_block opened member logged) absent
    have less := List.sum_lt_sum _ _ weaker ⟨p, member, within.remaining_logWrite_lt new⟩
    rw [grown]
    change before.lh.n + 1 + _ ≤ before.lh.n + (before.active.map journal.remaining).sum
    omega

theorem logs (inv : ReservationInv before journal) (opened : JournalInv before journal)
    (idle : before.stage = .idle) (data : Block) (member : p ∈ before.active)
    (within : (journal.logWrite ⟨journal.current p, blockno, data⟩).Within (MAXOPBLOCKS - 1))
    (stage : after.stage = before.stage) (active : after.active = before.active)
    (lh : after.lh = before.lh.record blockno) :
    ReservationInv after (journal.logWrite ⟨journal.current p, blockno, data⟩) := by
  have total := inv.logs_total opened data member within
  refine ⟨?_, ?_, ?_, ?_, ?_⟩
  · rw [stage]
    exact inv.live
  · intro write present
    rw [lh]
    apply before.lh.mem_record.mpr
    rcases List.mem_append.mp present with old | new
    · exact Or.inr (inv.covered write old)
    · rw [List.mem_singleton.mp new]
      exact Or.inl rfl
  · intro rests
    rw [stage, active, idle] at rests
    rcases rests with released | ⟨_, none⟩
    · cases released
    · rw [none] at member
      cases member
  · intro _
    rw [lh, reserved, active]
    exact total.trans (inv.space idle)
  · intro _ single
    rw [active] at single
    rw [lh, reserved, active]
    exact total.trans_lt (inv.slack idle single)

theorem ends (inv : ReservationInv before journal) (calls : CallsInv before)
    (within : journal.Within (MAXOPBLOCKS - 1))
    (member : p ∈ before.active) (more : before.outstanding - 1 ≠ 0)
    (stage : after.stage = before.stage) (active : after.active = before.active.erase p)
    (lh : after.lh = before.lh) : ReservationInv after journal := by
  have length : after.active.length = before.outstanding - 1 := by
    rw [active, List.length_erase_of_mem member, calls.counted]
  have total : reserved after journal + journal.remaining p = reserved before journal := by
    unfold reserved
    rw [active]
    exact sum_erase_add member journal.remaining
  have unused := within.remaining_pos p
  have space := inv.space
  rw [← stage] at space
  refine ⟨?_, ?_, ?_, ?_, ?_⟩
  · rw [stage]
    exact inv.live
  · rw [lh]
    exact inv.covered
  · intro rests
    rw [lh]
    rcases rests with released | ⟨_, none⟩
    · rw [stage] at released
      exact inv.drained (Or.inl released)
    · rw [none] at length
      exact absurd length.symm more
  · intro idle
    have room := space idle
    rw [lh]
    omega
  · intro idle _
    have room := space idle
    rw [lh]
    omega

theorem not_full (inv : ReservationInv before journal) (idle : before.stage = .idle)
    (member : p ∈ before.active) (within : journal.Within (MAXOPBLOCKS - 1)) :
    before.lh.n + 1 < LOGSIZE := by
  have several := length_le_reserved before within
  have present := List.length_pos_of_mem member
  by_cases single : before.active.length ≤ 1
  · have room := inv.slack idle single
    omega
  · have room := inv.space idle
    omega

/-- In the stages that follow the commit nothing is pending. -/
theorem advance (inv : ReservationInv before journal)
    (crash : CrashInv image before journal) (advanced : Advance layout before after) :
    ReservationInv after (if before.stage = .writeHead then journal.commit else journal) := by
  have live := crash.log.live
  have covered := inv.covered
  have quiet := crash.calls.quiet
  have active := advanced.active
  cases advanced with
  | skips stage nothing =>
    rw [stage]
    exact .quiet rfl nofun covered (fun _ => nothing)
  | starts stage | copies tail stage | copied tail stage | installs caller tail stage =>
    rw [stage]
    exact .quiet rfl nofun covered nofun
  | records stage =>
    rw [stage]
    exact .quiet rfl nofun nofun nofun
  | installed caller tail stage | loads stage =>
    rw [stage] at live ⊢
    have none : journal.pending = [] := List.map_eq_nil_iff.mp (live rfl).holds.1
    refine .quiet rfl nofun ?_ nofun
    rw [if_neg nofun, none]
    exact nofun
  | erases stage =>
    rw [stage] at live ⊢
    exact .quiet rfl nofun covered (fun _ => (live rfl).holds.2.empty)
  | recovers stage =>
    rw [stage] at live quiet ⊢
    exact .rests rfl (active.trans (quiet rfl nofun)) (live rfl).holds.2.empty covered
  | releases stage =>
    rw [stage] at quiet ⊢
    exact .rests rfl (active.trans (quiet rfl nofun)) (inv.drained (Or.inl stage)) covered

variable {event : Event} (inv : ReservationInv before journal)
  (crash : CrashInv image before journal) (nlog : layout.size = LOGSIZE)
  (stepped : Step layout before event after)
include inv crash nlog stepped

theorem fits (within : journal.Within (MAXOPBLOCKS - 1)) : Fits layout (before, journal) event := by
  cases stepped with
  | logs p blockno data running member home space =>
    have room := inv.not_full (crash.calls.idle_of_member running member) member within
    change before.lh.HasRoom layout blockno
    exact Or.inr ⟨by omega, by omega⟩
  | overruns p blockno data running member absent full =>
    have room := inv.not_full (crash.calls.idle_of_member running member) member within
    exact absurd full (by omega)
  | _ => exact trivial

theorem step (within : (observe before event journal).Within (MAXOPBLOCKS - 1)) :
    ReservationInv after (observe before event journal) := by
  have earlier := within.of_observe
  cases stepped with
  | begins p running free room =>
    have idle := crash.calls.idle_of_free running free
    apply inv.begins crash.calls idle room <;> rfl
  | tests p running member => apply inv.same <;> rfl
  | logs p blockno data running member home space =>
    have idle := crash.calls.idle_of_member running member
    apply inv.logs crash.journal idle data member within <;> rfl
  | ends p member more => apply inv.ends crash.calls earlier member more <;> rfl
  | commits p running member free last => exact .quiet rfl nofun inv.covered nofun
  | panicsTesting p panic running member cause =>
    have room := inv.not_full (crash.calls.idle_of_member running member) member earlier
    rcases cause with ⟨_, full⟩ | ⟨_, outside⟩
    · omega
    · rw [crash.calls.counted] at outside
      exact absurd (List.length_pos_of_mem member) (by omega)
  | overruns p blockno data running member absent full =>
    have room := inv.not_full (crash.calls.idle_of_member running member) member earlier
    omega
  | panicsEnding p running member busy =>
    have idle := crash.calls.idle_of_member running member
    have flag := crash.calls.flagged (by rw [idle]; rfl)
    rw [idle, busy] at flag
    cases flag
  | advances advanced => exact inv.advance crash advanced
  | reads blockno live => apply inv.same <;> rfl
  | recycles blockno live recycled =>
    obtain ⟨same, stage, active⟩ :=
      Storage.view_recycle (crash.log.live live).coherent recycled
    exact inv.same stage active (congrArg View.lh same)
  | crashes => exact .quiet rfl nofun nofun nofun

end ReservationInv

variable {layout : Layout} {image : Image layout} {storage : Storage} {journal : Journal}

/-- Operations of at most `MAXOPBLOCKS - 1` blocks keep both invariants. -/
theorem reachable_within (nlog : layout.size = LOGSIZE)
    (reachable : (recorded image).Reachable (storage, journal))
    (within : journal.Within (MAXOPBLOCKS - 1)) :
    CrashInv image storage journal ∧ ReservationInv storage journal := by
  refine (reachable.watched_invariant (fun storage journal => journal.Within (MAXOPBLOCKS - 1) →
    CrashInv image storage journal ∧ ReservationInv storage journal) ?_ ?_).2 within
  · exact fun _ => ⟨CrashInv.boot, .quiet rfl nofun nofun nofun⟩
  · intro before event after seen _ invs stepped within
    have taken := step_inversion stepped
    obtain ⟨crash, inv⟩ := invs within.of_observe
    have fits := inv.fits crash nlog taken within.of_observe
    exact ⟨crash.step fits taken, inv.step crash nlog taken within⟩

/-! ### The panics of `log.c` -/

/-- On the log that `mkfs` lays out: two of the panics are never reached; and if every
operation logs at most `MAXOPBLOCKS - 1` distinct blocks, then none is, and indices and log
blocks stay inside the log. -/
theorem log_space_reservation {layout : Layout} (image : Image layout)
    (nlog : layout.size = LOGSIZE) (events : List Event) (storage : Storage)
    (journal : Journal)
    (ran : (recorded image).exec (recorded image).start events = some (storage, journal)) :
    storage.stage ≠ .halted .outsideTransaction ∧ storage.stage ≠ .halted .committing ∧
      (journal.Within (MAXOPBLOCKS - 1) →
        (∀ panic, storage.stage ≠ .halted panic) ∧ storage.lh.n < LOGSIZE ∧
        ∀ tail, tail < storage.lh.n → layout.start < layout.slot tail ∧
          layout.slot tail < layout.start + layout.size) := by
  have reachable : (recorded image).Reachable (storage, journal) := ⟨events, ran⟩
  have calls := reachable_callsInv reachable
  refine ⟨?_, ?_, fun within => ?_⟩
  · intro halted
    rcases calls.cause _ halted with other | other <;> cases other
  · intro halted
    rcases calls.cause _ halted with other | other <;> cases other
  · obtain ⟨crash, inv⟩ := reachable_within nlog reachable within
    have fits : storage.lh.n < layout.size := (crash.log.live inv.live).sound.fits
    refine ⟨?_, nlog ▸ fits, ?_⟩
    · intro panic halted
      have live := inv.live
      rw [halted] at live
      cases live
    · intro tail used
      unfold Layout.slot
      omega

/-- The layout that `mkfs` writes, over a disk of zeros. -/
def blankImage : Image ⟨2, 30, by decide⟩ where
  disk := fun _ _ => 0
  empty := rfl

/-- An operation that logs `count` blocks from `first` on. -/
def logsBlocks (p first count : Nat) : List Event :=
  (List.range count).flatMap (fun i => [.logTest p, .logWrite p (first + i) (fun _ => p)])

/-- Three operations are admitted; two log ten blocks each, and the third wants to log its
tenth. -/
def threeFullOperations : List Event :=
  [.advance, .advance, .advance, .beginOp 1, .beginOp 2, .beginOp 3] ++
    logsBlocks 1 100 10 ++ logsBlocks 2 200 10 ++ logsBlocks 3 300 9 ++ [.logTest 3]

set_option maxRecDepth 100000 in
theorem log_overflows_within_reservations : ∃ storage journal,
    (recorded blankImage).exec (recorded blankImage).start threeFullOperations =
      some (storage, journal) ∧
    journal.Within MAXOPBLOCKS ∧ storage.stage = .halted .tooBigTransaction := by
  obtain ⟨⟨storage, journal⟩, ran, halted, few⟩ :
      ∃ reached,
        (recorded blankImage).exec (recorded blankImage).start threeFullOperations = some reached ∧
        reached.1.stage = .halted .tooBigTransaction ∧ ∀ op ∈ reached.2.logged.map Write.op,
        (blocksOf op reached.2.logged).card ≤ MAXOPBLOCKS := by
    decide +kernel
  exact ⟨storage, journal, ran, Journal.within_of_logged few, halted⟩

/-- Three operations are admitted and each logs nine blocks. -/
def threeShortOperations : List Event :=
  [.advance, .advance, .advance, .beginOp 1, .beginOp 2, .beginOp 3] ++
    logsBlocks 1 100 9 ++ logsBlocks 2 200 9 ++ logsBlocks 3 300 9

set_option maxRecDepth 100000 in
theorem log_space_reservation_three_operations : ∃ storage journal,
    (recorded blankImage).exec (recorded blankImage).start threeShortOperations =
      some (storage, journal) ∧
    storage.lh.n = 27 ∧ journal.Within (MAXOPBLOCKS - 1) ∧
    (∀ panic, storage.stage ≠ .halted panic) ∧ Layout.slot ⟨2, 30, by decide⟩ 26 < 32 := by
  obtain ⟨⟨storage, journal⟩, ran, full, few⟩ :
      ∃ reached,
        (recorded blankImage).exec (recorded blankImage).start threeShortOperations = some reached ∧
        reached.1.lh.n = 27 ∧ ∀ op ∈ reached.2.logged.map Write.op,
        (blocksOf op reached.2.logged).card ≤ MAXOPBLOCKS - 1 := by
    decide +kernel
  change storage.lh.n = 27 at full
  have within := Journal.within_of_logged few
  have safe := log_space_reservation blankImage rfl threeShortOperations storage journal ran
  obtain ⟨goes, _, inside⟩ := safe.2.2 within
  exact ⟨storage, journal, ran, full, within, goes, (inside 26 (by omega)).2⟩

end Xv6.Log
