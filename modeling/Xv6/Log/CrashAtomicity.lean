/-
Crash atomicity of the log.

Whatever the calls, the crashes and the recoveries, a completed recovery leaves on the home
blocks what the committed writes make of the first disk, and of every operation all writes
are committed or none, as long as `log_write` finds the room for which it has tested.  The
tests are made without the lock.  Two calls that find room for one block each add two, and
`write_log` writes the last one behind the log, to a home block.
-/

import Xv6.Log.Reservation

namespace Xv6.Log

open Library

variable {journal : Journal} {layout : Layout} {storage : Storage}

/-! ### Recovery completes -/

theorem CrashInv.complete {image : Image layout} (inv : CrashInv image storage journal)
    (idle : storage.stage = .idle) {blockno : Nat} (home : layout.Home blockno) :
    storage.disk blockno = journal.store image.disk blockno := by
  have live := inv.log.live (by rw [idle]; rfl)
  rw [idle] at live
  have collecting : Collecting layout image.disk storage.view _ _ := live.holds
  exact inv.log.durable.complete collecting.empty home

/-- At every moment before a panic `log.outstanding` counts the operations under way.  While
there is one nothing is committed: `bread` shows the writes of all operations so far, and the
disk those of the last commit. -/
theorem operations_see_logged_writes (image : Image layout) (events : List Event)
    (meets : (recorded image).Meets (Fits layout) (recorded image).start events) :
    (recorded image).Always (fun now => now.1.stage.stopped = false →
      now.1.outstanding = now.1.active.length ∧
      (now.1.active ≠ [] → now.1.committing = false ∧
        ∀ blockno, layout.Home blockno →
          now.1.read blockno =
            install ((now.2.committed ++ now.2.pending).map Write.entry) image.disk blockno ∧
          now.1.disk blockno = now.2.store image.disk blockno))
      (recorded image).start events := by
  refine (CrashInv.boot.always meets).mono ?_
  rintro ⟨storage, journal⟩ inv live
  refine ⟨inv.calls.counted, fun under => ?_⟩
  have idle : storage.stage = .idle := by
    by_contra busy
    exact under (inv.calls.quiet live busy)
  have state := inv.log.live live
  rw [idle] at state
  have collecting : Collecting layout image.disk storage.view _ _ := state.holds
  refine ⟨?_, fun blockno home => ⟨?_, inv.complete idle home⟩⟩
  · rw [inv.calls.flagged live, idle]
    rfl
  · rw [List.map_append]
    exact collecting.shown blockno home

/-- Two operations have passed the tests together, and one of them has logged its block. -/
def halfLogged : List Event :=
  [.advance, .advance, .advance, .beginOp 1, .beginOp 2, .logTest 1, .logTest 2,
    .logWrite 1 40 (fun _ => 7)]

set_option maxRecDepth 100000 in
theorem operations_see_logged_writes_half : ∃ storage journal,
    (recorded blankImage).exec (recorded blankImage).start halfLogged =
      some (storage, journal) ∧
    storage.read 40 0 = 7 ∧ storage.outstanding = storage.active.length ∧
    storage.disk 40 = journal.store blankImage.disk 40 := by
  let check : Storage × Journal → Event → Bool := fun now _ => decide (now.1.lh.n < 29)
  have meets : (recorded blankImage).Meets (Fits ⟨2, 30, by decide⟩)
      (recorded blankImage).start halfLogged := by
    refine @Machine.meets_of_checks _ _ _ check _ ?_ _ halfLogged (by decide +kernel)
    intro now event passed
    have few : now.1.lh.n < 29 := of_decide_eq_true passed
    cases event with
    | logWrite p blockno data => exact Or.inr ⟨Nat.lt_succ_of_lt few, few⟩
    | _ => trivial
  obtain ⟨⟨storage, journal⟩, ran, idle, active, shown⟩ :
      ∃ reached, (recorded blankImage).exec (recorded blankImage).start halfLogged = some reached ∧
        reached.1.stage = .idle ∧ reached.1.active = [2, 1] ∧ reached.1.read 40 0 = 7 := by
    decide +kernel
  change storage.stage = .idle at idle
  change storage.active = [2, 1] at active
  have holds := (operations_see_logged_writes blankImage halfLogged meets).last ran
  obtain ⟨counted, under⟩ := holds (by change storage.stage.stopped = false; rw [idle]; rfl)
  obtain ⟨_, blocks⟩ := under (by change storage.active ≠ []; rw [active]; nofun)
  exact ⟨storage, journal, ran, shown, counted, (blocks 40 (by decide)).2⟩

end Xv6.Log
