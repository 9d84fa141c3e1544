/-
Round robin on one CPU is fair.

The scan over the table survives the switches to processes while the table changes
under it.  A process that waits is nearer to the scan than the process that was
dispatched last, and stays so until it is served.
-/

import Xv6.Process.Rounds

namespace Xv6

open Library

namespace Kernel

variable {k next : Kernel 1} {p q : Slot} {label : Label 1}

theorem roundRobin_dispatch_origin (stepped : k.step .roundRobin (.pass 0) = some next)
    (running : (next.cpu 0).pc = .running p) :
    ∃ back, (k.cpu 0).pc = .pass back ∧ k.nextRunnable (cursor back) = some p := by
  cases step_inversion stepped with
  | pass _ back place =>
    cases found : k.nextRunnable (cursor back) with
    | none => simp [schedulerPass, roundRobinPass, found, release] at running
    | some x =>
      simp only [schedulerPass, roundRobinPass, found, dispatch,
        Function.update_self] at running
      cases running
      exact ⟨back, place, found⟩

theorem roundRobin_pass_ends {back : Option Slot}
    (stepped : k.step .roundRobin (.pass 0) = some next)
    (place : (k.cpu 0).pc = .pass back) (ended : (next.cpu 0).pc = .loopTop) :
    k.nextRunnable (cursor back) = none := by
  cases step_inversion stepped with
  | pass _ other there =>
    rw [place] at there
    cases there
    cases found : k.nextRunnable (cursor back) with
    | none => rfl
    | some x => simp [schedulerPass, roundRobinPass, found, dispatch] at ended

theorem roundRobin_serves_nearest (stepped : k.step .roundRobin (.pass 0) = some next)
    (running : (next.cpu 0).pc = .running p) (ready : (k.proc q).state = .runnable) :
    distance NPROC (outerPosition (k.cpu 0).pc) p.val ≤
      distance NPROC (outerPosition (k.cpu 0).pc) q.val := by
  obtain ⟨back, place, found⟩ := roundRobin_dispatch_origin stepped running
  have ahead := (nextRunnable_state found).1
  have first : cursor back ≤ q.val → p.val ≤ q.val :=
    fun here => nextRunnable_first found q here ready
  have inside := outerPosition_le (.pass back)
  change cursor back ≤ NPROC at inside
  rw [place]
  change distance NPROC (cursor back) p.val ≤ distance NPROC (cursor back) q.val
  have casesP := distance_cases inside p.val
  have casesQ := distance_cases inside q.val
  have below : p.val < NPROC := p.isLt
  omega

theorem DueFirst.roundRobin_step (due : k.DueFirst p q)
    (ready : (k.proc q).state = .runnable) (still : (next.proc q).state = .runnable)
    (places : next.KernelInv) (stepped : k.step .roundRobin label = some next) :
    next.DueFirst p q := by
  refine due.step still places stepped ?_ ?_
  · intro r labelled after
    subst label
    exact roundRobin_serves_nearest stepped after ready
  · intro back labelled before after
    subst label
    exact nextRunnable_none (roundRobin_pass_ends stepped before after) q ready

/-- The process is RUNNABLE and still the one it was. -/
def waitsAs (q : Slot) (pid : Int) (k : Kernel 1) : Bool :=
  decide ((k.proc q).state = .runnable ∧ (k.proc q).pid = pid)

theorem waitsAs_iff {pid : Int} : waitsAs q pid k = true ↔
    (k.proc q).state = .runnable ∧ (k.proc q).pid = pid :=
  decide_eq_true_iff

theorem DueFirst.roundRobin_run {final : Kernel 1} {pid : Int} {labels : List (Label 1)}
    (due : k.DueFirst p q) (waiting : waitsAs q pid k = true)
    (reachable : (machine .roundRobin 1).Reachable k)
    (ran : ((machine .roundRobin 1).within (waitsAs q pid)).exec k labels = some final) :
    final.DueFirst p q := by
  induction labels generalizing k with
  | nil =>
    cases ran
    exact due
  | cons label labels ih =>
    obtain ⟨next, taken, remaining⟩ := (Machine.exec_cons _ _ _ _ _).mp ran
    obtain ⟨stepped, still⟩ := Machine.within_step.mp taken
    have arrived := reachable_step reachable stepped
    refine ih ?_ still arrived remaining
    exact due.roundRobin_step (waitsAs_iff.mp waiting).1 (waitsAs_iff.mp still).1
      (reachable_kernelInv arrived) stepped

theorem waitsAs_until_dispatched {pid : Int} (inv : k.KernelInv)
    (stepped : k.step .roundRobin label = some next) (waiting : waitsAs q pid k = true)
    (stopped : waitsAs q pid next = false) (after : next.KernelInv) :
    label = .pass 0 ∧ (next.cpu 0).pc = .running q ∧ (next.proc q).pid = pid := by
  obtain ⟨ready, same⟩ := waitsAs_iff.mp waiting
  have samePid := step_pid stepped (inUse_of_runnable ready)
  rcases runnable_until_dispatched inv stepped ready with still | ⟨c, labelled, place⟩
  · have keeps := samePid (inUse_of_runnable still)
    have waits := waitsAs_iff.mpr ⟨still, keeps.trans same⟩
    rw [stopped] at waits
    cases waits
  · have only : c = 0 := Subsingleton.elim _ _
    subst c
    refine ⟨labelled, place, (samePid ?_).trans same⟩
    unfold InUse
    rw [after.onCpu 0 q place]
    decide

/-- Between two dispatches of a process, every other process that is RUNNABLE right after
the first one is dispatched: it stays RUNNABLE up to some pass and that pass switches to
it. -/
theorem round_robin_fair {middle final : Kernel 1} {labels : List (Label 1)}
    (reachable : (machine .roundRobin 1).Reachable k)
    (stepped : k.step .roundRobin (.pass 0) = some next)
    (running : (next.cpu 0).pc = .running p)
    (ran : (machine .roundRobin 1).exec next labels = some middle)
    (again : middle.step .roundRobin (.pass 0) = some final)
    (runningAgain : (final.cpu 0).pc = .running p)
    (ready : (next.proc q).state = .runnable) :
    ∃ before after served, labels = before ++ .pass 0 :: after ∧
      (∃ waiting, ((machine .roundRobin 1).within (waitsAs q (next.proc q).pid)).exec next before =
        some waiting ∧ waiting.step .roundRobin (.pass 0) = some served) ∧
      (served.cpu 0).pc = .running q ∧ (served.proc q).pid = (next.proc q).pid := by
  have arrived := reachable_step reachable stepped
  have waiting : waitsAs q (next.proc q).pid next = true := waitsAs_iff.mpr ⟨ready, rfl⟩
  have different : q ≠ p := by
    intro same
    have onCpu := (reachable_kernelInv arrived).onCpu 0 p running
    rw [← same, ready] at onCpu
    cases onCpu
  have due : next.DueFirst p q := .of_dispatch running different
  rcases Machine.exec_first_exit (waitsAs q (next.proc q).pid) ran with
    whole | ⟨before, label, after, waiter, served, split, kept, stop, stopped⟩
  · -- it waited all the time, so the second dispatch passed over it
    have dueThen := due.roundRobin_run waiting arrived whole
    have waitingThen := (waitsAs_iff.mp (Machine.within_last whole waiting)).1
    have nearest := roundRobin_serves_nearest again runningAgain waitingThen
    exact absurd dueThen (not_lt.mpr nearest)
  · have reached := arrived.exec (Machine.within_exec kept)
    have stepHere : waiter.step .roundRobin label = some served := stop
    obtain ⟨labelled, place, pid⟩ := waitsAs_until_dispatched (reachable_kernelInv reached) stepHere
      (Machine.within_last kept waiting) stopped
      (reachable_kernelInv (reachable_step reached stepHere))
    subst label
    exact ⟨before, after, served, split, ⟨waiter, kept, stepHere⟩, place, pid⟩

/-- A dispatched process runs on until the clock takes the CPU away from it. -/
def untilTick : List (Label 1) :=
  [.trapReturn 0, .timerTick 0, .timerCharge 0, .timerWakeup 0, .trapTail 0, .yield 0]

/-- The first process has a child, and both have run until the clock interrupted them; the
scan starts again. -/
def parentAndChild : List (Label 1) :=
  startUp ++ forkLabels ++
    [.timerTick 0, .timerCharge 0, .timerWakeup 0, .trapTail 0, .yield 0, .pass 0,
      .forkretReturn 0, .timerTick 0, .timerCharge 0, .timerWakeup 0, .trapTail 0, .yield 0,
      .pass 0, .enter 0]

/-- The parent and then the child run once more. -/
def onceMore : List (Label 1) :=
  untilTick ++ [.pass 0] ++ untilTick ++ [.pass 0, .enter 0]

set_option maxRecDepth 100000 in
/-- Between two dispatches of the parent the child is dispatched. -/
theorem round_robin_fair_parent_and_child :
    ∃ k next middle final : Kernel 1,
      (machine .roundRobin 1).exec (boot 1) parentAndChild = some k ∧
      k.step .roundRobin (.pass 0) = some next ∧ (next.cpu 0).pc = .running 0 ∧
      (machine .roundRobin 1).exec next onceMore = some middle ∧
      middle.step .roundRobin (.pass 0) = some final ∧ (final.cpu 0).pc = .running 0 ∧
      (next.proc 1).state = .runnable ∧
      ∃ before after served, onceMore = before ++ .pass 0 :: after ∧
        (machine .roundRobin 1).exec next (before ++ [.pass 0]) = some served ∧
        (served.cpu 0).pc = .running 1 := by
  obtain ⟨k, ran, next, stepped, running, ready, middle, between, final, again, runningAgain⟩ :
      ∃ k, (machine .roundRobin 1).exec (boot 1) parentAndChild = some k ∧
        ∃ next, k.step .roundRobin (.pass 0) = some next ∧ (next.cpu 0).pc = .running 0 ∧
        (next.proc 1).state = .runnable ∧
        ∃ middle, (machine .roundRobin 1).exec next onceMore = some middle ∧
        ∃ final, middle.step .roundRobin (.pass 0) = some final ∧ (final.cpu 0).pc =
        .running 0 := by
    decide +kernel
  obtain ⟨before, after, served, split, ⟨waiting, kept, taken⟩, place, _⟩ :=
    round_robin_fair ⟨_, ran⟩ stepped running between again runningAgain ready
  refine ⟨k, next, middle, final, ran, stepped, running, between, again, runningAgain, ready,
    before, after, served, split, ?_, place⟩
  exact (Machine.exec_append _ _ _ _ _).mpr
    ⟨waiting, Machine.within_exec kept, (Machine.exec_singleton _ _ _ _).mpr taken⟩

end Kernel

end Xv6
