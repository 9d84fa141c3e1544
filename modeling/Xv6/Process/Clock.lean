/-
The clock: when a tick is counted but not yet charged, and what a charging pass does.

CPU 0 alone counts ticks.  Between `ticks++` and `modify_times` it holds no lock, so
other CPUs may create, run and end processes in between.
-/

import Xv6.Process.Identifiers

namespace Xv6

open Library

namespace Kernel

variable {ncpu : Nat}

/-! ### The window between a tick and its charge -/

/-- A tick is counted and not yet charged. -/
def inWindow (k : Kernel ncpu) : Bool :=
  decide (∃ c, (k.cpu c).trap = .ticked)

variable {k next : Kernel ncpu} {policy : Policy} {c : Fin ncpu} {label : Label ncpu}

theorem inWindow_iff :
    k.inWindow = true ↔ ∃ c, (k.cpu c).trap = .ticked :=
  decide_eq_true_iff

/-- No interrupt is handled in the scheduler or before it starts, and only CPU 0 counts
ticks. -/
structure ClockInv (k : Kernel ncpu) : Prop where
  passing : ∀ c back, (k.cpu c).pc = .pass back → (k.cpu c).trap = .none
  booting : ∀ c np, (k.cpu c).pc = .boot np → (k.cpu c).trap = .none
  first : ∀ c, (k.cpu c).trap = .ticked → c.val = 0

theorem boot_clockInv : (boot ncpu).ClockInv where
  passing := fun _ _ _ => rfl
  booting := fun _ _ _ => rfl
  first := fun _ ticked => nomatch ticked

theorem timerTick_trap (stepped : k.step policy (.timerTick c) = some next) :
    c.val = 0 ∧ (k.cpu c).trap = .none ∧ (next.cpu c).trap = .ticked := by
  cases step_inversion stepped with
  | timerTick _ first on =>
    refine ⟨first, interruptible_quiet on, ?_⟩
    change ((k.setTrap c .ticked).cpu c).trap = .ticked
    rw [setTrap_trap, if_pos rfl]

theorem timerCharge_trap (stepped : k.step policy (.timerCharge c) = some next) :
    (k.cpu c).trap = .ticked ∧ (next.cpu c).trap = .charged := by
  cases step_inversion stepped with
  | timerCharge _ stage free =>
    refine ⟨stage, ?_⟩
    rw [setTrap_trap, if_pos rfl]

/-- Other steps of a CPU neither open nor close its window. -/
theorem ticked_other (clock : k.ClockInv) (traps : k.TrapInv)
    (stepped : k.step policy label = some next) (noTick : label ≠ .timerTick label.cpu)
    (noCharge : label ≠ .timerCharge label.cpu) :
    (k.cpu label.cpu).trap ≠ .ticked ∧ (next.cpu label.cpu).trap ≠ .ticked := by
  cases cpuStep stepped with
  | stays p before after moved =>
    generalize label.cpu = c at *
    generalize (next.cpu c).trap = trap at moved ⊢
    cases moved with
    | tick quiet => exact absurd rfl noTick
    | charge staged => exact absurd rfl noCharge
    | tail timer staged alive =>
      refine ⟨by simp [staged], ?_⟩
      split <;> nofun
    | exit killed staged =>
      rcases staged with ⟨timer, staged⟩ | staged <;> simp [staged]
    | call label kind staged => rcases staged with quiet | ⟨exiting, _⟩ <;> simp [*]
    | wakeup staged | deviceWakeup address staged | deviceDone staged | back staged => simp [staged]
    | other quiet => simp [quiet]
    | device quiet => simp [quiet]
    | fault quiet => simp [quiet]
  | leaves p before after staged state =>
    rw [after]
    rcases staged with quiet | exiting | yielding <;> simp [*]
  | starts p back labelled before after resumed ready =>
    rw [clock.passing _ back before, resumed]
    rcases (traps.records p).places with place | place | place <;> simp [place]
  | idle before after moved =>
    generalize label.cpu = c at *
    generalize (next.cpu c).trap = trap at moved ⊢
    cases moved with
    | tick on => exact absurd rfl noTick
    | charge staged => exact absurd rfl noCharge
    | wakeup staged | deviceWakeup address staged | deviceDone staged | tail timer staged =>
      simp [staged]
    | other on => simp [interruptible_quiet on]
    | device on => simp [interruptible_quiet on]
  | enters before after => simp [before, after]
  | ends back labelled before after => simp [clock.passing _ back before, after]
  | boots np before after =>
    rw [clock.booting _ np before]
    rcases after with ⟨new, after⟩ | after <;> simp [after]

theorem IdleMove.loopTop {trap : Trap} (moved : IdleMove k c label trap)
    (quiet : (k.cpu c).trap = .none) (idle : ∀ p, (k.cpu c).pc ≠ .running p) :
    (k.cpu c).pc = .loopTop := by
  have on : k.interruptible c = true := by
    cases moved with
    | tick on => exact on
    | other on => exact on
    | device on => exact on
    | charge staged | wakeup staged | deviceWakeup address staged | deviceDone staged
    | tail timer staged => simp [quiet] at staged
  simp only [interruptible, Bool.and_eq_true] at on
  cases place : (k.cpu c).pc with
  | loopTop => rfl
  | running p => exact absurd place (idle p)
  | pass back => simp [place] at on
  | boot np => simp [place] at on

theorem ClockInv.step (clock : k.ClockInv) (traps : k.TrapInv)
    (stepped : k.step policy label = some next) : next.ClockInv := by
  refine ⟨?_, ?_, ?_⟩
  · intro c back passing
    by_cases own : c = label.cpu
    · subst c
      cases cpuStep stepped with
      | stays p before after moved => simp [passing] at after
      | leaves p before after staged state => rw [after]
      | starts p back labelled before after resumed ready => simp [passing] at after
      | idle before after moved =>
        have there := after.symm.trans passing
        have top := moved.loopTop (clock.passing _ back there) before
        simp [there] at top
      | enters before after => rw [after]
      | ends back labelled before after => simp [after] at passing
      | boots np before after => rcases after with ⟨new, after⟩ | after <;> simp [after] at passing
    · rw [step_cpu_other stepped own] at passing ⊢
      exact clock.passing c back passing
  · intro c np booting
    by_cases own : c = label.cpu
    · subst c
      cases cpuStep stepped with
      | stays p before after moved => simp [booting] at after
      | leaves p before after staged state => rw [after]
      | starts p back labelled before after resumed ready => simp [booting] at after
      | idle before after moved =>
        have there := after.symm.trans booting
        have top := moved.loopTop (clock.booting _ np there) before
        simp [there] at top
      | enters before after => rw [after]
      | ends back labelled before after => rw [after]
      | boots np before after => rcases after with ⟨new, after⟩ | after <;> rw [after]
    · rw [step_cpu_other stepped own] at booting ⊢
      exact clock.booting c np booting
  · intro c ticked
    by_cases own : c = label.cpu
    · subst c
      by_cases tick : label = .timerTick label.cpu
      · rw [tick] at stepped
        exact (timerTick_trap stepped).1
      · by_cases charge : label = .timerCharge label.cpu
        · rw [charge] at stepped
          rw [(timerCharge_trap stepped).2] at ticked
          cases ticked
        · exact absurd ticked (ticked_other clock traps stepped tick charge).2
    · rw [step_cpu_other stepped own] at ticked
      exact clock.first c ticked

theorem reachable_clockInv (reachable : (machine policy ncpu).Reachable k) :
    k.ClockInv := by
  apply reachable.invariant_above boot_clockInv
  intro before label next reached clock stepped
  exact clock.step (reachable_trapInv reached) stepped

theorem claim_quiet (clock : k.ClockInv) (stepped : k.step policy label = some next)
    (kind : label.kind = .claim) : (k.cpu label.cpu).trap = .none := by
  cases step_inversion stepped with
  | userinitAlloc c place free => exact clock.booting c none place
  | allocproc c q place mode free => exact inSyscall_quiet mode
  | _ => cases kind

section Window

variable {policy : Policy} {k next : Kernel ncpu}

theorem inWindow_tick (clock : k.ClockInv) {c : Fin ncpu}
    (stepped : k.step policy (.timerTick c) = some next) :
    k.inWindow = false ∧ next.inWindow = true := by
  obtain ⟨first, quiet, ticked⟩ := timerTick_trap stepped
  refine ⟨?_, inWindow_iff.mpr ⟨c, ticked⟩⟩
  rw [← Bool.not_eq_true, inWindow_iff]
  intro opened
  obtain ⟨d, staged⟩ := opened
  have same : d = c := Fin.ext ((clock.first d staged).trans first.symm)
  rw [same, quiet] at staged
  cases staged

theorem inWindow_charge (clock : k.ClockInv) {c : Fin ncpu}
    (stepped : k.step policy (.timerCharge c) = some next) :
    k.inWindow = true ∧ next.inWindow = false := by
  obtain ⟨staged, charged⟩ := timerCharge_trap stepped
  refine ⟨inWindow_iff.mpr ⟨c, staged⟩, ?_⟩
  rw [← Bool.not_eq_true, inWindow_iff]
  intro opened
  obtain ⟨d, still⟩ := opened
  by_cases same : d = c
  · rw [same, charged] at still
    cases still
  · rw [step_cpu_other stepped same] at still
    exact same (Fin.ext ((clock.first d still).trans (clock.first c staged).symm))

theorem inWindow_other (clock : k.ClockInv) (traps : k.TrapInv) {label : Label ncpu}
    (stepped : k.step policy label = some next) (noTick : label.kind ≠ .tick)
    (noCharge : label.kind ≠ .charge) : next.inWindow = k.inWindow := by
  have own := ticked_other clock traps stepped
    (fun same => noTick (congrArg Label.kind same)) (fun same => noCharge (congrArg Label.kind same))
  rw [Bool.eq_iff_iff, inWindow_iff, inWindow_iff]
  constructor
  · intro opened
    obtain ⟨c, staged⟩ := opened
    have other : c ≠ label.cpu := fun same => own.2 (same ▸ staged)
    rw [step_cpu_other stepped other] at staged
    exact ⟨c, staged⟩
  · intro opened
    obtain ⟨c, staged⟩ := opened
    have other : c ≠ label.cpu := fun same => own.1 (same ▸ staged)
    rw [← step_cpu_other stepped other] at staged
    exact ⟨c, staged⟩

end Window

/-! ### What a pass charges -/

theorem chargeSlot_runTime (policy : Policy) (k : Kernel ncpu) (slot p : Slot) :
    ((chargeSlot policy k slot).proc p).runTime =
      (k.proc p).runTime +
        if p = slot ∧ (k.proc p).state = .running then 1 else 0 := by
  unfold chargeSlot
  split
  · rename_i running
    rw [modify_proc]
    by_cases same : p = slot
    · subst p
      simp only [if_true, true_and, running, chargeRunning]
      split <;> rfl
    · simp [same]
  · rename_i idle
    have waited := modify_files k slot (fun q => { q with waitTime := q.waitTime + 1 })
      ⟨rfl, rfl, rfl, rfl, rfl, rfl, rfl, rfl, rfl, rfl⟩ rfl
    have nothing : ¬(p = slot ∧ (k.proc p).state = .running) := by
      intro both
      rw [both.1] at both
      exact idle both.2
    rw [if_neg nothing, add_zero]
    simp only
    split
    · refine (Files.trans waited (Files.trans ?_ (push_files _ _ _))).runTime p
      exact modify_files _ slot _ ⟨rfl, rfl, rfl, rfl, rfl, rfl, rfl, rfl, rfl, rfl⟩ rfl
    · exact waited.runTime p

theorem foldl_chargeSlot_runTime (policy : Policy) {visited : List Slot}
    (distinct : visited.Nodup) (k : Kernel ncpu) (p : Slot) :
    ((visited.foldl (chargeSlot policy) k).proc p).runTime =
      (k.proc p).runTime +
        if p ∈ visited ∧ (k.proc p).state = .running then 1 else 0 := by
  induction visited generalizing k with
  | nil => simp
  | cons slot rest ih =>
    obtain ⟨fresh, distinctRest⟩ := List.nodup_cons.mp distinct
    rw [List.foldl_cons, ih distinctRest, chargeSlot_runTime,
      ((chargeSlot_accounts policy k slot).proc p).state]
    by_cases same : p = slot
    · subst p
      simp [fresh]
    · simp [same]

theorem modifyTimes_runTime (policy : Policy) (k : Kernel ncpu) (p : Slot) :
    ((k.modifyTimes policy).proc p).runTime =
      (k.proc p).runTime + if (k.proc p).state = .running then 1 else 0 := by
  rw [modifyTimes, foldl_chargeSlot_runTime policy (List.nodup_finRange NPROC)]
  simp

theorem ticks_step (stepped : TableStep policy k label next) :
    next.ticks = k.ticks + if label.kind = .tick then 1 else 0 := by
  cases stepped with
  | silent kind same =>
    rw [same.ticks]
    rcases kind with kind | kind <;> simp [kind]
  | wake kind woken wakes same => simp [same.ticks, wakes.ticks, kind]
  | priority c p pid priority labelled place result =>
    subst labelled
    rw [result]
    unfold setPriority
    split <;> simp [Label.kind]
  | full kind none same => simp [same.ticks, kind]
  | claim kind slot found same =>
    rcases allocproc_cases policy k with ⟨_, result⟩ | ⟨_, after, _, result, files⟩
    · rw [result] at same
      simp [same.ticks, kind]
    · rw [result] at same
      simp [same.ticks, files.ticks, kind, claimSlot]
  | forkFail kind np embryo same => simp [same.ticks, kind, setState]
  | ready kind np embryo same => simp [same.ticks, kind, setState]
  | exit c p labelled place running woken wakes same =>
    subst labelled
    simp [same.ticks, wakes.ticks, Label.kind]
  | reap kind child zombie same => simp [same.ticks, kind]
  | sleep kind c p place running same =>
    rw [same.ticks]
    rcases kind with kind | kind <;> simp [kind, setState]
  | yield c p labelled place running stage result =>
    subst labelled
    rw [result, (yield_files policy k c p).ticks]
    simp [sched, Label.kind]
  | tick c labelled same =>
    subst labelled
    simp [same.ticks, Label.kind]
  | charge c labelled same =>
    subst labelled
    simp [same.ticks, (modifyTimes_accounts policy k).ticks, Label.kind]
  | pass c back labelled place result =>
    subst labelled
    cases schedulerPass_outcome policy k c back with
    | dispatched middle p files ready after =>
      simp [result, after, dispatch, files.ticks, Label.kind]
    | ended middle files after => simp [result, after, release, files.ticks, Label.kind]

end Kernel

end Xv6
