/-
How the state of one process changes in a step, and where RUNNING processes are.

Each of the nine changes of state belongs to a few labels.  From the list follows that
a RUNNABLE process stays RUNNABLE until a CPU switches to it, and that the RUNNING
processes are exactly those which some CPU executes.
-/

import Xv6.Process.Identifiers

namespace Xv6

open Library

variable {ncpu : Nat}

theorem Outline.Step.pid {o o' : Outline ncpu} {label : Label ncpu} {q : Slot}
    (step : o.Step label o') (before : (o.core q).state ≠ .unused)
    (after : (o'.core q).state ≠ .unused) : (o'.core q).pid = (o.core q).pid := by
  cases step with
  | calm c trap own stage woken => rw [(woken q).rest]
  | exit c p labelled place mode ordinary free passes => rw [passes.rest]
  | acts c p core trap own kind place quiet calm record same =>
    have rest := record.rest
    grind
  | _ =>
    rename_i same
    subst same
    grind

namespace Kernel

/-- The changes of state.  A process leaves a CPU in the states of `LeavesAs`. -/
inductive StateMove (k : Kernel ncpu) (label : Label ncpu) (next : Kernel ncpu)
    (p : Slot) : Prop
  | keeps (same : (next.proc p).state = (k.proc p).state)
  | claimed (kind : label.kind = .claim) (before : (k.proc p).state = .unused)
      (after : (next.proc p).state = .embryo)
  | givenBack (kind : label.kind = .forkFail) (before : (k.proc p).state = .embryo)
      (after : (next.proc p).state = .unused)
  | published (kind : label.kind = .ready) (before : (k.proc p).state = .embryo)
      (after : (next.proc p).state = .runnable)
  | woken (kind : label.kind = .wake ∨ label.kind = .exit)
      (before : (k.proc p).state = .sleeping) (after : (next.proc p).state = .runnable)
  | dispatched (c : Fin ncpu) (labelled : label = .pass c)
      (before : (k.proc p).state = .runnable) (after : (next.proc p).state = .running)
      (place : (next.cpu c).pc = .running p)
  | left (c : Fin ncpu) (place : (k.cpu c).pc = .running p)
      (before : (k.proc p).state = .running)
      (after : LeavesAs label.kind (next.proc p).state)
  | reaped (kind : label.kind = .wait) (before : (k.proc p).state = .zombie)
      (after : (next.proc p).state = .unused)

section Moves

variable {k next : Kernel ncpu} {label : Label ncpu} {p : Slot} {policy : Policy}

/-- One record is set; the others keep their state. -/
theorem StateMove.of_set {o : Outline ncpu} {slot : Slot} {core : Core}
    (same : ∀ q, (next.proc q).state = ((o.set slot core).core q).state)
    (kept : ∀ q, (o.core q).state = (k.proc q).state)
    (moved : (next.proc slot).state = core.state → StateMove k label next slot) :
    StateMove k label next p := by
  have here := same p
  rw [Outline.set_core] at here
  split at here
  · rename_i own
    subst p
    exact moved here
  · exact .keeps (here.trans (kept p))

theorem stateMove (inv : k.KernelInv) (stepped : k.step policy label = some next)
    (p : Slot) :
    StateMove k label next p := by
  have core : ∀ q, (next.proc q).state = (next.outline.core q).state := fun _ => rfl
  cases outlineStep stepped with
  | calm c trap own stage woken awake full childless ordinary later same =>
    rcases (woken p).state with kept | ⟨slept, ready⟩
    · exact .keeps kept
    · rcases awake with kind | still
      · exact .woken (Or.inl kind) slept ready
      · exact .keeps (congrArg (fun cores => (cores p).state) still)
  | exits | ends | enters | bootFull =>
    rename_i same
    rw [same] at core
    exact .keeps (core p)
  | kills c slot pid labelled found same =>
    rw [same] at core
    refine .of_set core (fun _ => rfl) (fun after => ?_)
    by_cases slept : (k.proc slot).state = .sleeping
    · exact .woken (Or.inl (by rw [labelled]; rfl)) slept (after.trans (if_pos slept))
    · exact .keeps (after.trans (if_neg slept))
  | acts c q core' trap own kind place quiet calm record same =>
    rw [same] at core
    exact .of_set core (fun _ => rfl) (fun after => .keeps (after.trans (by rw [record.rest]; rfl)))
  | sleeps c q chan own kind place mode waits childless free same =>
    rw [same] at core
    refine .of_set core (fun _ => rfl) (fun after => .left c place (inv.onCpu c q place) ?_)
    rw [after]
    rcases kind with kind | kind <;> rw [kind] <;> rfl
  | yields c q labelled place stage free same =>
    rw [same] at core
    refine .of_set core (fun _ => rfl) (fun after => .left c place (inv.onCpu c q place) ?_)
    rw [after, labelled]
    rfl
  | exit c q labelled place mode ordinary free passes same =>
    by_cases here : p = q
    · subst p
      refine .left c place (inv.onCpu c q place) ?_
      rw [labelled]
      exact passes.gone
    · rcases passes.state p here with kept | ⟨slept, ready⟩
      · exact .keeps kept
      · exact .woken (Or.inr (by rw [labelled]; rfl)) slept ready
  | starts c q back labelled place ready same =>
    rw [same] at core
    refine .of_set core (fun _ => rfl) (fun after => .dispatched c labelled ready after ?_)
    change (next.outline.cpu c).pc = _
    simp only [same, Function.update_self]
  | bootClaims c np labelled place free unused same =>
    rw [same] at core
    refine .of_set core (fun _ => rfl) (fun after => .claimed ?_ unused after)
    rw [labelled]
    rfl
  | bootReady c np labelled place free same =>
    rw [same] at core
    refine .of_set core (fun _ => rfl) (fun after => .published ?_ (inv.booting c np place).1 after)
    rw [labelled]
    rfl
  | forks c q np labelled place quiet mode unused same =>
    simp only [same, Outline.setControl_state] at core
    refine .of_set core (fun _ => rfl) (fun after => .claimed ?_ unused after)
    rw [labelled]
    rfl
  | forkFails c q np labelled place quiet mode same =>
    simp only [same, Outline.setControl_state] at core
    refine .of_set core (fun _ => rfl) (fun after =>
      .givenBack ?_ (inv.embryo q np false mode) after)
    rw [labelled]
    rfl
  | forkCopies c q np labelled place quiet mode same =>
    simp only [same, Outline.setControl_state] at core
    exact .of_set core (fun _ => rfl) .keeps
  | forkReady c q np labelled place quiet mode same =>
    simp only [same, Outline.setControl_state] at core
    refine .of_set core (fun _ => rfl) (fun after => .published ?_ (inv.embryo q np true mode) after)
    rw [labelled]
    rfl
  | reaps c q child own kind place parent zombie found same =>
    rw [same] at core
    exact .of_set core (fun _ => rfl) (.reaped kind zombie)

theorem runnable_until_dispatched (inv : k.KernelInv)
    (stepped : k.step policy label = some next) (ready : (k.proc p).state = .runnable) :
    (next.proc p).state = .runnable ∨
      ∃ c, label = .pass c ∧ (next.cpu c).pc = .running p := by
  cases stateMove inv stepped p with
  | keeps same => exact Or.inl (same.trans ready)
  | dispatched c labelled before after place => exact Or.inr ⟨c, labelled, place⟩
  | claimed kind before | givenBack kind before | published kind before | woken kind before
  | left c place before | reaped kind before => simp [ready] at before

/-- A slot in use before and after a step belongs to the same process. -/
theorem step_pid (stepped : k.step policy label = some next) {q : Slot}
    (before : k.InUse q) (after : next.InUse q) :
    (next.proc q).pid = (k.proc q).pid :=
  (outlineStep stepped).pid before after

end Moves

/-! ### RUNNING processes and CPUs -/

/-- `mycpu()->proc`: set before the switch to a process, and cleared only when the pass
goes on after the process has switched back. -/
def curproc (k : Kernel ncpu) (c : Fin ncpu) : Option Slot :=
  match (k.cpu c).pc with
  | .running p => some p
  | .pass back => back
  | .boot _ | .loopTop => none

structure OccupancyInv (k : Kernel ncpu) : Prop where
  occupied : ∀ p, (k.proc p).state = .running → ∃ c, (k.cpu c).pc = .running p
  passing : ∀ c back, (k.cpu c).pc = .pass back → k.lock = some c

variable {k : Kernel ncpu} {child : Slot}

theorem reachable_occupancyInv {policy : Policy}
    (reachable : (machine policy ncpu).Reachable k) : k.OccupancyInv := by
  have inv := reachable_placed reachable
  exact ⟨inv.occupied, fun c back place => (inv.locked c).mpr (CpuPc.isPass_iff.mpr ⟨back, place⟩)⟩

theorem OccupancyInv.curproc_iff (occupancy : k.OccupancyInv) (free : k.lock = none)
    (c : Fin ncpu) (p : Slot) :
    k.curproc c = some p ↔ (k.cpu c).pc = .running p := by
  unfold curproc
  cases place : (k.cpu c).pc with
  | running q => simp
  | boot np => simp
  | loopTop => simp
  | pass back =>
    have held := occupancy.passing c back place
    rw [free] at held
    cases held

theorem zombieChild_spec {p : Slot} (found : k.zombieChild p = some child) :
    (k.proc child).parent = some p ∧ (k.proc child).state = .zombie := by
  have matching := List.find?_some found
  simpa only [Bool.and_eq_true, decide_eq_true_eq] using matching

/-- The process whose kernel stack and memory a step of `wait` or `waitx` frees. -/
def freedBy (k : Kernel ncpu) : Label ncpu → Option Slot
  | .wait c | .waitx c =>
    match (k.cpu c).pc with
    | .running p => (k.waitLoop c p).1
    | _ => none
  | _ => none

theorem waitLoop_reaped {c : Fin ncpu} {p : Slot} (reaped : (k.waitLoop c p).1 = some child) :
    k.zombieChild p = some child := by
  unfold waitLoop at reaped
  split at reaped
  · rename_i found
    rw [found]
    exact reaped
  · split at reaped
    · cases reaped
    · cases reaped

theorem freedBy_spec {label : Label ncpu} (freed : k.freedBy label = some child) :
    ∃ p, (k.cpu label.cpu).pc = .running p ∧ k.zombieChild p = some child := by
  unfold freedBy at freed
  cases label with
  | wait | waitx =>
    simp only at freed
    split at freed
    · rename_i p place
      exact ⟨p, place, waitLoop_reaped freed⟩
    · cases freed
  | _ => cases freed

/-- Under every policy and on any number of CPUs, while the lock is free: a process is
RUNNING exactly if it is the process of exactly one CPU, the process of a CPU is RUNNING,
and `wait` and `waitx` free no kernel stack of a process that is the process of a CPU. -/
theorem one_cpu_per_process {policy : Policy} {k : Kernel ncpu}
    (reachable : (machine policy ncpu).Reachable k) (free : k.lock = none) :
    (∀ p, (k.proc p).state = .running ↔ ∃! c, k.curproc c = some p) ∧
    (∀ c, k.curproc c = none ∨
      ∃ p, k.curproc c = some p ∧ (k.proc p).state = .running) ∧
    ∀ label next child, k.step policy label = some next →
      k.freedBy label = some child → ∀ c, k.curproc c ≠ some child := by
  have inv := reachable_kernelInv reachable
  have occupancy := reachable_occupancyInv reachable
  have executes := occupancy.curproc_iff free
  have running : ∀ c p, k.curproc c = some p → (k.proc p).state = .running :=
    fun c p here => inv.onCpu c p ((executes c p).mp here)
  refine ⟨?_, ?_, ?_⟩
  · intro p
    constructor
    · intro state
      obtain ⟨c, place⟩ := occupancy.occupied p state
      refine ⟨c, (executes c p).mpr place, ?_⟩
      intro d there
      exact inv.alone d c p ((executes d p).mp there) place
    · rintro ⟨c, here, _⟩
      exact running c p here
  · intro c
    cases here : k.curproc c with
    | none => exact Or.inl rfl
    | some p => exact Or.inr ⟨p, rfl, running c p here⟩
  · intro label next child _ freed c here
    obtain ⟨p, _, found⟩ := freedBy_spec freed
    have zombie := (zombieChild_spec found).2
    rw [running c child here] at zombie
    cases zombie

/-- A first process that has a child and waits while the child exits. -/
def waitForChild : List (Label 1) :=
  startUp ++ forkLabels ++
    [.syscallEnter 0, .wait 0, .pass 0, .forkretReturn 0, .syscallEnter 0, .exit 0, .pass 0,
      .enter 0, .pass 0]

set_option maxRecDepth 100000 in
/-- The parent is back in `wait` and is the process of the CPU; the child that it frees
is not. -/
theorem one_cpu_per_process_wait_for_child :
    ∃ k : Kernel 1, (machine .roundRobin 1).exec (boot 1) waitForChild = some k ∧
      k.lock = none ∧ (k.step .roundRobin (.wait 0)).isSome = true ∧
      k.freedBy (.wait 0) = some 1 ∧
      (k.proc 0).state = .running ∧ k.curproc 0 ≠ some 1 := by
  obtain ⟨k, ran, free, taken, freed, here⟩ :
      ∃ k, (machine .roundRobin 1).exec (boot 1) waitForChild = some k ∧
        k.lock = none ∧ (k.step .roundRobin (.wait 0)).isSome = true ∧
        k.freedBy (.wait 0) = some 1 ∧ k.curproc 0 = some 0 := by
    decide +kernel
  obtain ⟨occupied, running, unfreed⟩ := one_cpu_per_process ⟨_, ran⟩ free
  obtain ⟨next, stepped⟩ := Option.isSome_iff_exists.mp taken
  refine ⟨k, ran, free, taken, freed, ?_, unfreed (.wait 0) next 1 stepped freed 0⟩
  rcases running 0 with none | ⟨p, same, state⟩
  · rw [here] at none
    cases none
  · rw [here] at same
    cases same
    exact state

end Kernel

end Xv6
