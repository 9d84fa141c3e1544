/-
Where a suspended process will continue.

A process gives up its CPU in three ways: it sleeps in a system call, it sleeps in
the `exit` that an interrupt forced on it, or it yields at the end of `trap`.  A
process suspended in user mode therefore continues at the last test of `killed`, or
inside that `exit`, which only a killed process reaches.
-/

import Xv6.Process.TableSteps

namespace Xv6

open Library
open Function (update_self)

/-- A call that a process makes without leaving its CPU. -/
def Label.isCall {ncpu : Nat} : Label ncpu → Bool
  | .syscallEnter _ | .syscallReturn _ | .forkretReturn _ | .wakeup _ _ | .kill _ _
  | .setPriority _ _ _ | .allocproc _ | .forkFail _ | .forkCopy _ | .forkReady _ | .wait _
  | .waitx _ => true
  | _ => false

structure Proc.Resumable (p : Proc) : Prop where
  places : p.resume = .none ∨ p.resume = .recheck ∨ p.resume = .exiting
  exiting : p.state = .sleeping ∨ p.state = .runnable → p.resume = .exiting →
    p.killed = true ∧ p.control = .user
  user : p.state = .sleeping ∨ p.state = .runnable → p.control = .user →
    p.resume = .recheck ∨ p.resume = .exiting
  embryo : p.state = .embryo → p.resume = .none ∧ p.control = .forkret

namespace Outline

variable {ncpu : Nat}

structure Resumes (o : Outline ncpu) : Prop where
  places : ∀ p, (o.core p).resume = .none ∨ (o.core p).resume = .recheck ∨
    (o.core p).resume = .exiting
  suspended : ∀ p, (o.core p).state = .sleeping ∨ (o.core p).state = .runnable →
    (o.core p).resume = .exiting → (o.core p).killed = true ∧ (o.core p).control = .user
  user : ∀ p, (o.core p).state = .sleeping ∨ (o.core p).state = .runnable →
    (o.core p).control = .user → (o.core p).resume = .recheck ∨ (o.core p).resume = .exiting
  embryo : ∀ p, (o.core p).state = .embryo →
    (o.core p).resume = .none ∧ (o.core p).control = .forkret
  exiting : ∀ c p, (o.cpu c).pc = .running p → (o.cpu c).trap = .exiting →
    (o.core p).killed = true ∧ (o.core p).control = .user

variable {o o' : Outline ncpu} {label : Label ncpu}

/-- Only a process that sleeps, yields or is switched to changes the place where it
continues; only `trapExit` lets a running process enter the forced `exit`. -/
theorem Resumes.step (inv : o.Resumes) (placed : o.Placed) (step : o.Step label o') :
    o'.Resumes := by
  obtain ⟨places, suspended, user, embryo, exiting⟩ := inv
  have onCpu := placed.onCpu
  have alone := placed.alone
  cases step with
  | calm c trap own stage woken awake full childless ordinary later same =>
    have state := fun q => (woken q).state
    have rest := fun q => (woken q).rest
    have cpuOf : ∀ d, o'.cpu d = (o.setTrap c trap).cpu d := fun d => by rw [same]
    clear same
    constructor
    case places | suspended | user | embryo => grind
    case exiting => grind
  | acts c p core trap own kind place quiet calm record same =>
    have rest := record.rest
    have killed := record.killed
    subst same
    constructor
    case places | suspended | user | embryo => grind
    case exiting => grind
  | exit c p labelled place mode ordinary free passes same =>
    have state := passes.state
    have gone := passes.gone
    have rest := passes.rest
    have cpuOf : ∀ d, o'.cpu d = (o.sched c p).cpu d := fun d => by rw [same]
    clear same
    constructor
    case places | suspended | user | embryo => grind
    case exiting => grind
  | bootReady c np labelled place free same =>
    have published := (placed.booting c np place).1
    subst same
    constructor
    case places | suspended | user | embryo => grind
    case exiting => grind
  | forkFails c p np labelled place quiet mode same
  | forkCopies c p np labelled place quiet mode same
  | forkReady c p np labelled place quiet mode same =>
    have inFork := placed.embryo p np _ mode
    subst same
    constructor
    case places | suspended | user | embryo => grind
    case exiting => grind
  | exits | kills | sleeps | yields | starts | ends | enters | bootClaims | bootFull | forks
  | reaps =>
    rename_i same
    subst same
    constructor
    case places | suspended | user | embryo => grind
    case exiting => grind

end Outline

namespace Kernel

variable {ncpu : Nat}

structure TrapInv (k : Kernel ncpu) : Prop where
  records : ∀ slot, (k.proc slot).Resumable
  exiting : ∀ c p, (k.cpu c).pc = .running p → (k.cpu c).trap = .exiting →
    (k.proc p).killed = true ∧ (k.proc p).control = .user

variable {k next : Kernel ncpu} {c : Fin ncpu} {p : Slot} {policy : Policy}
  {label : Label ncpu}

theorem reachable_resumes (reachable : (machine policy ncpu).Reachable k) :
    k.outline.Resumes := by
  apply reachable.invariant_above
  · exact ⟨fun _ => Or.inl rfl, fun _ _ => nofun, fun _ _ => nofun, nofun, nofun⟩
  · intro before label next reached inv stepped
    exact inv.step (reachable_placed reached) (outlineStep stepped)

theorem reachable_trapInv (reachable : (machine policy ncpu).Reachable k) :
    k.TrapInv := by
  have inv := reachable_resumes reachable
  exact ⟨fun p => ⟨inv.places p, inv.suspended p, inv.user p, inv.embryo p⟩, inv.exiting⟩

/-! ### A CPU that stays with its process -/

/-- How the interrupt handling of a CPU moves on while its process keeps the CPU. -/
inductive TrapMove (policy : Policy) (k : Kernel ncpu) (c : Fin ncpu) (p : Slot) :
    Label ncpu → Trap → Prop
  | tick (quiet : (k.cpu c).trap = .none) :
      TrapMove policy k c p (.timerTick c) .ticked
  | charge (stage : (k.cpu c).trap = .ticked) :
      TrapMove policy k c p (.timerCharge c) .charged
  | wakeup (stage : (k.cpu c).trap = .charged) :
      TrapMove policy k c p (.timerWakeup c) (.tail true)
  | other (quiet : (k.cpu c).trap = .none) :
      TrapMove policy k c p (.timerOther c) (.tail true)
  | device (quiet : (k.cpu c).trap = .none) :
      TrapMove policy k c p (.deviceIntr c) .device
  | deviceWakeup (address : Nat) (stage : (k.cpu c).trap = .device) :
      TrapMove policy k c p (.deviceWakeup c address) .device
  | deviceDone (stage : (k.cpu c).trap = .device) :
      TrapMove policy k c p (.deviceDone c) (.tail false)
  | fault (quiet : (k.cpu c).trap = .none) :
      TrapMove policy k c p (.fault c) (.tail false)
  | tail (timer : Bool) (stage : (k.cpu c).trap = .tail timer)
      (alive : k.mustExit p = false) :
      TrapMove policy k c p (.trapTail c)
        (if k.wantsYield policy p timer then .yielding else .recheck)
  | back (stage : (k.cpu c).trap = .recheck)
      (alive : policy = .fcfs ∨ k.mustExit p = false) :
      TrapMove policy k c p (.trapReturn c) .none
  | exit (killed : k.mustExit p = true)
      (stage : (∃ timer, (k.cpu c).trap = .tail timer) ∨ (k.cpu c).trap = .recheck) :
      TrapMove policy k c p (.trapExit c) .exiting
  | call (label : Label ncpu) (kind : label.isCall = true)
      (stage : (k.cpu c).trap = .none ∨
        ((k.cpu c).trap = .exiting ∧ label.kind = .wake)) :
      TrapMove policy k c p label (k.cpu c).trap

/-- How it moves on while the CPU runs no process. -/
inductive IdleMove (k : Kernel ncpu) (c : Fin ncpu) : Label ncpu → Trap → Prop
  | tick (on : k.interruptible c = true) : IdleMove k c (.timerTick c) .ticked
  | charge (stage : (k.cpu c).trap = .ticked) : IdleMove k c (.timerCharge c) .charged
  | wakeup (stage : (k.cpu c).trap = .charged) :
      IdleMove k c (.timerWakeup c) (.tail true)
  | other (on : k.interruptible c = true) : IdleMove k c (.timerOther c) (.tail true)
  | device (on : k.interruptible c = true) : IdleMove k c (.deviceIntr c) .device
  | deviceWakeup (address : Nat) (stage : (k.cpu c).trap = .device) :
      IdleMove k c (.deviceWakeup c address) .device
  | deviceDone (stage : (k.cpu c).trap = .device) :
      IdleMove k c (.deviceDone c) (.tail false)
  | tail (timer : Bool) (stage : (k.cpu c).trap = .tail timer) :
      IdleMove k c (.trapTail c) .none

theorem TrapMove.keeps {trap : Trap} (moved : TrapMove policy k c p label trap) :
    label.kind ≠ .pass ∧ label.kind ≠ .yield := by
  cases moved with
  | call label kind stage => cases label <;> simp [Label.isCall, Label.kind] at kind ⊢
  | _ => simp [Label.kind]

theorem interruptible_quiet (on : k.interruptible c = true) : (k.cpu c).trap = .none := by
  simp only [interruptible, Bool.and_eq_true, decide_eq_true_eq] at on
  exact on.1

theorem inSyscall_quiet (mode : k.inSyscall c p = true) : (k.cpu c).trap = .none := by
  simp only [inSyscall, Bool.and_eq_true, decide_eq_true_eq] at mode
  exact mode.1

theorem maySleep_stage (mode : k.maySleep c p = true) :
    (k.cpu c).trap = .none ∨ (k.cpu c).trap = .exiting := by
  simp only [maySleep, Bool.or_eq_true, Bool.and_eq_true, decide_eq_true_eq] at mode
  rcases mode with (call | exiting) | ⟨⟨quiet, _⟩, _⟩
  · exact Or.inl (inSyscall_quiet call)
  · exact Or.inr exiting
  · exact Or.inl quiet

/-- The state in which a process gives up its CPU. -/
def LeavesAs : LabelKind → ProcState → Prop
  | .yield, state => state = .runnable
  | .sleep, state => state = .sleeping
  | .wait, state => state = .sleeping
  | .exit, state => state = .zombie
  | _, _ => False

/-- What the CPU of the label does in a step. -/
inductive CpuStep (policy : Policy) (k : Kernel ncpu) (label : Label ncpu)
    (next : Kernel ncpu) : Prop
  | stays (p : Slot) (before : (k.cpu label.cpu).pc = .running p)
      (after : (next.cpu label.cpu).pc = .running p)
      (moved : TrapMove policy k label.cpu p label (next.cpu label.cpu).trap)
  | leaves (p : Slot) (before : (k.cpu label.cpu).pc = .running p)
      (after : next.cpu label.cpu = ⟨.pass (some p), .none⟩)
      (stage : (k.cpu label.cpu).trap = .none ∨ (k.cpu label.cpu).trap = .exiting ∨
        (k.cpu label.cpu).trap = .yielding)
      (state : LeavesAs label.kind (next.proc p).state)
  | starts (p : Slot) (back : Option Slot) (labelled : label = .pass label.cpu)
      (before : (k.cpu label.cpu).pc = .pass back)
      (after : (next.cpu label.cpu).pc = .running p)
      (resumed : (next.cpu label.cpu).trap = (k.proc p).resume)
      (ready : (k.proc p).state = .runnable)
  | idle (before : ∀ p, (k.cpu label.cpu).pc ≠ .running p)
      (after : (next.cpu label.cpu).pc = (k.cpu label.cpu).pc)
      (moved : IdleMove k label.cpu label (next.cpu label.cpu).trap)
  | enters (before : k.cpu label.cpu = ⟨.loopTop, .none⟩)
      (after : next.cpu label.cpu = ⟨.pass none, .none⟩)
  | ends (back : Option Slot) (labelled : label = .pass label.cpu)
      (before : (k.cpu label.cpu).pc = .pass back)
      (after : next.cpu label.cpu = ⟨.loopTop, .none⟩)
  | boots (np : Option Slot) (before : (k.cpu label.cpu).pc = .boot np)
      (after : (∃ new, next.cpu label.cpu = ⟨.boot new, .none⟩) ∨
        next.cpu label.cpu = ⟨.loopTop, .none⟩)

section Sorting

variable {policy : Policy} {k next : Kernel ncpu} {label : Label ncpu}

variable {c : Fin ncpu} {p : Slot}

theorem CpuStep.retrap {trap : Trap} (own : label.cpu = c) (place : (k.cpu c).pc = .running p)
    (cpu : next.cpu c = ((k.setTrap c trap).cpu c))
    (moved : TrapMove policy k c p label trap) : CpuStep policy k label next := by
  subst c
  refine .stays p place (by rw [cpu, setTrap_pc, place]) ?_
  rw [cpu, setTrap_cpu_self]
  exact moved

theorem CpuStep.interrupt {trap : Trap} (own : label.cpu = c)
    (cpu : next.cpu c = ((k.setTrap c trap).cpu c))
    (moved : ∀ p, (k.cpu c).pc = .running p → TrapMove policy k c p label trap)
    (idleMoved : IdleMove k c label trap) : CpuStep policy k label next := by
  by_cases idle : ∀ p, (k.cpu c).pc ≠ .running p
  · subst c
    refine .idle idle (by rw [cpu, setTrap_pc]) ?_
    rw [cpu, setTrap_cpu_self]
    exact idleMoved
  · obtain ⟨p, place⟩ := not_forall_not.mp idle
    exact .retrap own place cpu (moved p place)

theorem CpuStep.call (own : label.cpu = c) (place : (k.cpu c).pc = .running p)
    (cpu : next.cpu c = k.cpu c) (kind : label.isCall = true)
    (stage : (k.cpu c).trap = .none ∨ ((k.cpu c).trap = .exiting ∧ label.kind = .wake)) :
    CpuStep policy k label next := by
  subst c
  refine .stays p place (by rw [cpu, place]) ?_
  rw [cpu]
  exact .call label kind stage

theorem CpuStep.sched {middle : Kernel ncpu} (own : label.cpu = c)
    (place : (k.cpu c).pc = .running p) (cpu : next.cpu c = (middle.sched c p).cpu c)
    (stage : (k.cpu c).trap = .none ∨ (k.cpu c).trap = .exiting ∨
      (k.cpu c).trap = .yielding) (state : LeavesAs label.kind (next.proc p).state) :
    CpuStep policy k label next := by
  subst c
  refine .leaves p place ?_ stage state
  simp only [cpu, Kernel.sched, update_self]

theorem sleep_state (k : Kernel ncpu) (c : Fin ncpu) (p : Slot) (chan : Chan) :
    ((k.sleep c p chan).proc p).state = .sleeping := by
  simp only [Kernel.sleep, Kernel.sched, modify_proc_self]

/-- The loop of `wait` reaps, fails or goes to sleep. -/
theorem CpuStep.waitLoop (own : label.cpu = c) (place : (k.cpu c).pc = .running p)
    (mode : k.inSyscall c p = true) (result : next = (k.waitLoop c p).2.2)
    (kind : label.kind = .wait) (isCall : label.isCall = true) :
    CpuStep policy k label next := by
  have quiet := inSyscall_quiet mode
  unfold Kernel.waitLoop at result
  split at result
  · exact .call own place (by rw [result]; rfl) isCall (Or.inl quiet)
  · split at result
    · exact .call own place (by rw [result]) isCall (Or.inl quiet)
    · refine .sched own place (congrArg (fun after => after.cpu c) result) (Or.inl quiet) ?_
      rw [kind, result]
      exact sleep_state k c p _

end Sorting

theorem cpuStep (stepped : k.step policy label = some next) :
    CpuStep policy k label next := by
  cases step_inversion stepped with
  | userinitAlloc c place _ =>
    refine .boots none place (Or.inl ⟨(k.allocproc policy).1, ?_⟩)
    simp only [Label.cpu, userinitAlloc, update_self]
  | userinitReady c np place _ =>
    refine .boots (some np) place (Or.inr ?_)
    simp only [Label.cpu, setCpu_cpu_self]
  | enter c place quiet _ =>
    refine .enters ?_ ?_
    · simp only [Label.cpu, ← place, ← quiet]
    · simp only [Label.cpu, setCpu_cpu_self]
  | pass c back place =>
    cases schedulerPass_outcome policy k c back with
    | dispatched middle p files ready result =>
      refine .starts p back rfl place ?_ ?_ ready
      · simp only [Label.cpu, result, dispatch, update_self]
      · simp only [Label.cpu, result, dispatch, update_self, (files.proc p).resume]
    | ended middle files result =>
      refine .ends back rfl place ?_
      simp only [Label.cpu, result, release, update_self]
  | timerTick c first on =>
    exact .interrupt rfl rfl (fun _ _ => .tick (interruptible_quiet on)) (.tick on)
  | timerCharge c stage free =>
    refine .interrupt rfl ?_ (fun _ _ => .charge stage) (.charge stage)
    simp only [Label.cpu, setTrap_cpu_self, (modifyTimes_accounts policy k).cpu]
  | timerWakeup c stage free =>
    exact .interrupt rfl rfl (fun _ _ => .wakeup stage) (.wakeup stage)
  | timerOther c _ on =>
    exact .interrupt rfl rfl (fun _ _ => .other (interruptible_quiet on)) (.other on)
  | deviceIntr c on =>
    exact .interrupt rfl rfl (fun _ _ => .device (interruptible_quiet on)) (.device on)
  | deviceWakeup c address stage free =>
    refine .interrupt rfl ?_ (fun _ _ => .deviceWakeup address stage)
      (.deviceWakeup address stage)
    rw [setTrap_cpu_self, ← stage]
    rfl
  | deviceDone c stage =>
    exact .interrupt rfl rfl (fun _ _ => .deviceDone stage) (.deviceDone stage)
  | fault c q place quiet mode => exact .retrap rfl place rfl (.fault quiet)
  | trapTail c q timer place stage alive free =>
    exact .retrap rfl place rfl (.tail timer stage alive)
  | trapTailIdle c timer stage idle =>
    exact .interrupt rfl rfl (fun p there => absurd there (idle p)) (.tail timer stage)
  | yield c q place stage free =>
    have filed := yield_files policy k c q
    refine .sched rfl place (congrFun filed.cpu c) (Or.inr (Or.inr stage)) ?_
    change ((k.yield policy c q).proc q).state = .runnable
    rw [(filed.proc q).state]
    simp only [Kernel.sched, modify_proc_self]
  | trapReturn c q place stage alive => exact .retrap rfl place rfl (.back stage alive)
  | trapExit c q place killed ordinary stage => exact .retrap rfl place rfl (.exit killed stage)
  | syscallEnter c q place quiet | forkretReturn c q place quiet | forkFail c q np place quiet
  | forkCopy c q np place quiet | forkReady c q np place quiet =>
    exact .call rfl place rfl rfl (Or.inl quiet)
  | syscallReturn c q place mode alive =>
    exact .call rfl place rfl rfl (Or.inl (inSyscall_quiet mode))
  | sleep c q chan place mode object free =>
    refine .sched rfl place rfl ?_ (sleep_state k c q chan)
    rcases maySleep_stage mode with quiet | exiting
    · exact Or.inl quiet
    · exact Or.inr (Or.inl exiting)
  | wakeup c q chan place mode object free =>
    exact .call rfl place rfl rfl ((maySleep_stage mode).imp_right (fun stage => ⟨stage, rfl⟩))
  | kill c q pid place mode free =>
    exact .call rfl place (congrFun (kill_wakes k pid).cpu c) rfl
      (Or.inl (inSyscall_quiet mode))
  | setPriority c q pid priority place mode free =>
    exact .call rfl place (congrArg (Outline.cpu · c) (setPriority_outline k pid priority)) rfl
      (Or.inl (inSyscall_quiet mode))
  | allocproc c q place mode free =>
    exact .call rfl place (congrFun (forkAlloc_cpu policy k q) c) rfl
      (Or.inl (inSyscall_quiet mode))
  | exit c q place mode ordinary free =>
    obtain ⟨woken, _, result⟩ := exit_eq k c q
    refine .sched rfl place (congrArg (fun after => after.cpu c) result) ?_ ?_
    · rcases mode with call | exiting
      · exact Or.inl (inSyscall_quiet call)
      · exact Or.inr (Or.inl exiting)
    · change ((k.exit c q).proc q).state = .zombie
      rw [result]
      simp only [Kernel.sched, modify_proc_self]
  | wait c q place mode free => exact .waitLoop rfl place mode rfl rfl rfl
  | waitx c q place mode free => exact .waitLoop rfl place mode rfl rfl rfl

theorem trapMove (stepped : k.step policy label = some next)
    (before : (k.cpu label.cpu).pc = .running p) (after : (next.cpu label.cpu).pc = .running p)
    :
    TrapMove policy k label.cpu p label (next.cpu label.cpu).trap := by
  cases cpuStep stepped with
  | stays q place still moved =>
    rw [before] at place
    cases place
    exact moved
  | leaves q place left _ _ =>
    rw [left] at after
    cases after
  | idle idleBefore _ _ => exact absurd before (idleBefore p)
  | starts q back labelled place | ends back _ place | boots np place =>
    rw [before] at place
    cases place
  | enters place _ =>
    rw [place] at before
    cases before

/-- A CPU begins to run a process only in a pass. -/
theorem running_origin (stepped : k.step policy label = some next)
    (after : (next.cpu c).pc = .running p) :
    (k.cpu c).pc = .running p ∨
      (label = .pass c ∧ (k.proc p).state = .runnable ∧
        (next.cpu c).trap = (k.proc p).resume ∧
        ∃ back, (k.cpu c).pc = .pass back) := by
  by_cases own : c = label.cpu
  · subst c
    cases cpuStep stepped with
    | stays q before still moved =>
      rw [after] at still
      cases still
      exact Or.inl before
    | leaves q before left _ _ =>
      rw [left] at after
      cases after
    | starts q back labelled before running resumed ready =>
      rw [after] at running
      cases running
      exact Or.inr ⟨labelled, ready, resumed, back, before⟩
    | idle idleBefore same _ => exact Or.inl (same ▸ after)
    | enters _ place =>
      rw [place] at after
      cases after
    | ends back _ _ place =>
      rw [place] at after
      cases after
    | boots np _ place =>
      rcases place with ⟨_, place⟩ | place
      · rw [place] at after
        cases after
      · rw [place] at after
        cases after
  · rw [step_cpu_other stepped own] at after
    exact Or.inl after

theorem running_end (stepped : k.step policy label = some next)
    (before : (k.cpu c).pc = .running p) (after : (next.cpu c).pc ≠ .running p) :
    label.cpu = c ∧ (next.cpu c).pc = .pass (some p) ∧
      LeavesAs label.kind (next.proc p).state := by
  by_cases own : c = label.cpu
  · subst c
    cases cpuStep stepped with
    | stays q place still moved =>
      rw [before] at place
      cases place
      exact absurd still after
    | leaves q place left _ state =>
      rw [before] at place
      cases place
      exact ⟨rfl, by rw [left], state⟩
    | idle idleBefore _ _ => exact absurd before (idleBefore p)
    | starts q back labelled place | ends back _ place | boots np place =>
      rw [before] at place
      cases place
    | enters place _ =>
      rw [place] at before
      cases before
  · rw [step_cpu_other stepped own] at after
    exact absurd before after

/-- A CPU about to yield was about to yield before the step, or has just decided it. -/
theorem yielding_origin (traps : k.TrapInv) (stepped : k.step policy label = some next)
    (place : (next.cpu c).pc = .running p) (stage : (next.cpu c).trap = .yielding) :
    (k.cpu c).pc = .running p ∧
      (((k.cpu c).trap = .yielding ∧ label ≠ .yield c) ∨
        ∃ timer, label = .trapTail c ∧ k.wantsYield policy p timer = true) := by
  rcases running_origin stepped place with before | ⟨_, _, resumed, _⟩
  · refine ⟨before, ?_⟩
    by_cases own : c = label.cpu
    · have moved := trapMove stepped (p := p) (own ▸ before) (own ▸ place)
      rw [← own, stage] at moved
      generalize toward : Trap.yielding = trap at moved
      cases moved with
      | tail timer staged alive =>
        split at toward
        · rename_i wants
          exact Or.inr ⟨timer, rfl, wants⟩
        · cases toward
      | call label kind quiet =>
        refine Or.inl ⟨rfl, ?_⟩
        intro same
        rw [same] at kind
        cases kind
      | _ => cases toward
    · rw [step_cpu_other stepped own] at stage
      refine Or.inl ⟨stage, ?_⟩
      intro same
      subst label
      exact own rfl
  · rw [stage] at resumed
    rcases (traps.records p).places with place | place | place <;> simp [place] at resumed

end Kernel

end Xv6
