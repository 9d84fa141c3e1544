/-
The steps of the kernel as the process table sees them.

Most labels differ only in what a CPU does next.  Grouped by their effect on states,
identifiers, times, priorities, levels and rings they fall into a dozen kinds, and
an invariant about those needs one argument for each kind.
-/

import Xv6.Process.Invariant

namespace Xv6

/-- The part of a process record that scheduling decisions and accounting read. -/
structure Proc.SameRecord (p q : Proc) : Prop where
  state : q.state = p.state
  pid : q.pid = p.pid
  startTime : q.startTime = p.startTime
  endTime : q.endTime = p.endTime
  runTime : q.runTime = p.runTime
  waitTime : q.waitTime = p.waitTime
  priority : q.priority = p.priority
  curTime : q.curTime = p.curTime
  queueNo : q.queueNo = p.queueNo

theorem Proc.SameRecord.refl (p : Proc) : p.SameRecord p :=
  ⟨rfl, rfl, rfl, rfl, rfl, rfl, rfl, rfl, rfl⟩

namespace Kernel

variable {ncpu : Nat}

structure SameTable (k next : Kernel ncpu) : Prop where
  proc : ∀ slot, (k.proc slot).SameRecord (next.proc slot)
  rings : next.rings = k.rings
  faults : next.faults = k.faults
  ticks : next.ticks = k.ticks
  nextpid : next.nextpid = k.nextpid

variable {k next : Kernel ncpu} {policy : Policy} {label : Label ncpu} {c d : Fin ncpu}

theorem SameTable.of_proc_eq (proc : next.proc = k.proc) (rings : next.rings = k.rings)
    (faults : next.faults = k.faults) (ticks : next.ticks = k.ticks)
    (nextpid : next.nextpid = k.nextpid) :
    k.SameTable next :=
  ⟨fun slot => by rw [proc]; exact Proc.SameRecord.refl _, rings, faults, ticks, nextpid⟩

theorem SameTable.refl (k : Kernel ncpu) : k.SameTable k :=
  .of_proc_eq rfl rfl rfl rfl rfl

theorem SameTable.setTrap (k : Kernel ncpu) (c : Fin ncpu) (trap : Trap) :
    k.SameTable (k.setTrap c trap) :=
  .of_proc_eq rfl rfl rfl rfl rfl

theorem SameTable.modify (k : Kernel ncpu) (slot : Slot) (change : Proc → Proc)
    (same : (k.proc slot).SameRecord (change (k.proc slot))) :
    k.SameTable (k.modify slot change) := by
  refine ⟨?_, rfl, rfl, rfl, rfl⟩
  intro other
  by_cases here : other = slot
  · subst other
    rwa [modify_proc_self]
  · rw [modify_proc_of_ne _ _ _ here]
    exact Proc.SameRecord.refl _

theorem SameTable.setControl (k : Kernel ncpu) (slot : Slot) (control : Control) :
    k.SameTable (k.setControl slot control) :=
  SameTable.modify k slot _ ⟨rfl, rfl, rfl, rfl, rfl, rfl, rfl, rfl, rfl⟩

inductive TableStep (policy : Policy) (k : Kernel ncpu) (label : Label ncpu)
    (next : Kernel ncpu) : Prop
  | silent (kind : label.kind = .silent ∨ label.kind = .wait) (same : k.SameTable next)
  | wake (kind : label.kind = .wake) (woken : Kernel ncpu) (wakes : k.Wakes woken)
      (same : woken.SameTable next)
  | priority (c : Fin ncpu) (p : Slot) (pid priority : Int)
      (labelled : label = .setPriority c pid priority)
      (place : (k.cpu c).pc = .running p)
      (result : next = (k.setPriority pid priority).2)
  | full (kind : label.kind = .claim) (none : k.firstUnused = none)
      (same : k.SameTable next)
  | claim (kind : label.kind = .claim) (slot : Slot)
      (found : k.firstUnused = some slot)
      (same : (k.allocproc policy).2.SameTable next)
  | forkFail (kind : label.kind = .forkFail) (np : Slot)
      (embryo : (k.proc np).state = .embryo)
      (same : (k.setState np .unused).SameTable next)
  | ready (kind : label.kind = .ready) (np : Slot)
      (embryo : (k.proc np).state = .embryo)
      (same : (k.setState np .runnable).SameTable next)
  | exit (c : Fin ncpu) (p : Slot) (labelled : label = .exit c)
      (place : (k.cpu c).pc = .running p) (running : (k.proc p).state = .running)
      (woken : Kernel ncpu) (wakes : k.Wakes woken)
      (same : (woken.modify p (fun q =>
        { q with endTime := int32 k.ticks, state := .zombie })).SameTable next)
  | reap (kind : label.kind = .wait) (child : Slot)
      (zombie : (k.proc child).state = .zombie)
      (same : (k.modify child reapProc).SameTable next)
  | sleep (kind : label.kind = .sleep ∨ label.kind = .wait) (c : Fin ncpu) (p : Slot)
      (place : (k.cpu c).pc = .running p) (running : (k.proc p).state = .running)
      (same : (k.setState p .sleeping).SameTable next)
  | yield (c : Fin ncpu) (p : Slot) (labelled : label = .yield c)
      (place : (k.cpu c).pc = .running p) (running : (k.proc p).state = .running)
      (stage : (k.cpu c).trap = .yielding) (result : next = k.yield policy c p)
  | tick (c : Fin ncpu) (labelled : label = .timerTick c)
      (same : SameTable { k with ticks := k.ticks + 1 } next)
  | charge (c : Fin ncpu) (labelled : label = .timerCharge c)
      (same : (k.modifyTimes policy).SameTable next)
  | pass (c : Fin ncpu) (back : Option Slot) (labelled : label = .pass c)
      (place : (k.cpu c).pc = .pass back)
      (result : next = k.schedulerPass policy c back)

theorem sleep_sameTable (k : Kernel ncpu) (c : Fin ncpu) (p : Slot) (chan : Chan) :
    (k.setState p .sleeping).SameTable (k.sleep c p chan) := by
  refine ⟨?_, rfl, rfl, rfl, rfl⟩
  intro slot
  simp only [sleep, sched, setState, modify_proc]
  split
  · exact ⟨rfl, rfl, rfl, rfl, rfl, rfl, rfl, rfl, rfl⟩
  · exact Proc.SameRecord.refl _

theorem claim_tableStep (kind : label.kind = .claim)
    (same : (k.allocproc policy).2.SameTable next) :
    TableStep policy k label next := by
  rcases allocproc_cases policy k with ⟨none, result⟩ | ⟨slot, after, found, result, _⟩
  · rw [result] at same
    exact .full kind none same
  · exact .claim kind slot found same

theorem waitLoop_tableStep (inv : k.KernelInv) (kind : label.kind = .wait) {p : Slot}
    (place : (k.cpu c).pc = .running p) :
    TableStep policy k label (k.waitLoop c p).2.2 := by
  unfold waitLoop
  split
  · rename_i child found
    have matching := List.find?_some found
    simp only [Bool.and_eq_true, decide_eq_true_eq] at matching
    exact .reap kind child matching.2 (SameTable.refl _)
  · split
    · exact .silent (Or.inr kind) (SameTable.refl k)
    · exact .sleep (Or.inr kind) c p place (inv.onCpu c p place) (sleep_sameTable k c p _)

/-- The inversion of a step at the level of the table. -/
theorem tableStep (inv : k.KernelInv) (stepped : k.step policy label = some next) :
    TableStep policy k label next := by
  cases step_inversion stepped with
  | userinitAlloc c place free =>
    exact claim_tableStep rfl (.of_proc_eq rfl rfl rfl rfl rfl)
  | userinitReady c np place free =>
    exact .ready rfl np (inv.booting c np place).1 (.of_proc_eq rfl rfl rfl rfl rfl)
  | enter c place quiet free => exact .silent (Or.inl rfl) (.of_proc_eq rfl rfl rfl rfl rfl)
  | pass c back place => exact .pass c back rfl place rfl
  | timerTick c first on => exact .tick c rfl (.of_proc_eq rfl rfl rfl rfl rfl)
  | timerCharge c stage free => exact .charge c rfl (.setTrap _ c _)
  | timerWakeup c stage free =>
    exact .wake rfl _ (wakeup1_wakes k .ticks) (.setTrap _ c _)
  | deviceWakeup c address stage free =>
    exact .wake rfl _ (wakeup1_wakes k _) (SameTable.refl _)
  | fault c p place quiet mode =>
    have killed := SameTable.modify k p (fun q => { q with killed := true })
      ⟨rfl, rfl, rfl, rfl, rfl, rfl, rfl, rfl, rfl⟩
    exact .silent (Or.inl rfl) ⟨killed.proc, rfl, rfl, rfl, rfl⟩
  | yield c p place stage free => exact .yield c p rfl place (inv.onCpu c p place) stage rfl
  | timerOther c | deviceIntr c | deviceDone c | trapTail c | trapTailIdle c | trapReturn c
  | trapExit c => exact .silent (Or.inl rfl) (.setTrap _ c _)
  | syscallEnter c p | syscallReturn c p | forkretReturn c p =>
    exact .silent (Or.inl rfl) (.setControl k p _)
  | sleep c p chan place mode object free =>
    exact .sleep (Or.inl rfl) c p place (inv.onCpu c p place) (sleep_sameTable k c p chan)
  | wakeup c p chan place mode object free =>
    exact .wake rfl _ (wakeup1_wakes k chan) (SameTable.refl _)
  | kill c p pid place mode free =>
    exact .wake rfl _ (kill_wakes k pid) (SameTable.refl _)
  | setPriority c p pid priority place mode free => exact .priority c p pid priority rfl place rfl
  | allocproc c p place mode free =>
    refine claim_tableStep rfl ?_
    unfold forkAlloc
    simp only
    split
    · exact .setControl _ p _
    · exact SameTable.refl _
  | forkFail c p np place quiet mode =>
    exact .forkFail rfl np (inv.embryo p np false mode) (.setControl _ p _)
  | forkCopy c p np place quiet mode =>
    have parented := SameTable.modify k np (fun q => { q with parent := some p })
      ⟨rfl, rfl, rfl, rfl, rfl, rfl, rfl, rfl, rfl⟩
    have copied := SameTable.setControl
      (k.modify np (fun q => { q with parent := some p })) p (.forking np true)
    refine .silent (Or.inl rfl) ⟨?_, rfl, rfl, rfl, rfl⟩
    intro slot
    have first := parented.proc slot
    have second := copied.proc slot
    exact ⟨second.state.trans first.state, second.pid.trans first.pid,
      second.startTime.trans first.startTime, second.endTime.trans first.endTime,
      second.runTime.trans first.runTime, second.waitTime.trans first.waitTime,
      second.priority.trans first.priority, second.curTime.trans first.curTime,
      second.queueNo.trans first.queueNo⟩
  | forkReady c p np place quiet mode free =>
    exact .ready rfl np (inv.embryo p np true mode) (.setControl _ p _)
  | exit c p place mode ordinary free =>
    obtain ⟨woken, wakes, result⟩ := exit_eq k c p
    rw [result]
    exact .exit c p rfl place (inv.onCpu c p place) woken wakes
      (.of_proc_eq rfl rfl rfl rfl rfl)
  | wait c p place | waitx c p place => exact waitLoop_tableStep inv rfl place

theorem setPriority_keeps {Value : Type} (field : Proc → Value)
    (keeps : ∀ (q : Proc) (priority : Int), field { q with priority := priority } = field q)
    (k : Kernel ncpu) (pid priority : Int) (p : Slot) :
    field ((k.setPriority pid priority).2.proc p) = field (k.proc p) := by
  unfold setPriority
  split
  · rename_i slot _
    exact modify_keeps k slot (fun q => { q with priority := priority }) field
      (keeps _ priority) p
  · rfl

theorem forkAlloc_cpu (policy : Policy) (k : Kernel ncpu) (p : Slot) :
    (k.forkAlloc policy p).cpu = k.cpu := by
  unfold forkAlloc
  rcases allocproc_outline policy k with ⟨_, result⟩ | ⟨np, _, found, result⟩
  · rw [result]
  · simp only [found]
    exact congrArg Outline.cpu result

theorem step_cpu_other (stepped : k.step policy label = some next) (other : d ≠ label.cpu) :
    next.cpu d = k.cpu d :=
  (outlineStep stepped).cpu_other other

end Kernel

end Xv6
