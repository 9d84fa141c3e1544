/-
What each step of the kernel can do, stated once as a relation with one case for
each way a step can go.  Proofs about runs take their cases from here and never
unfold the step function.
-/

import Xv6.Process.Steps

namespace Xv6

namespace Kernel

variable {ncpu : Nat}

inductive Step (policy : Policy) (k : Kernel ncpu) : Label ncpu → Kernel ncpu → Prop
  | userinitAlloc (c : Fin ncpu) (place : (k.cpu c).pc = .boot none)
      (free : k.lock = none) :
      Step policy k (.userinitAlloc c) (k.userinitAlloc policy c)
  | userinitReady (c : Fin ncpu) (np : Slot) (place : (k.cpu c).pc = .boot (some np))
      (free : k.lock = none) :
      Step policy k (.userinitReady c)
        ((k.setState np .runnable).setCpu c { pc := .loopTop, trap := .none })
  | enter (c : Fin ncpu) (place : (k.cpu c).pc = .loopTop)
      (quiet : (k.cpu c).trap = .none) (free : k.lock = none) :
      Step policy k (.enter c)
        { k.setCpu c { pc := .pass none, trap := .none } with lock := some c }
  | pass (c : Fin ncpu) (back : Option Slot) (place : (k.cpu c).pc = .pass back) :
      Step policy k (.pass c) (k.schedulerPass policy c back)
  | timerTick (c : Fin ncpu) (first : c.val = 0) (on : k.interruptible c = true) :
      Step policy k (.timerTick c)
        { k.setTrap c .ticked with ticks := k.ticks + 1 }
  | timerCharge (c : Fin ncpu) (stage : (k.cpu c).trap = .ticked)
      (free : k.lock = none) :
      Step policy k (.timerCharge c) ((k.modifyTimes policy).setTrap c .charged)
  | timerWakeup (c : Fin ncpu) (stage : (k.cpu c).trap = .charged)
      (free : k.lock = none) :
      Step policy k (.timerWakeup c) ((k.wakeup1 .ticks).setTrap c (.tail true))
  | timerOther (c : Fin ncpu) (other : c.val ≠ 0) (on : k.interruptible c = true) :
      Step policy k (.timerOther c) (k.setTrap c (.tail true))
  | deviceIntr (c : Fin ncpu) (on : k.interruptible c = true) :
      Step policy k (.deviceIntr c) (k.setTrap c .device)
  | deviceWakeup (c : Fin ncpu) (address : Nat) (stage : (k.cpu c).trap = .device)
      (free : k.lock = none) :
      Step policy k (.deviceWakeup c address) (k.wakeup1 (.object address))
  | deviceDone (c : Fin ncpu) (stage : (k.cpu c).trap = .device) :
      Step policy k (.deviceDone c) (k.setTrap c (.tail false))
  | fault (c : Fin ncpu) (p : Slot) (place : (k.cpu c).pc = .running p)
      (quiet : (k.cpu c).trap = .none) (mode : (k.proc p).control = .user) :
      Step policy k (.fault c)
        ((k.modify p (fun q => { q with killed := true })).setTrap c (.tail false))
  | trapTail (c : Fin ncpu) (p : Slot) (timer : Bool)
      (place : (k.cpu c).pc = .running p) (stage : (k.cpu c).trap = .tail timer)
      (alive : k.mustExit p = false) (free : policy = .pbs → k.lock = none) :
      Step policy k (.trapTail c)
        (k.setTrap c (if k.wantsYield policy p timer then .yielding else .recheck))
  | trapTailIdle (c : Fin ncpu) (timer : Bool) (stage : (k.cpu c).trap = .tail timer)
      (place : ∀ p, (k.cpu c).pc ≠ .running p) :
      Step policy k (.trapTail c) (k.setTrap c .none)
  | yield (c : Fin ncpu) (p : Slot) (place : (k.cpu c).pc = .running p)
      (stage : (k.cpu c).trap = .yielding) (free : k.lock = none) :
      Step policy k (.yield c) (k.yield policy c p)
  | trapReturn (c : Fin ncpu) (p : Slot) (place : (k.cpu c).pc = .running p)
      (stage : (k.cpu c).trap = .recheck)
      (alive : policy = .fcfs ∨ k.mustExit p = false) :
      Step policy k (.trapReturn c) (k.setTrap c .none)
  | trapExit (c : Fin ncpu) (p : Slot) (place : (k.cpu c).pc = .running p)
      (killed : k.mustExit p = true) (ordinary : k.initproc ≠ some p)
      (stage : (∃ timer, (k.cpu c).trap = .tail timer) ∨ (k.cpu c).trap = .recheck) :
      Step policy k (.trapExit c) (k.setTrap c .exiting)
  | syscallEnter (c : Fin ncpu) (p : Slot) (place : (k.cpu c).pc = .running p)
      (quiet : (k.cpu c).trap = .none) (mode : (k.proc p).control = .user) :
      Step policy k (.syscallEnter c) (k.setControl p .syscall)
  | syscallReturn (c : Fin ncpu) (p : Slot) (place : (k.cpu c).pc = .running p)
      (mode : k.inSyscall c p = true) (alive : (k.proc p).killed = false) :
      Step policy k (.syscallReturn c) (k.setControl p .user)
  | forkretReturn (c : Fin ncpu) (p : Slot) (place : (k.cpu c).pc = .running p)
      (quiet : (k.cpu c).trap = .none) (mode : (k.proc p).control = .forkret) :
      Step policy k (.forkretReturn c) (k.setControl p .user)
  | sleep (c : Fin ncpu) (p : Slot) (chan : Chan) (place : (k.cpu c).pc = .running p)
      (mode : k.maySleep c p = true) (object : chan.isObject = true)
      (free : k.lock = none) :
      Step policy k (.sleep c chan) (k.sleep c p chan)
  | wakeup (c : Fin ncpu) (p : Slot) (chan : Chan) (place : (k.cpu c).pc = .running p)
      (mode : k.maySleep c p = true) (object : chan.isObject = true)
      (free : k.lock = none) :
      Step policy k (.wakeup c chan) (k.wakeup1 chan)
  | kill (c : Fin ncpu) (p : Slot) (pid : Int) (place : (k.cpu c).pc = .running p)
      (mode : k.inSyscall c p = true) (free : k.lock = none) :
      Step policy k (.kill c pid) (k.kill pid).2
  | setPriority (c : Fin ncpu) (p : Slot) (pid priority : Int)
      (place : (k.cpu c).pc = .running p)
      (mode : k.inSyscall c p = true) (free : k.lock = none) :
      Step policy k (.setPriority c pid priority) (k.setPriority pid priority).2
  | allocproc (c : Fin ncpu) (p : Slot) (place : (k.cpu c).pc = .running p)
      (mode : k.inSyscall c p = true) (free : k.lock = none) :
      Step policy k (.allocproc c) (k.forkAlloc policy p)
  | forkFail (c : Fin ncpu) (p np : Slot) (place : (k.cpu c).pc = .running p)
      (quiet : (k.cpu c).trap = .none)
      (mode : (k.proc p).control = .forking np false) :
      Step policy k (.forkFail c) ((k.setState np .unused).setControl p .syscall)
  | forkCopy (c : Fin ncpu) (p np : Slot) (place : (k.cpu c).pc = .running p)
      (quiet : (k.cpu c).trap = .none)
      (mode : (k.proc p).control = .forking np false) :
      Step policy k (.forkCopy c)
        ((k.modify np (fun q => { q with parent := some p })).setControl p
          (.forking np true))
  | forkReady (c : Fin ncpu) (p np : Slot) (place : (k.cpu c).pc = .running p)
      (quiet : (k.cpu c).trap = .none)
      (mode : (k.proc p).control = .forking np true) (free : k.lock = none) :
      Step policy k (.forkReady c) ((k.setState np .runnable).setControl p .syscall)
  | exit (c : Fin ncpu) (p : Slot) (place : (k.cpu c).pc = .running p)
      (mode : k.inSyscall c p = true ∨ (k.cpu c).trap = .exiting)
      (ordinary : k.initproc ≠ some p) (free : k.lock = none) :
      Step policy k (.exit c) (k.exit c p)
  | wait (c : Fin ncpu) (p : Slot) (place : (k.cpu c).pc = .running p)
      (mode : k.inSyscall c p = true) (free : k.lock = none) :
      Step policy k (.wait c) (k.waitLoop c p).2.2
  | waitx (c : Fin ncpu) (p : Slot) (place : (k.cpu c).pc = .running p)
      (mode : k.inSyscall c p = true) (free : k.lock = none) :
      Step policy k (.waitx c) (k.waitLoop c p).2.2

theorem step_inversion {policy : Policy} {k next : Kernel ncpu} {label : Label ncpu}
    (stepped : k.step policy label = some next) : Step policy k label next := by
  -- The guards of all steps are turned into propositions first.
  cases label <;> simp only [step, stepIf_eq_some, stepProc_eq_some, Bool.and_eq_true,
    Bool.or_eq_true, Bool.not_eq_true', decide_eq_true_eq] at stepped
  case userinitAlloc c =>
    obtain ⟨⟨place, free⟩, rfl⟩ := stepped
    exact .userinitAlloc c place free
  case userinitReady c =>
    split at stepped
    · rename_i np place
      simp only [stepIf_eq_some, decide_eq_true_eq] at stepped
      obtain ⟨free, rfl⟩ := stepped
      exact .userinitReady c np place free
    · cases stepped
  case enter c =>
    obtain ⟨⟨⟨place, quiet⟩, free⟩, rfl⟩ := stepped
    exact .enter c place quiet free
  case pass c =>
    split at stepped
    · rename_i back place
      cases stepped
      exact .pass c back place
    · cases stepped
  case timerTick c =>
    obtain ⟨⟨first, on⟩, rfl⟩ := stepped
    exact .timerTick c first on
  case timerCharge c =>
    obtain ⟨⟨stage, free⟩, rfl⟩ := stepped
    exact .timerCharge c stage free
  case timerWakeup c =>
    obtain ⟨⟨stage, free⟩, rfl⟩ := stepped
    exact .timerWakeup c stage free
  case timerOther c =>
    obtain ⟨⟨other, on⟩, rfl⟩ := stepped
    exact .timerOther c other on
  case deviceIntr c =>
    obtain ⟨on, rfl⟩ := stepped
    exact .deviceIntr c on
  case deviceWakeup c address =>
    obtain ⟨⟨stage, free⟩, rfl⟩ := stepped
    exact .deviceWakeup c address stage free
  case deviceDone c =>
    obtain ⟨stage, rfl⟩ := stepped
    exact .deviceDone c stage
  case fault c =>
    obtain ⟨p, place, ⟨quiet, mode⟩, rfl⟩ := stepped
    exact .fault c p place quiet mode
  case trapTail c =>
    split at stepped
    · rename_i timer stage
      unfold trapTail at stepped
      split at stepped
      · rename_i p place
        simp only [stepIf_eq_some, Bool.and_eq_true, Bool.or_eq_true,
          Bool.not_eq_true', decide_eq_true_eq] at stepped
        obtain ⟨⟨alive, free⟩, rfl⟩ := stepped
        exact .trapTail c p timer place stage alive (fun same => free.resolve_left (· same))
      · rename_i idle
        cases stepped
        exact .trapTailIdle c timer stage idle
    · cases stepped
  case yield c =>
    obtain ⟨p, place, ⟨stage, free⟩, rfl⟩ := stepped
    exact .yield c p place stage free
  case trapReturn c =>
    obtain ⟨p, place, ⟨stage, alive⟩, rfl⟩ := stepped
    exact .trapReturn c p place stage alive
  case trapExit c =>
    obtain ⟨p, place, ⟨⟨killed, ordinary⟩, stage⟩, rfl⟩ := stepped
    refine .trapExit c p place killed ordinary ?_
    split at stage
    · rename_i timer tail
      exact Or.inl ⟨timer, tail⟩
    · rename_i recheck
      exact Or.inr recheck
    · cases stage
  case syscallEnter c =>
    obtain ⟨p, place, ⟨quiet, mode⟩, rfl⟩ := stepped
    exact .syscallEnter c p place quiet mode
  case syscallReturn c =>
    obtain ⟨p, place, ⟨mode, alive⟩, rfl⟩ := stepped
    exact .syscallReturn c p place mode alive
  case forkretReturn c =>
    obtain ⟨p, place, ⟨quiet, mode⟩, rfl⟩ := stepped
    exact .forkretReturn c p place quiet mode
  case sleep c chan =>
    obtain ⟨p, place, ⟨⟨mode, object⟩, free⟩, rfl⟩ := stepped
    exact .sleep c p chan place mode object free
  case wakeup c chan =>
    obtain ⟨p, place, ⟨⟨mode, object⟩, free⟩, rfl⟩ := stepped
    exact .wakeup c p chan place mode object free
  case kill c pid =>
    obtain ⟨p, place, ⟨mode, free⟩, rfl⟩ := stepped
    exact .kill c p pid place mode free
  case setPriority c pid priority =>
    obtain ⟨p, place, ⟨mode, free⟩, rfl⟩ := stepped
    exact .setPriority c p pid priority place mode free
  case allocproc c =>
    obtain ⟨p, place, ⟨mode, free⟩, rfl⟩ := stepped
    exact .allocproc c p place mode free
  case forkFail c =>
    split at stepped
    · rename_i p place quiet
      split at stepped
      · rename_i np mode
        cases stepped
        exact .forkFail c p np place quiet mode
      · cases stepped
    · cases stepped
  case forkCopy c =>
    split at stepped
    · rename_i p place quiet
      split at stepped
      · rename_i np mode
        cases stepped
        exact .forkCopy c p np place quiet mode
      · cases stepped
    · cases stepped
  case forkReady c =>
    split at stepped
    · rename_i p place quiet
      split at stepped
      · rename_i np mode
        simp only [stepIf_eq_some, decide_eq_true_eq] at stepped
        obtain ⟨free, rfl⟩ := stepped
        exact .forkReady c p np place quiet mode free
      · cases stepped
    · cases stepped
  case exit c =>
    obtain ⟨p, place, ⟨⟨mode, ordinary⟩, free⟩, rfl⟩ := stepped
    exact .exit c p place mode ordinary free
  case wait c =>
    obtain ⟨p, place, ⟨mode, free⟩, rfl⟩ := stepped
    exact .wait c p place mode free
  case waitx c =>
    obtain ⟨p, place, ⟨mode, free⟩, rfl⟩ := stepped
    exact .waitx c p place mode free

end Kernel

end Xv6
