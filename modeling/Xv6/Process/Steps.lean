/-
The kernel as a machine: every CPU, one lock-protected section at a time.

Steps of different CPUs interleave freely.  A section that needs `ptable.lock` is
enabled only while the lock is free; writes outside the lock are steps of their own.
A process in a system call may make any call of the process interface at any time,
and devices may interrupt a CPU whenever it executes with interrupts on.
-/

import Xv6.Process.Scheduler
import Xv6.Library.Machine

namespace Xv6

open Library

inductive Label (ncpu : Nat)
  -- `main` and the scheduler loop
  | userinitAlloc (c : Fin ncpu)
  | userinitReady (c : Fin ncpu)
  | enter (c : Fin ncpu)
  | pass (c : Fin ncpu)
  -- interrupts and the end of `trap`
  | timerTick (c : Fin ncpu)
  | timerCharge (c : Fin ncpu)
  | timerWakeup (c : Fin ncpu)
  | timerOther (c : Fin ncpu)
  | deviceIntr (c : Fin ncpu)
  | deviceWakeup (c : Fin ncpu) (address : Nat)
  | deviceDone (c : Fin ncpu)
  | fault (c : Fin ncpu)
  | trapTail (c : Fin ncpu)
  | yield (c : Fin ncpu)
  | trapReturn (c : Fin ncpu)
  | trapExit (c : Fin ncpu)
  -- system calls
  | syscallEnter (c : Fin ncpu)
  | syscallReturn (c : Fin ncpu)
  | forkretReturn (c : Fin ncpu)
  | sleep (c : Fin ncpu) (chan : Chan)
  | wakeup (c : Fin ncpu) (chan : Chan)
  | kill (c : Fin ncpu) (pid : Int)
  | setPriority (c : Fin ncpu) (pid priority : Int)
  | allocproc (c : Fin ncpu)
  | forkFail (c : Fin ncpu)
  | forkCopy (c : Fin ncpu)
  | forkReady (c : Fin ncpu)
  | exit (c : Fin ncpu)
  | wait (c : Fin ncpu)
  | waitx (c : Fin ncpu)
  deriving DecidableEq

/-- Channels of objects other than processes. -/
def Chan.isObject : Chan → Bool
  | .ticks => true
  | .object _ => true
  | _ => false

namespace Kernel

variable {ncpu : Nat}

/-! ### Guards -/

/-- Interrupts are on in the idle loop, in user code and in system calls. -/
def interruptible (k : Kernel ncpu) (c : Fin ncpu) : Bool :=
  decide ((k.cpu c).trap = .none) &&
    match (k.cpu c).pc with
    | .loopTop => true
    | .running _ => true
    | _ => false

/-- `myproc()->killed && (tf->cs&3) == DPL_USER`. -/
def mustExit (k : Kernel ncpu) (slot : Slot) : Bool :=
  (k.proc slot).killed && decide ((k.proc slot).control = .user)

/-- The process executes a system call. -/
def inSyscall (k : Kernel ncpu) (c : Fin ncpu) (slot : Slot) : Bool :=
  decide ((k.cpu c).trap = .none) && decide ((k.proc slot).control = .syscall)

/-- Kernel code that may sleep: a system call, the call of `exit` from an interrupt,
or the file-system start-up that `forkret` runs in the first process. -/
def maySleep (k : Kernel ncpu) (c : Fin ncpu) (slot : Slot) : Bool :=
  k.inSyscall c slot || decide ((k.cpu c).trap = .exiting) ||
    (decide ((k.cpu c).trap = .none) && decide ((k.proc slot).control = .forkret) &&
      decide (k.initproc = some slot))

/-- The test at the end of `trap` that decides about `yield`. -/
def wantsYield (policy : Policy) (k : Kernel ncpu) (slot : Slot) (timer : Bool) : Bool :=
  match policy with
  | .roundRobin => timer
  | .fcfs => false
  | .pbs => k.checkPremption (k.proc slot).priority timer
  | .mlfq =>
    decide ((k.proc slot).queueNo ≠ 4) &&
      decide (ticksQ (k.proc slot).queueNo < (k.proc slot).curTime)

/-! ### Steps -/

def stepIf (guard : Bool) (next : Kernel ncpu) : Option (Kernel ncpu) :=
  if guard then some next else none

/-- A step of the process that runs on a CPU. -/
def stepProc (k : Kernel ncpu) (c : Fin ncpu) (guard : Slot → Bool)
    (next : Slot → Kernel ncpu) : Option (Kernel ncpu) :=
  match (k.cpu c).pc with
  | .running slot => stepIf (guard slot) (next slot)
  | _ => none

theorem stepIf_eq_some {guard : Bool} {next result : Kernel ncpu} :
    stepIf guard next = some result ↔ guard = true ∧ result = next := by
  unfold stepIf
  cases guard with
  | false => simp
  | true => simp [eq_comm]

theorem stepProc_eq_some {k result : Kernel ncpu} {c : Fin ncpu}
    {guard : Slot → Bool} {next : Slot → Kernel ncpu} :
    stepProc k c guard next = some result ↔
      ∃ slot, (k.cpu c).pc = .running slot ∧ guard slot = true ∧
        result = next slot := by
  unfold stepProc
  cases at' : (k.cpu c).pc with
  | running slot => simp [stepIf_eq_some]
  | boot np => simp
  | loopTop => simp
  | pass back => simp

def setControl (k : Kernel ncpu) (slot : Slot) (control : Control) : Kernel ncpu :=
  k.modify slot (fun p => { p with control := control })

def setState (k : Kernel ncpu) (slot : Slot) (state : ProcState) : Kernel ncpu :=
  k.modify slot (fun p => { p with state := state })

def userinitAlloc (policy : Policy) (k : Kernel ncpu) (c : Fin ncpu) : Kernel ncpu :=
  let allocated := k.allocproc policy
  { allocated.2 with
    initproc := allocated.1
    cpu := Function.update allocated.2.cpu c { pc := .boot allocated.1, trap := .none } }

/-- `fork` up to the return of `allocproc`. -/
def forkAlloc (policy : Policy) (k : Kernel ncpu) (curproc : Slot) : Kernel ncpu :=
  let allocated := k.allocproc policy
  match allocated.1 with
  | some np => allocated.2.setControl curproc (.forking np false)
  | none => allocated.2

/-- `trap` after the switch statement, without the calls of `exit`. -/
def trapTail (policy : Policy) (k : Kernel ncpu) (c : Fin ncpu) (timer : Bool) :
    Option (Kernel ncpu) :=
  match (k.cpu c).pc with
  | .running slot =>
    stepIf (!k.mustExit slot && (decide (policy ≠ .pbs) || decide (k.lock = none)))
      (k.setTrap c
        (if k.wantsYield policy slot timer then .yielding else .recheck))
  | _ => some (k.setTrap c .none)

def step (policy : Policy) (k : Kernel ncpu) : Label ncpu → Option (Kernel ncpu)
  | .userinitAlloc c =>
    stepIf (decide ((k.cpu c).pc = .boot none) && decide (k.lock = none))
      (k.userinitAlloc policy c)
  | .userinitReady c =>
    match (k.cpu c).pc with
    | .boot (some np) =>
      stepIf (decide (k.lock = none))
        ((k.setState np .runnable).setCpu c { pc := .loopTop, trap := .none })
    | _ => none
  | .enter c =>
    stepIf (decide ((k.cpu c).pc = .loopTop) && decide ((k.cpu c).trap = .none) &&
        decide (k.lock = none))
      { k.setCpu c { pc := .pass none, trap := .none } with lock := some c }
  | .pass c =>
    match (k.cpu c).pc with
    | .pass back => some (k.schedulerPass policy c back)
    | _ => none
  | .timerTick c =>
    stepIf (decide (c.val = 0) && k.interruptible c)
      { k.setTrap c .ticked with ticks := k.ticks + 1 }
  | .timerCharge c =>
    stepIf (decide ((k.cpu c).trap = .ticked) && decide (k.lock = none))
      ((k.modifyTimes policy).setTrap c .charged)
  | .timerWakeup c =>
    stepIf (decide ((k.cpu c).trap = .charged) && decide (k.lock = none))
      ((k.wakeup1 .ticks).setTrap c (.tail true))
  | .timerOther c =>
    stepIf (decide (c.val ≠ 0) && k.interruptible c) (k.setTrap c (.tail true))
  | .deviceIntr c => stepIf (k.interruptible c) (k.setTrap c .device)
  | .deviceWakeup c address =>
    stepIf (decide ((k.cpu c).trap = .device) && decide (k.lock = none))
      (k.wakeup1 (.object address))
  | .deviceDone c =>
    stepIf (decide ((k.cpu c).trap = .device)) (k.setTrap c (.tail false))
  | .fault c =>
    k.stepProc c
      (fun p => decide ((k.cpu c).trap = .none) &&
        decide ((k.proc p).control = .user))
      (fun p => (k.modify p (fun q => { q with killed := true })).setTrap c (.tail false))
  | .trapTail c =>
    match (k.cpu c).trap with
    | .tail timer => k.trapTail policy c timer
    | _ => none
  | .yield c =>
    k.stepProc c
      (fun _ => decide ((k.cpu c).trap = .yielding) && decide (k.lock = none))
      (fun p => k.yield policy c p)
  | .trapReturn c =>
    -- the last test of `killed` is compiled out under FCFS
    k.stepProc c
      (fun p => decide ((k.cpu c).trap = .recheck) &&
        (decide (policy = .fcfs) || !k.mustExit p))
      (fun _ => k.setTrap c .none)
  | .trapExit c =>
    k.stepProc c
      (fun p => k.mustExit p && decide (k.initproc ≠ some p) &&
        match (k.cpu c).trap with
        | .tail _ => true
        | .recheck => decide (policy ≠ .fcfs)
        | _ => false)
      (fun _ => k.setTrap c .exiting)
  | .syscallEnter c =>
    k.stepProc c
      (fun p => decide ((k.cpu c).trap = .none) &&
        decide ((k.proc p).control = .user))
      (fun p => k.setControl p .syscall)
  | .syscallReturn c =>
    -- one step with the test of `killed`: a kill in between comes after the return
    k.stepProc c (fun p => k.inSyscall c p && !(k.proc p).killed)
      (fun p => k.setControl p .user)
  | .forkretReturn c =>
    k.stepProc c
      (fun p => decide ((k.cpu c).trap = .none) &&
        decide ((k.proc p).control = .forkret))
      (fun p => k.setControl p .user)
  | .sleep c chan =>
    k.stepProc c
      (fun p => k.maySleep c p && chan.isObject && decide (k.lock = none))
      (fun p => k.sleep c p chan)
  | .wakeup c chan =>
    k.stepProc c
      (fun p => k.maySleep c p && chan.isObject && decide (k.lock = none))
      (fun _ => k.wakeup1 chan)
  | .kill c pid =>
    k.stepProc c (fun p => k.inSyscall c p && decide (k.lock = none))
      (fun _ => (k.kill pid).2)
  | .setPriority c pid priority =>
    k.stepProc c (fun p => k.inSyscall c p && decide (k.lock = none))
      (fun _ => (k.setPriority pid priority).2)
  | .allocproc c =>
    k.stepProc c (fun p => k.inSyscall c p && decide (k.lock = none))
      (fun p => k.forkAlloc policy p)
  | .forkFail c =>
    -- `kalloc` fails in `allocproc`, or `copyuvm` fails in `fork`; no lock is taken
    match (k.cpu c).pc, (k.cpu c).trap with
    | .running p, .none =>
      match (k.proc p).control with
      | .forking np false => some ((k.setState np .unused).setControl p .syscall)
      | _ => none
    | _, _ => none
  | .forkCopy c =>
    match (k.cpu c).pc, (k.cpu c).trap with
    | .running p, .none =>
      match (k.proc p).control with
      | .forking np false =>
        some ((k.modify np (fun q => { q with parent := some p })).setControl p
          (.forking np true))
      | _ => none
    | _, _ => none
  | .forkReady c =>
    match (k.cpu c).pc, (k.cpu c).trap with
    | .running p, .none =>
      match (k.proc p).control with
      | .forking np true =>
        stepIf (decide (k.lock = none))
          ((k.setState np .runnable).setControl p .syscall)
      | _ => none
    | _, _ => none
  | .exit c =>
    k.stepProc c
      (fun p => (k.inSyscall c p || decide ((k.cpu c).trap = .exiting)) &&
        decide (k.initproc ≠ some p) && decide (k.lock = none))
      (fun p => k.exit c p)
  | .wait c =>
    k.stepProc c (fun p => k.inSyscall c p && decide (k.lock = none))
      (fun p => (k.wait c p).2)
  | .waitx c =>
    k.stepProc c (fun p => k.inSyscall c p && decide (k.lock = none))
      (fun p => (k.waitx c p).2.2)

end Kernel

/-- The kernel compiled with a policy, on a number of CPUs. -/
def machine (policy : Policy) (ncpu : Nat) : Machine (Kernel ncpu) (Label ncpu) where
  start := Kernel.boot ncpu
  step := Kernel.step policy

theorem reachable_step {policy : Policy} {ncpu : Nat} {k next : Kernel ncpu}
    {label : Label ncpu} (reachable : (machine policy ncpu).Reachable k)
    (stepped : k.step policy label = some next) :
    (machine policy ncpu).Reachable next := by
  have taken : (machine policy ncpu).step k label = some next := stepped
  exact reachable.step taken

/-- The start of a kernel with one CPU, up to the first instruction of the first
process. -/
def startUp : List (Label 1) :=
  [.userinitAlloc 0, .userinitReady 0, .enter 0, .pass 0, .forkretReturn 0]

/-- A whole `fork` that succeeds. -/
def forkLabels : List (Label 1) :=
  [.syscallEnter 0, .allocproc 0, .forkCopy 0, .forkReady 0, .syscallReturn 0]

end Xv6
