/-
The sections of `proc.c` that run under `ptable.lock`, except the scheduler.

A section that ends in `sched` leaves the CPU inside its scheduler pass with the
lock still held; all others release the lock, so they appear as one change of the
kernel.
-/

import Xv6.Process.Queues

namespace Xv6

open Function

namespace Kernel

variable {ncpu : Nat}

/-! ### Allocation -/

/-- The assignments of `allocproc` after `found`; the stack it builds returns to
`forkret`. -/
def freshProc (k : Kernel ncpu) (p : Proc) : Proc :=
  { p with
    state := .embryo
    pid := k.nextpid
    startTime := int32 k.ticks
    endTime := 0
    runTime := 0
    waitTime := 0
    priority := 60
    queueNo := 0
    curTime := 0
    numRun := 0
    ticks := fun _ => 0
    control := .forkret
    resume := .none }

def firstUnused (k : Kernel ncpu) : Option Slot :=
  slots.find? (fun slot => decide ((k.proc slot).state = .unused))

/-- The loop over the rings in `allocproc`: the first one with room. -/
def pushFirstFree (k : Kernel ncpu) (slot : Slot) : Kernel ncpu :=
  match (List.range levels).find? (fun i => !k.isFull i) with
  | some i => k.push i slot
  | none => k

def claimSlot (k : Kernel ncpu) (slot : Slot) : Kernel ncpu :=
  { k with
    proc := update k.proc slot (k.freshProc (k.proc slot))
    nextpid := k.nextpid + 1 }

def allocproc (policy : Policy) (k : Kernel ncpu) : Option Slot × Kernel ncpu :=
  match k.firstUnused with
  | none => (none, k)
  | some slot =>
    (some slot,
      if policy = .mlfq then (k.claimSlot slot).pushFirstFree slot
      else k.claimSlot slot)

/-! ### Sleeping and waking -/

/-- `sched`: switch from the process back to the scheduler of its CPU, which then
holds the lock. -/
def sched (k : Kernel ncpu) (c : Fin ncpu) (curproc : Slot) : Kernel ncpu :=
  { k with
    lock := some c
    cpu := update k.cpu c { pc := .pass (some curproc), trap := .none } }

/-- When the process runs again it continues where it stood in `trap`. -/
def sleep (k : Kernel ncpu) (c : Fin ncpu) (curproc : Slot) (chan : Chan) :
    Kernel ncpu :=
  (k.modify curproc (fun p =>
    { p with chan := chan, state := .sleeping, resume := (k.cpu c).trap })).sched c curproc

def wakeProc (chan : Chan) (p : Proc) : Proc :=
  if p.state = .sleeping ∧ p.chan = chan then { p with state := .runnable } else p

def wakeup1 (k : Kernel ncpu) (chan : Chan) : Kernel ncpu :=
  { k with proc := fun slot => wakeProc chan (k.proc slot) }

def withPid (k : Kernel ncpu) (pid : Int) : Option Slot :=
  slots.find? (fun slot => decide ((k.proc slot).pid = pid))

def killProc (p : Proc) : Proc :=
  { p with
    killed := true
    state := if p.state = .sleeping then .runnable else p.state }

def kill (k : Kernel ncpu) (pid : Int) : Int × Kernel ncpu :=
  match k.withPid pid with
  | some slot => (0, k.modify slot killProc)
  | none => (-1, k)

/-! ### Giving up the CPU -/

def yield (policy : Policy) (k : Kernel ncpu) (c : Fin ncpu) (curproc : Slot) :
    Kernel ncpu :=
  let given := k.modify curproc (fun p =>
    { p with state := .runnable, resume := .recheck })
  if policy = .mlfq then
    let lowered := given.modify curproc (fun p =>
      { p with curTime := 0, queueNo := p.queueNo + 1 })
    (lowered.push (lowered.proc curproc).queueNo curproc).sched c curproc
  else given.sched c curproc

def chanOf : Option Slot → Chan
  | none => .null
  | some slot => .proc slot

/-- One round of the loop in `exit` that passes abandoned children to init. -/
def passToInit (curproc : Slot) (k : Kernel ncpu) (pq : Slot) : Kernel ncpu :=
  if (k.proc pq).parent = some curproc then
    let moved := k.modify pq (fun p => { p with parent := k.initproc })
    if (moved.proc pq).state = .zombie then moved.wakeup1 (chanOf k.initproc) else moved
  else k

/-- The locked part of `exit`. -/
def exit (k : Kernel ncpu) (c : Fin ncpu) (curproc : Slot) : Kernel ncpu :=
  let woken := k.wakeup1 (chanOf (k.proc curproc).parent)
  let passed := slots.foldl (passToInit curproc) woken
  (passed.modify curproc (fun p =>
    { p with endTime := int32 passed.ticks, state := .zombie })).sched c curproc

/-! ### `wait` and `waitx` -/

def zombieChild (k : Kernel ncpu) (curproc : Slot) : Option Slot :=
  slots.find? (fun slot => decide ((k.proc slot).parent = some curproc) &&
    decide ((k.proc slot).state = .zombie))

def haveKids (k : Kernel ncpu) (curproc : Slot) : Bool :=
  slots.any (fun slot => decide ((k.proc slot).parent = some curproc))

def reapProc (p : Proc) : Proc :=
  { p with pid := 0, parent := none, killed := false, state := .unused }

/-- The loop body shared by `wait` and `waitx`: the reaped child, if any, and the
result; `none` is a process that went to sleep. -/
def waitLoop (k : Kernel ncpu) (c : Fin ncpu) (curproc : Slot) :
    Option Slot × Option Int × Kernel ncpu :=
  match k.zombieChild curproc with
  | some child =>
    (some child, some (k.proc child).pid, k.modify child reapProc)
  | none =>
    if !k.haveKids curproc || (k.proc curproc).killed then
      (none, some (-1), k)
    else (none, none, k.sleep c curproc (.proc curproc))

def wait (k : Kernel ncpu) (c : Fin ncpu) (curproc : Slot) :
    Option Int × Kernel ncpu :=
  (k.waitLoop c curproc).2

/-- The two values that `waitx` stores through its pointers. -/
structure WaitxTimes where
  wtime : Int
  rtime : Int

def waitxTimes (p : Proc) : WaitxTimes :=
  { rtime := p.runTime
    wtime := p.endTime - p.startTime - p.runTime }

/-- The times are read after the reaping assignments, which leave them alone. -/
def waitx (k : Kernel ncpu) (c : Fin ncpu) (curproc : Slot) :
    Option Int × Option WaitxTimes × Kernel ncpu :=
  let (child, result, after) := k.waitLoop c curproc
  (result, child.map (fun slot => waitxTimes (after.proc slot)), after)

/-! ### Clock ticks -/

def chargeRunning (policy : Policy) (p : Proc) : Proc :=
  if policy = .mlfq then
    { p with
      runTime := p.runTime + 1
      ticks := update p.ticks p.queueNo (p.ticks p.queueNo + 1)
      curTime := p.curTime + 1 }
  else { p with runTime := p.runTime + 1 }

/-- One round of the loop in `modify_times`. -/
def chargeSlot (policy : Policy) (k : Kernel ncpu) (slot : Slot) : Kernel ncpu :=
  if (k.proc slot).state = .running then
    k.modify slot (chargeRunning policy)
  else
    let waited := k.modify slot (fun p => { p with waitTime := p.waitTime + 1 })
    if policy = .mlfq ∧ (waited.proc slot).queueNo ≠ 0 ∧ AGE < (waited.proc slot).waitTime then
      let aged := waited.modify slot (fun p =>
        { p with queueNo := p.queueNo - 1, curTime := 0, waitTime := 0 })
      aged.push (aged.proc slot).queueNo slot
    else waited

def modifyTimes (policy : Policy) (k : Kernel ncpu) : Kernel ncpu :=
  slots.foldl (chargeSlot policy) k

/-! ### Priorities and process information -/

def setPriority (k : Kernel ncpu) (pid priority : Int) : Int × Kernel ncpu :=
  match k.withPid pid with
  | some slot =>
    ((k.proc slot).priority,
      k.modify slot (fun p => { p with priority := priority }))
  | none => (-1, k)

/-- `f` is 1 for a timer interrupt: then an equal priority preempts as well. -/
def checkPremption (k : Kernel ncpu) (priority : Int) (f : Bool) : Bool :=
  if !f then
    slots.any (fun slot => decide ((k.proc slot).pid ≠ 0) &&
      decide ((k.proc slot).priority < priority))
  else
    slots.any (fun slot => decide ((k.proc slot).pid ≠ 0) &&
      decide ((k.proc slot).priority ≤ priority))

/-- `struct proc_stat`. -/
structure ProcStat where
  pid : Int
  runtime : Int
  numRun : Int
  currentQueue : Nat
  ticks : Nat → Int

/-- The record that `getpinfo` fills in when it returns 1. -/
def getpinfo (k : Kernel ncpu) (pid : Int) : Option ProcStat :=
  (k.withPid pid).map (fun slot =>
    let p := k.proc slot
    { pid := p.pid
      runtime := p.runTime
      numRun := p.numRun
      currentQueue := p.queueNo
      ticks := p.ticks })

end Kernel

end Xv6
