/-
The process table, the per-CPU state and the scheduling globals of the kernel.

Fields keep the names of `struct proc`, `struct cpu` and the globals of `types.h`.
Pointers into the process table are slots.  `ticks` is the number of timer ticks; the
`unsigned int` of `trap.c` is its last 32 bits, and the `int` that `start_time` and
`end_time` make of it is `int32`.  The other counters are integers without wrap-around.
Memory, open files and console output are left out, except for the complaint that
`push` prints.
-/

import Mathlib.Tactic
import Xv6.Library.CircularQueue
import Xv6.Library.Machine

namespace Xv6

open Function

open Library (CircularQueue)

abbrev NPROC : Nat := 64

instance neZero_NPROC : NeZero NPROC := ⟨Nat.succ_ne_zero 63⟩

/-- The five rings of `types.h`. -/
abbrev levels : Nat := 5

abbrev AGE : Int := 20

/-- Set by `main`, never written again. -/
def ticksQ (queueNo : Nat) : Int := 2 ^ queueNo

/-- What an `int` holds after the last 32 bits of a number were stored to it. -/
def int32 (n : Int) : Int := n.bmod (2 ^ 32)

theorem int32_of_lt {n : Int} (counted : 0 ≤ n) (small : n < 2 ^ 31) : int32 n = n :=
  Int.bmod_eq_of_le (by omega) (by omega)

theorem int32_le {n : Int} (counted : 0 ≤ n) : int32 n ≤ n := by
  unfold int32
  rw [Int.bmod_def]
  split <;> omega

abbrev Slot : Type := Fin NPROC

/-- The order in which `for(p = ptable.proc; p < &ptable.proc[NPROC]; p++)` visits. -/
abbrev slots : List Slot := List.finRange NPROC

/-- Which of the four macros the kernel was compiled with. -/
inductive Policy
  | roundRobin
  | fcfs
  | pbs
  | mlfq
  deriving DecidableEq

inductive ProcState
  | unused
  | embryo
  | sleeping
  | runnable
  | running
  | zombie
  deriving DecidableEq

/-- A wait channel: the null pointer, a process (the channel of `wait`), the tick
counter, or the address of any other kernel object. -/
inductive Chan
  | null
  | proc (slot : Slot)
  | ticks
  | object (address : Nat)
  deriving DecidableEq

/-- What the bottom of a kernel stack will return to.  `forking` is inside `fork`
with `np` allocated; `copied` says that `np->parent` has been written. -/
inductive Control
  | user
  | syscall
  | forking (np : Slot) (copied : Bool)
  | forkret
  deriving DecidableEq

/-- Progress of the interrupt part of `trap` on a CPU.  `ticked` lies between
`ticks++` and `modify_times`, `charged` between `modify_times` and
`wakeup(&ticks)`; `tail` is after the switch statement, `yielding` before a call of
`yield` that has been decided, `recheck` before the last test of `killed`, and
`exiting` inside the call of `exit`. -/
inductive Trap
  | none
  | ticked
  | charged
  | device
  | tail (timer : Bool)
  | yielding
  | recheck
  | exiting
  deriving DecidableEq

/-- `struct proc`; the last two fields stand for its kernel stack. -/
structure Proc where
  state : ProcState := .unused
  pid : Int := 0
  parent : Option Slot := none
  chan : Chan := .null
  killed : Bool := false
  startTime : Int := 0
  endTime : Int := 0
  runTime : Int := 0
  waitTime : Int := 0
  priority : Int := 0
  numRun : Int := 0
  curTime : Int := 0
  ticks : Nat → Int := fun _ => 0
  queueNo : Nat := 0
  control : Control := .forkret
  resume : Trap := .none

/-- Where a CPU executes: `main` before `scheduler` (with `userinit`'s process once
it is allocated), the top of the scheduler loop with the lock free, inside a pass of
that loop with the lock held (with the process that switched back, if any), or a
process. -/
inductive CpuPc
  | boot (np : Option Slot)
  | loopTop
  | pass (back : Option Slot)
  | running (slot : Slot)
  deriving DecidableEq

structure Cpu where
  pc : CpuPc
  trap : Trap
  deriving DecidableEq

/-- The branch of `push` that prints an error, and a `pop` from an empty ring. -/
inductive Fault
  | queueFull (queueNo : Nat)
  | popEmpty (queueNo : Nat)
  deriving DecidableEq

structure Kernel (ncpu : Nat) where
  proc : Slot → Proc
  nextpid : Int
  ticks : Int
  initproc : Option Slot
  rings : Nat → CircularQueue Slot
  faults : List Fault
  lock : Option (Fin ncpu)
  cpu : Fin ncpu → Cpu

namespace Kernel

variable {ncpu : Nat}

/-- Zeroed memory, and the loop at the top of `main`.  CPU 0 is still in `main`
when the others already call `scheduler`. -/
def boot (ncpu : Nat) : Kernel ncpu :=
  { proc := fun _ => {}
    nextpid := 1
    ticks := 0
    initproc := none
    rings := fun _ => CircularQueue.empty
    faults := []
    lock := none
    cpu := fun c => { pc := if c.val = 0 then .boot none else .loopTop, trap := .none } }

def modify (k : Kernel ncpu) (slot : Slot) (change : Proc → Proc) : Kernel ncpu :=
  { k with proc := update k.proc slot (change (k.proc slot)) }

def setCpu (k : Kernel ncpu) (c : Fin ncpu) (value : Cpu) : Kernel ncpu :=
  { k with cpu := update k.cpu c value }

def setTrap (k : Kernel ncpu) (c : Fin ncpu) (trap : Trap) : Kernel ncpu :=
  k.setCpu c { k.cpu c with trap := trap }

def setRing (k : Kernel ncpu) (queueNo : Nat) (ring : CircularQueue Slot) :
    Kernel ncpu :=
  { k with rings := update k.rings queueNo ring }

section Projections

variable (k : Kernel ncpu) (slot : Slot) (change : Proc → Proc)
  (c : Fin ncpu) (value : Cpu) (trap : Trap)

theorem modify_proc (other : Slot) :
    (k.modify slot change).proc other =
      if other = slot then change (k.proc slot) else k.proc other := by
  simp only [modify, update_apply]

@[simp]
theorem modify_proc_self :
    (k.modify slot change).proc slot = change (k.proc slot) := by
  simp [modify_proc]

theorem modify_proc_of_ne {other : Slot} (different : other ≠ slot) :
    (k.modify slot change).proc other = k.proc other := by
  simp [modify_proc, different]

theorem modify_keeps {Value : Type} (field : Proc → Value)
    (keeps : field (change (k.proc slot)) = field (k.proc slot)) (other : Slot) :
    field ((k.modify slot change).proc other) = field (k.proc other) := by
  rw [modify_proc]
  split
  · rename_i same
    rw [keeps, same]
  · rfl

@[simp]
theorem modify_rings : (k.modify slot change).rings = k.rings := rfl

@[simp]
theorem modify_ticks : (k.modify slot change).ticks = k.ticks := rfl

theorem setCpu_cpu (other : Fin ncpu) :
    (k.setCpu c value).cpu other = if other = c then value else k.cpu other := by
  simp only [setCpu, update_apply]

@[simp]
theorem setCpu_cpu_self : (k.setCpu c value).cpu c = value := by
  simp [setCpu_cpu]

@[simp]
theorem setTrap_proc : (k.setTrap c trap).proc = k.proc := rfl

@[simp]
theorem setTrap_pc (other : Fin ncpu) :
    ((k.setTrap c trap).cpu other).pc = (k.cpu other).pc := by
  simp only [setTrap, setCpu_cpu]
  split
  · rename_i same
    rw [same]
  · rfl

theorem setTrap_cpu_self :
    (k.setTrap c trap).cpu c = ⟨(k.cpu c).pc, trap⟩ := by
  rw [setTrap, setCpu_cpu_self]

@[simp]
theorem setRing_proc (queueNo : Nat) (ring : CircularQueue Slot) :
    (k.setRing queueNo ring).proc = k.proc := rfl

theorem setTrap_trap (other : Fin ncpu) :
    ((k.setTrap c trap).cpu other).trap =
      if other = c then trap else (k.cpu other).trap := by
  simp only [setTrap, setCpu_cpu]
  split <;> rfl

end Projections

end Kernel

end Xv6
