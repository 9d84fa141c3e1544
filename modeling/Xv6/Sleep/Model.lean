/-
`sleep`, `wakeup` and `sched` of `proc.c`, one instruction at a time.

Any number of processes wait for a condition with `while(!cond) sleep(chan, lk)` and any
number set it under `lk` and call `wakeup(chan)`, before or after they release `lk`.  The
lock `lk` is a lock of its own or `ptable.lock` itself.  Every acquire and release, every
write of `p->chan` and `p->state`, the switch to the scheduler and every slot of the scan
in `wakeup1` is a step, and the steps of all processes and of the schedulers interleave
freely.  A process that holds no lock may be preempted at any point.
-/

import Mathlib.Tactic
import Xv6.Library.Machine

namespace Xv6.Sleep

open Library

inductive Lock
  | lk
  | ptable
  deriving DecidableEq

/-- Which lock a call of `sleep` gets as `lk`. -/
def lkOf (shared : Bool) : Lock := if shared then .ptable else .lk

/-- The next instruction of a process.  A waiter goes from `acquireWait` to `test`; the
instructions of `sleep` are those from `sleepAcquire` to `reacquire`, where `sched` is the
call of `swtch` and `asleep` is inside it; `served` is behind the loop.  A waker goes
from `acquireSet` over `set` to `setDone`.  In `wakeAcquire` and `scan`, the parts of
`wakeup`, `locked` says that it still holds `lk`; `scan` has the slot to look at. -/
inductive Pc
  | outside
  | acquireWait
  | test
  | sleepAcquire
  | sleepRelease
  | setChan
  | setState
  | sched
  | asleep
  | resumed
  | sleepEnd
  | reacquire
  | served
  | acquireSet
  | set
  | setDone
  | wakeAcquire (locked : Bool)
  | scan (locked : Bool) (slot : Nat)
  | unlockLast
  deriving DecidableEq

inductive ProcState
  | runnable
  | running
  | sleeping
  deriving DecidableEq

/-- Progress of a `yield` after an interrupt: none, `ptable.lock` acquired, RUNNABLE,
switched off, and dispatched again with `ptable.lock` still held. -/
inductive Turn
  | on
  | held
  | marked
  | off
  | back
  deriving DecidableEq

/-- `onChan` says that `p->chan` is the channel. -/
structure Proc where
  pc : Pc := .outside
  turn : Turn := .on
  state : ProcState := .running
  onChan : Bool := false
  deriving DecidableEq

/-- A lock is held by a process or by the scheduler of some CPU. -/
inductive Owner (n : Nat)
  | proc (p : Fin n)
  | scheduler
  deriving DecidableEq

structure System (n : Nat) where
  cond : Bool
  locks : Lock → Option (Owner n) := fun _ => none
  proc : Fin n → Proc := fun _ => {}

inductive Label (n : Nat)
  | wait (p : Fin n)
  | set (p : Fin n)
  | run (p : Fin n)
  -- the order of `wakeup` and `release(lk)` after the condition has been set
  | wakeupFirst (p : Fin n)
  | unlockFirst (p : Fin n)
  -- a process behind the loop may use the condition up
  | clear (p : Fin n)
  | preempt (p : Fin n)
  | yield (p : Fin n)
  | schedAcquire
  | dispatch (p : Fin n)
  | schedRelease
  deriving DecidableEq

namespace System

variable {n : Nat}

def setProc (s : System n) (p : Fin n) (proc : Proc) : System n :=
  { s with proc := Function.update s.proc p proc }

def setPc (s : System n) (p : Fin n) (pc : Pc) : System n :=
  s.setProc p { s.proc p with pc := pc }

def setLock (s : System n) (lock : Lock) (owner : Option (Owner n)) : System n :=
  { s with locks := Function.update s.locks lock owner }

@[simp]
theorem setLock_proc (s : System n) (lock : Lock) (owner : Option (Owner n)) :
    (s.setLock lock owner).proc = s.proc := rfl

/-- `acquire` spins until the lock is free. -/
def acquire (s : System n) (lock : Lock) (p : Fin n) (pc : Pc) : Option (System n) :=
  if s.locks lock = none then some ((s.setLock lock (some (.proc p))).setPc p pc)
  else none

def release (s : System n) (lock : Lock) (p : Fin n) (pc : Pc) : System n :=
  (s.setLock lock none).setPc p pc

/-- One round of the loop in `wakeup1`. -/
def wakeSlot (s : System n) (slot : Fin n) : System n :=
  if (s.proc slot).state = .sleeping ∧ (s.proc slot).onChan = true then
    s.setProc slot { s.proc slot with state := .runnable }
  else s

/-- The next instruction of a process that executes. -/
def instruction (shared : Bool) (s : System n) (p : Fin n) : Option (System n) :=
  match (s.proc p).pc with
  | .outside => none
  | .acquireWait => s.acquire (lkOf shared) p .test
  | .test =>
    some (s.setPc p
      (if s.cond then .served else if shared then .setChan else .sleepAcquire))
  | .sleepAcquire => s.acquire .ptable p .sleepRelease
  | .sleepRelease => some (s.release .lk p .setChan)
  | .setChan => some (s.setProc p { s.proc p with onChan := true, pc := .setState })
  | .setState =>
    some (s.setProc p { s.proc p with state := .sleeping, pc := .sched })
  | .sched => some ((s.setLock .ptable (some .scheduler)).setPc p .asleep)
  | .asleep => none
  | .resumed =>
    some (s.setProc p
      { s.proc p with onChan := false, pc := if shared then .test else .sleepEnd })
  | .sleepEnd => some (s.release .ptable p .reacquire)
  | .reacquire => s.acquire .lk p .test
  | .served => some (s.release (lkOf shared) p .outside)
  | .acquireSet => s.acquire (lkOf shared) p .set
  | .set => some ({ s with cond := true }.setPc p .setDone)
  | .setDone => none
  | .wakeAcquire locked => s.acquire .ptable p (.scan locked 0)
  | .scan locked slot =>
    if inside : slot < n then
      some ((s.wakeSlot ⟨slot, inside⟩).setPc p (.scan locked (slot + 1)))
    else if shared && locked then some (s.setPc p .unlockLast)
    else some (s.release .ptable p (if locked then .unlockLast else .outside))
  | .unlockLast => some (s.release (lkOf shared) p .outside)

/-- The process executes instructions: it is not switched off and not inside `yield`. -/
def executes (s : System n) (p : Fin n) : Bool :=
  decide ((s.proc p).turn = .on) && decide ((s.proc p).pc ≠ .asleep)

/-- The process is about to execute the instruction. -/
def stands (s : System n) (p : Fin n) (pc : Pc) : Bool :=
  decide ((s.proc p).turn = .on) && decide ((s.proc p).pc = pc)

/-- Interrupts are on while a process holds no lock. -/
def interruptible (s : System n) (p : Fin n) : Bool :=
  s.executes p && decide (s.locks .lk ≠ some (.proc p)) &&
    decide (s.locks .ptable ≠ some (.proc p))

/-- The instructions of `yield` up to the switch, and the release at its end. -/
def yieldStep (s : System n) (p : Fin n) : Option (System n) :=
  match (s.proc p).turn with
  | .held =>
    some (s.setProc p { s.proc p with state := .runnable, turn := .marked })
  | .marked =>
    some ((s.setLock .ptable (some .scheduler)).setProc p
      { s.proc p with turn := .off })
  | .back => some ((s.setLock .ptable none).setProc p { s.proc p with turn := .on })
  | .on | .off => none

/-- `swtch` to a process: it goes on inside `sleep` or `yield`, with `ptable.lock`. -/
def dispatch (s : System n) (p : Fin n) : System n :=
  (s.setLock .ptable (some (.proc p))).setProc p
    { s.proc p with
      state := .running
      pc := if (s.proc p).pc = .asleep then .resumed else (s.proc p).pc
      turn := if (s.proc p).turn = .off then .back else (s.proc p).turn }

def stepIf (guard : Bool) (next : Option (System n)) : Option (System n) :=
  if guard then next else none

def step (shared : Bool) (s : System n) : Label n → Option (System n)
  | .wait p => stepIf (s.stands p .outside) (some (s.setPc p .acquireWait))
  | .set p => stepIf (s.stands p .outside) (some (s.setPc p .acquireSet))
  | .run p => stepIf (s.executes p) (s.instruction shared p)
  | .wakeupFirst p =>
    -- with `ptable.lock` held the waker calls `wakeup1` itself
    stepIf (s.stands p .setDone)
      (some (s.setPc p (if shared then .scan true 0 else .wakeAcquire true)))
  | .unlockFirst p =>
    stepIf (s.stands p .setDone) (some (s.release (lkOf shared) p (.wakeAcquire false)))
  | .clear p => stepIf (s.stands p .served) (some { s with cond := false })
  | .preempt p =>
    stepIf (s.interruptible p && decide (s.locks .ptable = none))
      (some ((s.setLock .ptable (some (.proc p))).setProc p
        { s.proc p with turn := .held }))
  | .yield p => s.yieldStep p
  | .schedAcquire =>
    stepIf (decide (s.locks .ptable = none))
      (some (s.setLock .ptable (some .scheduler)))
  | .dispatch p =>
    stepIf (decide (s.locks .ptable = some .scheduler) &&
      decide ((s.proc p).state = .runnable)) (some (s.dispatch p))
  | .schedRelease =>
    stepIf (decide (s.locks .ptable = some .scheduler))
      (some (s.setLock .ptable none))

/-! ### What each step can do -/

/-- An instruction, with what it finds. -/
inductive Runs (shared : Bool) (s : System n) (p : Fin n) : System n → Prop
  | acquireWait (place : (s.proc p).pc = .acquireWait)
      (free : s.locks (lkOf shared) = none) :
      Runs shared s p ((s.setLock (lkOf shared) (some (.proc p))).setPc p .test)
  | passes (place : (s.proc p).pc = .test) (holds : s.cond = true) :
      Runs shared s p (s.setPc p .served)
  | waits (place : (s.proc p).pc = .test) (fails : s.cond = false) :
      Runs shared s p (s.setPc p (if shared then .setChan else .sleepAcquire))
  | sleepAcquire (place : (s.proc p).pc = .sleepAcquire)
      (free : s.locks .ptable = none) :
      Runs shared s p ((s.setLock .ptable (some (.proc p))).setPc p .sleepRelease)
  | sleepRelease (place : (s.proc p).pc = .sleepRelease) :
      Runs shared s p (s.release .lk p .setChan)
  | setChan (place : (s.proc p).pc = .setChan) :
      Runs shared s p
        (s.setProc p { s.proc p with onChan := true, pc := .setState })
  | setState (place : (s.proc p).pc = .setState) :
      Runs shared s p
        (s.setProc p { s.proc p with state := .sleeping, pc := .sched })
  | sched (place : (s.proc p).pc = .sched) :
      Runs shared s p ((s.setLock .ptable (some .scheduler)).setPc p .asleep)
  | resumed (place : (s.proc p).pc = .resumed) :
      Runs shared s p (s.setProc p
        { s.proc p with onChan := false, pc := if shared then .test else .sleepEnd })
  | sleepEnd (place : (s.proc p).pc = .sleepEnd) :
      Runs shared s p (s.release .ptable p .reacquire)
  | reacquire (place : (s.proc p).pc = .reacquire) (free : s.locks .lk = none) :
      Runs shared s p ((s.setLock .lk (some (.proc p))).setPc p .test)
  | served (place : (s.proc p).pc = .served) :
      Runs shared s p (s.release (lkOf shared) p .outside)
  | acquireSet (place : (s.proc p).pc = .acquireSet)
      (free : s.locks (lkOf shared) = none) :
      Runs shared s p ((s.setLock (lkOf shared) (some (.proc p))).setPc p .set)
  | set (place : (s.proc p).pc = .set) :
      Runs shared s p ({ s with cond := true }.setPc p .setDone)
  | wakeAcquire (locked : Bool) (place : (s.proc p).pc = .wakeAcquire locked)
      (free : s.locks .ptable = none) :
      Runs shared s p
        ((s.setLock .ptable (some (.proc p))).setPc p (.scan locked 0))
  | scan (locked : Bool) (slot : Fin n) (place : (s.proc p).pc = .scan locked slot.val) :
      Runs shared s p ((s.wakeSlot slot).setPc p (.scan locked (slot.val + 1)))
  | scanned (slot : Nat) (place : (s.proc p).pc = .scan true slot) (outside : n ≤ slot)
      (isShared : shared = true) : Runs shared s p (s.setPc p .unlockLast)
  | woken (locked : Bool) (slot : Nat) (place : (s.proc p).pc = .scan locked slot)
      (outside : n ≤ slot) (apart : shared = true → locked = false) :
      Runs shared s p
        (s.release .ptable p (if locked then .unlockLast else .outside))
  | unlockLast (place : (s.proc p).pc = .unlockLast) :
      Runs shared s p (s.release (lkOf shared) p .outside)

variable {s next : System n}

theorem acquire_eq_some {lock : Lock} {p : Fin n} {pc : Pc} :
    s.acquire lock p pc = some next ↔
      s.locks lock = none ∧ next = (s.setLock lock (some (.proc p))).setPc p pc := by
  unfold acquire
  split
  · rename_i free
    simp [free, eq_comm]
  · rename_i held
    simp [held]

theorem instruction_inversion {shared : Bool} {p : Fin n}
    (ran : s.instruction shared p = some next) : Runs shared s p next := by
  unfold instruction at ran
  cases place : (s.proc p).pc with
    simp only [place, acquire_eq_some, Option.some.injEq, reduceCtorEq] at ran
  | acquireWait =>
    obtain ⟨free, rfl⟩ := ran
    exact .acquireWait place free
  | test =>
    subst next
    cases holds : s.cond with
    | true => exact .passes place holds
    | false => exact .waits place holds
  | sleepAcquire =>
    obtain ⟨free, rfl⟩ := ran
    exact .sleepAcquire place free
  | sleepRelease =>
    subst next
    exact .sleepRelease place
  | setChan =>
    subst next
    exact .setChan place
  | setState =>
    subst next
    exact .setState place
  | sched =>
    subst next
    exact .sched place
  | resumed =>
    subst next
    exact .resumed place
  | sleepEnd =>
    subst next
    exact .sleepEnd place
  | reacquire =>
    obtain ⟨free, rfl⟩ := ran
    exact .reacquire place free
  | served =>
    subst next
    exact .served place
  | acquireSet =>
    obtain ⟨free, rfl⟩ := ran
    exact .acquireSet place free
  | set =>
    subst next
    exact .set place
  | wakeAcquire locked =>
    obtain ⟨free, rfl⟩ := ran
    exact .wakeAcquire locked place free
  | scan locked slot =>
    split at ran
    · rename_i inside
      cases ran
      exact .scan locked ⟨slot, inside⟩ place
    · rename_i outside
      split at ran
      · rename_i both
        rw [Bool.and_eq_true] at both
        cases ran
        rw [both.2] at place
        exact .scanned slot place (not_lt.mp outside) both.1
      · rename_i apart
        cases ran
        refine .woken locked slot place (not_lt.mp outside) ?_
        intro isShared
        simpa [isShared] using apart
  | unlockLast =>
    subst next
    exact .unlockLast place

inductive Step (shared : Bool) (s : System n) : System n → Prop
  | wait (p : Fin n) (on : (s.proc p).turn = .on) (place : (s.proc p).pc = .outside) :
      Step shared s (s.setPc p .acquireWait)
  | set (p : Fin n) (on : (s.proc p).turn = .on) (place : (s.proc p).pc = .outside) :
      Step shared s (s.setPc p .acquireSet)
  | run (p : Fin n) (next : System n) (on : (s.proc p).turn = .on)
      (ran : Runs shared s p next) : Step shared s next
  | wakeupFirst (p : Fin n) (on : (s.proc p).turn = .on)
      (place : (s.proc p).pc = .setDone) :
      Step shared s (s.setPc p (if shared then .scan true 0 else .wakeAcquire true))
  | unlockFirst (p : Fin n) (on : (s.proc p).turn = .on)
      (place : (s.proc p).pc = .setDone) :
      Step shared s (s.release (lkOf shared) p (.wakeAcquire false))
  | clear (p : Fin n) (on : (s.proc p).turn = .on)
      (place : (s.proc p).pc = .served) : Step shared s { s with cond := false }
  | preempt (p : Fin n) (on : (s.proc p).turn = .on) (awake : (s.proc p).pc ≠ .asleep)
      (unlocked : ∀ lock, s.locks lock ≠ some (.proc p))
      (free : s.locks .ptable = none) :
      Step shared s ((s.setLock .ptable (some (.proc p))).setProc p
        { s.proc p with turn := .held })
  | yieldMark (p : Fin n) (turn : (s.proc p).turn = .held) :
      Step shared s
        (s.setProc p { s.proc p with state := .runnable, turn := .marked })
  | yieldSched (p : Fin n) (turn : (s.proc p).turn = .marked) :
      Step shared s ((s.setLock .ptable (some .scheduler)).setProc p
        { s.proc p with turn := .off })
  | yieldEnd (p : Fin n) (turn : (s.proc p).turn = .back) :
      Step shared s ((s.setLock .ptable none).setProc p
        { s.proc p with turn := .on })
  | schedAcquire (free : s.locks .ptable = none) :
      Step shared s (s.setLock .ptable (some .scheduler))
  | dispatch (p : Fin n) (held : s.locks .ptable = some .scheduler)
      (ready : (s.proc p).state = .runnable) : Step shared s (s.dispatch p)
  | schedRelease (held : s.locks .ptable = some .scheduler) :
      Step shared s (s.setLock .ptable none)

theorem stepIf_eq_some {guard : Bool} {next : Option (System n)} {result : System n} :
    stepIf guard next = some result ↔ guard = true ∧ next = some result := by
  unfold stepIf
  cases guard with
  | false => simp
  | true => simp

theorem step_inversion {shared : Bool} {label : Label n}
    (stepped : s.step shared label = some next) : Step shared s next := by
  cases label with
    simp only [step, stepIf_eq_some, stands, executes, interruptible, Bool.and_eq_true,
      decide_eq_true_eq, Option.some.injEq] at stepped
  | wait p =>
    obtain ⟨⟨on, place⟩, rfl⟩ := stepped
    exact .wait p on place
  | set p =>
    obtain ⟨⟨on, place⟩, rfl⟩ := stepped
    exact .set p on place
  | run p =>
    obtain ⟨⟨on, _⟩, ran⟩ := stepped
    exact .run p next on (instruction_inversion ran)
  | wakeupFirst p =>
    obtain ⟨⟨on, place⟩, rfl⟩ := stepped
    exact .wakeupFirst p on place
  | unlockFirst p =>
    obtain ⟨⟨on, place⟩, rfl⟩ := stepped
    exact .unlockFirst p on place
  | clear p =>
    obtain ⟨⟨on, place⟩, rfl⟩ := stepped
    exact .clear p on place
  | preempt p =>
    obtain ⟨⟨⟨⟨⟨on, awake⟩, noLk⟩, noTable⟩, free⟩, rfl⟩ := stepped
    refine .preempt p on awake ?_ free
    intro lock
    cases lock with
    | lk => exact noLk
    | ptable => exact noTable
  | yield p =>
    unfold yieldStep at stepped
    split at stepped
    · rename_i turn
      cases stepped
      exact .yieldMark p turn
    · rename_i turn
      cases stepped
      exact .yieldSched p turn
    · rename_i turn
      cases stepped
      exact .yieldEnd p turn
    · cases stepped
    · cases stepped
  | schedAcquire =>
    obtain ⟨free, rfl⟩ := stepped
    exact .schedAcquire free
  | dispatch p =>
    obtain ⟨⟨held, ready⟩, rfl⟩ := stepped
    exact .dispatch p held ready
  | schedRelease =>
    obtain ⟨held, rfl⟩ := stepped
    exact .schedRelease held

end System

/-- Any number of processes, with a condition that may hold at the start. -/
def machine (n : Nat) (shared cond : Bool) : Machine (System n) (Label n) where
  start := { cond := cond }
  step := System.step shared

end Xv6.Sleep
