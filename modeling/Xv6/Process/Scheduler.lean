/-
The loop bodies of `scheduler` under the four policies.

A pass starts with the lock just acquired, or continues after `swtch` has come back
from a process.  It ends by switching to a process, which releases the lock, or by
releasing the lock itself.
-/

import Xv6.Process.Operations
import Xv6.Library.LeastScan

namespace Xv6

open Function Library

namespace Kernel

variable {ncpu : Nat}

def isRunnable (k : Kernel ncpu) (slot : Slot) : Bool :=
  decide ((k.proc slot).state = .runnable)

theorem isRunnable_iff {k : Kernel ncpu} {slot : Slot} :
    k.isRunnable slot = true ↔ (k.proc slot).state = .runnable :=
  decide_eq_true_iff

theorem slots_split {before after : List Slot} {p : Slot} (split : slots = before ++ p :: after) :
    ∀ q, q < p → q ∈ before := by
  intro q less
  have sorted : (before ++ p :: after).Pairwise (· < ·) := split ▸ List.pairwise_lt_finRange NPROC
  have member : q ∈ before ++ p :: after := split ▸ List.mem_finRange q
  rcases List.mem_append.mp member with found | found
  · exact found
  · have ordered := (List.pairwise_append.mp sorted).2.1
    rcases List.mem_cons.mp found with same | beyond
    · exact absurd less (by rw [same]; exact lt_irrefl p)
    · have larger := (List.pairwise_cons.mp ordered).1 q beyond
      exact absurd less (lt_asymm larger)

/-- Switch to a process.  It runs on from where it gave up the CPU; a process that
slept clears its channel first. -/
def dispatch (k : Kernel ncpu) (c : Fin ncpu) (slot : Slot) : Kernel ncpu :=
  { k with
    proc := update k.proc slot
      { k.proc slot with state := .running, chan := .null }
    lock := none
    cpu := update k.cpu c
      { pc := .running slot, trap := (k.proc slot).resume } }

/-- The end of a pass. -/
def release (k : Kernel ncpu) (c : Fin ncpu) : Kernel ncpu :=
  { k with
    lock := none
    cpu := update k.cpu c { pc := .loopTop, trap := .none } }

@[simp]
theorem release_proc (k : Kernel ncpu) (c : Fin ncpu) :
    (k.release c).proc = k.proc := rfl

@[simp]
theorem release_rings (k : Kernel ncpu) (c : Fin ncpu) :
    (k.release c).rings = k.rings := rfl

/-- The slot at which the table scan stands: the beginning, or the one after the
process that switched back. -/
def cursor : Option Slot → Nat
  | none => 0
  | some slot => slot.val + 1

/-- The first RUNNABLE slot at or after the cursor. -/
def nextRunnable (k : Kernel ncpu) (start : Nat) : Option Slot :=
  slots.find? (fun slot => decide (start ≤ slot.val) && k.isRunnable slot)

def roundRobinPass (k : Kernel ncpu) (c : Fin ncpu) (back : Option Slot) :
    Kernel ncpu :=
  match k.nextRunnable (cursor back) with
  | some p => k.dispatch c p
  | none => k.release c

/-! ### First come, first served -/

def procWithMinStartTime (k : Kernel ncpu) : Option Slot :=
  leastScan k.isRunnable (fun slot => (k.proc slot).startTime) none slots

def fcfsPass (k : Kernel ncpu) (c : Fin ncpu) (back : Option Slot) : Kernel ncpu :=
  match back with
  | some _ => k.release c
  | none =>
    match k.procWithMinStartTime with
    | some p => k.dispatch c p
    | none => k.release c

/-! ### Priority based -/

/-- The inner loop, started with the slot that the outer loop has reached. -/
def procWithHighestPriority (k : Kernel ncpu) (p : Slot) : Slot :=
  (leastScan k.isRunnable (fun slot => (k.proc slot).priority) (some p) slots).getD p

/-- The outer loop goes on behind the process that it has run. -/
def pbsPass (k : Kernel ncpu) (c : Fin ncpu) (back : Option Slot) : Kernel ncpu :=
  match k.nextRunnable (cursor back) with
  | some p => k.dispatch c (k.procWithHighestPriority p)
  | none => k.release c

/-! ### Multilevel feedback queue -/

/-- The rounds of `while(sz[i] > cursz)`.  A round never makes `sz[i]` larger, so the
loop makes at most as many rounds as `sz[i]` had elements at its start, which is the
bound it is called with. -/
def scanRing (i : Nat) : Nat → Int → Kernel ncpu → Option Slot × Kernel ncpu
  | 0, _, k => (none, k)
  | rounds + 1, cursz, k =>
    if cursz < (k.rings i).size then
      let popped := k.pop i
      match popped.1 with
      | none => (none, popped.2)
      | some p =>
        if popped.2.isRunnable p then (some p, popped.2)
        else scanRing i rounds (cursz + 1) (popped.2.push i p)
    else (none, k)

/-- The loop over the rings; `f` becomes 1 when a process is returned. -/
def selectRing : List Nat → Kernel ncpu → Option Slot × Kernel ncpu
  | [], k => (none, k)
  | i :: rest, k =>
    if k.isEmpty i then selectRing rest k
    else
      let scanned := scanRing i (k.rings i).size.toNat 0 k
      match scanned.1 with
      | some p => (some p, scanned.2)
      | none => selectRing rest scanned.2

def select (k : Kernel ncpu) : Option Slot × Kernel ncpu :=
  selectRing (List.range levels) k

/-- One round of the loop at the end of a pass. -/
def refillSlot (k : Kernel ncpu) (slot : Slot) : Kernel ncpu :=
  if (k.proc slot).pid = 0 ∨ (k.proc slot).state ≠ .runnable then k
  else k.push 0 slot

def refill (k : Kernel ncpu) : Kernel ncpu :=
  slots.foldl refillSlot k

def mlfqPass (k : Kernel ncpu) (c : Fin ncpu) (back : Option Slot) : Kernel ncpu :=
  match back with
  | some _ => k.refill.release c
  | none =>
    let selected := k.select
    match selected.1 with
    | some p =>
      (selected.2.modify p (fun q =>
        { q with waitTime := 0, numRun := q.numRun + 1 })).dispatch c p
    | none => selected.2.refill.release c

def schedulerPass (policy : Policy) (k : Kernel ncpu) (c : Fin ncpu)
    (back : Option Slot) : Kernel ncpu :=
  match policy with
  | .roundRobin => k.roundRobinPass c back
  | .fcfs => k.fcfsPass c back
  | .pbs => k.pbsPass c back
  | .mlfq => k.mlfqPass c back

end Kernel

end Xv6
