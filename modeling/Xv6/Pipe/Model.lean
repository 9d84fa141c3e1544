/-
One pipe of `pipe.c` and the processes that use it.

A step is an acquire or release of `p->lock` or `ptable.lock`, one iteration of a loop
under `p->lock`, a scan of `wakeup1`, or the change of state in `sleep`; the steps of
different processes interleave freely.  An end may be closed while calls on it are under
way, although open files prevent this.  `sys_read` and `sys_write` pass no negative
counts.  Other uses of `ptable.lock` only delay the steps below.
-/

import Mathlib.Tactic
import Xv6.Library.CounterRing
import Xv6.Library.Machine

namespace Xv6.Pipes

open Function Library

abbrev PIPESIZE : Nat := 512

/-- The fields of `struct pipe` under `p->lock`. -/
structure Pipe where
  data : Nat → UInt8 := fun _ => 0
  nread : BitVec 32 := 0
  nwrite : BitVec 32 := 0
  readopen : Bool := true
  writeopen : Bool := true

inductive Chan
  | nread
  | nwrite
  deriving DecidableEq

/-- A call that may sleep: `pipewrite` of `n` bytes with those that it has still to store,
or `piperead` of at most `n` bytes. -/
inductive Call
  | write (n : Nat) (left : List UInt8)
  | read (n : Nat)

def Call.chan : Call → Chan
  | .write _ _ => .nwrite
  | .read _ => .nread

/-- Where a process stands.  `acquire` is before `acquire(&p->lock)`, at the start of a
call or at the end of `sleep`; `loop` is the head of the `for` loop of `pipewrite` and of
the `while` loop of `piperead`; `wakeFull` is before the `wakeup` that precedes `sleep` in
`pipewrite`.  The steps of `sleep` are `sleep`, before it acquires `ptable.lock`,
`unlock`, before it releases `p->lock`, `mark`, before it changes the state of the
process, and `asleep`, in `sched`. -/
inductive Pc
  | outside
  | acquire (call : Call)
  | loop (call : Call)
  | wakeFull (n : Nat) (left : List UInt8)
  | sleep (call : Call)
  | unlock (call : Call)
  | mark (call : Call)
  | asleep (call : Call)
  | stored (n : Nat)
  | leaveWrite (n : Nat)
  | copy (n : Nat) (got : List UInt8)
  | copied (n : Nat) (got : List UInt8)
  | leaveRead (n : Nat) (got : List UInt8)
  | acquireClose (writable : Bool)
  | close (writable : Bool)
  | closed (writable : Bool)
  | leaveClose

/-- The count of the `piperead` that a process is in. -/
def Pc.reading : Pc → Option Nat
  | .acquire (.read n) | .loop (.read n) | .sleep (.read n) | .unlock (.read n)
  | .mark (.read n) | .asleep (.read n) | .copy n _ | .copied n _ | .leaveRead n _ => some n
  | _ => none

/-- `sleeping` is the channel of a SLEEPING process, `result` what its last `pipewrite` or
`piperead` returned. -/
structure Proc where
  pc : Pc := .outside
  sleeping : Option Chan := none
  killed : Bool := false
  result : Int := 0

/-- `lock` and `ptable` are the holders of `p->lock` and of `ptable.lock`. -/
structure System where
  pipe : Pipe := {}
  lock : Option Nat := none
  ptable : Option Nat := none
  proc : Nat → Proc := fun _ => {}

namespace Pipe

def isFull (pipe : Pipe) : Bool := pipe.nwrite == pipe.nread + BitVec.ofNat 32 PIPESIZE

def isEmpty (pipe : Pipe) : Bool := pipe.nread == pipe.nwrite

/-- `p->data[p->nwrite++ % PIPESIZE] = byte`. -/
def store (pipe : Pipe) (byte : UInt8) : Pipe :=
  { pipe with
    data := update pipe.data (pipe.nwrite.toNat % PIPESIZE) byte
    nwrite := pipe.nwrite + 1 }

/-- The byte that `p->data[p->nread++ % PIPESIZE]` yields. -/
def oldest (pipe : Pipe) : UInt8 := pipe.data (pipe.nread.toNat % PIPESIZE)

/-- The bytes stored and not yet read, oldest first. -/
def contents (pipe : Pipe) : List UInt8 := segment PIPESIZE pipe.data pipe.nread pipe.nwrite

def take (pipe : Pipe) : Pipe := { pipe with nread := pipe.nread + 1 }

def closeEnd (pipe : Pipe) (writable : Bool) : Pipe :=
  if writable then { pipe with writeopen := false } else { pipe with readopen := false }

end Pipe

namespace System

def setPc (s : System) (p : Nat) (pc : Pc) : System :=
  { s with proc := update s.proc p { s.proc p with pc := pc } }

/-- `acquire(&p->lock)` by `p`, which goes on at `pc`. -/
def acquire (s : System) (p : Nat) (pc : Pc) : Option System :=
  if s.lock = none then some { s.setPc p pc with lock := some p } else none

def release (s : System) (p : Nat) (pc : Pc) : System :=
  { s.setPc p pc with lock := none }

/-- `release(&p->lock)` and the return of `result`. -/
def finish (s : System) (p : Nat) (result : Int) : System :=
  { s with
    lock := none
    proc := update s.proc p
      { s.proc p with pc := .outside, result := result } }

/-- `wakeup1`. -/
def wakeup1 (s : System) (chan : Chan) : System :=
  { s with
    proc := fun q =>
      if (s.proc q).sleeping = some chan then { s.proc q with sleeping := none }
      else s.proc q }

/-- `wakeup`, after which `p` goes on at `pc`. -/
def wakeup (s : System) (chan : Chan) (p : Nat) (pc : Pc) : Option System :=
  if s.ptable = none then some ((s.wakeup1 chan).setPc p pc) else none

/-- `p->chan = chan; p->state = SLEEPING`, and the release of `ptable.lock` by the
scheduler. -/
def markSleeping (s : System) (p : Nat) (call : Call) : System :=
  { s with
    ptable := none
    proc := update s.proc p
      { s.proc p with pc := .asleep call, sleeping := some call.chan } }

/-- `p->killed = 1`, which also makes a SLEEPING process RUNNABLE. -/
def setKilled (s : System) (p : Nat) : System :=
  { s with
    proc := update s.proc p
      { s.proc p with killed := true, sleeping := none } }

/-- The head of the loop of `pipewrite`. -/
def writeLoop (s : System) (p n : Nat) : List UInt8 → System
  | [] => s.setPc p (.stored n)
  | byte :: left =>
    if s.pipe.isFull then
      if s.pipe.readopen = false ∨ (s.proc p).killed then s.finish p (-1)
      else s.setPc p (.wakeFull n (byte :: left))
    else
      { s.setPc p (.loop (.write n left)) with pipe := s.pipe.store byte }

/-- The head of the `while` loop of `piperead`. -/
def readLoop (s : System) (p n : Nat) : System :=
  if s.pipe.isEmpty ∧ s.pipe.writeopen then
    if (s.proc p).killed then s.finish p (-1)
    else s.setPc p (.sleep (.read n))
  else s.setPc p (.copy n [])

/-- One iteration of the `for` loop of `piperead`. -/
def readCopy (s : System) (p n : Nat) (got : List UInt8) : System :=
  if got.length < n ∧ s.pipe.isEmpty = false then
    { s.setPc p (.copy n (got ++ [s.pipe.oldest])) with pipe := s.pipe.take }
  else s.setPc p (.copied n got)

/-- The next step of process `p`. -/
def run (s : System) (p : Nat) : Option System :=
  match (s.proc p).pc with
  | .outside => none
  | .acquire call => s.acquire p (.loop call)
  | .loop (.write n left) => some (s.writeLoop p n left)
  | .loop (.read n) => some (s.readLoop p n)
  | .wakeFull n left => s.wakeup .nread p (.sleep (.write n left))
  | .sleep call =>
    if s.ptable = none then
      some { s.setPc p (.unlock call) with ptable := some p }
    else none
  | .unlock call => some (s.release p (.mark call))
  | .mark call => some (s.markSleeping p call)
  | .asleep call =>
    if (s.proc p).sleeping = none ∧ s.ptable = none then
      some (s.setPc p (.acquire call))
    else none
  | .stored n => s.wakeup .nread p (.leaveWrite n)
  | .leaveWrite n => some (s.finish p n)
  | .copy n got => some (s.readCopy p n got)
  | .copied n got => s.wakeup .nwrite p (.leaveRead n got)
  | .leaveRead _ got => some (s.finish p got.length)
  | .acquireClose writable => s.acquire p (.close writable)
  | .close writable =>
    some { s.setPc p (.closed writable) with pipe := s.pipe.closeEnd writable }
  | .closed writable =>
    s.wakeup (if writable then .nread else .nwrite) p .leaveClose
  | .leaveClose => some (s.release p .outside)

/-- `kill`. -/
def kill (s : System) (p : Nat) : Option System :=
  if s.ptable = none then some (s.setKilled p) else none

end System

/-- A process starts a call on the pipe, goes on with it, or is killed. -/
inductive Event
  | write (p : Nat) (bytes : List UInt8)
  | read (p n : Nat)
  | close (p : Nat) (writable : Bool)
  | run (p : Nat)
  | kill (p : Nat)

def System.start (s : System) (p : Nat) (pc : Pc) : Option System :=
  match (s.proc p).pc with
  | .outside => some (s.setPc p pc)
  | _ => none

def System.step (s : System) : Event → Option System
  | .write p bytes => s.start p (.acquire (.write bytes.length bytes))
  | .read p n => s.start p (.acquire (.read n))
  | .close p writable => s.start p (.acquireClose writable)
  | .run p => s.run p
  | .kill p => s.kill p

/-- The pipe as `pipealloc` leaves it, and every process outside of its calls. -/
def machine : Machine System Event where
  start := {}
  step := System.step

end Xv6.Pipes
