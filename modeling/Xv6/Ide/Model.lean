/-
The disk drivers: `ide.c`, which queues requests and is driven by interrupts, and `memide.c`,
which copies blocks of an image in memory.

`ide.c` touches its queue, and the buffers in it, only under `idelock`.  A step is a section
under this lock: `iderw` up to its `sleep`, the rest of `iderw` after a wakeup, or `ideintr`.
The device finishes a command and raises one interrupt for it in a step of its own.  Between
their calls of `iderw` processes take and give up the sleep-locks of buffers, and a buffer
that no process is reading or writing is changed in any way.  A panic stops all steps.
-/

import Mathlib.Tactic
import Xv6.Library.LinkedQueue
import Xv6.Library.Machine

namespace Xv6.Ide

open Function Library

abbrev BSIZE : Nat := 512

abbrev SECTOR_SIZE : Nat := 512

abbrev FSSIZE : Nat := 1000

abbrev Block : Type := Fin BSIZE → UInt8

/-- The fields of `struct buf` that a driver uses; `valid` and `dirty` are the bits `B_VALID`
and `B_DIRTY` of `flags`. -/
structure Buf where
  valid : Bool := false
  dirty : Bool := false
  dev : Nat := 0
  blockno : Nat := 0
  data : Block := fun _ => 0

/-- `(b->flags & (B_VALID|B_DIRTY)) == B_VALID`. -/
def Buf.isClean (b : Buf) : Bool := b.valid && !b.dirty

/-- The buffer of a request that the device has finished with `data`. -/
def Buf.complete (b : Buf) (data : Block) : Buf :=
  { b with
    valid := true
    dirty := false
    -- Read data if needed.
    data := if b.dirty then b.data else data }

inductive Panic
  | bufNotLocked
  | nothingToDo
  | disk1NotPresent
  | idestart
  | incorrectBlockno
  | notForDisk1
  | blockOutOfRange

/-! ### The device -/

/-- What `idestart` writes to the registers of the device. -/
structure Registers where
  sectors : Nat
  low : Nat
  middle : Nat
  high : Nat
  select : Nat

/-- The sector number in the registers. -/
def Registers.sector (r : Registers) : Nat :=
  r.low + r.middle * 2 ^ 8 + r.high * 2 ^ 16 + r.select % 2 ^ 4 * 2 ^ 24

/-- The disk in the registers. -/
def Registers.disk (r : Registers) : Nat := r.select / 2 ^ 4 % 2

/-- A command, with the data for a write. -/
inductive Command
  | read (registers : Registers)
  | write (registers : Registers) (data : Block)

/-- The device is idle, works on a command, or has finished one and raises an interrupt, with
the data that can be read from it. -/
inductive Device
  | idle
  | busy (command : Command)
  | done (data : Block)

abbrev Disks : Type := Nat → Nat → Block

/-- The device finishes a command without an error. -/
def Command.finish (disks : Disks) : Command → Disks × Block
  | .read registers => (disks, disks registers.disk registers.sector)
  | .write registers data =>
    (update disks registers.disk
      (update (disks registers.disk) registers.sector data), data)

/-! ### `ide.c` -/

/-- A process in `iderw` sleeps on its buffer. -/
structure Proc (nbuf : Nat) where
  inside : Option (Fin nbuf) := none
  sleeping : Bool := false

/-- `lock` has the holders of the sleep-locks. -/
structure System (nbuf : Nat) where
  buf : Fin nbuf → Buf := fun _ => {}
  lock : Fin nbuf → Option Nat := fun _ => none
  idequeue : LinkedQueue (Fin nbuf) := {}
  device : Device := .idle
  disks : Disks
  proc : Nat → Proc nbuf := fun _ => {}
  panic : Option Panic := none

/-- A section panics, or never ends. -/
inductive Stop
  | panics (cause : Panic)
  | spins

variable {nbuf : Nat}

namespace System

def setBuf (s : System nbuf) (b : Fin nbuf) (buf : Buf) : System nbuf :=
  { s with buf := update s.buf b buf }

def setProc (s : System nbuf) (p : Nat) (proc : Proc nbuf) : System nbuf :=
  { s with proc := update s.proc p proc }

/-- The registers for a block. -/
def registers (b : Buf) : Registers :=
  let sector_per_block := BSIZE / SECTOR_SIZE
  let sector := b.blockno * sector_per_block
  { sectors := sector_per_block
    low := sector % 2 ^ 8
    middle := sector / 2 ^ 8 % 2 ^ 8
    high := sector / 2 ^ 16 % 2 ^ 8
    select := 0xe0 + b.dev % 2 * 2 ^ 4 + sector / 2 ^ 24 % 2 ^ 4 }

def command (b : Buf) : Command :=
  if b.dirty then .write (registers b) b.data else .read (registers b)

/-- `idestart`.  `idewait` spins while the device is busy. -/
def idestart (s : System nbuf) : Option (Fin nbuf) → Except Stop (System nbuf)
  | none => .error (.panics .idestart)
  | some b =>
    if FSSIZE ≤ (s.buf b).blockno then .error (.panics .incorrectBlockno)
    else
      match s.device with
      | .busy _ => .error .spins
      | _ => .ok { s with device := .busy (command (s.buf b)) }

/-- `wakeup(b)`. -/
def wakeup (s : System nbuf) (b : Fin nbuf) : System nbuf :=
  { s with
    proc := fun p =>
      if (s.proc p).inside = some b then { s.proc p with sleeping := false }
      else s.proc p }

/-- The part of `ideintr` up to the start of the next request: the first request is removed
from the queue and completed with the data of the device. -/
def complete (s : System nbuf) (b : Fin nbuf) (data : Block) : System nbuf :=
  let s := { s with idequeue := s.idequeue.pop b, device := .idle }
  (s.setBuf b ((s.buf b).complete data)).wakeup b

/-- `ideintr`, where `data` is in the device. -/
def ideintr (s : System nbuf) (data : Block) : Except Stop (System nbuf) :=
  match s.idequeue.head with
  | none => .ok { s with device := .idle }
  | some b =>
    let s := s.complete b data
    if s.idequeue.head = none then .ok s else s.idestart s.idequeue.head

/-- The loop at the end of `iderw`: `sleep`, or the return. -/
def await (s : System nbuf) (p : Nat) (b : Fin nbuf) : System nbuf :=
  if (s.buf b).isClean then s.setProc p { s.proc p with inside := none }
  else s.setProc p { inside := some b, sleeping := true }

/-- `iderw`, up to the first `sleep`. -/
def iderw (havedisk1 : Bool) (s : System nbuf) (p : Nat) (b : Fin nbuf) :
    Except Stop (System nbuf) :=
  if s.lock b ≠ some p then .error (.panics .bufNotLocked)
  else if (s.buf b).isClean then .error (.panics .nothingToDo)
  else if (s.buf b).dev ≠ 0 ∧ havedisk1 = false then .error (.panics .disk1NotPresent)
  else
    match s.idequeue.append (nbuf + 1) b with
    | none => .error .spins
    | some queue =>
      if queue.head = some b then
        ({ s with idequeue := queue }.idestart (some b)).map (fun next : System nbuf => next.await p b)
      else .ok ({ s with idequeue := queue }.await p b)

end System

/-- `set` is any change of a buffer outside of the driver; `run` is a process that goes on
after `sleep`, and `kill` makes a process runnable that has not been woken. -/
inductive Event (nbuf : Nat)
  | acquiresleep (p : Nat) (b : Fin nbuf)
  | releasesleep (p : Nat) (b : Fin nbuf)
  | set (b : Fin nbuf) (buf : Buf)
  | iderw (p : Nat) (b : Fin nbuf)
  | run (p : Nat)
  | kill (p : Nat)
  | finish
  | interrupt

namespace System

/-- The result of a section. -/
def after (s : System nbuf) : Except Stop (System nbuf) → Option (System nbuf)
  | .ok next => some next
  | .error .spins => none
  | .error (.panics cause) => some { s with panic := some cause }

/-- The process that holds the buffer, if there is one, is not in the driver. -/
def isFree (s : System nbuf) (b : Fin nbuf) : Bool :=
  match s.lock b with
  | none => true
  | some p => (s.proc p).inside.isNone

def move (havedisk1 : Bool) (s : System nbuf) : Event nbuf → Option (System nbuf)
  | .acquiresleep p b =>
    if s.lock b = none ∧ (s.proc p).inside = none then
      some { s with lock := update s.lock b (some p) }
    else none
  | .releasesleep p b =>
    if s.lock b = some p ∧ (s.proc p).inside = none then
      some { s with lock := update s.lock b none }
    else none
  | .set b buf => if s.isFree b then some (s.setBuf b buf) else none
  | .iderw p b =>
    if (s.proc p).inside = none then s.after (s.iderw havedisk1 p b) else none
  | .run p =>
    match (s.proc p).inside with
    | none => none
    | some b => if (s.proc p).sleeping then none else some (s.await p b)
  | .kill p => some (s.setProc p { s.proc p with sleeping := false })
  | .finish =>
    match s.device with
    | .busy command =>
      let (disks, data) := command.finish s.disks
      some { s with disks := disks, device := .done data }
    | _ => none
  | .interrupt =>
    match s.device with
    | .done data => s.after (s.ideintr data)
    | _ => none

def step (havedisk1 : Bool) (s : System nbuf) (event : Event nbuf) : Option (System nbuf) :=
  match s.panic with
  | none => s.move havedisk1 event
  | some _ => none

end System

def machine (nbuf : Nat) (havedisk1 : Bool) (disks : Disks) :
    Machine (System nbuf) (Event nbuf) where
  start := { disks := disks }
  step := System.step havedisk1

end Xv6.Ide

/-! ### `memide.c` -/

namespace Xv6.Memide

open Ide

/-- The image of `mkfs` has `FSSIZE` blocks. -/
abbrev disksize : Nat := FSSIZE

/-- `iderw`, with whether the caller holds the buffer's lock. -/
def iderw (memdisk : Nat → Block) (holding : Bool) (b : Buf) :
    Except Panic ((Nat → Block) × Buf) :=
  if holding = false then .error .bufNotLocked
  else if b.isClean then .error .nothingToDo
  else if b.dev ≠ 1 then .error .notForDisk1
  else if disksize ≤ b.blockno then .error .blockOutOfRange
  else if b.dirty then
    .ok (Function.update memdisk b.blockno b.data, { b with dirty := false, valid := true })
  else .ok (memdisk, { b with data := memdisk b.blockno, valid := true })

/-- Requests one after the other, with the buffers that they leave. -/
def run : (Nat → Block) → List (Bool × Buf) → Except Panic ((Nat → Block) × List Buf)
  | memdisk, [] => .ok (memdisk, [])
  | memdisk, (holding, b) :: rest => do
    let (memdisk, b) ← iderw memdisk holding b
    let (memdisk, bufs) ← run memdisk rest
    pure (memdisk, b :: bufs)

end Xv6.Memide
