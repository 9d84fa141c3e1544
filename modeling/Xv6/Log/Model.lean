/-
The write-ahead log of `log.c` over the buffer cache of `bio.c`.

A call of `begin_op` or `end_op` is one step, and one of `log_write` two: the tests that
it makes before it takes `log.lock`, and what it does under the lock.  The buffer that it is
called with is locked, so nobody sees the caller's changes before the second step, which
makes them here.  A call that must sleep is not enabled.
`commit` and `recover_from_log` advance from one block write to the next, so that a
crash can fall between any two of them, and other processes may read and recycle buffers
meanwhile.  A buffer is recycled only when it is clean; which one, and when, is left
open, where `bget` takes the least recently used.  There is one device.
-/

import Mathlib.Tactic
import Xv6.Library.Machine

namespace Xv6.Log

open Function Library

abbrev MAXOPBLOCKS : Nat := 10

abbrev LOGSIZE : Nat := MAXOPBLOCKS * 3

/-- The number of `int`s in a block of `BSIZE` bytes. -/
abbrev WORDS : Nat := 128

abbrev Block : Type := Fin WORDS → Nat

/-- `struct logheader`; entries at `n` and beyond are left over from earlier
transactions. -/
structure LogHeader where
  n : Nat := 0
  block : Nat → Nat := fun _ => 0

/-- Where the superblock puts the log: the header block and `size - 1` log blocks. -/
structure Layout where
  start : Nat
  size : Nat
  room : 0 < size

/-- The log block for entry `tail`. -/
def Layout.slot (layout : Layout) (tail : Nat) : Nat := layout.start + tail + 1

/-- A block outside of the log area. -/
def Layout.Home (layout : Layout) (blockno : Nat) : Prop :=
  blockno < layout.start ∨ layout.start + layout.size ≤ blockno

instance (layout : Layout) (blockno : Nat) : Decidable (layout.Home blockno) :=
  inferInstanceAs (Decidable (_ ∨ _))

/-- A valid buffer and its `B_DIRTY` flag. -/
structure Buf where
  data : Block
  dirty : Bool

/-- Where the machine stops: the three panics of `log.c`, and a write behind the end of
`log.lh.block`, which C leaves undefined. -/
inductive Panic
  | tooBigTransaction
  | outsideTransaction
  | committing
  | overrun
  deriving DecidableEq

def Panic.message : Panic → Option String
  | .tooBigTransaction => some "too big a transaction"
  | .outsideTransaction => some "log_write outside of trans"
  | .committing => some "log.committing"
  | .overrun => none

/-- Who called `install_trans` and the `write_head` after it. -/
inductive Caller
  | commit
  | recovery
  deriving DecidableEq

/-- Where the committing process, or the process that boots, stands.  `commit` is
before the test of `log.lh.n`, `release` before `log.committing = 0`. -/
inductive Stage
  | idle
  | commit
  | writeLog (tail : Nat)
  | writeHead
  | installTrans (caller : Caller) (tail : Nat)
  | eraseHead (caller : Caller)
  | release
  | readHead
  | halted (panic : Panic)
  deriving DecidableEq

/-- Processes make calls: neither recovering nor stopped by a panic. -/
def Stage.running : Stage → Bool
  | .readHead | .installTrans .recovery _ | .eraseHead .recovery | .halted _ => false
  | _ => true

def Stage.stopped : Stage → Bool
  | .halted _ => true
  | _ => false

/-- The disk, and the memory that a crash loses.  `active` names the processes
between `begin_op` and `end_op`, `tested` those between the two steps of `log_write`. -/
structure Storage where
  disk : Nat → Block
  cache : Nat → Option Buf
  outstanding : Nat
  committing : Bool
  lh : LogHeader
  active : List Nat
  tested : List Nat
  stage : Stage

/-! ### Buffers -/

namespace Storage

/-- What `bread` returns. -/
def read (storage : Storage) (blockno : Nat) : Block :=
  match storage.cache blockno with
  | some buf => buf.data
  | none => storage.disk blockno

def dirty (storage : Storage) (blockno : Nat) : Bool :=
  (storage.cache blockno).any Buf.dirty

def setBuf (storage : Storage) (blockno : Nat) (buf : Option Buf) : Storage :=
  { storage with cache := update storage.cache blockno buf }

/-- `bread` and `brelse`. -/
def bread (storage : Storage) (blockno : Nat) : Storage :=
  storage.setBuf blockno (some ⟨storage.read blockno, storage.dirty blockno⟩)

/-- The buffer of `blockno` is filled with `data` and written to the disk. -/
def bwrite (storage : Storage) (blockno : Nat) (data : Block) : Storage :=
  { storage.setBuf blockno (some ⟨data, false⟩) with
    disk := update storage.disk blockno data }

/-- `bget` takes the buffer of `blockno` for another block. -/
def recycle (storage : Storage) (blockno : Nat) : Option Storage :=
  if storage.dirty blockno then none else some (storage.setBuf blockno none)

end Storage

/-! ### Headers -/

namespace LogHeader

/-- The block numbers in use. -/
def blocks (lh : LogHeader) : List Nat := (List.range lh.n).map lh.block

/-- The loop of `write_head` over a header block with contents `hb`. -/
def store (lh : LogHeader) (hb : Block) : Block := fun word =>
  if word.val = 0 then lh.n
  else if word.val ≤ lh.n then lh.block (word.val - 1)
  else hb word

/-- The loop of `read_head` over a header block with contents `hb`. -/
def load (lh : LogHeader) (hb : Block) : LogHeader where
  n := hb 0
  block := fun i => if i < hb 0 then hb (Fin.ofNat WORDS (i + 1)) else lh.block i

/-- The loop of `log_write`, with log absorption. -/
def record (lh : LogHeader) (blockno : Nat) : LogHeader :=
  let i := lh.blocks.findIdx (fun logged => logged == blockno)
  { n := if i = lh.n then lh.n + 1 else lh.n
    block := update lh.block i blockno }

end LogHeader

/-! ### The functions of `log.c` -/

namespace Storage

def panic (storage : Storage) (panic : Panic) : Storage :=
  { storage with stage := .halted panic }

def setStage (storage : Storage) (stage : Stage) : Storage :=
  { storage with stage := stage }

/-- The state in which `initlog` calls `recover_from_log`. -/
def boot (disk : Nat → Block) : Storage where
  disk := disk
  cache := fun _ => none
  outstanding := 0
  committing := false
  lh := {}
  active := []
  tested := []
  stage := .readHead

variable (layout : Layout)

def readHead (storage : Storage) : Storage :=
  { storage.bread layout.start with
    lh := storage.lh.load (storage.read layout.start) }

def writeHead (storage : Storage) : Storage :=
  storage.bwrite layout.start (storage.lh.store (storage.read layout.start))

/-- One iteration of `write_log`. -/
def writeLog (storage : Storage) (tail : Nat) : Storage :=
  (storage.bread (storage.lh.block tail)).bwrite (layout.slot tail)
    (storage.read (storage.lh.block tail))

/-- One iteration of `install_trans`. -/
def installTrans (storage : Storage) (tail : Nat) : Storage :=
  (storage.bread (layout.slot tail)).bwrite (storage.lh.block tail)
    (storage.read (layout.slot tail))

/-- `begin_op`; `none` where it sleeps. -/
def beginOp (storage : Storage) : Option Storage :=
  if storage.committing then none
  else if storage.lh.n + (storage.outstanding + 1) * MAXOPBLOCKS > LOGSIZE then none
  else some { storage with outstanding := storage.outstanding + 1 }

/-- The part of `end_op` before `commit`. -/
def endOp (storage : Storage) : Storage :=
  let ended := { storage with outstanding := storage.outstanding - 1 }
  if ended.committing then ended.panic .committing
  else if ended.outstanding = 0 then
    { ended with committing := true, stage := .commit }
  else ended

/-- The tests of `log_write`, which read the log without its lock. -/
def logTest (storage : Storage) (p : Nat) : Storage :=
  if storage.lh.n ≥ LOGSIZE ∨ storage.lh.n ≥ layout.size - 1 then
    storage.panic .tooBigTransaction
  else if storage.outstanding < 1 then storage.panic .outsideTransaction
  else { storage with tested := p :: storage.tested }

/-- The part of `log_write` under `log.lock`, for a buffer that the caller has filled with
`data`. -/
def logWrite (storage : Storage) (blockno : Nat) (data : Block) : Storage :=
  if blockno ∉ storage.lh.blocks ∧ storage.lh.n ≥ LOGSIZE then storage.panic .overrun
  else
    { storage.setBuf blockno (some ⟨data, true⟩) with lh := storage.lh.record blockno }

/-- The next step of `commit`, of the end of `end_op`, or of `recover_from_log`. -/
def advance (storage : Storage) : Option Storage :=
  match storage.stage with
  | .idle | .halted _ => none
  | .commit =>
    if storage.lh.n > 0 then some (storage.setStage (.writeLog 0))
    else some (storage.setStage .release)
  | .writeLog tail =>
    if tail < storage.lh.n then
      some ((storage.writeLog layout tail).setStage (.writeLog (tail + 1)))
    else some (storage.setStage .writeHead)
  | .writeHead => some ((storage.writeHead layout).setStage (.installTrans .commit 0))
  | .installTrans caller tail =>
    if tail < storage.lh.n then
      some ((storage.installTrans layout tail).setStage (.installTrans caller (tail + 1)))
    else
      some { storage with lh.n := 0, stage := .eraseHead caller }
  | .eraseHead .commit => some ((storage.writeHead layout).setStage .release)
  | .eraseHead .recovery => some ((storage.writeHead layout).setStage .idle)
  | .release => some { storage with committing := false, stage := .idle }
  | .readHead => some ((storage.readHead layout).setStage (.installTrans .recovery 0))

end Storage

/-! ### Runs -/

/-- What can happen next; `p` is the calling process. -/
inductive Event
  | beginOp (p : Nat)
  | logTest (p : Nat)
  | logWrite (p blockno : Nat) (data : Block)
  | endOp (p : Nat)
  | advance
  | bread (blockno : Nat)
  | recycle (blockno : Nat)
  | crash

/-- A process calls `log_write` and `end_op` only inside an operation, and never
logs a block of the log area. -/
def Storage.step (layout : Layout) (storage : Storage) : Event → Option Storage
  | .beginOp p =>
    if storage.stage.running ∧ p ∉ storage.active then
      storage.beginOp.map (fun begun => { begun with active := p :: storage.active })
    else none
  | .logTest p =>
    if storage.stage.running ∧ p ∈ storage.active ∧ p ∉ storage.tested then
      some (storage.logTest layout p)
    else none
  | .logWrite p blockno data =>
    if storage.stage.running ∧ p ∈ storage.active ∧ p ∈ storage.tested ∧
        layout.Home blockno then
      some { storage.logWrite blockno data with tested := storage.tested.erase p }
    else none
  | .endOp p =>
    if storage.stage.running ∧ p ∈ storage.active ∧ p ∉ storage.tested then
      some { storage.endOp with active := storage.active.erase p }
    else none
  | .advance => storage.advance layout
  | .bread blockno =>
    if storage.stage.stopped then none else some (storage.bread blockno)
  | .recycle blockno =>
    if storage.stage.stopped then none else storage.recycle blockno
  | .crash => some (Storage.boot storage.disk)

/-- A disk as `mkfs` leaves it: the log is empty. -/
structure Image (layout : Layout) where
  disk : Nat → Block
  empty : disk layout.start 0 = 0

/-- The first boot from an image and everything after it. -/
def machine {layout : Layout} (image : Image layout) : Machine Storage Event where
  start := Storage.boot image.disk
  step := Storage.step layout

end Xv6.Log
