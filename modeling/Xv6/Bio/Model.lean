/-
The buffer cache of `bio.c`.

A use is what one process does with one buffer, from the call of `bread` to the return of
`brelse`; a process that works with several buffers at once has several uses.  Steps are
the sections under `bcache.lock`, taking and giving up a buffer's sleep lock, the
completion of a disk request by `ideintr`, and the changes that the holder of a buffer
makes; the steps of different uses interleave freely.  A step that would panic is not
enabled, nor is `brelse` of a buffer that was changed and neither logged nor written.
Reference counts do not overflow: the process table has far fewer entries.
-/

import Mathlib.Tactic
import Xv6.Library.LinkedRing
import Xv6.Library.Machine

namespace Xv6.Bio

open Function Library

abbrev NBUF : Nat := 30

abbrev BSIZE : Nat := 512

abbrev ROOTDEV : Nat := 1

abbrev Block : Type := Fin BSIZE → UInt8

/-- `struct buf`, with the holder of its sleep lock; `valid` and `dirty` are the bits
`B_VALID` and `B_DIRTY` of `flags`. -/
structure Buf where
  valid : Bool := false
  dirty : Bool := false
  dev : Nat := 0
  blockno : Nat := 0
  lock : Option Nat := none
  refcnt : Nat := 0
  data : Block := fun _ => 0

/-- Where a use of a buffer for block `blockno` stands.  `locking` is before
`acquiresleep`, `loading` and `writing` are in `iderw`, `unlocked` is in `brelse` after
`releasesleep`.  A holder remembers whether it has `changed` the data since it last called
`log_write` or `bwrite`. -/
inductive Use
  | idle
  | locking (b : Fin NBUF) (blockno : Nat)
  | loading (b : Fin NBUF) (blockno : Nat)
  | holding (b : Fin NBUF) (blockno : Nat) (changed : Bool)
  | writing (b : Fin NBUF) (blockno : Nat)
  | unlocked (b : Fin NBUF) (blockno : Nat)
  deriving DecidableEq

/-- `bcache`, the blocks of device `ROOTDEV`, and the uses under way. -/
structure Cache where
  buf : Fin NBUF → Buf
  links : Links (Fin NBUF)
  disk : Nat → Block
  use : Nat → Use

/-- The loop of `binit`. -/
def binit : Links (Fin NBUF) := (List.finRange NBUF).foldl Links.linkFront Links.empty

namespace Cache

def setBuf (cache : Cache) (b : Fin NBUF) (buf : Buf) : Cache :=
  { cache with buf := update cache.buf b buf }

def setUse (cache : Cache) (u : Nat) (use : Use) : Cache :=
  { cache with use := update cache.use u use }

/-- The test of the first loop of `bget`. -/
def holds (cache : Cache) (dev blockno : Nat) (b : Fin NBUF) : Bool :=
  (cache.buf b).dev == dev && (cache.buf b).blockno == blockno

/-- The test of the second loop of `bget`. -/
def unused (cache : Cache) (b : Fin NBUF) : Bool :=
  (cache.buf b).refcnt == 0 && !(cache.buf b).dirty

/-- `b` is given to another block. -/
def recycle (cache : Cache) (b : Fin NBUF) (dev blockno : Nat) : Cache :=
  cache.setBuf b { cache.buf b with
    dev := dev, blockno := blockno, valid := false, dirty := false, refcnt := 1 }

/-- `bget` up to the release of `bcache.lock`. -/
def bget (cache : Cache) (u dev blockno : Nat) : Option Cache :=
  match cache.links.walk (cache.holds dev blockno) (NBUF + 1) (cache.links.next none) with
  | .found b =>
    some ((cache.setBuf b { cache.buf b with refcnt := (cache.buf b).refcnt + 1 }).setUse u
      (.locking b blockno))
  | .absent =>
    match cache.links.reverse.walk cache.unused (NBUF + 1) (cache.links.prev none) with
    | .found b => some ((cache.recycle b dev blockno).setUse u (.locking b blockno))
    | _ => none
  | .stuck => none

/-- `acquiresleep`, and the test of `B_VALID` in `bread`. -/
def acquiresleep (cache : Cache) (u : Nat) (b : Fin NBUF) (blockno : Nat) : Option Cache :=
  if (cache.buf b).lock = none then
    some ((cache.setBuf b { cache.buf b with lock := some u }).setUse u
      (if (cache.buf b).valid then .holding b blockno false else .loading b blockno))
  else none

/-- `ideintr` for the request of buffer `b`: a dirty buffer is written, another one is
read. -/
def ideintr (cache : Cache) (b : Fin NBUF) : Cache :=
  if (cache.buf b).dirty then
    { cache.setBuf b { cache.buf b with valid := true, dirty := false } with
      disk := update cache.disk (cache.buf b).blockno (cache.buf b).data }
  else
    cache.setBuf b { cache.buf b with
      valid := true, data := cache.disk (cache.buf b).blockno }

/-- The section of `brelse` under `bcache.lock`. -/
def unref (cache : Cache) (b : Fin NBUF) : Cache :=
  let refcnt := (cache.buf b).refcnt - 1
  { cache.setBuf b { cache.buf b with refcnt := refcnt } with
    links := if refcnt = 0 then (cache.links.unlink b).linkFront b else cache.links }

end Cache

/-- Use `u` calls `bread` for a block, gets the buffer's lock, sees its disk request
completed, changes the data, calls `log_write`, `bwrite` or `brelse`, or finishes
`brelse`. -/
inductive Event
  | bread (u blockno : Nat)
  | lock (u : Nat)
  | complete (u : Nat)
  | modify (u : Nat) (data : Block)
  | logWrite (u : Nat)
  | bwrite (u : Nat)
  | brelse (u : Nat)
  | unref (u : Nat)

namespace Cache

def step (cache : Cache) : Event → Option Cache
  | .bread u blockno =>
    match cache.use u with
    | .idle => cache.bget u ROOTDEV blockno
    | _ => none
  | .lock u =>
    match cache.use u with
    | .locking b blockno => cache.acquiresleep u b blockno
    | _ => none
  | .complete u =>
    match cache.use u with
    | .loading b blockno | .writing b blockno =>
      some ((cache.ideintr b).setUse u (.holding b blockno false))
    | _ => none
  | .modify u data =>
    match cache.use u with
    | .holding b blockno _ =>
      some ((cache.setBuf b { cache.buf b with data := data }).setUse u
        (.holding b blockno true))
    | _ => none
  | .logWrite u =>
    match cache.use u with
    | .holding b blockno _ =>
      some ((cache.setBuf b { cache.buf b with dirty := true }).setUse u
        (.holding b blockno false))
    | _ => none
  | .bwrite u =>
    match cache.use u with
    | .holding b blockno _ =>
      if (cache.buf b).lock = some u then
        some ((cache.setBuf b { cache.buf b with dirty := true }).setUse u
          (.writing b blockno))
      else none
    | _ => none
  | .brelse u =>
    match cache.use u with
    | .holding b blockno false =>
      if (cache.buf b).lock = some u then
        some ((cache.setBuf b { cache.buf b with lock := none }).setUse u
          (.unlocked b blockno))
      else none
    | _ => none
  | .unref u =>
    match cache.use u with
    | .unlocked b _ => some ((cache.unref b).setUse u .idle)
    | _ => none

end Cache

/-- The cache after `binit`. -/
def machine (disk : Nat → Block) : Machine Cache Event where
  start := { buf := fun _ => {}, links := binit, disk := disk, use := fun _ => .idle }
  step := Cache.step

end Xv6.Bio
