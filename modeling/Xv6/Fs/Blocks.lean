/-
The block layer of `fs.c`: `balloc`, `bfree`, `bmap`, `itrunc`, `iupdate`, `readi` and
`writei`.

All of them run with one inode locked; the state is the disk and this inode.  The disk is
what `bread` returns, so that the buffers and the log are looked through: a block has the
bytes that were last logged.  There is one device with inodes.  What the functions in
`devsw` do is left open.
-/

import Mathlib.Tactic
import Xv6.Fs.Format
import Xv6.Library.Panics

namespace Xv6.Fs

open Library

abbrev NDEV : Nat := 10

/-- The panics of `fs.c`, and that of `log_write` in a transaction that has become too big. -/
inductive Panic
  | ballocOutOfBlocks
  | freeingFreeBlock
  | igetNoInodes
  | ilock
  | ilockNoType
  | iunlock
  | bmapOutOfRange
  | dirlookupNotDir
  | dirlookupRead
  | tooBigTransaction
  deriving DecidableEq

def Panic.message : Panic → String
  | .ballocOutOfBlocks => "balloc: out of blocks"
  | .freeingFreeBlock => "freeing free block"
  | .igetNoInodes => "iget: no inodes"
  | .ilock => "ilock"
  | .ilockNoType => "ilock: no type"
  | .iunlock => "iunlock"
  | .bmapOutOfRange => "bmap: out of range"
  | .dirlookupNotDir => "dirlookup not DIR"
  | .dirlookupRead => "dirlookup read"
  | .tooBigTransaction => "too big a transaction"

/-- Why a call does not return: a panic, a sleep-lock that nobody else will release, or a null
pointer. -/
inductive Stop
  | panic (cause : Panic)
  | asleep
  | fault
  deriving DecidableEq

/-- `devsw`: what a device read returns for a count, and what a device write returns. -/
structure Devsw where
  read : Nat → Option (Nat → Int × List UInt8) := fun _ => none
  write : Nat → Option (List UInt8 → Int) := fun _ => none

structure Locked where
  disk : Disk
  ip : Dinode

/-- Code that runs with an inode locked. -/
abbrev Op := Code Stop Locked

namespace Locked

def setAddr (s : Locked) (i : Fin (NDIRECT + 1)) (addr : Nat) : Locked :=
  { s with ip := { s.ip with addrs := Function.update s.ip.addrs i addr } }

/-- The pointer to the indirect block. -/
def indirect : Fin (NDIRECT + 1) := Fin.last NDIRECT

end Locked

section Operations

variable (sb : Superblock)

/-- The two loops visit the block numbers in order; the block is then zeroed by `bzero`. -/
def balloc : Op Nat := fun s =>
  match (List.range sb.size).find? (fun b => !s.disk.used sb b) with
  | none => .error (.panic .ballocOutOfBlocks)
  | some b => .ok (b, { s with disk := (s.disk.setUsed sb b).setBlock b (fun _ => 0) })

def bfree (b : Nat) : Op Unit := fun s =>
  if s.disk.used sb b then .ok ((), { s with disk := s.disk.clearUsed sb b })
  else .error (.panic .freeingFreeBlock)

/-- `if((addr = ip->addrs[i]) == 0) ip->addrs[i] = addr = balloc(ip->dev)`. -/
def addrOrAlloc (i : Fin (NDIRECT + 1)) : Op Nat := do
  let s ← get
  if s.ip.addrs i = 0 then
    let addr ← balloc sb
    modify (fun s => s.setAddr i addr)
    pure addr
  else pure (s.ip.addrs i)

/-- The same for an entry of the indirect block. -/
def entryOrAlloc (b j : Nat) : Op Nat := do
  let s ← get
  if s.disk.entry b j = 0 then
    let addr ← balloc sb
    modify (fun s => { s with disk := s.disk.setEntry b j addr })
    pure addr
  else pure (s.disk.entry b j)

def bmap (bn : Nat) : Op Nat :=
  if direct : bn < NDIRECT then addrOrAlloc sb ⟨bn, Nat.lt_succ_of_lt direct⟩
  else if bn - NDIRECT < NINDIRECT then do
    let addr ← addrOrAlloc sb Locked.indirect
    entryOrAlloc sb addr (bn - NDIRECT)
  else Code.stop (.panic .bmapOutOfRange)

/-- `iupdate` copies the inode to its place on the disk. -/
def iupdate (inum : Nat) : Op Unit :=
  modify (fun s => { s with disk := s.disk.setDinode sb inum s.ip })

/-- The first loop of `itrunc`. -/
def freeDirect : List (Fin (NDIRECT + 1)) → Op Unit
  | [] => pure ()
  | i :: rest => do
    let s ← get
    if s.ip.addrs i ≠ 0 then
      bfree sb (s.ip.addrs i)
      modify (fun s => s.setAddr i 0)
      freeDirect rest
    else freeDirect rest

/-- The loop over the entries of the indirect block. -/
def freeEntries (b : Nat) : List Nat → Op Unit
  | [] => pure ()
  | j :: rest => do
    let s ← get
    if s.disk.entry b j ≠ 0 then
      bfree sb (s.disk.entry b j)
      freeEntries b rest
    else freeEntries b rest

def itrunc (inum : Nat) : Op Unit := do
  freeDirect sb ((List.finRange NDIRECT).map Fin.castSucc)
  let s ← get
  if s.ip.addrs Locked.indirect ≠ 0 then
    freeEntries sb (s.ip.addrs Locked.indirect) (List.range NINDIRECT)
    bfree sb (s.ip.addrs Locked.indirect)
    modify (fun s => s.setAddr Locked.indirect 0)
  modify (fun s => { s with ip := { s.ip with size := 0 } })
  iupdate sb inum

/-- The loop of `readi`; `left` is `n - tot`. -/
def readBlocks : Nat → Nat → Nat → Op (List UInt8)
  | 0, _, _ => pure []
  | fuel + 1, off, left =>
    if left = 0 then pure []
    else do
      let addr ← bmap sb (off / BSIZE)
      let s ← get
      let m := min left (BSIZE - off % BSIZE)
      let rest ← readBlocks fuel (off + m) (left - m)
      pure ((s.disk addr).slice (off % BSIZE) m ++ rest)

/-- Returns the return value and the bytes copied to `dst`. -/
def readi (devsw : Devsw) (off n : Nat) : Op (Int × List UInt8) := do
  let s ← get
  if s.ip.type = T_DEV then
    if NDEV ≤ s.ip.major then pure (-1, [])
    else
      match devsw.read s.ip.major with
      | none => pure (-1, [])
      | some read => pure (read n)
  else if s.ip.size < off ∨ (off + n) % 2 ^ 32 < off then pure (-1, [])
  else
    let count := if s.ip.size < (off + n) % 2 ^ 32 then s.ip.size - off else n
    let data ← readBlocks sb count off count
    pure ((count : Int), data)

/-- The loop of `writei`, which returns the offset behind the last byte. -/
def writeBlocks : Nat → Nat → List UInt8 → Op Nat
  | 0, off, _ => pure off
  | fuel + 1, off, src =>
    if src = [] then pure off
    else do
      let addr ← bmap sb (off / BSIZE)
      let m := min src.length (BSIZE - off % BSIZE)
      modify (fun s => { s with
        disk := s.disk.setBlock addr ((s.disk addr).patch (off % BSIZE) (src.take m)) })
      writeBlocks fuel (off + m) (src.drop m)

def writei (devsw : Devsw) (inum off : Nat) (src : List UInt8) : Op Int := do
  let s ← get
  let n := src.length
  if s.ip.type = T_DEV then
    if NDEV ≤ s.ip.major then pure (-1)
    else
      match devsw.write s.ip.major with
      | none => pure (-1)
      | some write => pure (write src)
  else if s.ip.size < off ∨ (off + n) % 2 ^ 32 < off then pure (-1)
  else if MAXFILE * BSIZE < (off + n) % 2 ^ 32 then pure (-1)
  else
    let off ← writeBlocks sb n off src
    let s ← get
    if 0 < n ∧ s.ip.size < off then
      modify (fun s => { s with ip := { s.ip with size := off } })
      iupdate sb inum
    pure (n : Int)

end Operations

end Xv6.Fs
