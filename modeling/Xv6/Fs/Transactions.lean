/-
The log under the block layer.

`log_write` panics when the transaction has become too big; it tests that before it looks
whether the block is in the log already.  The functions on the way from `writei` down to
`balloc` are given here with their calls of `log_write`.  As long as the log has room they do
what they do without it, and the number of blocks that each of them adds is bounded.
-/

import Xv6.Fs.Blocks
import Xv6.Log.Model

namespace Xv6.Fs.Logged

open Library Library.Code
open Log (LOGSIZE)

/-- A locked inode and the blocks in the header of the log, during a transaction. -/
structure State where
  locked : Locked
  blocks : List Nat

abbrev Op := Code Stop State

variable {Value Result : Type}

/-- Code that logs nothing. -/
def lift (op : Fs.Op Value) : Op Value := fun t =>
  match op t.locked with
  | .ok (value, locked) => .ok (value, { t with locked })
  | .error cause => .error cause

section Operations

variable (sb : Superblock)

/-- So many blocks fit into a transaction. -/
def room : Nat := min LOGSIZE (sb.nlog - 1)

def logWrite (b : Nat) : Op Unit := fun t =>
  if LOGSIZE ≤ t.blocks.length ∨ sb.nlog - 1 ≤ t.blocks.length then
    .error (.panic .tooBigTransaction)
  else if b ∈ t.blocks then .ok ((), t)
  else .ok ((), { t with blocks := t.blocks ++ [b] })

/-- The second call is that of `bzero`. -/
def balloc : Op Nat := do
  let b ← lift (Fs.balloc sb)
  logWrite sb (Disk.bitmapBlock sb b)
  logWrite sb b
  pure b

def addrOrAlloc (i : Fin (NDIRECT + 1)) : Op Nat := do
  let s ← lift get
  if s.ip.addrs i = 0 then
    let addr ← balloc sb
    lift (modify fun s => s.setAddr i addr)
    pure addr
  else pure (s.ip.addrs i)

def entryOrAlloc (b j : Nat) : Op Nat := do
  let s ← lift get
  if s.disk.entry b j = 0 then
    let addr ← balloc sb
    lift (modify fun s => { s with disk := s.disk.setEntry b j addr })
    logWrite sb b
    pure addr
  else pure (s.disk.entry b j)

def bmap (bn : Nat) : Op Nat :=
  if direct : bn < NDIRECT then addrOrAlloc sb ⟨bn, Nat.lt_succ_of_lt direct⟩
  else if bn - NDIRECT < NINDIRECT then do
    let addr ← addrOrAlloc sb Locked.indirect
    entryOrAlloc sb addr (bn - NDIRECT)
  else lift (Code.stop (.panic .bmapOutOfRange))

def iupdate (inum : Nat) : Op Unit := do
  lift (Fs.iupdate sb inum)
  logWrite sb (Disk.inodeBlock sb inum)

def writeBlocks : Nat → Nat → List UInt8 → Op Nat
  | 0, off, _ => pure off
  | fuel + 1, off, src =>
    if src = [] then pure off
    else do
      let addr ← bmap sb (off / BSIZE)
      let m := min src.length (BSIZE - off % BSIZE)
      lift (modify fun s => { s with
        disk := s.disk.setBlock addr ((s.disk addr).patch (off % BSIZE) (src.take m)) })
      logWrite sb addr
      writeBlocks fuel (off + m) (src.drop m)

def writei (devsw : Devsw) (inum off : Nat) (src : List UInt8) : Op Int := do
  let s ← lift get
  let n := src.length
  if s.ip.type = T_DEV then
    if NDEV ≤ s.ip.major then pure (-1)
    else
      match devsw.write s.ip.major with
      | none => pure (-1)
      | some write => pure (write src)
  else if s.ip.size < off ∨ (off + n) % 2 ^ 32 < off then pure (-1)
  else if MAXFILE * BSIZE < (off + n) % 2 ^ 32 then pure (-1)
  else
    let off ← writeBlocks sb n off src
    let s ← lift get
    if 0 < n ∧ s.ip.size < off then
      lift (modify fun s => { s with ip := { s.ip with size := off } })
      iupdate sb inum
    pure (n : Int)

end Operations

/-- The code does what it does without the log and adds at most `count` blocks, unless the log
has no room for so many. -/
def Adds (sb : Superblock) (count : Nat) (logged : Op Value) (plain : Fs.Op Value) : Prop :=
  ∀ t, (∃ value locked blocks, plain t.locked = .ok (value, locked) ∧
      logged t = .ok (value, ⟨locked, blocks⟩) ∧ blocks.length ≤ t.blocks.length + count) ∨
    (∃ cause, plain t.locked = .error cause ∧ logged t = .error cause) ∨
    (logged t = .error (.panic .tooBigTransaction) ∧ room sb < t.blocks.length + count)

variable {sb : Superblock} {logged : Op Value} {plain : Fs.Op Value} {count more : Nat}

theorem Adds.mono (adds : Adds sb count logged plain) (le : count ≤ more) :
    Adds sb more logged plain := by
  intro t
  rcases adds t with ⟨value, locked, blocks, ran, done, few⟩ | same | ⟨stopped, short⟩
  · exact Or.inl ⟨value, locked, blocks, ran, done, by omega⟩
  · exact Or.inr (Or.inl same)
  · exact Or.inr (Or.inr ⟨stopped, by omega⟩)

theorem Adds.lift (op : Fs.Op Value) : Adds sb 0 (lift op) op := by
  intro t
  unfold Logged.lift
  cases ran : op t.locked with
  | ok pair => exact Or.inl ⟨pair.1, pair.2, t.blocks, rfl, rfl, Nat.le_refl _⟩
  | error cause => exact Or.inr (Or.inl ⟨cause, rfl, rfl⟩)

theorem Adds.pure (value : Value) : Adds sb 0 (pure value) (pure value) :=
  fun t => Or.inl ⟨value, t.locked, t.blocks, rfl, rfl, Nat.le_refl _⟩

theorem Adds.logWrite (b : Nat) : Adds sb 1 (logWrite sb b) (Pure.pure ()) := by
  intro t
  unfold Logged.logWrite
  split
  · refine Or.inr (Or.inr ⟨rfl, ?_⟩)
    unfold room
    omega
  · split
    · exact Or.inl ⟨(), t.locked, t.blocks, rfl, rfl, Nat.le_succ _⟩
    · refine Or.inl ⟨(), t.locked, t.blocks ++ [b], rfl, rfl, ?_⟩
      rw [List.length_append]
      exact Nat.le_refl _

theorem Adds.bind {rest : Value → Op Result} {plainRest : Value → Fs.Op Result}
    (first : Adds sb count logged plain) (second : ∀ value, Adds sb more (rest value) (plainRest value)) :
    Adds sb (count + more) (logged >>= rest) (plain >>= plainRest) := by
  intro t
  rcases first t with ⟨value, locked, blocks, ran, done, few⟩ | ⟨cause, ran, stopped⟩ |
    ⟨stopped, short⟩
  · rw [bind_ok ran, bind_ok done]
    rcases second value ⟨locked, blocks⟩ with ⟨value', locked', blocks', ran', done', few'⟩ | same |
      ⟨stopped, short⟩
    · exact Or.inl ⟨value', locked', blocks', ran', done', by dsimp only at few'; omega⟩
    · exact Or.inr (Or.inl same)
    · exact Or.inr (Or.inr ⟨stopped, by dsimp only at short; omega⟩)
  · exact Or.inr (Or.inl ⟨cause, bind_error ran, bind_error stopped⟩)
  · exact Or.inr (Or.inr ⟨bind_error stopped, by omega⟩)

theorem Adds.after (op : Fs.Op Value) {rest : Value → Op Result}
    {plainRest : Value → Fs.Op Result} (second : ∀ value, Adds sb more (rest value) (plainRest value)) :
    Adds sb more (Logged.lift op >>= rest) (op >>= plainRest) := by
  have both := (Adds.lift op).bind second
  rwa [Nat.zero_add] at both

/-- The number of blocks with a byte of the range. -/
def touched (off n : Nat) : Nat :=
  if n = 0 then 0 else (off + n - 1) / BSIZE - off / BSIZE + 1

end Xv6.Fs.Logged
