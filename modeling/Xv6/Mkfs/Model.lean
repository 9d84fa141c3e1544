/-
`mkfs.c`, which writes the first image of the file system.

The image is a file with a length in sectors: writing behind its end extends it, reading
behind its end fails.  An input file is given by its name and by what the calls of `read`
return for it, one piece after the other.  The host is assumed to have the byte order of the
x86, where `xint` and `xshort` change nothing.
-/

import Mathlib.Tactic
import Xv6.Fs.Blocks

namespace Xv6.Mkfs

open Library Fs

abbrev NINODES : Nat := 200

abbrev FSSIZE : Nat := 1000

abbrev LOGSIZE : Nat := 10 * 3

def nbitmap : Nat := FSSIZE / (BSIZE * 8) + 1

def ninodeblocks : Nat := NINODES / IPB + 1

def nlog : Nat := LOGSIZE

def nmeta : Nat := 2 + nlog + ninodeblocks + nbitmap

def sb : Superblock where
  size := FSSIZE
  nblocks := FSSIZE - nmeta
  ninodes := NINODES
  nlog := nlog
  logstart := 2
  inodestart := 2 + nlog
  bmapstart := 2 + nlog + ninodeblocks

/-- Why `mkfs` may not finish: the failed `read` of `rsect`, and its assertions. -/
inductive Failure
  | read
  | rootino
  | slash
  | maxfile
  | used
  deriving DecidableEq

structure State where
  image : Disk := fun _ _ => 0
  sectors : Nat := 0
  freeinode : Nat := 1
  freeblock : Nat := 0

abbrev Run := Code Failure State

def require (condition : Prop) [Decidable condition] (failure : Failure) : Run Unit :=
  if condition then pure () else Code.stop failure

def wsect (sec : Nat) (buf : Area) : Run Unit :=
  modify (fun st => { st with
    image := st.image.setBlock sec buf
    sectors := max st.sectors (sec + 1) })

def rsect (sec : Nat) : Run Area := fun st =>
  if sec < st.sectors then .ok (st.image sec, st) else .error .read

def winode (inum : Nat) (ip : Dinode) : Run Unit := do
  let buf ← rsect (Disk.inodeBlock sb inum)
  wsect (Disk.inodeBlock sb inum) (buf.setRecord 64 (inum % IPB) ip.bytes)

def rinode (inum : Nat) : Run Dinode := do
  let buf ← rsect (Disk.inodeBlock sb inum)
  pure (.ofRecord (buf.record 64 (inum % IPB)))

/-- `freeblock++`. -/
def nextBlock : Run Nat := fun st =>
  .ok (st.freeblock, { st with freeblock := st.freeblock + 1 })

def ialloc (type : Nat) : Run Nat := do
  let st ← get
  set { st with freeinode := st.freeinode + 1 }
  winode st.freeinode { type := type, nlink := 1 }
  pure st.freeinode

/-- The free map in which the first blocks are used. -/
def bitmap (used : Nat) : Area :=
  (List.range used).foldl (fun buf i => buf.setBit i) (fun _ => 0)

def balloc (used : Nat) : Run Unit := do
  require (used < BSIZE * 8) .used
  wsect sb.bmapstart (bitmap used)

/-- `if(din.addrs[i] == 0) din.addrs[i] = freeblock++`. -/
def mapAddr (din : Dinode) (i : Fin (NDIRECT + 1)) : Run Dinode :=
  if din.addrs i = 0 then do
    let x ← nextBlock
    pure { din with addrs := Function.update din.addrs i x }
  else pure din

/-- The same for an entry of the indirect block, which is returned. -/
def mapEntry (b j : Nat) : Run Nat := do
  let indirect ← rsect b
  if ofBytes (indirect.record 4 j) = 0 then
    let x ← nextBlock
    wsect b (indirect.setRecord 4 j (toBytes 4 x))
    pure x
  else pure (ofBytes (indirect.record 4 j))

/-- The part of `iappend` that finds or allocates block `fbn` of the inode in `din`. -/
def mapBlock (din : Dinode) (fbn : Nat) : Run (Nat × Dinode) :=
  if direct : fbn < NDIRECT then do
    let din ← mapAddr din ⟨fbn, Nat.lt_succ_of_lt direct⟩
    pure (din.addrs ⟨fbn, Nat.lt_succ_of_lt direct⟩, din)
  else do
    let din ← mapAddr din Locked.indirect
    let x ← mapEntry (din.addrs Locked.indirect) (fbn - NDIRECT)
    pure (x, din)

/-- The loop of `iappend`. -/
def appendBlocks : Nat → Dinode → Nat → List UInt8 → Run (Nat × Dinode)
  | 0, din, off, _ => pure (off, din)
  | fuel + 1, din, off, p =>
    if p = [] then pure (off, din)
    else do
      let fbn := off / BSIZE
      require (fbn < MAXFILE) .maxfile
      let (x, din) ← mapBlock din fbn
      let n1 := min p.length ((fbn + 1) * BSIZE - off)
      let buf ← rsect x
      wsect x (buf.patch (off - fbn * BSIZE) (p.take n1))
      appendBlocks fuel din (off + n1) (p.drop n1)

def iappend (inum : Nat) (p : List UInt8) : Run Unit := do
  let din ← rinode inum
  let (off, din) ← appendBlocks p.length din din.size p
  winode inum { din with size := off }

/-- An input file: `name` is the argument, without its NUL, and `reads` is what the calls of
`read` return before the one that returns 0. -/
structure InputFile where
  name : List UInt8
  terminated : ∀ c ∈ name, c ≠ 0
  reads : List (List UInt8)
  pieces : ∀ piece ∈ reads, piece ≠ [] ∧ piece.length ≤ BSIZE

namespace InputFile

def content (file : InputFile) : List UInt8 := file.reads.flatten

def slash : UInt8 := 47

def underscore : UInt8 := 95

/-- The name without a leading underscore. -/
def plainName (file : InputFile) : List UInt8 :=
  if file.name.head? = some underscore then file.name.tail else file.name

end InputFile

/-- `while((cc = read(fd, buf, sizeof(buf))) > 0) iappend(inum, buf, cc)`. -/
def appendReads (inum : Nat) : List (List UInt8) → Run Unit
  | [] => pure ()
  | piece :: rest => do
    iappend inum piece
    appendReads inum rest

def addFile (rootino : Nat) (file : InputFile) : Run Unit := do
  require (InputFile.slash ∉ file.name) .slash
  let inum ← ialloc T_FILE
  iappend rootino (Dirent.bytes ⟨inum, file.plainName⟩)
  appendReads inum file.reads

def addFiles (rootino : Nat) : List InputFile → Run Unit
  | [] => pure ()
  | file :: rest => do
    addFile rootino file
    addFiles rootino rest

/-- `for(i = 0; i < FSSIZE; i++) wsect(i, zeroes)`. -/
def writeZeroes : List Nat → Run Unit
  | [] => pure ()
  | i :: rest => do
    wsect i (fun _ => 0)
    writeZeroes rest

/-- From the zeroed sectors to the root directory with its entries for itself.  Nobody wants to
see the 1000 sectors written one by one. -/
@[irreducible]
def writeRoot : Run Nat := do
  modify (fun st => { st with freeblock := nmeta })
  writeZeroes (List.range FSSIZE)
  wsect 1 (Area.patch (fun _ => 0) 0 sb.bytes)
  let rootino ← ialloc T_DIR
  require (rootino = ROOTINO) .rootino
  iappend rootino (Dirent.bytes ⟨rootino, [46]⟩)
  iappend rootino (Dirent.bytes ⟨rootino, [46, 46]⟩)
  pure rootino

/-- The end of `main`: the size of the root directory is fixed and the free map written. -/
def finish (rootino : Nat) : Run Unit := do
  let din ← rinode rootino
  winode rootino { din with size := (din.size / BSIZE + 1) * BSIZE }
  let st ← get
  balloc st.freeblock

def main (files : List InputFile) : Run Unit := do
  let rootino ← writeRoot
  addFiles rootino files
  finish rootino

end Xv6.Mkfs
