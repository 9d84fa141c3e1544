/-
The processes, the pipes and the system calls that allocate and free pages.

A call is one step.  The states between `EMBRYO` and `ZOMBIE` are not told apart: a
process that may make calls is `runnable`.  Of a pipe there are the two flags that decide
when its page is freed; inodes are left open, since they own no page.
-/

import Xv6.File.Table
import Xv6.Library.Machine
import Xv6.Memory.Model

namespace Xv6.Memory

open Function Library
open Files (FileType Table NOFILE NFILE)

/-! ### `main` before the first process -/

section Boot

variable (layout : Layout)

/-- `freerange` of `count` pages from page `n` on. -/
def freerange : Nat → Nat → Op Unit
  | 0, _ => pure ()
  | count + 1, n => do
    kfree layout n
    freerange count (n + 1)

/-- The last page that `entrypgdir` maps, and the first one that `kinit2` frees. -/
abbrev kinitPage : Nat := 1024

def kinit1 : Op Unit := freerange layout (kinitPage - layout.endPage) layout.endPage

def kinit2 : Op Unit := freerange layout (PHYSTOP / PGSIZE - kinitPage) kinitPage

/-- A null directory is not followed. -/
def kvmalloc : Op Nat := do
  match ← setupkvm layout with
  | none => panic .trap
  | some pgdir => pure pgdir

/-- The stacks of `count` further processors.  A null stack is not followed. -/
def startothers : Nat → Op (List Nat)
  | 0 => pure []
  | count + 1 => do
    match ← kalloc with
    | none => panic .trap
    | some stack => do
      let rest ← startothers count
      pure (stack :: rest)

/-- What `mappages` returns is not tested. -/
def inituvm (pgdir : Nat) (init : Nat → UInt8) (sz : Nat) : Op Unit :=
  if PGSIZE ≤ sz then panic .inituvm
  else do
    match ← kalloc with
    | none => panic .trap
    | some mem => do
      setPage mem zeroPage
      let _ ← mappages pgdir 0 PGSIZE mem (PTE_W ||| PTE_U)
      store layout mem 0 sz init

end Boot

/-! ### The kernel -/

structure Proc where
  state : ProcState
  pgdir : Nat
  kstack : Nat
  sz : Nat
  parent : Option (Fin NPROC)

structure Pipe where
  readopen : Bool
  writeopen : Bool

/-- The pipes are found by the pages that they are in; `cpuStacks` are those that
`startothers` has allocated. -/
structure Kernel (Inode : Type) where
  mem : Mem
  kpgdir : Nat
  cpuStacks : List Nat
  initproc : Fin NPROC
  proc : Fin NPROC → Proc
  pipe : Nat → Pipe
  files : Table Nat Inode

variable {Inode Value : Type}

abbrev Sys (Inode Value : Type) : Type := Code Stop (Kernel Inode) Value

namespace Kernel

def setProc (k : Kernel Inode) (p : Fin NPROC) (proc : Proc) : Kernel Inode :=
  { k with proc := update k.proc p proc }

end Kernel

def onMem (op : Op Value) : Sys Inode Value := fun k =>
  match op k.mem with
  | .error cause => .error cause
  | .ok (value, mem) => .ok (value, { k with mem := mem })

def onFiles (op : Table Nat Inode → Value × Table Nat Inode) : Sys Inode Value := fun k =>
  .ok ((op k.files).1, { k with files := (op k.files).2 })

def setFiles (files : Table Nat Inode) : Sys Inode Unit := fun k =>
  .ok ((), { k with files := files })

def setProc (p : Fin NPROC) (proc : Proc) : Sys Inode Unit := fun k =>
  .ok ((), k.setProc p proc)

def setPipe (n : Nat) (pipe : Pipe) : Sys Inode Unit := fun k =>
  .ok ((), { k with pipe := update k.pipe n pipe })

section Calls

variable (layout : Layout)

/-! ### `proc.c` -/

def allocproc : Sys Inode (Option (Fin NPROC)) := do
  let k ← get
  match slots.find? (fun p => (k.proc p).state = .unused) with
  | none => pure none
  | some p => do
    setProc p { k.proc p with state := .embryo }
    match ← onMem kalloc with
    | none => do
      setProc p { k.proc p with state := .unused, kstack := 0 }
      pure none
    | some kstack => do
      setProc p { k.proc p with state := .embryo, kstack := kstack }
      pure (some p)

/-- False is -1. -/
def growproc (p : Fin NPROC) (n : Int) : Sys Inode Bool := do
  let k ← get
  let proc := k.proc p
  let newsz := (((proc.sz : Int) + n) % (UINT : Int)).toNat
  if 0 < n then do
    let sz ← onMem (allocuvm layout proc.pgdir proc.sz newsz)
    if sz = 0 then pure false
    else do
      setProc p { proc with sz := sz }
      pure true
  else if n < 0 then do
    let sz ← onMem (deallocuvm layout proc.pgdir proc.sz newsz)
    if sz = 0 then pure false
    else do
      setProc p { proc with sz := sz }
      pure true
  else pure true

/-- `none` is -1; otherwise the child. -/
def fork (parent : Fin NPROC) : Sys Inode (Option (Fin NPROC)) := do
  match ← allocproc with
  | none => pure none
  | some np => do
    let k ← get
    match ← onMem (copyuvm layout (k.proc parent).pgdir (k.proc parent).sz) with
    | none => do
      onMem (kfree layout (k.proc np).kstack)
      setProc np { k.proc np with state := .unused, kstack := 0 }
      pure none
    | some pgdir => do
      let child : Proc :=
        { k.proc np with pgdir := pgdir, sz := (k.proc parent).sz, parent := some parent }
      setProc np child
      match k.files.dupFiles parent np (List.finRange NOFILE) with
      | none => Code.stop (.panic .filedup)
      | some files => do
        setFiles files
        setProc np { child with state := .runnable }
        pure (some np)

/-- The scan of `wait` for a child that has exited. -/
def findZombie (k : Kernel Inode) (p : Fin NPROC) : Option (Fin NPROC) :=
  slots.find? (fun q => (k.proc q).parent = some p ∧ (k.proc q).state = .zombie)

/-- `none` if no child has exited: then `wait` returns -1 or sleeps. -/
def wait (p : Fin NPROC) : Sys Inode (Option (Fin NPROC)) := do
  let k ← get
  match findZombie k p with
  | none => pure none
  | some q => do
    onMem (kfree layout (k.proc q).kstack)
    setProc q { k.proc q with kstack := 0 }
    onMem (freevm layout (k.proc q).pgdir)
    setProc q { k.proc q with kstack := 0, parent := none, state := .unused }
    pure (some q)

/-! ### `pipe.c` and `file.c` -/

/-- The wake-ups are left out. -/
def pipeclose (n : Nat) (writable : Bool) : Sys Inode Unit := do
  let k ← get
  let pipe := if writable then { k.pipe n with writeopen := false }
    else { k.pipe n with readopen := false }
  setPipe n pipe
  if pipe.readopen = false ∧ pipe.writeopen = false then onMem (kfree layout n)
  else pure ()

def fileclose (f : Fin NFILE) : Sys Inode Unit := do
  let k ← get
  match k.files.fileclose f with
  | none => Code.stop (.panic .fileclose)
  | some (released, files) => do
    setFiles files
    match released with
    | none => pure ()
    | some ff =>
      match ff.type with
      | .pipe n => pipeclose layout n ff.writable
      | _ => pure ()

/-- What `pipealloc` makes of its two files. -/
def linkPipe (files : Table Nat Inode) (f0 f1 : Fin NFILE) (n : Nat) : Table Nat Inode :=
  let read := files.setFile f0
    { files.file f0 with type := .pipe n, readable := true, writable := false }
  read.setFile f1 { read.file f1 with type := .pipe n, readable := false, writable := true }

def pipealloc : Sys Inode (Option (Fin NFILE × Fin NFILE)) := do
  match ← onFiles (·.filealloc) with
  | none => pure none
  | some f0 => do
    match ← onFiles (·.filealloc) with
    | none => do
      fileclose layout f0
      pure none
    | some f1 => do
      match ← onMem kalloc with
      | none => do
        fileclose layout f0
        fileclose layout f1
        pure none
      | some n => do
        setPipe n ⟨true, true⟩
        let k ← get
        setFiles (linkPipe k.files f0 f1 n)
        pure (some (f0, f1))

/-! ### System calls -/

/-- The test of `argptr`. -/
def inside (proc : Proc) (va size : Nat) : Bool :=
  decide (va < proc.sz) && decide (va + size ≤ proc.sz)

/-- The kernel stores `count` bytes at a user address. -/
def moveBytes (pgdir va : Nat) (source : Nat → UInt8) : Nat → Op Unit
  | 0 => pure ()
  | count + 1 => do
    moveBytes pgdir va source count
    match ← walkpgdir pgdir ((va + count) / PGSIZE) false with
    | none => panic .trap
    | some pgtab => do
      let pte ← getWord pgtab (PTX ((va + count) / PGSIZE))
      if present pte then
        store layout (pteAddr pte) ((va + count) % PGSIZE) 1 (fun _ => source count)
      else panic .trap

def sys_pipe (p : Fin NPROC) (va : Nat) : Sys Inode Bool := do
  let k ← get
  if inside (k.proc p) va 8 then do
    match ← pipealloc layout with
    | none => pure false
    | some (rf, wf) => do
      match ← onFiles (·.fdalloc p rf) with
      | none => do
        fileclose layout rf
        fileclose layout wf
        pure false
      | some fd0 => do
        match ← onFiles (·.fdalloc p wf) with
        | none => do
          let k ← get
          setFiles (k.files.setSlot p fd0 none)
          fileclose layout rf
          fileclose layout wf
          pure false
        | some fd1 => do
          onMem (moveBytes layout (k.proc p).pgdir va (wordBytes [fd0, fd1]) 8)
          pure true
  else pure false

def sys_close (p : Fin NPROC) (fd : Fin NOFILE) : Sys Inode Bool := do
  let k ← get
  match k.files.ofile (p, fd) with
  | none => pure false
  | some f => do
    setFiles (k.files.setSlot p fd none)
    fileclose layout f
    pure true

def sys_dup (p : Fin NPROC) (fd : Fin NOFILE) : Sys Inode (Option (Fin NOFILE)) := do
  let k ← get
  match k.files.ofile (p, fd) with
  | none => pure none
  | some f => do
    match ← onFiles (·.fdalloc p f) with
    | none => pure none
    | some new => do
      let k ← get
      match k.files.filedup f with
      | none => Code.stop (.panic .filedup)
      | some files => do
        setFiles files
        pure (some new)

/-- The part of `sys_open` after the inode has been found. -/
def sys_open (p : Fin NPROC) (ip : Inode) (readable writable : Bool) :
    Sys Inode (Option (Fin NOFILE)) := do
  match ← onFiles (·.filealloc) with
  | none => pure none
  | some f => do
    match ← onFiles (·.fdalloc p f) with
    | none => do
      fileclose layout f
      pure none
    | some fd => do
      let k ← get
      setFiles (k.files.setFile f { k.files.file f with
        type := .inode ip, readable := readable, writable := writable, off := 0 })
      pure (some fd)

/-- The arguments must lie in the memory of the process, and be fewer than `MAXARG`. -/
def sys_exec (p : Fin NPROC) (file : Option File) (argv : List Str) : Sys Inode Bool := do
  let k ← get
  if argv.length < MAXARG ∧ argv.all (fun arg => arg.len < (k.proc p).sz) then do
    match ← onMem (exec layout (loadNull (k.proc p).pgdir) file argv) with
    | none => pure false
    | some image => do
      setProc p { k.proc p with pgdir := image.pgdir, sz := image.sz }
      onMem (freevm layout (k.proc p).pgdir)
      pure true
  else pure false

/-- The times are those of the child; `wait` and `waitx` free it in the same way. -/
def sys_waitx (p : Fin NPROC) (wtimeAt rtimeAt wtime rtime : Nat) :
    Sys Inode (Option (Fin NPROC)) := do
  let k ← get
  if inside (k.proc p) wtimeAt 4 ∧ inside (k.proc p) rtimeAt 4 then do
    match ← wait layout p with
    | none => pure none
    | some q => do
      onMem (moveBytes layout (k.proc p).pgdir rtimeAt (wordBytes [rtime]) 4)
      onMem (moveBytes layout (k.proc p).pgdir wtimeAt (wordBytes [wtime]) 4)
      pure (some q)
  else pure none

/-- The loop of `exit` over the descriptors. -/
def closeFiles (p : Fin NPROC) : List (Fin NOFILE) → Sys Inode Unit
  | [] => pure ()
  | fd :: rest => do
    let k ← get
    match k.files.ofile (p, fd) with
    | none => closeFiles p rest
    | some f => do
      fileclose layout f
      let k ← get
      setFiles (k.files.setSlot p fd none)
      closeFiles p rest

/-- Pass abandoned children to `init`. -/
def orphans (k : Kernel Inode) (p q : Fin NPROC) : Proc :=
  if (k.proc q).parent = some p then { k.proc q with parent := some k.initproc } else k.proc q

def retire (k : Kernel Inode) (p : Fin NPROC) : Kernel Inode :=
  { k with proc := update (orphans k p) p { orphans k p p with state := .zombie } }

def exit (p : Fin NPROC) : Sys Inode Unit := do
  let k ← get
  if p = k.initproc then Code.stop (.panic .initExiting)
  else do
    closeFiles layout p (List.finRange NOFILE)
    let k ← get
    set (retire k p)

/-- User code stores a word of its own memory; where it may not, it is killed instead.
Above `KERNBASE` it never may, since `kmap` has no entry with `PTE_U`. -/
def userStore (pgdir vpn : Nat) (word : Fin NPTENTRIES) (value : UInt32) : Op Bool :=
  if vpn * PGSIZE < KERNBASE then do
    match ← walkpgdir pgdir vpn false with
    | none => pure false
    | some pgtab => do
      let pte ← getWord pgtab (PTX vpn)
      if present pte ∧ user pte ∧ pte.testBit 1 then do
        setWord (pteAddr pte) word value.toNat
        pure true
      else pure false
  else pure false

/-! ### The machine -/

inductive Event (Inode : Type)
  | fork
  | exec (file : Option File) (argv : List Str)
  | sbrk (n : Int)
  | pipe (va : Nat)
  | close (fd : Fin NOFILE)
  | dup (fd : Fin NOFILE)
  | open (ip : Inode) (readable writable : Bool)
  | exit
  | wait
  | waitx (wtimeAt rtimeAt wtime rtime : Nat)
  | store (vpn : Nat) (word : Fin NPTENTRIES) (value : UInt32)

def call (p : Fin NPROC) : Event Inode → Sys Inode Unit
  | .fork => do let _ ← fork layout p
  | .exec file argv => do let _ ← sys_exec layout p file argv
  | .sbrk n => do let _ ← growproc layout p n
  | .pipe va => do let _ ← sys_pipe layout p va
  | .close fd => do let _ ← sys_close layout p fd
  | .dup fd => do let _ ← sys_dup p fd
  | .open ip readable writable => do let _ ← sys_open layout p ip readable writable
  | .exit => exit layout p
  | .wait => do let _ ← wait layout p
  | .waitx wtimeAt rtimeAt wtime rtime => do
    let _ ← sys_waitx layout p wtimeAt rtimeAt wtime rtime
  | .store vpn word value => do
    let k ← get
    let _ ← onMem (userStore (k.proc p).pgdir vpn word value)

def emptyFiles : Table Nat Inode where
  file := fun _ => ⟨0, .none, false, false, 0⟩
  ofile := fun _ => none

/-- The kernel before `userinit`. -/
def idle (mem : Mem) (kpgdir : Nat) (cpuStacks : List Nat) : Kernel Inode where
  mem := mem
  kpgdir := kpgdir
  cpuStacks := cpuStacks
  initproc := 0
  proc := fun _ => ⟨.unused, 0, 0, 0, none⟩
  pipe := fun _ => ⟨false, false⟩
  files := emptyFiles

def userinit (init : Nat → UInt8) (size : Nat) : Sys Inode Unit := do
  match ← allocproc with
  | none => Code.stop (.panic .trap)
  | some p => do
    match ← onMem (setupkvm layout) with
    | none => Code.stop (.panic .userinit)
    | some pgdir => do
      onMem (inituvm layout pgdir init size)
      let k ← get
      set { k.setProc p { k.proc p with
        pgdir := pgdir, sz := PGSIZE, state := .runnable } with initproc := p }

/-- `main` up to `userinit`: the page table of the kernel, and the stacks of `cpus` further
processors. -/
def mainMemory (cpus : Nat) : Op (Nat × List Nat) := do
  kinit1 layout
  let kpgdir ← kvmalloc layout
  let cpuStacks ← startothers cpus
  kinit2 layout
  pure (kpgdir, cpuStacks)

/-- `main`, from any contents of the memory. -/
def main (content : Nat → Page) (cpus : Nat) (init : Nat → UInt8) (size : Nat) :
    Except Stop (Kernel Inode) :=
  match mainMemory layout cpus ⟨[], content⟩ with
  | .error cause => .error cause
  | .ok ((kpgdir, cpuStacks), m) =>
    match userinit layout init size (idle m kpgdir cpuStacks) with
    | .error cause => .error cause
    | .ok (_, k) => .ok k

/-- Only processes that run make calls; a call that panics ends the run. -/
def kernel (start : Kernel Inode) : Machine (Kernel Inode) (Fin NPROC × Event Inode) where
  start := start
  step := fun k label =>
    if (k.proc label.1).state = .runnable then
      match call layout label.1 label.2 k with
      | .error _ => none
      | .ok (_, after) => some after
    else none

end Calls

end Xv6.Memory
