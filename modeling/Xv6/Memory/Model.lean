/-
The page allocator of `kalloc.c`, the page tables of `vm.c` and `exec`.

Physical memory is a list of free pages and 1024 words for every page; pages are named by
their physical page numbers, so that the conversions `V2P` and `P2V` disappear, and virtual
addresses that are multiples of `PGSIZE` by their virtual page numbers.  Page directories
and page tables are pages like all others.  Code that panics, or faults in the kernel,
has no result.
-/

import Mathlib.Tactic
import Xv6.Library.Panics
import Xv6.Library.Trade

namespace Xv6.Memory

open Library

abbrev PGSIZE : Nat := 4096

abbrev KERNBASE : Nat := 0x80000000

abbrev EXTMEM : Nat := 0x100000

abbrev PHYSTOP : Nat := 0xE000000

abbrev DEVSPACE : Nat := 0xFE000000

/-- The values of `uint`. -/
abbrev UINT : Nat := 0x100000000

abbrev NPTENTRIES : Nat := 1024

instance neZero_NPTENTRIES : NeZero NPTENTRIES := ⟨Nat.succ_ne_zero 1023⟩

abbrev PTE_P : Nat := 0x001

abbrev PTE_W : Nat := 0x002

abbrev PTE_U : Nat := 0x004

abbrev MAXARG : Nat := 32

/-- A page as an array of `uint`. -/
abbrev Page : Type := Fin NPTENTRIES → Nat

abbrev Mem : Type := Store Nat Page

/-- Where the linker puts the writable data of the kernel and the end of its image, as
physical page numbers. -/
structure Layout where
  data : Nat
  endPage : Nat
  text_before_data : EXTMEM / PGSIZE < data
  data_before_end : data ≤ endPage
  end_in_memory : endPage < PHYSTOP / PGSIZE

/-- A kernel with one page of text that ends at page 300. -/
def smallLayout : Layout where
  data := 257
  endPage := 300
  text_before_data := by decide
  data_before_end := by decide
  end_in_memory := by decide

inductive Panic
  | kfree
  | remap
  | copyuvmPte
  | copyuvmPage
  | loaduvmAligned
  | loaduvmAddress
  | clearpteu
  | trap
  | filedup
  | fileclose
  | inituvm
  | userinit
  | initExiting
  deriving DecidableEq

def Panic.message : Panic → String
  | .kfree => "kfree"
  | .remap => "remap"
  | .copyuvmPte => "copyuvm: pte should exist"
  | .copyuvmPage => "copyuvm: page not present"
  | .loaduvmAligned => "loaduvm: addr must be page aligned"
  | .loaduvmAddress => "loaduvm: address should exist"
  | .clearpteu => "clearpteu"
  | .trap => "trap"
  | .filedup => "filedup"
  | .fileclose => "fileclose"
  | .inituvm => "inituvm: more than a page"
  | .userinit => "userinit: out of memory?"
  | .initExiting => "init exiting"

/-- Why code has no result.  `missingTable` stands for no panic of the source: it stops a
run, in statements about it, where `uva2ka` looks up a page whose table is missing. -/
inductive Stop
  | panic (cause : Panic)
  | missingTable
  deriving DecidableEq

abbrev Op (Value : Type) : Type := Code Stop Mem Value

def panic {Value : Type} (cause : Panic) : Op Value := Code.stop (.panic cause)

/-! ### Page-table entries -/

def PDX (vpn : Nat) : Fin NPTENTRIES := Fin.ofNat NPTENTRIES (vpn / NPTENTRIES)

def PTX (vpn : Nat) : Fin NPTENTRIES := Fin.ofNat NPTENTRIES vpn

def PGROUNDUP (size : Nat) : Nat := (size + PGSIZE - 1) / PGSIZE * PGSIZE

/-- `pa | perm | PTE_P` for the physical page `n`. -/
def mkPte (n perm : Nat) : Nat := n * PGSIZE + (perm ||| PTE_P)

/-- The page of `PTE_ADDR(pte)`. -/
def pteAddr (pte : Nat) : Nat := pte / PGSIZE

def pteFlags (pte : Nat) : Nat := pte % PGSIZE

/-- `pte & PTE_P`. -/
def present (pte : Nat) : Bool := pte.testBit 0

/-- `pte & PTE_U`. -/
def user (pte : Nat) : Bool := pte.testBit 2

def zeroPage : Page := fun _ => 0

/-- What `memset(v, 1, PGSIZE)` leaves. -/
def junkPage : Page := fun _ => 0x01010101

namespace Page

def byte (page : Page) (offset : Nat) : UInt8 :=
  UInt8.ofNat (page (Fin.ofNat NPTENTRIES (offset / 4)) / 256 ^ (offset % 4))

def ofBytes (bytes : Nat → UInt8) : Page := fun word =>
  (bytes (4 * word)).toNat + 256 * (bytes (4 * word + 1)).toNat +
    256 ^ 2 * (bytes (4 * word + 2)).toNat + 256 ^ 3 * (bytes (4 * word + 3)).toNat

/-- `memmove` of `n` bytes to an offset in the page. -/
def write (page : Page) (offset n : Nat) (source : Nat → UInt8) : Page :=
  ofBytes (fun at_ =>
    if offset ≤ at_ ∧ at_ < offset + n then source (at_ - offset) else page.byte at_)

end Page

/-! ### `kalloc.c` -/

def getWord (n : Nat) (word : Fin NPTENTRIES) : Op Nat := fun m => .ok (m.page n word, m)

def setPage (n : Nat) (page : Page) : Op Unit := fun m => .ok ((), m.setPage n page)

def setWord (n : Nat) (word : Fin NPTENTRIES) (value : Nat) : Op Unit := fun m =>
  .ok ((), m.setPage n (Function.update (m.page n) word value))

def kalloc : Op (Option Nat) := fun m =>
  match m.freelist with
  | [] => .ok (none, m)
  | n :: rest => .ok (some n, { m with freelist := rest })

section Vm

variable (layout : Layout)

def kfree (n : Nat) : Op Unit := fun m =>
  if n < layout.endPage ∨ PHYSTOP / PGSIZE ≤ n then .error (.panic .kfree)
  else .ok ((), { m.setPage n junkPage with freelist := n :: m.freelist })

/-! ### `vm.c` -/

/-- The page table for a virtual page; the entry is its word `PTX(va)`. -/
def walkpgdir (pgdir vpn : Nat) (alloc : Bool) : Op (Option Nat) := do
  let pde ← getWord pgdir (PDX vpn)
  if present pde then pure (some (pteAddr pde))
  else if alloc then
    match ← kalloc with
    | none => pure none
    | some pgtab => do
      setPage pgtab zeroPage
      setWord pgdir (PDX vpn) (mkPte pgtab (PTE_W ||| PTE_U))
      pure (some pgtab)
  else pure none

/-- One iteration of `mappages`; false if a page table cannot be allocated. -/
def mappage (pgdir vpn n perm : Nat) : Op Bool := do
  match ← walkpgdir pgdir vpn true with
  | none => pure false
  | some pgtab => do
    let pte ← getWord pgtab (PTX vpn)
    if present pte then panic .remap
    else do
      setWord pgtab (PTX vpn) (mkPte n perm)
      pure true

/-- The loop of `mappages`, `count` iterations before its last one. -/
def mapLoop (pgdir perm : Nat) : Nat → Nat → Nat → Op Bool
  | 0, vpn, n => mappage pgdir vpn n perm
  | count + 1, vpn, n => do
    if ← mappage pgdir vpn n perm then mapLoop pgdir perm count (vpn + 1) (n + 1)
    else pure false

/-- `mappages` of `size` bytes at `va` to physical page `n` and those after it.  The loop
ends at the page of the last byte, where the addition is one of `uint`s. -/
def mappages (pgdir va size n perm : Nat) : Op Bool :=
  let last := (va + size + UINT - 1) % UINT / PGSIZE
  mapLoop pgdir perm ((last + UINT / PGSIZE - va / PGSIZE) % (UINT / PGSIZE)) (va / PGSIZE) n

/-- The loop of `deallocuvm` from virtual page `vpn` on. -/
def deallocLoop (pgdir oldsz : Nat) : Nat → Nat → Op Unit
  | 0, _ => pure ()
  | fuel + 1, vpn =>
    if vpn * PGSIZE < oldsz then do
      match ← walkpgdir pgdir vpn false with
      | none => deallocLoop pgdir oldsz fuel ((vpn / NPTENTRIES + 1) * NPTENTRIES)
      | some pgtab => do
        let pte ← getWord pgtab (PTX vpn)
        if present pte then do
          kfree layout (pteAddr pte)
          setWord pgtab (PTX vpn) 0
          deallocLoop pgdir oldsz fuel (vpn + 1)
        else deallocLoop pgdir oldsz fuel (vpn + 1)
    else pure ()

/-- Every iteration goes to a later page, so that there are at most as many as pages. -/
def deallocuvm (pgdir oldsz newsz : Nat) : Op Nat :=
  if oldsz ≤ newsz then pure oldsz
  else do
    deallocLoop layout pgdir oldsz (PGROUNDUP oldsz / PGSIZE) (PGROUNDUP newsz / PGSIZE)
    pure newsz

/-- The loop of `freevm` over the directory. -/
def freeTables (pgdir : Nat) : List (Fin NPTENTRIES) → Op Unit
  | [] => pure ()
  | i :: rest => do
    let pde ← getWord pgdir i
    if present pde then do
      kfree layout (pteAddr pde)
      freeTables pgdir rest
    else freeTables pgdir rest

def freevm (pgdir : Nat) : Op Unit := do
  let _ ← deallocuvm layout pgdir KERNBASE 0
  freeTables layout pgdir (List.finRange NPTENTRIES)
  kfree layout pgdir

/-- An entry of `kmap`: addresses in bytes, `phys_end` as a `uint`. -/
structure Kmap where
  virt : Nat
  phys_start : Nat
  phys_end : Nat
  perm : Nat

def kmap : List Kmap :=
  [ ⟨KERNBASE, 0, EXTMEM, PTE_W⟩,
    ⟨KERNBASE + EXTMEM, EXTMEM, layout.data * PGSIZE, 0⟩,
    ⟨KERNBASE + layout.data * PGSIZE, layout.data * PGSIZE, PHYSTOP, PTE_W⟩,
    ⟨DEVSPACE, DEVSPACE, 0, PTE_W⟩ ]

/-- The loop of `setupkvm`; false after a failure, which has freed the directory. -/
def mapKernel (pgdir : Nat) : List Kmap → Op Bool
  | [] => pure true
  | k :: rest => do
    if ← mappages pgdir k.virt ((k.phys_end + UINT - k.phys_start) % UINT)
        (k.phys_start / PGSIZE) k.perm then mapKernel pgdir rest
    else do
      freevm layout pgdir
      pure false

def setupkvm : Op (Option Nat) := do
  match ← kalloc with
  | none => pure none
  | some pgdir => do
    setPage pgdir zeroPage
    if ← mapKernel layout pgdir (kmap layout) then pure (some pgdir)
    else pure none

/-- The loop of `allocuvm` from virtual page `vpn` on. -/
def allocLoop (pgdir oldsz newsz : Nat) : Nat → Nat → Op Nat
  | 0, _ => pure newsz
  | fuel + 1, vpn =>
    if vpn * PGSIZE < newsz then do
      match ← kalloc with
      | none => do
        let _ ← deallocuvm layout pgdir newsz oldsz
        pure 0
      | some mem => do
        setPage mem zeroPage
        if ← mappages pgdir (vpn * PGSIZE) PGSIZE mem (PTE_W ||| PTE_U) then
          allocLoop pgdir oldsz newsz fuel (vpn + 1)
        else do
          let _ ← deallocuvm layout pgdir newsz oldsz
          kfree layout mem
          pure 0
    else pure newsz

def allocuvm (pgdir oldsz newsz : Nat) : Op Nat :=
  if KERNBASE ≤ newsz then pure 0
  else if newsz < oldsz then pure oldsz
  else allocLoop layout pgdir oldsz newsz (PGROUNDUP newsz / PGSIZE) (PGROUNDUP oldsz / PGSIZE)

/-- The loop of `copyuvm` from virtual page `vpn` on; false after a failure, which has
freed the new directory. -/
def copyLoop (pgdir sz d : Nat) : Nat → Nat → Op Bool
  | 0, _ => pure true
  | fuel + 1, vpn =>
    if vpn * PGSIZE < sz then do
      match ← walkpgdir pgdir vpn false with
      | none => panic .copyuvmPte
      | some pgtab => do
        let pte ← getWord pgtab (PTX vpn)
        if present pte then do
          match ← kalloc with
          | none => do
            freevm layout d
            pure false
          | some mem => do
            let page ← (fun m => .ok (m.page (pteAddr pte), m) : Op Page)
            setPage mem page
            if ← mappages d (vpn * PGSIZE) PGSIZE mem (pteFlags pte) then
              copyLoop pgdir sz d fuel (vpn + 1)
            else do
              kfree layout mem
              freevm layout d
              pure false
        else panic .copyuvmPage
    else pure true

def copyuvm (pgdir sz : Nat) : Op (Option Nat) := do
  match ← setupkvm layout with
  | none => pure none
  | some d => do
    if ← copyLoop layout pgdir sz d (PGROUNDUP sz / PGSIZE) 0 then pure (some d)
    else pure none

def clearpteu (pgdir vpn : Nat) : Op Unit := do
  match ← walkpgdir pgdir vpn false with
  | none => panic .clearpteu
  | some pgtab => do
    let pte ← getWord pgtab (PTX vpn)
    setWord pgtab (PTX vpn) (if user pte then pte - PTE_U else pte)

/-- What the processor loads from address 0 while page directory `current` is in use. -/
def loadNull (current : Nat) : Op Nat := do
  match ← walkpgdir current 0 false with
  | none => panic .trap
  | some pgtab => do
    let pte ← getWord pgtab (PTX 0)
    if present pte then getWord (pteAddr pte) 0 else panic .trap

/-- The entry that `uva2ka` looks at.  It does not test what `walkpgdir` returns: where the
page table is missing, `null` is what it loads. -/
def lookup (null : Op Nat) (pgdir vpn : Nat) : Op Nat := do
  match ← walkpgdir pgdir vpn false with
  | none => null
  | some pgtab => getWord pgtab (PTX vpn)

def uva2ka (null : Op Nat) (pgdir vpn : Nat) : Op (Option Nat) := do
  let pte ← lookup null pgdir vpn
  if present pte then
    if user pte then pure (some (pteAddr pte)) else pure none
  else pure none

/-- `memmove` to the address that `P2V` gives for page `n`.  Stores below the data of the
kernel or beyond physical memory are not followed. -/
def store (n offset count : Nat) (source : Nat → UInt8) : Op Unit := fun m =>
  if n < layout.data ∨ PHYSTOP / PGSIZE ≤ n then .error (.panic .trap)
  else .ok ((), m.setPage n ((m.page n).write offset count source))

/-- The loop of `copyout`. -/
def copyoutLoop (null : Op Nat) (pgdir : Nat) :
    Nat → Nat → Nat → (Nat → UInt8) → Op Bool
  | 0, _, _, _ => pure true
  | fuel + 1, va, len, source =>
    if 0 < len then do
      match ← uva2ka null pgdir (va / PGSIZE) with
      | none => pure false
      | some n => do
        let count := min (PGSIZE - va % PGSIZE) len
        store layout n (va % PGSIZE) count source
        copyoutLoop null pgdir fuel ((va / PGSIZE * PGSIZE + PGSIZE) % UINT)
          (len - count) (fun i => source (i + count))
    else pure true

/-- Every iteration copies a byte at least. -/
def copyout (null : Op Nat) (pgdir va : Nat) (source : Nat → UInt8) (len : Nat) : Op Bool :=
  copyoutLoop layout null pgdir len va len source

end Vm

/-! ### `exec` -/

/-- The contents of an inode. -/
structure File where
  size : Nat
  byte : Nat → UInt8

namespace File

/-- The number of bytes that `readi` delivers; `none` is -1. -/
def readi (file : File) (off n : Nat) : Option Nat :=
  if file.size < off ∨ UINT ≤ off + n then none
  else some (if file.size < off + n then file.size - off else n)

def ushort (file : File) (off : Nat) : Nat :=
  (file.byte off).toNat + 256 * (file.byte (off + 1)).toNat

def uint (file : File) (off : Nat) : Nat := file.ushort off + 256 ^ 2 * file.ushort (off + 2)

end File

abbrev ELF_MAGIC : Nat := 0x464C457F

abbrev ELF_PROG_LOAD : Nat := 1

/-- The fields of `struct proghdr` that `exec` reads. -/
structure ProgHdr where
  type : Nat
  off : Nat
  vaddr : Nat
  filesz : Nat
  memsz : Nat

def File.progHdr (file : File) (off : Nat) : ProgHdr where
  type := file.uint off
  off := file.uint (off + 4)
  vaddr := file.uint (off + 8)
  filesz := file.uint (off + 16)
  memsz := file.uint (off + 20)

/-- A string of `len` bytes before its NUL. -/
structure Str where
  len : Nat
  byte : Nat → UInt8

/-- What `exec` installs in the process. -/
structure Image where
  pgdir : Nat
  sz : Nat
  eip : Nat
  esp : Nat

section Exec

variable (layout : Layout) (null : Op Nat)

/-- The loop of `loaduvm` at offset `i`. -/
def loadLoop (pgdir addr : Nat) (file : File) (offset sz : Nat) : Nat → Nat → Op Bool
  | 0, _ => pure true
  | fuel + 1, i =>
    if i < sz then do
      match ← walkpgdir pgdir ((addr + i) % UINT / PGSIZE) false with
      | none => panic .loaduvmAddress
      | some pgtab => do
        let pte ← getWord pgtab (PTX ((addr + i) % UINT / PGSIZE))
        let n := if sz - i < PGSIZE then sz - i else PGSIZE
        match file.readi ((offset + i) % UINT) n with
        | none => pure false
        | some count => do
          store layout (pteAddr pte) 0 count
            (fun k => file.byte ((offset + i) % UINT + k))
          if count = n then loadLoop pgdir addr file offset sz fuel (i + PGSIZE)
          else pure false
    else pure true

def loaduvm (pgdir addr : Nat) (file : File) (offset sz : Nat) : Op Bool :=
  if addr % PGSIZE ≠ 0 then panic .loaduvmAligned
  else loadLoop layout pgdir addr file offset sz sz 0

/-- The loop over the program headers; `none` is the jump to `bad`. -/
def loadSegments (pgdir : Nat) (file : File) : Nat → Nat → Nat → Op (Option Nat)
  | 0, _, sz => pure (some sz)
  | count + 1, off, sz =>
    if file.readi off 32 ≠ some 32 then pure none
    else
      let ph := file.progHdr off
      if ph.type ≠ ELF_PROG_LOAD then
        loadSegments pgdir file count ((off + 32) % UINT) sz
      else if ph.memsz < ph.filesz then pure none
      else if UINT ≤ ph.vaddr + ph.memsz then pure none
      else do
        let sz ← allocuvm layout pgdir sz (ph.vaddr + ph.memsz)
        if sz = 0 then pure none
        else if ph.vaddr % PGSIZE ≠ 0 then pure none
        else do
          if ← loaduvm layout pgdir ph.vaddr file ph.off ph.filesz then
            loadSegments pgdir file count ((off + 32) % UINT) sz
          else pure none

/-- The loop that pushes the argument strings: the final `sp` and the addresses of the
strings pushed, or the jump to `bad`. -/
def pushStrings (pgdir : Nat) :
    List Str → Nat → List Nat → Op (Option (Nat × List Nat))
  | [], sp, pushed => pure (some (sp, pushed))
  | arg :: rest, sp, pushed =>
    if MAXARG ≤ pushed.length then pure none
    else do
      let sp := (sp + UINT - (arg.len + 1) % UINT) % UINT / 4 * 4
      let source := fun i => if i < arg.len then arg.byte i else 0
      if ← copyout layout null pgdir sp source (arg.len + 1) then
        pushStrings pgdir rest sp (pushed ++ [sp])
      else pure none

/-- The bytes of an array of `uint`. -/
def wordBytes (words : List Nat) (i : Nat) : UInt8 :=
  UInt8.ofNat (words.getD (i / 4) 0 / 256 ^ (i % 4))

/-- The arguments and the frame of `main`; the final `sp`, or the jump to `bad`. -/
def pushArgs (pgdir : Nat) (argv : List Str) (sz : Nat) : Op (Option Nat) := do
  match ← pushStrings layout null pgdir argv sz [] with
  | none => pure none
  | some (sp, pushed) => do
    let argc := pushed.length
    let ustack :=
      [0xffffffff, argc, (sp + UINT - (argc + 1) * 4) % UINT] ++ pushed ++ [0]
    let sp := (sp + UINT - (3 + argc + 1) * 4) % UINT
    if ← copyout layout null pgdir sp (wordBytes ustack) ((3 + argc + 1) * 4) then
      pure (some sp)
    else pure none

/-- `exec` after `setupkvm`: the sizes and the stack pointer, or the jump to `bad`. -/
def buildImage (pgdir : Nat) (file : File) (argv : List Str) :
    Op (Option (Nat × Nat)) := do
  match ← loadSegments layout pgdir file (file.ushort 44) (file.uint 28) 0 with
  | none => pure none
  | some sz => do
    let sz ← allocuvm layout pgdir (PGROUNDUP sz) (PGROUNDUP sz + 2 * PGSIZE)
    if sz = 0 then pure none
    else do
      clearpteu pgdir ((sz - 2 * PGSIZE) / PGSIZE)
      match ← pushArgs layout null pgdir argv sz with
      | none => pure none
      | some sp => pure (some (sz, sp))

/-- `exec` up to the commit; `none` is -1, after everything allocated has been freed.
`file` is what `namei` finds. -/
def exec (file : Option File) (argv : List Str) : Op (Option Image) :=
  match file with
  | none => pure none
  | some file =>
    if file.readi 0 52 ≠ some 52 then pure none
    else if file.uint 0 ≠ ELF_MAGIC then pure none
    else do
      match ← setupkvm layout with
      | none => pure none
      | some pgdir => do
        match ← buildImage layout null pgdir file argv with
        | none => do
          freevm layout pgdir
          pure none
        | some (sz, sp) => pure (some ⟨pgdir, sz, file.uint 24, sp⟩)

end Exec

end Xv6.Memory
