/-
The inode layer of `fs.c`: the inode cache, directories and path names.

A call runs alone, so that a sleep-lock that is held is held by the call itself, which then
sleeps for ever.  The spin-lock of the cache and the transactions of the log are looked
through.  Path names are given without their NUL.
-/

import Mathlib.Tactic
import Xv6.Fs.Blocks

namespace Xv6.Fs

open Library

abbrev NINODE : Nat := 50

/-- An entry of `icache`.  `copy` has the fields that are copied from the disk, and `locked`
stands for the sleep-lock. -/
structure Inode where
  inum : Nat := 0
  ref : Nat := 0
  valid : Bool := false
  locked : Bool := false
  copy : Dinode := {}

structure State where
  disk : Disk
  inode : Fin NINODE → Inode := fun _ => {}

namespace State

def setInode (s : State) (k : Fin NINODE) (ip : Inode) : State :=
  { s with inode := Function.update s.inode k ip }

/-- The disk and an inode, for the functions that work on a locked inode. -/
def locked (s : State) (k : Fin NINODE) : Locked := ⟨s.disk, (s.inode k).copy⟩

def setLocked (s : State) (k : Fin NINODE) (l : Locked) : State :=
  { s with disk := l.disk }.setInode k { s.inode k with copy := l.ip }

end State

abbrev Act := Code Stop State

/-- Code on a locked inode. -/
def onInode {Value : Type} (k : Fin NINODE) (op : Op Value) : Act Value := fun s =>
  match op (s.locked k) with
  | .ok (value, l) => .ok (value, s.setLocked k l)
  | .error cause => .error cause

section Cache

variable (sb : Superblock)

/-- `iget`: an entry that is in use for this inode, or the first free one. -/
def iget (inum : Nat) : Act (Fin NINODE) := fun s =>
  match (List.finRange NINODE).find?
      (fun k => decide (0 < (s.inode k).ref ∧ (s.inode k).inum = inum)) with
  | some k => .ok (k, s.setInode k { s.inode k with ref := (s.inode k).ref + 1 })
  | none =>
    match (List.finRange NINODE).find? (fun k => decide ((s.inode k).ref = 0)) with
    | some k => .ok (k, s.setInode k { s.inode k with inum := inum, ref := 1, valid := false })
    | none => .error (.panic .igetNoInodes)

def idup (k : Fin NINODE) : Act (Fin NINODE) := fun s =>
  .ok (k, s.setInode k { s.inode k with ref := (s.inode k).ref + 1 })

def acquiresleep (k : Fin NINODE) : Act Unit := fun s =>
  if (s.inode k).locked then .error .asleep
  else .ok ((), s.setInode k { s.inode k with locked := true })

def releasesleep (k : Fin NINODE) : Act Unit :=
  modify (fun s => s.setInode k { s.inode k with locked := false })

def ilock (k : Fin NINODE) : Act Unit := do
  let s ← get
  if (s.inode k).ref < 1 then Code.stop (.panic .ilock)
  else
    acquiresleep k
    if (s.inode k).valid then pure ()
    else
      modify (fun s => s.setInode k { s.inode k with
        copy := s.disk.dinode sb (s.inode k).inum
        valid := true })
      if (s.disk.dinode sb (s.inode k).inum).type = 0 then Code.stop (.panic .ilockNoType)
      else pure ()

def iunlock (k : Fin NINODE) : Act Unit := do
  let s ← get
  if (s.inode k).locked = false ∨ (s.inode k).ref < 1 then Code.stop (.panic .iunlock)
  else releasesleep k

/-- `iupdate` for an inode of the cache. -/
def updateInode (k : Fin NINODE) : Act Unit := do
  let s ← get
  onInode k (iupdate sb (s.inode k).inum)

/-- The inode has no links and no other references: truncate and free. -/
def freeInode (k : Fin NINODE) : Act Unit := do
  let s ← get
  onInode k (itrunc sb (s.inode k).inum)
  modify (fun s => s.setInode k { s.inode k with copy := { (s.inode k).copy with type := 0 } })
  updateInode sb k
  modify (fun s => s.setInode k { s.inode k with valid := false })

def iput (k : Fin NINODE) : Act Unit := do
  acquiresleep k
  let s ← get
  if (s.inode k).valid ∧ (s.inode k).copy.nlink = 0 ∧ (s.inode k).ref = 1 then
    freeInode sb k
    releasesleep k
    modify (fun s => s.setInode k { s.inode k with ref := (s.inode k).ref - 1 })
  else
    releasesleep k
    modify (fun s => s.setInode k { s.inode k with ref := (s.inode k).ref - 1 })

def iunlockput (k : Fin NINODE) : Act Unit := do
  iunlock k
  iput sb k

end Cache

/-! ### Directories -/

def namecmp (s t : List UInt8) : Int := strncmp DIRSIZ s t

section Directories

variable (sb : Superblock) (devsw : Devsw)

/-- `readi(dp, &de, off, sizeof(de)) != sizeof(de)` is a panic. -/
def readDirent (dp : Fin NINODE) (off : Nat) (cause : Panic) : Act Dirent := do
  let (r, data) ← onInode dp (readi sb devsw off 16)
  if r = 16 then pure (.ofRecord data) else Code.stop (.panic cause)

/-- The loop of `dirlookup`; it returns the offset of the entry as well. -/
def lookupFrom (dp : Fin NINODE) (name : List UInt8) : Nat → Nat → Act (Option (Nat × Fin NINODE))
  | 0, _ => pure none
  | fuel + 1, off => do
    let s ← get
    if off < (s.inode dp).copy.size then
      let de ← readDirent sb devsw dp off .dirlookupRead
      if de.inum ≠ 0 ∧ namecmp name de.name = 0 then
        let ip ← iget de.inum
        pure (some (off, ip))
      else lookupFrom dp name fuel (off + 16)
    else pure none

def dirlookup (dp : Fin NINODE) (name : List UInt8) : Act (Option (Nat × Fin NINODE)) := do
  let s ← get
  if (s.inode dp).copy.type ≠ T_DIR then Code.stop (.panic .dirlookupNotDir)
  else lookupFrom sb devsw dp name ((s.inode dp).copy.size / 16 + 1) 0

end Directories

/-! ### Paths -/

def slash : UInt8 := 47

/-- `none` if there is no name to remove; otherwise the name and the path behind it. -/
def skipelem (path : List UInt8) : Option (List UInt8 × List UInt8) :=
  match path.dropWhile (fun c => c == slash) with
  | [] => none
  | c :: rest =>
    some (((c :: rest).takeWhile (fun c => c != slash)).take DIRSIZ,
      ((c :: rest).dropWhile (fun c => c != slash)).dropWhile (fun c => c == slash))

section Paths

variable (sb : Superblock) (devsw : Devsw)

/-- The loop of `namex`, from the inode `ip`. -/
def walk (parent : Bool) : Nat → Fin NINODE → List UInt8 → Act (Option (Fin NINODE × List UInt8))
  | 0, _, _ => pure none
  | fuel + 1, ip, path =>
    match skipelem path with
    | none =>
      if parent then do
        iput sb ip
        pure none
      else pure (some (ip, []))
    | some (name, rest) => do
      ilock sb ip
      let s ← get
      if (s.inode ip).copy.type ≠ T_DIR then
        iunlockput sb ip
        pure none
      else if parent ∧ rest = [] then
        iunlock ip
        pure (some (ip, name))
      else
        match ← dirlookup sb devsw ip name with
        | none => do
          iunlockput sb ip
          pure none
        | some (_, next) => do
          iunlockput sb ip
          walk parent fuel next rest

/-- `cwd` is `myproc()->cwd`. -/
def namex (cwd : Option (Fin NINODE)) (path : List UInt8) (parent : Bool) :
    Act (Option (Fin NINODE × List UInt8)) := do
  if path.head? = some slash then
    let ip ← iget ROOTINO
    walk sb devsw parent (path.length + 1) ip path
  else
    match cwd with
    | none => Code.stop .fault
    | some dir => do
      let ip ← idup dir
      walk sb devsw parent (path.length + 1) ip path

end Paths

/-! ### Paths as lists of names -/

/-- The names of a path: what lies between the slashes, without the empty pieces, cut to
`DIRSIZ` characters. -/
def components (path : List UInt8) : List (List UInt8) :=
  ((path.splitOn slash).filter (fun name => name ≠ [])).map (List.take DIRSIZ)

theorem components_slash (path : List UInt8) : components (slash :: path) = components path := by
  simp [components, List.splitOn, List.splitOnP_cons_eq_if_modifyHead]

theorem components_dropWhile (path : List UInt8) :
    components (path.dropWhile (fun c => c == slash)) = components path := by
  induction path with
  | nil => rfl
  | cons c rest ih =>
    by_cases same : c = slash
    · rw [same, components_slash, ← ih]
      rfl
    · rw [List.dropWhile_cons_of_neg (by simpa using same)]

theorem components_cons {c : UInt8} (tail : List UInt8) (other : c ≠ slash) :
    components (c :: tail) = ((c :: tail).takeWhile (fun c => c != slash)).take DIRSIZ ::
      components ((c :: tail).dropWhile (fun c => c != slash)) := by
  have plain : ∀ x ∈ (c :: tail).takeWhile (fun c => c != slash), (x == slash) = false :=
    fun x member => by simpa using List.mem_takeWhile_imp member
  have some : (c :: tail).takeWhile (fun c => c != slash) ≠ [] := by simp [other]
  have ends := List.head?_dropWhile_not (fun c => c != slash) (c :: tail)
  have whole := List.takeWhile_append_dropWhile (p := fun c => c != slash) (l := c :: tail)
  generalize (c :: tail).takeWhile (fun c => c != slash) = name at *
  generalize (c :: tail).dropWhile (fun c => c != slash) = left at *
  rw [← whole]
  cases left with
  | nil => simp [components, List.splitOn, List.splitOnP_eq_singleton plain, some]
  | cons d rest =>
    have isSlash : d = slash := by simpa using ends
    rw [isSlash, components_slash]
    simp [components, List.splitOn, List.splitOnP_append_cons_of_forall_mem plain, some]

/-- `skipelem` takes the first name off, and leaves nothing behind the last one. -/
theorem skipelem_components (path : List UInt8) :
    (skipelem path = none ∧ components path = []) ∨
      ∃ name rest, skipelem path = some (name, rest) ∧ rest.length < path.length ∧
        components path = name :: components rest ∧ (rest = [] ↔ components rest = []) := by
  have head (l : List UInt8) {c tail} (left : l.dropWhile (fun c => c == slash) = c :: tail) :
      c ≠ slash := by
    have test := List.head?_dropWhile_not (fun c => c == slash) l
    simpa [left] using test
  unfold skipelem
  cases found : path.dropWhile (fun c => c == slash) with
  | nil => exact Or.inl ⟨rfl, by rw [← components_dropWhile, found]; rfl⟩
  | cons c tail =>
    refine Or.inr ⟨_, _, rfl, ?_, ?_, ?_⟩
    · have skipped : (c :: tail).length ≤ path.length :=
        found ▸ (List.dropWhile_suffix _).length_le
      rw [List.dropWhile_cons_of_pos (by simpa using head path found)]
      exact Nat.lt_of_le_of_lt
        ((List.dropWhile_suffix _).trans (List.dropWhile_suffix _)).length_le skipped
    · rw [← components_dropWhile, found, components_cons tail (head path found),
        components_dropWhile]
    · generalize (c :: tail).dropWhile (fun c => c != slash) = l
      cases left : l.dropWhile (fun c => c == slash) with
      | nil => simp [components]
      | cons d rest => simp [components_cons rest (head l left)]

section Follow

variable (sb : Superblock) (devsw : Devsw)

/-- The loop of `namex` over a list of names. -/
def follow (parent : Bool) : Fin NINODE → List (List UInt8) → Act (Option (Fin NINODE × List UInt8))
  | ip, [] =>
    if parent then do
      iput sb ip
      pure none
    else pure (some (ip, []))
  | ip, name :: rest => do
    ilock sb ip
    let s ← get
    if (s.inode ip).copy.type ≠ T_DIR then
      iunlockput sb ip
      pure none
    else if parent ∧ rest = [] then
      iunlock ip
      pure (some (ip, name))
    else
      match ← dirlookup sb devsw ip name with
      | none => do
        iunlockput sb ip
        pure none
      | some (_, next) => do
        iunlockput sb ip
        follow parent next rest

theorem walk_eq_follow (parent : Bool) (fuel : Nat) (ip : Fin NINODE) (path : List UInt8)
    (enough : path.length < fuel) :
    walk sb devsw parent fuel ip path = follow sb devsw parent ip (components path) := by
  induction fuel generalizing ip path with
  | zero => exact absurd enough (Nat.not_lt_zero _)
  | succ fuel ih =>
    unfold walk
    rcases skipelem_components path with ⟨found, none⟩ | ⟨name, rest, found, shorter, more, last⟩
    · rw [found, none]
      rfl
    · have next := fun ip => ih ip rest (by omega)
      rw [found, more, follow]
      simp only [last, next]

/-- Where a path starts. -/
def startInode (cwd : Option (Fin NINODE)) (path : List UInt8) : Act (Fin NINODE) :=
  if path.head? = some slash then iget ROOTINO
  else
    match cwd with
    | none => Code.stop .fault
    | some dir => idup dir

/-- Path names are resolved name by name: however many slashes separate the names, lead or
trail, the result and the state are those of following the names. -/
theorem namex_follows_components (cwd : Option (Fin NINODE)) (path : List UInt8) (parent : Bool) :
    namex sb devsw cwd path parent =
      (do
        let ip ← startInode cwd path
        follow sb devsw parent ip (components path)) := by
  have walks := fun ip => walk_eq_follow sb devsw parent _ ip path (Nat.lt_succ_self _)
  unfold namex startInode
  simp only [Nat.succ_eq_add_one] at walks
  split
  · simp only [walks]
  · cases cwd with
    | none => rfl
    | some dir => simp only [walks]

end Follow

end Xv6.Fs
