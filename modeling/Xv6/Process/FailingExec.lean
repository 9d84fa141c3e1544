/-
An `exec` that fails.

The model puts together what `exec` holds at its exits: the new page directory, the inode
with the transaction, and, behind the commit, the fields of the process.  The call runs
alone.  `namei` is given by what it finds: an inode, to which it has taken a reference.
-/

import Xv6.File.Table
import Xv6.Memory.ExecImage

namespace Xv6.Execs

open Function Library Library.Code
open Memory (Layout Mem Stop File Str Image ELF_MAGIC KERNBASE PGROUNDUP PGSIZE loadNull
  setupkvm loadSegments allocuvm clearpteu pushArgs freevm)

/-- The fields of `struct trapframe` that `exec` writes. -/
structure Trapframe where
  eip : Nat
  esp : Nat

/-- The fields of `struct proc` that `exec` reads or writes, and those of its files. -/
structure Process (Inode : Type) where
  pgdir : Nat
  sz : Nat
  tf : Trapframe
  name : List UInt8
  ofile : Fin Files.NOFILE → Option Nat
  cwd : Inode

structure System (Inode : Type) where
  mem : Mem
  ref : Inode → Nat
  outstanding : Nat
  proc : Process Inode

variable {Inode Value : Type}

abbrev Call (Inode : Type) := Code Stop (System Inode)

def onMem (op : Memory.Op Value) : Call Inode Value := fun s =>
  match op s.mem with
  | .error cause => .error cause
  | .ok (value, mem) => .ok (value, { s with mem := mem })

def begin_op : Call Inode Unit := modify fun s => { s with outstanding := s.outstanding + 1 }

def end_op : Call Inode Unit := modify fun s => { s with outstanding := s.outstanding - 1 }

/-- The directories and the contents of the files. -/
structure Tree (Inode : Type) where
  lookup : List UInt8 → Option Inode
  content : Inode → File

section Exec

variable [DecidableEq Inode] (layout : Layout) (tree : Tree Inode)

def namei (path : List UInt8) : Call Inode (Option Inode) := fun s =>
  match tree.lookup path with
  | none => .ok (none, s)
  | some ip => .ok (some ip, { s with ref := update s.ref ip (s.ref ip + 1) })

def iunlockput (ip : Inode) : Call Inode Unit :=
  modify fun s => { s with ref := update s.ref ip (s.ref ip - 1) }

/-- The label `bad`; the arguments are the variables `pgdir` and `ip`, `none` for 0. -/
def bad (pgdir : Option Nat) (ip : Option Inode) : Call Inode Int := do
  match pgdir with
  | none => pure ()
  | some pgdir => onMem (freevm layout pgdir)
  match ip with
  | none => pure ()
  | some ip => do
    iunlockput ip
    end_op
  pure (-1)

/-- The loop over the path: what follows its last slash. -/
def lastElem (path : List UInt8) : List UInt8 → List UInt8
  | [] => path
  | c :: s => if c = 0x2F then lastElem s s else lastElem path s

/-- The commit to the new image. -/
def commit (path : List UInt8) (image : Image) : Call Inode Int := do
  let s ← get
  let oldpgdir := s.proc.pgdir
  set { s with proc := { s.proc with
    name := (lastElem path path).take 15
    pgdir := image.pgdir
    sz := image.sz
    tf := ⟨image.eip, image.esp⟩ } }
  onMem (freevm layout oldpgdir)
  pure 0

def exec (path : List UInt8) (argv : List Str) : Call Inode Int := do
  let s ← get
  begin_op
  match ← namei tree path with
  | none => do
    end_op
    pure (-1)
  | some ip =>
    let file := tree.content ip
    if file.readi 0 52 ≠ some 52 then bad layout none (some ip)
    else if file.uint 0 ≠ ELF_MAGIC then bad layout none (some ip)
    else do
      match ← onMem (setupkvm layout) with
      | none => bad layout none (some ip)
      | some pgdir => do
        match ← onMem (loadSegments layout pgdir file (file.ushort 44) (file.uint 28) 0) with
        | none => bad layout (some pgdir) (some ip)
        | some sz => do
          iunlockput ip
          end_op
          let sz ← onMem (allocuvm layout pgdir (PGROUNDUP sz) (PGROUNDUP sz + 2 * PGSIZE))
          if sz = 0 then bad layout (some pgdir) none
          else do
            onMem (clearpteu pgdir ((sz - 2 * PGSIZE) / PGSIZE))
            match ← onMem (pushArgs layout (loadNull s.proc.pgdir) pgdir argv sz) with
            | none => bad layout (some pgdir) none
            | some sp => commit layout path ⟨pgdir, sz, file.uint 24, sp⟩

end Exec

/-! ### What the exits do -/

section Exits

variable {Result : Type} {op : Memory.Op Value} {s : System Inode} {m : Mem}
variable {path : List UInt8} {argv : List Str}

/-- The system after a run of the memory's code. -/
def after (s : System Inode) (result : Except Stop (Value × Mem))
    (rest : Value → Call Inode Result) : Except Stop (Result × System Inode) :=
  match result with
  | .error cause => .error cause
  | .ok (value, mem) => rest value { s with mem := mem }

theorem onMem_bind (rest : Value → Call Inode Result) :
    (onMem op >>= rest) s = after s (op s.mem) rest := by
  cases ran : op s.mem with
  | error cause =>
    have stopped : onMem op s = .error cause := by
      unfold onMem
      rw [ran]
    exact bind_error stopped
  | ok pair =>
    have returned : onMem op s = .ok (pair.1, { s with mem := pair.2 }) := by
      unfold onMem
      rw [ran]
    exact bind_ok returned

theorem after_bind {Next : Type} (next : Value → Memory.Op Next) (rest : Next → Call Inode Result) :
    after s ((op >>= next) m) rest =
      after s (op m) (fun value s => after s (next value s.mem) rest) := by
  cases ran : op m with
  | error cause =>
    rw [bind_error ran]
    rfl
  | ok pair =>
    rw [bind_ok ran]
    change after s _ rest = after { s with mem := pair.2 } (next pair.1 pair.2) rest
    cases next pair.1 pair.2 with
    | error cause => rfl
    | ok result => rfl

theorem after_congr {s' : System Inode} {rest other : Value → Call Inode Result}
    (result : Except Stop (Value × Mem))
    (same : ∀ value m, rest value { s with mem := m } = other value { s' with mem := m }) :
    after s result rest = after s' result other := by
  cases result with
  | error cause => rfl
  | ok pair => exact same pair.1 pair.2

theorem commit_returns_zero {layout : Layout} {s' : System Inode} {image : Image} {result : Int}
    (ran : commit layout path image s = .ok (result, s')) : result = 0 := by
  obtain ⟨_, _, _, ran⟩ := bind_eq_ok.mp ran
  obtain ⟨_, _, _, ran⟩ := bind_eq_ok.mp ran
  obtain ⟨_, _, _, ran⟩ := bind_eq_ok.mp ran
  exact (pure_eq_ok.mp ran).1.symm

variable [DecidableEq Inode] {layout : Layout} {tree : Tree Inode} {ip : Inode}

/-- `exec` between `namei` and `iunlockput`. -/
def System.opened (s : System Inode) (ip : Inode) : System Inode :=
  { s with ref := update s.ref ip (s.ref ip + 1), outstanding := s.outstanding + 1 }

theorem closed_eq (rest : Call Inode Result) :
    (do iunlockput ip; end_op; rest : Call Inode Result) (s.opened ip) = rest s := by
  have ref : update (s.opened ip).ref ip ((s.opened ip).ref ip - 1) = s.ref := by
    unfold System.opened
    dsimp only
    rw [update_idem, update_self, Nat.add_sub_cancel, update_eq_self]
  change rest { s.opened ip with
    ref := update (s.opened ip).ref ip ((s.opened ip).ref ip - 1),
    outstanding := s.outstanding } = rest s
  rw [ref]
  rfl

theorem bad_opened (pgdir : Option Nat) :
    bad layout pgdir (some ip) (s.opened ip) = bad layout pgdir none s := by
  unfold bad
  cases pgdir with
  | none => exact closed_eq (pure (-1))
  | some pgdir =>
    change (onMem (freevm layout pgdir) >>= _) _ = (onMem (freevm layout pgdir) >>= _) _
    rw [onMem_bind, onMem_bind]
    exact after_congr _ (fun _ m => closed_eq (s := { s with mem := m }) (pure (-1)))

/-- What follows the construction of the image. -/
def finish (layout : Layout) (path : List UInt8) : Option Image → Call Inode Int
  | none => pure (-1)
  | some image => commit layout path image

theorem bad_closed (pgdir : Nat) :
    bad layout (some pgdir) (none : Option Inode) s =
      after s ((do freevm layout pgdir; pure none : Memory.Op (Option Image)) s.mem)
        (finish layout path) := by
  unfold bad
  change (onMem (freevm layout pgdir) >>= _) _ = _
  rw [onMem_bind, after_bind]
  rfl

/-- All exits give back the inode and the transaction; what is left is the memory's part. -/
theorem exec_eq : exec layout tree path argv s =
    after s (Memory.exec layout (loadNull s.proc.pgdir) ((tree.lookup path).map tree.content)
      argv s.mem) (finish layout path) := by
  have began : begin_op s = .ok ((), { s with outstanding := s.outstanding + 1 }) := rfl
  cases found : tree.lookup path with
  | none =>
    have nothing : namei tree path { s with outstanding := s.outstanding + 1 } =
        .ok (none, { s with outstanding := s.outstanding + 1 }) := by
      unfold namei
      rw [found]
    unfold exec
    rw [get_bind, bind_ok began, bind_ok nothing]
    rfl
  | some ip =>
    have opens : namei tree path { s with outstanding := s.outstanding + 1 } =
        .ok (some ip, s.opened ip) := by
      unfold namei
      rw [found]
      rfl
    unfold exec
    rw [get_bind, bind_ok began, bind_ok opens]
    unfold Memory.exec
    dsimp only [Option.map_some]
    split
    · exact bad_opened none
    split
    · exact bad_opened none
    rw [onMem_bind, after_bind]
    apply after_congr
    intro pgdir m1
    cases pgdir with
    | none => exact bad_opened (s := { s with mem := m1 }) none
    | some pgdir =>
      dsimp only
      unfold Memory.buildImage
      rw [onMem_bind, bind_assoc, after_bind]
      apply after_congr
      intro size m2
      cases size with
      | none =>
        exact (bad_opened (s := { s with mem := m2 }) (some pgdir)).trans (bad_closed pgdir)
      | some sz =>
        refine (closed_eq (s := { s with mem := m2 }) _).trans ?_
        rw [onMem_bind, bind_assoc, after_bind]
        apply after_congr
        intro sz m3
        split
        · exact bad_closed (s := { s with mem := m3 }) pgdir
        rw [onMem_bind, bind_assoc, after_bind]
        apply after_congr
        intro _ m4
        rw [onMem_bind, bind_assoc, after_bind]
        apply after_congr
        intro sp m5
        cases sp with
        | none => exact bad_closed (s := { s with mem := m5 }) pgdir
        | some sp => rfl

theorem exec_fails {s' : System Inode} (ran : exec layout tree path argv s = .ok (-1, s')) :
    ∃ m, Memory.exec layout (loadNull s.proc.pgdir) ((tree.lookup path).map tree.content) argv
        s.mem = .ok (none, m) ∧ s' = { s with mem := m } := by
  rw [exec_eq] at ran
  cases built : Memory.exec layout (loadNull s.proc.pgdir)
      ((tree.lookup path).map tree.content) argv s.mem with
  | error cause =>
    rw [built] at ran
    cases ran
  | ok pair =>
    obtain ⟨image, m⟩ := pair
    rw [built] at ran
    cases image with
    | none =>
      cases ran
      exact ⟨m, rfl, rfl⟩
    | some image => cases commit_returns_zero ran

end Exits

/-! ### What a failing call leaves -/

section Failing

variable [DecidableEq Inode] {layout : Layout} {tree : Tree Inode} {s : System Inode}
variable {path : List UInt8} {argv : List Str}

/-- If no call of `copyout` starts between physical memory and the devices, and so for arguments
below 32 MB, `exec` returns -1 with the process, the references, the transactions and the free
pages of before. -/
theorem failing_exec {s' : System Inode} (held : Memory.Held layout True s.mem 0)
    (input : (∀ arg ∈ argv, arg.len < Memory.UINT - Memory.DEVSPACE) ∨
      (∀ arg ∈ argv, arg.len < KERNBASE) ∧
        Memory.EveryCopyout layout (loadNull s.proc.pgdir) (fun c => ¬c.InHole)
          ((tree.lookup path).map tree.content) argv s.mem)
    (ran : exec layout tree path argv s = .ok (-1, s')) :
    s'.proc = s.proc ∧ s'.ref = s.ref ∧ s'.outstanding = s.outstanding ∧
      ∀ n, n ∈ s'.mem.freelist ↔ n ∈ s.mem.freelist := by
  obtain ⟨m, failed, rfl⟩ := exec_fails ran
  have tables := Memory.tablesPresent_of_input held input
  rw [Memory.exec_agrees _ _ argv s.mem tables] at failed
  have conserved := (((Memory.exec_ends held _ argv).post_of_ok failed).1 rfl).conserved
  refine ⟨rfl, rfl, rfl, fun n => ?_⟩
  rw [add_zero, add_zero] at conserved
  rw [← Multiset.mem_coe, conserved, Multiset.mem_coe]

/-- The argument is longer than the stack: `exec` has loaded the program when it gives up. -/
theorem failing_exec_large_argument : ∃ (k : Memory.Kernel Unit) (s s' : System Unit),
    Memory.main Memory.smallLayout (fun _ => Memory.zeroPage) 1 (fun _ => 0) 0 = .ok k ∧
      s.mem = k.mem ∧ s.proc.pgdir = (k.proc k.initproc).pgdir ∧
      exec Memory.smallLayout ⟨fun _ => some (), fun _ => Memory.hiFile⟩ [0x63, 0x61, 0x74]
        [⟨5000, fun _ => 1⟩] s = .ok (-1, s') ∧
      s'.proc = s.proc ∧ s'.ref = s.ref ∧ s'.outstanding = s.outstanding ∧
        ∀ n, n ∈ s'.mem.freelist ↔ n ∈ s.mem.freelist := by
  obtain ⟨k, started⟩ := Memory.small_starts
  have funded : Memory.Funded Memory.smallLayout k.mem (Memory.uses k) :=
    (Memory.main_ok started).inv.owns
  have held := funded.held_zero
  have short : ∀ arg ∈ [(⟨5000, fun _ => 1⟩ : Str)], arg.len < Memory.UINT - Memory.DEVSPACE :=
    List.forall_mem_singleton.mpr (by decide)
  have tables : Memory.TablesPresent Memory.smallLayout k.mem (some Memory.hiFile) _ :=
    Memory.tablesPresent_of_short held short
  obtain ⟨result, m, strict, executed⟩ := Memory.exec_returns held tables
  cases result with
  | some image =>
    -- The stack pointer would be more than a page below the top.
    obtain ⟨_, _, _, _, built⟩ := ((Memory.exec_ends held _ _).post_of_ok strict).2 image rfl
    have bottom := built.framed.bottom built.ready
    obtain ⟨_ | ⟨a, addrs⟩, pushed, _⟩ := built.framed
    · exact pushed.elim
    · obtain ⟨_, ⟨near, _⟩, _, rest⟩ := pushed
      have below := Memory.Pushed.le _ rest
      change a + 5001 ≤ image.sz at near
      change image.sz ≤ image.esp + 4096 at bottom
      omega
  | none =>
    let s : System Unit := ⟨k.mem, fun _ => 1, 0,
      ⟨(k.proc k.initproc).pgdir, 4096, ⟨0, 4096⟩, [0x73, 0x68], fun _ => none, ()⟩⟩
    have ran : exec Memory.smallLayout ⟨fun _ => some (), fun _ => Memory.hiFile⟩
        [0x63, 0x61, 0x74] [⟨5000, fun _ => 1⟩] s = .ok (-1, { s with mem := m }) := by
      rw [exec_eq]
      exact congrArg (after s · (finish _ _)) executed
    exact ⟨k, s, _, started, rfl, rfl, ran, failing_exec held (Or.inl short) ran⟩

/-- The first process grows, prepares two of its pages and calls `exec`, which returns -1 and
leaves a page of the process on the free list. -/
theorem failing_exec_frees_page : ∃ (k k' : Memory.Kernel Unit) (vpn d q : Nat)
    (s s' : System Unit),
    Memory.main Memory.smallLayout (fun _ => Memory.zeroPage) 1 (fun _ => 0) 0 = .ok k ∧
      (Memory.kernel Memory.smallLayout k).exec k (Memory.preparation k.initproc vpn 0 d) =
        some k' ∧
      s.mem = k'.mem ∧ s.proc.pgdir = (k'.proc k.initproc).pgdir ∧
      (∀ i, (Memory.wildArg (Memory.hijackPage q 0x02020202)).byte i ≠ 0) ∧
      exec Memory.smallLayout ⟨fun _ => some (), fun _ => Memory.bareFile⟩ [0x63, 0x61, 0x74]
        [Memory.wildArg (Memory.hijackPage q 0x02020202)] s = .ok (-1, s') ∧
      q ∈ Memory.users s.mem s.proc.pgdir ∧ q ∉ s.mem.freelist ∧ q ∈ s'.mem.freelist := by
  obtain ⟨k, started⟩ := Memory.small_starts
  obtain ⟨vpn, d, q, k', ran, prepared⟩ := Memory.prepare (Memory.main_ok started) 0
  obtain ⟨m, executed, used, freed⟩ := prepared.exec_frees
  let s : System Unit := ⟨k'.mem, fun _ => 1, 0,
    ⟨(k'.proc k.initproc).pgdir, 0x2501000, ⟨0, 0x2501000⟩, [0x73, 0x68], fun _ => none, ()⟩⟩
  refine ⟨k, k', vpn, d, q, s, { s with mem := m }, started, ran, rfl, rfl,
    prepared.byte_ne_zero (by decide), ?_, prepared.member, used, freed⟩
  rw [exec_eq]
  exact congrArg (after s · (finish _ _)) executed

end Failing

end Xv6.Execs
