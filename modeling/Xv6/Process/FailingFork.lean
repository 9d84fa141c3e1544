/-
A `fork` that fails.

The model puts together what `fork` changes: the process table with the rings, the pages,
the open files and the counts of the inodes.  The call runs alone.  `allocproc` hands out
the identifier and inserts the slot before anything is allocated, and neither of the two
error exits takes that back.
-/

import Xv6.File.Table
import Xv6.Memory.Growth
import Xv6.Mlfq.Invariant
import Xv6.Process.Lookups

namespace Xv6.Forks

open Function Library Library.Code
open Memory (Layout Mem Stop kalloc kfree copyuvm space smallLayout KERNBASE)

/-- The fields of `struct proc` that refer to pages. -/
structure Image where
  pgdir : Nat
  kstack : Nat
  sz : Nat

/-- `ref` counts the references to the inodes of the cache. -/
structure System (ncpu : Nat) (Inode : Type) where
  kernel : Kernel ncpu
  mem : Mem
  image : Slot → Image
  files : Files.Table Nat Inode
  ref : Inode → Nat
  cwd : Slot → Inode

variable {ncpu : Nat} {Inode Value : Type}

namespace System

def setImage (s : System ncpu Inode) (p : Slot) (image : Image) : System ncpu Inode :=
  { s with image := update s.image p image }

def setState (s : System ncpu Inode) (p : Slot) (state : ProcState) : System ncpu Inode :=
  { s with kernel := s.kernel.setState p state }

end System

abbrev Call (ncpu : Nat) (Inode : Type) := Code Stop (System ncpu Inode)

def onMem (op : Memory.Op Value) : Call ncpu Inode Value := fun s =>
  match op s.mem with
  | .error cause => .error cause
  | .ok (value, mem) => .ok (value, { s with mem := mem })

/-- `idup`. -/
def idup [DecidableEq Inode] (ip : Inode) : Call ncpu Inode Inode := fun s =>
  .ok (ip, { s with ref := update s.ref ip (s.ref ip + 1) })

/-- `allocproc` with the allocation of the kernel stack. -/
def allocproc (policy : Policy) : Call ncpu Inode (Option Slot) := do
  let s ← get
  match s.kernel.allocproc policy with
  | (none, _) => pure none
  | (some p, kernel) => do
    set { s with kernel := kernel }
    match ← onMem kalloc with
    | none => do
      modify (fun s => (s.setImage p { s.image p with kstack := 0 }).setState p .unused)
      pure none
    | some kstack => do
      modify (fun s => s.setImage p { s.image p with kstack := kstack })
      pure (some p)

/-- The loop of `fork` over the descriptors. -/
def dupFiles (curproc np : Slot) : Call ncpu Inode Unit := fun s =>
  match s.files.dupFiles curproc np (List.finRange Files.NOFILE) with
  | none => .error (.panic .filedup)
  | some files => .ok ((), { s with files := files })

/-- The part of `fork` behind the copy of the address space. -/
def finish [DecidableEq Inode] (curproc np : Slot) (pgdir : Nat) : Call ncpu Inode Int := do
  modify (fun s => s.setImage np { s.image np with pgdir := pgdir, sz := (s.image curproc).sz })
  modify (fun s => { s with
    kernel := s.kernel.modify np (fun p => { p with parent := some curproc }) })
  dupFiles curproc np
  let s ← get
  let cwd ← idup (s.cwd curproc)
  modify (fun s => { s with cwd := update s.cwd np cwd })
  modify (fun s => s.setState np .runnable)
  pure (s.kernel.proc np).pid

def fork [DecidableEq Inode] (policy : Policy) (layout : Layout) (curproc : Slot) :
    Call ncpu Inode Int := do
  match ← allocproc policy with
  | none => pure (-1)
  | some np => do
    let s ← get
    match ← onMem (copyuvm layout (s.image curproc).pgdir (s.image curproc).sz) with
    | none => do
      onMem (kfree layout (s.image np).kstack)
      modify (fun s =>
        (s.setImage np { s.image np with pgdir := 0, kstack := 0 }).setState np .unused)
      pure (-1)
    | some pgdir => finish curproc np pgdir

/-! ### The error exits -/

variable {s s' : System ncpu Inode} {policy : Policy} {layout : Layout}

theorem onMem_ok {op : Memory.Op Value} {value : Value} (ran : onMem op s = .ok (value, s')) :
    ∃ m, op s.mem = .ok (value, m) ∧ s' = { s with mem := m } := by
  unfold onMem at ran
  cases result : op s.mem with
  | error cause =>
    rw [result] at ran
    cases ran
  | ok pair =>
    rw [result] at ran
    cases ran
    exact ⟨pair.2, rfl, rfl⟩

/-- The two ways to fail: there is no free slot, or the first one has been claimed and is
given back without memory. -/
inductive Failed (policy : Policy) (s : System ncpu Inode) : System ncpu Inode → Prop
  | full (none : s.kernel.firstUnused = none) : Failed policy s s
  | undone (np : Slot) (claimed : Kernel ncpu) (s' : System ncpu Inode)
      (allocated : s.kernel.allocproc policy = (some np, claimed))
      (kernel : s'.kernel = claimed.setState np .unused) (pages : Trades s.mem s'.mem 0 0)
      (files : s'.files = s.files) (ref : s'.ref = s.ref) : Failed policy s s'

theorem allocproc_ok {result : Option Slot} (ran : allocproc policy s = .ok (result, s')) :
    (result = none → Failed policy s s') ∧
      ∀ np, result = some np → ∃ claimed n m,
        s.kernel.allocproc policy = (some np, claimed) ∧ kalloc s.mem = .ok (some n, m) ∧
          s' = { s with kernel := claimed, mem := m }.setImage np { s.image np with kstack := n } := by
  unfold allocproc at ran
  obtain ⟨_, same, got, branches⟩ := bind_eq_ok.mp ran
  cases got
  cases allocated : s.kernel.allocproc policy with
  | mk found claimed =>
    rw [allocated] at branches
    cases found with
    | none =>
      obtain ⟨rfl, rfl⟩ := pure_eq_ok.mp branches
      refine ⟨fun _ => .full ?_, nofun⟩
      rcases s.kernel.allocproc_cases policy with ⟨full, _⟩ | ⟨slot, after, _, other, _⟩
      · exact full
      · rw [other] at allocated
        cases allocated
    | some np =>
      obtain ⟨_, s1, changed, asks⟩ := bind_eq_ok.mp branches
      cases changed
      obtain ⟨page, s2, asked, goes⟩ := bind_eq_ok.mp asks
      obtain ⟨m, got, rfl⟩ := onMem_ok asked
      cases page with
      | none =>
        obtain ⟨rfl, _⟩ := Memory.kalloc_none got
        obtain ⟨_, s3, reset, ends⟩ := bind_eq_ok.mp goes
        cases reset
        obtain ⟨rfl, rfl⟩ := pure_eq_ok.mp ends
        exact ⟨fun _ => .undone np claimed _ allocated rfl (Trades.refl _ _) rfl rfl, nofun⟩
      | some n =>
        obtain ⟨_, s3, kept, ends⟩ := bind_eq_ok.mp goes
        cases kept
        obtain ⟨rfl, rfl⟩ := pure_eq_ok.mp ends
        refine ⟨nofun, ?_⟩
        rintro _ ⟨⟩
        exact ⟨claimed, n, m, rfl, got, rfl⟩

variable {curproc np : Slot}

theorem dupFiles_kernel (ran : dupFiles curproc np s = .ok ((), s')) :
    s'.kernel = s.kernel := by
  unfold dupFiles at ran
  split at ran
  · cases ran
  · cases ran
    rfl

/-- `fork` returns the identifier of the new process. -/
theorem finish_result [DecidableEq Inode] {pgdir : Nat} {result : Int}
    (ran : finish curproc np pgdir s = .ok (result, s')) : result = (s.kernel.proc np).pid := by
  unfold finish at ran
  obtain ⟨_, s1, changed, rest1⟩ := bind_eq_ok.mp ran
  cases changed
  obtain ⟨_, s2, changed, rest2⟩ := bind_eq_ok.mp rest1
  cases changed
  obtain ⟨_, s3, dupped, rest3⟩ := bind_eq_ok.mp rest2
  have kernel := dupFiles_kernel dupped
  obtain ⟨_, s4, got, rest4⟩ := bind_eq_ok.mp rest3
  cases got
  obtain ⟨_, s5, changed, rest5⟩ := bind_eq_ok.mp rest4
  cases changed
  obtain ⟨_, s6, changed, rest6⟩ := bind_eq_ok.mp rest5
  cases changed
  obtain ⟨_, s7, changed, ends⟩ := bind_eq_ok.mp rest6
  cases changed
  obtain ⟨rfl, _⟩ := pure_eq_ok.mp ends
  rw [kernel]
  exact Kernel.modify_keeps s.kernel np (fun p => { p with parent := some curproc }) Proc.pid rfl np

theorem claimed_pid {kernel claimed : Kernel ncpu}
    (allocated : kernel.allocproc policy = (some np, claimed)) :
    kernel.firstUnused = some np ∧ (claimed.proc np).pid = kernel.nextpid ∧
      (∀ p, p ≠ np → (claimed.proc p).pid = (kernel.proc p).pid) ∧
      ∀ p, p ≠ np → (claimed.proc p).state = (kernel.proc p).state := by
  rcases kernel.allocproc_cases policy with ⟨_, full⟩ | ⟨slot, after, found, other, files⟩
  · rw [full] at allocated
    cases allocated
  · rw [other] at allocated
    cases allocated
    refine ⟨found, ?_, ?_, ?_⟩
    · rw [(files.proc np).pid]
      simp [Kernel.claimSlot, Kernel.freshProc]
    · intro p different
      rw [(files.proc p).pid, Kernel.claimSlot_other kernel different]
    · intro p different
      rw [(files.proc p).state, Kernel.claimSlot_other kernel different]

theorem fork_failed [DecidableEq Inode] (positive : 1 ≤ s.kernel.nextpid)
    (limit : (s.image curproc).sz ≤ KERNBASE)
    (sound : s.mem.Sound (space s.mem (s.image curproc).pgdir))
    (ran : fork policy layout curproc s = .ok (-1, s')) : Failed policy s s' := by
  unfold fork at ran
  obtain ⟨found, s1, allocates, rest⟩ := bind_eq_ok.mp ran
  obtain ⟨failure, success⟩ := allocproc_ok allocates
  cases found with
  | none =>
    obtain ⟨_, rfl⟩ := pure_eq_ok.mp rest
    exact failure rfl
  | some np =>
    obtain ⟨claimed, n, m, allocated, asked, rfl⟩ := success np rfl
    obtain ⟨trade, free, pages⟩ := Memory.kalloc_some asked
    obtain ⟨_, same, got, copies⟩ := bind_eq_ok.mp rest
    cases got
    have pgdir : (update s.image np { s.image np with kstack := n } curproc).pgdir =
        (s.image curproc).pgdir := by
      rw [update_apply]
      split
      · rename_i same
        rw [same]
      · rfl
    have sz : (update s.image np { s.image np with kstack := n } curproc).sz =
        (s.image curproc).sz := by
      rw [update_apply]
      split
      · rename_i same
        rw [same]
      · rfl
    have kstack : (update s.image np { s.image np with kstack := n } np).kstack = n := by
      rw [update_self]
    obtain ⟨made, s2, copied, goes⟩ := bind_eq_ok.mp copies
    obtain ⟨m2, copiedMem, rfl⟩ := onMem_ok copied
    dsimp only [System.setImage] at copiedMem goes
    rw [pgdir, sz] at copiedMem
    cases made with
    | none =>
      rw [kstack] at goes
      obtain ⟨_, s3, freed, resets⟩ := bind_eq_ok.mp goes
      obtain ⟨m3, freedMem, rfl⟩ := onMem_ok freed
      obtain ⟨_, s4, reset, ends⟩ := bind_eq_ok.mp resets
      cases reset
      obtain ⟨_, rfl⟩ := pure_eq_ok.mp ends
      have beside : s.mem.Sound (0 + space s.mem (s.image curproc).pgdir) := by
        rwa [zero_add]
      have parent := Memory.sameSpace_of_trade trade beside
      have sound1 := (trade.frame (space s.mem (s.image curproc).pgdir)).sound beside
      rw [← parent.pages, add_comm] at sound1
      have held1 : Memory.Held layout False m (space m (s.image curproc).pgdir) :=
        ⟨sound1.left, False.elim⟩
      have refused := (((Memory.copyuvm_ends limit held1).post_of_ok copiedMem).1 rfl).1
      have back := (Memory.kfree_ok freedMem).1
      have stays : Trades m m2 {n} {n} := by
        have framed := refused.frame {n}
        rwa [zero_add] at framed
      exact .undone np claimed _ allocated rfl ((trade.trans stays).trans back) rfl rfl
    | some d =>
      have pid := finish_result goes
      rw [show _ = s.kernel.nextpid from (claimed_pid allocated).2.1] at pid
      omega

/-! ### What a failed call leaves -/

structure Unchanged (s s' : System ncpu Inode) : Prop where
  state : ∀ p, (s'.kernel.proc p).state = (s.kernel.proc p).state
  pid : ∀ p, (s'.kernel.proc p).pid = (s.kernel.proc p).pid
  rings : s'.kernel.rings = s.kernel.rings
  free : (s'.mem.freelist : Multiset Nat) = s.mem.freelist
  files : ∀ f, (s'.files.file f).ref = (s.files.file f).ref
  inodes : s'.ref = s.ref

theorem Unchanged.refl (s : System ncpu Inode) : Unchanged s s :=
  ⟨fun _ => rfl, fun _ => rfl, rfl, rfl, fun _ => rfl, rfl⟩

theorem claimed_rings {kernel claimed : Kernel ncpu}
    (reachable : (machine policy ncpu).Reachable kernel)
    (allocated : kernel.allocproc policy = (some np, claimed)) :
    claimed.rings = kernel.rings ↔ (policy = .mlfq → kernel.Queued np) := by
  have found := (claimed_pid allocated).1
  have result : claimed = (kernel.allocproc policy).2 := by rw [allocated]
  by_cases levels : policy = .mlfq
  · subst policy
    have ok := (Kernel.reachable_mlfqInv reachable).1.rings
    obtain ⟨pushed, queues⟩ := Kernel.allocproc_mlfq ok found
    rw [result, pushed]
    constructor
    · intro same _
      by_contra absent
      rw [Kernel.queues_congr same, LevelQueues.enqueue_of_absent absent] at queues
      have longer := congrFun queues 0
      rw [update_self] at longer
      simp at longer
    · intro waits
      have claims : (kernel.claimSlot np).RingsOk := ok.congr rfl rfl
      have queued : (kernel.claimSlot np).Queued np := waits rfl
      rw [Kernel.push_of_queued claims queued]
      rfl
  · refine iff_of_true ?_ (fun same => absurd same levels)
    rw [result]
    simp only [Kernel.allocproc, found, if_neg levels]
    rfl

theorem Failed.unchanged_iff (failed : Failed policy s s')
    (reachable : (machine policy ncpu).Reachable s.kernel) :
    Unchanged s s' ↔ s.kernel.firstUnused = none := by
  cases failed with
  | full full => exact iff_of_true (Unchanged.refl s) full
  | undone np claimed _ allocated kernel pages files ref =>
    obtain ⟨found, here, _, _⟩ := claimed_pid allocated
    refine iff_of_false ?_ (by rw [found]; nofun)
    intro unchanged
    have old := (Kernel.reachable_pidsApart reachable).below np
    have same := unchanged.pid np
    rw [kernel, Kernel.setState, Kernel.modify_proc_self] at same
    dsimp only at same
    omega

/-- A failed `fork` leaves the states of all slots, the free pages and the counts of files and
inodes as they were.  If a slot was free, it has a new identifier, and it stays in the ring
that it has come to.  So nothing at all has changed exactly if no slot was free. -/
theorem failing_fork [DecidableEq Inode] {curproc : Slot}
    (reachable : (machine policy ncpu).Reachable s.kernel)
    (limit : (s.image curproc).sz ≤ KERNBASE)
    (sound : s.mem.Sound (space s.mem (s.image curproc).pgdir))
    (ran : fork policy layout curproc s = .ok (-1, s')) :
    (Unchanged s s' ↔ s.kernel.firstUnused = none) ∧
      (∀ p, (s'.kernel.proc p).state = (s.kernel.proc p).state) ∧
      (s'.mem.freelist : Multiset Nat) = s.mem.freelist ∧
      (∀ f, (s'.files.file f).ref = (s.files.file f).ref) ∧ s'.ref = s.ref ∧
      (∀ p, (s'.kernel.proc p).pid =
        if s.kernel.firstUnused = some p then s.kernel.nextpid else (s.kernel.proc p).pid) ∧
      (s'.kernel.rings = s.kernel.rings ↔
        ∀ np, s.kernel.firstUnused = some np → policy = .mlfq → s.kernel.Queued np) := by
  have positive := (Kernel.reachable_pidInv reachable).positive
  have failed := fork_failed positive limit sound ran
  refine ⟨failed.unchanged_iff reachable, ?_⟩
  cases failed with
  | full full =>
    refine ⟨fun _ => rfl, rfl, fun _ => rfl, rfl, ?_, ?_⟩
    · intro p
      rw [full, if_neg nofun]
    · refine iff_of_true rfl ?_
      intro np found
      rw [full] at found
      cases found
  | undone np claimed _ allocated kernel pages files ref =>
    obtain ⟨found, here, others, states⟩ := claimed_pid allocated
    have free := pages.conserved
    rw [add_zero, add_zero] at free
    refine ⟨?_, free, fun f => by rw [files], ref, ?_, ?_⟩
    · intro p
      rw [kernel, Kernel.setState]
      by_cases same : p = np
      · rw [same, Kernel.modify_proc_self, Kernel.firstUnused_state found]
      · rw [Kernel.modify_proc_of_ne _ _ _ same]
        exact states p same
    · intro p
      have kept : (s'.kernel.proc p).pid = (claimed.proc p).pid := by
        rw [kernel]
        exact Kernel.modify_keeps claimed np (fun q => { q with state := .unused }) Proc.pid rfl p
      rw [kept, found]
      by_cases same : p = np
      · rw [same, here, if_pos rfl]
      · rw [others p same, if_neg (fun equal => same (Option.some.inj equal).symm)]
    · have rings : s'.kernel.rings = claimed.rings := by
        rw [kernel]
        exact Kernel.modify_rings _ _ _
      rw [rings, claimed_rings reachable allocated, found]
      constructor
      · rintro waits _ ⟨⟩
        exact waits
      · exact fun waits => waits np rfl

/-- A kernel in which only the first process runs, with one page of its own, and one page is
free. -/
def lastPage (kernel : Kernel 1) : System 1 (Fin 1) where
  kernel := kernel
  mem := Memory.onePageMem [1027]
  image := fun _ => { pgdir := 1024, kstack := 0, sz := Memory.PGSIZE }
  files := { file := fun _ => ⟨0, .none, false, false, 0⟩, ofile := fun _ => none }
  ref := fun _ => 1
  cwd := fun _ => 0

theorem lastPage_sized (kernel : Kernel 1) :
    Memory.Sized smallLayout (lastPage kernel).mem 1024 ((lastPage kernel).image 0).sz :=
  Memory.onePageMem_sized (by decide) (by decide)

def failed : Except Stop (Int × System 1 (Fin 1)) → Bool
  | .ok (result, _) => decide (result = -1)
  | .error _ => false

set_option maxRecDepth 100000 in
theorem lastPage_fails :
    ∃ kernel, (machine .mlfq 1).exec (Kernel.boot 1) (startUp ++ [.syscallEnter 0]) = some kernel ∧
      kernel.firstUnused = some 1 ∧ ¬kernel.Queued 1 ∧
      ∃ s', fork .mlfq smallLayout 0 (lastPage kernel) = .ok (-1, s') := by
  obtain ⟨kernel, ran, found, absent, fails⟩ :
      ∃ kernel, (machine .mlfq 1).exec (Kernel.boot 1) (startUp ++ [.syscallEnter 0]) =
        some kernel ∧
        kernel.firstUnused = some 1 ∧ ¬kernel.Queued 1 ∧
        failed (fork .mlfq smallLayout 0 (lastPage kernel)) = true := by
    decide +kernel
  refine ⟨kernel, ran, found, absent, ?_⟩
  cases forked : fork .mlfq smallLayout 0 (lastPage kernel) with
  | error cause =>
    rw [forked] at fails
    cases fails
  | ok pair =>
    rw [forked] at fails
    obtain ⟨result, s'⟩ := pair
    have minus : result = -1 := of_decide_eq_true fails
    exact ⟨s', by rw [minus]⟩

/-- The child of the first process would have had identifier 2; its slot keeps that
identifier. -/
theorem failing_fork_leaves_identifier :
    ¬∀ s s' : System 1 (Fin 1), (machine .mlfq 1).Reachable s.kernel →
      (s.image 0).sz ≤ KERNBASE → s.mem.Sound (space s.mem (s.image 0).pgdir) →
        fork .mlfq smallLayout 0 s = .ok (-1, s') → Unchanged s s' := by
  obtain ⟨kernel, ran, found, _, s', forked⟩ := lastPage_fails
  intro claimed
  have reachable : (machine .mlfq 1).Reachable (lastPage kernel).kernel := ⟨_, ran⟩
  have limit : ((lastPage kernel).image 0).sz ≤ KERNBASE := (lastPage_sized kernel).bound
  have failed := fork_failed (Kernel.reachable_pidInv reachable).positive limit
    (lastPage_sized kernel).sound forked
  have unchanged := claimed _ s' reachable limit (lastPage_sized kernel).sound forked
  have full : kernel.firstUnused = none := (failed.unchanged_iff reachable).mp unchanged
  rw [found] at full
  cases full

/-- The page is free again, but the slot is in the rings. -/
theorem failing_fork_last_page :
    ∃ kernel s', (machine .mlfq 1).Reachable kernel ∧
      fork .mlfq smallLayout 0 (lastPage kernel) = .ok (-1, s') ∧
      (s'.mem.freelist : Multiset Nat) = {1027} ∧ s'.kernel.rings ≠ kernel.rings := by
  obtain ⟨kernel, ran, found, absent, s', forked⟩ := lastPage_fails
  obtain ⟨_, _, free, _, _, _, rings⟩ :=
    failing_fork ⟨_, ran⟩ (lastPage_sized kernel).bound (lastPage_sized kernel).sound forked
  refine ⟨kernel, s', ⟨_, ran⟩, forked, free, ?_⟩
  intro same
  exact absent (rings.mp same 1 found rfl)

end Xv6.Forks
