/-
Who owns a page of physical memory.

From the start on, every page that the allocator manages is free, or belongs to exactly one
of the kernel's page table, the stacks of the processors, the processes and the pipes, as
long as `exec` finds the page tables of all addresses that it copies arguments to.  The same
runs keep the counts of the open files and the flags of the pipes.
-/

import Xv6.Memory.ExecCopies

namespace Xv6.Memory

open Library

variable {Inode : Type} {layout : Layout} {k : Kernel Inode}

/-! ### Ownership along runs -/

theorem always_inv {content : Nat → Page} {cpus size : Nat} {init : Nat → UInt8}
    (booted : main layout content cpus init size = .ok k)
    {labels : List (Fin NPROC × Event Inode)}
    (meets : (kernel layout k).Meets (Safe layout) k labels) :
    (kernel layout k).Always (Inv layout) k labels :=
  Machine.Meets.always (fun _ _ _ inv safe stepped => step_inv inv safe stepped)
    (main_ok booted).inv meets

/-- Along every run from the start in which `exec` meets no missing page table, every page
is free or has exactly one owner. -/
theorem page_ownership {content : Nat → Page} {cpus size : Nat} {init : Nat → UInt8}
    (booted : main layout content cpus init size = .ok k)
    (labels : List (Fin NPROC × Event Inode))
    (meets : (kernel layout k).Meets (Safe layout) k labels) :
    (kernel layout k).Always (Owns layout) k labels :=
  (always_inv booted meets).mono fun _ inv => inv.owns

/-- The first process runs another program, which forks; the child ends before the parent has
waited for it. -/
theorem page_ownership_exec_and_fork : ∃ k : Kernel Unit,
    main smallLayout (fun _ => zeroPage) 1 (fun _ => 0) 0 = .ok k ∧
      (kernel smallLayout k).Always (Owns smallLayout) k
        [(0, .exec (some bareFile) [⟨100, fun _ => 1⟩]), (0, .sbrk 8192), (0, .fork), (0, .pipe 0),
          (1, .sbrk (-4096)), (1, .exit), (0, .wait)] := by
  obtain ⟨k, booted⟩ := small_starts
  have funded : Funded smallLayout k.mem (uses k) := (main_ok booted).inv.owns
  have short : ∀ arg ∈ [(⟨100, fun _ => 1⟩ : Str)], arg.len < UINT - DEVSPACE :=
    List.forall_mem_singleton.mpr (by decide)
  have tables : TablesPresent smallLayout k.mem (some bareFile) [⟨100, fun _ => 1⟩] :=
    tablesPresent_of_short funded.held_zero short
  refine ⟨k, booted, page_ownership booted _ ?_⟩
  simp only [Machine.Meets, Safe]
  exact fun _ _ => ⟨tables, fun _ _ => ⟨trivial, fun _ _ => ⟨trivial, fun _ _ => ⟨trivial,
    fun _ _ => ⟨trivial, fun _ _ => ⟨trivial, fun _ _ => ⟨trivial, trivial⟩⟩⟩⟩⟩⟩⟩

/-- Memory safety is lost from the start: the run ends with a page that two entries of a
page table own. -/
theorem page_shared_after_exec : ∃ (k k' : Kernel Unit) (table : Nat),
    main smallLayout (fun _ => zeroPage) 1 (fun _ => 0) 0 = .ok k ∧
      (kernel smallLayout k).exec k (wildExec k.initproc table) = some k' ∧
      ¬ Owns smallLayout k' := by
  obtain ⟨k, started⟩ := small_starts
  obtain ⟨table, k', ran, broken⟩ := wildExec_breaks (main_ok started)
  exact ⟨k, k', table, started, ran, broken⟩

/-! ### Descriptors and pipes -/

/-- The count of a file is the number of descriptors for it, which no process that has ended
has, and a file never refers to a pipe whose page is free.  A pipe has at most one file for
each end, and the flag of an end is set exactly while its file exists. -/
structure Descriptors (k : Kernel Inode) : Prop where
  counted : ∀ f, (k.files.file f).ref = pointers k.files.ofile f
  closed : ∀ p fd, (k.proc p).state = .unused ∨ (k.proc p).state = .zombie →
    k.files.ofile (p, fd) = none
  kept : ∀ f n, (k.files.file f).type = .pipe n → 0 < (k.files.file f).ref ∧ n ∉ k.mem.freelist
  ends : ∀ f n, (k.files.file f).type = .pipe n → ∀ writable,
    (k.pipe n).isOpen writable = true ↔
      ∃! g, (k.files.file g).type = .pipe n ∧ (k.files.file g).writable = writable

theorem Inv.descriptors (inv : Inv layout k) : Descriptors k := by
  have ends := inv.ledger.paid.ends
  refine ⟨fun f => inv.ledger.counted.balanced f, inv.closed, fun f n type => ⟨?_, ?_⟩,
    fun f n type writable => ⟨fun isOpen => ?_, ?_⟩⟩
  · refine Nat.pos_of_ne_zero fun zero => ?_
    rw [inv.ledger.counted.free f zero] at type
    cases type
  · have member : Use.page n ∈ uses k :=
      Multiset.mem_add.mpr (Or.inl (Multiset.mem_map_of_mem _ (mem_pipePages.mpr ⟨f, type⟩)))
    exact (Funded.sound inv.owns).not_free
      (subset_shares member (Multiset.mem_singleton_self n))
  · obtain ⟨g, typeG, own⟩ := ends.partner f n writable type isOpen
    exact ⟨g, ⟨typeG, own⟩, fun other found =>
      ends.unique other g n found.1 typeG (found.2.trans own.symm)⟩
  · rintro ⟨g, ⟨typeG, own⟩, _⟩
    rw [← own]
    exact ends.opened g n typeG

theorem descriptors_counted {content : Nat → Page} {cpus size : Nat} {init : Nat → UInt8}
    (booted : main layout content cpus init size = .ok k)
    (labels : List (Fin NPROC × Event Inode))
    (meets : (kernel layout k).Meets (Safe layout) k labels) :
    (kernel layout k).Always Descriptors k labels :=
  (always_inv booted meets).mono fun _ inv => inv.descriptors

theorem descriptors_counted_pipe : ∃ k : Kernel Unit,
    main smallLayout (fun _ => zeroPage) 1 (fun _ => 0) 0 = .ok k ∧
      (kernel smallLayout k).Always Descriptors k [(0, .pipe 0), (0, .fork), (0, .close 1)] := by
  obtain ⟨k, booted⟩ := small_starts
  exact ⟨k, booted, descriptors_counted booted _ (by simp [Machine.Meets, Safe])⟩

end Xv6.Memory
