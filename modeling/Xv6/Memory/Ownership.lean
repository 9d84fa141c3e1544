/-
Every page is in one place.

At the boundaries of calls the uses of pages are the directory and the stacks that `main`
has made, the kernel stack and the address space of every process, and the pipes.
-/

import Xv6.Memory.Ledger

namespace Xv6.Memory

open Function Library Library.Code
open Files

variable {Inode : Type} {layout : Layout} {m m' : Mem} {k k' : Kernel Inode}
  {p : Fin NPROC}

/-! ### The uses of the kernel -/

/-- What a process owns; the stack of an `EMBRYO` is still with `allocproc`'s caller. -/
def Proc.uses (proc : Proc) : Multiset Use :=
  if proc.state = .unused ∨ proc.state = .embryo then 0
  else {.page proc.kstack} + {.space proc.pgdir}

@[irreducible]
def procUses (proc : Fin NPROC → Proc) : Multiset Use := ∑ p, (proc p).uses

/-- All uses but those of the pipes. -/
def restUses (k : Kernel Inode) : Multiset Use :=
  {.space k.kpgdir} + (k.cpuStacks.map Use.page : List Use) + procUses k.proc

def uses (k : Kernel Inode) : Multiset Use := pipeUses k.files + restUses k

/-- The free pages and the pages of all uses are the pages that were handed to the
allocator, each of them once. -/
def Owns (layout : Layout) (k : Kernel Inode) : Prop := Funded layout k.mem (uses k)

variable {proc : Proc} {d va : Nat} {result : Option (Fin NPROC)} {done : Bool}
  {rest : Multiset Use} {fd : Fin NOFILE} {f : Fin NFILE}

theorem uses_of_unused (state : proc.state = .unused) : proc.uses = 0 :=
  if_pos (Or.inl state)

theorem uses_of_runnable (state : proc.state = .runnable) :
    proc.uses = {.page proc.kstack} + {.space proc.pgdir} := by
  unfold Proc.uses
  rw [state]
  rfl

theorem uses_of_zombie (state : proc.state = .zombie) :
    proc.uses = {.page proc.kstack} + {.space proc.pgdir} := by
  unfold Proc.uses
  rw [state]
  rfl

theorem procUses_split (proc : Fin NPROC → Proc) (p : Fin NPROC) :
    ∃ others, procUses proc = (proc p).uses + others ∧
      ∀ q, procUses (update proc p q) = q.uses + others := by
  unfold procUses
  refine ⟨∑ r ∈ Finset.univ.erase p, (proc r).uses, ?_, ?_⟩
  · exact (Finset.add_sum_erase Finset.univ _ (Finset.mem_univ p)).symm
  · intro q
    rw [← Finset.add_sum_erase Finset.univ _ (Finset.mem_univ p), update_self]
    congr 1
    apply Finset.sum_congr rfl
    intro r inside
    rw [update_of_ne (Finset.ne_of_mem_erase inside)]

theorem procUses_congr {proc proc' : Fin NPROC → Proc}
    (same : ∀ p, (proc' p).uses = (proc p).uses) : procUses proc' = procUses proc := by
  unfold procUses
  exact Finset.sum_congr rfl (fun p _ => same p)

theorem restUses_split (k : Kernel Inode) (p : Fin NPROC) :
    ∃ others, restUses k = (k.proc p).uses + others ∧
      ∀ proc, restUses (k.setProc p proc) = proc.uses + others := by
  obtain ⟨others, before, after⟩ := procUses_split k.proc p
  refine ⟨{.space k.kpgdir} + (k.cpuStacks.map Use.page : List Use) + others, ?_, ?_⟩
  · unfold restUses
    rw [before]
    ac_rfl
  · intro proc
    change {.space k.kpgdir} + (k.cpuStacks.map Use.page : Multiset Use) +
      procUses (update k.proc p proc) = _
    rw [after]
    ac_rfl

/-! ### The invariant -/

structure Inv (layout : Layout) (k : Kernel Inode) : Prop where
  ledger : Ledger layout k 0 (restUses k)
  bounded : ∀ p, (k.proc p).sz ≤ KERNBASE
  closed : ∀ p fd, (k.proc p).state = .unused ∨ (k.proc p).state = .zombie →
    k.files.ofile (p, fd) = none

theorem Inv.owns (inv : Inv layout k) : Owns layout k := inv.ledger.paid.funded

/-- One process, its memory and its descriptors change.  `others` is what everybody else
owns. -/
theorem Inv.change (inv : Inv layout k) (p : Fin NPROC) :
    ∃ others, uses k = (k.proc p).uses + others ∧
      ∀ m' files proc, Funded layout m' (proc.uses + others) → proc.sz ≤ KERNBASE →
        Counted files 0 → SameFiles k.files files →
        (∀ q fd, q ≠ p → files.ofile (q, fd) = k.files.ofile (q, fd)) →
        (proc.state = .unused ∨ proc.state = .zombie → ∀ fd, files.ofile (p, fd) = none) →
        Inv layout { k.setProc p proc with mem := m', files := files } := by
  obtain ⟨others, before, after⟩ := restUses_split k p
  refine ⟨pipeUses k.files + others, ?_, ?_⟩
  · unfold uses
    rw [before]
    ac_rfl
  · intro m' files proc funded bound counted alike outside closed
    have pages : pipeUses files = pipeUses k.files := by
      unfold pipeUses
      rw [pipePages_congr alike]
    refine ⟨⟨⟨?_, inv.ledger.paid.ends.congr alike⟩, counted⟩, ?_, ?_⟩
    · change Funded layout m' (pipeUses files + restUses (k.setProc p proc))
      have order : proc.uses + (pipeUses k.files + others) =
          pipeUses k.files + (proc.uses + others) := by ac_rfl
      rw [after, pages, ← order]
      exact funded
    · intro q
      by_cases same : q = p
      · rw [same]
        change (update k.proc p proc p).sz ≤ KERNBASE
        rw [update_self]
        exact bound
      · change (update k.proc p proc q).sz ≤ KERNBASE
        rw [update_of_ne same]
        exact inv.bounded q
    · intro q fd state
      change (update k.proc p proc q).state = .unused ∨
        (update k.proc p proc q).state = .zombie at state
      by_cases same : q = p
      · rw [same] at state ⊢
        rw [update_self] at state
        exact closed state fd
      · rw [update_of_ne same] at state
        exact (outside q fd same).trans (inv.closed q fd state)

theorem Inv.change_mem (inv : Inv layout k) (p : Fin NPROC) :
    ∃ others, uses k = (k.proc p).uses + others ∧
      ∀ m' proc, Funded layout m' (proc.uses + others) → proc.sz ≤ KERNBASE →
        (proc.state = .unused ∨ proc.state = .zombie →
          ∀ fd, k.files.ofile (p, fd) = none) →
        Inv layout { k.setProc p proc with mem := m' } := by
  obtain ⟨others, split, changes⟩ := inv.change p
  refine ⟨others, split, ?_⟩
  intro m' proc fundedAfter bound closed
  exact changes m' k.files proc fundedAfter bound inv.ledger.counted (SameFiles.refl _)
    (fun _ _ _ => rfl) closed

theorem Inv.ownSpace {sz : Nat} (inv : Inv layout k) (running : (k.proc p).state = .runnable)
    (trade : Trades k.mem m' (space k.mem (k.proc p).pgdir) (space m' (k.proc p).pgdir))
    (bound : sz ≤ KERNBASE) :
    Inv layout { k.setProc p { k.proc p with sz := sz } with mem := m' } := by
  obtain ⟨others, split, changes⟩ := inv.change_mem p
  have funded : Funded layout k.mem (uses k) := inv.owns
  refine changes m' _ ?_ bound ?_
  · rw [split, uses_of_runnable running] at funded
    have order : ({.page (k.proc p).kstack} + {.space (k.proc p).pgdir} : Multiset Use) + others =
        .space (k.proc p).pgdir ::ₘ ({.page (k.proc p).kstack} + others) := by
      rw [← Multiset.singleton_add]
      ac_rfl
    have same : ({ k.proc p with sz := sz } : Proc).uses =
        {.page (k.proc p).kstack} + {.space (k.proc p).pgdir} := uses_of_runnable running
    rw [order] at funded
    rw [same, order]
    exact funded.space_trade trade
  · intro ended
    change (k.proc p).state = .unused ∨ (k.proc p).state = .zombie at ended
    rw [running] at ended
    simp at ended

theorem setProc_self (k : Kernel Inode) (p : Fin NPROC) : k.setProc p (k.proc p) = k := by
  unfold Kernel.setProc
  rw [update_eq_self]

theorem Inv.ownSpace_same (inv : Inv layout k) (running : (k.proc p).state = .runnable)
    (trade : Trades k.mem m' (space k.mem (k.proc p).pgdir) (space m' (k.proc p).pgdir)) :
    Inv layout { k with mem := m' } := by
  have after := inv.ownSpace running trade (inv.bounded p)
  change Inv layout { k.setProc p (k.proc p) with mem := m' } at after
  rw [setProc_self] at after
  exact after

theorem mem_uses_of_runnable (inv : Inv layout k) (running : (k.proc p).state = .runnable) :
    Use.space (k.proc p).pgdir ∈ uses k := by
  obtain ⟨others, split, _⟩ := inv.change p
  rw [split, uses_of_runnable running, Multiset.mem_add, Multiset.mem_add]
  exact Or.inl (Or.inr (Multiset.mem_singleton_self _))

theorem Funded.held_of_mem {uses : Multiset Use} (funded : Funded layout m uses)
    (member : Use.space d ∈ uses) : Held layout True m (space m d) := by
  obtain ⟨rest, rfl⟩ := Multiset.exists_cons_of_mem member
  exact funded.held_space

theorem Inv.held_space (inv : Inv layout k) (running : (k.proc p).state = .runnable) :
    Held layout True k.mem (space k.mem (k.proc p).pgdir) :=
  Funded.held_of_mem inv.owns (mem_uses_of_runnable inv running)

theorem Inv.same_mem (inv : Inv layout k) (funded : Funded layout m' (uses k)) :
    Inv layout { k with mem := m' } :=
  ⟨⟨⟨funded, inv.ledger.paid.ends⟩, inv.ledger.counted⟩, inv.bounded, inv.closed⟩

/-! ### Memory -/

theorem growproc_inv {n : Int} {grown : Bool} (inv : Inv layout k)
    (running : (k.proc p).state = .runnable)
    (ran : growproc layout p n k = .ok (grown, k')) : Inv layout k' := by
  have held := inv.held_space running
  unfold growproc at ran
  have branches := get_bind.symm.trans ran
  split at branches
  · obtain ⟨sz, k1, resized, sets⟩ := bind_eq_ok.mp branches
    obtain ⟨m1, allocated, rfl⟩ := onMem_eq_ok.mp resized
    have allocates := (allocuvm_ends _ _ held).post_of_ok allocated
    split at sets
    · obtain ⟨_, rfl⟩ := pure_eq_ok.mp sets
      exact inv.ownSpace_same running allocates.trade
    · rename_i success
      obtain ⟨_, k2, set, ends⟩ := bind_eq_ok.mp sets
      cases set
      obtain ⟨_, rfl⟩ := pure_eq_ok.mp ends
      apply inv.ownSpace running allocates.trade
      obtain ⟨small, size, _⟩ := allocates.success success
      rw [size]
      exact Nat.max_le.mpr ⟨inv.bounded p, Nat.le_of_lt small⟩
  · split at branches
    · obtain ⟨sz, k1, resized, sets⟩ := bind_eq_ok.mp branches
      obtain ⟨m1, freed, rfl⟩ := onMem_eq_ok.mp resized
      obtain ⟨size, clears⟩ := (deallocuvm_ends _ (inv.bounded p) held).post_of_ok freed
      have shrinks : sz ≤ (k.proc p).sz := by
        rw [size]
        split <;> omega
      split at sets
      · obtain ⟨_, rfl⟩ := pure_eq_ok.mp sets
        exact inv.ownSpace_same running clears.trade
      · obtain ⟨_, k2, set, ends⟩ := bind_eq_ok.mp sets
        cases set
        obtain ⟨_, rfl⟩ := pure_eq_ok.mp ends
        exact inv.ownSpace running clears.trade (Nat.le_trans shrinks (inv.bounded p))
    · obtain ⟨_, rfl⟩ := pure_eq_ok.mp branches
      exact inv

theorem moveBytes_ok {source : Nat → UInt8} (count : Nat) :
    ∀ {m' : Mem}, m.Sound (space m d) → va + count ≤ KERNBASE →
      moveBytes layout d va source count m = .ok ((), m') → Writes m m' d := by
  induction count with
  | zero =>
    intro m' sound limit ran
    obtain ⟨_, rfl⟩ := pure_eq_ok.mp ran
    exact Writes.refl _ _
  | succ count ih =>
    intro m' sound limit ran
    obtain ⟨_, m1, moved, goes⟩ := bind_eq_ok.mp ran
    have first := ih sound (by omega) moved
    have sound1 := first.sound sound
    obtain ⟨found, m2, walked, reads⟩ := bind_eq_ok.mp goes
    have walks := walkpgdir_ok sound1 walked
    obtain rfl := walks.same rfl
    cases found with
    | none => exact absurd reads stop_ne_ok
    | some t =>
      obtain ⟨w, same, read, stores⟩ := bind_eq_ok.mp reads
      obtain ⟨rfl, rfl⟩ := getWord_eq_ok.mp read
      rw [walks.entry_eq] at stores
      split at stores
      · rename_i there
        have low : (slot ((va + count) / PGSIZE)).low = true := by
          apply slot_low
          simp only [PGSIZE, KERNBASE] at limit ⊢
          omega
        exact first.trans (store_ok sound1 (mem_users.mpr ⟨_, low, there, rfl⟩) stores)
      · exact absurd stores stop_ne_ok

theorem moveBytes_inv {count : Nat} {source : Nat → UInt8} (inv : Inv layout k)
    (running : (k.proc p).state = .runnable) (limit : va + count ≤ (k.proc p).sz)
    (ran : onMem (moveBytes layout (k.proc p).pgdir va source count) k = .ok ((), k')) :
    Inv layout k' := by
  obtain ⟨m1, moved, rfl⟩ := onMem_eq_ok.mp ran
  have writes := moveBytes_ok count (inv.held_space running).sound
    (Nat.le_trans limit (inv.bounded p)) moved
  exact inv.ownSpace_same running writes.trade

theorem userStore_ok {vpn : Nat} {word : Fin NPTENTRIES} {value : UInt32} {stored : Bool}
    (sound : m.Sound (space m d)) (ran : userStore d vpn word value m = .ok (stored, m')) :
    Writes m m' d := by
  unfold userStore at ran
  split at ran
  · rename_i below
    obtain ⟨found, m1, walked, reads⟩ := bind_eq_ok.mp ran
    have walks := walkpgdir_ok sound walked
    obtain rfl := walks.same rfl
    cases found with
    | none =>
      obtain ⟨_, rfl⟩ := pure_eq_ok.mp reads
      exact Writes.refl _ _
    | some t =>
      obtain ⟨w, same, read, stores⟩ := bind_eq_ok.mp reads
      obtain ⟨rfl, rfl⟩ := getWord_eq_ok.mp read
      rw [walks.entry_eq] at stores
      split at stores
      · rename_i allowed
        obtain ⟨_, m2, written, ends⟩ := bind_eq_ok.mp stores
        cases written
        obtain ⟨_, rfl⟩ := pure_eq_ok.mp ends
        exact writes_setPage sound
          (mem_users.mpr ⟨_, slot_low below, allowed.1, rfl⟩) _
      · obtain ⟨_, rfl⟩ := pure_eq_ok.mp stores
        exact Writes.refl _ _
  · obtain ⟨_, rfl⟩ := pure_eq_ok.mp ran
    exact Writes.refl _ _

/-! ### Processes -/

/-- What `allocproc` has done: nothing that counts, or a slot with a stack. -/
theorem allocproc_ok (ran : allocproc k = .ok (result, k')) :
    (result = none → k' = k ∨ ∃ np, (k.proc np).state = .unused ∧
        k' = k.setProc np { k.proc np with state := .unused, kstack := 0 }) ∧
      ∀ np, result = some np → (k.proc np).state = .unused ∧
        ∃ n m, kalloc k.mem = .ok (some n, m) ∧
          k' = { k.setProc np { k.proc np with state := .embryo, kstack := n } with mem := m } := by
  unfold allocproc at ran
  have scans := get_bind.symm.trans ran
  cases found : slots.find? (fun p => (k.proc p).state = .unused) with
  | none =>
    rw [found] at scans
    obtain ⟨rfl, rfl⟩ := pure_eq_ok.mp scans
    exact ⟨fun _ => Or.inl rfl, by simp⟩
  | some np =>
    have test := List.find?_some found
    have unused : (k.proc np).state = .unused := of_decide_eq_true test
    rw [found] at scans
    obtain ⟨_, k1, set, asks⟩ := bind_eq_ok.mp scans
    cases set
    obtain ⟨page, k2, asked, goes⟩ := bind_eq_ok.mp asks
    obtain ⟨m, allocated, rfl⟩ := onMem_eq_ok.mp asked
    cases page with
    | none =>
      obtain ⟨rfl, _⟩ := kalloc_none allocated
      obtain ⟨_, k3, set, ends⟩ := bind_eq_ok.mp goes
      cases set
      obtain ⟨rfl, rfl⟩ := pure_eq_ok.mp ends
      refine ⟨fun _ => Or.inr ⟨np, unused, ?_⟩, by simp⟩
      simp only [Kernel.setProc, update_idem]
    | some n =>
      obtain ⟨_, k3, set, ends⟩ := bind_eq_ok.mp goes
      cases set
      obtain ⟨rfl, rfl⟩ := pure_eq_ok.mp ends
      refine ⟨by simp, ?_⟩
      intro np' equal
      cases equal
      refine ⟨unused, n, m, allocated, ?_⟩
      simp only [Kernel.setProc, update_idem]

theorem fork_inv (inv : Inv layout k) (running : (k.proc p).state = .runnable)
    (ran : fork layout p k = .ok (result, k')) : Inv layout k' := by
  unfold fork at ran
  obtain ⟨allocated, k1, allocates, copies⟩ := bind_eq_ok.mp ran
  obtain ⟨failure, success⟩ := allocproc_ok allocates
  cases allocated with
  | none =>
    obtain ⟨_, rfl⟩ := pure_eq_ok.mp copies
    rcases failure rfl with rfl | ⟨np, unused, rfl⟩
    · exact inv
    · obtain ⟨others, split, changes⟩ := inv.change_mem np
      rw [uses_of_unused unused] at split
      refine changes k.mem _ ?_ (inv.bounded np) (fun _ fd => inv.closed np fd (Or.inl unused))
      rw [uses_of_unused rfl, ← split]
      exact inv.owns
  | some np =>
    obtain ⟨unused, n, m, asked, rfl⟩ := success np rfl
    have apart : p ≠ np := by
      intro same
      rw [same, unused] at running
      cases running
    obtain ⟨others, split, changes⟩ := inv.change np
    rw [uses_of_unused unused, zero_add] at split
    have funded : Funded layout k.mem (uses k) := inv.owns
    rw [split] at funded
    have funded1 := funded.kalloc asked
    have goes := get_bind.symm.trans copies
    have parent : (k.setProc np { k.proc np with state := .embryo, kstack := n }).proc p =
        k.proc p := update_of_ne apart ..
    have child : (k.setProc np { k.proc np with state := .embryo, kstack := n }).proc np =
        { k.proc np with state := .embryo, kstack := n } := update_self ..
    simp only [parent, child] at goes
    obtain ⟨made, k2, copied, installs⟩ := bind_eq_ok.mp goes
    obtain ⟨m2, copiedMem, rfl⟩ := onMem_eq_ok.mp copied
    have member : Use.space (k.proc p).pgdir ∈ Use.page n ::ₘ others := by
      rw [← split]
      exact Multiset.mem_cons_of_mem (mem_uses_of_runnable inv running)
    obtain ⟨refused, copies⟩ :=
      (copyuvm_ends (inv.bounded p) (funded1.held_of_mem member)).post_of_ok copiedMem
    cases made with
    | none =>
      have funded2 := funded1.same (refused rfl).1
      obtain ⟨_, k3, freed, sets⟩ := bind_eq_ok.mp installs
      obtain ⟨m3, freedMem, rfl⟩ := onMem_eq_ok.mp freed
      obtain ⟨_, k4, set, ends⟩ := bind_eq_ok.mp sets
      cases set
      obtain ⟨_, rfl⟩ := pure_eq_ok.mp ends
      have funded3 := funded2.kfree freedMem
      have after := changes m3 k.files { k.proc np with state := .unused, kstack := 0 }
        (by rw [uses_of_unused rfl, zero_add]; exact funded3) (inv.bounded np)
        inv.ledger.counted (SameFiles.refl _) (fun _ _ _ => rfl)
        (fun _ fd => inv.closed np fd (Or.inl unused))
      simp only [Kernel.setProc, update_idem] at after ⊢
      exact after
    | some d =>
      have funded2 := funded1.newSpace (copies d rfl).trade
      obtain ⟨_, k3, set, dups⟩ := bind_eq_ok.mp installs
      cases set
      cases dupped : k.files.dupFiles p np (List.finRange NOFILE) with
      | none =>
        simp only [Kernel.setProc, dupped] at dups
        exact absurd dups stop_ne_ok
      | some files =>
        simp only [Kernel.setProc, dupped] at dups
        obtain ⟨_, k4, set, sets⟩ := bind_eq_ok.mp dups
        cases set
        obtain ⟨_, k5, set, ends⟩ := bind_eq_ok.mp sets
        cases set
        obtain ⟨_, rfl⟩ := pure_eq_ok.mp ends
        obtain ⟨counted, alike, outside⟩ := dupFiles_ok _ inv.ledger.counted
          (List.nodup_finRange NOFILE) (fun fd _ => inv.closed np fd (Or.inl unused)) dupped
        have after := changes m2 files ⟨.runnable, d, n, (k.proc p).sz, some p⟩
          (by
            rw [uses_of_runnable rfl]
            have order : ({.page n} + {.space d} : Multiset Use) + others =
                .space d ::ₘ .page n ::ₘ others := by
              rw [← Multiset.singleton_add, ← Multiset.singleton_add]
              ac_rfl
            rw [order]
            exact funded2)
          (inv.bounded p) counted alike outside (by simp)
        simp only [Kernel.setProc, update_idem] at after ⊢
        exact after

theorem order_space (n d : Nat) (others : Multiset Use) :
    ({.page n} + {.space d} : Multiset Use) + others = .space d ::ₘ .page n ::ₘ others := by
  rw [← Multiset.singleton_add, ← Multiset.singleton_add]
  ac_rfl

/-- The condition under which `exec` keeps the pages apart: no lookup of `uva2ka` goes
through a page table that is missing. -/
def TablesPresent (layout : Layout) (m : Mem) (file : Option File) (argv : List Str) : Prop :=
  exec layout (Code.stop .missingTable) file argv m ≠ .error .missingTable

theorem sys_exec_inv {file : Option File} {argv : List Str} (inv : Inv layout k)
    (running : (k.proc p).state = .runnable) (tables : TablesPresent layout k.mem file argv)
    (ran : sys_exec layout p file argv k = .ok (done, k')) : Inv layout k' := by
  unfold sys_exec at ran
  have branches := get_bind.symm.trans ran
  split at branches
  · obtain ⟨built, k1, executed, commits⟩ := bind_eq_ok.mp branches
    obtain ⟨m1, executedMem, rfl⟩ := onMem_eq_ok.mp executed
    rw [exec_agrees (loadNull (k.proc p).pgdir) file argv k.mem tables] at executedMem
    have owned : Funded layout k.mem (uses k) := inv.owns
    obtain ⟨refused, installed⟩ := (exec_ends owned.held_zero file argv).post_of_ok executedMem
    cases built with
    | none =>
      obtain ⟨_, rfl⟩ := pure_eq_ok.mp commits
      exact inv.same_mem (owned.same (refused rfl))
    | some image =>
      obtain ⟨trade, _, _, _, built⟩ := installed image rfl
      obtain ⟨_, k2, set, frees⟩ := bind_eq_ok.mp commits
      cases set
      obtain ⟨_, k3, freed, ends⟩ := bind_eq_ok.mp frees
      obtain ⟨m3, freedMem, rfl⟩ := onMem_eq_ok.mp freed
      obtain ⟨_, rfl⟩ := pure_eq_ok.mp ends
      obtain ⟨others, split, changes⟩ := inv.change_mem p
      rw [split, uses_of_runnable running, order_space] at owned
      have both := owned.newSpace trade
      rw [Multiset.cons_swap] at both
      have funded := both.freevm freedMem
      refine changes m3 _ ?_ built.ready.bound ?_
      · have installed : ({ k.proc p with pgdir := image.pgdir, sz := image.sz } : Proc).uses =
            {.page (k.proc p).kstack} + {.space image.pgdir} := uses_of_runnable running
        rw [installed, order_space]
        exact funded
      · intro ended
        change (k.proc p).state = .unused ∨ (k.proc p).state = .zombie at ended
        rw [running] at ended
        simp at ended
  · obtain ⟨_, rfl⟩ := pure_eq_ok.mp branches
    exact inv

theorem wait_inv (inv : Inv layout k) (ran : wait layout p k = .ok (result, k')) :
    Inv layout k' ∧ ∀ q, (k.proc q).state = .runnable → k'.proc q = k.proc q := by
  unfold wait at ran
  have scans := get_bind.symm.trans ran
  cases found : findZombie k p with
  | none =>
    rw [found] at scans
    obtain ⟨_, rfl⟩ := pure_eq_ok.mp scans
    exact ⟨inv, fun _ _ => rfl⟩
  | some q =>
    have test := List.find?_some found
    have zombie : (k.proc q).state = .zombie := (of_decide_eq_true test).2
    rw [found] at scans
    obtain ⟨_, k1, freed, sets⟩ := bind_eq_ok.mp scans
    obtain ⟨m1, freedMem, rfl⟩ := onMem_eq_ok.mp freed
    obtain ⟨_, k2, set, drops⟩ := bind_eq_ok.mp sets
    cases set
    obtain ⟨_, k3, dropped, sets⟩ := bind_eq_ok.mp drops
    obtain ⟨m3, droppedMem, rfl⟩ := onMem_eq_ok.mp dropped
    obtain ⟨_, k4, set, ends⟩ := bind_eq_ok.mp sets
    cases set
    obtain ⟨_, rfl⟩ := pure_eq_ok.mp ends
    obtain ⟨others, split, changes⟩ := inv.change_mem q
    have owned : Funded layout k.mem (uses k) := inv.owns
    rw [split, uses_of_zombie zombie, order_space, Multiset.cons_swap] at owned
    have funded := (owned.kfree freedMem).freevm droppedMem
    have after := changes m3
      { k.proc q with kstack := 0, parent := none, state := .unused }
      (by rw [uses_of_unused rfl, zero_add]; exact funded) (inv.bounded q)
      (fun _ fd => inv.closed q fd (Or.inr zombie))
    simp only [Kernel.setProc, update_idem] at after ⊢
    refine ⟨after, ?_⟩
    intro r running
    apply update_of_ne
    intro equal
    rw [equal, zombie] at running
    cases running

theorem inside_le {size : Nat} (tested : inside proc va size = true) :
    va + size ≤ proc.sz := by
  unfold inside at tested
  rw [Bool.and_eq_true, decide_eq_true_eq, decide_eq_true_eq] at tested
  exact tested.2

theorem sys_waitx_inv {wtimeAt rtimeAt wtime rtime : Nat} (inv : Inv layout k)
    (running : (k.proc p).state = .runnable)
    (ran : sys_waitx layout p wtimeAt rtimeAt wtime rtime k = .ok (result, k')) :
    Inv layout k' := by
  unfold sys_waitx at ran
  have branches := get_bind.symm.trans ran
  split at branches
  · rename_i tested
    obtain ⟨found, k1, waited, stores⟩ := bind_eq_ok.mp branches
    obtain ⟨inv1, others⟩ := wait_inv inv waited
    have proc1 := others p running
    cases found with
    | none =>
      obtain ⟨_, rfl⟩ := pure_eq_ok.mp stores
      exact inv1
    | some q =>
      obtain ⟨_, k2, first, stores⟩ := bind_eq_ok.mp stores
      rw [← proc1] at first tested running
      have inv2 := moveBytes_inv inv1 running (inside_le tested.2) first
      obtain ⟨m2, _, rfl⟩ := onMem_eq_ok.mp first
      obtain ⟨_, k3, second, ends⟩ := bind_eq_ok.mp stores
      obtain ⟨_, rfl⟩ := pure_eq_ok.mp ends
      rw [← proc1] at second
      exact moveBytes_inv inv2 running (inside_le tested.1) second
  · obtain ⟨_, rfl⟩ := pure_eq_ok.mp branches
    exact inv

/-! ### Files -/

/-- Only the files and the descriptors of one running process have changed. -/
structure Touches (p : Fin NPROC) (k k' : Kernel Inode) : Prop where
  proc : k'.proc = k.proc
  kpgdir : k'.kpgdir = k.kpgdir
  cpuStacks : k'.cpuStacks = k.cpuStacks
  others : ∀ q fd, q ≠ p → k'.files.ofile (q, fd) = k.files.ofile (q, fd)

theorem SameProcs.touches (same : SameProcs k k') (p : Fin NPROC) : Touches p k k' :=
  ⟨same.proc, same.kpgdir, same.cpuStacks, fun _ _ _ => by rw [same.ofile]⟩

theorem Touches.trans {k1 k2 k3 : Kernel Inode} (first : Touches p k1 k2)
    (second : Touches p k2 k3) : Touches p k1 k3 :=
  ⟨second.proc.trans first.proc, second.kpgdir.trans first.kpgdir,
    second.cpuStacks.trans first.cpuStacks,
    fun q fd apart => (second.others q fd apart).trans (first.others q fd apart)⟩

theorem touches_setSlot (k : Kernel Inode) (p : Fin NPROC) (fd : Fin NOFILE)
    (cell : Option (Fin NFILE)) :
    Touches p k { k with files := k.files.setSlot p fd cell } := by
  refine ⟨rfl, rfl, rfl, ?_⟩
  intro q fd' apart
  have other : (q, fd') ≠ (p, fd) := fun equal => apart (Prod.mk.inj equal).1
  exact update_of_ne other ..

theorem Inv.touch (inv : Inv layout k) (running : (k.proc p).state = .runnable)
    (touches : Touches p k k') (ledger : Ledger layout k' 0 (restUses k)) : Inv layout k' := by
  have rest : restUses k' = restUses k := by
    unfold restUses
    rw [touches.proc, touches.kpgdir, touches.cpuStacks]
  refine ⟨rest ▸ ledger, ?_, ?_⟩
  · rw [touches.proc]
    exact inv.bounded
  · intro q fd state
    rw [touches.proc] at state
    have apart : q ≠ p := by
      intro same
      rw [same, running] at state
      simp at state
    exact (touches.others q fd apart).trans (inv.closed q fd state)

theorem Ledger.setSlot {hand hand' : Multiset (Fin NFILE)} {cell : Option (Fin NFILE)}
    (ledger : Ledger layout k hand rest) (counted : Counted (k.files.setSlot p fd cell) hand') :
    Ledger layout { k with files := k.files.setSlot p fd cell } hand' rest :=
  ⟨ledger.paid.alike ⟨fun _ => rfl, fun _ => rfl⟩, counted⟩

theorem fdalloc_ledger {hand : Multiset (Fin NFILE)} (ledger : Ledger layout k (f ::ₘ hand) rest)
    (ran : onFiles (·.fdalloc p f) k = .ok (some fd, k')) :
    Ledger layout k' hand rest ∧ Touches p k k' ∧ k'.files = k.files.setSlot p fd (some f) ∧
      k.files.ofile (p, fd) = none := by
  obtain ⟨allocated, same⟩ := onFiles_eq_ok.mp ran
  obtain ⟨empty, files⟩ := fdalloc_eq allocated
  rw [files] at same
  rw [same]
  exact ⟨ledger.setSlot (ledger.counted.store empty), touches_setSlot k p fd _, rfl, empty⟩

theorem fdalloc_refused (ran : onFiles (·.fdalloc p f) k = .ok (none, k')) :
    k' = k := by
  obtain ⟨allocated, same⟩ := onFiles_eq_ok.mp ran
  rw [fdalloc_none allocated] at same
  exact same

theorem sys_close_inv (inv : Inv layout k) (running : (k.proc p).state = .runnable)
    (ran : sys_close layout p fd k = .ok (done, k')) : Inv layout k' := by
  unfold sys_close at ran
  have branches := get_bind.symm.trans ran
  cases cell : k.files.ofile (p, fd) with
  | none =>
    rw [cell] at branches
    obtain ⟨_, rfl⟩ := pure_eq_ok.mp branches
    exact inv
  | some f =>
    rw [cell] at branches
    obtain ⟨_, k1, set, closes⟩ := bind_eq_ok.mp branches
    cases set
    obtain ⟨_, k2, closed, ends⟩ := bind_eq_ok.mp closes
    obtain ⟨_, rfl⟩ := pure_eq_ok.mp ends
    have ledger1 := inv.ledger.setSlot (inv.ledger.counted.clear cell)
    obtain ⟨ledger2, procs⟩ := fileclose_ledger ledger1 closed
    exact inv.touch running ((touches_setSlot k p fd none).trans (procs.touches p)) ledger2

theorem sys_dup_inv {result : Option (Fin NOFILE)} (inv : Inv layout k)
    (running : (k.proc p).state = .runnable) (ran : sys_dup p fd k = .ok (result, k')) :
    Inv layout k' := by
  unfold sys_dup at ran
  have branches := get_bind.symm.trans ran
  cases cell : k.files.ofile (p, fd) with
  | none =>
    rw [cell] at branches
    obtain ⟨_, rfl⟩ := pure_eq_ok.mp branches
    exact inv
  | some f =>
    rw [cell] at branches
    obtain ⟨found, k1, allocated, dups⟩ := bind_eq_ok.mp branches
    cases found with
    | none =>
      obtain ⟨_, rfl⟩ := pure_eq_ok.mp dups
      rw [fdalloc_refused allocated]
      exact inv
    | some new =>
      obtain ⟨tabled, same1⟩ := onFiles_eq_ok.mp allocated
      obtain ⟨empty, files1⟩ := fdalloc_eq tabled
      rw [files1] at same1
      rw [same1] at dups
      have dups := get_bind.symm.trans dups
      cases dupped : (k.files.setSlot p new (some f)).filedup f with
      | none =>
        simp only [dupped] at dups
        exact absurd dups stop_ne_ok
      | some files =>
        simp only [dupped] at dups
        obtain ⟨_, k3, set, ends⟩ := bind_eq_ok.mp dups
        cases set
        obtain ⟨_, rfl⟩ := pure_eq_ok.mp ends
        obtain rfl := filedup_eq dupped
        -- The reference is counted after it has been stored; the table is the k.
        have paid := inv.ledger.paid.alike
          (sameFiles_setRef k.files f ((k.files.file f).ref + 1))
        have ledger1 : Ledger layout _ _ _ := ⟨paid, inv.ledger.counted.dup f⟩
        have ledger2 := ledger1.setSlot (ledger1.counted.store empty)
        exact inv.touch running ((touches_setSlot k p new (some f)).trans
          ⟨rfl, rfl, rfl, fun _ _ _ => rfl⟩) ledger2

theorem sys_open_inv {ip : Inode} {readable writable : Bool} {result : Option (Fin NOFILE)}
    (inv : Inv layout k) (running : (k.proc p).state = .runnable)
    (ran : sys_open layout p ip readable writable k = .ok (result, k')) : Inv layout k' := by
  unfold sys_open at ran
  obtain ⟨found, k1, allocated, goes⟩ := bind_eq_ok.mp ran
  cases found with
  | none =>
    obtain ⟨_, rfl⟩ := pure_eq_ok.mp goes
    obtain ⟨refused, same⟩ := onFiles_eq_ok.mp allocated
    rw [filealloc_none refused] at same
    change k1 = k at same
    rw [same]
    exact inv
  | some f =>
    obtain ⟨ledger1, procs1, _, none1⟩ := filealloc_ledger inv.ledger allocated
    obtain ⟨slot, k2, placed, goes⟩ := bind_eq_ok.mp goes
    cases slot with
    | none =>
      rw [fdalloc_refused placed] at goes
      obtain ⟨_, k3, closed, ends⟩ := bind_eq_ok.mp goes
      obtain ⟨_, rfl⟩ := pure_eq_ok.mp ends
      obtain ⟨ledger3, procs3⟩ := fileclose_ledger ledger1 closed
      exact inv.touch running ((procs1.trans procs3).touches p) ledger3
    | some fd =>
      obtain ⟨ledger2, touches2, files2, _⟩ := fdalloc_ledger ledger1 placed
      have sets := get_bind.symm.trans goes
      obtain ⟨_, k3, set, ends⟩ := bind_eq_ok.mp sets
      cases set
      obtain ⟨_, rfl⟩ := pure_eq_ok.mp ends
      have none2 : (k2.files.file f).type = .none := by
        rw [files2]
        exact none1
      have cell : k2.files.ofile (p, fd) = some f := by
        rw [files2]
        exact update_self ..
      have used := ledger2.counted.balanced.pos_of_cell cell
      have counted : Counted (k2.files.setFile f { k2.files.file f with
          type := .inode ip, readable := readable, writable := writable, off := 0 }) 0 :=
        ledger2.counted.setFile rfl (Nat.ne_of_gt used)
      have ledger3 : Ledger layout { k2 with files := _ } 0 (restUses k) :=
        ⟨ledger2.paid.setFile_outside (by simp [none2]) (by simp), counted⟩
      exact inv.touch running (((procs1.touches p).trans touches2).trans
        ⟨rfl, rfl, rfl, fun _ _ _ => rfl⟩) ledger3

theorem sys_pipe_inv (inv : Inv layout k) (running : (k.proc p).state = .runnable)
    (ran : sys_pipe layout p va k = .ok (done, k')) : Inv layout k' := by
  unfold sys_pipe at ran
  have branches := get_bind.symm.trans ran
  split at branches
  · rename_i tested
    obtain ⟨made, k1, allocated, goes⟩ := bind_eq_ok.mp branches
    obtain ⟨procs1, refused, success⟩ := pipealloc_ledger inv.ledger allocated
    cases made with
    | none =>
      obtain ⟨_, rfl⟩ := pure_eq_ok.mp goes
      exact inv.touch running (procs1.touches p) (refused rfl)
    | some pair =>
      obtain ⟨rf, wf⟩ := pair
      have ledger1 := success rf wf rfl
      rw [Multiset.cons_swap] at ledger1
      obtain ⟨slot0, k2, placed0, goes⟩ := bind_eq_ok.mp goes
      cases slot0 with
      | none =>
        rw [fdalloc_refused placed0] at goes
        obtain ⟨_, k3, closed0, goes⟩ := bind_eq_ok.mp goes
        obtain ⟨_, k4, closed1, ends⟩ := bind_eq_ok.mp goes
        obtain ⟨_, rfl⟩ := pure_eq_ok.mp ends
        obtain ⟨ledger3, procs3⟩ := fileclose_ledger ledger1 closed0
        obtain ⟨ledger4, procs4⟩ := fileclose_ledger ledger3 closed1
        exact inv.touch running (((procs1.trans procs3).trans procs4).touches p) ledger4
      | some fd0 =>
        obtain ⟨ledger2, touches2, files2, empty⟩ := fdalloc_ledger ledger1 placed0
        have touched2 := (procs1.touches p).trans touches2
        obtain ⟨slot1, k3, placed1, goes⟩ := bind_eq_ok.mp goes
        cases slot1 with
        | none =>
          rw [fdalloc_refused placed1] at goes
          have sets := get_bind.symm.trans goes
          obtain ⟨_, k4, set, closes0⟩ := bind_eq_ok.mp sets
          cases set
          obtain ⟨_, k5, closed0, closes1⟩ := bind_eq_ok.mp closes0
          obtain ⟨_, k6, closed1, ends⟩ := bind_eq_ok.mp closes1
          obtain ⟨_, rfl⟩ := pure_eq_ok.mp ends
          have cell : k2.files.ofile (p, fd0) = some rf := by
            rw [files2]
            exact update_self ..
          have ledger4 := ledger2.setSlot (ledger2.counted.clear cell)
          obtain ⟨ledger5, procs5⟩ := fileclose_ledger ledger4 closed0
          obtain ⟨ledger6, procs6⟩ := fileclose_ledger ledger5 closed1
          exact inv.touch running ((touched2.trans (touches_setSlot k2 p fd0 none)).trans
            ((procs5.trans procs6).touches p)) ledger6
        | some fd1 =>
          obtain ⟨ledger3, touches3, _, _⟩ := fdalloc_ledger ledger2 placed1
          have touched := touched2.trans touches3
          have inv3 := inv.touch running touched ledger3
          obtain ⟨_, k4, moved, ends⟩ := bind_eq_ok.mp goes
          obtain ⟨_, rfl⟩ := pure_eq_ok.mp ends
          rw [← touched.proc] at moved running tested
          exact moveBytes_inv inv3 running (inside_le tested) moved
  · obtain ⟨_, rfl⟩ := pure_eq_ok.mp branches
    exact inv

/-! ### `exit` -/

theorem closeSlot_ledger (ledger : Ledger layout k 0 rest) (cell : k.files.ofile (p, fd) = some f)
    (ran : fileclose layout f k = .ok ((), k')) :
    Ledger layout { k' with files := k'.files.setSlot p fd none } 0 rest ∧ SameProcs k k' := by
  obtain ⟨paid, procs, _, closed⟩ := fileclose_paid ledger.paid ran
  have counted := closed.setSlot.counted (ledger.counted.clear cell)
  exact ⟨⟨paid.alike ⟨fun _ => rfl, fun _ => rfl⟩, counted⟩, procs⟩

theorem closeFiles_ledger (list : List (Fin NOFILE)) :
    ∀ {k k' : Kernel Inode}, Ledger layout k 0 rest →
      closeFiles layout p list k = .ok ((), k') →
      Ledger layout k' 0 rest ∧ Touches p k k' ∧
        (∀ fd, k.files.ofile (p, fd) = none → k'.files.ofile (p, fd) = none) ∧
        ∀ fd, fd ∈ list → k'.files.ofile (p, fd) = none := by
  induction list with
  | nil =>
    intro k k' ledger ran
    obtain ⟨_, rfl⟩ := pure_eq_ok.mp ran
    exact ⟨ledger, ⟨rfl, rfl, rfl, fun _ _ _ => rfl⟩, fun _ empty => empty, by simp⟩
  | cons fd rest ih =>
    intro k k' ledger ran
    unfold closeFiles at ran
    have branches := get_bind.symm.trans ran
    cases cell : k.files.ofile (p, fd) with
    | none =>
      rw [cell] at branches
      obtain ⟨after, touches, kept, cleared⟩ := ih ledger branches
      refine ⟨after, touches, kept, ?_⟩
      intro fd' member
      rcases List.mem_cons.mp member with rfl | later
      · exact kept fd' cell
      · exact cleared fd' later
    | some f =>
      rw [cell] at branches
      obtain ⟨_, k1, closed, sets⟩ := bind_eq_ok.mp branches
      have clears := get_bind.symm.trans sets
      obtain ⟨_, k2, set, goes⟩ := bind_eq_ok.mp clears
      cases set
      obtain ⟨ledger2, procs⟩ := closeSlot_ledger ledger cell closed
      obtain ⟨after, touches, kept, cleared⟩ := ih ledger2 goes
      refine ⟨after, ((procs.touches p).trans (touches_setSlot k1 p fd none)).trans touches,
        ?_, ?_⟩
      · intro fd' empty
        apply kept
        change update k1.files.ofile (p, fd) none (p, fd') = none
        by_cases here : fd' = fd
        · rw [here, update_self]
        · have other : (p, fd') ≠ (p, fd) := fun equal => here (Prod.mk.inj equal).2
          rw [update_of_ne other, procs.ofile]
          exact empty
      · intro fd' member
        rcases List.mem_cons.mp member with rfl | later
        · apply kept
          exact update_self ..
        · exact cleared fd' later

theorem retire_inv (inv : Inv layout k) (running : (k.proc p).state = .runnable)
    (cleared : ∀ fd, k.files.ofile (p, fd) = none) : Inv layout (retire k p) := by
  have orphan (q : Fin NPROC) : ∃ parent,
      orphans k p q = { k.proc q with parent := parent } := by
    unfold orphans
    split
    · exact ⟨_, rfl⟩
    · exact ⟨(k.proc q).parent, rfl⟩
  -- Only parents and one state change, and a zombie owns what the process owned.
  have shape (q : Fin NPROC) : ((retire k p).proc q).uses = (k.proc q).uses ∧
      ((retire k p).proc q).sz = (k.proc q).sz ∧
      (q ≠ p → ((retire k p).proc q).state = (k.proc q).state) := by
    obtain ⟨parent, same⟩ := orphan q
    by_cases here : q = p
    · rw [here] at same ⊢
      have self : (retire k p).proc p = { orphans k p p with state := .zombie } :=
        update_self ..
      rw [self, same, uses_of_runnable running]
      exact ⟨uses_of_zombie rfl, rfl, fun apart => absurd rfl apart⟩
    · have other : (retire k p).proc q = orphans k p q := update_of_ne here ..
      rw [other, same]
      exact ⟨rfl, rfl, fun _ => rfl⟩
  have rest : restUses (retire k p) = restUses k := by
    unfold restUses
    rw [procUses_congr (fun q => (shape q).1)]
    rfl
  refine ⟨⟨⟨?_, inv.ledger.paid.ends⟩, inv.ledger.counted⟩, ?_, ?_⟩
  · rw [rest]
    exact inv.ledger.paid.funded
  · intro q
    rw [(shape q).2.1]
    exact inv.bounded q
  · intro q fd state
    by_cases here : q = p
    · rw [here]
      exact cleared fd
    · rw [(shape q).2.2 here] at state
      exact inv.closed q fd state

theorem exit_inv (inv : Inv layout k) (running : (k.proc p).state = .runnable)
    (ran : exit layout p k = .ok ((), k')) : Inv layout k' := by
  unfold exit at ran
  have branches := get_bind.symm.trans ran
  split at branches
  · exact absurd branches stop_ne_ok
  · obtain ⟨_, k1, closed, retires⟩ := bind_eq_ok.mp branches
    have sets := get_bind.symm.trans retires
    cases sets
    obtain ⟨ledger1, touches, _, cleared⟩ := closeFiles_ledger _ inv.ledger closed
    have inv1 := inv.touch running touches ledger1
    rw [← touches.proc] at running
    exact retire_inv inv1 running (fun fd => cleared fd (List.mem_finRange fd))

/-! ### Calls -/

/-- The condition for a step. -/
def Safe (layout : Layout) (k : Kernel Inode) : Fin NPROC × Event Inode → Prop
  | (_, .exec file argv) => TablesPresent layout k.mem file argv
  | _ => True

theorem call_inv {event : Event Inode} (inv : Inv layout k)
    (running : (k.proc p).state = .runnable) (safe : Safe layout k (p, event))
    (ran : call layout p event k = .ok ((), k')) : Inv layout k' := by
  cases event with
  | fork =>
    obtain ⟨_, k1, forked, ends⟩ := bind_eq_ok.mp ran
    obtain ⟨_, rfl⟩ := pure_eq_ok.mp ends
    exact fork_inv inv running forked
  | exec file argv =>
    obtain ⟨_, k1, executed, ends⟩ := bind_eq_ok.mp ran
    obtain ⟨_, rfl⟩ := pure_eq_ok.mp ends
    exact sys_exec_inv inv running safe executed
  | sbrk n =>
    obtain ⟨_, k1, grown, ends⟩ := bind_eq_ok.mp ran
    obtain ⟨_, rfl⟩ := pure_eq_ok.mp ends
    exact growproc_inv inv running grown
  | pipe va =>
    obtain ⟨_, k1, piped, ends⟩ := bind_eq_ok.mp ran
    obtain ⟨_, rfl⟩ := pure_eq_ok.mp ends
    exact sys_pipe_inv inv running piped
  | close fd =>
    obtain ⟨_, k1, closed, ends⟩ := bind_eq_ok.mp ran
    obtain ⟨_, rfl⟩ := pure_eq_ok.mp ends
    exact sys_close_inv inv running closed
  | dup fd =>
    obtain ⟨_, k1, dupped, ends⟩ := bind_eq_ok.mp ran
    obtain ⟨_, rfl⟩ := pure_eq_ok.mp ends
    exact sys_dup_inv inv running dupped
  | «open» ip readable writable =>
    obtain ⟨_, k1, opened, ends⟩ := bind_eq_ok.mp ran
    obtain ⟨_, rfl⟩ := pure_eq_ok.mp ends
    exact sys_open_inv inv running opened
  | exit => exact exit_inv inv running ran
  | wait =>
    obtain ⟨_, k1, waited, ends⟩ := bind_eq_ok.mp ran
    obtain ⟨_, rfl⟩ := pure_eq_ok.mp ends
    exact (wait_inv inv waited).1
  | waitx wtimeAt rtimeAt wtime rtime =>
    obtain ⟨_, k1, waited, ends⟩ := bind_eq_ok.mp ran
    obtain ⟨_, rfl⟩ := pure_eq_ok.mp ends
    exact sys_waitx_inv inv running waited
  | store vpn word value =>
    have stores := get_bind.symm.trans ran
    obtain ⟨_, k1, stored, ends⟩ := bind_eq_ok.mp stores
    obtain ⟨_, rfl⟩ := pure_eq_ok.mp ends
    obtain ⟨m1, storedMem, rfl⟩ := onMem_eq_ok.mp stored
    have writes := userStore_ok (inv.held_space running).sound storedMem
    exact inv.ownSpace_same running writes.trade

theorem step_inv {start : Kernel Inode} {label : Fin NPROC × Event Inode} (inv : Inv layout k)
    (safe : Safe layout k label) (stepped : (kernel layout start).step k label = some k') :
    Inv layout k' := by
  change (if (k.proc label.1).state = .runnable then _ else none) = _ at stepped
  split at stepped
  · rename_i running
    split at stepped
    · cases stepped
    · rename_i after ran
      cases stepped
      exact call_inv inv running safe ran
  · cases stepped

end Xv6.Memory
