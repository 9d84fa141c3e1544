/-
The kernel that `main` starts.

`main` hands every page between the end of the kernel and `PHYSTOP` to the allocator, and
makes the first process from some of them.
-/

import Xv6.Memory.Ownership
import Xv6.Memory.Room

namespace Xv6.Memory

open Function Library Library.Code
open Files

variable {Inode : Type} {layout : Layout} {sure : Prop} {m m' : Mem} {k : Kernel Inode}

/-! ### `kinit1` and `kinit2` -/

variable {n kpgdir d size : Nat} {cpuStacks : List Nat} {init : Nat → UInt8}

theorem kfree_length (ran : kfree layout n m = .ok ((), m')) :
    m'.freelist.length = m.freelist.length + 1 ∧ layout.endPage ≤ n := by
  unfold kfree at ran
  split at ran
  · cases ran
  · rename_i inside
    cases ran
    exact ⟨rfl, by omega⟩

theorem freerange_ok (count : Nat) :
    ∀ {m m' : Mem} {n : Nat}, freerange layout count n m = .ok ((), m') →
      Trades m m' (List.range' n count : List Nat) 0 ∧
        m'.freelist.length = m.freelist.length + count ∧ (0 < count → layout.endPage ≤ n) := by
  induction count with
  | zero =>
    intro m m' n ran
    obtain ⟨_, rfl⟩ := pure_eq_ok.mp ran
    exact ⟨Trades.refl _ _, rfl, by simp⟩
  | succ count ih =>
    intro m m' n ran
    obtain ⟨_, m1, freed, goes⟩ := bind_eq_ok.mp ran
    obtain ⟨trade, length, _⟩ := ih goes
    obtain ⟨first, start⟩ := kfree_length freed
    refine ⟨?_, by omega, fun _ => start⟩
    have framed := (kfree_ok freed).1.frame (List.range' (n + 1) count : List Nat)
    rw [zero_add] at framed
    exact framed.trans trade

theorem freerange_succeeds (layout : Layout) (count : Nat) :
    ∀ {m : Mem} {n : Nat}, layout.endPage ≤ n → n + count ≤ PHYSTOP / PGSIZE →
      ∃ m', freerange layout count n m = .ok ((), m') := by
  induction count with
  | zero =>
    intro m n start bound
    exact ⟨m, rfl⟩
  | succ count ih =>
    intro m n start bound
    have freed : kfree layout n m =
        .ok ((), { m.setPage n junkPage with freelist := n :: m.freelist }) := by
      unfold kfree
      rw [if_neg (by omega)]
    obtain ⟨m', looped⟩ := ih (m := { m.setPage n junkPage with freelist := n :: m.freelist })
      (n := n + 1) (by omega) (by omega)
    refine ⟨m', ?_⟩
    unfold freerange
    rw [bind_ok freed]
    exact looped

theorem startothers_ok (cpus : Nat) :
    ∀ {m m' : Mem} {cpuStacks : List Nat}, startothers cpus m = .ok (cpuStacks, m') →
      Trades m m' 0 cpuStacks ∧ m.freelist.length = m'.freelist.length + cpus := by
  induction cpus with
  | zero =>
    intro m m' cpuStacks ran
    obtain ⟨rfl, rfl⟩ := pure_eq_ok.mp ran
    exact ⟨Trades.refl _ _, rfl⟩
  | succ cpus ih =>
    intro m m' cpuStacks ran
    obtain ⟨page, m1, asked, goes⟩ := bind_eq_ok.mp ran
    cases page with
    | none => exact absurd goes stop_ne_ok
    | some n =>
      obtain ⟨rest, m2, more, ends⟩ := bind_eq_ok.mp goes
      obtain ⟨rfl, rfl⟩ := pure_eq_ok.mp ends
      obtain ⟨trade, length⟩ := ih more
      have first := kalloc_length asked
      refine ⟨?_, by omega⟩
      have framed := trade.frame {n}
      rw [zero_add] at framed
      have both := (kalloc_some asked).1.trans framed
      rw [add_comm, Multiset.singleton_add, Multiset.cons_coe] at both
      exact both

theorem startothers_succeeds (cpus : Nat) :
    ∀ {m : Mem}, cpus ≤ m.freelist.length →
      ∃ cpuStacks m', startothers cpus m = .ok (cpuStacks, m') := by
  induction cpus with
  | zero =>
    intro m room
    exact ⟨[], m, rfl⟩
  | succ cpus ih =>
    intro m room
    obtain ⟨n, m1, asked⟩ := kalloc_succeeds (m := m) (by omega)
    have length := kalloc_length asked
    obtain ⟨rest, m2, more⟩ := ih (m := m1) (by omega)
    refine ⟨n :: rest, m2, ?_⟩
    unfold startothers
    rw [bind_ok asked]
    change (startothers cpus >>= _) m1 = _
    rw [bind_ok more]
    rfl

theorem shares_pages (m : Mem) (list : List Nat) :
    shares Use.pages m (list.map Use.page : List Use) = list := by
  unfold shares
  rw [Multiset.map_coe, List.map_map]
  exact Multiset.sum_map_singleton (list : Multiset Nat)

/-- The memory when the first process is made. -/
theorem mainMemory_ok {content : Nat → Page} {cpus : Nat}
    (ran : mainMemory layout cpus ⟨[], content⟩ = .ok ((kpgdir, cpuStacks), m')) :
    Funded layout m' ({.space kpgdir} + (cpuStacks.map Use.page : List Use)) ∧
      PHYSTOP / PGSIZE - kinitPage ≤ m'.freelist.length := by
  unfold mainMemory at ran
  obtain ⟨_, m1, first, goes⟩ := bind_eq_ok.mp ran
  obtain ⟨d, m2, setup, starts⟩ := bind_eq_ok.mp goes
  obtain ⟨list, m3, started, rest⟩ := bind_eq_ok.mp starts
  obtain ⟨_, m4, second, ends⟩ := bind_eq_ok.mp rest
  obtain ⟨equal, rfl⟩ := pure_eq_ok.mp ends
  cases equal
  obtain ⟨trade1, _, _⟩ := freerange_ok _ first
  obtain ⟨trade4, length, start⟩ := freerange_ok _ second
  have fits : layout.endPage ≤ kinitPage := start (by decide)
  generalize low : ((List.range' layout.endPage (kinitPage - layout.endPage) : List Nat) :
    Multiset Nat) = R1 at trade1
  generalize high : ((List.range' kinitPage (PHYSTOP / PGSIZE - kinitPage) : List Nat) :
    Multiset Nat) = R2 at trade4
  have pool : R1 + R2 = managed layout := by
    rw [← low, ← high, Multiset.coe_add]
    have join := List.range'_append_1 (s := layout.endPage) (m := kinitPage - layout.endPage)
      (n := PHYSTOP / PGSIZE - kinitPage)
    have memory := layout.end_in_memory
    have sum : layout.endPage + (kinitPage - layout.endPage) = kinitPage := by omega
    have total : kinitPage - layout.endPage + (PHYSTOP / PGSIZE - kinitPage) =
        PHYSTOP / PGSIZE - layout.endPage := by
      simp only [PHYSTOP, PGSIZE, kinitPage] at memory fits ⊢
      omega
    rw [sum, total] at join
    rw [join]
    rfl
  have sound0 : Store.Sound (⟨[], content⟩ : Mem) (R1 + R2) := by
    unfold Store.Sound
    rw [pool]
    change (0 + managed layout).Nodup
    rw [zero_add]
    exact managed_nodup layout
  -- The pages from `kinitPage` on are nobody's until `kinit2`.
  have step1 := trade1.frame R2
  have sound1 := step1.sound sound0
  have bare : Bare m1 m2 kpgdir := by
    obtain ⟨made, m1', ranSetup, tests⟩ := bind_eq_ok.mp setup
    have held1 : Held layout False m1 0 := ⟨sound1.left, False.elim⟩
    obtain ⟨_, new⟩ := (setupkvm_ends held1).post_of_ok ranSetup
    cases made with
    | none => exact absurd tests stop_ne_ok
    | some d =>
      obtain ⟨rfl, rfl⟩ := pure_eq_ok.mp tests
      exact (new d rfl).toBare
  have step2 := bare.trade.frame R2
  have sound2 := step2.sound sound1
  obtain ⟨trade3, _⟩ := startothers_ok cpus started
  have beside2 : m2.Sound (0 + space m2 kpgdir) := by
    rw [zero_add]
    exact sound2.left
  have same3 := sameSpace_of_trade trade3 beside2
  have step3 := trade3.frame (space m2 kpgdir + R2)
  have order3 : (cpuStacks : Multiset Nat) + (space m2 kpgdir + R2) =
      R2 + space m3 kpgdir + cpuStacks := by
    rw [same3.pages]
    ac_rfl
  rw [zero_add, order3] at step3
  have sound3 := step3.sound sound2
  have same4 := sameSpace_of_trade trade4 sound3.left
  have step4 := trade4.frame (space m3 kpgdir + cpuStacks)
  rw [← add_assoc] at step4
  have total := (((step1.trans step2).trans step3).trans step4).conserved
  refine ⟨?_, by omega⟩
  unfold Funded
  rw [shares_add, shares_singleton, shares_pages, ← pool]
  change (m4.freelist : Multiset Nat) + (space m4 kpgdir + cpuStacks) = _
  rw [same4.pages, ← zero_add (space m3 kpgdir + (cpuStacks : Multiset Nat)), total]
  exact zero_add _

/-! ### `userinit` -/

/-- The first process: one page at address 0, and most of the memory free. -/
structure Booted (layout : Layout) (k : Kernel Inode) : Prop where
  inv : Inv layout k
  running : (k.proc k.initproc).state = .runnable
  size : (k.proc k.initproc).sz = PGSIZE
  mapped : ∃ n, pte k.mem (k.proc k.initproc).pgdir (slot 0) = mkPte n (PTE_W ||| PTE_U)
  absent : ∀ v, 0 < v → v * PGSIZE < KERNBASE →
    present (pte k.mem (k.proc k.initproc).pgdir (slot v)) = false
  room : 50000 ≤ k.mem.freelist.length

theorem inituvm_ends {spare : Nat} (held : Held layout sure m (space m d))
    (room : spare + 2 ≤ m.freelist.length) (empty : ∀ s : Slot, s.low = true → pte m d s = 0) :
    (inituvm layout d init size).Ends m (fun _ => ¬sure ∨ PGSIZE ≤ size) (fun _ m' =>
      Trades m m' (space m d) (space m' d) ∧
        (∃ n, pte m' d (slot 0) = mkPte n (PTE_W ||| PTE_U)) ∧
        (∀ v, 0 < v → v * PGSIZE < KERNBASE → present (pte m' d (slot v)) = false) ∧
        spare ≤ m'.freelist.length) := by
  have low : (slot 0).low = true := slot_low (by decide)
  have apart (v : Nat) (later : 0 < v) (below : v * PGSIZE < KERNBASE) : slot v ≠ slot 0 := by
    intro same
    simp only [PGSIZE, KERNBASE] at below
    have equal := slot_injective (by omega) (by omega) same
    omega
  have bottom : 0 * PGSIZE < KERNBASE := by decide
  unfold inituvm
  by_cases large : PGSIZE ≤ size
  · rw [if_pos large]
    exact Ends.of_stop (Or.inr large)
  · rw [if_neg large]
    obtain ⟨n, m1, asked⟩ := kalloc_succeeds (m := m) (by omega)
    apply Ends.bind_of_ok asked
    apply Ends.bind_of_ok (rfl : setPage n zeroPage m1 = .ok ((), m1.setPage n zeroPage))
    have maps := mapFresh_ends zeroPage held.sound asked bottom
      (by decide : PTE_W ||| PTE_U < PGSIZE)
    rw [Nat.zero_mul] at maps
    apply Ends.bind (maps.excuse (fun _ taken => by rw [empty _ low] at taken; cases taken))
    intro mapped m2 maps
    have roomy : Roomy m d {PDX 0} (spare + 1) := by
      apply Roomy.of_length
      rw [Finset.card_singleton]
      omega
    obtain ⟨rfl, room2⟩ := maps.room {PDX 0} spare (Finset.mem_singleton_self _) roomy
    obtain ⟨trade, _, entries⟩ := maps.success rfl
    have here : pte m2 d (slot 0) = mkPte n (PTE_W ||| PTE_U) := by
      rw [entries, update_self]
    have there : present (pte m2 d (slot 0)) = true := by
      rw [here]
      exact present_mkPte n _
    have fits : 0 + size ≤ PGSIZE := by
      rw [Nat.zero_add]
      exact Nat.le_of_not_le large
    have stores := store_user init (held.trade trade) bottom there fits
    rw [here, pteAddr_mkPte n (by decide)] at stores
    apply (stores.excuse (fun _ stopped => Or.inl stopped.1)).mono
    rintro _ m' ⟨writes, _, result⟩
    refine ⟨trade.trans writes.trade, ⟨n, ?_⟩, ?_, ?_⟩
    · rw [writes.same.entries, here]
    · intro v later below
      rw [writes.same.entries, entries, update_of_ne (apart v later below),
        empty _ (slot_low below)]
      rfl
    · have few := card_gather_le {PDX 0} (m2.page d)
      unfold Roomy at room2
      rw [result]
      change spare ≤ m2.freelist.length
      omega

theorem idle_inv (funded : Funded layout m ({.space kpgdir} + (cpuStacks.map Use.page : List Use)))
    :
    Inv layout (idle m kpgdir cpuStacks : Kernel Inode) := by
  have none : pipePages (emptyFiles : Table Nat Inode) = ∅ := by
    ext n
    rw [mem_pipePages]
    simp [emptyFiles]
  have rest : restUses (idle m kpgdir cpuStacks : Kernel Inode) =
      {.space kpgdir} + (cpuStacks.map Use.page : List Use) := by
    unfold restUses
    have zero : procUses (idle m kpgdir cpuStacks : Kernel Inode).proc = 0 := by
      unfold procUses
      exact Finset.sum_eq_zero (fun p _ => uses_of_unused rfl)
    rw [zero, add_zero]
    rfl
  refine ⟨⟨⟨?_, ?_⟩, ?_⟩, fun _ => Nat.zero_le _, fun _ _ _ => rfl⟩
  · unfold pipeUses
    change Funded layout m ((pipePages emptyFiles).val.map Use.page + _)
    rw [none, rest]
    change Funded layout m (0 + _)
    rw [zero_add]
    exact funded
  · refine ⟨?_, ?_, ?_⟩
    · intro f n impossible
      cases impossible
    · intro f g n impossible
      cases impossible
    · intro f n w impossible
      cases impossible
  · refine ⟨?_, fun _ _ => rfl⟩
    intro f
    have zero : pointers (emptyFiles : Table Nat Inode).ofile f = 0 := by
      by_contra some_cell
      obtain ⟨i, impossible⟩ := exists_cell_of_pointers some_cell
      cases impossible
    change 0 = pointers (emptyFiles : Table Nat Inode).ofile f + _
    rw [zero]
    rfl

theorem userinit_ok
    (funded : Funded layout m ({.space kpgdir} + (cpuStacks.map Use.page : List Use)))
    (room : PHYSTOP / PGSIZE - kinitPage ≤ m.freelist.length)
    (ran : userinit layout init size (idle m kpgdir cpuStacks) = .ok ((), k)) :
    Booted layout k := by
  have inv : Inv layout (idle m kpgdir cpuStacks : Kernel Inode) := idle_inv funded
  unfold userinit at ran
  obtain ⟨allocated, k1, allocates, goes⟩ := bind_eq_ok.mp ran
  obtain ⟨_, success⟩ := allocproc_ok allocates
  cases allocated with
  | none => exact absurd goes stop_ne_ok
  | some p =>
    obtain ⟨unused, n, m1, asked, rfl⟩ := success p rfl
    obtain ⟨made, k2, setup, fills⟩ := bind_eq_ok.mp goes
    obtain ⟨m2, ranSetup, rfl⟩ := onMem_eq_ok.mp setup
    obtain ⟨others, split, changes⟩ := inv.change_mem p
    rw [uses_of_unused unused, zero_add] at split
    have owned : Funded layout m (uses (idle m kpgdir cpuStacks : Kernel Inode)) := inv.owns
    rw [split] at owned
    have funded1 := owned.kalloc asked
    have length1 := kalloc_length asked
    obtain ⟨_, bare⟩ := (setupkvm_ends funded1.held_zero).post_of_ok ranSetup
    cases made with
    | none => exact absurd fills stop_ne_ok
    | some d =>
      have fresh := bare d rfl
      have funded2 := funded1.newSpace fresh.trade
      obtain ⟨_, k3, filled, sets⟩ := bind_eq_ok.mp fills
      obtain ⟨m3, ranFill, rfl⟩ := onMem_eq_ok.mp filled
      have noUsers : users m2 d = 0 := by
        unfold users
        apply gather_absent
        intro s member
        rw [fresh.empty s (mem_lowSlots.mp member)]
        rfl
      have length2 : m2.freelist.length + (1 + (tables m2 d).card) = m1.freelist.length := by
        have conserved := congrArg Multiset.card fresh.trade.conserved
        unfold space at conserved
        rw [noUsers, add_zero] at conserved
        simp only [Multiset.card_add, Multiset.coe_card, Multiset.card_singleton,
          Multiset.card_zero] at conserved
        omega
      have few : (tables m2 d).card ≤ 1024 := by
        have bound := card_gather_le Finset.univ (m2.page d)
        rw [Finset.card_univ, Fintype.card_fin] at bound
        exact bound
      simp only [PHYSTOP, PGSIZE, kinitPage] at room
      have free : 50000 + 2 ≤ m2.freelist.length := by
        change m.freelist.length = m1.freelist.length + 1 at length1
        omega
      obtain ⟨trade, mapped, absent, length3⟩ :=
        (inituvm_ends funded2.held_space free fresh.empty).post_of_ok ranFill
      have funded3 := funded2.space_trade trade
      cases get_bind.symm.trans sets
      have fits : PGSIZE ≤ KERNBASE := by decide
      have after := changes m3 ⟨.runnable, d, n, PGSIZE, none⟩
        (by rw [uses_of_runnable rfl, order_space]; exact funded3) fits (by simp)
      have embryo : ((idle m kpgdir cpuStacks : Kernel Inode).setProc p
          { (idle m kpgdir cpuStacks : Kernel Inode).proc p with
            state := .embryo, kstack := n }).proc p = ⟨.embryo, 0, n, 0, none⟩ :=
        update_self ..
      simp only [Kernel.setProc, update_idem] at after embryo ⊢
      rw [embryo]
      have first : (update (idle m kpgdir cpuStacks : Kernel Inode).proc p
          ⟨.runnable, d, n, PGSIZE, none⟩ : Fin NPROC → Proc) p =
            ⟨.runnable, d, n, PGSIZE, none⟩ := update_self ..
      refine ⟨⟨⟨⟨after.ledger.paid.funded, after.ledger.paid.ends⟩, after.ledger.counted⟩,
        after.bounded, after.closed⟩, ?_, ?_, ?_, ?_, ?_⟩
      · exact congrArg Proc.state first
      · exact congrArg Proc.sz first
      · exact (congrArg (fun q : Proc => ∃ n, pte m3 q.pgdir (slot 0) =
          mkPte n (PTE_W ||| PTE_U)) first).mpr mapped
      · exact (congrArg (fun q : Proc => ∀ v, 0 < v → v * PGSIZE < KERNBASE →
          present (pte m3 q.pgdir (slot v)) = false) first).mpr absent
      · exact length3

theorem main_ok {content : Nat → Page} {cpus : Nat}
    (ran : main layout content cpus init size = .ok k) : Booted layout k := by
  unfold main at ran
  split at ran
  · cases ran
  · rename_i started
    split at ran
    · cases ran
    · rename_i first
      cases ran
      obtain ⟨funded, room⟩ := mainMemory_ok started
      exact userinit_ok funded room first

/-! ### `main` succeeds -/

theorem mainMemory_succeeds (content : Nat → Page) (cpus : Nat)
    (fits : layout.endPage + 65 + cpus ≤ kinitPage) :
    ∃ kpgdir cpuStacks m', mainMemory layout cpus ⟨[], content⟩ =
      .ok ((kpgdir, cpuStacks), m') := by
  simp only [kinitPage] at fits
  obtain ⟨m1, first⟩ := freerange_succeeds layout (kinitPage - layout.endPage)
    (m := ⟨[], content⟩) (Nat.le_refl layout.endPage)
    (by simp only [kinitPage, PHYSTOP, PGSIZE]; omega)
  obtain ⟨trade, length, _⟩ := freerange_ok _ first
  have empty : Store.Sound (⟨[], content⟩ : Mem)
      (List.range' layout.endPage (kinitPage - layout.endPage) : List Nat) := by
    unfold Store.Sound
    change (0 + _ : Multiset Nat).Nodup
    rw [zero_add]
    exact Multiset.coe_nodup.mpr List.nodup_range'
  have held : Held layout True (⟨[], content⟩ : Mem)
      (List.range' layout.endPage (kinitPage - layout.endPage) : List Nat) := by
    refine ⟨empty, fun _ n member => ?_⟩
    rw [Multiset.coe_add, Multiset.mem_coe, List.nil_append, List.mem_range'_1] at member
    simp only [Layout.Manages, kinitPage, PHYSTOP, PGSIZE] at member ⊢
    omega
  change m1.freelist.length = 0 + (kinitPage - layout.endPage) at length
  simp only [kinitPage] at length
  obtain ⟨d, m2, setup, new⟩ := setupkvm_succeeds (held.trade trade) (by omega)
  have length2 := setupkvm_length new
  obtain ⟨cpuStacks, m3, started⟩ := startothers_succeeds cpus (m := m2) (by omega)
  obtain ⟨m4, second⟩ := freerange_succeeds layout (PHYSTOP / PGSIZE - kinitPage)
    (m := m3) (n := kinitPage) (by simp only [kinitPage]; omega) (by decide)
  refine ⟨d, cpuStacks, m4, ?_⟩
  have kernelTable : kvmalloc layout m1 = .ok (d, m2) := by
    unfold kvmalloc
    rw [bind_ok setup]
    rfl
  unfold mainMemory kinit1 kinit2
  rw [bind_ok first, bind_ok kernelTable, bind_ok started, bind_ok second]
  rfl

theorem allocproc_idle (kpgdir : Nat) (cpuStacks : List Nat) (asked : kalloc m = .ok (some n, m')) :
    ∃ k : Kernel Inode, allocproc (idle m kpgdir cpuStacks) = .ok (some 0, k) ∧ k.mem = m' := by
  have found : slots.find? (fun p => decide
      (((idle m kpgdir cpuStacks : Kernel Inode).proc p).state = .unused)) = some 0 := rfl
  have set : setProc 0 { (idle m kpgdir cpuStacks : Kernel Inode).proc 0 with state := .embryo }
      (idle m kpgdir cpuStacks) = .ok ((), (idle m kpgdir cpuStacks : Kernel Inode).setProc 0
        { (idle m kpgdir cpuStacks : Kernel Inode).proc 0 with state := .embryo }) := rfl
  have allocated : onMem kalloc ((idle m kpgdir cpuStacks : Kernel Inode).setProc 0
      { (idle m kpgdir cpuStacks : Kernel Inode).proc 0 with state := .embryo }) =
        .ok (some n, _) := onMem_eq_ok.mpr ⟨m', asked, rfl⟩
  unfold allocproc
  rw [get_bind]
  simp only [found]
  rw [bind_ok set, bind_ok allocated]
  exact ⟨_, rfl, rfl⟩

/-- A kernel that leaves room for its page tables and the stacks in the first 4 megabytes
starts. -/
theorem main_succeeds (content : Nat → Page) (cpus : Nat) (init : Nat → UInt8)
    (small : size < PGSIZE) (fits : layout.endPage + 65 + cpus ≤ kinitPage) :
    ∃ k : Kernel Inode, main layout content cpus init size = .ok k := by
  obtain ⟨kpgdir, cpuStacks, m, memory⟩ := mainMemory_succeeds content cpus fits
  obtain ⟨funded, room⟩ := mainMemory_ok memory
  have free : 56320 ≤ m.freelist.length := room
  obtain ⟨n, m1, asked⟩ := kalloc_succeeds (m := m) (by omega)
  have length1 := kalloc_length asked
  have funded1 := funded.kalloc asked
  obtain ⟨d, m2, setup, new⟩ := setupkvm_succeeds funded1.held_zero (by omega)
  have length2 := setupkvm_length new
  have pages : 0 + 2 ≤ m2.freelist.length := by omega
  obtain ⟨_, m3, filled, _⟩ :=
    (inituvm_ends (funded1.newSpace new.trade).held_space pages new.empty).exists_ok
      (fun _ => not_or.mpr ⟨not_not_intro trivial, Nat.not_le.mpr small⟩)
  obtain ⟨k1, allocated, mem1⟩ : ∃ k1 : Kernel Inode,
      allocproc (idle m kpgdir cpuStacks) = .ok (some 0, k1) ∧ k1.mem = m1 :=
    allocproc_idle kpgdir cpuStacks asked
  have made : onMem (setupkvm layout) k1 = .ok (some d, { k1 with mem := m2 }) :=
    onMem_eq_ok.mpr ⟨m2, mem1 ▸ setup, rfl⟩
  have loaded : onMem (inituvm layout d init size) { k1 with mem := m2 } =
      .ok ((), { k1 with mem := m3 }) := onMem_eq_ok.mpr ⟨m3, filled, rfl⟩
  have started : ∃ k, userinit layout init size (idle m kpgdir cpuStacks : Kernel Inode) =
      .ok ((), k) := by
    unfold userinit
    rw [bind_ok allocated]
    change ∃ k, (onMem (setupkvm layout) >>= _) k1 = .ok ((), k)
    rw [bind_ok made]
    change ∃ k, (onMem (inituvm layout d init size) >>= _) { k1 with mem := m2 } = .ok ((), k)
    rw [bind_ok loaded]
    exact ⟨_, rfl⟩
  obtain ⟨k, ran⟩ := started
  refine ⟨k, ?_⟩
  unfold main
  rw [memory]
  simp only [ran]

theorem small_starts :
    ∃ k : Kernel Unit, main smallLayout (fun _ => zeroPage) 1 (fun _ => 0) 0 = .ok k :=
  main_succeeds _ 1 _ (by decide) (by decide)

end Xv6.Memory
