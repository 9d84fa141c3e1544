/-
`exec` through a missing page table.

Where a table is missing, `uva2ka` takes the word at address 0 of the running process for an
entry, and `copyout` writes to a page of the caller's choice.  The first process can use that
to have two owners for one page.
-/

import Xv6.Memory.Boot

namespace Xv6.Memory

open Function Library Library.Code

variable {Inode : Type} {layout : Layout} {k : Kernel Inode}

/-! ### `copyout` through a missing page table -/

section Copyout

variable {m : Mem} {d vpn w : Nat} {null : Op Nat}

theorem uva2ka_missing (missing : present (m.page d (PDX vpn)) = false)
    (read : null m = .ok (w, m)) (there : present w = true) (allowed : user w = true) :
    uva2ka null d vpn m = .ok (some (pteAddr w), m) := by
  have looked : lookup null d vpn m = .ok (w, m) := by
    unfold lookup
    rw [bind_ok (walkpgdir_absent missing)]
    exact read
  unfold uva2ka
  rw [bind_ok looked, if_pos there, if_pos allowed]
  rfl

theorem uva2ka_refused (there : present (m.page d (PDX vpn)) = true)
    (closed : user (pte m d (slot vpn)) = false) : uva2ka null d vpn m = .ok (none, m) := by
  rw [uva2ka_eq there, if_neg]
  rintro ⟨_, allowed⟩
  rw [closed] at allowed
  cases allowed

theorem loadNull_eq {table n : Nat} (there : present (m.page d 0) = true)
    (addr : pteAddr (m.page d 0) = table) (mapped : present (m.page table 0) = true)
    (page : pteAddr (m.page table 0) = n) : loadNull d m = .ok (m.page n 0, m) := by
  have walked : walkpgdir d 0 false m = .ok (some table, m) := by
    rw [walkpgdir_present false there, ← addr]
    rfl
  have read : getWord table (PTX 0) m = .ok (m.page table 0, m) := rfl
  unfold loadNull
  rw [bind_ok walked]
  change (getWord table (PTX 0) >>= _) m = _
  rw [bind_ok read, if_pos mapped, page]
  rfl

variable {va len n : Nat} {source : Nat → UInt8}

theorem copyoutLoop_next (fuel : Nat) (more : 0 < len) (managed : layout.Manages n)
    (found : uva2ka null d (va / PGSIZE) m = .ok (some n, m)) :
    copyoutLoop layout null d (fuel + 1) va len source m =
      copyoutLoop layout null d fuel ((va / PGSIZE * PGSIZE + PGSIZE) % UINT)
        (len - min (PGSIZE - va % PGSIZE) len)
        (fun i => source (i + min (PGSIZE - va % PGSIZE) len))
        (m.setPage n ((m.page n).write (va % PGSIZE) (min (PGSIZE - va % PGSIZE) len) source)) := by
  conv_lhs => unfold copyoutLoop
  rw [if_pos more, bind_ok found]
  change (store layout n _ _ source >>= _) m = _
  rw [bind_ok (store_eq managed _ _ source)]

theorem copyoutLoop_refused (fuel : Nat) (more : 0 < len)
    (found : uva2ka null d (va / PGSIZE) m = .ok (none, m)) :
    copyoutLoop layout null d (fuel + 1) va len source m = .ok (false, m) := by
  unfold copyoutLoop
  rw [if_pos more, bind_ok found]
  rfl

theorem write_full (old : Page) {page : Page} (words : ∀ i, page i < UINT)
    (same : ∀ i, i < PGSIZE → source i = page.byte i) : old.write 0 PGSIZE source = page := by
  funext word
  have bound : word.val < 1024 := word.isLt
  have small := words word
  simp only [UINT] at small
  have index (j : Nat) (inside : j < 4) :
      Fin.ofNat NPTENTRIES ((4 * word.val + j) / 4) = word ∧ (4 * word.val + j) % 4 = j := by
    refine ⟨Fin.ext ?_, by omega⟩
    change (4 * word.val + j) / 4 % 1024 = word.val
    omega
  have byte (j : Nat) (inside : j < 4) :
      (if 0 ≤ 4 * word.val + j ∧ 4 * word.val + j < 0 + PGSIZE then
        source (4 * word.val + j - 0) else old.byte (4 * word.val + j)).toNat =
          page word / 256 ^ j % 256 := by
    have fits : 4 * word.val + j < PGSIZE := by
      simp only [PGSIZE]
      omega
    rw [if_pos ⟨Nat.zero_le _, by rw [Nat.zero_add]; exact fits⟩, Nat.sub_zero, same _ fits]
    unfold Page.byte
    rw [(index j inside).1, (index j inside).2]
    exact UInt8.toNat_ofNat'
  unfold Page.write Page.ofBytes
  beta_reduce
  have first := byte 0 (by decide)
  rw [Nat.add_zero] at first
  rw [first, byte 1 (by decide), byte 2 (by decide), byte 3 (by decide)]
  omega

end Copyout

/-! ### An argument that is longer than the address space above the stack -/

/-- An executable without segments. -/
def bareFile : File where
  size := 52
  byte := fun i => [0x7F, 0x45, 0x4C, 0x46].getD i 0

/-- The stack pointer wraps around below it, to the page before `DEVSPACE`. -/
def longArg : Str where
  len := 0x2002FFF
  byte := fun _ => 1

/-- An argument of that length that fills pages with `page`. -/
def wildArg (page : Page) : Str where
  len := 0x2002FFF
  byte := fun i => page.byte (i % PGSIZE)

theorem longArg_eq : longArg = wildArg junkPage := by
  have ones (i : Nat) : junkPage.byte i = 1 := by
    have rest : i % 4 = 0 ∨ i % 4 = 1 ∨ i % 4 = 2 ∨ i % 4 = 3 := by omega
    unfold Page.byte junkPage
    rcases rest with rest | rest | rest | rest <;> rw [rest] <;> rfl
  unfold longArg wildArg
  simp only [ones]

section Exec

variable {m m' : Mem} {d n : Nat} {held : Multiset Use}

theorem Funded.manages {use : Use} (funded : Funded layout m held) (member : use ∈ held)
    (page : n ∈ use.pages m) : layout.Manages n :=
  funded.held.manages (subset_shares member page) trivial

theorem Funded.apart {other use : Use} (funded : Funded layout m (other ::ₘ held))
    (member : use ∈ held) (inside : n ∈ use.pages m) :
    n ∉ m.freelist ∧ n ∉ other.pages m := by
  have sound := funded.sound
  rw [shares_cons] at sound
  have mine := subset_shares member inside
  refine ⟨sound.not_free (Multiset.mem_add.mpr (Or.inr mine)), ?_⟩
  intro theirs
  exact Multiset.disjoint_left.mp (Multiset.nodup_add.mp sound.nodup).2.2 theirs mine

/-- The new address space before the arguments are copied: there is a stack at the bottom,
no page table for the page before `DEVSPACE`, and one for `DEVSPACE`. -/
theorem stack_succeeds (funded : Funded layout m held) (room : 68 ≤ m.freelist.length) :
    ∃ d m1 m2 m3, setupkvm layout m = .ok (some d, m1) ∧
      allocuvm layout d 0 (2 * PGSIZE) m1 = .ok (2 * PGSIZE, m2) ∧
      clearpteu d 0 m2 = .ok ((), m3) ∧ m.freelist.head? = some d ∧
      Trades m m3 0 (space m3 d) ∧ KernelOnly m3 d ∧
      present (m3.page d (PDX 0xFDFFF)) = false ∧ present (m3.page d (PDX 0xFE000)) = true := by
  obtain ⟨d, m1, setup, new⟩ := setupkvm_succeeds funded.held_zero (by omega)
  have fresh := new.fresh funded.held_zero
  have length := setupkvm_length new
  have roomy : Roomy m1 d {PDX 0} (0 + PGROUNDUP (2 * PGSIZE) / PGSIZE) := by
    apply Roomy.of_length
    rw [Finset.card_singleton]
    change 1 + (0 + 2) ≤ m1.freelist.length
    omega
  have low (v : Nat) (below : v * PGSIZE < 2 * PGSIZE) : PDX v ∈ ({PDX 0} : Finset _) := by
    rw [Finset.mem_singleton]
    apply Fin.ext
    simp only [PGSIZE] at below
    change v / 1024 % 1024 = 0
    omega
  obtain ⟨_, m2, allocated, allocates⟩ :=
    (fresh.sized.allocuvm_ends (2 * PGSIZE)).exists_ok (fun _ => not_not_intro trivial)
  obtain ⟨rfl, _⟩ := allocates.room (by decide) (Nat.zero_le _) _ 0 low roomy
  obtain ⟨sized, _⟩ := fresh.sized.grown allocates (by decide)
  obtain ⟨_, m3, cleared, closes⟩ := (clearpteu_ends sized.held.sound (slot_low (by decide))
    ((sized.mapped 0 (by decide)).mpr (by decide))).exists_ok (fun _ => id)
  have same (i : Fin NPTENTRIES) (high : 512 ≤ i.val) : m3.page d i = m1.page d i := by
    rw [closes.dir, allocates.high.2 i high]
  refine ⟨d, m1, m2, m3, setup, allocated, cleared, new.first,
    (new.trade.trans allocates.trade).trans closes.trade, ?_, ?_, ?_⟩
  · intro s high
    rw [closes.kept, allocates.kernel new.kernel s high]
    rintro rfl
    cases high
  · rw [same _ (by decide), ← Bool.not_eq_true, new.tables]
    decide +kernel
  · rw [same _ (by decide), new.tables]
    decide +kernel

theorem pushArgs_refused {null : Op Nat} {arg : Str} {sz : Nat}
    (refused : copyout layout null d ((sz + UINT - (arg.len + 1) % UINT) % UINT / 4 * 4)
      (fun i => if i < arg.len then arg.byte i else 0) (arg.len + 1) m = .ok (false, m')) :
    pushArgs layout null d [arg] sz m = .ok (none, m') := by
  have pushed : pushStrings layout null d [arg] sz [] m = .ok (none, m') := by
    have room : ¬ MAXARG ≤ ([] : List Nat).length := by decide
    unfold pushStrings
    rw [if_neg room]
    change (copyout layout null d _ _ _ >>= _) m = _
    rw [bind_ok refused]
    rfl
  unfold pushArgs
  rw [bind_ok pushed]
  rfl

/-- `exec` of the file without segments, once the stack is there. -/
theorem exec_bareFile {null : Op Nat} {argv : List Str} {m1 m2 m3 : Mem} {result : Option Nat}
    (setup : setupkvm layout m = .ok (some d, m1))
    (allocated : allocuvm layout d 0 (2 * PGSIZE) m1 = .ok (2 * PGSIZE, m2))
    (cleared : clearpteu d 0 m2 = .ok ((), m3))
    (pushed : pushArgs layout null d argv (2 * PGSIZE) m3 = .ok (result, m')) :
    exec layout null (some bareFile) argv m =
      match result with
      | none => (do freevm layout d; pure none : Op (Option Image)) m'
      | some sp => .ok (some ⟨d, 2 * PGSIZE, 0, sp⟩, m') := by
  have built : buildImage layout null d bareFile argv m1 =
      .ok (result.map (fun sp => (2 * PGSIZE, sp)), m') := by
    have segments : loadSegments layout d bareFile (bareFile.ushort 44) (bareFile.uint 28) 0 m1 =
        .ok (some 0, m1) := rfl
    unfold buildImage
    rw [bind_ok segments]
    change (allocuvm layout d 0 (2 * PGSIZE) >>= _) m1 = _
    rw [bind_ok allocated, if_neg (by decide)]
    change (clearpteu d 0 >>= _) m2 = _
    rw [bind_ok cleared, bind_ok pushed]
    cases result with
    | none => rfl
    | some sp => rfl
  have header : bareFile.readi 0 52 = some 52 := rfl
  have magic : bareFile.uint 0 = ELF_MAGIC := rfl
  unfold exec
  simp only [header, magic, ne_eq, not_true_eq_false, if_false]
  rw [bind_ok setup]
  change (buildImage layout null d bareFile argv >>= _) m1 = _
  rw [bind_ok built]
  cases result with
  | none => rfl
  | some sp => rfl

/-- Copying the argument overwrites the page that the word at address 0 names. -/
theorem pushArgs_wild {null : Op Nat} {target : Nat} {page : Page}
    (missing : present (m.page d (PDX 0xFDFFF)) = false)
    (read : null m = .ok (target * PGSIZE + 7, m)) (managed : layout.Manages target)
    (words : ∀ i, page i < UINT)
    (refused : uva2ka null d 0xFE000 (m.setPage target page) = .ok (none, m.setPage target page)) :
    pushArgs layout null d [wildArg page] (2 * PGSIZE) m = .ok (none, m.setPage target page) := by
  have entry : present (target * PGSIZE + 7) = true ∧ user (target * PGSIZE + 7) = true ∧
      pteAddr (target * PGSIZE + 7) = target :=
    ⟨present_mkPte target (PTE_W ||| PTE_U), user_mkPte target (by decide : PTE_W ||| PTE_U < PGSIZE),
      pteAddr_mkPte target (by decide : PTE_W ||| PTE_U < PGSIZE)⟩
  have first : uva2ka null d (0xFDFFF000 / PGSIZE) m = .ok (some target, m) := by
    rw [← entry.2.2]
    exact uva2ka_missing missing read entry.1 entry.2.1
  have full : (m.page target).write 0 PGSIZE (wildArg page).bytes = page := by
    apply write_full _ words
    intro i small
    have long : i < 0x2002FFF := Nat.lt_trans small (by decide)
    change (if i < 0x2002FFF then page.byte (i % PGSIZE) else 0) = page.byte i
    rw [if_pos long, Nat.mod_eq_of_lt small]
  apply pushArgs_refused
  change copyout layout null d ((2 * PGSIZE + UINT - (0x2002FFF + 1) % UINT) % UINT / 4 * 4)
    (wildArg page).bytes (0x2002FFF + 1) m = _
  change copyoutLoop layout null d (0x2002FFE + 1 + 1) 0xFDFFF000 0x2003000 _ m = _
  rw [copyoutLoop_next _ (by decide) managed first]
  change copyoutLoop layout null d (0x2002FFE + 1) 0xFE000000 0x2002000 _
    (m.setPage target ((m.page target).write 0 PGSIZE (wildArg page).bytes)) = _
  rw [full]
  exact copyoutLoop_refused _ (by decide) refused

/-- The word at address 0 of a process is an entry for a page of its choice. -/
structure Names (m : Mem) (d target : Nat) : Prop where
  there : present (m.page d 0) = true
  mapped : present (m.page (pteAddr (m.page d 0)) 0) = true
  word : m.page (pteAddr (m.page (pteAddr (m.page d 0)) 0)) 0 = target * PGSIZE + 7

/-- `exec` fails, and it has overwritten the page before it frees the new address space. -/
theorem exec_wild {current target : Nat} {page : Page} (funded : Funded layout m held)
    (member : Use.space current ∈ held) (room : 68 ≤ m.freelist.length)
    (names : Names m current target) (managed : layout.Manages target)
    (words : ∀ i, page i < UINT) :
    ∃ d m3, m.freelist.head? = some d ∧ Trades m m3 0 (space m3 d) ∧ KernelOnly m3 d ∧
      present (m3.page d (PDX 0xFE000)) = true ∧
      (uva2ka (loadNull current) d 0xFE000 (m3.setPage target page) =
          .ok (none, m3.setPage target page) →
        exec layout (loadNull current) (some bareFile) [wildArg page] m =
          (do freevm layout d; pure none : Op (Option Image)) (m3.setPage target page)) := by
  obtain ⟨d, m1, m2, m3, setup, allocated, cleared, head, trade, only, missing, device⟩ :=
    stack_succeeds funded room
  refine ⟨d, m3, head, trade, only, device, fun refused => ?_⟩
  have sound := (funded.held_of_mem member).sound
  have keeps (n : Nat) (inside : n ∈ space m current) : m3.page n = m.page n :=
    trade.untouched n (sound.not_free inside) (Multiset.notMem_zero n)
  have tableMember : pteAddr (m.page current 0) ∈ space m current := table_mem_space names.there
  have first : m.page (pteAddr (m.page current 0)) 0 = pte m current (slot 0) := by
    rw [pte_of_present (s := slot 0) names.there]
    rfl
  have pageMember : pteAddr (m.page (pteAddr (m.page current 0)) 0) ∈ space m current := by
    rw [mem_space, first]
    exact Or.inr (Or.inr (mem_users.mpr ⟨slot 0, by decide, first ▸ names.mapped, rfl⟩))
  have null : loadNull current m3 = .ok (target * PGSIZE + 7, m3) := by
    rw [← names.word, ← keeps _ pageMember]
    apply loadNull_eq
    · rw [keeps _ dir_mem_space]
      exact names.there
    · rw [keeps _ dir_mem_space]
    · rw [keeps _ tableMember]
      exact names.mapped
    · rw [keeps _ tableMember]
  exact exec_bareFile setup allocated cleared (pushArgs_wild missing null managed words refused)

/-- `exec` fails, and has overwritten the page table of the process that called it. -/
theorem exec_overwrites {current : Nat} (funded : Funded layout m held)
    (member : Use.space current ∈ held) (room : 68 ≤ m.freelist.length)
    (names : Names m current (pteAddr (m.page current 0))) :
    ∃ m', exec layout (loadNull current) (some bareFile) [longArg] m = .ok (none, m') ∧
      m'.page current = m.page current ∧ m'.page (pteAddr (m.page current 0)) = junkPage := by
  have tableMember : pteAddr (m.page current 0) ∈ space m current := table_mem_space names.there
  have notDir := table_ne_dir (funded.held_of_mem member).sound.nodup names.there
  have words (i : Fin NPTENTRIES) : junkPage i < UINT := (by decide : 0x01010101 < UINT)
  obtain ⟨d, m3, _, trade, only, device, executes⟩ := exec_wild funded member room names
    (funded.manages member tableMember) words
  rw [← longArg_eq] at executes
  have keeps (n : Nat) (inside : n ∈ space m current) : m3.page n = m.page n :=
    trade.untouched n ((funded.held_of_mem member).sound.not_free inside) (Multiset.notMem_zero n)
  have funded3 := funded.newSpace trade
  have apart (n : Nat) (inside : n ∈ space m current) :
      n ∉ m3.freelist ∧ n ∉ space m3 d := by
    have same : space m3 current = space m current := (sameSpace_of_pages keeps).pages
    exact funded3.apart member (same.symm ▸ inside : n ∈ space m3 current)
  generalize pteAddr (m.page current 0) = table at *
  -- The new space is freed without harm; the old one has lost its page table.
  have kept : SameSpace m3 (m3.setPage table junkPage) d := by
    apply sameSpace_of_pages
    intro n new
    apply m3.setPage_other
    rintro rfl
    exact (apart n tableMember).2 new
  have held4 : Held layout True (m3.setPage table junkPage)
      (space (m3.setPage table junkPage) d) := by
    rw [kept.pages]
    exact ⟨funded3.held_space.sound, funded3.held_space.managed⟩
  obtain ⟨_, m5, freed, trade5⟩ := (freevm_ends held4).exists_ok (fun _ => not_not_intro trivial)
  have after (n : Nat) (inside : n ∈ space m current) :
      m5.page n = (m3.setPage table junkPage).page n := by
    apply trade5.untouched n (apart n inside).1
    rw [kept.pages]
    exact (apart n inside).2
  refine ⟨m5, ?_, ?_, ?_⟩
  · rw [executes, bind_ok freed]
    · rfl
    · apply uva2ka_refused
      · rw [kept.dir]
        exact device
      · rw [kept.entries]
        exact only _ (by decide)
  · rw [after _ dir_mem_space, m3.setPage_other notDir.symm, keeps _ dir_mem_space]
  · rw [after _ tableMember, m3.setPage_self]

end Exec

/-! ### A run that loses a page table -/

/-- The process grows until the argument fits, writes an entry for its page table to
address 0, and calls `exec`. -/
def wildExec (p : Fin NPROC) (table : Nat) : List (Fin NPROC × Event Inode) :=
  [(p, .sbrk 0x2500000), (p, .store 0 0 (UInt32.ofNat (table * PGSIZE + 7))),
    (p, .exec (some bareFile) [longArg])]

theorem kernel_step {start k' : Kernel Inode} {p : Fin NPROC} {event : Event Inode}
    (running : (k.proc p).state = .runnable) (ran : call layout p event k = .ok ((), k')) :
    (kernel layout start).step k (p, event) = some k' := by
  change (if (k.proc p).state = .runnable then _ else none) = _
  rw [if_pos running]
  simp only [ran]

theorem sbrk_booted (booted : Booted layout k) :
    ∃ k', call layout k.initproc (.sbrk 0x2500000) k = .ok ((), k') ∧
      k'.proc k.initproc = { k.proc k.initproc with sz := 0x2501000 } ∧
      Allocates k.mem k'.mem (k.proc k.initproc).pgdir PGSIZE 0x2501000 0x2501000 ∧
      68 ≤ k'.mem.freelist.length := by
  have free := booted.room
  have roomy : Roomy k.mem (k.proc k.initproc).pgdir Finset.univ
      (68 + PGROUNDUP 0x2501000 / PGSIZE) := by
    apply Roomy.of_length
    rw [Finset.card_univ, Fintype.card_fin]
    change 1024 + (68 + 9473) ≤ k.mem.freelist.length
    omega
  obtain ⟨_, m, allocated, allocates⟩ := (allocuvm_ends PGSIZE 0x2501000
    (booted.inv.held_space booted.running)).exists_ok (by
      rintro _ (unsure | ⟨_, _, ⟨v, after, below, rfl⟩, taken⟩)
      · exact unsure trivial
      · change 1 ≤ v at after
        rw [booted.absent v after (Nat.lt_trans below (by decide))] at taken
        cases taken)
  obtain ⟨rfl, left⟩ := allocates.room (by decide) (by decide) _ 68
    (fun v _ => Finset.mem_univ _) roomy
  have length : 68 ≤ m.freelist.length := by
    have few := card_gather_le Finset.univ (m.page (k.proc k.initproc).pgdir)
    unfold Roomy at left
    omega
  refine ⟨{ k.setProc k.initproc { k.proc k.initproc with sz := 0x2501000 } with mem := m }, ?_,
    update_self .., allocates, length⟩
  have size : ((((k.proc k.initproc).sz : Int) + 0x2500000) % (UINT : Int)).toNat = 0x2501000 := by
    rw [booted.size]
    rfl
  have resized : onMem (allocuvm layout (k.proc k.initproc).pgdir (k.proc k.initproc).sz 0x2501000)
      k = .ok (0x2501000, { k with mem := m }) := by
    rw [booted.size]
    exact onMem_eq_ok.mpr ⟨m, allocated, rfl⟩
  have grown : growproc layout k.initproc 0x2500000 k = .ok (true,
      { k.setProc k.initproc { k.proc k.initproc with sz := 0x2501000 } with mem := m }) := by
    unfold growproc
    rw [get_bind, size, if_pos (by decide), bind_ok resized]
    rfl
  change (growproc layout k.initproc 0x2500000 >>= _) k = _
  rw [bind_ok grown]
  rfl

/-- The first process after it has grown by 37 MB. -/
structure Grown (layout : Layout) (k k1 : Kernel Inode) : Prop where
  step : (kernel layout k).step k (k.initproc, .sbrk 0x2500000) = some k1
  inv : Inv layout k1
  running : (k1.proc k.initproc).state = .runnable
  size : (k1.proc k.initproc).sz = 0x2501000
  first : ∃ n, pte k1.mem (k1.proc k.initproc).pgdir (slot 0) = mkPte n (PTE_W ||| PTE_U)
  allocates : Allocates k.mem k1.mem (k1.proc k.initproc).pgdir PGSIZE 0x2501000 0x2501000
  room : 68 ≤ k1.mem.freelist.length

theorem booted_grows (booted : Booted layout k) : ∃ k1, Grown layout k k1 := by
  obtain ⟨n, mapped⟩ := booted.mapped
  obtain ⟨k1, grown, self, allocates, room⟩ := sbrk_booted booted
  have pgdir : (k1.proc k.initproc).pgdir = (k.proc k.initproc).pgdir := by rw [self]
  have safe : Safe layout k (k.initproc, .sbrk 0x2500000) := trivial
  refine ⟨k1, kernel_step booted.running grown, call_inv booted.inv booted.running safe grown, ?_,
    by rw [self], ⟨n, ?_⟩, by rwa [pgdir], room⟩
  · rw [self]
    exact booted.running
  · rw [pgdir, ← mapped]
    apply allocates.kept.1
    rw [inRange_iff (by decide) (by decide)]
    decide

theorem userStore_eq {m : Mem} {d n vpn : Nat} (word : Fin NPTENTRIES) (value : UInt32)
    (below : vpn * PGSIZE < KERNBASE) (mapped : pte m d (slot vpn) = mkPte n (PTE_W ||| PTE_U)) :
    userStore d vpn word value m =
      .ok (true, m.setPage n (update (m.page n) word value.toNat)) := by
  have there : present (m.page d (PDX vpn)) = true := by
    apply table_present (s := slot vpn)
    rw [mapped]
    exact present_mkPte n _
  have read : getWord (pteAddr (m.page d (PDX vpn))) (PTX vpn) m =
      .ok (mkPte n (PTE_W ||| PTE_U), m) := by
    rw [← mapped]
    exact getEntry_ok there
  have allowed : present (mkPte n (PTE_W ||| PTE_U)) = true ∧
      user (mkPte n (PTE_W ||| PTE_U)) = true ∧
        (mkPte n (PTE_W ||| PTE_U)).testBit 1 = true :=
    ⟨present_mkPte n _, user_mkPte n (by decide), testBit_mkPte n (by decide) (by decide)⟩
  unfold userStore
  rw [if_pos below, bind_ok (walkpgdir_present false there)]
  change (getWord _ (PTX vpn) >>= _) m = _
  rw [bind_ok read, if_pos allowed, pteAddr_mkPte n (by decide)]
  rfl

theorem store_names {m : Mem} {d n target : Nat} (sound : m.Sound (space m d))
    (mapped : pte m d (slot 0) = mkPte n (PTE_W ||| PTE_U)) (fits : target < PHYSTOP / PGSIZE) :
    ∃ m', userStore d 0 0 (UInt32.ofNat (target * PGSIZE + 7)) m = .ok (true, m') ∧
      Names m' d target ∧ m'.page d = m.page d ∧ m'.freelist = m.freelist ∧
      ∀ other, other ≠ n → m'.page other = m.page other := by
  have there : present (m.page d 0) = true := by
    apply table_present (s := slot 0)
    rw [mapped]
    exact present_mkPte n _
  have first : m.page (pteAddr (m.page d 0)) 0 = mkPte n (PTE_W ||| PTE_U) := by
    rw [← mapped, pte_of_present (s := slot 0) there]
    rfl
  have page : pteAddr (mkPte n (PTE_W ||| PTE_U)) = n := pteAddr_mkPte n (by decide)
  have inUsers : n ∈ users m d := by
    refine mem_users.mpr ⟨slot 0, by decide, ?_, ?_⟩
    · rw [mapped]
      exact present_mkPte n _
    · rw [mapped, page]
  obtain ⟨notDir, notTable⟩ := user_not_table sound.nodup inUsers
  have different : pteAddr (m.page d 0) ≠ n :=
    fun same => notTable (same ▸ mem_tables.mpr ⟨0, there, rfl⟩)
  have value : (UInt32.ofNat (target * PGSIZE + 7)).toNat = target * PGSIZE + 7 := by
    rw [UInt32.toNat_ofNat', Nat.mod_eq_of_lt]
    simp only [PHYSTOP, PGSIZE] at fits ⊢
    omega
  have dir : (m.setPage n (update (m.page n) 0 (target * PGSIZE + 7))).page d =
      m.page d := m.setPage_other notDir.symm _
  refine ⟨_, userStore_eq 0 _ (by decide) mapped, ?_⟩
  rw [value]
  refine ⟨⟨?_, ?_, ?_⟩, dir, rfl, fun other apart => m.setPage_other apart _⟩
  · rw [dir]
    exact there
  · rw [dir, m.setPage_other different, first]
    exact present_mkPte n _
  · rw [dir, m.setPage_other different, first, page, m.setPage_self]
    exact update_self ..

theorem not_funded_of_junk {m : Mem} {d : Nat} {held : Multiset Use} (member : Use.space d ∈ held)
    (there : present (m.page d 0) = true) (junk : m.page (pteAddr (m.page d 0)) = junkPage) :
    ¬ Funded layout m held := by
  intro funded
  have nodup := (funded.held_of_mem member).sound.nodup
  have word (i : Fin NPTENTRIES) : pte m d (0, i) = 0x01010101 := by
    rw [pte_of_present (s := (0, i)) there, junk]
    rfl
  have mapped (i : Fin NPTENTRIES) : present (pte m d (0, i)) = true := by
    rw [word]
    decide
  have low (i : Fin NPTENTRIES) : ((0, i) : Slot) ∈ lowSlots := mem_lowSlots.mpr rfl
  have same : ((0, 0) : Slot) = (0, 1) := by
    apply gather_injective (Multiset.nodup_add.mp nodup).2.1 (low 0) (low 1) (mapped 0) (mapped 1)
    rw [word, word]
  cases same

section Calls

variable {p : Fin NPROC} {m : Mem}

theorem call_store {vpn : Nat} {word : Fin NPTENTRIES} {value : UInt32} {stored : Bool}
    (ran : userStore (k.proc p).pgdir vpn word value k.mem = .ok (stored, m)) :
    call layout p (.store vpn word value) k = .ok ((), { k with mem := m }) := by
  have done : onMem (userStore (k.proc p).pgdir vpn word value) k =
      .ok (stored, { k with mem := m }) := onMem_eq_ok.mpr ⟨m, ran, rfl⟩
  change ((get : Sys Inode (Kernel Inode)) >>= _) k = _
  rw [get_bind, bind_ok done]
  rfl

theorem call_exec_fails {file : Option File} {argv : List Str}
    (fetched : argv.length < MAXARG ∧ argv.all (fun arg => arg.len < (k.proc p).sz) = true)
    (ran : exec layout (loadNull (k.proc p).pgdir) file argv k.mem = .ok (none, m)) :
    call layout p (.exec file argv) k = .ok ((), { k with mem := m }) := by
  have done : onMem (exec layout (loadNull (k.proc p).pgdir) file argv) k =
      .ok (none, { k with mem := m }) := onMem_eq_ok.mpr ⟨m, ran, rfl⟩
  have refused : sys_exec layout p file argv k = .ok (false, { k with mem := m }) := by
    unfold sys_exec
    rw [get_bind, if_pos fetched, bind_ok done]
    rfl
  change (sys_exec layout p file argv >>= _) k = _
  rw [bind_ok refused]
  rfl

end Calls

/-- The first process can do it on every machine. -/
theorem wildExec_breaks (booted : Booted layout k) :
    ∃ table k', (kernel layout k).exec k (wildExec k.initproc table) = some k' ∧
      ¬ Owns layout k' := by
  obtain ⟨k1, growing, inv1, running, size, ⟨n, first⟩, _, room⟩ := booted_grows booted
  have uses1 := mem_uses_of_runnable inv1 running
  have there : present (k1.mem.page (k1.proc k.initproc).pgdir 0) = true := by
    apply table_present (s := slot 0)
    rw [first]
    exact present_mkPte n _
  obtain ⟨m2, stored, names, dir, freelist, _⟩ := store_names (inv1.held_space running).sound first
    (Funded.manages inv1.owns uses1 (table_mem_space there)).2
  have writes := userStore_ok (inv1.held_space running).sound stored
  have inv2 := inv1.ownSpace_same running writes.trade
  have uses2 := mem_uses_of_runnable inv2 running
  rw [← dir] at names
  obtain ⟨m3, executed, kept, junk⟩ := exec_overwrites inv2.owns uses2 (freelist ▸ room) names
  have fetched : [longArg].length < MAXARG ∧
      [longArg].all (fun arg => arg.len < (k1.proc k.initproc).sz) = true := by
    rw [size]
    decide
  refine ⟨pteAddr (k1.mem.page (k1.proc k.initproc).pgdir 0), { k1 with mem := m3 }, ?_, ?_⟩
  · have storing : (kernel layout k).step k1 _ = some { k1 with mem := m2 } :=
      kernel_step running (call_store stored)
    have executing : (kernel layout k).step { k1 with mem := m2 } _ = some { k1 with mem := m3 } :=
      kernel_step running (call_exec_fails fetched executed)
    unfold wildExec
    simp only [Machine.exec, growing, storing, executing, Option.bind_some]
  · change ¬ Funded layout m3 (uses k1)
    apply not_funded_of_junk uses1
    · rw [kept]
      exact names.there
    · rw [kept]
      exact junk

end Xv6.Memory
