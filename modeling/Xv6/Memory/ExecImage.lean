/-
What `exec` makes of an arbitrary file: the segments that it loads, and the argument with
which a process makes it free a page table of its own.
-/
import Xv6.Memory.ExecStack

namespace Xv6.Memory

open Function Library Library.Code

variable {layout : Layout} {m m' : Mem} {d : Nat} {argv : List Str} {file : File}

/-- The addresses of a segment. -/
def ProgHdr.Covers (ph : ProgHdr) (a : Nat) : Prop := ph.vaddr ≤ a ∧ a < ph.vaddr + ph.memsz

def ProgHdr.Disjoint (ph other : ProgHdr) : Prop := ∀ a, ph.Covers a → ¬other.Covers a

theorem end_le_imageEnd {ph : ProgHdr} (segments : List ProgHdr) :
    ∀ sz, ph ∈ segments → ph.vaddr + ph.memsz ≤ imageEnd segments sz := by
  induction segments with
  | nil => exact nofun
  | cons head rest ih =>
    intro sz member
    rcases List.mem_cons.mp member with rfl | later
    · exact Nat.le_trans (Nat.le_max_right _ _) (le_imageEnd rest _)
    · exact ih _ later

theorem segmentByte_none {a : Nat} (segments : List ProgHdr)
    (outside : ∀ ph ∈ segments, ¬(ph.vaddr ≤ a ∧ a < ph.vaddr + ph.filesz)) :
    segmentByte file segments a = none := by
  induction segments with
  | nil => rfl
  | cons head rest ih =>
    unfold segmentByte
    rw [ih (fun ph member => outside ph (List.mem_cons_of_mem _ member)),
      if_neg (outside head List.mem_cons_self)]
    rfl

theorem segmentByte_of_mem {ph : ProgHdr} {i : Nat} (segments : List ProgHdr)
    (fits : ∀ ph ∈ segments, ph.filesz ≤ ph.memsz) (disjoint : segments.Pairwise ProgHdr.Disjoint)
    (member : ph ∈ segments) (inside : i < ph.filesz) :
    segmentByte file segments (ph.vaddr + i) = some (file.byte (ph.off + i)) := by
  induction segments with
  | nil => cases member
  | cons head rest ih =>
    obtain ⟨apart, later⟩ := List.pairwise_cons.mp disjoint
    have restFits : ∀ ph ∈ rest, ph.filesz ≤ ph.memsz :=
      fun ph member => fits ph (List.mem_cons_of_mem _ member)
    have size := fits ph member
    unfold segmentByte
    rcases List.mem_cons.mp member with rfl | member
    · rw [segmentByte_none rest, if_pos ⟨Nat.le_add_right _ _, by omega⟩, Nat.add_sub_cancel_left]
      · rfl
      · rintro other found ⟨low, high⟩
        have bound := restFits other found
        exact apart other found (ph.vaddr + i) ⟨Nat.le_add_right _ _, by omega⟩ ⟨low, by omega⟩
    · rw [ih restFits later member]
      rfl

/-! ### An argument that replaces the new page directory -/

section Hijack

variable {Inode : Type} {k : Kernel Inode} {q : Nat}

/-- Among that many pages there is one whose number has no byte 0. -/
theorem exists_plain_page (sound : m.Sound (space m d))
    (bound : ∀ n ∈ users m d, n < PHYSTOP / PGSIZE)
    (mapped : ∀ v, 1 ≤ v → v ≤ 9472 → present (pte m d (slot v)) = true) :
    ∃ v, (1 ≤ v ∧ v ≤ 9472) ∧ 4096 ≤ pteAddr (pte m d (slot v)) ∧
      pteAddr (pte m d (slot v)) / 16 % 256 ≠ 0 := by
  by_contra none
  simp only [not_exists, not_and, not_not] at none
  have low (v : Nat) (range : 1 ≤ v ∧ v ≤ 9472) : (slot v).low = true := by
    apply slot_low
    simp only [PGSIZE, KERNBASE]
    omega
  -- the other numbers are few, so that two of the pages would have the same one
  have few (v : Nat) (range : 1 ≤ v ∧ v ≤ 9472) :
      pteAddr (pte m d (slot v)) < 57344 ∧ (4096 ≤ pteAddr (pte m d (slot v)) →
        pteAddr (pte m d (slot v)) / 16 % 256 = 0) :=
    ⟨bound _ (mem_users.mpr ⟨slot v, low v range, mapped v range.1 range.2, rfl⟩), none v range⟩
  let code (n : Nat) : Nat := if n < 4096 then n else 4096 + n / 4096 * 16 + n % 16
  obtain ⟨v, vRange, w, wRange, different, same⟩ :=
    Finset.exists_ne_map_eq_of_card_lt_of_maps_to (s := Finset.Icc 1 9472) (t := Finset.range 4320)
      (by rw [Finset.card_range, Nat.card_Icc]; decide)
      (f := fun v => code (pteAddr (pte m d (slot v)))) (by
        intro v inside
        have limits := few v (Finset.mem_Icc.mp inside)
        apply Finset.mem_coe.mpr
        apply Finset.mem_range.mpr
        dsimp only [code]
        split
        · omega
        · omega)
  have vIn := Finset.mem_Icc.mp vRange
  have wIn := Finset.mem_Icc.mp wRange
  have equal : pteAddr (pte m d (slot v)) = pteAddr (pte m d (slot w)) := by
    have first := few v vIn
    have second := few w wIn
    dsimp only [code] at same
    split at same
    · split at same
      · exact same
      · omega
    · split at same
      · omega
      · omega
  have slots := gather_injective (Multiset.nodup_add.mp sound.nodup).2.1
    (mem_lowSlots.mpr (low v vIn)) (mem_lowSlots.mpr (low w wIn)) (mapped v vIn.1 vIn.2)
    (mapped w wIn.1 wIn.2) equal
  exact different (slot_injective (by omega) (by omega) slots)

/-- The first process grows, writes a word to one of its pages, and an entry for the next
free page to address 0. -/
def preparation (p : Fin NPROC) (vpn : Nat) (value : UInt32) (target : Nat) :
    List (Fin NPROC × Event Inode) :=
  [(p, .sbrk 0x2500000), (p, .store vpn 0 value),
    (p, .store 0 0 (UInt32.ofNat (target * PGSIZE + 7)))]

/-- What it has then: `q` is its page with the word, and `d` the page that `exec` will take
for the new directory. -/
structure Prepared (layout : Layout) (k : Kernel Inode) (p : Fin NPROC) (d q value : Nat) :
    Prop where
  inv : Inv layout k
  running : (k.proc p).state = .runnable
  size : (k.proc p).sz = 0x2501000
  head : k.mem.freelist.head? = some d
  room : 68 ≤ k.mem.freelist.length
  names : Names k.mem (k.proc p).pgdir d
  member : q ∈ users k.mem (k.proc p).pgdir
  word : k.mem.page q 0 = value
  plain : 4096 ≤ q ∧ q / 16 % 256 ≠ 0

theorem prepare (booted : Booted layout k) (value : UInt32) :
    ∃ vpn d q k', (kernel layout k).exec k (preparation k.initproc vpn value d) = some k' ∧
      Prepared layout k' k.initproc d q value.toNat := by
  obtain ⟨k1, growing, inv1, running, size, ⟨n, first⟩, allocates, room⟩ := booted_grows booted
  have held1 := inv1.held_space running
  obtain ⟨_, _, grows⟩ := allocates.success (by decide)
  have fresh (v : Nat) (range : 1 ≤ v ∧ v ≤ 9472) :
      ∃ n, pte k1.mem (k1.proc k.initproc).pgdir (slot v) = mkPte n (PTE_W ||| PTE_U) := by
    obtain ⟨n, entry, _⟩ := grows.fresh v range.1 (by simp only [PGSIZE]; omega)
    exact ⟨n, entry⟩
  obtain ⟨v, range, plain⟩ := exists_plain_page held1.sound
    (fun n member => (held1.manages (mem_space.mpr (Or.inr (Or.inr member))) trivial).2) (by
      intro v low high
      obtain ⟨n, entry⟩ := fresh v ⟨low, high⟩
      rw [entry]
      exact present_mkPte n _)
  obtain ⟨q, entry⟩ := fresh v range
  have page : pteAddr (mkPte q (PTE_W ||| PTE_U)) = q := pteAddr_mkPte q (by decide)
  rw [entry, page] at plain
  have below : v * PGSIZE < KERNBASE := by
    simp only [PGSIZE, KERNBASE]
    omega
  obtain ⟨m2, written⟩ :
      ∃ m2, m2 = k1.mem.setPage q (update (k1.mem.page q) 0 value.toNat) := ⟨_, rfl⟩
  have stored : userStore (k1.proc k.initproc).pgdir v 0 value k1.mem = .ok (true, m2) := by
    rw [written]
    exact userStore_eq 0 value below entry
  have writes := userStore_ok held1.sound stored
  have inv2 := inv1.ownSpace_same running writes.trade
  have held2 := inv2.held_space running
  obtain ⟨d, head⟩ : ∃ d, k1.mem.freelist.head? = some d := by
    cases list : k1.mem.freelist with
    | nil =>
      rw [list] at room
      cases room
    | cons d rest => exact ⟨d, rfl⟩
  have fits : d < PHYSTOP / PGSIZE :=
    (held1.managed trivial d (Multiset.mem_add.mpr
      (Or.inl (Multiset.mem_coe.mpr (List.mem_of_mem_head? head))))).2
  obtain ⟨m3, named, names, dir, freelist, frame⟩ := store_names held2.sound
    ((congrFun writes.same.entries (slot 0)).trans first) fits
  have free : m3.freelist = k1.mem.freelist := by
    rw [freelist, written]
    rfl
  have writes3 := userStore_ok held2.sound named
  have inv3 := inv2.ownSpace_same running writes3.trade
  have apart : q ≠ n := by
    rintro rfl
    have same : slot v = slot 0 := by
      apply gather_injective (Multiset.nodup_add.mp held1.sound.nodup).2.1
        (mem_lowSlots.mpr (slot_low below)) (mem_lowSlots.mpr (by decide))
      · rw [entry]
        exact present_mkPte q _
      · rw [first]
        exact present_mkPte q _
      · rw [entry, first]
    have zero := slot_injective (by omega) (by decide) same
    omega
  refine ⟨v, d, q, { k1 with mem := m3 }, ?_, inv3, running, ?_, ?_, ?_, names, ?_, ?_, plain⟩
  · have storing : (kernel layout k).step k1 _ = some { k1 with mem := m2 } :=
      kernel_step running (call_store stored)
    have naming : (kernel layout k).step { k1 with mem := m2 } _ = some { k1 with mem := m3 } :=
      kernel_step running (call_store named)
    unfold preparation
    simp only [Machine.exec, growing, storing, naming, Option.bind_some]
  · exact size
  · exact (congrArg List.head? free).trans head
  · exact (congrArg List.length free).symm ▸ room
  · apply mem_users.mpr
    refine ⟨slot v, slot_low below, ?_, ?_⟩
    · rw [writes3.same.entries, writes.same.entries, entry]
      exact present_mkPte q _
    · rw [writes3.same.entries, writes.same.entries, entry, page]
  · rw [frame q apart, written, k1.mem.setPage_self]
    exact update_self ..

/-- A directory in which the page table of the stack's addresses is `q`. -/
def hijackPage (q others : Nat) : Page :=
  update (fun _ => others) 0x3F8 (mkPte q 0x100)

variable {p : Fin NPROC} {value others : Nat}

theorem Prepared.below (prepared : Prepared layout k p d q value) : q < PHYSTOP / PGSIZE :=
  ((prepared.inv.held_space prepared.running).manages
    (mem_space.mpr (Or.inr (Or.inr prepared.member))) trivial).2

/-- No byte of the argument is the NUL that would end it. -/
theorem Prepared.byte_ne_zero (prepared : Prepared layout k p d q value)
    (bytes : ∀ j, j < 4 → others / 256 ^ j % 256 ≠ 0) (i : Nat) :
    (wildArg (hijackPage q others)).byte i ≠ 0 := by
  have below := prepared.below
  have plain := prepared.plain
  simp only [PHYSTOP, PGSIZE] at below
  have word (j : Nat) (inside : j < 4) (index : Fin NPTENTRIES) :
      hijackPage q others index / 256 ^ j % 256 ≠ 0 := by
    by_cases entry : index = 0x3F8
    · rw [entry]
      unfold hijackPage
      rw [update_self]
      change (q * 4096 + 0x101) / 256 ^ j % 256 ≠ 0
      have cases : j = 0 ∨ j = 1 ∨ j = 2 ∨ j = 3 := by omega
      rcases cases with rfl | rfl | rfl | rfl <;> omega
    · unfold hijackPage
      rw [update_of_ne entry]
      exact bytes j inside
  intro zero
  apply word (i % PGSIZE % 4) (by omega) (Fin.ofNat NPTENTRIES (i % PGSIZE / 4))
  have value := congrArg UInt8.toNat zero
  change (UInt8.ofNat _).toNat = 0 at value
  rw [UInt8.toNat_ofNat'] at value
  exact value

/-- The argument reaches the new directory through the null pointer, and the copy stops at
the page table that it has put there. -/
theorem Prepared.exec_hijacked (prepared : Prepared layout k p d q value)
    (fits : others < UINT) (closed : user value = false) :
    ∃ m3, Trades k.mem m3 0 (space m3 d) ∧ (d ∉ m3.freelist ∧ q ∉ m3.freelist ∧ q ≠ d) ∧
      (m3.setPage d (hijackPage q others)).page q 0 = value ∧
      exec layout (loadNull (k.proc p).pgdir) (some bareFile) [wildArg (hijackPage q others)]
        k.mem = (do freevm layout d; pure none : Op (Option Image))
          (m3.setPage d (hijackPage q others)) := by
  have running := prepared.running
  have mine := mem_uses_of_runnable prepared.inv running
  have funded : Funded layout k.mem (uses k) := prepared.inv.owns
  have held := funded.held_of_mem mine
  have inside : q ∈ space k.mem (k.proc p).pgdir :=
    mem_space.mpr (Or.inr (Or.inr prepared.member))
  have free : d ∈ k.mem.freelist := List.mem_of_mem_head? prepared.head
  have apart : q ≠ d := fun same => held.sound.not_free inside (same ▸ free)
  have managed : layout.Manages d :=
    held.managed trivial d (Multiset.mem_add.mpr (Or.inl (Multiset.mem_coe.mpr free)))
  have words (i : Fin NPTENTRIES) : hijackPage q others i < UINT := by
    have below := prepared.below
    unfold hijackPage
    by_cases entry : i = 0x3F8
    · rw [entry, update_self]
      change q * 4096 + 0x101 < 2 ^ 32
      simp only [PHYSTOP, PGSIZE] at below
      omega
    · rw [update_of_ne entry]
      exact fits
  obtain ⟨_, m3, head, trade, _, _, executes⟩ :=
    exec_wild funded mine prepared.room prepared.names managed words
  cases prepared.head.symm.trans head
  have funded3 := funded.newSpace trade
  have untouched (n : Nat) (member : n ∈ space k.mem (k.proc p).pgdir) :
      m3.page n = k.mem.page n :=
    trade.untouched n (held.sound.not_free member) (Multiset.notMem_zero n)
  have notFree : q ∉ m3.freelist :=
    (funded3.apart mine ((sameSpace_of_pages untouched).pages.symm ▸ inside :
      q ∈ space m3 (k.proc p).pgdir)).1
  have word : (m3.setPage d (hijackPage q others)).page q 0 = value := by
    rw [m3.setPage_other apart, untouched q inside]
    exact prepared.word
  have entry : (m3.setPage d (hijackPage q others)).page d (PDX 0xFE000) = mkPte q 0x100 := by
    rw [m3.setPage_self]
    exact update_self ..
  have there : present ((m3.setPage d (hijackPage q others)).page d (PDX 0xFE000)) = true := by
    rw [entry]
    exact present_mkPte q _
  refine ⟨m3, trade, ⟨funded3.held_space.sound.not_free dir_mem_space, notFree, apart⟩, word,
    executes ?_⟩
  apply uva2ka_refused there
  rw [pte_of_present (s := slot 0xFE000) there]
  change user ((m3.setPage d (hijackPage q others)).page
    (pteAddr ((m3.setPage d (hijackPage q others)).page d (PDX 0xFE000))) 0) = false
  rw [entry, pteAddr_mkPte q (by decide), word]
  exact closed

theorem freevm_panics (there : present (m.page d 0) = true)
    (mapped : m.page (pteAddr (m.page d 0)) 0 = PTE_P) :
    freevm layout d m = .error (.panic .kfree) := by
  have walked : walkpgdir d 0 false m = .ok (some (pteAddr (m.page d 0)), m) :=
    walkpgdir_present false there
  have read : getWord (pteAddr (m.page d 0)) (PTX 0) m = .ok (PTE_P, m) := by
    rw [← mapped]
    rfl
  have outside : (0 : Nat) < layout.endPage ∨ PHYSTOP / PGSIZE ≤ 0 :=
    Or.inl (Nat.lt_of_lt_of_le (Nat.zero_lt_of_lt layout.text_before_data) layout.data_before_end)
  have freed : kfree layout (pteAddr PTE_P) m = .error (.panic .kfree) := if_pos outside
  have stopped : deallocLoop layout d KERNBASE (524287 + 1) 0 m = .error (.panic .kfree) := by
    unfold deallocLoop
    rw [if_pos (by decide), bind_ok walked]
    change (getWord _ (PTX 0) >>= _) m = _
    rw [bind_ok read, if_pos (by decide), bind_error freed]
  have cleared : deallocuvm layout d KERNBASE 0 m = .error (.panic .kfree) := by
    unfold deallocuvm
    rw [if_neg (by decide)]
    exact bind_error stopped
  unfold freevm
  exact bind_error cleared

theorem call_exec_error {file : Option File} {argv : List Str} {cause : Stop}
    (fetched : argv.length < MAXARG ∧ argv.all (fun arg => arg.len < (k.proc p).sz) = true)
    (stopped : exec layout (loadNull (k.proc p).pgdir) file argv k.mem = .error cause) :
    call layout p (.exec file argv) k = .error cause := by
  have failed : onMem (exec layout (loadNull (k.proc p).pgdir) file argv) k = .error cause := by
    unfold onMem
    rw [stopped]
  have refused : sys_exec layout p file argv k = .error cause := by
    unfold sys_exec
    rw [get_bind, if_pos fetched, bind_error failed]
  exact bind_error refused

/-- The directory's first entry leads to an entry for the page 0, which `deallocuvm` refuses
to free. -/
theorem Prepared.exec_panics (prepared : Prepared layout k p d q PTE_P) :
    call layout p (.exec (some bareFile) [wildArg (hijackPage q (mkPte q 0x100))]) k =
      .error (.panic .kfree) := by
  have fits : mkPte q 0x100 < UINT := by
    have below := prepared.below
    change q * 4096 + 0x101 < 2 ^ 32
    simp only [PHYSTOP, PGSIZE] at below
    omega
  obtain ⟨m3, _, _, word, executes⟩ := prepared.exec_hijacked fits (by decide)
  have first : (m3.setPage d (hijackPage q (mkPte q 0x100))).page d 0 = mkPte q 0x100 := by
    rw [m3.setPage_self]
    exact update_of_ne (by decide) ..
  apply call_exec_error
  · rw [prepared.size]
    exact ⟨(by decide : 1 < MAXARG), rfl⟩
  · rw [executes]
    apply bind_error
    apply freevm_panics
    · rw [first]
      exact present_mkPte q _
    · rw [first, pteAddr_mkPte q (by decide), word]

theorem space_hijacked (absent : present others = false) :
    space (m.setPage d (hijackPage q others)) d = {d} + {q} := by
  have dir : (m.setPage d (hijackPage q others)).page d = hijackPage q others := m.setPage_self _ _
  have one : tables (m.setPage d (hijackPage q others)) d = {q} := by
    have updated : gather Finset.univ (hijackPage q others) + entry others =
        gather Finset.univ (fun _ => others) + entry (mkPte q 0x100) :=
      gather_update (Finset.mem_univ (0x3F8 : Fin NPTENTRIES)) (mkPte q 0x100)
    rw [entry_of_absent absent, gather_absent (fun _ _ => absent), add_zero, zero_add,
      entry_of_present (present_mkPte q _), pteAddr_mkPte q (by decide)] at updated
    unfold tables
    rw [dir]
    exact updated
  have none : users (m.setPage d (hijackPage q others)) d = 0 := by
    apply gather_absent
    intro s low
    have other : s.1 ≠ 0x3F8 := by
      intro same
      have inside := mem_lowSlots.mp low
      unfold Slot.low at inside
      rw [same] at inside
      revert inside
      decide
    have missing : (m.setPage d (hijackPage q others)).page d s.1 = others := by
      rw [dir]
      exact update_of_ne other ..
    rw [pte_of_absent (missing.symm ▸ absent)]
    exact present_zero
  unfold space
  rw [one, none, add_zero]

/-- The new directory names no page but the page table, which `freevm` frees although it is
a page of the process. -/
theorem Prepared.exec_frees (prepared : Prepared layout k p d q 0) :
    ∃ m', exec layout (loadNull (k.proc p).pgdir) (some bareFile)
        [wildArg (hijackPage q 0x02020202)] k.mem = .ok (none, m') ∧
      q ∉ k.mem.freelist ∧ q ∈ m'.freelist := by
  obtain ⟨m3, trade, ⟨dirUsed, tableUsed, apart⟩, _, executes⟩ :=
    prepared.exec_hijacked (by decide : 0x02020202 < UINT) (by decide)
  have mine := prepared.inv.held_space prepared.running
  have inside : q ∈ space k.mem (k.proc p).pgdir :=
    mem_space.mpr (Or.inr (Or.inr prepared.member))
  have held3 : Held layout True m3 (space m3 d) := (Funded.held_zero prepared.inv.owns).trade trade
  have pages := space_hijacked (m := m3) (d := d) (q := q) (by decide : present 0x02020202 = false)
  have held4 : Held layout True (m3.setPage d (hijackPage q 0x02020202))
      (space (m3.setPage d (hijackPage q 0x02020202)) d) := by
    rw [pages]
    constructor
    · apply Multiset.nodup_add.mpr
      refine ⟨(Multiset.nodup_add.mp held3.sound).1, ?_, ?_⟩
      · exact Multiset.nodup_cons.mpr
          ⟨fun same => apart (Multiset.mem_singleton.mp same).symm, Multiset.nodup_singleton q⟩
      · rw [Multiset.disjoint_right]
        intro n member
        rcases Multiset.mem_add.mp member with same | same
        · exact Multiset.mem_singleton.mp same ▸ dirUsed
        · exact Multiset.mem_singleton.mp same ▸ tableUsed
    · intro _ n member
      rw [← add_assoc] at member
      rcases Multiset.mem_add.mp member with old | same
      · apply held3.managed trivial
        rcases Multiset.mem_add.mp old with free | same
        · exact Multiset.mem_add.mpr (Or.inl free)
        · exact Multiset.mem_add.mpr (Or.inr (Multiset.mem_singleton.mp same ▸ dir_mem_space))
      · exact Multiset.mem_singleton.mp same ▸ mine.manages inside trivial
  obtain ⟨_, m5, freed, trade5⟩ := (freevm_ends held4).exists_ok (fun _ => not_not_intro trivial)
  refine ⟨m5, ?_, mine.sound.not_free inside, ?_⟩
  · rw [executes, bind_ok freed]
    rfl
  · have conserved := trade5.conserved
    rw [pages, add_zero] at conserved
    apply Multiset.mem_coe.mp
    rw [conserved]
    exact Multiset.mem_add.mpr (Or.inr (Multiset.mem_add.mpr
      (Or.inr (Multiset.mem_singleton_self q))))

end Hijack

/-- `exec` of any file returns where no call of `copyout` starts between physical memory and the
devices, and so for arguments below 32 MB, and what the new program finds in its memory. -/
theorem exec_image {found : Option File} (null : Op Nat) (held : Held layout True m 0)
    (input : (∀ arg ∈ argv, arg.len < UINT - DEVSPACE) ∨ (∀ arg ∈ argv, arg.len < KERNBASE) ∧
      EveryCopyout layout null (fun c => ¬c.InHole) found argv m) :
    ∃ result m', exec layout null found argv m = .ok (result, m') ∧
      ∀ image, result = some image →
        (∀ v, KERNBASE ≤ v * PGSIZE → v * PGSIZE < UINT →
          user (pte m' image.pgdir (slot v)) = false) ∧
        ∃ file, found = some file ∧ ∀ segments, segments = file.loads (file.ushort 44) (file.uint 28) →
          segments.Pairwise ProgHdr.Disjoint →
          (∀ ph ∈ segments, ∀ i, i < ph.filesz →
            userByte m' image.pgdir (ph.vaddr + i) = some (file.byte (ph.off + i))) ∧
          (∀ a, a < PGROUNDUP (imageEnd segments 0) →
            (∀ ph ∈ segments, ¬(ph.vaddr ≤ a ∧ a < ph.vaddr + ph.filesz)) →
            userByte m' image.pgdir a = some 0) ∧
          image.sz = PGROUNDUP (imageEnd segments 0) + 2 * PGSIZE ∧
          (present (pte m' image.pgdir (slot (image.sz / PGSIZE - 2))) = true ∧
            user (pte m' image.pgdir (slot (image.sz / PGSIZE - 2))) = false) ∧
          present (pte m' image.pgdir (slot (image.sz / PGSIZE - 1))) = true ∧
          user (pte m' image.pgdir (slot (image.sz / PGSIZE - 1))) = true := by
  obtain ⟨result, m', ran, really⟩ := exec_returns held (tablesPresent_of_input held input)
  refine ⟨result, m', really, ?_⟩
  rintro image rfl
  obtain ⟨_, file, found, _, ready, placed, _⟩ :=
    ((exec_ends held found argv).post_of_ok ran).2 image rfl
  refine ⟨?_, file, found, ?_⟩
  · intro v high small
    apply ready.kernel
    unfold Slot.low
    rw [decide_eq_false_iff_not, Nat.not_lt]
    simp only [KERNBASE, UINT, PGSIZE] at high small
    change 512 ≤ v / 1024 % 1024
    omega
  rintro segments rfl disjoint
  have size := placed.size
  have limit := ready.limit
  have stack := ready.stack
  have aligned := ready.aligned
  have mapped (v : Nat) (below : v * PGSIZE < image.sz) :
      present (pte m' image.pgdir (slot v)) = true :=
    (ready.mapped v (Nat.lt_trans below limit)).mpr below
  have pages : (image.sz / PGSIZE - 2) * PGSIZE < image.sz ∧
      (image.sz / PGSIZE - 1) * PGSIZE < image.sz := by
    simp only [PGSIZE] at stack aligned ⊢
    omega
  refine ⟨?_, ?_, size, ⟨mapped _ pages.1, ready.guard⟩, mapped _ pages.2, placed.stack⟩
  · intro ph member i inside
    have bound := end_le_imageEnd _ 0 member
    have fits := placed.fits ph member
    have rounded (size : Nat) : size ≤ PGROUNDUP size := by
      simp only [PGROUNDUP, PGSIZE]
      omega
    have whole := rounded (imageEnd (file.loads (file.ushort 44) (file.uint 28)) 0)
    rw [placed.bytes _ (by omega), segmentByte_of_mem _ placed.fits disjoint member inside]
    rfl
  · intro a below outside
    rw [placed.bytes _ (by omega), segmentByte_none _ outside]
    rfl

/-- The program `hi` is loaded, followed by zeros. -/
theorem exec_image_hi : ∃ (k : Kernel Unit) (d : Nat) (m' : Mem),
    main smallLayout (fun _ => zeroPage) 1 (fun _ => 0) 0 = .ok k ∧
      exec smallLayout (loadNull (k.proc k.initproc).pgdir) (some hiFile)
        [⟨2, fun _ => 0x61⟩] k.mem = .ok (some ⟨d, 12288, 0, 12264⟩, m') ∧
      userByte m' d 0 = some 0x68 ∧ userByte m' d 1 = some 0x69 ∧
      (∀ a, 2 ≤ a → a < 4096 → userByte m' d a = some 0) ∧
      user (pte m' d (slot 1)) = false ∧ user (pte m' d (slot 2)) = true := by
  obtain ⟨k, d, m', started, held, ran⟩ := small_exec_hi
  have short : ∀ arg ∈ [(⟨2, fun _ => 0x61⟩ : Str)], arg.len < UINT - DEVSPACE :=
    List.forall_mem_singleton.mpr (by decide)
  obtain ⟨_, _, same, image⟩ :=
    exec_image (loadNull (k.proc k.initproc).pgdir) held (Or.inl short)
  cases (ran _).symm.trans same
  obtain ⟨_, file, found, sections⟩ := image _ rfl
  cases found
  obtain ⟨bytes, zeros, _, ⟨_, guard⟩, _, stack⟩ := sections _ rfl (List.pairwise_singleton ..)
  have loaded := bytes _ (List.mem_singleton_self _)
  have pages : 12288 / PGSIZE - 2 = 1 ∧ 12288 / PGSIZE - 1 = 2 := by decide
  rw [pages.1] at guard
  rw [pages.2] at stack
  refine ⟨k, d, m', started, ran _, loaded 0 (by decide), loaded 1 (by decide), ?_, guard, stack⟩
  intro a first below
  refine zeros a below ?_
  intro ph member inside
  rw [List.mem_singleton.mp member] at inside
  exact Nat.not_lt.mpr first inside.2

/-- From the start, the first process reaches a panic with an argument for the directory
that `exec` takes. -/
theorem exec_panics_after_start : ∃ (k k' : Kernel Unit) (vpn d q : Nat),
    main smallLayout (fun _ => zeroPage) 1 (fun _ => 0) 0 = .ok k ∧
      (kernel smallLayout k).exec k (preparation k.initproc vpn 1 d) = some k' ∧
      (∀ i, (wildArg (hijackPage q (mkPte q 0x100))).byte i ≠ 0) ∧
      call smallLayout k.initproc
        (.exec (some bareFile) [wildArg (hijackPage q (mkPte q 0x100))]) k' =
          .error (.panic .kfree) := by
  obtain ⟨k, started⟩ := small_starts
  obtain ⟨vpn, d, q, k', ran, prepared⟩ := prepare (main_ok started) 1
  refine ⟨k, k', vpn, d, q, started, ran, prepared.byte_ne_zero ?_, prepared.exec_panics⟩
  intro j inside
  have below := prepared.below
  have plain := prepared.plain
  simp only [PHYSTOP, PGSIZE] at below
  change (q * 4096 + 0x101) / 256 ^ j % 256 ≠ 0
  have cases : j = 0 ∨ j = 1 ∨ j = 2 ∨ j = 3 := by omega
  rcases cases with rfl | rfl | rfl | rfl <;> omega

end Xv6.Memory
