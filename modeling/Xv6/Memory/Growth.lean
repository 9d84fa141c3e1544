/-
The memory of a process before and after it has been resized by `growproc`, and the copy of it
that `fork` makes with `copyuvm`.
-/

import Xv6.Memory.Ledger

namespace Xv6.Memory

open Function Library Library.Code

variable {layout : Layout} {m m' : Mem} {d n newsz result sz : Nat}

/-! ### Resized memory -/

/-- What there is below both sizes stays, the rest of the new size is filled with zeros, and
exactly the pages below the new size are mapped. -/
structure Resized (m m' : Mem) (d sz newsz : Nat) : Prop where
  kept : ∀ a, a < sz → a < newsz → userByte m' d a = userByte m d a
  zero : ∀ a, a < KERNBASE → userByte m d a = none → ∀ byte, userByte m' d a = some byte → byte = 0
  mapped : ∀ a, a < KERNBASE → ((userByte m' d a).isSome = true ↔ a < PGROUNDUP newsz)

/-- At most empty page tables have been added. -/
structure SameMemory (m m' : Mem) (d : Nat) : Prop where
  entries : ∀ s, present (pte m' d s) = present (pte m d s) ∧
    (present (pte m d s) = true → pte m' d s = pte m d s)
  bytes : ∀ a, a < KERNBASE → userByte m' d a = userByte m d a
  tables : ∀ i, present (m.page d i) = true → m'.page d i = m.page d i

theorem SameMemory.refl (m : Mem) (d : Nat) : SameMemory m m d :=
  ⟨fun _ => ⟨rfl, fun _ => rfl⟩, fun _ _ => rfl, fun _ _ => rfl⟩

section Exact

variable (sized : Exact layout True m d sz)
include sized

theorem Exact.isSome_iff {a : Nat} (below : a < KERNBASE) :
    (userByte m d a).isSome = true ↔ a < PGROUNDUP sz := by
  rw [userByte_isSome, sized.mapped _ (page_below below), lt_PGROUNDUP_iff]

theorem Exact.resized_refl : Resized m m d sz sz := by
  refine ⟨fun _ _ _ => rfl, ?_, fun _ => sized.isSome_iff⟩
  intro a _ missing byte read
  rw [missing] at read
  cases read

theorem Exact.extended (allocates : Allocates m m' d sz newsz newsz) (some : newsz ≠ 0) :
    Resized m m' d sz newsz := by
  obtain ⟨after, bytes⟩ := sized.grown allocates some
  refine ⟨?_, ?_, fun _ => after.isSome_iff⟩
  · intro a inside _
    rw [bytes a (Nat.lt_of_lt_of_le inside sized.bound), if_pos]
    rw [lt_PGROUNDUP_iff]
    exact Nat.lt_of_le_of_lt (Nat.div_mul_le_self a PGSIZE) inside
  · intro a below missing byte read
    rw [bytes a below, missing] at read
    split at read
    · cases read
    · split at read
      · exact (Option.some.inj read).symm
      · cases read

/-- What `allocuvm` undoes when it runs out of memory is all that it has done. -/
theorem Exact.undone (limit : newsz ≤ KERNBASE)
    (undone : Undone m m' d (PGROUNDUP sz / PGSIZE) newsz) : SameMemory m m' d := by
  have outside (s : Slot) (there : present (pte m d s) = true) :
      ¬InRange (PGROUNDUP sz / PGSIZE) newsz s := by
    intro range
    rw [sized.absent limit range] at there
    cases there
  refine ⟨?_, ?_, fun i there => undone.dir i (Or.inr there)⟩
  · intro s
    refine ⟨?_, fun there => undone.kept s (outside s there)⟩
    by_cases range : InRange (PGROUNDUP sz / PGSIZE) newsz s
    · rw [undone.cleared s range, sized.absent limit range]
    · rw [undone.kept s range]
  · intro a bound
    by_cases range : InRange (PGROUNDUP sz / PGSIZE) newsz (slot (a / PGSIZE))
    · rw [userByte_none (undone.cleared _ range), userByte_none (sized.absent limit range)]
    · apply userByte_congr (undone.kept _ range)
      intro there
      exact undone.users _ (slot_low (page_below bound)) there range

theorem Exact.shrunk (shorter : newsz ≤ sz)
    (clears : Clears m m' d (InRange (PGROUNDUP newsz / PGSIZE) sz)) : Resized m m' d sz newsz := by
  have kept : ∀ v, v * PGSIZE < KERNBASE → v * PGSIZE < newsz →
      ¬InRange (PGROUNDUP newsz / PGSIZE) sz (slot v) := by
    intro v below inside
    rw [inRange_iff sized.bound below, ← Nat.not_lt, lt_pages_iff]
    exact fun range => range.1 inside
  refine ⟨?_, ?_, ?_⟩
  · intro a inside new
    have below := page_below (Nat.lt_of_lt_of_le inside sized.bound)
    have outside := kept _ below (Nat.lt_of_le_of_lt (Nat.div_mul_le_self a PGSIZE) new)
    refine userByte_congr (clears.kept _ outside) ?_
    intro there
    exact clears.pages _ (slot_low below) there outside
  · intro a bound missing byte read
    have absent : present (pte m d (slot (a / PGSIZE))) = false := by
      rw [← userByte_isSome, missing]
      rfl
    rw [userByte_none (clears.absent absent)] at read
    cases read
  · intro a bound
    have below := page_below bound
    rw [userByte_isSome, lt_PGROUNDUP_iff]
    by_cases inside : a / PGSIZE * PGSIZE < newsz
    · rw [clears.kept _ (kept _ below inside), sized.mapped _ below]
      exact iff_of_true (Nat.lt_of_lt_of_le inside shorter) inside
    · refine iff_of_false ?_ inside
      rw [Bool.not_eq_true]
      by_cases under : a / PGSIZE * PGSIZE < sz
      · refine clears.cleared _ ⟨_, ?_, under, rfl⟩
        rw [← Nat.not_lt, lt_pages_iff]
        exact inside
      · apply clears.absent
        rw [← Bool.not_eq_true, sized.mapped _ below]
        exact under

end Exact

/-! ### `growproc` -/

variable {Inode : Type} {k k' : Kernel Inode} {p : Fin NPROC}

/-- What `growproc` is for: the process has the size that was asked for, or `growproc` fails
and everything is as before. -/
def Resizing (k k' : Kernel Inode) (p : Fin NPROC) (n : Int) (grown : Bool) : Prop :=
  (grown = true ∧ ((k'.proc p).sz : Int) = (k.proc p).sz + n ∧
      Resized k.mem k'.mem (k.proc p).pgdir (k.proc p).sz (k'.proc p).sz) ∨
    (grown = false ∧ (k'.proc p).sz = (k.proc p).sz ∧
      SameMemory k.mem k'.mem (k.proc p).pgdir)

theorem Exact.allocuvm_returns (sized : Exact layout True m d sz) (longer : sz ≤ newsz)
    (some : newsz ≠ 0) :
    ∃ result m', allocuvm layout d sz newsz m = .ok (result, m') ∧
      (result = newsz ∧ Resized m m' d sz newsz ∨ result = 0 ∧ SameMemory m m' d) := by
  obtain ⟨result, m', ran, allocates⟩ := (sized.allocuvm_ends newsz).exists_ok (fun _ => not_not_intro trivial)
  refine ⟨result, m', ran, ?_⟩
  rcases allocates.outcome with ⟨_, all, _⟩ | ⟨zero, rfl | ⟨small, undone⟩⟩
  · rw [Nat.max_eq_right longer] at all
    subst result
    exact Or.inl ⟨rfl, sized.extended allocates some⟩
  · exact Or.inr ⟨zero, SameMemory.refl m' d⟩
  · exact Or.inr ⟨zero, sized.undone (Nat.le_of_lt small) undone⟩

/-- The end of `growproc`, with what `allocuvm` or `deallocuvm` has returned. -/
def resizedTo (k : Kernel Inode) (p : Fin NPROC) (sz : Nat) (m : Mem) : Kernel Inode :=
  if sz = 0 then { k with mem := m }
  else Kernel.setProc { k with mem := m } p { k.proc p with sz := sz }

theorem resizedTo_mem (k : Kernel Inode) (p : Fin NPROC) (sz : Nat) (m : Mem) :
    (resizedTo k p sz m).mem = m := by
  unfold resizedTo
  split
  · rfl
  · rfl

theorem resizedTo_zero (k : Kernel Inode) (p : Fin NPROC) (m : Mem) :
    ((resizedTo k p 0 m).proc p).sz = (k.proc p).sz := rfl

theorem resizedTo_sz (k : Kernel Inode) (p : Fin NPROC) (m : Mem) (some : sz ≠ 0) :
    ((resizedTo k p sz m).proc p).sz = sz := by
  unfold resizedTo
  rw [if_neg some]
  simp only [Kernel.setProc, update_self]

/-- `sz + n` as a `uint`. -/
def newSize (sz : Nat) (n : Int) : Nat := (((sz : Int) + n) % (UINT : Int)).toNat

theorem growproc_of_pos {n : Int} (positive : 0 < n)
    (ran : allocuvm layout (k.proc p).pgdir (k.proc p).sz (newSize (k.proc p).sz n) k.mem =
      .ok (sz, m')) :
    growproc layout p n k = .ok (decide (sz ≠ 0), resizedTo k p sz m') := by
  unfold newSize at ran
  unfold growproc resizedTo
  rw [get_bind]
  dsimp only
  rw [if_pos positive, bind_ok (onMem_eq_ok.mpr ⟨m', ran, rfl⟩)]
  by_cases zero : sz = 0
  · rw [if_pos zero, if_pos zero, decide_eq_false (not_not_intro zero)]
    rfl
  · rw [if_neg zero, if_neg zero, decide_eq_true zero]
    rfl

theorem growproc_of_neg {n : Int} (negative : n < 0)
    (ran : deallocuvm layout (k.proc p).pgdir (k.proc p).sz (newSize (k.proc p).sz n) k.mem =
      .ok (sz, m')) :
    growproc layout p n k = .ok (decide (sz ≠ 0), resizedTo k p sz m') := by
  unfold newSize at ran
  unfold growproc resizedTo
  rw [get_bind]
  dsimp only
  rw [if_neg (Int.not_lt.mpr (Int.le_of_lt negative)), if_pos negative,
    bind_ok (onMem_eq_ok.mpr ⟨m', ran, rfl⟩)]
  by_cases zero : sz = 0
  · rw [if_pos zero, if_pos zero, decide_eq_false (not_not_intro zero)]
    rfl
  · rw [if_neg zero, if_neg zero, decide_eq_true zero]
    rfl

theorem newSize_of_le {n : Int} (bound : sz ≤ KERNBASE) (small : n < 2 ^ 31) (whole : 0 ≤ sz + n) :
    (newSize sz n : Int) = sz + n := by
  simp only [newSize, UINT, KERNBASE] at bound ⊢
  omega

theorem newSize_of_neg {n : Int} (large : -2 ^ 31 ≤ n) (negative : sz + n < 0) :
    KERNBASE ≤ newSize sz n := by
  simp only [newSize, UINT, KERNBASE]
  omega

theorem growproc_of_empty {n : Int} (negative : n < 0) (empty : (k.proc p).sz = 0) :
    ∃ grown k', growproc layout p n k = .ok (grown, k') ∧ Resizing k k' p n grown := by
  have ran : deallocuvm layout (k.proc p).pgdir (k.proc p).sz (newSize (k.proc p).sz n) k.mem =
      .ok (0, k.mem) := by
    unfold deallocuvm
    rw [if_pos (by rw [empty]; exact Nat.zero_le _), empty]
    rfl
  refine ⟨_, _, growproc_of_neg negative ran, Or.inr ?_⟩
  rw [resizedTo_mem]
  exact ⟨rfl, resizedTo_zero k p k.mem, SameMemory.refl _ _⟩

section Exact

variable {n : Int} (sized : Exact layout True k.mem (k.proc p).pgdir (k.proc p).sz)
include sized

theorem growproc_grows (positive : 0 < n) (small : n < 2 ^ 31) :
    ∃ grown k', growproc layout p n k = .ok (grown, k') ∧ Resizing k k' p n grown := by
  have size := newSize_of_le sized.bound small (by omega)
  have some : newSize (k.proc p).sz n ≠ 0 := by omega
  obtain ⟨sz, m', ran, outcome⟩ := sized.allocuvm_returns
    (show (k.proc p).sz ≤ newSize (k.proc p).sz n by omega) some
  refine ⟨_, _, growproc_of_pos positive ran, ?_⟩
  rcases outcome with ⟨rfl, resized⟩ | ⟨rfl, same⟩
  · left
    rw [resizedTo_sz k p m' some, resizedTo_mem]
    exact ⟨decide_eq_true some, size, resized⟩
  · right
    rw [resizedTo_mem]
    exact ⟨rfl, resizedTo_zero k p m', same⟩

theorem growproc_shrinks (negative : n < 0) (rest : 0 < (k.proc p).sz + n) :
    ∃ grown k', growproc layout p n k = .ok (grown, k') ∧ Resizing k k' p n grown := by
  have size := newSize_of_le sized.bound (by omega : n < 2 ^ 31) (Int.le_of_lt rest)
  obtain ⟨sz, m', ran, size', clears⟩ := (deallocuvm_ends (newSize (k.proc p).sz n) sized.bound
    sized.held).exists_ok (fun _ => not_not_intro trivial)
  have shorter : newSize (k.proc p).sz n < (k.proc p).sz := by omega
  rw [if_neg (Nat.not_le.mpr shorter)] at size'
  subst sz
  have some : newSize (k.proc p).sz n ≠ 0 := by omega
  refine ⟨_, _, growproc_of_neg negative ran, Or.inl ?_⟩
  rw [resizedTo_sz k p m' some, resizedTo_mem]
  exact ⟨decide_eq_true some, size, sized.shrunk (Nat.le_of_lt shorter) clears⟩

theorem growproc_empties (some : 0 < (k.proc p).sz) (all : (k.proc p).sz + n = 0) :
    ∃ grown k', growproc layout p n k = .ok (grown, k') ∧ ¬Resizing k k' p n grown := by
  have size : newSize (k.proc p).sz n = 0 := by
    have whole := newSize_of_le sized.bound (by omega : n < 2 ^ 31) (by omega)
    omega
  obtain ⟨sz, m', ran, size', clears⟩ := (deallocuvm_ends (newSize (k.proc p).sz n) sized.bound
    sized.held).exists_ok (fun _ => not_not_intro trivial)
  rw [if_neg (by omega), size] at size'
  rw [size] at clears
  have resized := sized.shrunk (Nat.zero_le _) clears
  subst sz
  refine ⟨_, _, growproc_of_neg (by omega) ran, ?_⟩
  rintro (⟨success, _⟩ | ⟨_, _, same⟩)
  · cases success
  · rw [resizedTo_mem] at same
    have before : (userByte k.mem (k.proc p).pgdir 0).isSome = true := by
      rw [userByte_isSome, sized.mapped _ (by decide)]
      exact some
    have after := (resized.mapped 0 (by decide)).mp
    rw [same.bytes 0 (by decide)] at after
    exact absurd (after before) (by decide)

/-- Further below, the new size is too large, so that nothing is freed and `growproc`
succeeds. -/
theorem growproc_wraps (some : 0 < (k.proc p).sz) (large : -2 ^ 31 ≤ n)
    (below : (k.proc p).sz + n < 0) :
    ∃ grown k', growproc layout p n k = .ok (grown, k') ∧ ¬Resizing k k' p n grown := by
  have size := newSize_of_neg large below
  have ran : deallocuvm layout (k.proc p).pgdir (k.proc p).sz (newSize (k.proc p).sz n) k.mem =
      .ok ((k.proc p).sz, k.mem) := by
    unfold deallocuvm
    rw [if_pos (Nat.le_trans sized.bound size)]
    rfl
  refine ⟨_, _, growproc_of_neg (by omega) ran, ?_⟩
  rintro (⟨_, sum, _⟩ | ⟨failure, _⟩)
  · rw [resizedTo_sz k p k.mem (by omega)] at sum
    omega
  · rw [decide_eq_true (by omega)] at failure
    cases failure

end Exact

/-- `growproc` always returns, and does what it should exactly if it is not asked to take away
as much as there is, or more. -/
theorem growproc_resizes {n : Int} (sized : Sized layout k.mem (k.proc p).pgdir (k.proc p).sz)
    (large : -2 ^ 31 ≤ n) (small : n < 2 ^ 31) :
    ∃ grown k', growproc layout p n k = .ok (grown, k') ∧
      (Resizing k k' p n grown ↔ (k.proc p).sz = 0 ∨ -((k.proc p).sz : Int) < n) := by
  have sized := sized_iff_exact.mp sized
  rcases Int.lt_trichotomy n 0 with negative | zero | positive
  · rcases Nat.eq_zero_or_pos (k.proc p).sz with empty | some
    · obtain ⟨grown, k', ran, resizing⟩ := growproc_of_empty negative empty
      exact ⟨grown, k', ran, iff_of_true resizing (Or.inl empty)⟩
    · rcases Int.lt_trichotomy ((k.proc p).sz + n) 0 with below | all | rest
      · obtain ⟨grown, k', ran, wrong⟩ := growproc_wraps sized some large below
        exact ⟨grown, k', ran, iff_of_false wrong (by omega)⟩
      · obtain ⟨grown, k', ran, wrong⟩ := growproc_empties sized some all
        exact ⟨grown, k', ran, iff_of_false wrong (by omega)⟩
      · obtain ⟨grown, k', ran, resizing⟩ := growproc_shrinks sized negative rest
        exact ⟨grown, k', ran, iff_of_true resizing (Or.inr (by omega))⟩
  · subst n
    refine ⟨true, k, rfl, iff_of_true (Or.inl ⟨rfl, (Int.add_zero _).symm, ?_⟩) (by omega)⟩
    exact sized.resized_refl
  · obtain ⟨grown, k', ran, resizing⟩ := growproc_grows sized positive small
    exact ⟨grown, k', ran, iff_of_true resizing (by omega)⟩

/-- One page is mapped in the directory 1024. -/
def onePageMem (freelist : List Nat) : Mem where
  freelist := freelist
  page := fun n =>
    if n = 1024 then update zeroPage 0 (mkPte 1025 (PTE_W ||| PTE_U))
    else if n = 1025 then update zeroPage 0 (mkPte 1026 (PTE_W ||| PTE_U))
    else zeroPage

/-- One page is mapped for the process, and two are free. -/
def onePage : Kernel Unit where
  mem := onePageMem [1027, 1028]
  kpgdir := 0
  cpuStacks := []
  initproc := 0
  proc := fun _ => ⟨.runnable, 1024, 0, PGSIZE, none⟩
  pipe := fun _ => ⟨false, false⟩
  files := { file := fun _ => ⟨0, .none, false, false, 0⟩, ofile := fun _ => none }

theorem onePageMem_pte (free : List Nat) : pte (onePageMem free) 1024 =
    update (fun _ => 0) (slot 0) (mkPte 1026 (PTE_W ||| PTE_U)) := by
  funext s
  obtain ⟨i, j⟩ := s
  have dir : (onePageMem free).page 1024 = update zeroPage 0 (mkPte 1025 (PTE_W ||| PTE_U)) := rfl
  have table : (onePageMem free).page 1025 = update zeroPage 0 (mkPte 1026 (PTE_W ||| PTE_U)) := rfl
  by_cases first : i = 0
  · subst i
    have there : present ((onePageMem free).page 1024 0) = true := by
      rw [dir, update_self, present_mkPte]
    rw [pte_of_present there, dir, update_self, pteAddr_mkPte 1025 (by decide), table]
    by_cases second : j = 0
    · subst j
      have here : ((0, 0) : Slot) = slot 0 := rfl
      rw [update_self, here, update_self]
    · rw [update_of_ne second, update_of_ne]
      · rfl
      · exact fun same => second (Prod.mk.inj same).2
  · have missing : present ((onePageMem free).page 1024 i) = false := by
      rw [dir, update_of_ne first]
      exact present_zero
    rw [pte_of_absent missing, update_of_ne]
    exact fun same => first (Prod.mk.inj same).1

theorem onePageMem_space (free : List Nat) : space (onePageMem free) 1024 = {1024} + {1025} + {1026} := by
  have none {Index : Type} (range : Finset Index) : gather range (fun _ => 0) = 0 :=
    gather_absent (fun _ _ => present_zero)
  have tables : tables (onePageMem free) 1024 = {1025} := by
    have update : gather Finset.univ (update (fun _ : Fin NPTENTRIES => 0) 0
        (mkPte 1025 (PTE_W ||| PTE_U))) + entry 0 = gather Finset.univ (fun _ : Fin NPTENTRIES => 0) +
          entry (mkPte 1025 (PTE_W ||| PTE_U)) := gather_update (Finset.mem_univ 0) _
    rw [entry_zero, add_zero, none, zero_add, entry_mkPte 1025 (by decide)] at update
    exact update
  have users : users (onePageMem free) 1024 = {1026} := by
    have low : slot 0 ∈ lowSlots := mem_lowSlots.mpr (slot_low (by decide))
    have update : gather lowSlots (update (fun _ : Slot => 0) (slot 0)
        (mkPte 1026 (PTE_W ||| PTE_U))) + entry 0 = gather lowSlots (fun _ : Slot => 0) +
          entry (mkPte 1026 (PTE_W ||| PTE_U)) := gather_update low _
    rw [entry_zero, add_zero, none, zero_add, entry_mkPte 1026 (by decide), ← onePageMem_pte free] at update
    exact update
  unfold space
  rw [tables, users]

theorem onePageMem_sized {free : List Nat} (distinct : free.Nodup)
    (pages : ∀ n ∈ free, 1026 < n ∧ n < 57344) :
    Sized smallLayout (onePageMem free) 1024 PGSIZE := by
  have own (n : Nat) (member : n ∈ space (onePageMem free) 1024) : 1024 ≤ n ∧ n ≤ 1026 := by
    rw [onePageMem_space] at member
    revert n
    decide
  refine ⟨?_, ?_, by decide, ?_⟩
  · refine Multiset.nodup_add.mpr ⟨distinct, ?_, ?_⟩
    · rw [onePageMem_space]
      decide
    · refine Multiset.disjoint_left.mpr (fun member other => ?_)
      have first := pages _ member
      have second := own _ other
      omega
  · intro n member
    change 300 ≤ n ∧ n < 57344
    rcases Multiset.mem_add.mp member with free | member
    · have bounds := pages n free
      omega
    · have bounds := own n member
      omega
  · intro v below
    rw [onePageMem_pte]
    by_cases first : v = 0
    · subst v
      rw [update_self, present_mkPte]
      exact iff_of_true rfl (by decide)
    · rw [update_of_ne, present_zero]
      · refine iff_of_false nofun ?_
        simp only [PGSIZE]
        omega
      · intro same
        simp only [PGSIZE, KERNBASE] at below
        exact first (slot_injective (by omega) (by decide) same)

theorem onePage_sized :
    Sized smallLayout onePage.mem (onePage.proc 0).pgdir (onePage.proc 0).sz :=
  onePageMem_sized (by decide) (by decide)

/-- `sbrk(-4096)` with one page returns -1 and has freed the page. -/
theorem growproc_frees_all_pages :
    ¬∀ (k : Kernel Unit) (p : Fin NPROC) (n : Int),
      Sized smallLayout k.mem (k.proc p).pgdir (k.proc p).sz → -2 ^ 31 ≤ n → n < 2 ^ 31 →
        ∀ grown k', growproc smallLayout p n k = .ok (grown, k') → Resizing k k' p n grown := by
  intro claimed
  obtain ⟨grown, k', ran, wrong⟩ := growproc_empties (n := -4096)
    (sized_iff_exact.mp onePage_sized) (by decide) rfl
  exact wrong (claimed onePage 0 (-4096) onePage_sized (by decide) (by decide) grown k' ran)

/-- One more page is added. -/
theorem growproc_resizes_one_page :
    ∃ grown k', growproc smallLayout 0 4096 onePage = .ok (grown, k') ∧
      Resizing onePage k' 0 4096 grown := by
  obtain ⟨grown, k', ran, exact⟩ :=
    growproc_resizes onePage_sized (by decide : -2 ^ 31 ≤ (4096 : Int)) (by decide)
  exact ⟨grown, k', ran, exact.mpr (Or.inr (by decide))⟩

/-! ### `copyuvm` -/

theorem NewSpace.pte_eq {m0 m1 : Mem} {d0 : Nat} (new : NewSpace layout m m' d)
    (other : NewSpace layout m0 m1 d0) (s : Slot) : pte m' d s = pte m1 d0 s := by
  by_cases hit : ∃ k ∈ kmap layout, ∃ v, k.Covers v ∧ slot v = s
  · obtain ⟨k, member, v, covers, rfl⟩ := hit
    rw [new.entries k member v _ ⟨covers, rfl⟩, other.entries k member v _ ⟨covers, rfl⟩]
  · have outside (k : Kmap) (member : k ∈ kmap layout) (v : Nat) (covers : k.Covers v) :
        slot v ≠ s := fun same => hit ⟨k, member, v, covers, same⟩
    rw [new.absent s outside, other.absent s outside]

theorem pteFlags_copy (n : Nat) {w : Nat} (there : present w = true) :
    pteFlags (mkPte n (pteFlags w)) = pteFlags w := by
  have small : pteFlags w < 2 ^ 12 := Nat.mod_lt _ (by decide)
  have bit : (pteFlags w).testBit 0 = true := by
    unfold pteFlags
    rw [show PGSIZE = 2 ^ 12 from rfl, Nat.testBit_mod_two_pow]
    exact there
  have same : pteFlags w ||| PTE_P = pteFlags w := by
    apply Nat.eq_of_testBit_eq
    intro i
    rw [Nat.testBit_or]
    cases i with
    | zero => rw [bit, Bool.true_or]
    | succ i =>
      have zero : PTE_P.testBit (i + 1) = false := by
        rw [Nat.testBit_succ]
        exact Nat.zero_testBit i
      rw [zero, Bool.or_false]
  unfold mkPte
  rw [same]
  change (n * PGSIZE + pteFlags w) % PGSIZE = pteFlags w
  rw [Nat.mul_add_mod_self_right]
  exact Nat.mod_eq_of_lt small

/-- The memory of a child: the parent's bytes and flags, in pages of its own, and the kernel
part that every new address space has. -/
structure Forked (layout : Layout) (m m' : Mem) (p d sz : Nat) (others : Multiset Nat) :
    Prop where
  bytes : ∀ a, a < sz → userByte m' d a = userByte m p a
  flags : ∀ v, v * PGSIZE < sz → pteFlags (pte m' d (slot v)) = pteFlags (pte m p (slot v))
  apart : ∀ n ∈ space m' d, n ∉ space m p ∧ n ∉ others
  above : ∀ v, PGROUNDUP sz ≤ v * PGSIZE → v * PGSIZE < KERNBASE →
    present (pte m' d (slot v)) = false
  kernel : ∀ m0 m1 d0, Held layout True m0 0 → setupkvm layout m0 = .ok (some d0, m1) →
    ∀ s : Slot, s.low = false → pte m' d s = pte m1 d0 s

theorem Copied.forked {p : Nat} {others : Multiset Nat} (copied : Copied layout m m' p d sz)
    (sound : m.Sound (space m p + others)) (all : Mapped m p sz) (limit : sz ≤ KERNBASE) :
    Forked layout m m' p d sz others := by
  refine ⟨?_, ?_, ?_, ?_, ?_⟩
  · intro a below
    have inside := Nat.lt_of_le_of_lt (Nat.div_mul_le_self a PGSIZE) below
    obtain ⟨n, entry, page⟩ := copied.copied _ inside
    have small : pteFlags (pte m p (slot (a / PGSIZE))) < PGSIZE := Nat.mod_lt _ (by decide)
    rw [userByte_some (all _ inside), userByte_some (by rw [entry]; exact present_mkPte n _), entry,
      pteAddr_mkPte n small, page]
  · intro v inside
    obtain ⟨n, entry, _⟩ := copied.copied v inside
    rw [entry, pteFlags_copy n (all v inside)]
  · intro n member
    have free : n ∈ (m.freelist : Multiset Nat) := by
      rw [← add_zero (m.freelist : Multiset Nat), ← copied.trade.conserved]
      exact Multiset.mem_add.mpr (Or.inr member)
    have outside := Multiset.disjoint_left.mp (Multiset.nodup_add.mp sound).2.2 free
    rw [Multiset.mem_add] at outside
    exact not_or.mp outside
  · intro v high below
    rw [copied.empty _ (slot_low below)]
    · rfl
    · rw [inRange_iff limit below]
      simp only [PGROUNDUP, PGSIZE] at high ⊢
      omega
  · intro m0 m1 d0 held0 setup s high
    obtain ⟨m2, new, same⟩ := copied.kernel
    rw [same s high]
    exact new.pte_eq (((setupkvm_ends held0).post_of_ok setup).2 d0 rfl) s

/-- `copyuvm` returns a copy that shares no page with the parent or anybody else, or it has
given back all pages that it took. -/
theorem copyuvm_isolates {p : Nat} {others : Multiset Nat}
    (held : Held layout True m (space m p + others)) (limit : sz < KERNBASE)
    (all : Mapped m p sz) :
    ∃ result m', copyuvm layout p sz m = .ok (result, m') ∧
      (∀ n ∈ space m p + others, m'.page n = m.page n) ∧
      (result = none → (m'.freelist : Multiset Nat) = m.freelist) ∧
      ∀ d, result = some d → Forked layout m m' p d sz others := by
  obtain ⟨result, m', ran, refused, copies⟩ :=
    (copyuvm_ends (Nat.le_of_lt limit) held.left).exists_ok (by
      rintro _ (unsure | ⟨v, inside, missing⟩)
      · exact unsure trivial
      · rw [all v inside] at missing
        cases missing)
  refine ⟨result, m', ran, ?_, ?_, ?_⟩
  · intro n member
    have owned := held.sound.not_free member
    cases result with
    | none => exact (refused rfl).1.untouched n owned (Multiset.notMem_zero n)
    | some d => exact (copies d rfl).trade.untouched n owned (Multiset.notMem_zero n)
  · intro failed
    have conserved := (refused failed).1.conserved
    rwa [add_zero, add_zero] at conserved
  · exact fun d success => (copies d success).forked held.sound all (Nat.le_of_lt limit)

theorem copyuvm_onePage {free : List Nat} {result : Option Nat}
    (sized : Exact smallLayout True (onePageMem free) 1024 PGSIZE) (room : 67 ≤ free.length)
    (ran : copyuvm smallLayout 1024 PGSIZE (onePageMem free) = .ok (result, m')) :
    ∃ d, result = some d := by
  obtain ⟨refused, _⟩ := (copyuvm_ends sized.bound sized.held).post_of_ok ran
  cases result with
  | none =>
    have short := (refused rfl).2 {PDX 0} (fun v inside => ?_)
    · change free.length < 65 + 1 + 1 at short
      omega
    · have first : v = 0 := by
        simp only [PGSIZE] at inside
        omega
      rw [first]
      exact Finset.mem_singleton_self _
  | some d => exact ⟨d, rfl⟩

/-- With 70 free pages the page is copied. -/
theorem copyuvm_isolates_one_page :
    ∃ d m', copyuvm smallLayout 1024 PGSIZE (onePageMem (List.range' 1027 70)) = .ok (some d, m') ∧
      Forked smallLayout (onePageMem (List.range' 1027 70)) m' 1024 d PGSIZE 0 := by
  have sized : Exact smallLayout True (onePageMem (List.range' 1027 70)) 1024 PGSIZE :=
    sized_iff_exact.mp (onePageMem_sized List.nodup_range' (by decide))
  have held := sized.held
  rw [← add_zero (space _ _)] at held
  obtain ⟨result, m', ran, _, _, copies⟩ := copyuvm_isolates held (by decide)
    (fun v inside => (sized.mapped v (Nat.lt_trans inside (by decide))).mpr inside)
  obtain ⟨d, rfl⟩ := copyuvm_onePage sized (by decide) ran
  exact ⟨d, m', ran, copies d rfl⟩

end Xv6.Memory
