/-
The pages of an address space.

The entry of a virtual page is 0 where its page table is missing.  An address space
consists of its directory, its page tables and the pages that its user entries, those
below `KERNBASE`, refer to.  The lemmas say what the two kinds of writes that `vm.c` makes,
to an entry and to the directory, do to the entries and to the pages of the space, as long
as no page is used twice.
-/

import Xv6.Memory.Model

namespace Xv6.Memory

open Function Library

abbrev Slot : Type := Fin NPTENTRIES × Fin NPTENTRIES

def slot (vpn : Nat) : Slot := (PDX vpn, PTX vpn)

/-- The slot of a user page. -/
def Slot.low (s : Slot) : Bool := s.1.val < KERNBASE / PGSIZE / NPTENTRIES

/-- The page that an entry refers to. -/
def entry (pte : Nat) : Multiset Nat := if present pte then {pteAddr pte} else 0

def pte (m : Mem) (d : Nat) (s : Slot) : Nat :=
  if present (m.page d s.1) then m.page (pteAddr (m.page d s.1)) s.2 else 0

/-- The pages that the entries in a range refer to. -/
@[irreducible]
def gather {Index : Type} (range : Finset Index) (words : Index → Nat) : Multiset Nat :=
  ∑ i ∈ range, entry (words i)

@[irreducible]
def lowSlots : Finset Slot := {s : Slot | s.low = true}

def tables (m : Mem) (d : Nat) : Multiset Nat := gather Finset.univ (m.page d)

def users (m : Mem) (d : Nat) : Multiset Nat := gather lowSlots (pte m d)

def space (m : Mem) (d : Nat) : Multiset Nat := {d} + tables m d + users m d

/-! ### Slots -/

theorem slot_low {vpn : Nat} (below : vpn * PGSIZE < KERNBASE) : (slot vpn).low = true := by
  unfold Slot.low
  rw [decide_eq_true_eq]
  change vpn / 1024 % 1024 < 512
  change vpn * 4096 < 0x80000000 at below
  omega

variable {s : Slot} {w : Nat}

theorem exists_vpn (low : s.low = true) :
    ∃ vpn, vpn * PGSIZE < KERNBASE ∧ slot vpn = s := by
  obtain ⟨⟨i, boundI⟩, ⟨j, boundJ⟩⟩ := s
  unfold Slot.low at low
  rw [decide_eq_true_eq] at low
  change i < 512 at low
  change i < 1024 at boundI
  change j < 1024 at boundJ
  refine ⟨i * 1024 + j, ?_, ?_⟩
  · change (i * 1024 + j) * 4096 < 0x80000000
    omega
  · apply Prod.ext
    · apply Fin.ext
      change (i * 1024 + j) / 1024 % 1024 = i
      omega
    · apply Fin.ext
      change (i * 1024 + j) % 1024 = j
      omega

/-! ### Entries -/

theorem present_zero : present 0 = false := rfl

theorem entry_zero : entry 0 = 0 := rfl

theorem entry_of_present (there : present w = true) : entry w = {pteAddr w} :=
  if_pos there

theorem entry_of_absent (missing : present w = false) : entry w = 0 :=
  if_neg (Bool.eq_false_iff.mp missing)

theorem mem_entry {n : Nat} : n ∈ entry w ↔ present w = true ∧ n = pteAddr w := by
  cases there : present w with
  | true => simp [entry_of_present there]
  | false => simp [entry_of_absent there]

theorem present_mkPte (n perm : Nat) : present (mkPte n perm) = true := by
  have odd : (perm ||| PTE_P) % 2 = 1 := by
    have bit : (perm ||| PTE_P).testBit 0 = true := by
      rw [Nat.testBit_or]
      simp
    rwa [Nat.testBit_zero, decide_eq_true_eq] at bit
  unfold present mkPte
  rw [Nat.testBit_zero, decide_eq_true_eq]
  simp only [PGSIZE]
  omega

theorem pteAddr_mkPte (n : Nat) {perm : Nat} (small : perm < PGSIZE) :
    pteAddr (mkPte n perm) = n := by
  have bound : perm ||| PTE_P < PGSIZE := Nat.or_lt_two_pow (n := 12) small (by decide)
  unfold pteAddr mkPte
  rw [Nat.add_comm, Nat.add_mul_div_right _ _ (by decide), Nat.div_eq_of_lt bound, Nat.zero_add]

theorem entry_mkPte (n : Nat) {perm : Nat} (small : perm < PGSIZE) :
    entry (mkPte n perm) = {n} := by
  rw [entry_of_present (present_mkPte n perm), pteAddr_mkPte n small]

theorem pte_of_present {m : Mem} {d : Nat} (there : present (m.page d s.1) = true) :
    pte m d s = m.page (pteAddr (m.page d s.1)) s.2 :=
  if_pos there

theorem pte_of_absent {m : Mem} {d : Nat} (missing : present (m.page d s.1) = false) :
    pte m d s = 0 :=
  if_neg (Bool.eq_false_iff.mp missing)

/-! ### Ranges of entries -/

theorem mem_lowSlots : s ∈ lowSlots ↔ s.low = true := by
  unfold lowSlots
  exact Finset.mem_filter_univ s

section Gather

variable {Index : Type} {range : Finset Index} {words : Index → Nat}

theorem mem_gather {n : Nat} :
    n ∈ gather range words ↔
      ∃ i, i ∈ range ∧ present (words i) = true ∧ n = pteAddr (words i) := by
  unfold gather
  simp only [Multiset.mem_sum, mem_entry]

theorem gather_absent (missing : ∀ i, i ∈ range → present (words i) = false) :
    gather range words = 0 := by
  unfold gather
  apply Finset.sum_eq_zero
  intro i member
  exact entry_of_absent (missing i member)

theorem gather_subset {smaller : Finset Index} (subset : smaller ⊆ range)
    (missing : ∀ i, i ∈ range → i ∉ smaller → present (words i) = false) :
    gather range words = gather smaller words := by
  unfold gather
  exact (Finset.sum_subset subset (fun i inside outside =>
    entry_of_absent (missing i inside outside))).symm

variable [DecidableEq Index]

theorem gather_update {i : Index} (member : i ∈ range) (w : Nat) :
    gather range (update words i w) + entry (words i) =
      gather range words + entry w := by
  unfold gather
  have same : ∑ j ∈ range.erase i, entry (update words i w j) =
      ∑ j ∈ range.erase i, entry (words j) := by
    apply Finset.sum_congr rfl
    intro j inside
    rw [update_of_ne (Finset.ne_of_mem_erase inside)]
  rw [← Finset.add_sum_erase range _ member, ← Finset.add_sum_erase range _ member,
    update_self, same]
  ac_rfl

theorem gather_update_outside {i : Index} (outside : i ∉ range) (w : Nat) :
    gather range (update words i w) = gather range words := by
  unfold gather
  apply Finset.sum_congr rfl
  intro j inside
  have different : j ≠ i := fun same => outside (same ▸ inside)
  rw [update_of_ne different]

theorem gather_injective (nodup : (gather range words).Nodup) {i j : Index}
    (first : i ∈ range) (second : j ∈ range) (here : present (words i) = true)
    (there : present (words j) = true) (same : pteAddr (words i) = pteAddr (words j)) :
    i = j := by
  by_contra different
  have later : j ∈ range.erase i := Finset.mem_erase.mpr ⟨fun equal => different equal.symm, second⟩
  unfold gather at nodup
  rw [← Finset.add_sum_erase range _ first, ← Finset.add_sum_erase _ _ later,
    ← add_assoc] at nodup
  have disjoint := (Multiset.nodup_add.mp (Multiset.nodup_add.mp nodup).1).2.2
  apply Multiset.disjoint_left.mp disjoint (mem_entry.mpr ⟨here, rfl⟩)
  exact mem_entry.mpr ⟨there, same⟩

end Gather

/-! ### A space without repetitions -/

section Space

variable {m m' : Mem} {d : Nat}

variable {n : Nat} {i : Fin NPTENTRIES} {s : Slot}

theorem mem_tables :
    n ∈ tables m d ↔ ∃ i, present (m.page d i) = true ∧ n = pteAddr (m.page d i) := by
  unfold tables
  rw [mem_gather]
  constructor
  · rintro ⟨i, _, found⟩
    exact ⟨i, found⟩
  · rintro ⟨i, found⟩
    exact ⟨i, Finset.mem_univ i, found⟩

theorem mem_users :
    n ∈ users m d ↔ ∃ s : Slot, s.low = true ∧ present (pte m d s) = true ∧
      n = pteAddr (pte m d s) := by
  unfold users
  rw [mem_gather]
  simp only [mem_lowSlots]

theorem mem_space :
    n ∈ space m d ↔ n = d ∨ n ∈ tables m d ∨ n ∈ users m d := by
  rw [space, Multiset.mem_add, Multiset.mem_add, Multiset.mem_singleton, or_assoc]

theorem dir_mem_space : d ∈ space m d := mem_space.mpr (Or.inl rfl)

theorem table_mem_space (there : present (m.page d i) = true) :
    pteAddr (m.page d i) ∈ space m d :=
  mem_space.mpr (Or.inr (Or.inl (mem_tables.mpr ⟨i, there, rfl⟩)))

theorem table_ne_dir (nodup : (space m d).Nodup) (there : present (m.page d i) = true) :
    pteAddr (m.page d i) ≠ d := by
  intro same
  have pair := (Multiset.nodup_add.mp nodup).1
  have disjoint := (Multiset.nodup_add.mp pair).2.2
  apply Multiset.disjoint_left.mp disjoint (Multiset.mem_singleton_self d)
  exact mem_tables.mpr ⟨i, there, same.symm⟩

theorem table_injective (nodup : (space m d).Nodup) {j : Fin NPTENTRIES}
    (first : present (m.page d i) = true) (second : present (m.page d j) = true)
    (same : pteAddr (m.page d i) = pteAddr (m.page d j)) : i = j :=
  gather_injective (Multiset.nodup_add.mp (Multiset.nodup_add.mp nodup).1).2.1
    (Finset.mem_univ i) (Finset.mem_univ j) first second same

theorem user_not_table (nodup : (space m d).Nodup) (member : n ∈ users m d) :
    n ≠ d ∧ n ∉ tables m d := by
  have disjoint := (Multiset.nodup_add.mp nodup).2.2
  constructor
  · intro same
    apply Multiset.disjoint_left.mp disjoint ?_ member
    rw [same]
    exact Multiset.mem_add.mpr (Or.inl (Multiset.mem_singleton_self d))
  · intro table
    apply Multiset.disjoint_left.mp disjoint ?_ member
    exact Multiset.mem_add.mpr (Or.inr table)

theorem pte_congr (dir : m'.page d = m.page d)
    (same : ∀ i, present (m.page d i) = true →
      m'.page (pteAddr (m.page d i)) = m.page (pteAddr (m.page d i))) :
    pte m' d = pte m d := by
  funext s
  unfold pte
  rw [dir]
  cases there : present (m.page d s.1) with
  | true =>
    rw [if_pos rfl, if_pos rfl, same s.1 there]
  | false => rfl

theorem space_of_pte (dir : m'.page d = m.page d) (same : pte m' d = pte m d) :
    space m' d = space m d := by
  unfold space tables users
  rw [dir, same]

theorem pte_setPage_outside (page : Page) (notDir : n ≠ d) (notTable : n ∉ tables m d) :
    (m.setPage n page).page d = m.page d ∧ pte (m.setPage n page) d = pte m d := by
  have dir : (m.setPage n page).page d = m.page d := m.setPage_other notDir.symm page
  refine ⟨dir, pte_congr dir ?_⟩
  intro i there
  apply m.setPage_other
  intro same
  exact notTable (mem_tables.mpr ⟨i, there, same.symm⟩)

theorem pte_setEntry (nodup : (space m d).Nodup) (s : Slot) {t : Nat}
    (there : present (m.page d s.1) = true) (table : pteAddr (m.page d s.1) = t) (w : Nat) :
    (m.setPage t (update (m.page t) s.2 w)).page d = m.page d ∧
      pte (m.setPage t (update (m.page t) s.2 w)) d =
        update (pte m d) s w := by
  have notDir : d ≠ t := fun same => table_ne_dir nodup there (table.trans same.symm)
  have dir := m.setPage_other notDir (update (m.page t) s.2 w)
  refine ⟨dir, ?_⟩
  funext other
  unfold pte
  rw [dir]
  by_cases same : other = s
  · rw [same, update_self, if_pos there, table, m.setPage_self,
      update_self]
  · rw [update_of_ne same]
    cases found : present (m.page d other.1) with
    | false => rfl
    | true =>
      rw [if_pos rfl, if_pos rfl]
      by_cases equal : other.1 = s.1
      · have index : other.2 ≠ s.2 := fun second => same (Prod.ext equal second)
        rw [equal, table, m.setPage_self, update_of_ne index]
      · have different : pteAddr (m.page d other.1) ≠ t := fun first =>
          equal (table_injective nodup found there (first.trans table.symm))
        rw [m.setPage_other different]

/-- What an entry in a slot contributes to the pages of a space. -/
def Slot.share (s : Slot) (w : Nat) : Multiset Nat := if s.low then entry w else 0

theorem Slot.share_low (low : s.low = true) (w : Nat) : s.share w = entry w :=
  if_pos low

theorem Slot.share_high (high : s.low = false) (w : Nat) : s.share w = 0 :=
  if_neg (Bool.eq_false_iff.mp high)

theorem space_update {w : Nat} (dir : m'.page d = m.page d)
    (changed : pte m' d = update (pte m d) s w) :
    space m' d + s.share (pte m d s) = space m d + s.share w := by
  have same : tables m' d = tables m d := by
    unfold tables
    rw [dir]
  have rest : users m' d + s.share (pte m d s) = users m d + s.share w := by
    unfold users
    rw [changed]
    cases low : s.low with
    | true =>
      rw [s.share_low low, s.share_low low]
      exact gather_update (mem_lowSlots.mpr low) w
    | false =>
      have outside : s ∉ lowSlots := by
        rw [mem_lowSlots, low]
        exact Bool.false_ne_true
      rw [s.share_high low, s.share_high low, gather_update_outside outside]
  unfold space
  rw [same, add_assoc, rest, ← add_assoc]

/-- A new page table, all of whose entries are 0, for a directory entry that was not
present. -/
theorem pte_newTable (nodup : (space m d).Nodup) {t perm : Nat} (small : perm < PGSIZE)
    (zero : m.page t = zeroPage) (fresh : t ∉ space m d) (missing : present (m.page d i) = false) :
    let after := m.setPage d (update (m.page d) i (mkPte t perm))
    after.page d = update (m.page d) i (mkPte t perm) ∧ pte after d = pte m d ∧
      space after d = space m d + {t} := by
  intro after
  have notDir : t ≠ d := fun same => fresh (same ▸ dir_mem_space)
  have dir : after.page d = update (m.page d) i (mkPte t perm) := m.setPage_self ..
  have entries : pte after d = pte m d := by
    funext s
    by_cases here : s.1 = i
    · have there : present (after.page d s.1) = true := by
        rw [dir, here, update_self]
        exact present_mkPte t perm
      rw [pte_of_present there, pte_of_absent (here ▸ missing), dir, here,
        update_self, pteAddr_mkPte t small, m.setPage_other notDir, zero]
      rfl
    · have same : after.page d s.1 = m.page d s.1 := by
        rw [dir, update_of_ne here]
      cases there : present (m.page d s.1) with
      | false =>
        have still : present (after.page d s.1) = false := by rw [same, there]
        rw [pte_of_absent there, pte_of_absent still]
      | true =>
        have still : present (after.page d s.1) = true := by rw [same, there]
        rw [pte_of_present there, pte_of_present still, same,
          m.setPage_other (table_ne_dir nodup there)]
  have more : tables after d = tables m d + {t} := by
    have sum : gather Finset.univ (update (m.page d) i (mkPte t perm)) +
        entry (m.page d i) = gather Finset.univ (m.page d) + entry (mkPte t perm) :=
      gather_update (Finset.mem_univ i) (mkPte t perm)
    rw [entry_of_absent missing, add_zero, entry_mkPte t small] at sum
    unfold tables
    rw [dir]
    exact sum
  have same : users after d = users m d := by
    unfold users
    rw [entries]
  refine ⟨dir, entries, ?_⟩
  unfold space
  rw [more, same]
  ac_rfl

/-! ### Spaces that stay as they are -/

structure SameSpace (m m' : Mem) (d : Nat) : Prop where
  dir : m'.page d = m.page d
  entries : pte m' d = pte m d

theorem SameSpace.pages (same : SameSpace m m' d) : space m' d = space m d :=
  space_of_pte same.dir same.entries

variable {m1 m2 m3 : Mem}

theorem SameSpace.trans (first : SameSpace m1 m2 d) (second : SameSpace m2 m3 d) :
    SameSpace m1 m3 d :=
  ⟨second.dir.trans first.dir, second.entries.trans first.entries⟩

theorem sameSpace_of_pages (same : ∀ n, n ∈ space m d → m'.page n = m.page n) :
    SameSpace m m' d := by
  have dir := same d dir_mem_space
  exact ⟨dir, pte_congr dir (fun i there => same _ (table_mem_space there))⟩

theorem sameSpace_of_trade {given taken : Multiset Nat} (trade : Trades m m' given taken)
    (sound : m.Sound (given + space m d)) : SameSpace m m' d :=
  sameSpace_of_pages (fun _ member => trade.others sound member)

end Space

end Xv6.Memory
