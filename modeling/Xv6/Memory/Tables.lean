/-
What the functions of `vm.c` that walk, fill and free page tables do to the pages.

Each function has one lemma.  It says what the function can panic on, which pages are traded
for which, and what becomes of the entries of the address space and of the other pages.
-/

import Xv6.Memory.Space

namespace Xv6.Memory

open Function Library Library.Code

variable {layout : Layout} {m m' m1 : Mem} {d : Nat}

/-- No entry of the kernel part may be used by user code. -/
def KernelOnly (m : Mem) (d : Nat) : Prop := ∀ s : Slot, s.low = false → user (pte m d s) = false

variable {n vpn perm oldsz newsz result : Nat} {mapped : Bool}

theorem getWord_eq_ok {w : Nat} {word : Fin NPTENTRIES} :
    getWord n word m = .ok (w, m') ↔ w = m.page n word ∧ m' = m := by
  constructor
  · intro ran
    cases ran
    exact ⟨rfl, rfl⟩
  · rintro ⟨rfl, rfl⟩
    rfl

/-! ### `kalloc` and `kfree` -/

theorem kalloc_cases (m : Mem) : kalloc m = .ok (none, m) ∧ m.freelist = [] ∨
    ∃ n m', kalloc m = .ok (some n, m') := by
  unfold kalloc
  cases m.freelist with
  | nil => exact Or.inl ⟨rfl, rfl⟩
  | cons n rest => exact Or.inr ⟨n, _, rfl⟩

theorem kalloc_succeeds (room : 0 < m.freelist.length) :
    ∃ n m', kalloc m = .ok (some n, m') := by
  rcases kalloc_cases m with ⟨_, empty⟩ | found
  · rw [empty] at room
    cases room
  · exact found

theorem kalloc_none (ran : kalloc m = .ok (none, m')) : m' = m ∧ m.freelist = [] := by
  rcases kalloc_cases m with ⟨asked, empty⟩ | ⟨n, m1, asked⟩
  · rw [asked] at ran
    cases ran
    exact ⟨rfl, empty⟩
  · rw [asked] at ran
    cases ran

theorem kalloc_list (ran : kalloc m = .ok (some n, m')) :
    m.freelist = n :: m'.freelist ∧ m'.page = m.page := by
  unfold kalloc at ran
  split at ran
  · cases ran
  · rename_i split
    cases ran
    exact ⟨split, rfl⟩

theorem kalloc_some (ran : kalloc m = .ok (some n, m')) :
    Trades m m' 0 {n} ∧ n ∈ m.freelist ∧ m'.page = m.page := by
  obtain ⟨split, pages⟩ := kalloc_list ran
  refine ⟨⟨?_, fun _ _ _ => congrFun pages _⟩, ?_, pages⟩
  · rw [split, add_zero, add_comm]
    exact Multiset.singleton_add n m'.freelist
  · rw [split]
    exact List.mem_cons_self ..

theorem kalloc_length (ran : kalloc m = .ok (some n, m')) :
    m.freelist.length = m'.freelist.length + 1 := by
  rw [(kalloc_list ran).1]
  rfl

theorem kfree_ok (ran : kfree layout n m = .ok ((), m')) :
    Trades m m' {n} 0 ∧ ∀ other, other ≠ n → m'.page other = m.page other := by
  unfold kfree at ran
  split at ran
  · cases ran
  · cases ran
    have others (other : Nat) (different : other ≠ n) :
        (m.setPage n junkPage).page other = m.page other := m.setPage_other different _
    refine ⟨⟨?_, ?_⟩, others⟩
    · rw [add_zero, add_comm]
      exact (Multiset.singleton_add n m.freelist).symm
    · intro cell _ notGiven
      exact others cell (fun same => notGiven (Multiset.mem_singleton.mpr same))

/-- The pages that `kfree` accepts. -/
def Layout.Manages (layout : Layout) (n : Nat) : Prop :=
  layout.endPage ≤ n ∧ n < PHYSTOP / PGSIZE

variable {sure : Prop}

theorem kfree_ends (managed : sure → layout.Manages n) (m : Mem) :
    (kfree layout n).Ends m (fun _ => ¬sure)
      (fun _ m' => Trades m m' {n} 0 ∧ ∀ other, other ≠ n → m'.page other = m.page other) := by
  by_cases outside : n < layout.endPage ∨ PHYSTOP / PGSIZE ≤ n
  · have stopped : kfree layout n m = .error (.panic .kfree) := if_pos outside
    unfold Ends
    rw [stopped]
    intro known
    have inside := managed known
    unfold Layout.Manages at inside
    omega
  · have freed : kfree layout n m =
        .ok ((), { m.setPage n junkPage with freelist := n :: m.freelist }) := if_neg outside
    exact Ends.of_ok freed (kfree_ok freed)

/-- The free pages and those of an address space come from the allocator. -/
def Managed (layout : Layout) (m : Mem) (share : Multiset Nat) : Prop :=
  ∀ n ∈ (m.freelist : Multiset Nat) + share, layout.Manages n

/-- The free pages and those of an owner are distinct.  If `sure`, they come from the
allocator, so that `kfree` does not panic. -/
structure Held (layout : Layout) (sure : Prop) (m : Mem) (share : Multiset Nat) : Prop where
  sound : m.Sound share
  managed : sure → Managed layout m share

section Held

variable {share rest given taken : Multiset Nat}

theorem Held.trade (held : Held layout sure m given) (trade : Trades m m' given taken) :
    Held layout sure m' taken := by
  refine ⟨trade.sound held.sound, fun known => ?_⟩
  unfold Managed
  rw [trade.conserved]
  exact held.managed known

theorem Held.left (held : Held layout sure m (share + rest)) : Held layout sure m share := by
  refine ⟨held.sound.left, ?_⟩
  intro known n member
  apply held.managed known
  rw [← add_assoc]
  exact Multiset.mem_add.mpr (Or.inl member)

theorem Held.manages (held : Held layout sure m share) (member : n ∈ share) (known : sure) :
    layout.Manages n :=
  held.managed known n (Multiset.mem_add.mpr (Or.inr member))

end Held

theorem notMem_space (sound : m.Sound (space m d + {n})) : n ∉ space m d := fun member =>
  Multiset.disjoint_left.mp (Multiset.nodup_add.mp sound.nodup).2.2 member
    (Multiset.mem_singleton_self n)

theorem freshPage_ok (sound : m.Sound (space m d)) (asked : kalloc m = .ok (some n, m1))
    (page : Page) :
    Trades m (m1.setPage n page) (space m d) (space (m1.setPage n page) d + {n}) ∧
      SameSpace m (m1.setPage n page) d := by
  obtain ⟨trade, free, pages⟩ := kalloc_some asked
  have same : SameSpace m (m1.setPage n page) d := by
    apply sameSpace_of_pages
    intro other member
    have different : other ≠ n := fun same => sound.not_free member (same ▸ free)
    rw [m1.setPage_other different, pages]
  refine ⟨?_, same⟩
  have framed := trade.frame (space m d)
  rw [zero_add, add_comm] at framed
  rw [same.pages]
  apply framed.trans
  exact Store.trades_setPage
    (Multiset.mem_add.mpr (Or.inr (Multiset.mem_singleton_self n))) _

theorem dropPage_ends (held : Held layout sure m (space m d + {n})) :
    (kfree layout n).Ends m (fun _ => ¬sure) (fun _ m' =>
      Trades m m' (space m d + {n}) (space m' d) ∧ SameSpace m m' d ∧
        ∀ other, other ≠ n → m'.page other = m.page other) := by
  have managed := held.manages (Multiset.mem_add.mpr (Or.inr (Multiset.mem_singleton_self n)))
  apply (kfree_ends managed m).mono
  rintro _ m' ⟨trade, others⟩
  have same : SameSpace m m' d := by
    apply sameSpace_of_pages
    intro other member
    exact others other (fun equal => notMem_space held.sound (equal ▸ member))
  refine ⟨?_, same, others⟩
  have framed := trade.frame (space m d)
  rw [zero_add, add_comm] at framed
  rw [same.pages]
  exact framed

/-! ### `walkpgdir` -/

/-- `walkpgdir` may add a page table, which changes no entry. -/
structure Walks (m m' : Mem) (d vpn : Nat) (alloc : Bool) (found : Option Nat) : Prop where
  trade : Trades m m' (space m d) (space m' d)
  entries : pte m' d = pte m d
  same : alloc = false → m' = m
  table : ∀ t, found = some t → present (m'.page d (PDX vpn)) = true ∧
    pteAddr (m'.page d (PDX vpn)) = t
  missing : found = none → m' = m ∧ present (m.page d (PDX vpn)) = false ∧
    (alloc = true → m.freelist = [])
  dir : ∀ i, i ≠ PDX vpn ∨ present (m.page d i) = true → m'.page d i = m.page d i
  others : ∀ q, q ∉ m.freelist → q ≠ d → m'.page q = m.page q
  list : m'.freelist <:+ m.freelist
  room : ∀ need : Finset (Fin NPTENTRIES), PDX vpn ∈ need →
    m'.freelist.length + (gather need (m'.page d)).card =
      m.freelist.length + (gather need (m.page d)).card

theorem Walks.stay {alloc : Bool} {found : Option Nat}
    (table : ∀ t, found = some t → present (m.page d (PDX vpn)) = true ∧
      pteAddr (m.page d (PDX vpn)) = t)
    (missing : found = none → present (m.page d (PDX vpn)) = false ∧
      (alloc = true → m.freelist = [])) : Walks m m d vpn alloc found :=
  ⟨Trades.refl _ _, rfl, fun _ => rfl, table, fun none => ⟨rfl, missing none⟩, fun _ _ => rfl,
    fun _ _ _ => rfl, List.suffix_refl _, fun _ _ => rfl⟩

theorem walkpgdir_present (alloc : Bool) (there : present (m.page d (PDX vpn)) = true) :
    walkpgdir d vpn alloc m = .ok (some (pteAddr (m.page d (PDX vpn))), m) := by
  have read : getWord d (PDX vpn) m = .ok (m.page d (PDX vpn), m) := rfl
  unfold walkpgdir
  rw [bind_ok read, if_pos there]
  rfl

theorem walkpgdir_absent (missing : present (m.page d (PDX vpn)) = false) :
    walkpgdir d vpn false m = .ok (none, m) := by
  have read : getWord d (PDX vpn) m = .ok (m.page d (PDX vpn), m) := rfl
  unfold walkpgdir
  rw [bind_ok read, if_neg (Bool.eq_false_iff.mp missing)]
  rfl

theorem getEntry_ok (there : present (m.page d (PDX vpn)) = true) :
    getWord (pteAddr (m.page d (PDX vpn))) (PTX vpn) m = .ok (pte m d (slot vpn), m) := by
  rw [pte_of_present there]
  rfl

theorem walkpgdir_ends (vpn : Nat) (alloc : Bool) (sound : m.Sound (space m d)) :
    (walkpgdir d vpn alloc).Ends m (fun _ => False)
      (fun found m' => Walks m m' d vpn alloc found) := by
  cases there : present (m.page d (PDX vpn)) with
  | true =>
    exact Ends.of_ok (walkpgdir_present alloc there)
      (Walks.stay (fun t equal => ⟨there, Option.some.inj equal⟩) nofun)
  | false =>
    cases alloc with
    | false =>
      exact Ends.of_ok (walkpgdir_absent there) (Walks.stay nofun (fun _ => ⟨there, nofun⟩))
    | true =>
      unfold walkpgdir
      apply Ends.bind_of_ok (rfl : getWord d (PDX vpn) m = .ok (m.page d (PDX vpn), m))
      rw [if_neg (Bool.eq_false_iff.mp there), if_pos rfl]
      rcases kalloc_cases m with ⟨asked, full⟩ | ⟨t, m1, asked⟩
      · apply Ends.bind_of_ok asked
        exact Ends.of_pure (Walks.stay nofun (fun _ => ⟨there, fun _ => full⟩))
      · apply Ends.bind_of_ok asked
        apply Ends.of_ok rfl
        obtain ⟨fill, same⟩ := freshPage_ok sound asked zeroPage
        have sound1 := fill.sound sound
        have missing : present ((m1.setPage t zeroPage).page d (PDX vpn)) = false := by
          rw [same.dir]
          exact there
        have small : PTE_W ||| PTE_U < PGSIZE := by decide
        obtain ⟨dir, entries, more⟩ := pte_newTable sound1.left.nodup small
          (m1.setPage_self t zeroPage) (notMem_space sound1) missing
        have kept (i : Fin NPTENTRIES) (different : i ≠ PDX vpn) : ((m1.setPage t zeroPage).setPage d
            (update ((m1.setPage t zeroPage).page d) (PDX vpn)
              (mkPte t (PTE_W ||| PTE_U)))).page d i = m.page d i := by
          rw [dir, update_of_ne different, same.dir]
        obtain ⟨split, pages⟩ := kalloc_list asked
        refine ⟨?_, entries.trans same.entries, nofun, ?_, nofun, ?_, ?_, ?_, ?_⟩
        · rw [more]
          apply fill.trans
          exact Store.trades_setPage (Multiset.mem_add.mpr (Or.inl dir_mem_space)) _
        · intro t' equal
          cases equal
          rw [dir, update_self]
          exact ⟨present_mkPte t _, pteAddr_mkPte t small⟩
        · rintro i (different | found)
          · exact kept i different
          · apply kept
            rintro rfl
            rw [there] at found
            cases found
        · intro q notFree notDir
          have notTable : q ≠ t := by
            rintro rfl
            exact notFree (split ▸ List.mem_cons_self)
          rw [Store.setPage_other _ notDir, m1.setPage_other notTable, pages]
        · rw [split]
          exact List.suffix_cons t _
        · intro need member
          have updated : gather need (update ((m1.setPage t zeroPage).page d) (PDX vpn) _) +
              _ = _ := gather_update member (mkPte t (PTE_W ||| PTE_U))
          rw [entry_of_absent missing, add_zero, entry_mkPte t small] at updated
          rw [dir, updated, same.dir, Multiset.card_add, Multiset.card_singleton, split,
            List.length_cons]
          change m1.freelist.length + _ = _
          omega

theorem walkpgdir_ok {alloc : Bool} {found : Option Nat} (sound : m.Sound (space m d))
    (ran : walkpgdir d vpn alloc m = .ok (found, m')) : Walks m m' d vpn alloc found :=
  (walkpgdir_ends vpn alloc sound).post_of_ok ran

theorem Walks.entry_eq {t : Nat} {alloc : Bool} (walks : Walks m m' d vpn alloc (some t)) :
    m'.page t (PTX vpn) = pte m d (slot vpn) := by
  obtain ⟨there, same⟩ := walks.table t rfl
  rw [← walks.entries, pte_of_present there]
  change m'.page t (PTX vpn) = m'.page (pteAddr (m'.page d (PDX vpn))) (PTX vpn)
  rw [same]

/-! ### `mappages` -/

/-- One iteration of `mappages`; only a page that is mapped below `KERNBASE` becomes one of
the pages of the space.  Neither user pages nor the page that is mapped are written to. -/
structure Maps (m m' : Mem) (d vpn n perm : Nat) (mapped : Bool) : Prop where
  refused : mapped = false → Trades m m' (space m d) (space m' d) ∧ pte m' d = pte m d
  full : mapped = false → m.freelist = [] ∧ present (m.page d (PDX vpn)) = false
  absent : mapped = true → present (pte m d (slot vpn)) = false
  entries : mapped = true → pte m' d = update (pte m d) (slot vpn) (mkPte n perm)
  trade : mapped = true →
    Trades m m' (space m d + (slot vpn).share (mkPte n perm)) (space m' d)
  dir : ∀ i, i ≠ PDX vpn ∨ present (m.page d i) = true → m'.page d i = m.page d i
  users : ∀ q ∈ users m d, m'.page q = m.page q
  fresh : m.Sound (space m d + {n}) → m'.page n = m.page n
  list : m'.freelist <:+ m.freelist
  room : ∀ need : Finset (Fin NPTENTRIES), PDX vpn ∈ need →
    m'.freelist.length + (gather need (m'.page d)).card =
      m.freelist.length + (gather need (m.page d)).card

theorem mappage_ends (n perm : Nat) (sound : m.Sound (space m d)) :
    (mappage d vpn n perm).Ends m (fun _ => present (pte m d (slot vpn)) = true)
      (fun mapped m' => Maps m m' d vpn n perm mapped) := by
  unfold mappage
  apply Ends.bind ((walkpgdir_ends vpn true sound).excuse (fun _ => False.elim))
  intro found m1 walks
  have sound1 := walks.trade.sound sound
  have usersApart (q : Nat) (member : q ∈ users m d) :
      q ∉ m.freelist ∧ q ≠ d ∧ q ∉ tables m1 d := by
    have still : q ∈ users m1 d := by
      unfold users
      rw [walks.entries]
      exact member
    exact ⟨sound.not_free (mem_space.mpr (Or.inr (Or.inr member))),
      (user_not_table sound.nodup member).1, (user_not_table sound1.nodup still).2⟩
  have freshApart (beside : m.Sound (space m d + {n})) :
      n ∉ m.freelist ∧ n ≠ d ∧ n ∉ tables m1 d := by
    have outside := notMem_space ((walks.trade.frame {n}).sound beside)
    exact ⟨beside.not_free (Multiset.mem_add.mpr (Or.inr (Multiset.mem_singleton_self n))),
      fun same => notMem_space beside (same ▸ dir_mem_space),
      fun table => outside (mem_space.mpr (Or.inr (Or.inl table)))⟩
  cases found with
  | none =>
    obtain ⟨_, absent, full⟩ := walks.missing rfl
    exact Ends.of_pure ⟨fun _ => ⟨walks.trade, walks.entries⟩, fun _ => ⟨full rfl, absent⟩, nofun,
      nofun, nofun, walks.dir,
      fun q member => walks.others q (usersApart q member).1 (usersApart q member).2.1,
      fun beside => walks.others n (freshApart beside).1 (freshApart beside).2.1, walks.list,
      walks.room⟩
  | some t =>
    obtain ⟨there, table⟩ := walks.table t rfl
    have read : getWord t (PTX vpn) m1 = .ok (pte m d (slot vpn), m1) := by
      rw [← walks.entry_eq]
      rfl
    apply Ends.bind_of_ok read
    by_cases taken : present (pte m d (slot vpn)) = true
    · rw [if_pos taken]
      exact Ends.of_stop taken
    · rw [if_neg taken]
      have missing := Bool.eq_false_iff.mpr taken
      apply Ends.of_ok rfl
      obtain ⟨dir, entries⟩ := pte_setEntry sound1.nodup (slot vpn) there table (mkPte n perm)
      have updated := space_update dir entries
      rw [walks.entries] at entries updated
      have empty : (slot vpn).share (pte m d (slot vpn)) = 0 := by
        unfold Slot.share
        rw [entry_of_absent missing, ite_self]
      rw [empty, add_zero] at updated
      change space (m1.setPage t (update (m1.page t) (PTX vpn) _)) d = _ at updated
      have keeps (q : Nat) (apart : q ∉ m.freelist ∧ q ≠ d ∧ q ∉ tables m1 d) :
          (m1.setPage t (update (m1.page t) (PTX vpn) (mkPte n perm))).page q =
            m.page q := by
        have notTable : q ≠ t := by
          rintro rfl
          exact apart.2.2 (mem_tables.mpr ⟨PDX vpn, there, table.symm⟩)
        rw [m1.setPage_other notTable, walks.others q apart.1 apart.2.1]
      refine ⟨nofun, nofun, fun _ => missing, fun _ => entries, fun _ => ?_, ?_,
        fun q member => keeps q (usersApart q member), fun beside => keeps n (freshApart beside),
        walks.list, ?_⟩
      · apply (walks.trade.frame ((slot vpn).share (mkPte n perm))).trans
        rw [updated]
        apply Store.trades_setPage
        exact Multiset.mem_add.mpr (Or.inl (table ▸ table_mem_space there))
      · intro i outside
        exact (congrFun dir i).trans (walks.dir i outside)
      · intro need member
        rw [← walks.room need member]
        change (m1.setPage t (update (m1.page t) (PTX vpn) _)).page d = _ at dir
        rw [dir]
        rfl

/-! ### `deallocuvm` and `freevm` -/

/-- The slots of the virtual pages from `vpn` up to a size. -/
def InRange (vpn size : Nat) (s : Slot) : Prop :=
  ∃ v, vpn ≤ v ∧ v * PGSIZE < size ∧ slot v = s

theorem inRange_succ {size : Nat} (inside : vpn * PGSIZE < size) (s : Slot) :
    InRange vpn size s ↔ s = slot vpn ∨ InRange (vpn + 1) size s := by
  constructor
  · rintro ⟨v, after, within, rfl⟩
    by_cases here : v = vpn
    · exact Or.inl (here ▸ rfl)
    · exact Or.inr ⟨v, by omega, within, rfl⟩
  · rintro (rfl | ⟨v, after, within, same⟩)
    · exact ⟨vpn, Nat.le_refl _, inside, rfl⟩
    · exact ⟨v, by omega, within, same⟩

theorem inRange_empty {size : Nat} (beyond : size ≤ vpn * PGSIZE) (s : Slot) :
    ¬InRange vpn size s := by
  rintro ⟨v, after, within, _⟩
  have := Nat.mul_le_mul_right PGSIZE after
  omega

/-- The entries of a range have been cleared; the pages of the others keep their contents. -/
structure Clears (m m' : Mem) (d : Nat) (range : Slot → Prop) : Prop where
  trade : Trades m m' (space m d) (space m' d)
  dir : m'.page d = m.page d
  weaker : ∀ s, pte m' d s = pte m d s ∨ pte m' d s = 0
  cleared : ∀ s, range s → present (pte m' d s) = false
  kept : ∀ s, ¬ range s → pte m' d s = pte m d s
  pages : ∀ s : Slot, s.low = true → present (pte m d s) = true → ¬ range s →
    m'.page (pteAddr (pte m d s)) = m.page (pteAddr (pte m d s))

section Clears

variable {range range' : Slot → Prop}

theorem Clears.refl (missing : ∀ s, range s → present (pte m d s) = false) :
    Clears m m d range :=
  ⟨Trades.refl _ _, rfl, fun _ => Or.inl rfl, missing, fun _ _ => rfl, fun _ _ _ _ => rfl⟩

theorem Clears.absent (clears : Clears m m' d range) {s : Slot}
    (missing : present (pte m d s) = false) : present (pte m' d s) = false := by
  rcases clears.weaker s with same | zero
  · rw [same, missing]
  · rw [zero]
    rfl

theorem Clears.widen (clears : Clears m m' d range) (more : ∀ s, range s → range' s)
    (missing : ∀ s, range' s → ¬range s → present (pte m d s) = false) :
    Clears m m' d range' := by
  refine ⟨clears.trade, clears.dir, clears.weaker, ?_, fun s out => clears.kept s (out ∘ more s),
    fun s low there out => clears.pages s low there (out ∘ more s)⟩
  intro s inside
  by_cases before : range s
  · exact clears.cleared s before
  · exact clears.absent (missing s inside before)

theorem Clears.trans (first : Clears m m1 d range) (second : Clears m1 m' d range') :
    Clears m m' d (fun s => range s ∨ range' s) := by
  refine ⟨first.trade.trans second.trade, second.dir.trans first.dir, ?_, ?_, ?_, ?_⟩
  · intro s
    rcases second.weaker s with same | zero
    · rw [same]
      exact first.weaker s
    · exact Or.inr zero
  · rintro s (early | late)
    · exact second.absent (first.cleared s early)
    · exact second.cleared s late
  · intro s outside
    rw [not_or] at outside
    rw [second.kept s outside.2, first.kept s outside.1]
  · intro s low there outside
    rw [not_or] at outside
    have same := first.kept s outside.1
    have later := second.pages s low (same ▸ there) outside.2
    rw [same] at later
    rw [later, first.pages s low there outside.1]

end Clears

/-- The page of an entry has been freed; now the entry is cleared. -/
theorem clears_entry {s : Slot} (sound : m.Sound (space m d)) (low : s.low = true)
    (there : present (m.page d s.1) = true) (mapped : present (pte m d s) = true)
    (trade : Trades m m1 {pteAddr (pte m d s)} 0)
    (others : ∀ q, q ≠ pteAddr (pte m d s) → m1.page q = m.page q) :
    Clears m (m1.setPage (pteAddr (m.page d s.1))
      (update (m1.page (pteAddr (m.page d s.1))) s.2 0)) d (fun r => r = s) := by
  obtain ⟨notDir, notTable⟩ :=
    user_not_table sound.nodup (mem_users.mpr ⟨s, low, mapped, rfl⟩)
  have dir1 : m1.page d = m.page d := others d notDir.symm
  have entries1 : pte m1 d = pte m d := by
    apply pte_congr dir1
    intro i present
    apply others
    intro same
    exact notTable (mem_tables.mpr ⟨i, present, same.symm⟩)
  have space1 := space_of_pte dir1 entries1
  obtain ⟨dir, entries⟩ := pte_setEntry (space1.symm ▸ sound.nodup) s
    (dir1.symm ▸ there) (by rw [dir1] : _ = pteAddr (m.page d s.1)) 0
  generalize table : pteAddr (m.page d s.1) = t at dir entries ⊢
  have updated := space_update dir entries
  rw [entries1, s.share_low low, s.share_low low, entry_of_present mapped, entry_zero,
    add_zero, space1] at updated
  refine ⟨?_, dir.trans dir1, ?_, ?_, ?_, ?_⟩
  · have release := trade.frame (space (m1.setPage t (update (m1.page t) s.2 0)) d)
    rw [zero_add, add_comm, updated] at release
    apply release.trans
    apply Store.trades_setPage
    have still : present ((m1.setPage t (update (m1.page t) s.2 0)).page d s.1) =
        true := by
      rw [dir, dir1, there]
    have member := table_mem_space still
    rw [dir, dir1, table] at member
    exact member
  · intro r
    rw [entries, entries1]
    by_cases same : r = s
    · rw [same, update_self]
      exact Or.inr rfl
    · rw [update_of_ne same]
      exact Or.inl rfl
  · intro r same
    rw [entries, same, update_self]
    rfl
  · intro r different
    rw [entries, entries1, update_of_ne different]
  · intro r lowR thereR different
    have member := mem_users.mpr ⟨r, lowR, thereR, rfl⟩
    have notHere : pteAddr (pte m d r) ≠ t := by
      intro same
      apply (user_not_table sound.nodup member).2
      exact mem_tables.mpr ⟨s.1, there, same.trans table.symm⟩
    rw [m1.setPage_other notHere]
    apply others
    intro same
    have nodup : (users m d).Nodup := (Multiset.nodup_add.mp sound.nodup).2.1
    exact different (gather_injective nodup (mem_lowSlots.mpr lowR) (mem_lowSlots.mpr low) thereR
      mapped same)

theorem deallocLoop_ends (limit : oldsz ≤ KERNBASE) (fuel : Nat) :
    ∀ {m : Mem} {vpn : Nat}, Held layout sure m (space m d) → oldsz ≤ (vpn + fuel) * PGSIZE →
      (deallocLoop layout d oldsz fuel vpn).Ends m (fun _ => ¬sure)
        (fun _ m' => Clears m m' d (InRange vpn oldsz)) := by
  induction fuel with
  | zero =>
    intro m vpn held enough
    exact Ends.of_pure (Clears.refl (fun s inside => absurd inside (inRange_empty enough s)))
  | succ fuel ih =>
    intro m vpn held enough
    unfold deallocLoop
    by_cases inside : vpn * PGSIZE < oldsz
    · rw [if_pos inside]
      have enough' : oldsz ≤ (vpn + 1 + fuel) * PGSIZE := by
        rw [Nat.add_right_comm]
        exact enough
      cases there : present (m.page d (PDX vpn)) with
      | false =>
        -- The rest of the missing table is skipped.
        apply Ends.bind_of_ok (walkpgdir_absent there)
        have further : vpn + 1 ≤ (vpn / NPTENTRIES + 1) * NPTENTRIES := by
          simp only [NPTENTRIES]
          omega
        have later : oldsz ≤ ((vpn / NPTENTRIES + 1) * NPTENTRIES + fuel) * PGSIZE :=
          Nat.le_trans enough' (Nat.mul_le_mul_right _ (Nat.add_le_add_right further _))
        apply (ih held later).mono
        intro _ m' rest
        apply rest.widen
        · rintro s ⟨v, after, within, same⟩
          exact ⟨v, by omega, within, same⟩
        · rintro s ⟨v, after, within, rfl⟩ outside
          have early : v < (vpn / NPTENTRIES + 1) * NPTENTRIES :=
            Nat.lt_of_not_le (fun reached => outside ⟨v, reached, within, rfl⟩)
          have sameTable : (slot v).1 = PDX vpn := by
            apply Fin.ext
            simp only [NPTENTRIES] at early
            change v / 1024 % 1024 = vpn / 1024 % 1024
            omega
          rw [pte_of_absent (sameTable ▸ there)]
          rfl
      | true =>
        apply Ends.bind_of_ok (walkpgdir_present false there)
        apply Ends.bind_of_ok (getEntry_ok there)
        have low := slot_low (Nat.lt_of_lt_of_le inside limit)
        by_cases mapped : present (pte m d (slot vpn)) = true
        · rw [if_pos mapped]
          have member := mem_space.mpr (Or.inr (Or.inr (mem_users.mpr
            ⟨slot vpn, low, mapped, rfl⟩)))
          apply Ends.bind (kfree_ends (held.manages member) m)
          rintro _ m1 ⟨trade, others⟩
          apply Ends.bind_of_ok rfl
          have first := clears_entry held.sound low there mapped trade others
          apply (ih (held.trade first.trade) enough').mono
          intro _ m' rest
          apply (first.trans rest).widen
          · exact fun s => (inRange_succ inside s).mpr
          · exact fun s within outside => absurd ((inRange_succ inside s).mp within) outside
        · rw [if_neg mapped]
          apply (ih held enough').mono
          intro _ m' rest
          apply rest.widen
          · exact fun s late => (inRange_succ inside s).mpr (Or.inr late)
          · intro s within outside
            rw [((inRange_succ inside s).mp within).resolve_right outside]
            exact Bool.eq_false_iff.mpr mapped
    · rw [if_neg inside]
      exact Ends.of_pure (Clears.refl
        (fun s within => absurd within (inRange_empty (Nat.le_of_not_lt inside) s)))

theorem le_PGROUNDUP (size : Nat) : size ≤ PGROUNDUP size / PGSIZE * PGSIZE := by
  simp only [PGROUNDUP, PGSIZE]
  omega

theorem deallocuvm_ends (newsz : Nat) (limit : oldsz ≤ KERNBASE)
    (held : Held layout sure m (space m d)) :
    (deallocuvm layout d oldsz newsz).Ends m (fun _ => ¬sure) (fun result m' =>
      result = (if oldsz ≤ newsz then oldsz else newsz) ∧
        Clears m m' d (InRange (PGROUNDUP newsz / PGSIZE) oldsz)) := by
  unfold deallocuvm
  split
  · rename_i shorter
    refine Ends.of_pure ⟨rfl, Clears.refl ?_⟩
    intro s inside
    exact absurd inside (inRange_empty (Nat.le_trans shorter (le_PGROUNDUP newsz)) s)
  · have enough : oldsz ≤ (PGROUNDUP newsz / PGSIZE + PGROUNDUP oldsz / PGSIZE) * PGSIZE := by
      rw [Nat.add_mul]
      exact Nat.le_trans (le_PGROUNDUP oldsz) (Nat.le_add_left _ _)
    apply Ends.bind (deallocLoop_ends limit _ held enough)
    intro _ m' clears
    exact Ends.of_pure ⟨rfl, clears⟩

/-- The pages that the entries in a list refer to. -/
@[irreducible]
def listed (words : Fin NPTENTRIES → Nat) (list : List (Fin NPTENTRIES)) : Multiset Nat :=
  (list.map fun i => entry (words i)).sum

theorem gather_finRange (words : Fin n → Nat) :
    gather Finset.univ words = ((List.finRange n).map fun i => entry (words i)).sum := by
  unfold gather
  exact Fin.sum_univ_def _

theorem freeTables_ends (list : List (Fin NPTENTRIES)) :
    ∀ {m : Mem}, Held layout sure m ({d} + listed (m.page d) list) →
      (freeTables layout d list).Ends m (fun _ => ¬sure)
        (fun _ m' => Trades m m' (listed (m.page d) list) 0) := by
  induction list with
  | nil =>
    intro m held
    apply Ends.of_pure
    unfold listed
    exact Trades.refl _ _
  | cons i rest ih =>
    intro m held
    unfold freeTables
    apply Ends.bind_of_ok (rfl : getWord d i m = .ok (m.page d i, m))
    have pages : listed (m.page d) (i :: rest) =
        entry (m.page d i) + listed (m.page d) rest := by
      unfold listed
      exact List.sum_cons
    rw [pages] at held ⊢
    by_cases there : present (m.page d i) = true
    · rw [if_pos there]
      rw [entry_of_present there] at held ⊢
      have member : pteAddr (m.page d i) ∈
          {d} + ({pteAddr (m.page d i)} + listed (m.page d) rest) :=
        Multiset.mem_add.mpr (Or.inr (Multiset.mem_add.mpr
          (Or.inl (Multiset.mem_singleton_self _))))
      apply Ends.bind (kfree_ends (held.manages member) m)
      rintro _ m1 ⟨trade, others⟩
      have notDir : d ≠ pteAddr (m.page d i) := by
        have sound := held.sound
        rw [← add_assoc] at sound
        intro equal
        apply Multiset.disjoint_left.mp (Multiset.nodup_add.mp sound.left.nodup).2.2
          (Multiset.mem_singleton_self d)
        exact Multiset.mem_singleton.mpr equal
      have dir : m1.page d = m.page d := others d notDir
      have framed := trade.frame (listed (m.page d) rest)
      rw [zero_add, ← dir] at framed
      rw [add_left_comm] at held
      have held1 := held.trade (trade.frame ({d} + listed (m.page d) rest))
      rw [zero_add, ← dir] at held1
      rw [← dir]
      exact (ih held1).mono (fun _ _ release => framed.trans release)
    · rw [if_neg there]
      rw [entry_of_absent (Bool.eq_false_iff.mpr there), zero_add] at held ⊢
      exact ih held

theorem freevm_ends (held : Held layout sure m (space m d)) :
    (freevm layout d).Ends m (fun _ => ¬sure) (fun _ m' => Trades m m' (space m d) 0) := by
  unfold freevm
  have below : KERNBASE ≤ KERNBASE := Nat.le_refl _
  apply Ends.bind (deallocuvm_ends 0 below held)
  intro result m1 cleared
  have clears := cleared.2
  have empty : users m1 d = 0 := by
    unfold users
    apply gather_absent
    intro s member
    obtain ⟨vpn, below, rfl⟩ := exists_vpn (mem_lowSlots.mp member)
    exact clears.cleared _ ⟨vpn, Nat.zero_le _, below, rfl⟩
  have pages : space m1 d = {d} + listed (m1.page d) (List.finRange NPTENTRIES) := by
    unfold space tables
    rw [empty, add_zero, gather_finRange, listed]
  generalize List.finRange NPTENTRIES = list at pages ⊢
  have held1 := held.trade clears.trade
  rw [pages] at held1
  apply Ends.bind (freeTables_ends list held1)
  intro _ m2 freed
  have release := freed.frame {d}
  rw [zero_add, add_comm, ← pages] at release
  have held2 := (held.trade clears.trade).trade release
  apply (kfree_ends (held2.manages (Multiset.mem_singleton_self d)) m2).mono
  intro _ m3 last
  exact (clears.trade.trans release).trans last.1

end Xv6.Memory
