/-
The kernel part of an address space.

A range of addresses needs at most one page table for each of its directory entries: with
as many free pages as such entries are not present, `mappages` does not fail, and
`setupkvm` makes a directory with the entries of `kmap`.
-/

import Xv6.Memory.Tables

namespace Xv6.Memory

open Function Library Library.Code

variable {layout : Layout} {sure : Prop} {m m' m1 : Mem} {d : Nat}

/-! ### Page tables -/

theorem card_entry_le (w : Nat) : (entry w).card ≤ 1 := by
  unfold entry
  split
  · exact Nat.le_refl 1
  · exact Nat.zero_le 1

theorem card_gather_le {Index : Type} (range : Finset Index) (words : Index → Nat) :
    (gather range words).card ≤ range.card := by
  unfold gather
  rw [Multiset.card_sum, Finset.card_eq_sum_ones]
  exact Finset.sum_le_sum (fun i _ => card_entry_le (words i))

theorem card_gather_lt {Index : Type} [DecidableEq Index] {range : Finset Index}
    {words : Index → Nat} {i : Index} (member : i ∈ range)
    (missing : present (words i) = false) : (gather range words).card < range.card := by
  have fewer : gather range words = gather (range.erase i) words := by
    unfold gather
    rw [← Finset.add_sum_erase range _ member, entry_of_absent missing, zero_add]
  rw [fewer]
  exact Nat.lt_of_le_of_lt (card_gather_le _ words) (Finset.card_erase_lt_of_mem member)

/-- Enough free pages for all page tables that some directory entries may still need, and
`spare` further ones. -/
def Roomy (m : Mem) (d : Nat) (need : Finset (Fin NPTENTRIES)) (spare : Nat) : Prop :=
  need.card + spare ≤ m.freelist.length + (gather need (m.page d)).card

theorem Roomy.of_length {need : Finset (Fin NPTENTRIES)} {spare : Nat}
    (length : need.card + spare ≤ m.freelist.length) : Roomy m d need spare :=
  Nat.le_trans length (Nat.le_add_right _ _)

variable {need : Finset (Fin NPTENTRIES)} {v vpn n perm : Nat} {mapped : Bool} {k : Kmap}

theorem Maps.roomy {spare : Nat} (maps : Maps m m' d vpn n perm mapped) (member : PDX vpn ∈ need)
    (room : Roomy m d need spare) : mapped = true ∧ Roomy m' d need spare := by
  unfold Roomy at room ⊢
  constructor
  · cases mapped with
    | true => rfl
    | false =>
      obtain ⟨full, missing⟩ := maps.full rfl
      have fewer := card_gather_lt member missing
      rw [full, List.length_nil] at room
      omega
  · rw [maps.room need member]
    exact room

theorem slot_injective {w : Nat} (boundV : v < 1048576) (boundW : w < 1048576)
    (same : slot v = slot w) : v = w := by
  have first := congrArg Fin.val (Prod.mk.inj same).1
  have second := congrArg Fin.val (Prod.mk.inj same).2
  change v / 1024 % 1024 = w / 1024 % 1024 at first
  change v % 1024 = w % 1024 at second
  omega

theorem table_present {s : Slot} (mapped : present (pte m d s) = true) :
    present (m.page d s.1) = true := by
  cases there : present (m.page d s.1) with
  | false =>
    rw [pte_of_absent there] at mapped
    cases mapped
  | true => rfl

/-! ### Ranges of the kernel part

`adds v w` says that virtual page `v` gets the entry `w`. -/

section Ranges

variable {adds more : Nat → Nat → Prop}

/-- The entries have been added, with nothing changed elsewhere. -/
structure MapsRange (m m' : Mem) (d : Nat) (adds : Nat → Nat → Prop) : Prop where
  mapped : ∀ v w, adds v w → pte m' d (slot v) = w ∧ present w = true
  kept : ∀ s, (∀ v w, adds v w → slot v ≠ s) → pte m' d s = pte m d s
  old : ∀ s, present (pte m d s) = true → pte m' d s = pte m d s
  dir : ∀ i, (∀ v w, adds v w → PDX v ≠ i) → m'.page d i = m.page d i
  list : m'.freelist <:+ m.freelist
  room : ∀ need spare, (∀ v w, adds v w → PDX v ∈ need) → Roomy m d need spare →
    Roomy m' d need spare

theorem MapsRange.trans (first : MapsRange m m1 d adds) (second : MapsRange m1 m' d more) :
    MapsRange m m' d (fun v w => adds v w ∨ more v w) := by
  refine ⟨?_, ?_, ?_, ?_, second.list.trans first.list, ?_⟩
  · rintro v w (early | late)
    · obtain ⟨entry, there⟩ := first.mapped v w early
      rw [second.old _ (entry.symm ▸ there)]
      exact ⟨entry, there⟩
    · exact second.mapped v w late
  · intro s outside
    rw [second.kept s (fun v w late => outside v w (Or.inr late)),
      first.kept s (fun v w early => outside v w (Or.inl early))]
  · intro s there
    have same := first.old s there
    rw [second.old s (same.symm ▸ there), same]
  · intro i outside
    rw [second.dir i (fun v w late => outside v w (Or.inr late)),
      first.dir i (fun v w early => outside v w (Or.inl early))]
  · intro need spare members room
    exact second.room need spare (fun v w late => members v w (Or.inr late))
      (first.room need spare (fun v w early => members v w (Or.inl early)) room)

/-- There may be too few free pages for the page tables of the range. -/
def Short (m : Mem) (d : Nat) (adds : Nat → Nat → Prop) : Prop :=
  ∀ need : Finset (Fin NPTENTRIES), (∀ v w, adds v w → PDX v ∈ need) → ¬Roomy m d need 0

theorem Short.mono (short : Short m d adds) (wider : ∀ v w, adds v w → more v w) :
    Short m d more :=
  fun need members => short need (fun v w inside => members v w (wider v w inside))

/-- Entries of the kernel part have been added, all of them or only some. -/
structure Mapping (m m' : Mem) (d : Nat) (adds : Nat → Nat → Prop) (mapped : Bool) : Prop where
  trade : Trades m m' (space m d) (space m' d)
  success : mapped = true → MapsRange m m' d adds
  failure : mapped = false → Short m d adds

theorem Mapping.trans (first : Mapping m m1 d adds true) (second : Mapping m1 m' d more mapped) :
    Mapping m m' d (fun v w => adds v w ∨ more v w) mapped := by
  refine ⟨first.trade.trans second.trade,
    fun equal => (first.success rfl).trans (second.success equal), ?_⟩
  intro equal need members room
  apply second.failure equal need (fun v w late => members v w (Or.inr late))
  exact (first.success rfl).room need 0 (fun v w early => members v w (Or.inl early)) room

/-- Pages from `n` on at the virtual pages from `vpn` on, `count` beside the first one. -/
def Consecutive (perm vpn n count v w : Nat) : Prop :=
  vpn ≤ v ∧ v ≤ vpn + count ∧ w = mkPte (n + (v - vpn)) perm

theorem Maps.mapping (maps : Maps m m' d vpn n perm mapped) (high : (slot vpn).low = false) :
    Mapping m m' d (Consecutive perm vpn n 0) mapped := by
  have here : Consecutive perm vpn n 0 vpn (mkPte n perm) :=
    ⟨Nat.le_refl _, Nat.le_refl _, by rw [Nat.sub_self, Nat.add_zero]⟩
  cases mapped with
  | false =>
    refine ⟨(maps.refused rfl).1, nofun, ?_⟩
    intro _ need members room
    cases (maps.roomy (members vpn _ here) room).1
  | true =>
    have trade := maps.trade rfl
    have entries := maps.entries rfl
    rw [Slot.share_high high, add_zero] at trade
    refine ⟨trade, fun _ => ⟨?_, ?_, ?_, ?_, maps.list, ?_⟩, nofun⟩
    · rintro v w ⟨after, before, rfl⟩
      obtain rfl : v = vpn := by omega
      rw [Nat.sub_self, Nat.add_zero, entries, update_self]
      exact ⟨rfl, present_mkPte n perm⟩
    · intro s outside
      rw [entries, update_of_ne (outside vpn _ here).symm]
    · intro s there
      rw [entries, update_of_ne]
      rintro rfl
      rw [maps.absent rfl] at there
      cases there
    · intro i outside
      exact maps.dir i (Or.inl (outside vpn _ here).symm)
    · intro need spare members room
      exact (maps.roomy (members vpn _ here) room).2

theorem mapLoop_ends (count : Nat) :
    ∀ {m : Mem} {vpn n : Nat}, m.Sound (space m d) → KERNBASE / PGSIZE ≤ vpn →
      vpn + count < 1048576 →
      (mapLoop d perm count vpn n).Ends m
        (fun _ => ∃ v, vpn ≤ v ∧ v ≤ vpn + count ∧ present (pte m d (slot v)) = true)
        (fun mapped m' => Mapping m m' d (Consecutive perm vpn n count) mapped) := by
  have highSlot (vpn : Nat) (high : KERNBASE / PGSIZE ≤ vpn) (bound : vpn < 1048576) :
      (slot vpn).low = false := by
    unfold Slot.low
    rw [decide_eq_false_iff_not, Nat.not_lt]
    simp only [KERNBASE, PGSIZE] at high
    change 512 ≤ vpn / 1024 % 1024
    omega
  induction count with
  | zero =>
    intro m vpn n sound high bound
    apply (mappage_ends n perm sound).of_ran
    · exact fun _ _ taken => ⟨vpn, Nat.le_refl _, Nat.le_refl _, taken⟩
    · exact fun mapped m' _ maps => maps.mapping (highSlot vpn high bound)
  | succ count ih =>
    intro m vpn n sound high bound
    unfold mapLoop
    apply Ends.bind ((mappage_ends n perm sound).excuse
      (fun _ taken => ⟨vpn, Nat.le_refl _, by omega, taken⟩))
    intro mapped m1 maps
    have first := maps.mapping (highSlot vpn high (by omega))
    cases mapped with
    | false =>
      refine Ends.of_pure ⟨first.trade, nofun, fun _ => (first.failure rfl).mono ?_⟩
      rintro v w ⟨after, before, equal⟩
      exact ⟨after, by omega, equal⟩
    | true =>
      have union : Consecutive perm vpn n (count + 1) = fun v w =>
          Consecutive perm vpn n 0 v w ∨ Consecutive perm (vpn + 1) (n + 1) count v w := by
        funext v w
        have shift (after : vpn + 1 ≤ v) : n + 1 + (v - (vpn + 1)) = n + (v - vpn) := by omega
        apply propext
        constructor
        · rintro ⟨after, before, rfl⟩
          by_cases here : v = vpn
          · exact Or.inl ⟨after, by omega, rfl⟩
          · have next : vpn + 1 ≤ v := by omega
            exact Or.inr ⟨next, by omega, by rw [shift next]⟩
        · rintro (⟨after, before, rfl⟩ | ⟨after, before, rfl⟩)
          · exact ⟨after, by omega, rfl⟩
          · exact ⟨by omega, by omega, by rw [shift after]⟩
      rw [union]
      apply (ih (first.trade.sound sound) (Nat.le_succ_of_le high) (by omega)).of_ran
      · rintro _ _ ⟨v, after, before, taken⟩
        rw [(first.success rfl).kept] at taken
        · exact ⟨v, by omega, by omega, taken⟩
        · rintro v' w ⟨after', before', _⟩ same
          have equal := slot_injective (by omega) (by omega) same
          omega
      · exact fun mapped m' _ rest => first.trans rest

/-! ### `setupkvm` -/

theorem testBit_mkPte (n : Nat) {bit : Nat} (small : perm < PGSIZE) (flag : bit < 12) :
    (mkPte n perm).testBit bit = (perm ||| PTE_P).testBit bit := by
  have bound : perm ||| PTE_P < 2 ^ 12 := Nat.or_lt_two_pow small (by decide)
  unfold mkPte
  rw [Nat.mul_comm]
  exact (Nat.testBit_two_pow_mul_add n bound bit).trans (if_pos flag)

theorem user_mkPte (n : Nat) (small : perm < PGSIZE) :
    user (mkPte n perm) = user (perm ||| PTE_P) :=
  testBit_mkPte n small (by decide)

/-- A range that lies between `KERNBASE` and the end of the address space. -/
structure Kmap.InKernel (k : Kmap) : Prop where
  closed : k.perm = 0 ∨ k.perm = PTE_W
  high : KERNBASE ≤ k.virt
  sized : 0 < (k.phys_end + UINT - k.phys_start) % UINT
  fits : k.virt + (k.phys_end + UINT - k.phys_start) % UINT ≤ UINT

/-- The number of bytes of a range. -/
def Kmap.size (k : Kmap) : Nat := (k.phys_end + UINT - k.phys_start) % UINT

/-- The pages of a range, by their virtual page numbers. -/
def Kmap.Covers (k : Kmap) (v : Nat) : Prop :=
  k.virt / PGSIZE ≤ v ∧ v ≤ (k.virt + k.size - 1) / PGSIZE

/-- The entry of a page of the range. -/
def Kmap.Maps (k : Kmap) (v w : Nat) : Prop :=
  k.Covers v ∧ w = mkPte (k.phys_start / PGSIZE + (v - k.virt / PGSIZE)) k.perm

def kernelMaps (ranges : List Kmap) (v w : Nat) : Prop := ∃ k ∈ ranges, k.Maps v w

theorem Kmap.Maps.closed {w : Nat} (maps : k.Maps v w) (inside : k.InKernel) :
    user w = false := by
  rw [maps.2]
  rcases inside.closed with zero | write
  · rw [zero, user_mkPte _ (by decide)]
    rfl
  · rw [write, user_mkPte _ (by decide)]
    rfl

theorem covers_bounds (inside : k.InKernel) (covers : k.Covers v) :
    KERNBASE / PGSIZE ≤ v ∧ v < 1048576 := by
  have high := inside.high
  have fits : k.virt + k.size ≤ UINT := inside.fits
  have sized : 0 < k.size := inside.sized
  obtain ⟨above, below⟩ := covers
  simp only [UINT, PGSIZE, KERNBASE] at high fits above below ⊢
  omega

theorem mappages_ends (inside : k.InKernel) (sound : m.Sound (space m d)) :
    (mappages d k.virt k.size (k.phys_start / PGSIZE) k.perm).Ends m
      (fun _ => ∃ v, k.Covers v ∧ present (pte m d (slot v)) = true)
      (fun mapped m' => Mapping m m' d k.Maps mapped) := by
  have high := inside.high
  have sized : 0 < k.size := inside.sized
  have fits : k.virt + k.size ≤ UINT := inside.fits
  simp only [KERNBASE, UINT] at high fits
  have last : (k.virt + k.size + 4294967296 - 1) % 4294967296 = k.virt + k.size - 1 := by omega
  have count : ((k.virt + k.size - 1) / 4096 + 4294967296 / 4096 - k.virt / 4096) %
      (4294967296 / 4096) = (k.virt + k.size - 1) / 4096 - k.virt / 4096 := by omega
  have covers (v : Nat) : k.Covers v ↔ k.virt / 4096 ≤ v ∧
      v ≤ k.virt / 4096 + ((k.virt + k.size - 1) / 4096 - k.virt / 4096) := by
    simp only [Kmap.Covers, PGSIZE]
    omega
  have same : k.Maps = Consecutive k.perm (k.virt / 4096) (k.phys_start / 4096)
      ((k.virt + k.size - 1) / 4096 - k.virt / 4096) := by
    funext v w
    unfold Kmap.Maps Consecutive
    rw [covers, and_assoc]
  simp only [mappages, PGSIZE, UINT, same, covers, and_assoc]
  rw [last, count]
  exact mapLoop_ends _ sound (by simp only [KERNBASE, PGSIZE]; omega) (by omega)

section Kmap

variable (layout : Layout)

theorem kmap_inKernel : ∀ k, k ∈ kmap layout → k.InKernel := by
  have text := layout.text_before_data
  have order := layout.data_before_end
  have memory := layout.end_in_memory
  change 256 < layout.data at text
  change layout.endPage < 57344 at memory
  intro k member
  simp only [kmap, List.mem_cons, List.not_mem_nil, or_false] at member
  rcases member with rfl | rfl | rfl | rfl
  · exact ⟨Or.inr rfl, Nat.le_refl _, by decide, by decide⟩
  · refine ⟨Or.inl rfl, by simp, ?_, ?_⟩
    · simp only [EXTMEM, PGSIZE, UINT]
      omega
    · simp only [EXTMEM, PGSIZE, UINT, KERNBASE]
      omega
  · refine ⟨Or.inr rfl, by simp, ?_, ?_⟩
    · simp only [PHYSTOP, PGSIZE, UINT]
      omega
    · simp only [PHYSTOP, PGSIZE, UINT, KERNBASE]
      omega
  · exact ⟨Or.inr rfl, by decide, by decide, by decide⟩

theorem kmap_apart : (kmap layout).Pairwise
    (fun k k' => ∀ v w, k.Covers v → k'.Covers w → v < w) := by
  have text := layout.text_before_data
  have order := layout.data_before_end
  have memory := layout.end_in_memory
  change 256 < layout.data at text
  change layout.endPage < 57344 at memory
  simp only [kmap, List.pairwise_cons, List.mem_cons, List.not_mem_nil, or_false,
    forall_eq_or_imp, forall_eq, Kmap.Covers, Kmap.size, KERNBASE, EXTMEM, PGSIZE, UINT,
    PHYSTOP, DEVSPACE]
  refine ⟨⟨?_, ?_, ?_⟩, ⟨?_, ?_⟩, ?_, by simp⟩ <;> intro v w first second <;> omega

theorem mapKernel_ends (ranges : List Kmap) :
    ∀ {m : Mem}, (∀ k, k ∈ ranges → k.InKernel) →
      ranges.Pairwise (fun k k' => ∀ v w, k.Covers v → k'.Covers w → v < w) →
      Held layout sure m (space m d) →
      (mapKernel layout d ranges).Ends m
        (fun _ => ¬sure ∨ ∃ k ∈ ranges, ∃ v, k.Covers v ∧ present (pte m d (slot v)) = true)
        (fun mapped m' => (mapped = true → Mapping m m' d (kernelMaps ranges) true) ∧
          (mapped = false → Trades m m' (space m d) 0 ∧ Short m d (kernelMaps ranges))) := by
  induction ranges with
  | nil =>
    intro m inside apart held
    refine Ends.of_pure ⟨fun _ => ⟨Trades.refl _ _, fun _ => ⟨?_, fun _ _ => rfl, fun _ _ => rfl,
      fun _ _ => rfl, List.suffix_refl _, fun _ _ _ room => room⟩, nofun⟩, nofun⟩
    rintro v w ⟨k, impossible, _⟩
    cases impossible
  | cons k rest ih =>
    intro m inside apart held
    obtain ⟨later, apartRest⟩ := List.pairwise_cons.mp apart
    have here : k ∈ k :: rest := List.mem_cons_self ..
    have there {k' : Kmap} (member : k' ∈ rest) : k' ∈ k :: rest := List.mem_cons_of_mem _ member
    have union : kernelMaps (k :: rest) = fun v w => k.Maps v w ∨ kernelMaps rest v w := by
      funext v w
      unfold kernelMaps
      simp only [List.mem_cons, exists_eq_or_imp]
    unfold mapKernel
    apply Ends.bind ((mappages_ends (inside k here) held.sound).excuse
      (fun _ taken => Or.inr ⟨k, here, taken⟩))
    intro mapped m1 first
    have held1 := held.trade first.trade
    cases mapped with
    | true =>
      apply (ih (fun k' member => inside k' (there member)) apartRest held1).of_ran
      · rintro _ _ (unsure | ⟨k', member, v, covers, taken⟩)
        · exact Or.inl unsure
        refine Or.inr ⟨k', there member, v, covers, ?_⟩
        rw [(first.success rfl).kept] at taken
        · exact taken
        · rintro w _ ⟨coversW, _⟩ same
          have less := later k' member w v coversW covers
          have equal := slot_injective (covers_bounds (inside k here) coversW).2
            (covers_bounds (inside k' (there member)) covers).2 same
          omega
      · rintro mapped m' _ ⟨success, failure⟩
        rw [union]
        refine ⟨fun equal => first.trans (success equal), fun equal => ?_⟩
        obtain ⟨freed, short⟩ := failure equal
        refine ⟨first.trade.trans freed, ?_⟩
        intro need members room
        exact short need (fun v w late => members v w (Or.inr late))
          ((first.success rfl).room need 0 (fun v w early => members v w (Or.inl early)) room)
    | false =>
      apply Ends.bind ((freevm_ends held1).excuse (fun _ => Or.inl))
      intro _ m2 freed
      refine Ends.of_pure ⟨nofun, fun _ => ⟨first.trade.trans freed, ?_⟩⟩
      rw [union]
      exact (first.failure rfl).mono (fun v w => Or.inl)

end Kmap

end Ranges

/-- The directory entries of the kernel part. -/
def kernelTables : Finset (Fin NPTENTRIES) := Finset.Icc 512 567 ∪ Finset.Icc 1016 1023

theorem card_kernelTables : kernelTables.card ≤ 64 := by
  apply Nat.le_trans (Finset.card_union_le _ _)
  rw [Fin.card_Icc, Fin.card_Icc]
  decide

theorem mem_kernelTables {i : Fin NPTENTRIES} : i ∈ kernelTables ↔
    512 ≤ i.val ∧ i.val ≤ 567 ∨ 1016 ≤ i.val ∧ i.val ≤ 1023 := by
  unfold kernelTables
  rw [Finset.mem_union, Finset.mem_Icc, Finset.mem_Icc, Fin.le_def, Fin.le_def, Fin.le_def,
    Fin.le_def]
  rfl

/-- The tables of the kernel part are those that `kmap` needs. -/
theorem kernelTables_iff (layout : Layout) (i : Fin NPTENTRIES) : i ∈ kernelTables ↔
    ∃ k, k ∈ kmap layout ∧ ∃ v, k.Covers v ∧ PDX v = i := by
  have text := layout.text_before_data
  have order := layout.data_before_end
  have memory := layout.end_in_memory
  change 256 < layout.data at text
  change layout.endPage < 57344 at memory
  have bound := i.isLt
  simp only [NPTENTRIES] at bound
  rw [mem_kernelTables]
  simp only [kmap, List.mem_cons, List.not_mem_nil, or_false, or_and_right, exists_or,
    exists_eq_left]
  simp only [Kmap.Covers, Kmap.size, KERNBASE, EXTMEM, PGSIZE, UINT, PHYSTOP, DEVSPACE]
  have value (v : Nat) : PDX v = i ↔ v / 1024 % 1024 = i.val := Fin.ext_iff
  constructor
  · intro member
    have address : PDX (i.val * 1024) = i := by
      rw [value]
      omega
    by_cases low : i.val * 1024 < 524288 + 256
    · exact Or.inl ⟨i.val * 1024, by omega, address⟩
    · by_cases middle : i.val * 1024 < 524288 + layout.data
      · exact Or.inr (Or.inl ⟨i.val * 1024, by omega, address⟩)
      · by_cases ram : i.val ≤ 567
        · exact Or.inr (Or.inr (Or.inl ⟨i.val * 1024, by omega, address⟩))
        · exact Or.inr (Or.inr (Or.inr ⟨i.val * 1024, by omega, address⟩))
  · simp only [value]
    rintro (⟨v, covers, index⟩ | ⟨v, covers, index⟩ | ⟨v, covers, index⟩ | ⟨v, covers, index⟩) <;>
      omega

/-- A directory without user entries. -/
structure Bare (m m' : Mem) (d : Nat) : Prop where
  trade : Trades m m' 0 (space m' d)
  empty : ∀ s : Slot, s.low = true → pte m' d s = 0
  kernel : KernelOnly m' d

/-- What `setupkvm` makes: the entries of `kmap`, and their page tables. -/
structure NewSpace (layout : Layout) (m m' : Mem) (d : Nat) : Prop extends Bare m m' d where
  entries : ∀ k ∈ kmap layout, ∀ v w, k.Maps v w → pte m' d (slot v) = w
  absent : ∀ s, (∀ k ∈ kmap layout, ∀ v, k.Covers v → slot v ≠ s) → pte m' d s = 0
  tables : ∀ i, present (m'.page d i) = true ↔ i ∈ kernelTables
  list : m'.freelist <:+ m.freelist
  first : m.freelist.head? = some d

theorem setupkvm_ends (held : Held layout sure m 0) :
    (setupkvm layout).Ends m (fun _ => ¬sure) (fun result m' =>
      (result = none → Trades m m' 0 0 ∧ m.freelist.length < 65) ∧
        ∀ d, result = some d → NewSpace layout m m' d) := by
  unfold setupkvm
  rcases kalloc_cases m with ⟨asked, full⟩ | ⟨d, m1, asked⟩
  · apply Ends.bind_of_ok asked
    exact Ends.of_pure ⟨fun _ => ⟨Trades.refl _ _, by rw [full]; decide⟩, nofun⟩
  · apply Ends.bind_of_ok asked
    apply Ends.bind_of_ok (rfl : setPage d zeroPage m1 = .ok ((), m1.setPage d zeroPage))
    have missing (i : Fin NPTENTRIES) : present ((m1.setPage d zeroPage).page d i) = false := by
      rw [m1.setPage_self]
      exact present_zero
    have absent (s : Slot) : pte (m1.setPage d zeroPage) d s = 0 := pte_of_absent (missing s.1)
    have single : space (m1.setPage d zeroPage) d = {d} := by
      unfold space tables users
      rw [gather_absent (fun i _ => missing i), gather_absent, add_zero, add_zero]
      intro s _
      rw [absent]
      rfl
    have start : Trades m (m1.setPage d zeroPage) 0 (space (m1.setPage d zeroPage) d) := by
      rw [single]
      exact (kalloc_some asked).1.trans
        (Store.trades_setPage (Multiset.mem_singleton_self d) _)
    have length := kalloc_length asked
    have few := card_kernelTables
    have suffix : m1.freelist <:+ m.freelist := by
      rw [(kalloc_list asked).1]
      exact List.suffix_cons d _
    have members (v w : Nat) (maps : kernelMaps (kmap layout) v w) : PDX v ∈ kernelTables := by
      obtain ⟨k, member, covers, _⟩ := maps
      exact (kernelTables_iff layout _).mpr ⟨k, member, v, covers, rfl⟩
    apply Ends.bind ((mapKernel_ends layout (kmap layout) (kmap_inKernel layout)
      (kmap_apart layout) (held.trade start)).excuse (fun _ fault => by
        rcases fault with unsure | ⟨_, _, v, _, taken⟩
        · exact unsure
        · rw [absent] at taken
          cases taken))
    rintro mapped m2 ⟨success, failure⟩
    cases mapped with
    | false =>
      obtain ⟨freed, short⟩ := failure rfl
      refine Ends.of_pure ⟨fun _ => ⟨start.trans freed, ?_⟩, nofun⟩
      by_contra enough
      refine short kernelTables members (Roomy.of_length ?_)
      change kernelTables.card + 0 ≤ m1.freelist.length
      omega
    | true =>
      refine Ends.of_pure ⟨nofun, ?_⟩
      intro d' equal
      cases equal
      have maps := (success rfl).success rfl
      have high (k : Kmap) (member : k ∈ kmap layout) (v : Nat) (covers : k.Covers v) :
          (slot v).low = false := by
        obtain ⟨above, below⟩ := covers_bounds (kmap_inKernel layout k member) covers
        unfold Slot.low
        rw [decide_eq_false_iff_not, Nat.not_lt]
        simp only [KERNBASE, PGSIZE] at above
        change 512 ≤ v / 1024 % 1024
        omega
      refine ⟨⟨start.trans (success rfl).trade, ?_, ?_⟩, ?_, ?_, ?_, maps.list.trans suffix,
        by rw [(kalloc_list asked).1, List.head?_cons]⟩
      · intro s low
        rw [maps.kept, absent]
        rintro v w ⟨k, member, covers, _⟩ rfl
        rw [high k member v covers] at low
        cases low
      · intro s _
        by_cases hit : ∃ v w, kernelMaps (kmap layout) v w ∧ slot v = s
        · obtain ⟨v, w, ⟨k, member, covered⟩, rfl⟩ := hit
          rw [(maps.mapped v w ⟨k, member, covered⟩).1]
          exact covered.closed (kmap_inKernel layout k member)
        · rw [maps.kept s (fun v w covered same => hit ⟨v, w, covered, same⟩), absent]
          rfl
      · exact fun k member v w covered => (maps.mapped v w ⟨k, member, covered⟩).1
      · intro s outside
        rw [maps.kept s (fun v w ⟨k, member, covers, _⟩ => outside k member v covers), absent]
      · intro i
        rw [kernelTables_iff layout]
        constructor
        · intro there
          by_contra outside
          rw [maps.dir i (fun v w ⟨k, member, covers, _⟩ same =>
            outside ⟨k, member, v, covers, same⟩), missing] at there
          cases there
        · rintro ⟨k, member, v, covers, rfl⟩
          obtain ⟨entry, there⟩ := maps.mapped v _ ⟨k, member, covers, rfl⟩
          exact table_present (entry.symm ▸ there : present (pte m2 d (slot v)) = true)

theorem setupkvm_succeeds (held : Held layout True m 0) (room : 65 ≤ m.freelist.length) :
    ∃ d m', setupkvm layout m = .ok (some d, m') ∧ NewSpace layout m m' d := by
  obtain ⟨result, m', ran, refused, made⟩ :=
    (setupkvm_ends held).exists_ok (fun _ => not_not_intro trivial)
  cases result with
  | none =>
    have short := (refused rfl).2
    omega
  | some d => exact ⟨d, m', ran, made d rfl⟩

theorem setupkvm_length (new : NewSpace layout m m' d) :
    m.freelist.length ≤ m'.freelist.length + 65 := by
  have noUsers : users m' d = 0 := by
    unfold users
    apply gather_absent
    intro s member
    rw [new.empty s (mem_lowSlots.mp member)]
    rfl
  have few : (tables m' d).card ≤ 64 := by
    have split : tables m' d = gather kernelTables (m'.page d) :=
      gather_subset (Finset.subset_univ _) (fun i _ outside =>
        Bool.eq_false_iff.mpr (fun there => outside ((new.tables i).mp there)))
    rw [split]
    exact Nat.le_trans (card_gather_le _ _) card_kernelTables
  have conserved := congrArg Multiset.card new.trade.conserved
  unfold space at conserved
  rw [noUsers, add_zero] at conserved
  simp only [Multiset.card_add, Multiset.coe_card, Multiset.card_singleton,
    Multiset.card_zero] at conserved
  omega

end Xv6.Memory
