/-
What the functions that add pages to an address space do: `allocuvm` and `copyuvm`.

Both map a fresh page at each virtual page of a range, and give everything back if they run
out of memory.
-/

import Xv6.Memory.Room

namespace Xv6.Memory

open Function Library Library.Code

variable {layout : Layout} {sure : Prop} {m m' m1 : Mem} {d : Nat}

variable {n vpn oldsz newsz size sz result : Nat}

/-! ### Fresh pages -/

theorem mappages_page {perm : Nat} (below : vpn * PGSIZE < KERNBASE) :
    mappages d (vpn * PGSIZE) PGSIZE n perm = mappage d vpn n perm := by
  simp only [PGSIZE, KERNBASE] at below
  have start : vpn * 4096 / 4096 = vpn := Nat.mul_div_cancel _ (by decide)
  have count : ((vpn * 4096 + 4096 + 4294967296 - 1) % 4294967296 / 4096 +
      4294967296 / 4096 - vpn) % (4294967296 / 4096) = 0 := by
    omega
  simp only [mappages, PGSIZE, UINT, start]
  rw [count]
  rfl

/-- The fresh page is mapped or not; nothing else of the memory of the process changes. -/
structure MapsFresh (m m' : Mem) (d vpn n perm : Nat) (page : Page) (mapped : Bool) : Prop where
  success : mapped = true → Trades m m' (space m d) (space m' d) ∧
    present (pte m d (slot vpn)) = false ∧
    pte m' d = update (pte m d) (slot vpn) (mkPte n perm)
  failure : mapped = false → Trades m m' (space m d) (space m' d + {n}) ∧ pte m' d = pte m d
  users : ∀ q ∈ users m d, m'.page q = m.page q
  fresh : m'.page n = page
  dir : ∀ i, i ≠ PDX vpn ∨ present (m.page d i) = true → m'.page d i = m.page d i
  room : ∀ need spare, PDX vpn ∈ need → Roomy m d need (spare + 1) →
    mapped = true ∧ Roomy m' d need spare

theorem mapFresh_ends {perm : Nat} (page : Page) (sound : m.Sound (space m d))
    (asked : kalloc m = .ok (some n, m1)) (below : vpn * PGSIZE < KERNBASE)
    (small : perm < PGSIZE) :
    (mappages d (vpn * PGSIZE) PGSIZE n perm).Ends (m1.setPage n page)
      (fun _ => present (pte m d (slot vpn)) = true)
      (fun mapped m' => MapsFresh m m' d vpn n perm page mapped) := by
  obtain ⟨fill, same⟩ := freshPage_ok sound asked page
  have sound1 := fill.sound sound
  have ends : (mappage d vpn n perm).Ends (m1.setPage n page) _ _ := mappage_ends n perm sound1.left
  rw [same.entries] at ends
  rw [mappages_page below]
  apply ends.mono
  intro mapped m' maps
  refine ⟨?_, ?_, ?_, ?_, ?_, ?_⟩
  · intro success
    have trade := maps.trade success
    rw [Slot.share_low (slot_low below), entry_mkPte n small] at trade
    have entries := maps.entries success
    have absent := maps.absent success
    rw [same.entries] at entries absent
    exact ⟨fill.trans trade, absent, entries⟩
  · intro failure
    obtain ⟨trade, entries⟩ := maps.refused failure
    exact ⟨fill.trans (trade.frame {n}), entries.trans same.entries⟩
  · intro q member
    have still : q ∈ users (m1.setPage n page) d := by
      unfold users
      rw [same.entries]
      exact member
    have different : q ≠ n := by
      rintro rfl
      exact sound.not_free (mem_space.mpr (Or.inr (Or.inr member))) (kalloc_some asked).2.1
    rw [maps.users q still, m1.setPage_other different, (kalloc_some asked).2.2]
  · rw [maps.fresh sound1, m1.setPage_self]
  · intro i kept
    rw [maps.dir i (by rw [same.dir]; exact kept), same.dir]
  · intro need spare member room
    apply maps.roomy member
    have length := kalloc_length asked
    change m.freelist.length = (m1.setPage n page).freelist.length + 1 at length
    unfold Roomy at room ⊢
    rw [same.dir]
    omega

/-- Fresh pages with the given flags and contents have been added from `vpn` up to a size. -/
structure Grows (m m' : Mem) (d vpn size : Nat) (perm : Nat → Nat) (page : Nat → Page) :
    Prop where
  absent : ∀ s, InRange vpn size s → present (pte m d s) = false
  kept : ∀ s, ¬InRange vpn size s → pte m' d s = pte m d s
  users : ∀ q ∈ users m d, m'.page q = m.page q
  dir : ∀ i, (∀ s : Slot, InRange vpn size s → s.1 ≠ i) ∨ present (m.page d i) = true →
    m'.page d i = m.page d i
  fresh : ∀ v, vpn ≤ v → v * PGSIZE < size →
    ∃ n, pte m' d (slot v) = mkPte n (perm v) ∧ m'.page n = page v

section Grows

variable {perm : Nat → Nat} {page : Nat → Page}

theorem Grows.refl (beyond : size ≤ vpn * PGSIZE) : Grows m m d vpn size perm page := by
  refine ⟨fun s inside => absurd inside (inRange_empty beyond s), fun _ _ => rfl, fun _ _ => rfl,
    fun _ _ => rfl, ?_⟩
  intro v after inside
  exact absurd ⟨v, after, inside, rfl⟩ (inRange_empty beyond (slot v))

theorem Grows.mapped (grows : Grows m m' d vpn size perm page) {s : Slot}
    (inside : InRange vpn size s) : present (pte m' d s) = true := by
  obtain ⟨v, after, within, rfl⟩ := inside
  obtain ⟨n, entry, _⟩ := grows.fresh v after within
  rw [entry, present_mkPte]

theorem inRange_iff {v start : Nat} (limit : size ≤ KERNBASE) (below : v * PGSIZE < KERNBASE) :
    InRange start size (slot v) ↔ start ≤ v ∧ v * PGSIZE < size := by
  constructor
  · rintro ⟨w, after, within, same⟩
    have bound := Nat.lt_of_lt_of_le within limit
    simp only [PGSIZE, KERNBASE] at bound below
    obtain rfl := slot_injective (by omega) (by omega) same
    exact ⟨after, within⟩
  · rintro ⟨after, within⟩
    exact ⟨v, after, within, rfl⟩

/-- A page has been added, and then those behind it. -/
theorem MapsFresh.grows (maps : MapsFresh m m1 d vpn n (perm vpn) (page vpn) true)
    (small : perm vpn < PGSIZE) (inside : vpn * PGSIZE < size) (limit : size ≤ KERNBASE)
    (rest : Grows m1 m' d (vpn + 1) size perm page) : Grows m m' d vpn size perm page := by
  obtain ⟨_, absent, entries⟩ := maps.success rfl
  have below := Nat.lt_of_lt_of_le inside limit
  have elsewhere (s : Slot) (different : s ≠ slot vpn) : pte m1 d s = pte m d s := by
    rw [entries, update_of_ne different]
  have here : pte m1 d (slot vpn) = mkPte n (perm vpn) := by
    rw [entries, update_self]
  have alone : ¬InRange (vpn + 1) size (slot vpn) := by
    rw [inRange_iff limit below]
    omega
  refine ⟨?_, ?_, ?_, ?_, ?_⟩
  · intro s within
    by_cases first : s = slot vpn
    · rw [first, absent]
    · rw [← elsewhere s first]
      exact rest.absent s (((inRange_succ inside s).mp within).resolve_left first)
  · intro s outside
    rw [inRange_succ inside, not_or] at outside
    rw [rest.kept s outside.2, elsewhere s outside.1]
  · intro q member
    obtain ⟨s, low, there, rfl⟩ := mem_users.mp member
    have different : s ≠ slot vpn := by
      rintro rfl
      rw [absent] at there
      cases there
    rw [rest.users _ ?_, maps.users _ member]
    refine mem_users.mpr ⟨s, low, ?_, ?_⟩
    · rw [elsewhere s different, there]
    · rw [elsewhere s different]
  · intro i outside
    have first : m1.page d i = m.page d i := by
      apply maps.dir
      exact outside.imp_left (fun apart =>
        (apart _ ((inRange_succ inside _).mpr (Or.inl rfl))).symm)
    rw [rest.dir i, first]
    rw [first]
    exact outside.imp_left (fun apart s later =>
      apart s ((inRange_succ inside s).mpr (Or.inr later)))
  · intro v after within
    by_cases same : v = vpn
    · subst v
      refine ⟨n, by rw [rest.kept _ alone, here], ?_⟩
      rw [rest.users n ?_, maps.fresh]
      refine mem_users.mpr ⟨slot vpn, slot_low below, ?_, ?_⟩
      · rw [here, present_mkPte]
      · rw [here, pteAddr_mkPte n small]
    · exact rest.fresh v (by omega) within

end Grows

/-! ### `allocuvm` -/

/-- All pages up to a size are mapped. -/
def Mapped (m : Mem) (d size : Nat) : Prop :=
  ∀ v, v * PGSIZE < size → present (pte m d (slot v)) = true

/-- The pages of the range are gone again. -/
structure Undone (m m' : Mem) (d start newsz : Nat) : Prop where
  kept : ∀ s, ¬InRange start newsz s → pte m' d s = pte m d s
  cleared : ∀ s, InRange start newsz s → present (pte m' d s) = false
  users : ∀ s : Slot, s.low = true → present (pte m d s) = true → ¬InRange start newsz s →
    m'.page (pteAddr (pte m d s)) = m.page (pteAddr (pte m d s))
  dir : ∀ i, (∀ s : Slot, InRange start newsz s → s.1 ≠ i) ∨ present (m.page d i) = true →
    m'.page d i = m.page d i

theorem Clears.undone {start : Nat} (clears : Clears m m' d (InRange start newsz)) :
    Undone m m' d start newsz :=
  ⟨clears.kept, clears.cleared, clears.pages, fun i _ => congrFun clears.dir i⟩

theorem MapsFresh.undone {start perm : Nat} {page : Page} {mapped : Bool}
    (maps : MapsFresh m m1 d vpn n perm page mapped) (here : InRange start newsz (slot vpn))
    (undone : Undone m1 m' d start newsz) : Undone m m' d start newsz := by
  have outside (s : Slot) (apart : ¬InRange start newsz s) : pte m1 d s = pte m d s := by
    cases mapped with
    | true =>
      rw [(maps.success rfl).2.2, update_of_ne]
      exact fun same => apart (same ▸ here)
    | false => rw [(maps.failure rfl).2]
  refine ⟨?_, undone.cleared, ?_, ?_⟩
  · intro s apart
    rw [undone.kept s apart, outside s apart]
  · intro s low there apart
    have same := outside s apart
    have later := undone.users s low (by rw [same]; exact there) apart
    rw [same] at later
    rw [later, maps.users _ (mem_users.mpr ⟨s, low, there, rfl⟩)]
  · intro i kept
    have first : m1.page d i = m.page d i :=
      maps.dir i (kept.imp_left (fun apart => (apart _ here).symm))
    rw [undone.dir i (by rw [first]; exact kept), first]

/-- Empty pages that user code may write to. -/
abbrev Extends (m m' : Mem) (d vpn size : Nat) : Prop :=
  Grows m m' d vpn size (fun _ => PTE_W ||| PTE_U) (fun _ => zeroPage)

/-- All ways through the loop of `allocuvm`: it maps all pages, or it runs out of memory and
takes back those that it has mapped. -/
theorem allocLoop_ends (limit : newsz ≤ KERNBASE) (fuel : Nat) :
    ∀ {m : Mem} {vpn : Nat}, Held layout sure m (space m d) → PGROUNDUP oldsz / PGSIZE ≤ vpn →
      newsz ≤ (vpn + fuel) * PGSIZE →
      (allocLoop layout d oldsz newsz fuel vpn).Ends m
        (fun _ => ¬sure ∨ ∃ s, InRange vpn newsz s ∧ present (pte m d s) = true)
        (fun result m' => Trades m m' (space m d) (space m' d) ∧
          (result = newsz ∧ Extends m m' d vpn newsz ∨
            result = 0 ∧ Undone m m' d (PGROUNDUP oldsz / PGSIZE) newsz) ∧
          ∀ need spare, (∀ v, v * PGSIZE < newsz → PDX v ∈ need) →
            Roomy m d need (spare + fuel) → result = newsz ∧ Roomy m' d need spare) := by
  induction fuel with
  | zero =>
    intro m vpn held start enough
    exact Ends.of_pure ⟨Trades.refl _ _, Or.inl ⟨rfl, Grows.refl enough⟩,
      fun _ _ _ room => ⟨rfl, room⟩⟩
  | succ fuel ih =>
    intro m vpn held start enough
    unfold allocLoop
    by_cases inside : vpn * PGSIZE < newsz
    · rw [if_pos inside]
      have below := Nat.lt_of_lt_of_le inside limit
      have here : InRange (PGROUNDUP oldsz / PGSIZE) newsz (slot vpn) := ⟨vpn, start, inside, rfl⟩
      rcases kalloc_cases m with ⟨asked, full⟩ | ⟨n, m1, asked⟩
      · apply Ends.bind_of_ok asked
        apply Ends.bind ((deallocuvm_ends oldsz limit held).excuse (fun _ => Or.inl))
        rintro _ m2 ⟨_, clears⟩
        refine Ends.of_pure ⟨clears.trade, Or.inr ⟨rfl, clears.undone⟩, ?_⟩
        intro need spare members room
        have few := card_gather_le need (m.page d)
        unfold Roomy at room
        rw [full, List.length_nil] at room
        omega
      · apply Ends.bind_of_ok asked
        apply Ends.bind_of_ok (rfl : setPage n zeroPage m1 = .ok ((), m1.setPage n zeroPage))
        have small : PTE_W ||| PTE_U < PGSIZE := by decide
        apply Ends.bind ((mapFresh_ends zeroPage held.sound asked below small).excuse
          (fun _ taken => Or.inr ⟨_, ⟨vpn, Nat.le_refl _, inside, rfl⟩, taken⟩))
        intro mapped m2 maps
        cases mapped with
        | true =>
          obtain ⟨trade, _, entries⟩ := maps.success rfl
          have enough' : newsz ≤ (vpn + 1 + fuel) * PGSIZE := by
            rw [Nat.add_right_comm]
            exact enough
          apply (ih (held.trade trade) (Nat.le_succ_of_le start) enough').of_ran
          · rintro _ _ (unsure | ⟨s, later, taken⟩)
            · exact Or.inl unsure
            refine Or.inr ⟨s, (inRange_succ inside s).mpr (Or.inr later), ?_⟩
            rw [entries, update_of_ne] at taken
            · exact taken
            · rintro rfl
              rw [inRange_iff limit below] at later
              omega
          · rintro result m' _ ⟨rest, outcome, room⟩
            refine ⟨trade.trans rest, ?_, ?_⟩
            · rcases outcome with ⟨all, grows⟩ | ⟨zero, undone⟩
              · exact Or.inl ⟨all, maps.grows small inside limit grows⟩
              · exact Or.inr ⟨zero, maps.undone here undone⟩
            · intro need spare members roomy
              exact room need spare members
                (maps.room need (spare + fuel) (members vpn inside) roomy).2
        | false =>
          obtain ⟨trade, entries⟩ := maps.failure rfl
          have held2 := held.trade trade
          apply Ends.bind ((deallocuvm_ends oldsz limit held2.left).excuse (fun _ => Or.inl))
          rintro _ m3 ⟨_, clears⟩
          have undo := clears.trade.frame {n}
          apply Ends.bind ((dropPage_ends (held2.trade undo)).excuse (fun _ => Or.inl))
          rintro _ m4 ⟨drop, same, others⟩
          have middle := maps.undone here clears.undone
          refine Ends.of_pure ⟨(trade.trans undo).trans drop, Or.inr ⟨rfl, ?_, ?_, ?_, ?_⟩, ?_⟩
          · intro s apart
            rw [same.entries, middle.kept s apart]
          · intro s within
            rw [same.entries]
            exact middle.cleared s within
          · intro s low there apart
            rw [← middle.users s low there apart]
            apply others
            intro equal
            apply notMem_space held2.sound
            refine mem_space.mpr (Or.inr (Or.inr (mem_users.mpr ⟨s, low, ?_, ?_⟩)))
            · rw [entries, there]
            · rw [entries, equal]
          · intro i kept
            rw [same.dir, middle.dir i kept]
          · intro need spare members roomy
            cases (maps.room need (spare + fuel) (members vpn inside) roomy).1
    · rw [if_neg inside]
      refine Ends.of_pure ⟨Trades.refl _ _,
        Or.inl ⟨rfl, Grows.refl (Nat.le_of_not_lt inside)⟩, ?_⟩
      intro need spare _ room
      refine ⟨rfl, ?_⟩
      unfold Roomy at room ⊢
      omega

/-- What `allocuvm` leaves, whether it succeeds or not. -/
structure Allocates (m m' : Mem) (d oldsz newsz result : Nat) : Prop where
  trade : Trades m m' (space m d) (space m' d)
  outcome : newsz < KERNBASE ∧ result = max oldsz newsz ∧
      Extends m m' d (PGROUNDUP oldsz / PGSIZE) newsz ∨
    result = 0 ∧ (m' = m ∨ newsz < KERNBASE ∧ Undone m m' d (PGROUNDUP oldsz / PGSIZE) newsz)
  room : newsz < KERNBASE → oldsz ≤ newsz →
    ∀ need spare, (∀ v, v * PGSIZE < newsz → PDX v ∈ need) →
      Roomy m d need (spare + PGROUNDUP newsz / PGSIZE) → result = newsz ∧ Roomy m' d need spare

theorem allocuvm_ends (oldsz newsz : Nat) (held : Held layout sure m (space m d)) :
    (allocuvm layout d oldsz newsz).Ends m
      (fun _ => ¬sure ∨ newsz < KERNBASE ∧
        ∃ s, InRange (PGROUNDUP oldsz / PGSIZE) newsz s ∧ present (pte m d s) = true)
      (fun result m' => Allocates m m' d oldsz newsz result) := by
  unfold allocuvm
  by_cases below : KERNBASE ≤ newsz
  · rw [if_pos below]
    refine Ends.of_pure ⟨Trades.refl _ _, Or.inr ⟨rfl, Or.inl rfl⟩, ?_⟩
    intro small
    omega
  · rw [if_neg below]
    by_cases shorter : newsz < oldsz
    · rw [if_pos shorter]
      have beyond := Nat.le_trans (Nat.le_of_lt shorter) (le_PGROUNDUP oldsz)
      refine Ends.of_pure ⟨Trades.refl _ _, Or.inl ⟨Nat.lt_of_not_le below, ?_,
        Grows.refl beyond⟩, ?_⟩
      · exact (Nat.max_eq_left (Nat.le_of_lt shorter)).symm
      · intro _ longer
        omega
    · rw [if_neg shorter]
      have longer := Nat.le_of_not_lt shorter
      have small := Nat.lt_of_not_le below
      have enough : newsz ≤ (PGROUNDUP oldsz / PGSIZE + PGROUNDUP newsz / PGSIZE) * PGSIZE := by
        rw [Nat.add_mul]
        exact Nat.le_trans (le_PGROUNDUP newsz) (Nat.le_add_left _ _)
      apply (allocLoop_ends (Nat.le_of_lt small) _ held (Nat.le_refl _) enough).of_ran
      · exact fun _ _ fault => fault.imp_right (fun taken => ⟨small, taken⟩)
      · rintro result m' _ ⟨trade, outcome, room⟩
        refine ⟨trade, ?_, fun _ _ => room⟩
        rcases outcome with ⟨rfl, grows⟩ | ⟨zero, undone⟩
        · exact Or.inl ⟨small, (Nat.max_eq_right longer).symm, grows⟩
        · exact Or.inr ⟨zero, Or.inr ⟨small, undone⟩⟩

section Allocates

variable (allocates : Allocates m m' d oldsz newsz result)
include allocates

theorem Allocates.success (some : result ≠ 0) : newsz < KERNBASE ∧ result = max oldsz newsz ∧
    Extends m m' d (PGROUNDUP oldsz / PGSIZE) newsz :=
  allocates.outcome.resolve_right (fun failed => some failed.1)

theorem Allocates.kept : (∀ s, ¬InRange (PGROUNDUP oldsz / PGSIZE) newsz s →
      pte m' d s = pte m d s) ∧
    ∀ i, (∀ s : Slot, InRange (PGROUNDUP oldsz / PGSIZE) newsz s → s.1 ≠ i) →
      m'.page d i = m.page d i := by
  rcases allocates.outcome with ⟨_, _, grows⟩ | ⟨_, rfl | ⟨_, undone⟩⟩
  · exact ⟨grows.kept, fun i outside => grows.dir i (Or.inl outside)⟩
  · exact ⟨fun _ _ => rfl, fun _ _ => rfl⟩
  · exact ⟨undone.kept, fun i outside => undone.dir i (Or.inl outside)⟩

theorem Allocates.high : (∀ s : Slot, s.low = false → pte m' d s = pte m d s) ∧
    ∀ i : Fin NPTENTRIES, 512 ≤ i.val → m'.page d i = m.page d i := by
  have low (small : newsz < KERNBASE) (s : Slot)
      (inside : InRange (PGROUNDUP oldsz / PGSIZE) newsz s) : s.low = true := by
    obtain ⟨v, _, within, rfl⟩ := inside
    exact slot_low (Nat.lt_trans within small)
  obtain ⟨entries, dir⟩ := allocates.kept
  have apart (small : newsz < KERNBASE) : (∀ s : Slot, s.low = false → pte m' d s = pte m d s) ∧
      ∀ i : Fin NPTENTRIES, 512 ≤ i.val → m'.page d i = m.page d i := by
    constructor
    · intro s high
      apply entries
      intro inside
      rw [low small s inside] at high
      cases high
    · intro i high
      apply dir
      rintro s inside rfl
      have below := low small s inside
      unfold Slot.low at below
      rw [decide_eq_true_eq] at below
      exact absurd below (Nat.not_lt.mpr high)
  rcases allocates.outcome with ⟨small, _⟩ | ⟨_, rfl | ⟨small, _⟩⟩
  · exact apart small
  · exact ⟨fun _ _ => rfl, fun _ _ => rfl⟩
  · exact apart small

theorem Allocates.kernel (only : KernelOnly m d) : KernelOnly m' d := by
  intro s high
  rw [allocates.high.1 s high]
  exact only s high

end Allocates

/-! ### User memory -/

/-- The byte at a user address, if its page is mapped. -/
def userByte (m : Mem) (d a : Nat) : Option UInt8 :=
  if present (pte m d (slot (a / PGSIZE))) then
    some ((m.page (pteAddr (pte m d (slot (a / PGSIZE))))).byte (a % PGSIZE))
  else none

/-- Exactly the pages below `sz` are mapped, and the pages of the process and those that are
free are distinct pages of the allocator. -/
structure Sized (layout : Layout) (m : Mem) (d sz : Nat) : Prop where
  sound : m.Sound (space m d)
  managed : Managed layout m (space m d)
  bound : sz ≤ KERNBASE
  mapped : ∀ v, v * PGSIZE < KERNBASE →
    (present (pte m d (slot v)) = true ↔ v * PGSIZE < sz)

/-- Exactly the pages below `sz` are mapped. -/
structure Exact (layout : Layout) (sure : Prop) (m : Mem) (d sz : Nat) : Prop where
  held : Held layout sure m (space m d)
  bound : sz ≤ KERNBASE
  mapped : ∀ v, v * PGSIZE < KERNBASE →
    (present (pte m d (slot v)) = true ↔ v * PGSIZE < sz)

theorem sized_iff_exact : Sized layout m d sz ↔ Exact layout True m d sz := by
  constructor
  · exact fun sized => ⟨⟨sized.sound, fun _ => sized.managed⟩, sized.bound, sized.mapped⟩
  · exact fun sized => ⟨sized.held.sound, sized.held.managed trivial, sized.bound, sized.mapped⟩

variable {a : Nat}

theorem userByte_isSome (m : Mem) (d a : Nat) :
    (userByte m d a).isSome = present (pte m d (slot (a / PGSIZE))) := by
  unfold userByte
  split
  · rename_i there
    rw [there]
    rfl
  · rename_i missing
    rw [Bool.eq_false_iff.mpr missing]
    rfl

theorem userByte_none (missing : present (pte m d (slot (a / PGSIZE))) = false) :
    userByte m d a = none :=
  if_neg (Bool.eq_false_iff.mp missing)

theorem userByte_some (there : present (pte m d (slot (a / PGSIZE))) = true) :
    userByte m d a = some ((m.page (pteAddr (pte m d (slot (a / PGSIZE))))).byte (a % PGSIZE)) :=
  if_pos there

theorem userByte_congr (entry : pte m' d (slot (a / PGSIZE)) = pte m d (slot (a / PGSIZE)))
    (page : present (pte m d (slot (a / PGSIZE))) = true →
      m'.page (pteAddr (pte m d (slot (a / PGSIZE)))) =
        m.page (pteAddr (pte m d (slot (a / PGSIZE))))) :
    userByte m' d a = userByte m d a := by
  unfold userByte
  rw [entry]
  split
  · rename_i there
    rw [page there]
  · rfl

theorem page_below (below : a < KERNBASE) : a / PGSIZE * PGSIZE < KERNBASE := by
  simp only [PGSIZE, KERNBASE] at below ⊢
  omega

theorem lt_PGROUNDUP_iff : a < PGROUNDUP size ↔ a / PGSIZE * PGSIZE < size := by
  simp only [PGROUNDUP, PGSIZE]
  omega

theorem lt_pages_iff {v : Nat} : v < PGROUNDUP size / PGSIZE ↔ v * PGSIZE < size := by
  simp only [PGROUNDUP, PGSIZE]
  omega

theorem Exact.absent (sized : Exact layout sure m d sz) (limit : newsz ≤ KERNBASE) {s : Slot}
    (inside : InRange (PGROUNDUP sz / PGSIZE) newsz s) : present (pte m d s) = false := by
  obtain ⟨v, after, within, rfl⟩ := inside
  rw [← Bool.not_eq_true, sized.mapped v (Nat.lt_of_lt_of_le within limit), ← lt_pages_iff]
  exact Nat.not_lt.mpr after

theorem Exact.allocuvm_ends (sized : Exact layout sure m d sz) (newsz : Nat) :
    (allocuvm layout d sz newsz).Ends m (fun _ => ¬sure)
      (fun result m' => Allocates m m' d sz newsz result) := by
  apply (Memory.allocuvm_ends sz newsz sized.held).excuse
  rintro _ (unsure | ⟨small, s, inside, taken⟩)
  · exact unsure
  · rw [sized.absent (Nat.le_of_lt small) inside] at taken
    cases taken

/-- The memory of the process after it has grown. -/
theorem Exact.grown (sized : Exact layout sure m d sz)
    (allocates : Allocates m m' d sz newsz result) (some : result ≠ 0) :
    Exact layout sure m' d result ∧ ∀ a, a < KERNBASE →
      userByte m' d a = if a < PGROUNDUP sz then userByte m d a
        else if a < PGROUNDUP newsz then .some 0 else none := by
  obtain ⟨small, rfl, grows⟩ := allocates.success some
  have held := sized.held.trade allocates.trade
  have limit := sized.bound
  have inside (v : Nat) (below : v * PGSIZE < KERNBASE) :
      InRange (PGROUNDUP sz / PGSIZE) newsz (slot v) ↔ ¬v * PGSIZE < sz ∧ v * PGSIZE < newsz := by
    rw [inRange_iff (Nat.le_of_lt small) below, ← Nat.not_lt, lt_pages_iff]
  refine ⟨⟨held, by omega, ?_⟩, ?_⟩
  · intro v below
    by_cases new : InRange (PGROUNDUP sz / PGSIZE) newsz (slot v)
    · have range := (inside v below).mp new
      exact iff_of_true (grows.mapped new) (by omega)
    · rw [grows.kept _ new, sized.mapped v below]
      rw [inside v below] at new
      omega
  · intro a bound
    have below := page_below bound
    simp only [lt_PGROUNDUP_iff]
    by_cases new : InRange (PGROUNDUP sz / PGSIZE) newsz (slot (a / PGSIZE))
    · have range := (inside _ below).mp new
      rw [if_neg range.1, if_pos range.2, userByte_some (grows.mapped new)]
      obtain ⟨n, entry, page⟩ := grows.fresh (a / PGSIZE)
        (by rw [← Nat.not_lt, lt_pages_iff]; exact range.1) range.2
      rw [entry, pteAddr_mkPte n (by decide), page]
      simp [Page.byte, zeroPage]
    · have same := grows.kept _ new
      rw [inside _ below] at new
      by_cases old : a / PGSIZE * PGSIZE < sz
      · rw [if_pos old]
        apply userByte_congr same
        intro there
        exact grows.users _ (mem_users.mpr ⟨_, slot_low below, there, rfl⟩)
      · rw [if_neg old, if_neg (fun within => new ⟨old, within⟩)]
        apply userByte_none
        rw [same, ← Bool.not_eq_true, sized.mapped _ below]
        exact old

/-! ### `copyuvm` -/

theorem copyLoop_ends {p : Nat} {perm : Nat → Nat} {page : Nat → Page} (limit : sz ≤ KERNBASE)
    (fuel : Nat) :
    ∀ {m : Mem} {vpn : Nat}, Held layout sure m (space m d + space m p) →
      sz ≤ (vpn + fuel) * PGSIZE →
      (∀ v, v * PGSIZE < sz → present (pte m p (slot v)) = true →
        pteFlags (pte m p (slot v)) = perm v ∧ m.page (pteAddr (pte m p (slot v))) = page v) →
      (copyLoop layout p sz d fuel vpn).Ends m
        (fun _ => ¬sure ∨ ∃ v, v * PGSIZE < sz ∧ (present (pte m p (slot v)) = false ∨
          vpn ≤ v ∧ present (pte m d (slot v)) = true))
        (fun copied m' => (copied = true → Trades m m' (space m d) (space m' d) ∧
            Grows m m' d vpn sz perm page) ∧
          (copied = false → Trades m m' (space m d) 0 ∧
            ∀ need, (∀ v, v * PGSIZE < sz → PDX v ∈ need) → ¬Roomy m d need fuel)) := by
  induction fuel with
  | zero =>
    intro m vpn held enough source
    exact Ends.of_pure ⟨fun _ => ⟨Trades.refl _ _, Grows.refl enough⟩, nofun⟩
  | succ fuel ih =>
    intro m vpn held enough source
    unfold copyLoop
    by_cases inside : vpn * PGSIZE < sz
    · rw [if_pos inside]
      have below := Nat.lt_of_lt_of_le inside limit
      by_cases there : present (pte m p (slot vpn)) = true
      · apply Ends.bind_of_ok (walkpgdir_present false (table_present there))
        apply Ends.bind_of_ok (getEntry_ok (table_present there))
        rw [if_pos there]
        obtain ⟨flags, content⟩ := source vpn inside there
        rcases kalloc_cases m with ⟨asked, empty⟩ | ⟨n, m1, asked⟩
        · apply Ends.bind_of_ok asked
          apply Ends.bind ((freevm_ends held.left).excuse (fun _ => Or.inl))
          refine fun _ m2 freed => Ends.of_pure ⟨nofun, fun _ => ⟨freed, fun need _ roomy => ?_⟩⟩
          have few := card_gather_le need (m.page d)
          unfold Roomy at roomy
          rw [empty, List.length_nil] at roomy
          omega
        · apply Ends.bind_of_ok asked
          apply Ends.bind_of_ok rfl
          rw [(kalloc_list asked).2, content, flags]
          apply Ends.bind_of_ok (rfl : setPage n (page vpn) m1 = .ok ((), m1.setPage n (page vpn)))
          have small : perm vpn < PGSIZE := by
            rw [← flags]
            exact Nat.mod_lt _ (by decide)
          apply Ends.bind ((mapFresh_ends (page vpn) held.sound.left asked below small).excuse
            (fun _ taken => Or.inr ⟨vpn, inside, Or.inr ⟨Nat.le_refl _, taken⟩⟩))
          intro mapped m2 maps
          cases mapped with
          | true =>
            obtain ⟨trade, _, entries⟩ := maps.success rfl
            have parent := sameSpace_of_trade trade held.sound
            have held2 := held.trade (trade.frame (space m p))
            rw [← parent.pages] at held2
            have enough' : sz ≤ (vpn + 1 + fuel) * PGSIZE := by
              rw [Nat.add_right_comm]
              exact enough
            have source2 (v : Nat) (within : v * PGSIZE < sz)
                (still : present (pte m2 p (slot v)) = true) :
                pteFlags (pte m2 p (slot v)) = perm v ∧
                  m2.page (pteAddr (pte m2 p (slot v))) = page v := by
              rw [parent.entries] at still ⊢
              have member : pteAddr (pte m p (slot v)) ∈ space m p :=
                mem_space.mpr (Or.inr (Or.inr (mem_users.mpr
                  ⟨_, slot_low (Nat.lt_of_lt_of_le within limit), still, rfl⟩)))
              rw [trade.others held.sound member]
              exact source v within still
            apply (ih held2 enough' source2).of_ran
            · rintro _ _ (unsure | ⟨v, within, fault⟩)
              · exact Or.inl unsure
              refine Or.inr ⟨v, within, ?_⟩
              rw [parent.entries] at fault
              refine fault.imp_right ?_
              rintro ⟨later, taken⟩
              refine ⟨by omega, ?_⟩
              rw [entries, update_of_ne] at taken
              · exact taken
              · intro same
                have bound := Nat.lt_of_lt_of_le within limit
                simp only [PGSIZE, KERNBASE] at bound below
                have equal := slot_injective (by omega) (by omega) same
                omega
            · rintro copied m' _ ⟨done, undone⟩
              refine ⟨fun equal => ?_, fun equal => ?_⟩
              · obtain ⟨rest, grows⟩ := done equal
                exact ⟨trade.trans rest, maps.grows small inside limit grows⟩
              · obtain ⟨freed, short⟩ := undone equal
                exact ⟨trade.trans freed, fun need members roomy => short need members
                  (maps.room need fuel (members vpn inside) roomy).2⟩
          | false =>
            obtain ⟨trade, _⟩ := maps.failure rfl
            have held2 := held.left.trade trade
            apply Ends.bind ((dropPage_ends held2).excuse (fun _ => Or.inl))
            rintro _ m3 ⟨drop, _⟩
            apply Ends.bind ((freevm_ends (held2.trade drop)).excuse (fun _ => Or.inl))
            refine fun _ m4 freed => Ends.of_pure ⟨nofun, fun _ =>
              ⟨(trade.trans drop).trans freed, fun need members roomy => ?_⟩⟩
            cases (maps.room need fuel (members vpn inside) roomy).1
      · -- `copyuvm` panics on a page of the parent that is not there.
        have missing := Bool.eq_false_iff.mpr there
        have fault : ∃ v, v * PGSIZE < sz ∧ (present (pte m p (slot v)) = false ∨
            vpn ≤ v ∧ present (pte m d (slot v)) = true) := ⟨vpn, inside, Or.inl missing⟩
        cases table : present (m.page p (PDX vpn)) with
        | false =>
          apply Ends.bind_of_ok (walkpgdir_absent table)
          exact Ends.of_stop (Or.inr fault)
        | true =>
          apply Ends.bind_of_ok (walkpgdir_present false table)
          apply Ends.bind_of_ok (getEntry_ok table)
          rw [if_neg there]
          exact Ends.of_stop (Or.inr fault)
    · rw [if_neg inside]
      exact Ends.of_pure ⟨fun _ => ⟨Trades.refl _ _, Grows.refl (Nat.le_of_not_lt inside)⟩, nofun⟩

/-- The copy has the kernel part of a new address space, and a fresh page with the contents and
the flags of each page of the parent. -/
structure Copied (layout : Layout) (m m' : Mem) (p d sz : Nat) : Prop where
  trade : Trades m m' 0 (space m' d)
  copied : ∀ v, v * PGSIZE < sz → ∃ n,
    pte m' d (slot v) = mkPte n (pteFlags (pte m p (slot v))) ∧
      m'.page n = m.page (pteAddr (pte m p (slot v)))
  empty : ∀ s : Slot, s.low = true → ¬InRange 0 sz s → pte m' d s = 0
  kernel : ∃ m1, NewSpace layout m m1 d ∧ ∀ s : Slot, s.low = false → pte m' d s = pte m1 d s

theorem copyuvm_ends {p : Nat} (limit : sz ≤ KERNBASE) (held : Held layout sure m (space m p)) :
    (copyuvm layout p sz).Ends m
      (fun _ => ¬sure ∨ ∃ v, v * PGSIZE < sz ∧ present (pte m p (slot v)) = false)
      (fun result m' => (result = none → Trades m m' 0 0 ∧
          ∀ need : Finset (Fin NPTENTRIES), (∀ v, v * PGSIZE < sz → PDX v ∈ need) →
            m.freelist.length < 65 + need.card + PGROUNDUP sz / PGSIZE) ∧
        ∀ d, result = some d → Copied layout m m' p d sz) := by
  unfold copyuvm
  have beside : Held layout sure m (0 + space m p) := by rwa [zero_add]
  apply Ends.bind ((setupkvm_ends beside.left).excuse (fun _ => Or.inl))
  rintro made m1 ⟨refused, new⟩
  cases made with
  | none =>
    obtain ⟨trade, short⟩ := refused rfl
    exact Ends.of_pure ⟨fun _ => ⟨trade, fun _ _ =>
      Nat.lt_add_right _ (Nat.lt_add_right _ short)⟩, nofun⟩
  | some d =>
    have fresh := new d rfl
    have parent := sameSpace_of_trade fresh.trade beside.sound
    have held1 := beside.trade (fresh.trade.frame (space m p))
    rw [← parent.pages] at held1
    have enough : sz ≤ (0 + PGROUNDUP sz / PGSIZE) * PGSIZE := by
      rw [Nat.zero_add]
      exact le_PGROUNDUP sz
    have lowSlot (v : Nat) (within : v * PGSIZE < sz) : (slot v).low = true :=
      slot_low (Nat.lt_of_lt_of_le within limit)
    have source (v : Nat) (within : v * PGSIZE < sz) (there : present (pte m1 p (slot v)) = true) :
        pteFlags (pte m1 p (slot v)) = pteFlags (pte m p (slot v)) ∧
          m1.page (pteAddr (pte m1 p (slot v))) = m.page (pteAddr (pte m p (slot v))) := by
      rw [parent.entries] at there ⊢
      refine ⟨rfl, fresh.trade.others beside.sound ?_⟩
      exact mem_space.mpr (Or.inr (Or.inr (mem_users.mpr ⟨_, lowSlot v within, there, rfl⟩)))
    apply Ends.bind ((copyLoop_ends limit _ held1 enough source).excuse ?_)
    · rintro copied m2 ⟨success, failure⟩
      cases copied with
      | false =>
        obtain ⟨freed, short⟩ := failure rfl
        refine Ends.of_pure ⟨fun _ => ⟨fresh.trade.trans freed, fun need members => ?_⟩, nofun⟩
        have few := setupkvm_length fresh
        by_contra enough
        exact short need members (Roomy.of_length (by omega))
      | true =>
        obtain ⟨trade, grows⟩ := success rfl
        refine Ends.of_pure ⟨nofun, ?_⟩
        intro d' equal
        cases equal
        refine ⟨fresh.trade.trans trade, fun v within => grows.fresh v (Nat.zero_le v) within, ?_,
          m1, fresh, ?_⟩
        · intro s low outside
          rw [grows.kept s outside, fresh.empty s low]
        · intro s high
          apply grows.kept
          rintro ⟨v, _, within, rfl⟩
          rw [lowSlot v within] at high
          cases high
    · rintro _ (unsure | ⟨v, within, missing | ⟨_, taken⟩⟩)
      · exact Or.inl unsure
      · rw [parent.entries] at missing
        exact Or.inr ⟨v, within, missing⟩
      · rw [fresh.empty _ (lowSlot v within)] at taken
        cases taken

end Xv6.Memory
