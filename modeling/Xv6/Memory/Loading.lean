/-
Loading a program: the stores to user pages, `loaduvm`, and the segments of the file.

Each of them says which bytes it has written, and that all other bytes are as before.
-/

import Xv6.Memory.Images

namespace Xv6.Memory

open Library Library.Code

variable {layout : Layout} {sure : Prop} {m m' m1 m2 m3 : Mem} {d : Nat}

variable {n vpn sz sp offset count va len a : Nat} {source : Nat → UInt8} {file : File}

/-! ### Bytes -/

theorem byte_ofBytes (bytes : Nat → UInt8) {i : Nat} (inside : i < PGSIZE) :
    (Page.ofBytes bytes).byte i = bytes i := by
  simp only [PGSIZE] at inside
  have word : (Fin.ofNat NPTENTRIES (i / 4)).val = i / 4 := by
    change i / 4 % 1024 = i / 4
    omega
  have bound (j : Nat) := (bytes j).toNat_lt
  have first := bound (4 * (i / 4))
  have second := bound (4 * (i / 4) + 1)
  have third := bound (4 * (i / 4) + 2)
  have fourth := bound (4 * (i / 4) + 3)
  apply UInt8.toNat_inj.mp
  unfold Page.byte Page.ofBytes
  rw [UInt8.toNat_ofNat', word]
  have cases : i % 4 = 0 ∨ i % 4 = 1 ∨ i % 4 = 2 ∨ i % 4 = 3 := by omega
  rcases cases with rest | rest | rest | rest
  · rw [rest]
    have here : i = 4 * (i / 4) := by omega
    conv_rhs => rw [here]
    omega
  · rw [rest]
    have here : i = 4 * (i / 4) + 1 := by omega
    conv_rhs => rw [here]
    omega
  · rw [rest]
    have here : i = 4 * (i / 4) + 2 := by omega
    conv_rhs => rw [here]
    omega
  · rw [rest]
    have here : i = 4 * (i / 4) + 3 := by omega
    conv_rhs => rw [here]
    omega

theorem byte_write (page : Page) (offset n : Nat) (source : Nat → UInt8) {i : Nat}
    (inside : i < PGSIZE) :
    (page.write offset n source).byte i =
      if offset ≤ i ∧ i < offset + n then source (i - offset) else page.byte i :=
  byte_ofBytes _ inside

/-! ### Stores to user pages -/

/-- Only the contents of user pages have changed. -/
structure Writes (m m' : Mem) (d : Nat) : Prop where
  trade : Trades m m' (space m d) (space m' d)
  same : SameSpace m m' d

theorem Writes.refl (m : Mem) (d : Nat) : Writes m m d :=
  ⟨Trades.refl _ _, rfl, rfl⟩

theorem Writes.trans (first : Writes m1 m2 d) (second : Writes m2 m3 d) :
    Writes m1 m3 d :=
  ⟨first.trade.trans second.trade, first.same.trans second.same⟩

section Writes

variable (writes : Writes m m' d)
include writes

theorem Writes.sound (sound : m.Sound (space m d)) : m'.Sound (space m' d) :=
  writes.trade.sound sound

theorem Writes.kernel (only : KernelOnly m d) : KernelOnly m' d := by
  intro s high
  rw [writes.same.entries]
  exact only s high

theorem Writes.sized (sized : Exact layout sure m d sz) : Exact layout sure m' d sz := by
  refine ⟨sized.held.trade writes.trade, sized.bound, ?_⟩
  rw [writes.same.entries]
  exact sized.mapped

end Writes

theorem writes_setPage (sound : m.Sound (space m d)) (member : n ∈ users m d) (page : Page) :
    Writes m (m.setPage n page) d := by
  obtain ⟨notDir, notTable⟩ := user_not_table sound.nodup member
  obtain ⟨dir, entries⟩ := pte_setPage_outside page notDir notTable
  have same : SameSpace m (m.setPage n page) d := ⟨dir, entries⟩
  refine ⟨?_, same⟩
  rw [same.pages]
  exact Store.trades_setPage (mem_space.mpr (Or.inr (Or.inr member))) page

theorem store_ok (sound : m.Sound (space m d)) (member : n ∈ users m d)
    (ran : store layout n offset count source m = .ok ((), m')) : Writes m m' d := by
  unfold store at ran
  split at ran
  · cases ran
  · cases ran
    exact writes_setPage sound member _

theorem store_eq (managed : layout.Manages n) (offset count : Nat) (source : Nat → UInt8) :
    store layout n offset count source m =
      .ok ((), m.setPage n ((m.page n).write offset count source)) := by
  have order := layout.data_before_end
  obtain ⟨above, below⟩ := managed
  unfold store
  rw [if_neg (by omega)]

/-- The bytes from `va` on are those of the source, and all others are as before. -/
def Puts (m m' : Mem) (d va len : Nat) (source : Nat → UInt8) : Prop :=
  ∀ a, a < KERNBASE → userByte m' d a =
    if va ≤ a ∧ a < va + len then some (source (a - va)) else userByte m d a

theorem Puts.refl (m : Mem) (d va : Nat) (source : Nat → UInt8) : Puts m m d va 0 source := by
  intro a _
  rw [if_neg (by omega)]

theorem Puts.trans {next : Nat} (first : Puts m m1 d va count source)
    (second : Puts m1 m' d next len (fun i => source (i + count)))
    (adjacent : len = 0 ∨ next = va + count) : Puts m m' d va (count + len) source := by
  intro a below
  rw [second a below, first a below]
  rcases adjacent with rfl | rfl
  · rw [if_neg (by omega), Nat.add_zero]
  by_cases late : va + count ≤ a ∧ a < va + count + len
  · have index : a - (va + count) + count = a - va := by omega
    rw [if_pos late, if_pos (by omega)]
    change some (source (a - (va + count) + count)) = _
    rw [index]
  · rw [if_neg late]
    by_cases early : va ≤ a ∧ a < va + count
    · rw [if_pos early, if_pos (by omega)]
    · rw [if_neg early, if_neg (by omega)]

theorem puts_setPage {v : Nat} (sound : m.Sound (space m d)) (below : v * PGSIZE < KERNBASE)
    (there : present (pte m d (slot v)) = true) (addr : pteAddr (pte m d (slot v)) = n)
    (fits : offset + count ≤ PGSIZE) :
    Writes m (m.setPage n ((m.page n).write offset count source)) d ∧
      Puts m (m.setPage n ((m.page n).write offset count source)) d (v * PGSIZE + offset) count
        source := by
  have member : n ∈ users m d := mem_users.mpr ⟨_, slot_low below, there, addr.symm⟩
  have writes := writes_setPage sound member ((m.page n).write offset count source)
  refine ⟨writes, ?_⟩
  intro a bound
  have rest := Nat.mod_lt a (by decide : 0 < PGSIZE)
  by_cases here : a / PGSIZE = v
  · subst v
    rw [userByte_some (by rw [writes.same.entries]; exact there), userByte_some there,
      writes.same.entries, addr, m.setPage_self, byte_write _ _ _ _ rest]
    have range : (a / PGSIZE * PGSIZE + offset ≤ a ∧ a < a / PGSIZE * PGSIZE + offset + count) ↔
        offset ≤ a % PGSIZE ∧ a % PGSIZE < offset + count := by
      simp only [PGSIZE]
      omega
    have index : a - (a / PGSIZE * PGSIZE + offset) = a % PGSIZE - offset := by
      simp only [PGSIZE]
      omega
    simp only [range, index]
    split <;> rfl
  · have outside : ¬(v * PGSIZE + offset ≤ a ∧ a < v * PGSIZE + offset + count) := by
      simp only [PGSIZE] at here fits ⊢
      omega
    rw [if_neg outside]
    apply userByte_congr (congrFun writes.same.entries _)
    intro mapped
    apply m.setPage_other
    intro same
    have nodup : (users m d).Nodup := (Multiset.nodup_add.mp sound.nodup).2.1
    have slots := gather_injective nodup (mem_lowSlots.mpr (slot_low (page_below bound)))
      (mem_lowSlots.mpr (slot_low below)) mapped there (same.trans addr.symm)
    have boundA : a / PGSIZE < 1048576 := by
      simp only [PGSIZE, KERNBASE] at bound ⊢
      omega
    have boundV : v < 1048576 := by
      simp only [PGSIZE, KERNBASE] at below
      omega
    exact here (slot_injective boundA boundV slots)

theorem store_user {v : Nat} (source : Nat → UInt8) (held : Held layout sure m (space m d))
    (below : v * PGSIZE < KERNBASE) (there : present (pte m d (slot v)) = true)
    (fits : offset + count ≤ PGSIZE) :
    (store layout (pteAddr (pte m d (slot v))) offset count source).Ends m
      (fun cause => ¬sure ∧ cause = .panic .trap)
      (fun _ m' => Writes m m' d ∧ Puts m m' d (v * PGSIZE + offset) count source ∧
        m' = m.setPage (pteAddr (pte m d (slot v)))
          ((m.page (pteAddr (pte m d (slot v)))).write offset count source)) := by
  have member := mem_users.mpr ⟨_, slot_low below, there, rfl⟩
  have order := layout.data_before_end
  by_cases outside : pteAddr (pte m d (slot v)) < layout.data ∨
      PHYSTOP / PGSIZE ≤ pteAddr (pte m d (slot v))
  · unfold Ends store
    rw [if_pos outside]
    refine ⟨fun known => ?_, rfl⟩
    have inside := held.manages (mem_space.mpr (Or.inr (Or.inr member))) known
    unfold Layout.Manages at inside
    omega
  · obtain ⟨writes, puts⟩ := @puts_setPage _ _ _ _ _ source _ held.sound below there rfl fits
    exact Ends.of_ok (if_neg outside) ⟨writes, puts, rfl⟩

/-! ### `loaduvm` -/

theorem loadLoop_ends {addr : Nat} (inside : addr + len ≤ sz) (aligned : addr % PGSIZE = 0)
    (fuel : Nat) :
    ∀ {m : Mem} {i : Nat}, Exact layout sure m d sz → i % PGSIZE = 0 → len ≤ i + fuel →
      (i < len → offset + i < UINT) →
      (loadLoop layout d addr file offset len fuel i).Ends m (fun _ => ¬sure)
        (fun loaded m' => Writes m m' d ∧ (loaded = true →
          Puts m m' d (addr + i) (len - i) (fun j => file.byte (offset + i + j)))) := by
  induction fuel with
  | zero =>
    intro m i sized aligned' enough start
    rw [Nat.sub_eq_zero_of_le (show len ≤ i from enough)]
    exact Ends.of_pure ⟨Writes.refl _ _, fun _ => Puts.refl _ _ _ _⟩
  | succ fuel ih =>
    intro m i sized aligned' enough start
    unfold loadLoop
    by_cases within : i < len
    · rw [if_pos within]
      have limit := sized.bound
      have page : (addr + i) % UINT / PGSIZE * PGSIZE = addr + i := by
        simp only [UINT, PGSIZE, KERNBASE] at aligned aligned' limit ⊢
        omega
      have below : (addr + i) % UINT / PGSIZE * PGSIZE < sz := by omega
      have there := (sized.mapped _ (Nat.lt_of_lt_of_le below limit)).mpr below
      apply Ends.bind_of_ok (walkpgdir_present false (table_present there))
      apply Ends.bind_of_ok (getEntry_ok (table_present there))
      have offsetEq : (offset + i) % UINT = offset + i := Nat.mod_eq_of_lt (start within)
      rw [offsetEq]
      dsimp only
      generalize chunk : (if len - i < PGSIZE then len - i else PGSIZE) = k
      have chunkLe : k ≤ PGSIZE ∧ k ≤ len - i ∧ (k = PGSIZE ∨ k = len - i) := by
        rw [← chunk]
        split <;> omega
      cases delivered : file.readi (offset + i) k with
      | none => exact Ends.of_pure ⟨Writes.refl _ _, nofun⟩
      | some count =>
        have read : count ≤ k ∧ offset + i + k < UINT := by
          unfold File.readi at delivered
          split at delivered
          · cases delivered
          · rename_i fits
            have equal := Option.some.inj delivered
            split at equal <;> omega
        apply Ends.bind ((store_user (fun j => file.byte (offset + i + j)) sized.held
          (Nat.lt_of_lt_of_le below limit) there (by omega : 0 + count ≤ PGSIZE)).excuse
            (fun _ => And.left))
        rintro _ m1 ⟨writes, puts, _⟩
        by_cases all : count = k
        · rw [if_pos all]
          rw [page, Nat.add_zero] at puts
          subst count
          have next : i + PGSIZE < len → offset + (i + PGSIZE) < UINT := by omega
          have aligned2 : (i + PGSIZE) % PGSIZE = 0 := by
            simp only [PGSIZE] at aligned' ⊢
            omega
          apply (ih (writes.sized sized) aligned2 (by simp only [PGSIZE]; omega) next).mono
          rintro loaded m' ⟨more, rest⟩
          refine ⟨writes.trans more, fun success => ?_⟩
          have sum : len - i = k + (len - (i + PGSIZE)) := by omega
          rw [sum]
          apply puts.trans ?_ (by omega : len - (i + PGSIZE) = 0 ∨ addr + (i + PGSIZE) = addr + i + k)
          intro a bound
          rw [rest success a bound]
          by_cases last : len - (i + PGSIZE) = 0
          · rw [last, if_neg (by omega), if_neg (by omega)]
          · have order (j : Nat) : offset + (i + PGSIZE) + j = offset + i + (j + k) := by omega
            simp only [order]
        · rw [if_neg all]
          exact Ends.of_pure ⟨writes, nofun⟩
    · rw [if_neg within, Nat.sub_eq_zero_of_le (Nat.le_of_not_lt within)]
      exact Ends.of_pure ⟨Writes.refl _ _, fun _ => Puts.refl _ _ _ _⟩

theorem loaduvm_ends {addr : Nat} (inside : addr + len ≤ sz) (aligned : addr % PGSIZE = 0)
    (small : offset < UINT) (sized : Exact layout sure m d sz) :
    (loaduvm layout d addr file offset len).Ends m (fun _ => ¬sure)
      (fun loaded m' => Writes m m' d ∧ (loaded = true →
        Puts m m' d addr len (fun j => file.byte (offset + j)))) := by
  unfold loaduvm
  rw [if_neg (not_not_intro aligned)]
  exact loadLoop_ends (i := 0) inside aligned len sized rfl (by omega) (fun _ => small)

/-! ### The segments -/

/-- The program headers that `exec` loads, in the order of the file. -/
def File.loads (file : File) : Nat → Nat → List ProgHdr
  | 0, _ => []
  | count + 1, off =>
    if (file.progHdr off).type = ELF_PROG_LOAD then
      file.progHdr off :: file.loads count ((off + 32) % UINT)
    else file.loads count ((off + 32) % UINT)

/-- The byte of the file that belongs to an address; later segments come over earlier ones. -/
def segmentByte (file : File) : List ProgHdr → Nat → Option UInt8
  | [], _ => none
  | ph :: rest, a => (segmentByte file rest a).or
      (if ph.vaddr ≤ a ∧ a < ph.vaddr + ph.filesz then some (file.byte (ph.off + (a - ph.vaddr)))
      else none)

/-- The largest end of a segment, from `sz` on. -/
def imageEnd (segments : List ProgHdr) (sz : Nat) : Nat :=
  segments.foldl (fun sz ph => max sz (ph.vaddr + ph.memsz)) sz

theorem le_imageEnd (segments : List ProgHdr) : ∀ sz, sz ≤ imageEnd segments sz := by
  induction segments with
  | nil => exact Nat.le_refl
  | cons ph rest ih =>
    intro sz
    exact Nat.le_trans (Nat.le_max_left _ _) (ih (max sz (ph.vaddr + ph.memsz)))

theorem PGROUNDUP_mono {small large : Nat} (le : small ≤ large) :
    PGROUNDUP small ≤ PGROUNDUP large := by
  simp only [PGROUNDUP, PGSIZE]
  omega

/-- The address space has changed in its user part only. -/
structure Holds (m m' : Mem) (d : Nat) : Prop where
  trade : Trades m m' (space m d) (space m' d)
  high : ∀ s : Slot, s.low = false → pte m' d s = pte m d s
  dir : ∀ i : Fin NPTENTRIES, 512 ≤ i.val → m'.page d i = m.page d i

theorem Holds.refl (m : Mem) (d : Nat) : Holds m m d :=
  ⟨Trades.refl _ _, fun _ _ => rfl, fun _ _ => rfl⟩

theorem Holds.trans (first : Holds m1 m2 d) (second : Holds m2 m3 d) : Holds m1 m3 d :=
  ⟨first.trade.trans second.trade, fun s high => (second.high s high).trans (first.high s high),
    fun i high => (second.dir i high).trans (first.dir i high)⟩

theorem Holds.kernel (holds : Holds m m' d) (only : KernelOnly m d) : KernelOnly m' d := by
  intro s high
  rw [holds.high s high]
  exact only s high

theorem Writes.holds (writes : Writes m m' d) : Holds m m' d :=
  ⟨writes.trade, fun s _ => congrFun writes.same.entries s,
    fun i _ => congrFun writes.same.dir i⟩

theorem Allocates.holds {oldsz newsz result : Nat}
    (allocates : Allocates m m' d oldsz newsz result) : Holds m m' d :=
  ⟨allocates.trade, allocates.high.1, allocates.high.2⟩

/-- The segments have been loaded: their bytes, what was there before, and zeros. -/
structure Loaded (layout : Layout) (sure : Prop) (file : File) (segments : List ProgHdr) (m m' : Mem)
    (d sz sz' : Nat) : Prop where
  sized : Exact layout sure m' d sz'
  size : sz' = imageEnd segments sz
  fits : ∀ ph ∈ segments, ph.filesz ≤ ph.memsz
  bytes : ∀ a, a < KERNBASE → userByte m' d a = (segmentByte file segments a).or
    (if a < PGROUNDUP sz then userByte m d a else if a < PGROUNDUP sz' then some 0 else none)

theorem uint_lt (file : File) (off : Nat) : file.uint off < UINT := by
  have bound (i : Nat) := (file.byte i).toNat_lt
  have first := bound off
  have second := bound (off + 1)
  have third := bound (off + 2)
  have fourth := bound (off + 2 + 1)
  simp only [File.uint, File.ushort, UINT]
  omega

/-- One segment, and then the others. -/
theorem Loaded.cons {segments : List ProgHdr} {ph : ProgHdr} {sz' : Nat}
    (bytes1 : ∀ a, a < KERNBASE → userByte m1 d a = if a < PGROUNDUP sz then userByte m d a
      else if a < PGROUNDUP (ph.vaddr + ph.memsz) then some 0 else none)
    (puts : Puts m1 m2 d ph.vaddr ph.filesz (fun j => file.byte (ph.off + j)))
    (fits : ph.filesz ≤ ph.memsz)
    (rest : Loaded layout sure file segments m2 m' d (max sz (ph.vaddr + ph.memsz)) sz') :
    Loaded layout sure file (ph :: segments) m m' d sz sz' := by
  refine ⟨rest.sized, rest.size, ?_, ?_⟩
  · intro other member
    rcases List.mem_cons.mp member with rfl | later
    · exact fits
    · exact rest.fits other later
  · intro a below
    rw [rest.bytes a below, segmentByte, Option.or_assoc]
    congr 1
    have bound : max sz (ph.vaddr + ph.memsz) ≤ sz' := rest.size ▸ le_imageEnd _ _
    have grows := PGROUNDUP_mono bound
    have old := PGROUNDUP_mono (Nat.le_max_left sz (ph.vaddr + ph.memsz))
    have new := PGROUNDUP_mono (Nat.le_max_right sz (ph.vaddr + ph.memsz))
    have whole : PGROUNDUP (max sz (ph.vaddr + ph.memsz)) = PGROUNDUP sz ∨
        PGROUNDUP (max sz (ph.vaddr + ph.memsz)) = PGROUNDUP (ph.vaddr + ph.memsz) := by
      rcases Nat.le_total sz (ph.vaddr + ph.memsz) with le | le
      · exact Or.inr (by rw [Nat.max_eq_right le])
      · exact Or.inl (by rw [Nat.max_eq_left le])
    rw [puts a below, bytes1 a below]
    by_cases inside : ph.vaddr ≤ a ∧ a < ph.vaddr + ph.filesz
    · have under : a < PGROUNDUP (ph.vaddr + ph.memsz) := by
        simp only [PGROUNDUP, PGSIZE]
        omega
      rw [if_pos (Nat.lt_of_lt_of_le under new), if_pos inside, if_pos inside]
      rfl
    · rw [if_neg inside, if_neg inside, Option.none_or]
      by_cases low : a < PGROUNDUP sz
      · rw [if_pos (Nat.lt_of_lt_of_le low old), if_pos low, if_pos low]
      · rw [if_neg low, if_neg low]
        by_cases under : a < PGROUNDUP (ph.vaddr + ph.memsz)
        · rw [if_pos (Nat.lt_of_lt_of_le under new), if_pos under, if_pos (by omega)]
        · rw [if_neg (by omega)]

theorem loadSegments_ends (count : Nat) :
    ∀ {m : Mem} {off sz : Nat}, Exact layout sure m d sz →
      (loadSegments layout d file count off sz).Ends m (fun _ => ¬sure)
        (fun result m' => Holds m m' d ∧ ∀ sz', result = some sz' →
          Loaded layout sure file (file.loads count off) m m' d sz sz') := by
  induction count with
  | zero =>
    intro m off sz sized
    refine Ends.of_pure ⟨Holds.refl _ _, ?_⟩
    intro sz' equal
    cases equal
    refine ⟨sized, rfl, nofun, ?_⟩
    intro a below
    rw [File.loads, segmentByte, Option.none_or]
    by_cases under : a < PGROUNDUP sz
    · rw [if_pos under]
    · rw [if_neg under, if_neg under]
      apply userByte_none
      rw [lt_PGROUNDUP_iff] at under
      rw [← Bool.not_eq_true, sized.mapped _ (page_below below)]
      exact under
  | succ count ih =>
    intro m off sz sized
    unfold loadSegments File.loads
    split
    · exact Ends.of_pure ⟨Holds.refl _ _, nofun⟩
    · dsimp only
      by_cases loads : (file.progHdr off).type = ELF_PROG_LOAD
      · rw [if_neg (not_not_intro loads), if_pos loads]
        have small : (file.progHdr off).off < UINT := uint_lt file _
        generalize file.progHdr off = ph at small ⊢
        split
        · exact Ends.of_pure ⟨Holds.refl _ _, nofun⟩
        · rename_i fits
          split
          · exact Ends.of_pure ⟨Holds.refl _ _, nofun⟩
          · apply Ends.bind (sized.allocuvm_ends (ph.vaddr + ph.memsz))
            intro result m1 allocates
            by_cases failed : result = 0
            · rw [if_pos failed]
              exact Ends.of_pure ⟨allocates.holds, nofun⟩
            · rw [if_neg failed]
              obtain ⟨sized1, bytes1⟩ := sized.grown allocates failed
              have size := (allocates.success failed).2.1
              split
              · exact Ends.of_pure ⟨allocates.holds, nofun⟩
              · rename_i aligned
                rw [not_not] at aligned
                have inside : ph.vaddr + ph.filesz ≤ result := by omega
                apply Ends.bind (loaduvm_ends inside aligned small sized1)
                rintro loaded m2 ⟨writes, puts⟩
                have first := allocates.holds.trans writes.holds
                cases loaded with
                | false => exact Ends.of_pure ⟨first, nofun⟩
                | true =>
                  apply (ih (writes.sized sized1)).mono
                  rintro result' m' ⟨rest, done⟩
                  refine ⟨first.trans rest, ?_⟩
                  intro sz' equal
                  have loaded := done sz' equal
                  rw [size] at loaded
                  exact Loaded.cons bytes1 (puts rfl) (Nat.le_of_not_lt fits) loaded
      · rw [if_pos loads, if_neg loads]
        exact ih sized

end Xv6.Memory
