/-
`exec`: the guard page, the arguments on the stack, and the image as a whole.

Nothing of this panics, whatever the file and the arguments are, as long as no lookup of
`uva2ka` misses a page table.
-/

import Xv6.Memory.Loading

namespace Xv6.Memory

open Function Library Library.Code

variable {layout : Layout} {sure : Prop} {m m' m1 m2 : Mem} {d : Nat}

variable {n vpn sz sp va len : Nat} {file : File} {argv : List Str}

/-! ### The guard page -/

/-- The page may no longer be used by user code; nothing else changes. -/
structure Closes (m m' : Mem) (d vpn : Nat) : Prop where
  trade : Trades m m' (space m d) (space m' d)
  dir : m'.page d = m.page d
  closed : user (pte m' d (slot vpn)) = false
  kept : ∀ s, s ≠ slot vpn → pte m' d s = pte m d s
  mapped : ∀ s, present (pte m' d s) = present (pte m d s)
  bytes : ∀ a, a < KERNBASE → userByte m' d a = userByte m d a

theorem clear_user (w : Nat) : user (if user w then w - PTE_U else w) = false ∧
    present (if user w then w - PTE_U else w) = present w ∧
    pteAddr (if user w then w - PTE_U else w) = pteAddr w := by
  by_cases allowed : user w = true
  · rw [if_pos allowed]
    have flag (w : Nat) : w.testBit 2 = decide (w / 4 % 2 = 1) :=
      Nat.testBit_eq_decide_div_mod_eq
    unfold user at allowed ⊢
    rw [flag, decide_eq_true_eq] at allowed
    have parity : (w - PTE_U) % 2 = w % 2 := by
      simp only [PTE_U]
      omega
    unfold present pteAddr
    rw [flag, decide_eq_false_iff_not, Nat.testBit_zero, Nat.testBit_zero, parity]
    simp only [PTE_U, PGSIZE, true_and]
    omega
  · rw [if_neg allowed]
    exact ⟨Bool.eq_false_iff.mpr allowed, rfl, rfl⟩

theorem clearpteu_ends (sound : m.Sound (space m d)) (low : (slot vpn).low = true)
    (there : present (pte m d (slot vpn)) = true) :
    (clearpteu d vpn).Ends m (fun _ => False) (fun _ m' => Closes m m' d vpn) := by
  have table := table_present there
  unfold clearpteu
  apply Ends.bind_of_ok (walkpgdir_present false table)
  apply Ends.bind_of_ok (getEntry_ok table)
  apply Ends.of_ok rfl
  obtain ⟨closed, still, addr⟩ := clear_user (pte m d (slot vpn))
  generalize (if user (pte m d (slot vpn)) then _ else _) = w at closed still addr ⊢
  obtain ⟨dir, entries⟩ := pte_setEntry sound.nodup (slot vpn) table rfl w
  change Closes m (m.setPage (pteAddr (m.page d (slot vpn).1))
    (update (m.page (pteAddr (m.page d (slot vpn).1))) (slot vpn).2 w)) d vpn
  generalize result : m.setPage _ _ = after at dir entries ⊢
  have pages := space_update dir entries
  rw [Slot.share_low low, Slot.share_low low, entry_of_present there,
    entry_of_present (still.trans there), addr] at pages
  have mapped (s : Slot) : present (pte after d s) = present (pte m d s) ∧
      pteAddr (pte after d s) = pteAddr (pte m d s) := by
    rw [entries]
    by_cases here : s = slot vpn
    · rw [here, update_self]
      exact ⟨still, addr⟩
    · rw [update_of_ne here]
      exact ⟨rfl, rfl⟩
  refine ⟨?_, dir, ?_, ?_, fun s => (mapped s).1, ?_⟩
  · rw [add_right_cancel pages, ← result]
    exact Store.trades_setPage (table_mem_space table) _
  · rw [entries, update_self]
    exact closed
  · intro s different
    rw [entries, update_of_ne different]
  · intro a below
    unfold userByte
    rw [(mapped _).1, (mapped _).2]
    split
    · rename_i found
      have member := mem_users.mpr ⟨_, slot_low (page_below below), found, rfl⟩
      rw [← result, m.setPage_other]
      intro same
      exact (user_not_table sound.nodup member).2 (mem_tables.mpr ⟨PDX vpn, table, same⟩)
    · rfl

/-! ### `copyout` -/

/-- Only bytes of user pages at the addresses from `va` on have changed. -/
def Overwrites (m m' : Mem) (d va len : Nat) : Prop :=
  ∀ n offset, offset < PGSIZE → (m'.page n).byte offset ≠ (m.page n).byte offset →
    ∃ a, va ≤ a ∧ a < va + len ∧ a % PGSIZE = offset ∧
      present (pte m d (slot (a / PGSIZE))) = true ∧ user (pte m d (slot (a / PGSIZE))) = true ∧
      pteAddr (pte m d (slot (a / PGSIZE))) = n

theorem Overwrites.refl (m : Mem) (d va len : Nat) : Overwrites m m d va len :=
  fun _ _ _ changed => absurd rfl changed

theorem overwrites_store {va count : Nat} (source : Nat → UInt8)
    (there : present (pte m d (slot (va / PGSIZE))) = true)
    (allowed : user (pte m d (slot (va / PGSIZE))) = true)
    (addr : pteAddr (pte m d (slot (va / PGSIZE))) = n) :
    Overwrites m (m.setPage n ((m.page n).write (va % PGSIZE) count source)) d va count := by
  intro n' offset inside changed
  by_cases same : n' = n
  · subst n'
    rw [m.setPage_self, byte_write _ _ _ _ inside] at changed
    split at changed
    · rename_i range
      have parts := Nat.div_add_mod va PGSIZE
      have address : va - va % PGSIZE + offset = va / PGSIZE * PGSIZE + offset := by
        rw [Nat.mul_comm]
        omega
      have page : (va - va % PGSIZE + offset) / PGSIZE = va / PGSIZE := by
        rw [address]
        simp only [PGSIZE] at inside ⊢
        omega
      refine ⟨va - va % PGSIZE + offset, by omega, by omega, ?_, ?_, ?_, ?_⟩
      · rw [address]
        simp only [PGSIZE] at inside ⊢
        omega
      · rw [page]
        exact there
      · rw [page]
        exact allowed
      · rw [page]
        exact addr
    · exact absurd rfl changed
  · rw [m.setPage_other same] at changed
    exact absurd rfl changed

theorem Overwrites.trans {va count va1 len1 len : Nat} (same : SameSpace m m1 d)
    (first : Overwrites m m1 d va count) (second : Overwrites m1 m' d va1 len1)
    (covers : ∀ a, va ≤ a ∧ a < va + count ∨ va1 ≤ a ∧ a < va1 + len1 → va ≤ a ∧ a < va + len) :
    Overwrites m m' d va len := by
  intro n offset inside changed
  by_cases early : (m1.page n).byte offset = (m.page n).byte offset
  · obtain ⟨a, low, high, rest⟩ := second n offset inside (by rw [early]; exact changed)
    rw [same.entries] at rest
    exact ⟨a, (covers a (Or.inr ⟨low, high⟩)).1, (covers a (Or.inr ⟨low, high⟩)).2, rest⟩
  · obtain ⟨a, low, high, rest⟩ := first n offset inside early
    exact ⟨a, (covers a (Or.inl ⟨low, high⟩)).1, (covers a (Or.inl ⟨low, high⟩)).2, rest⟩

theorem uva2ka_eq {null : Op Nat} (there : present (m.page d (PDX vpn)) = true) :
    uva2ka null d vpn m = .ok (if present (pte m d (slot vpn)) = true ∧
      user (pte m d (slot vpn)) = true then some (pteAddr (pte m d (slot vpn))) else none, m) := by
  have looked : lookup null d vpn m = .ok (pte m d (slot vpn), m) := by
    unfold lookup
    rw [bind_ok (walkpgdir_present false there)]
    exact getEntry_ok there
  unfold uva2ka
  rw [bind_ok looked]
  by_cases mapped : present (pte m d (slot vpn)) = true
  · rw [if_pos mapped]
    by_cases allowed : user (pte m d (slot vpn)) = true
    · rw [if_pos allowed, if_pos ⟨mapped, allowed⟩]
      rfl
    · rw [if_neg allowed, if_neg (fun both => allowed both.2)]
      rfl
  · rw [if_neg mapped, if_neg (fun both => mapped both.1)]
    rfl

theorem uva2ka_stops (missing : present (m.page d (PDX vpn)) = false) :
    uva2ka (Code.stop .missingTable) d vpn m = .error .missingTable := by
  have looked : lookup (Code.stop .missingTable) d vpn m = .error .missingTable := by
    unfold lookup
    rw [bind_ok (walkpgdir_absent missing)]
    rfl
  unfold uva2ka
  change (lookup _ _ _ m >>= _) = _
  rw [looked]
  rfl

theorem below_of_user (only : KernelOnly m d) (small : va < UINT)
    (allowed : user (pte m d (slot (va / PGSIZE))) = true) : va < KERNBASE := by
  by_contra high
  rw [only] at allowed
  · cases allowed
  · unfold Slot.low
    rw [decide_eq_false_iff_not, Nat.not_lt]
    simp only [KERNBASE, UINT] at high small
    change 512 ≤ va / 4096 / 1024 % 1024
    omega

/-- All bytes have been copied, to pages that user code may use. -/
structure Copies (m m' : Mem) (d va len : Nat) (source : Nat → UInt8) : Prop where
  bound : len = 0 ∨ va + len ≤ KERNBASE
  user : ∀ a, va ≤ a → a < va + len → user (pte m d (slot (a / PGSIZE))) = true
  puts : Puts m m' d va len source

theorem copyoutLoop_ends (fuel : Nat) :
    ∀ {m : Mem} {va len : Nat} {source : Nat → UInt8}, Held layout sure m (space m d) →
      KernelOnly m d → va < UINT →
      (copyoutLoop layout (Code.stop .missingTable) d fuel va len source).Ends m
        (fun cause => (¬sure ∧ cause = .panic .trap) ∨ cause = .missingTable ∧
          ∃ a, va ≤ a ∧ a < va + len ∧ present (m.page d (PDX (a / PGSIZE))) = false)
        (fun copied m' => Writes m m' d ∧ Overwrites m m' d va len ∧
          (copied = true → len ≤ fuel → Copies m m' d va len source)) := by
  have nothing (m : Mem) (va : Nat) (source : Nat → UInt8) : Copies m m d va 0 source :=
    ⟨Or.inl rfl, fun a low high => absurd high (Nat.not_lt.mpr low), Puts.refl m d va source⟩
  induction fuel with
  | zero =>
    intro m va len source held only small
    refine Ends.of_pure ⟨Writes.refl m d, Overwrites.refl m d va len, fun _ none => ?_⟩
    rw [Nat.le_zero.mp none]
    exact nothing m va source
  | succ fuel ih =>
    intro m va len source held only small
    unfold copyoutLoop
    by_cases more : 0 < len
    · rw [if_pos more]
      cases table : present (m.page d (PDX (va / PGSIZE))) with
      | false =>
        exact Ends.bind_of_error (uva2ka_stops table)
          (Or.inr ⟨rfl, va, Nat.le_refl _, by omega, table⟩)
      | true =>
        apply Ends.bind_of_ok (uva2ka_eq table)
        by_cases allowed : present (pte m d (slot (va / PGSIZE))) = true ∧
            user (pte m d (slot (va / PGSIZE))) = true
        · rw [if_pos allowed]
          dsimp only
          have below := below_of_user only small allowed.2
          generalize counted : min (PGSIZE - va % PGSIZE) len = count
          have rest := Nat.mod_lt va (by decide : 0 < PGSIZE)
          have fits : va % PGSIZE + count ≤ PGSIZE := by omega
          apply Ends.bind ((store_user source held (page_below below) allowed.1 fits).excuse
            (fun _ => Or.inl))
          rintro _ m1 ⟨writes, puts, result⟩
          have parts := Nat.div_add_mod' va PGSIZE
          have wrote : Overwrites m m1 d va count := by
            rw [result]
            exact overwrites_store source allowed.1 allowed.2 rfl
          rw [parts] at puts
          have top : va / PGSIZE * PGSIZE + PGSIZE ≤ KERNBASE := by
            simp only [PGSIZE, KERNBASE] at below ⊢
            omega
          have next : (va / PGSIZE * PGSIZE + PGSIZE) % UINT = va / PGSIZE * PGSIZE + PGSIZE :=
            Nat.mod_eq_of_lt (Nat.lt_of_le_of_lt top (by decide))
          rw [next]
          apply (ih (held.trade writes.trade) (writes.kernel only)
            (Nat.lt_of_le_of_lt top (by decide))).of_ran
          · rintro _ _ (trapped | ⟨rfl, a, low, high, missing⟩)
            · exact Or.inl trapped
            · rw [writes.same.dir] at missing
              exact Or.inr ⟨rfl, a, by omega, by omega, missing⟩
          · rintro copied m' _ ⟨later, wrote1, all⟩
            refine ⟨writes.trans later, wrote.trans writes.same wrote1 (by omega), ?_⟩
            intro success enough
            have copies := all success (by omega)
            refine ⟨?_, ?_, ?_⟩
            · have bound := copies.bound
              omega
            · intro a low high
              by_cases here : a < va + count
              · have page : a / PGSIZE = va / PGSIZE := by
                  simp only [PGSIZE] at low here fits ⊢
                  omega
                rw [page]
                exact allowed.2
              · have accessible := copies.user a (by omega) (by omega)
                rw [writes.same.entries] at accessible
                exact accessible
            · have sum : len = count + (len - count) := by omega
              rw [sum]
              exact puts.trans copies.puts (by omega)
        · rw [if_neg allowed]
          exact Ends.of_pure ⟨Writes.refl m d, Overwrites.refl m d va len, nofun⟩
    · rw [if_neg more]
      obtain rfl : len = 0 := by omega
      exact Ends.of_pure ⟨Writes.refl m d, Overwrites.refl m d va 0, fun _ _ => nothing m va source⟩

theorem copyout_ends {source : Nat → UInt8} (held : Held layout sure m (space m d))
    (only : KernelOnly m d) (small : va < UINT) :
    (copyout layout (Code.stop .missingTable) d va source len).Ends m
      (fun cause => ¬sure ∨ cause = .missingTable) (fun copied m' => Writes m m' d ∧
        (copied = true → Copies m m' d va len source)) :=
  (copyoutLoop_ends len held only small).of_ran (fun _ _ stopped => stopped.imp And.left And.left)
    (fun _ _ _ ⟨writes, _, all⟩ => ⟨writes, fun success => all success (Nat.le_refl _)⟩)

/-! ### The arguments -/

/-- Bytes that user code can read. -/
def HasBytes (m : Mem) (d a len : Nat) (source : Nat → UInt8) : Prop :=
  ∀ x, a ≤ x → x < a + len → user (pte m d (slot (x / PGSIZE))) = true ∧
    userByte m d x = some (source (x - a))

theorem Copies.hasBytes {source : Nat → UInt8} (copies : Copies m m' d va len source)
    (writes : Writes m m' d) : HasBytes m' d va len source := by
  intro x low high
  have below : x < KERNBASE := by
    have bound := copies.bound
    omega
  rw [writes.same.entries, copies.puts x below, if_pos ⟨low, high⟩]
  exact ⟨copies.user x low high, rfl⟩

theorem HasBytes.writes {source : Nat → UInt8} {a : Nat} (has : HasBytes m d a len source)
    (writes : Writes m m' d)
    (same : ∀ x, a ≤ x → x < a + len → userByte m' d x = userByte m d x) :
    HasBytes m' d a len source := by
  intro x low high
  rw [writes.same.entries, same x low high]
  exact has x low high

/-- The bytes of a string with its NUL. -/
def Str.bytes (arg : Str) (i : Nat) : UInt8 := if i < arg.len then arg.byte i else 0

/-- Copies of the strings, each below the one before it, from `sp` down to `last`. -/
def Pushed (m : Mem) (d : Nat) : List Str → List Nat → Nat → Nat → Prop
  | [], addrs, sp, last => addrs = [] ∧ last = sp
  | _ :: _, [], _, _ => False
  | arg :: rest, a :: addrs, sp, last => a % 4 = 0 ∧
      (a + (arg.len + 1) ≤ sp ∧ sp < a + (arg.len + 1) + 4) ∧
      HasBytes m d a (arg.len + 1) arg.bytes ∧ Pushed m d rest addrs a last

theorem Pushed.le (argv : List Str) : ∀ {addrs : List Nat} {sp last : Nat},
    Pushed m d argv addrs sp last → last ≤ sp := by
  induction argv with
  | nil =>
    rintro addrs sp last ⟨_, rfl⟩
    exact Nat.le_refl _
  | cons arg rest ih =>
    intro addrs sp last pushed
    cases addrs with
    | nil => exact pushed.elim
    | cons a addrs =>
      obtain ⟨_, below, _, strings⟩ := pushed
      have lower := ih strings
      omega

theorem Pushed.writes (writes : Writes m m' d) (argv : List Str) :
    ∀ {addrs : List Nat} {sp last : Nat}, Pushed m d argv addrs sp last → sp ≤ KERNBASE →
      (∀ x, last ≤ x → x < KERNBASE → userByte m' d x = userByte m d x) →
      Pushed m' d argv addrs sp last := by
  induction argv with
  | nil => exact fun pushed _ _ => pushed
  | cons arg rest ih =>
    intro addrs sp last pushed top same
    cases addrs with
    | nil => exact pushed.elim
    | cons a addrs =>
      obtain ⟨aligned, below, has, strings⟩ := pushed
      refine ⟨aligned, below, has.writes writes ?_, ih strings (by omega) same⟩
      intro x low high
      exact same x (Nat.le_trans (Pushed.le rest strings) low) (by omega)

/-- `copyout` to below the stack pointer, with the wrapping subtraction. -/
theorem push_address {size : Nat} (top : sp ≤ KERNBASE)
    (fits : (sp + UINT - size % UINT) % UINT / 4 * 4 + size ≤ KERNBASE) :
    (sp + UINT - size % UINT) % UINT / 4 * 4 + size ≤ sp ∧
      sp < (sp + UINT - size % UINT) % UINT / 4 * 4 + size + 4 := by
  simp only [KERNBASE, UINT] at top fits ⊢
  omega

theorem pushStrings_ends (argv : List Str) :
    ∀ {m : Mem} {sp : Nat} {pushed : List Nat}, Held layout sure m (space m d) → KernelOnly m d →
      sp ≤ KERNBASE →
      (pushStrings layout (Code.stop .missingTable) d argv sp pushed).Ends m
        (fun cause => ¬sure ∨ cause = .missingTable)
        (fun result m' => Writes m m' d ∧ ∀ last all, result = some (last, all) →
          last ≤ sp ∧ (∀ x, x < last ∨ sp ≤ x → x < KERNBASE → userByte m' d x = userByte m d x) ∧
            ∃ addrs, all = pushed ++ addrs ∧ Pushed m' d argv addrs sp last) := by
  induction argv with
  | nil =>
    intro m sp pushed held only top
    refine Ends.of_pure ⟨Writes.refl m d, ?_⟩
    intro last all equal
    cases equal
    exact ⟨Nat.le_refl _, fun _ _ _ => rfl, [], (List.append_nil _).symm, rfl, rfl⟩
  | cons arg rest ih =>
    intro m sp pushed held only top
    unfold pushStrings
    split
    · exact Ends.of_pure ⟨Writes.refl m d, nofun⟩
    · dsimp only
      generalize address : (sp + UINT - (arg.len + 1) % UINT) % UINT / 4 * 4 = a
      have small : a < UINT := by
        rw [← address]
        exact Nat.lt_of_le_of_lt (Nat.div_mul_le_self _ _) (Nat.mod_lt _ (by decide))
      apply Ends.bind (copyout_ends held only small)
      rintro copied m1 ⟨writes, all⟩
      cases copied with
      | false => exact Ends.of_pure ⟨writes, nofun⟩
      | true =>
        have copies := all rfl
        have below : a + (arg.len + 1) ≤ sp ∧ sp < a + (arg.len + 1) + 4 := by
          have fits := copies.bound.resolve_left (Nat.succ_ne_zero _)
          rw [← address] at fits ⊢
          exact push_address top fits
        apply (ih (held.trade writes.trade) (writes.kernel only) (by omega)).mono
        rintro result m' ⟨later, success⟩
        refine ⟨writes.trans later, ?_⟩
        intro last all equal
        obtain ⟨lower, same, addrs, list, strings⟩ := success last all equal
        refine ⟨by omega, ?_, a :: addrs, ?_, ?_, below, ?_, strings⟩
        · intro x outside bound
          rw [same x (by omega) bound, copies.puts x bound, if_neg (by omega)]
        · rw [list, List.append_assoc]
          rfl
        · rw [← address]
          exact Nat.mul_mod_left _ _
        · apply (copies.hasBytes writes).writes later
          intro x low high
          exact same x (Or.inr low) (by omega)

/-- The arguments and the frame of `main` below them. -/
def Framed (m : Mem) (d : Nat) (argv : List Str) (sz sp : Nat) : Prop :=
  ∃ addrs, Pushed m d argv addrs sz (sp + (3 + addrs.length + 1) * 4) ∧
    HasBytes m d sp ((3 + addrs.length + 1) * 4)
      (wordBytes ([0xffffffff, addrs.length, sp + 12] ++ addrs ++ [0]))

theorem pushArgs_ends (held : Held layout sure m (space m d)) (only : KernelOnly m d)
    (top : sz ≤ KERNBASE) :
    (pushArgs layout (Code.stop .missingTable) d argv sz).Ends m
      (fun cause => ¬sure ∨ cause = .missingTable)
      (fun result m' => Writes m m' d ∧ ∀ sp, result = some sp → Framed m' d argv sz sp ∧
        sp ≤ sz ∧ ∀ x, x < sp → x < KERNBASE → userByte m' d x = userByte m d x) := by
  unfold pushArgs
  apply Ends.bind (pushStrings_ends argv held only top)
  rintro result m1 ⟨writes, strings⟩
  cases result with
  | none => exact Ends.of_pure ⟨writes, nofun⟩
  | some pair =>
    obtain ⟨last, all⟩ := pair
    obtain ⟨lower, same, addrs, list, pushed⟩ := strings last all rfl
    rw [List.nil_append] at list
    subst all
    dsimp only
    generalize address : (last + UINT - (3 + addrs.length + 1) * 4) % UINT = sp
    have small : sp < UINT := address ▸ Nat.mod_lt _ (by decide)
    apply Ends.bind (copyout_ends (held.trade writes.trade) (writes.kernel only) small)
    rintro copied m2 ⟨later, copied'⟩
    cases copied with
    | false => exact Ends.of_pure ⟨writes.trans later, nofun⟩
    | true =>
      refine Ends.of_pure ⟨writes.trans later, ?_⟩
      intro sp' equal
      cases equal
      have copies := copied' rfl
      have below : sp + (3 + addrs.length + 1) * 4 = last := by
        have fits := copies.bound
        simp only [UINT, KERNBASE] at address fits top
        omega
      have array : (last + UINT - (addrs.length + 1) * 4) % UINT = sp + 12 := by
        simp only [UINT, KERNBASE] at top ⊢
        omega
      have outside (x : Nat) (above : last ≤ x ∨ x < sp) (bound : x < KERNBASE) :
          userByte m2 d x = userByte m1 d x := by
        rw [copies.puts x bound, if_neg (by omega)]
      rw [array] at copies
      refine ⟨⟨addrs, ?_, copies.hasBytes later⟩, by omega, ?_⟩
      · rw [below]
        exact Pushed.writes later argv pushed top (fun x above => outside x (Or.inl above))
      · intro x low bound
        rw [outside x (Or.inr low) bound, same x (by omega) bound]

/-! ### The image -/

/-- All pages below `sz` are mapped, the stack has one page above the guard page, and the
tables of the kernel part are those of `setupkvm`. -/
structure Ready (layout : Layout) (sure : Prop) (m : Mem) (d sz : Nat) : Prop
    extends Exact layout sure m d sz where
  kernel : KernelOnly m d
  limit : sz < KERNBASE
  aligned : sz % PGSIZE = 0
  stack : 2 * PGSIZE ≤ sz
  guard : user (pte m d (slot (sz / PGSIZE - 2))) = false
  tables : ∀ i : Fin NPTENTRIES, 512 ≤ i.val → (present (m.page d i) = true ↔ i ∈ kernelTables)

theorem Ready.writes (ready : Ready layout sure m d sz) (writes : Writes m m' d) :
    Ready layout sure m' d sz where
  toExact := writes.sized ready.toExact
  kernel := writes.kernel ready.kernel
  limit := ready.limit
  aligned := ready.aligned
  stack := ready.stack
  guard := by
    rw [writes.same.entries]
    exact ready.guard
  tables := by
    rw [writes.same.dir]
    exact ready.tables

/-- A fresh directory from `setupkvm`. -/
structure Fresh (layout : Layout) (sure : Prop) (m : Mem) (d : Nat) : Prop where
  sized : Exact layout sure m d 0
  kernel : KernelOnly m d
  tables : ∀ i, present (m.page d i) = true ↔ i ∈ kernelTables

theorem NewSpace.fresh (new : NewSpace layout m m' d) (held : Held layout sure m 0) :
    Fresh layout sure m' d := by
  refine ⟨⟨held.trade new.trade, Nat.zero_le _, ?_⟩, new.kernel, new.tables⟩
  intro v below
  rw [new.empty _ (slot_low below)]
  exact iff_of_false nofun (Nat.not_lt_zero _)

theorem Exact.rounded (sized : Exact layout sure m d sz) :
    Exact layout sure m d (PGROUNDUP sz) := by
  refine ⟨sized.held, ?_, ?_⟩
  · have bound := sized.bound
    simp only [PGROUNDUP, PGSIZE, KERNBASE] at bound ⊢
    omega
  · intro v below
    rw [sized.mapped v below, lt_PGROUNDUP_iff, Nat.mul_div_cancel _ (by decide)]

/-- What the segments have been loaded to, below the guard page and the stack. -/
structure Placed (file : File) (m : Mem) (d sz : Nat) : Prop where
  size : sz = PGROUNDUP (imageEnd (file.loads (file.ushort 44) (file.uint 28)) 0) + 2 * PGSIZE
  fits : ∀ ph ∈ file.loads (file.ushort 44) (file.uint 28), ph.filesz ≤ ph.memsz
  bytes : ∀ a, a + 2 * PGSIZE < sz → userByte m d a =
    some ((segmentByte file (file.loads (file.ushort 44) (file.uint 28)) a).getD 0)
  stack : user (pte m d (slot (sz / PGSIZE - 1))) = true

theorem placed_of_stack {last : Nat} {m3 m4 : Mem} (fresh : Fresh layout sure m1 d)
    (holds : Holds m1 m2 d)
    (loaded : Loaded layout sure file (file.loads (file.ushort 44) (file.uint 28)) m1 m2 d 0 last)
    (allocates : Allocates m2 m3 d (PGROUNDUP last) (PGROUNDUP last + 2 * PGSIZE) sz)
    (some : sz ≠ 0) (closes : Closes m3 m4 d ((sz - 2 * PGSIZE) / PGSIZE)) :
    Ready layout sure m4 d sz ∧ Placed file m4 d sz := by
  obtain ⟨limit, size, grows⟩ := allocates.success some
  obtain ⟨sized3, bytes3⟩ := loaded.sized.rounded.grown allocates some
  rw [Nat.max_eq_right (Nat.le_add_right _ _)] at size
  have rounded : PGROUNDUP last % PGSIZE = 0 := Nat.mul_mod_left _ _
  have twice : PGROUNDUP (PGROUNDUP last) = PGROUNDUP last := by
    simp only [PGROUNDUP, PGSIZE]
    omega
  have aligned : sz % PGSIZE = 0 := by
    simp only [PGSIZE] at rounded size ⊢
    omega
  have page : (sz - 2 * PGSIZE) / PGSIZE = sz / PGSIZE - 2 := by
    simp only [PGSIZE] at aligned ⊢
    omega
  have kernel3 := allocates.holds.kernel (holds.kernel fresh.kernel)
  rw [page] at closes
  have guardLow : (slot (sz / PGSIZE - 2)).low = true := by
    apply slot_low
    simp only [PGSIZE, KERNBASE] at limit size ⊢
    omega
  refine ⟨⟨⟨sized3.held.trade closes.trade, sized3.bound, ?_⟩, ?_, size ▸ limit, aligned, by omega,
    closes.closed, ?_⟩, ?_, loaded.fits, ?_, ?_⟩
  · intro v below
    rw [closes.mapped]
    exact sized3.mapped v below
  · intro s high
    rw [closes.kept, kernel3 s high]
    rintro rfl
    rw [guardLow] at high
    cases high
  · intro i high
    rw [closes.dir, allocates.holds.dir i high, holds.dir i high]
    exact fresh.tables i
  · rw [size, loaded.size]
  · intro a below
    have bound : a < KERNBASE := by omega
    have under : a < PGROUNDUP last := by omega
    have empty : PGROUNDUP 0 = 0 := rfl
    rw [closes.bytes a bound, bytes3 a bound, twice, if_pos under, loaded.bytes a bound, empty,
      if_neg (Nat.not_lt_zero a), if_pos under]
    cases segmentByte file (file.loads (file.ushort 44) (file.uint 28)) a with
    | none => rfl
    | some byte => rfl
  · have stackLow : (sz / PGSIZE - 1) * PGSIZE < PGROUNDUP last + 2 * PGSIZE ∧
        PGROUNDUP (PGROUNDUP last) / PGSIZE ≤ sz / PGSIZE - 1 := by
      rw [twice]
      simp only [PGSIZE] at aligned size rounded ⊢
      omega
    obtain ⟨n, entry, _⟩ := grows.fresh (sz / PGSIZE - 1) stackLow.2 stackLow.1
    have apart : slot (sz / PGSIZE - 1) ≠ slot (sz / PGSIZE - 2) := by
      intro same
      have bound : sz / PGSIZE < 1048576 := by
        simp only [PGSIZE, KERNBASE] at limit size ⊢
        omega
      have equal := slot_injective (by omega) (by omega) same
      simp only [PGSIZE] at equal size
      omega
    rw [closes.kept _ apart, entry, user_mkPte n (by decide)]
    rfl

/-- What `exec` leaves in the new address space when it succeeds. -/
structure Built (layout : Layout) (sure : Prop) (file : File) (argv : List Str) (m : Mem)
    (d sz sp : Nat) : Prop where
  ready : Ready layout sure m d sz
  placed : Placed file m d sz
  framed : Framed m d argv sz sp

section Stack

variable (ready : Ready layout sure m d sz)
include ready

/-- Addresses that reach up to the stack do not cross the guard page. -/
theorem Ready.above {a top : Nat}
    (allowed : ∀ x, a ≤ x → x < a + len → user (pte m d (slot (x / PGSIZE))) = true)
    (some : 0 < len) (near : top < a + len + 4) (bottom : sz ≤ top + PGSIZE) :
    sz ≤ a + PGSIZE := by
  by_contra deep
  have aligned := ready.aligned
  have stack := ready.stack
  have guard := allowed (max a (sz - 2 * PGSIZE)) (Nat.le_max_left _ _) (by
    simp only [PGSIZE] at deep bottom stack ⊢
    omega)
  have page : max a (sz - 2 * PGSIZE) / PGSIZE = sz / PGSIZE - 2 := by
    simp only [PGSIZE] at deep aligned stack ⊢
    omega
  rw [page, ready.guard] at guard
  cases guard

theorem Pushed.bottom (argv : List Str) : ∀ {addrs : List Nat} {sp last : Nat},
    Pushed m d argv addrs sp last → sz ≤ sp + PGSIZE → sz ≤ last + PGSIZE := by
  induction argv with
  | nil =>
    rintro addrs sp last ⟨_, rfl⟩ bottom
    exact bottom
  | cons arg rest ih =>
    intro addrs sp last pushed bottom
    cases addrs with
    | nil => exact pushed.elim
    | cons a addrs =>
      obtain ⟨_, near, has, strings⟩ := pushed
      exact ih strings (ready.above (fun x low high => (has x low high).1) (Nat.succ_pos _) near.2
        bottom)

/-- Nothing is pushed to below the stack. -/
theorem Framed.bottom (framed : Framed m d argv sz sp) : sz ≤ sp + PGSIZE := by
  obtain ⟨addrs, pushed, has⟩ := framed
  have last := Pushed.bottom ready argv pushed (Nat.le_add_right _ _)
  exact ready.above (fun x low high => (has x low high).1) (by omega) (by omega) last

end Stack

/-- The guard page has been allocated. -/
theorem Exact.guard_ends {old : Nat} (sized : Exact layout sure m d old)
    (allocates : Allocates m m' d old (old + 2 * PGSIZE) sz) (success : sz ≠ 0) :
    (slot ((sz - 2 * PGSIZE) / PGSIZE)).low = true ∧
      (clearpteu d ((sz - 2 * PGSIZE) / PGSIZE)).Ends m' (fun _ => False)
        (fun _ m'' => Closes m' m'' d ((sz - 2 * PGSIZE) / PGSIZE)) := by
  obtain ⟨grown, _⟩ := sized.grown allocates success
  obtain ⟨limit, size, _⟩ := allocates.success success
  have inside : (sz - 2 * PGSIZE) / PGSIZE * PGSIZE < sz := by
    simp only [PGSIZE] at size ⊢
    omega
  have below := Nat.lt_of_lt_of_le inside grown.bound
  exact ⟨slot_low below, clearpteu_ends grown.held.sound (slot_low below)
    ((grown.mapped _ below).mpr inside)⟩

theorem buildImage_ends (fresh : Fresh layout sure m d) :
    (buildImage layout (Code.stop .missingTable) d file argv).Ends m
      (fun cause => ¬sure ∨ cause = .missingTable)
      (fun result m' => Holds m m' d ∧ ∀ sz sp, result = some (sz, sp) →
        Built layout sure file argv m' d sz sp) := by
  unfold buildImage
  apply Ends.bind ((loadSegments_ends _ fresh.sized).excuse (fun _ => Or.inl))
  rintro segments m1 ⟨holds, loads⟩
  cases segments with
  | none => exact Ends.of_pure ⟨holds, nofun⟩
  | some last =>
    have loaded := loads last rfl
    dsimp only
    generalize total : PGROUNDUP last + 2 * PGSIZE = top
    apply Ends.bind ((loaded.sized.rounded.allocuvm_ends top).excuse (fun _ => Or.inl))
    intro sz m2 allocates
    subst top
    have second := holds.trans allocates.holds
    by_cases failed : sz = 0
    · rw [if_pos failed]
      exact Ends.of_pure ⟨second, nofun⟩
    · rw [if_neg failed]
      obtain ⟨low, clears⟩ := loaded.sized.rounded.guard_ends allocates failed
      apply Ends.bind (clears.excuse (fun _ => False.elim))
      intro _ m3 closes
      obtain ⟨ready, placed⟩ := placed_of_stack fresh holds loaded allocates failed closes
      have third : Holds m m3 d := by
        refine second.trans ⟨closes.trade, ?_, fun i _ => congrFun closes.dir i⟩
        intro s high
        apply closes.kept
        rintro rfl
        rw [low] at high
        cases high
      apply Ends.bind (pushArgs_ends ready.held ready.kernel (Nat.le_of_lt ready.limit))
      rintro pushed m4 ⟨writes, frames⟩
      cases pushed with
      | none => exact Ends.of_pure ⟨third.trans writes.holds, nofun⟩
      | some sp =>
        refine Ends.of_pure ⟨third.trans writes.holds, ?_⟩
        intro sz' sp' equal
        cases equal
        obtain ⟨framed, lower, same⟩ := frames sp rfl
        have ready' := ready.writes writes
        have bottom := framed.bottom ready'
        refine ⟨ready', ⟨placed.size, placed.fits, ?_, ?_⟩, framed⟩
        · intro a under
          have top := ready.limit
          rw [same a (by omega) (by omega)]
          exact placed.bytes a under
        · rw [writes.same.entries]
          exact placed.stack

/-- `exec` fails and has given back all pages, or it has built the image. -/
theorem exec_ends (held : Held layout sure m 0) (file : Option File) (argv : List Str) :
    (exec layout (Code.stop .missingTable) file argv).Ends m (fun cause => ¬sure ∨ cause = .missingTable)
      (fun result m' => (result = none → Trades m m' 0 0) ∧
        ∀ image, result = some image → Trades m m' 0 (space m' image.pgdir) ∧
          ∃ f, file = some f ∧ image.eip = f.uint 24 ∧
            Built layout sure f argv m' image.pgdir image.sz image.esp) := by
  have stays : (pure none : Op (Option Image)).Ends m (fun cause => ¬sure ∨ cause = .missingTable)
      (fun result m' => (result = none → Trades m m' 0 0) ∧
        ∀ image, result = some image → Trades m m' 0 (space m' image.pgdir) ∧
          ∃ f, file = some f ∧ image.eip = f.uint 24 ∧
            Built layout sure f argv m' image.pgdir image.sz image.esp) :=
    Ends.of_pure ⟨fun _ => Trades.refl _ _, nofun⟩
  unfold exec
  cases file with
  | none => exact stays
  | some file =>
    dsimp only
    split
    · exact stays
    · split
      · exact stays
      · apply Ends.bind ((setupkvm_ends held).excuse (fun _ => Or.inl))
        rintro made m1 ⟨refused, new⟩
        cases made with
        | none => exact Ends.of_pure ⟨fun _ => (refused rfl).1, nofun⟩
        | some d =>
          have start := (new d rfl).trade
          have fresh := (new d rfl).fresh held
          apply Ends.bind (buildImage_ends fresh)
          rintro built m2 ⟨holds, built'⟩
          have trade := start.trans holds.trade
          cases built with
          | none =>
            apply Ends.bind ((freevm_ends (held.trade trade)).excuse (fun _ => Or.inl))
            exact fun _ m3 freed => Ends.of_pure ⟨fun _ => trade.trans freed, nofun⟩
          | some pair =>
            obtain ⟨sz, sp⟩ := pair
            refine Ends.of_pure ⟨nofun, ?_⟩
            intro image equal
            cases equal
            exact ⟨trade, file, rfl, rfl, built' sz sp rfl⟩

/-! ### `exec` where no page table is missing

Whatever a lookup through a missing page table would load, `exec` does what the strict
`exec` does wherever that one does not stop for it. -/

section Agrees

variable (null : Op Nat) (vpn : Nat)

theorem uva2ka_agrees : AgreesUnless .missingTable
    (uva2ka (Code.stop .missingTable) d vpn) (uva2ka null d vpn) := by
  unfold uva2ka
  apply AgreesUnless.bind _ (fun _ => AgreesUnless.refl _)
  unfold lookup
  apply AgreesUnless.bind (AgreesUnless.refl _)
  intro found
  cases found with
  | none => exact AgreesUnless.stop _
  | some t => exact AgreesUnless.refl _

theorem copyoutLoop_agrees (fuel : Nat) : ∀ va len source, AgreesUnless .missingTable
    (copyoutLoop layout (Code.stop .missingTable) d fuel va len source)
    (copyoutLoop layout null d fuel va len source) := by
  induction fuel with
  | zero =>
    intro va len source
    exact AgreesUnless.refl _
  | succ fuel ih =>
    intro va len source
    unfold copyoutLoop
    split
    · apply AgreesUnless.bind (uva2ka_agrees null _)
      intro found
      cases found with
      | none => exact AgreesUnless.refl _
      | some n => exact AgreesUnless.bind (AgreesUnless.refl _) (fun _ => ih _ _ _)
    · exact AgreesUnless.refl _

theorem pushStrings_agrees (argv : List Str) : ∀ sp pushed, AgreesUnless .missingTable
    (pushStrings layout (Code.stop .missingTable) d argv sp pushed)
    (pushStrings layout null d argv sp pushed) := by
  induction argv with
  | nil =>
    intro sp pushed
    exact AgreesUnless.refl _
  | cons arg rest ih =>
    intro sp pushed
    unfold pushStrings
    split
    · exact AgreesUnless.refl _
    · apply AgreesUnless.bind (copyoutLoop_agrees null _ _ _ _)
      intro copied
      cases copied with
      | true => exact ih _ _
      | false => exact AgreesUnless.refl _

theorem pushArgs_agrees (argv : List Str) (sz : Nat) : AgreesUnless .missingTable
    (pushArgs layout (Code.stop .missingTable) d argv sz) (pushArgs layout null d argv sz) := by
  unfold pushArgs
  apply AgreesUnless.bind (pushStrings_agrees null argv sz [])
  intro strings
  cases strings with
  | none => exact AgreesUnless.refl _
  | some pair =>
    exact AgreesUnless.bind (copyoutLoop_agrees null _ _ _ _) (fun _ => AgreesUnless.refl _)

theorem buildImage_agrees (file : File) (argv : List Str) : AgreesUnless .missingTable
    (buildImage layout (Code.stop .missingTable) d file argv)
    (buildImage layout null d file argv) := by
  unfold buildImage
  apply AgreesUnless.bind (AgreesUnless.refl _)
  intro segments
  cases segments with
  | none => exact AgreesUnless.refl _
  | some sz =>
    apply AgreesUnless.bind (AgreesUnless.refl _)
    intro size
    split
    · exact AgreesUnless.refl _
    · apply AgreesUnless.bind (AgreesUnless.refl _)
      intro _
      exact AgreesUnless.bind (pushArgs_agrees null argv size) (fun _ => AgreesUnless.refl _)

theorem exec_agrees (file : Option File) (argv : List Str) : AgreesUnless .missingTable
    (exec layout (Code.stop .missingTable) file argv) (exec layout null file argv) := by
  unfold exec
  split
  · exact AgreesUnless.refl _
  · split
    · exact AgreesUnless.refl _
    · split
      · exact AgreesUnless.refl _
      · apply AgreesUnless.bind (AgreesUnless.refl _)
        intro made
        cases made with
        | none => exact AgreesUnless.refl _
        | some d =>
          exact AgreesUnless.bind (buildImage_agrees null _ argv)
            (fun _ => AgreesUnless.refl _)

end Agrees

end Xv6.Memory
