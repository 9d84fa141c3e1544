/-
The calls of `copyout` that `exec` makes.

The stack pointer is lowered by the length of each argument as a `uint`.  While it stays
above 0 all pages that `copyout` looks at have a page table.  An argument that is longer than
the stack pointer wraps to the kernel part of the new directory: there `uva2ka` refuses the
page, unless the page lies between physical memory and the devices, where there is no page
table at all.
-/

import Xv6.Memory.PageOwnership

namespace Xv6.Memory

open Library Library.Code

variable {layout : Layout} {sure : Prop} {m m' : Mem} {d n sz sp : Nat} {null : Op Nat}

/-! ### The calls -/

/-- A call of `copyout`, with the memory at that time. -/
structure Copy where
  mem : Mem
  pgdir : Nat
  va : Nat
  source : Nat → UInt8
  len : Nat

/-- The call writes only to user pages of the directory, and `uva2ka` finds a page table for
every page that it looks up. -/
def Copy.Safe (layout : Layout) (null : Op Nat) (c : Copy) : Prop :=
  copyout layout (Code.stop .missingTable) c.pgdir c.va c.source c.len c.mem ≠
      .error .missingTable ∧
    ∀ copied m', copyout layout null c.pgdir c.va c.source c.len c.mem = .ok (copied, m') →
      Overwrites c.mem m' c.pgdir c.va c.len

/-- The addresses between physical memory and the devices have no page table. -/
def Copy.InHole (c : Copy) : Prop := KERNBASE + PHYSTOP ≤ c.va ∧ c.va < DEVSPACE

/-- The call that pushes an argument string. -/
def stringCopy (m : Mem) (pgdir sp : Nat) (arg : Str) : Copy where
  mem := m
  pgdir := pgdir
  va := (sp + UINT - (arg.len + 1) % UINT) % UINT / 4 * 4
  source := fun i => if i < arg.len then arg.byte i else 0
  len := arg.len + 1

/-- The call that pushes the frame of `main`. -/
def frameCopy (m : Mem) (pgdir sp : Nat) (pushed : List Nat) : Copy where
  mem := m
  pgdir := pgdir
  va := (sp + UINT - (3 + pushed.length + 1) * 4) % UINT
  source := wordBytes ([0xffffffff, pushed.length, (sp + UINT - (pushed.length + 1) * 4) % UINT] ++
    pushed ++ [0])
  len := (3 + pushed.length + 1) * 4

section Calls

variable (layout null) (P : Copy → Prop)

/-- All calls of `pushStrings`. -/
def eachString (pgdir : Nat) : List Str → Nat → List Nat → Mem → Prop
  | [], _, _, _ => True
  | arg :: rest, sp, pushed, m =>
    MAXARG ≤ pushed.length ∨
      P (stringCopy m pgdir sp arg) ∧
        ∀ m', copyout layout null pgdir (stringCopy m pgdir sp arg).va
            (stringCopy m pgdir sp arg).source (stringCopy m pgdir sp arg).len m =
              .ok (true, m') →
          eachString pgdir rest (stringCopy m pgdir sp arg).va
            (pushed ++ [(stringCopy m pgdir sp arg).va]) m'

/-- All calls of `pushArgs`. -/
def eachArg (pgdir : Nat) (argv : List Str) (sz : Nat) (m : Mem) : Prop :=
  eachString layout null P pgdir argv sz [] m ∧
    ∀ sp pushed m', pushStrings layout null pgdir argv sz [] m = .ok (some (sp, pushed), m') →
      P (frameCopy m' pgdir sp pushed)

/-- All calls that `exec` makes, from the memory `m`. -/
def EveryCopyout (file : Option File) (argv : List Str) (m : Mem) : Prop :=
  ∀ f, file = some f → f.readi 0 52 = some 52 → f.uint 0 = ELF_MAGIC →
    ∀ d m1, setupkvm layout m = .ok (some d, m1) →
      ∀ last m2,
        loadSegments layout d f (f.ushort 44) (f.uint 28) 0 m1 = .ok (some last, m2) →
        ∀ sz m3,
          allocuvm layout d (PGROUNDUP last) (PGROUNDUP last + 2 * PGSIZE) m2 = .ok (sz, m3) →
          sz ≠ 0 →
            ∀ m4, clearpteu d ((sz - 2 * PGSIZE) / PGSIZE) m3 = .ok ((), m4) →
              eachArg layout null P d argv sz m4

end Calls

/-! ### Safe calls -/

/-- `exec` has loaded the program and made the stack. -/
theorem ready_of_exec {file : File} {last : Nat} {m1 m2 m3 : Mem} (held : Held layout sure m 0)
    (setup : setupkvm layout m = .ok (some d, m1))
    (loads : loadSegments layout d file (file.ushort 44) (file.uint 28) 0 m1 = .ok (some last, m2))
    (allocated : allocuvm layout d (PGROUNDUP last) (PGROUNDUP last + 2 * PGSIZE) m2 = .ok (sz, m3))
    (success : sz ≠ 0) (cleared : clearpteu d ((sz - 2 * PGSIZE) / PGSIZE) m3 = .ok ((), m')) :
    Ready layout sure m' d sz ∧ Placed file m' d sz := by
  have fresh := (((setupkvm_ends held).post_of_ok setup).2 d rfl).fresh held
  obtain ⟨holds, loads'⟩ := (loadSegments_ends _ fresh.sized).post_of_ok loads
  have loaded := loads' last rfl
  have allocates := (loaded.sized.rounded.allocuvm_ends _).post_of_ok allocated
  obtain ⟨_, clears⟩ := loaded.sized.rounded.guard_ends allocates success
  exact placed_of_stack fresh holds loaded allocates success (clears.post_of_ok cleared)

section Ready

variable (null) (c : Copy) (ready : Ready layout sure c.mem c.pgdir sz)
include ready

theorem Ready.copy (inside : c.va + c.len ≤ sz) :
    c.Safe layout null ∧ ¬c.InHole ∧
      ∀ m', copyout layout null c.pgdir c.va c.source c.len c.mem = .ok (true, m') →
        Ready layout sure m' c.pgdir sz ∧ ∀ a, c.va ≤ a → a < c.va + c.len →
          user (pte c.mem c.pgdir (slot (a / PGSIZE))) = true := by
  have limit := ready.limit
  have small : c.va < UINT := by
    simp only [UINT, KERNBASE] at limit ⊢
    omega
  have ends : (copyout layout (Code.stop .missingTable) c.pgdir c.va c.source c.len).Ends c.mem
      _ _ := copyoutLoop_ends c.len ready.held ready.kernel small
  have tables : copyout layout (Code.stop .missingTable) c.pgdir c.va c.source c.len c.mem ≠
      .error .missingTable := by
    intro stopped
    rcases ends.cause_of_error stopped with ⟨_, other⟩ | ⟨_, a, low, high, missing⟩
    · cases other
    · have under : a / PGSIZE * PGSIZE < sz :=
        Nat.lt_of_le_of_lt (Nat.div_mul_le_self a PGSIZE) (by omega)
      have there := (ready.mapped _ (Nat.lt_trans under limit)).mpr under
      have table := table_present there
      change present (c.mem.page c.pgdir (PDX (a / PGSIZE))) = true at table
      rw [missing] at table
      cases table
  have agrees : copyout layout null c.pgdir c.va c.source c.len c.mem = _ :=
    copyoutLoop_agrees null c.len c.va c.len c.source c.mem tables
  refine ⟨⟨tables, ?_⟩, ?_, ?_⟩
  · intro copied m' ran
    rw [agrees] at ran
    exact (ends.post_of_ok ran).2.1
  · rintro ⟨above, _⟩
    simp only [KERNBASE, PHYSTOP] at above limit
    omega
  · intro m' ran
    rw [agrees] at ran
    obtain ⟨writes, _, all⟩ := ends.post_of_ok ran
    exact ⟨ready.writes writes, (all rfl (Nat.le_refl _)).user⟩

/-- A call that has wrapped to the kernel part of the directory. -/
theorem Ready.wrapped (some : 0 < c.len) (high : KERNBASE ≤ c.va) (bound : c.va < UINT) :
    (c.Safe layout null ↔ ¬c.InHole) ∧
      (¬c.InHole →
        copyout layout null c.pgdir c.va c.source c.len c.mem = .ok (false, c.mem)) := by
  obtain ⟨fuel, length⟩ : ∃ fuel, c.len = fuel + 1 := ⟨c.len - 1, by omega⟩
  have upper : 512 ≤ (PDX (c.va / PGSIZE)).val := by
    change 512 ≤ c.va / PGSIZE / 1024 % 1024
    simp only [PGSIZE, KERNBASE, UINT] at high bound ⊢
    omega
  have member : PDX (c.va / PGSIZE) ∈ kernelTables ↔ ¬c.InHole := by
    unfold Copy.InHole
    rw [mem_kernelTables]
    change (512 ≤ c.va / PGSIZE / 1024 % 1024 ∧ c.va / PGSIZE / 1024 % 1024 ≤ 567) ∨
      (1016 ≤ c.va / PGSIZE / 1024 % 1024 ∧ c.va / PGSIZE / 1024 % 1024 ≤ 1023) ↔ _
    simp only [PGSIZE, KERNBASE, PHYSTOP, DEVSPACE, UINT] at high bound ⊢
    omega
  have closed : user (pte c.mem c.pgdir (slot (c.va / PGSIZE))) = false := by
    apply ready.kernel
    unfold Slot.low
    rw [decide_eq_false_iff_not, Nat.not_lt]
    exact upper
  have refused (null : Op Nat) (outside : ¬c.InHole) :
      copyout layout null c.pgdir c.va c.source c.len c.mem = .ok (false, c.mem) := by
    have there := (ready.tables _ upper).mpr (member.mpr outside)
    unfold copyout
    rw [length]
    exact copyoutLoop_refused fuel (Nat.succ_pos fuel) (uva2ka_refused there closed)
  refine ⟨?_, refused null⟩
  constructor
  · rintro ⟨tables, _⟩ inside
    apply tables
    have missing : present (c.mem.page c.pgdir (PDX (c.va / PGSIZE))) = false := by
      rw [← Bool.not_eq_true, ready.tables _ upper, member]
      exact not_not_intro inside
    unfold copyout
    rw [length]
    unfold copyoutLoop
    rw [if_pos (Nat.succ_pos fuel)]
    change (uva2ka _ _ _ c.mem >>= _) = _
    rw [uva2ka_stops missing]
    rfl
  · intro outside
    refine ⟨?_, ?_⟩
    · rw [refused _ outside]
      intro stopped
      cases stopped
    · intro copied m' ran
      rw [refused null outside] at ran
      cases ran
      exact Overwrites.refl _ _ _ _

/-- An argument is pushed to the page of the stack, or `copyout` fails. -/
theorem Ready.push (bottom : sz ≤ sp + PGSIZE) (top : sp ≤ sz) (short : n < KERNBASE) (length : c.len = n + 1)
    (address : c.va = (sp + UINT - (n + 1) % UINT) % UINT / 4 * 4) :
    (c.Safe layout null ↔ ¬c.InHole) ∧
      (¬c.InHole →
        ∀ m', copyout layout null c.pgdir c.va c.source c.len c.mem = .ok (true, m') →
          Ready layout sure m' c.pgdir sz ∧ sz ≤ c.va + PGSIZE ∧ c.va ≤ sz) := by
  have limit := ready.limit
  simp only [UINT] at address
  by_cases fits : n + 1 ≤ sp
  · have below : c.va + (n + 1) ≤ sp ∧ sp < c.va + (n + 1) + 4 := by
      simp only [KERNBASE] at limit
      omega
    obtain ⟨safe, outside, pushes⟩ := ready.copy null c (by omega)
    refine ⟨iff_of_true safe outside, ?_⟩
    intro _ m' ran
    obtain ⟨after, allowed⟩ := pushes m' ran
    refine ⟨after, ready.above allowed (by omega) (by omega) bottom, by omega⟩
  · have range : KERNBASE ≤ c.va ∧ c.va < UINT := by
      simp only [UINT, KERNBASE] at limit short ⊢
      omega
    obtain ⟨safe, refused⟩ := ready.wrapped null c (by omega) range.1 range.2
    refine ⟨safe, ?_⟩
    intro outside m' ran
    rw [refused outside] at ran
    cases ran

end Ready

theorem Ready.string (null : Op Nat) {arg : Str} (ready : Ready layout sure m d sz)
    (bottom : sz ≤ sp + PGSIZE) (top : sp ≤ sz) (short : arg.len < KERNBASE) :
    ((stringCopy m d sp arg).Safe layout null ↔ ¬(stringCopy m d sp arg).InHole) ∧
      (¬(stringCopy m d sp arg).InHole →
        ∀ m', copyout layout null d (stringCopy m d sp arg).va (stringCopy m d sp arg).source
            (stringCopy m d sp arg).len m = .ok (true, m') →
          Ready layout sure m' d sz ∧ sz ≤ (stringCopy m d sp arg).va + PGSIZE ∧
            (stringCopy m d sp arg).va ≤ sz) :=
  Ready.push null (stringCopy m d sp arg) ready bottom top short rfl rfl

/-- The frame of `main` fits below the arguments. -/
theorem Ready.frame (null : Op Nat) {pushed : List Nat} (ready : Ready layout sure m d sz)
    (bottom : sz ≤ sp + PGSIZE) (top : sp ≤ sz) (few : pushed.length ≤ MAXARG) :
    (frameCopy m d sp pushed).Safe layout null ∧ ¬(frameCopy m d sp pushed).InHole := by
  have limit := ready.limit
  have stack := ready.stack
  have inside : (sp + UINT - (3 + pushed.length + 1) * 4) % UINT + (3 + pushed.length + 1) * 4 ≤
      sz := by
    simp only [UINT, KERNBASE, PGSIZE, MAXARG] at limit stack bottom few ⊢
    omega
  obtain ⟨safe, outside, _⟩ := Ready.copy null (frameCopy m d sp pushed) ready inside
  exact ⟨safe, outside⟩

/-- Two properties that agree on the calls that can occur.  The second one keeps the calls out
of the hole, so that the address space stays as it is. -/
theorem eachString_congr (null : Op Nat) {P Q : Copy → Prop} (argv : List Str)
    (short : ∀ arg ∈ argv, arg.len < KERNBASE)
    (same : ∀ m sp arg, arg ∈ argv → Ready layout sure m d sz → sz ≤ sp + PGSIZE → sp ≤ sz →
      (P (stringCopy m d sp arg) ↔ Q (stringCopy m d sp arg)) ∧
        (Q (stringCopy m d sp arg) → ¬(stringCopy m d sp arg).InHole)) :
    ∀ {m : Mem} {sp : Nat} {pushed : List Nat}, Ready layout sure m d sz → sz ≤ sp + PGSIZE → sp ≤ sz →
      pushed.length ≤ MAXARG →
      (eachString layout null P d argv sp pushed m ↔ eachString layout null Q d argv sp pushed m) ∧
        (eachString layout null Q d argv sp pushed m → ∀ sp' pushed' m',
          pushStrings layout null d argv sp pushed m = .ok (some (sp', pushed'), m') →
            Ready layout sure m' d sz ∧ sz ≤ sp' + PGSIZE ∧ sp' ≤ sz ∧ pushed'.length ≤ MAXARG) := by
  induction argv with
  | nil =>
    intro m sp pushed ready bottom top few
    refine ⟨Iff.rfl, ?_⟩
    intro _ sp' pushed' m' ran
    obtain ⟨equal, rfl⟩ := pure_eq_ok.mp ran
    cases equal
    exact ⟨ready, bottom, top, few⟩
  | cons arg rest ih =>
    intro m sp pushed ready bottom top few
    have here : arg ∈ arg :: rest := List.mem_cons_self
    obtain ⟨agree, apart⟩ := same m sp arg here ready bottom top
    obtain ⟨_, step⟩ := Ready.string null ready bottom top (short arg here)
    have later {m' : Mem} {pushed' : List Nat} (ready' : Ready layout sure m' d sz)
        (bottom' : sz ≤ (stringCopy m d sp arg).va + PGSIZE)
        (top' : (stringCopy m d sp arg).va ≤ sz) (few' : pushed'.length ≤ MAXARG) :=
      ih (fun other member => short other (List.mem_cons_of_mem _ member))
        (fun m sp other member => same m sp other (List.mem_cons_of_mem _ member))
        ready' bottom' top' few'
    by_cases full : MAXARG ≤ pushed.length
    · refine ⟨iff_of_true (Or.inl full) (Or.inl full), ?_⟩
      intro _ sp' pushed' m' ran
      unfold pushStrings at ran
      rw [if_pos full] at ran
      obtain ⟨impossible, _⟩ := pure_eq_ok.mp ran
      cases impossible
    · have few' : (pushed ++ [(stringCopy m d sp arg).va]).length ≤ MAXARG := by
        rw [List.length_append, List.length_singleton]
        omega
      unfold eachString
      rw [or_iff_right full, or_iff_right full, agree]
      constructor
      · refine and_congr_right ?_
        intro holds
        refine forall_congr' fun m' => ?_
        refine imp_congr_right fun ran => ?_
        obtain ⟨ready', bottom', top'⟩ := step (apart holds) m' ran
        exact (later ready' bottom' top' few').1
      · rintro ⟨holds, rests⟩ sp' pushed' m' ran
        unfold pushStrings at ran
        rw [if_neg full] at ran
        obtain ⟨copied, m1, copies, goes⟩ := bind_eq_ok.mp ran
        cases copied with
        | false =>
          obtain ⟨impossible, _⟩ := pure_eq_ok.mp goes
          cases impossible
        | true =>
          obtain ⟨ready', bottom', top'⟩ := step (apart holds) m1 copies
          exact (later ready' bottom' top' few').2 (rests m1 copies) sp' pushed' m' goes

/-- The same for all calls of `exec`. -/
theorem everyCopyout_congr {P Q : Copy → Prop} {file : Option File} {argv : List Str}
    (sound : m.Sound 0) (short : ∀ arg ∈ argv, arg.len < KERNBASE)
    (strings : ∀ d sz m sp arg, arg ∈ argv → Ready layout False m d sz → sz ≤ sp + PGSIZE → sp ≤ sz →
      (P (stringCopy m d sp arg) ↔ Q (stringCopy m d sp arg)) ∧
        (Q (stringCopy m d sp arg) → ¬(stringCopy m d sp arg).InHole))
    (frames : ∀ d sz m sp pushed, Ready layout False m d sz → sz ≤ sp + PGSIZE → sp ≤ sz →
      pushed.length ≤ MAXARG →
      P (frameCopy m d sp pushed) ∧ Q (frameCopy m d sp pushed)) :
    EveryCopyout layout null P file argv m ↔ EveryCopyout layout null Q file argv m := by
  unfold EveryCopyout eachArg
  refine forall_congr' fun f => forall_congr' fun _ => forall_congr' fun _ => forall_congr' fun _ =>
    forall_congr' fun d => forall_congr' fun m1 => forall_congr' fun setup =>
    forall_congr' fun last => forall_congr' fun m2 => forall_congr' fun loads =>
    forall_congr' fun sz => forall_congr' fun m3 => forall_congr' fun allocated =>
    forall_congr' fun success => forall_congr' fun m4 => forall_congr' fun cleared => ?_
  have ready := (ready_of_exec ⟨sound, False.elim⟩ setup loads allocated success cleared).1
  have few : ([] : List Nat).length ≤ MAXARG := Nat.zero_le _
  obtain ⟨agree, after⟩ := eachString_congr null argv short (strings d sz) ready
    (Nat.le_add_right _ _) (Nat.le_refl _) few
  rw [agree]
  refine and_congr_right fun holds => ?_
  constructor
  · intro _ sp pushed m' ran
    obtain ⟨ready', bottom, top, few⟩ := after holds sp pushed m' ran
    exact (frames d sz m' sp pushed ready' bottom top few).2
  · intro _ sp pushed m' ran
    obtain ⟨ready', bottom, top, few⟩ := after holds sp pushed m' ran
    exact (frames d sz m' sp pushed ready' bottom top few).1

theorem eachString_true (pgdir : Nat) (argv : List Str) :
    ∀ {sp : Nat} {pushed : List Nat} {m : Mem},
      eachString layout null (fun _ => True) pgdir argv sp pushed m := by
  induction argv with
  | nil =>
    intro sp pushed m
    trivial
  | cons arg rest ih =>
    intro sp pushed m
    exact Or.inr ⟨trivial, fun _ _ => ih⟩

section Condition

variable {file : Option File} {argv : List Str} (sound : m.Sound 0)
  (admitted : ∀ arg ∈ argv, arg.len < KERNBASE)
include sound admitted

theorem everyCopyout_safe : EveryCopyout layout null (Copy.Safe layout null) file argv m ↔
    EveryCopyout layout null (fun c => ¬c.InHole) file argv m := by
  refine everyCopyout_congr sound admitted ?_ ?_
  · intro d sz m sp arg member ready bottom top
    exact ⟨(ready.string null bottom top (admitted arg member)).1, id⟩
  · intro d sz m sp pushed ready bottom top few
    exact ready.frame null bottom top few

theorem everyCopyout_short (short : ∀ arg ∈ argv, arg.len < UINT - DEVSPACE) :
    EveryCopyout layout null (fun c => ¬c.InHole) file argv m := by
  have outside (m : Mem) (d sp : Nat) (arg : Str) (member : arg ∈ argv) (low : sp < KERNBASE) :
      ¬(stringCopy m d sp arg).InHole := by
    rintro ⟨above, below⟩
    have length := short arg member
    change _ ≤ (sp + UINT - (arg.len + 1) % UINT) % UINT / 4 * 4 at above
    change (sp + UINT - (arg.len + 1) % UINT) % UINT / 4 * 4 < _ at below
    simp only [UINT, KERNBASE, PHYSTOP, DEVSPACE] at length low above below
    omega
  have all : EveryCopyout layout null (fun _ => True) file argv m := by
    intro f _ _ _ d m1 _ last m2 _ sz m3 _ _ m4 _
    exact ⟨eachString_true d argv, fun _ _ _ _ => trivial⟩
  refine (everyCopyout_congr sound admitted ?_ ?_).mpr all
  · intro d sz m sp arg member ready bottom top
    have apart := outside m d sp arg member (Nat.lt_of_le_of_lt top ready.limit)
    exact ⟨iff_of_true apart trivial, fun _ => apart⟩
  · intro d sz m sp pushed ready bottom top few
    exact ⟨(ready.frame null bottom top few).2, trivial⟩

end Condition

/-- All calls of `copyout` are safe exactly if none of them starts between physical memory and
the devices.  That is so if no argument is as long as the devices' part of the address
space. -/
theorem exec_copyouts (layout : Layout) (null : Op Nat) (file : Option File) {argv : List Str}
    (sound : m.Sound 0) (admitted : ∀ arg ∈ argv, arg.len < KERNBASE) :
    (EveryCopyout layout null (Copy.Safe layout null) file argv m ↔
        EveryCopyout layout null (fun c => ¬c.InHole) file argv m) ∧
      ((∀ arg ∈ argv, arg.len < UINT - DEVSPACE) →
        EveryCopyout layout null (Copy.Safe layout null) file argv m) :=
  ⟨everyCopyout_safe sound admitted,
    fun short => (everyCopyout_safe sound admitted).mpr (everyCopyout_short sound admitted short)⟩

/-! ### Page tables -/

theorem pushStrings_present (argv : List Str) : ∀ {sp : Nat} {pushed : List Nat} {m : Mem},
    eachString layout null (Copy.Safe layout null) d argv sp pushed m →
      pushStrings layout (Code.stop .missingTable) d argv sp pushed m ≠ .error .missingTable := by
  induction argv with
  | nil =>
    intro sp pushed m _
    nofun
  | cons arg rest ih =>
    intro sp pushed m calls stopped
    unfold pushStrings at stopped
    split at stopped
    · cases stopped
    · rename_i few
      obtain ⟨⟨tables, _⟩, later⟩ := calls.resolve_left few
      rcases error_of_bind stopped with missing | ⟨copied, m', copies, stopped⟩
      · exact tables missing
      · cases copied with
        | false => cases stopped
        | true =>
          have agrees := copyoutLoop_agrees null _ _ _ _ _ tables
          exact ih (later m' (agrees.trans copies)) stopped

theorem pushArgs_present {argv : List Str}
    (calls : eachArg layout null (Copy.Safe layout null) d argv sz m) :
    pushArgs layout (Code.stop .missingTable) d argv sz m ≠ .error .missingTable := by
  intro stopped
  have strings := pushStrings_present argv calls.1
  rcases error_of_bind stopped with missing | ⟨pushed, m', pushes, stopped⟩
  · exact strings missing
  · cases pushed with
    | none => cases stopped
    | some pair =>
      have ran := (pushStrings_agrees null argv sz [] m strings).trans pushes
      rcases error_of_bind stopped with missing | ⟨copied, _, _, stopped⟩
      · exact (calls.2 pair.1 pair.2 m' ran).1 missing
      · cases copied <;> cases stopped

/-- If no call starts between physical memory and the devices, no lookup of `exec` misses a
page table. -/
theorem tablesPresent_of_outside {file : Option File} {argv : List Str}
    (held : Held layout True m 0) (admitted : ∀ arg ∈ argv, arg.len < KERNBASE)
    (outside : EveryCopyout layout null (fun c => ¬c.InHole) file argv m) :
    TablesPresent layout m file argv := by
  have calls := (everyCopyout_safe held.sound admitted).mpr outside
  intro stopped
  unfold exec at stopped
  cases file with
  | none => cases stopped
  | some f =>
    dsimp only at stopped
    split at stopped
    · cases stopped
    rename_i header
    split at stopped
    · cases stopped
    rename_i magic
    rcases error_of_bind stopped with failed | ⟨made, m1, setup, stopped⟩
    · exact (setupkvm_ends held).cause_of_error failed trivial
    obtain ⟨_, new⟩ := (setupkvm_ends held).post_of_ok setup
    cases made with
    | none => cases stopped
    | some d =>
      have fresh := (new d rfl).fresh held
      rcases error_of_bind stopped with failed | ⟨built, m2, builds, stopped⟩
      · rcases error_of_bind failed with failed | ⟨loaded, m2, loads, failed⟩
        · exact (loadSegments_ends _ fresh.sized).cause_of_error failed trivial
        cases loaded with
        | none => cases failed
        | some last =>
          have sized :=
            (((loadSegments_ends _ fresh.sized).post_of_ok loads).2 last rfl).sized.rounded
          dsimp only at failed
          rcases error_of_bind failed with failed | ⟨sz, m3, allocated, failed⟩
          · exact (sized.allocuvm_ends _).cause_of_error failed trivial
          split at failed
          · cases failed
          rename_i success
          rcases error_of_bind failed with failed | ⟨_, m4, cleared, failed⟩
          · exact (sized.guard_ends ((sized.allocuvm_ends _).post_of_ok allocated) success).2.cause_of_error failed
          rcases error_of_bind failed with missing | ⟨pushed, _, _, failed⟩
          · exact pushArgs_present (calls f rfl (not_not.mp header) (not_not.mp magic) d m1 setup
              last m2 loads sz m3 allocated success m4 cleared) missing
          · cases pushed <;> cases failed
      · cases built with
        | some pair => cases stopped
        | none =>
          have trade := (new d rfl).trade.trans ((buildImage_ends fresh).post_of_ok builds).1.trade
          rcases error_of_bind stopped with failed | ⟨_, _, _, stopped⟩
          · exact (freevm_ends (held.trade trade)).cause_of_error failed trivial
          · cases stopped

theorem tablesPresent_of_short {file : Option File} {argv : List Str}
    (held : Held layout True m 0) (short : ∀ arg ∈ argv, arg.len < UINT - DEVSPACE) :
    TablesPresent layout m file argv := by
  have admitted : ∀ arg ∈ argv, arg.len < KERNBASE :=
    fun arg member => Nat.lt_trans (short arg member) (by decide)
  have outside : EveryCopyout layout (Code.stop .missingTable) (fun c => ¬c.InHole) file argv m :=
    everyCopyout_short held.sound admitted short
  exact tablesPresent_of_outside held admitted outside

theorem tablesPresent_of_input {file : Option File} {argv : List Str}
    (held : Held layout True m 0) (input : (∀ arg ∈ argv, arg.len < UINT - DEVSPACE) ∨
      (∀ arg ∈ argv, arg.len < KERNBASE) ∧
        EveryCopyout layout null (fun c => ¬c.InHole) file argv m) :
    TablesPresent layout m file argv := by
  rcases input with short | ⟨admitted, outside⟩
  · exact tablesPresent_of_short held short
  · exact tablesPresent_of_outside held admitted outside

theorem exec_returns {file : Option File} {argv : List Str} (held : Held layout True m 0)
    (tables : TablesPresent layout m file argv) :
    ∃ result m', exec layout (Code.stop .missingTable) file argv m = .ok (result, m') ∧
      exec layout null file argv m = .ok (result, m') := by
  have agrees := exec_agrees null file argv m tables
  cases ran : exec layout (Code.stop .missingTable) file argv m with
  | ok pair => exact ⟨pair.1, pair.2, rfl, agrees.trans ran⟩
  | error cause =>
    rcases (exec_ends held file argv).cause_of_error ran with unsure | rfl
    · exact absurd trivial unsure
    · exact absurd ran tables

/-- The first process after it has grown passes an argument of 32 MB. -/
theorem exec_reads_missing_table : ∃ k k' : Kernel Unit,
    main smallLayout (fun _ => zeroPage) 1 (fun _ => 0) 0 = .ok k ∧
      (kernel smallLayout k).exec k [(k.initproc, .sbrk 0x2500000)] = some k' ∧
      longArg.len < (k'.proc k.initproc).sz ∧
      ¬EveryCopyout smallLayout (loadNull (k'.proc k.initproc).pgdir)
        (Copy.Safe smallLayout (loadNull (k'.proc k.initproc).pgdir)) (some bareFile) [longArg]
        k'.mem := by
  obtain ⟨k, started⟩ := small_starts
  obtain ⟨k', growing, inv, _, size, _, _, room⟩ := booted_grows (main_ok started)
  have funded : Funded smallLayout k'.mem (uses k') := inv.owns
  refine ⟨k, k', started, ?_, ?_, ?_⟩
  · simp only [Machine.exec, growing, Option.bind_some]
  · rw [size]
    decide
  · obtain ⟨d, m1, m2, m3, setup, allocated, cleared, _⟩ := stack_succeeds funded room
    intro every
    have segments : loadSegments smallLayout d bareFile (bareFile.ushort 44) (bareFile.uint 28) 0
        m1 = .ok (some 0, m1) := rfl
    have stack : allocuvm smallLayout d (PGROUNDUP 0) (PGROUNDUP 0 + 2 * PGSIZE) m1 =
        .ok (2 * PGSIZE, m2) := allocated
    have some : 2 * PGSIZE ≠ 0 := by decide
    have ready := (ready_of_exec funded.held_zero setup segments stack some cleared).1
    have calls := every bareFile rfl rfl rfl d m1 setup 0 m1 segments _ m2 stack some m3 cleared
    have first := (calls.1.resolve_left (by decide)).1
    have outside := (ready.string _ (Nat.le_add_right _ _) (Nat.le_refl _)
      (by decide : longArg.len < KERNBASE)).1.mp first
    have hole : KERNBASE + PHYSTOP ≤ (2 * PGSIZE + UINT - (longArg.len + 1) % UINT) % UINT / 4 * 4 ∧
        (2 * PGSIZE + UINT - (longArg.len + 1) % UINT) % UINT / 4 * 4 < DEVSPACE := by decide
    exact outside hole

/-- A single short argument is copied safely. -/
theorem exec_copyouts_short_argument : ∃ k : Kernel Unit,
    main smallLayout (fun _ => zeroPage) 1 (fun _ => 0) 0 = .ok k ∧
      EveryCopyout smallLayout (loadNull (k.proc k.initproc).pgdir)
        (Copy.Safe smallLayout (loadNull (k.proc k.initproc).pgdir)) (some bareFile)
        [⟨100, fun _ => 1⟩] k.mem := by
  obtain ⟨k, started⟩ := small_starts
  have funded : Funded smallLayout k.mem (uses k) := (main_ok started).inv.owns
  refine ⟨k, started, (exec_copyouts smallLayout _ _ funded.held_zero.sound ?_).2 ?_⟩
  · exact List.forall_mem_singleton.mpr (by decide)
  · exact List.forall_mem_singleton.mpr (by decide)

end Xv6.Memory
