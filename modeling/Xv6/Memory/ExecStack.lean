/-
What `main` of a new program finds on its stack.

`exec` lowers the stack pointer for each argument, copies the string there, and ends with
a frame of words below the strings.  Read back through the new page directory, this is an
argument count and an array of pointers to the strings, all in the page of the stack.
-/

import Xv6.Memory.ExecCopies

namespace Xv6.Memory

open Library Library.Code

variable {layout : Layout} {sure : Prop} {m m' : Mem} {d sp sz last : Nat} {argv : List Str}
  {addrs : List Nat}

/-- The word at an address of user memory. -/
def userWord (m : Mem) (d a : Nat) : Option Nat := do
  let b0 ← userByte m d a
  let b1 ← userByte m d (a + 1)
  let b2 ← userByte m d (a + 2)
  let b3 ← userByte m d (a + 3)
  pure (b0.toNat + 256 * b1.toNat + 256 ^ 2 * b2.toNat + 256 ^ 3 * b3.toNat)

/-- A NUL-terminated copy of a string. -/
def Str.StoredAt (arg : Str) (m : Mem) (d a : Nat) : Prop :=
  (∀ i, i < arg.len → userByte m d (a + i) = some (arg.byte i)) ∧
    userByte m d (a + arg.len) = some 0

/-- A range of addresses, with its length. -/
structure Region where
  start : Nat
  size : Nat

def Region.Apart (r s : Region) : Prop :=
  r.start + r.size ≤ s.start ∨ s.start + s.size ≤ r.start

def stringRegions (argv : List Str) (addrs : List Nat) : List Region :=
  List.zipWith (fun arg a => ⟨a, arg.len + 1⟩) argv addrs

/-- The frame, the array and the strings. -/
def stackRegions (sp : Nat) (argv : List Str) (addrs : List Nat) : List Region :=
  ⟨sp, 12⟩ :: ⟨sp + 12, 4 * (argv.length + 1)⟩ :: stringRegions argv addrs

theorem HasBytes.word {words : List Nat} {n i w : Nat}
    (has : HasBytes m d sp (n * 4) (wordBytes words)) (inside : i < n)
    (found : words[i]? = some w) (small : w < UINT) : userWord m d (sp + 4 * i) = some w := by
  have byte (j : Nat) (below : j < 4) :
      userByte m d (sp + 4 * i + j) = some (UInt8.ofNat (w / 256 ^ j)) := by
    have position : sp + 4 * i + j - sp = 4 * i + j := by omega
    have parts : (4 * i + j) / 4 = i ∧ (4 * i + j) % 4 = j := by omega
    rw [(has (sp + 4 * i + j) (by omega) (by omega)).2, position]
    unfold wordBytes
    rw [parts.1, parts.2, List.getD_eq_getElem?_getD, found]
    rfl
  have first := byte 0 (by decide)
  rw [Nat.add_zero] at first
  unfold userWord
  rw [first, byte 1 (by decide), byte 2 (by decide), byte 3 (by decide)]
  simp only [Option.bind_eq_bind, Option.bind_some, Option.pure_def, UInt8.toNat_ofNat',
    Option.some.injEq, UINT] at small ⊢
  omega

theorem HasBytes.storedAt {arg : Str} {a : Nat} (has : HasBytes m d a (arg.len + 1) arg.bytes) :
    arg.StoredAt m d a := by
  have byte (i : Nat) (inside : i < arg.len + 1) : userByte m d (a + i) = some (arg.bytes i) := by
    rw [(has (a + i) (by omega) (by omega)).2, Nat.add_sub_cancel_left]
  refine ⟨fun i inside => ?_, ?_⟩
  · rw [byte i (by omega), Str.bytes, if_pos inside]
  · rw [byte _ (by omega), Str.bytes, if_neg (Nat.lt_irrefl _)]

/-- The strings lie one below the other. -/
theorem Pushed.arranged (argv : List Str) : ∀ {addrs : List Nat} {sp last : Nat},
    Pushed m d argv addrs sp last →
      List.Forall₂ (fun arg a => a % 4 = 0 ∧ arg.StoredAt m d a) argv addrs ∧
      (∀ r ∈ stringRegions argv addrs, last ≤ r.start ∧ r.start + r.size ≤ sp) ∧
      (stringRegions argv addrs).Pairwise Region.Apart ∧ (∀ a ∈ addrs, a ≤ sp) ∧
      (sp % 4 = 0 → last % 4 = 0) := by
  induction argv with
  | nil =>
    rintro addrs sp last ⟨rfl, rfl⟩
    exact ⟨.nil, nofun, .nil, nofun, id⟩
  | cons arg rest ih =>
    intro addrs sp last pushed
    cases addrs with
    | nil => exact pushed.elim
    | cons a addrs =>
      obtain ⟨aligned, below, has, strings⟩ := pushed
      have lower := Pushed.le rest strings
      obtain ⟨stored, inside, apart, addresses, final⟩ := ih strings
      refine ⟨.cons ⟨aligned, has.storedAt⟩ stored, ?_, .cons ?_ apart, ?_, fun _ => final aligned⟩
      · intro r member
        rcases List.mem_cons.mp member with rfl | later
        · exact ⟨lower, below.1⟩
        · have range := inside r later
          omega
      · intro r member
        exact Or.inr (inside r member).2
      · intro b member
        rcases List.mem_cons.mp member with rfl | later
        · omega
        · have range := addresses b later
          omega

/-! ### An `exec` that succeeds -/

/-- A copy into the page of the stack. -/
theorem Ready.copyout_stack {len : Nat} {source : Nat → UInt8} (va : Nat)
    (ready : Ready layout True m d sz)
    (stack : user (pte m d (slot (sz / PGSIZE - 1))) = true) (some : 0 < len)
    (low : sz ≤ va + PGSIZE) (high : va + len ≤ sz) :
    ∃ m', (∀ null, copyout layout null d va source len m = .ok (true, m')) ∧
      Ready layout True m' d sz ∧ user (pte m' d (slot (sz / PGSIZE - 1))) = true := by
  obtain ⟨fuel, rfl⟩ : ∃ fuel, len = fuel + 1 := ⟨len - 1, by omega⟩
  have aligned := ready.aligned
  have limit := ready.limit
  have page : va / PGSIZE = sz / PGSIZE - 1 ∧ va % PGSIZE + (fuel + 1) ≤ PGSIZE ∧
      (sz / PGSIZE - 1) * PGSIZE < sz := by
    simp only [PGSIZE] at aligned low high ⊢
    omega
  have small : va < UINT := by
    simp only [KERNBASE] at limit
    simp only [UINT]
    omega
  have there := (ready.mapped _ (Nat.lt_trans page.2.2 limit)).mpr page.2.2
  have found (null : Op Nat) : uva2ka null d (va / PGSIZE) m =
      .ok (Option.some (pteAddr (pte m d (slot (sz / PGSIZE - 1)))), m) := by
    rw [page.1, uva2ka_eq (table_present there), if_pos ⟨there, stack⟩]
  have member := mem_users.mpr ⟨_, slot_low (Nat.lt_trans page.2.2 limit), there, rfl⟩
  have managed := ready.held.manages (mem_space.mpr (Or.inr (Or.inr member))) trivial
  generalize pteAddr (pte m d (slot (sz / PGSIZE - 1))) = n at found managed
  have whole : min (PGSIZE - va % PGSIZE) (fuel + 1) = fuel + 1 := by omega
  have rest (null : Op Nat) (va : Nat) (source : Nat → UInt8) (m : Mem) :
      copyoutLoop layout null d fuel va 0 source m = .ok (true, m) := by
    cases fuel with
    | zero => rfl
    | succ fuel => rfl
  obtain ⟨m', copied⟩ : ∃ m', ∀ null,
      copyout layout null d va source (fuel + 1) m = .ok (true, m') := by
    refine ⟨m.setPage n ((m.page n).write (va % PGSIZE) (fuel + 1) source), fun null => ?_⟩
    unfold copyout
    rw [copyoutLoop_next fuel some managed (found null), whole, Nat.sub_self]
    exact rest null ..
  obtain ⟨writes, _⟩ := (copyout_ends ready.held ready.kernel small).post_of_ok (copied _)
  refine ⟨_, copied, ready.writes writes, ?_⟩
  rw [writes.same.entries]
  exact stack

/-- An executable with one segment, the bytes `hi` at address 0. -/
def hiFile : File where
  size := 86
  byte := fun i => ([(0, 0x7F), (1, 0x45), (2, 0x4C), (3, 0x46), (28, 52), (44, 1), (52, 1), (56, 84),
    (68, 2), (72, 2), (84, 0x68), (85, 0x69)].lookup i).getD 0

theorem loaduvm_hi (sized : Exact layout True m d 2) :
    ∃ m', loaduvm layout d 0 hiFile 84 2 m = .ok (true, m') := by
  have there := (sized.mapped 0 (by decide)).mpr (by decide)
  obtain ⟨_, m', stored, _⟩ := (store_user (fun i => hiFile.byte (84 + i)) sized.held (by decide) there
    (by decide : 0 + 2 ≤ PGSIZE)).exists_ok (fun _ stopped => stopped.1 trivial)
  refine ⟨m', ?_⟩
  change loadLoop layout d 0 hiFile 84 2 (1 + 1) 0 m = _
  unfold loadLoop
  rw [if_pos (by decide)]
  refine (bind_ok (walkpgdir_present false (table_present there))).trans ?_
  refine (bind_ok (getEntry_ok (table_present there))).trans ?_
  exact bind_ok stored

theorem Writes.roomy {need : Finset (Fin NPTENTRIES)} {spare : Nat} (writes : Writes m m' d)
    (room : Roomy m d need spare) : Roomy m' d need spare := by
  have conserved := congrArg Multiset.card writes.trade.conserved
  rw [writes.same.pages, Multiset.card_add, Multiset.card_add] at conserved
  unfold Roomy at room ⊢
  rw [writes.same.dir, ← Multiset.coe_card, Nat.add_right_cancel conserved]
  exact room

theorem exec_hi {held : Multiset Use} (funded : Funded layout m held)
    (room : 71 ≤ m.freelist.length) :
    ∃ d m', ∀ null, exec layout null (some hiFile) [⟨2, fun _ => 0x61⟩] m =
      .ok (some ⟨d, 12288, 0, 12264⟩, m') := by
  obtain ⟨d, m1, setup, new⟩ := setupkvm_succeeds funded.held_zero (by omega)
  have length := setupkvm_length new
  have fresh := new.fresh funded.held_zero
  have low (v : Nat) (below : v * PGSIZE < 3 * PGSIZE) : PDX v ∈ ({PDX 0} : Finset _) := by
    rw [Finset.mem_singleton]
    apply Fin.ext
    simp only [PGSIZE] at below
    change v / 1024 % 1024 = 0
    omega
  have roomy : Roomy m1 d {PDX 0} (3 + PGROUNDUP 2 / PGSIZE) := by
    apply Roomy.of_length
    rw [Finset.card_singleton]
    change 1 + (3 + 1) ≤ m1.freelist.length
    omega
  obtain ⟨_, m2, allocated, allocates⟩ :=
    (fresh.sized.allocuvm_ends 2).exists_ok (fun _ => not_not_intro trivial)
  obtain ⟨rfl, room2⟩ := allocates.room (by decide) (by decide) _ 3
    (fun v below => low v (Nat.lt_trans below (by decide))) roomy
  obtain ⟨sized2, _⟩ := fresh.sized.grown allocates (by decide)
  obtain ⟨m3, loaded⟩ := loaduvm_hi sized2
  obtain ⟨writes, _⟩ := (loaduvm_ends (by decide) rfl (by decide) sized2).post_of_ok loaded
  have segments : loadSegments layout d hiFile (hiFile.ushort 44) (hiFile.uint 28) 0 m1 =
      .ok (some 2, m3) := by
    change loadSegments layout d hiFile (0 + 1) 52 0 m1 = _
    unfold loadSegments
    rw [if_neg (by decide)]
    dsimp only
    rw [if_neg (by decide), if_neg (by decide), if_neg (by decide)]
    refine (bind_ok allocated).trans ?_
    rw [if_neg (by decide), if_neg (by decide)]
    exact bind_ok loaded
  obtain ⟨_, m4, grown, grows⟩ := ((writes.sized sized2).rounded.allocuvm_ends
    (PGROUNDUP 2 + 2 * PGSIZE)).exists_ok (fun _ => not_not_intro trivial)
  obtain ⟨rfl, _⟩ := grows.room (by decide) (by decide) _ 0 low (writes.roomy room2)
  obtain ⟨_, m5, cleared, _⟩ :=
    ((writes.sized sized2).rounded.guard_ends grows (by decide)).2.exists_ok (fun _ => id)
  obtain ⟨ready, placed⟩ := ready_of_exec funded.held_zero setup segments grown (by decide) cleared
  obtain ⟨m6, copied, ready6, stack6⟩ := ready.copyout_stack 12284 placed.stack
    (by decide : 0 < 3) (by decide) (by decide)
  obtain ⟨m7, framed, _⟩ := ready6.copyout_stack 12264 stack6
    (by decide : 0 < 20) (by decide) (by decide)
  refine ⟨d, m7, fun null => ?_⟩
  have strings : pushStrings layout null d [⟨2, fun _ => 0x61⟩] 12288 [] m5 =
      .ok (some (12284, [12284]), m6) := by
    unfold pushStrings
    rw [if_neg (by decide)]
    exact bind_ok (copied null)
  have pushed : pushArgs layout null d [⟨2, fun _ => 0x61⟩] 12288 m5 = .ok (some 12264, m7) := by
    unfold pushArgs
    rw [bind_ok strings]
    exact bind_ok (framed null)
  have built : buildImage layout null d hiFile [⟨2, fun _ => 0x61⟩] m1 =
      .ok (some (12288, 12264), m7) := by
    unfold buildImage
    rw [bind_ok segments]
    dsimp only
    refine (bind_ok grown).trans ?_
    rw [if_neg (by decide)]
    refine (bind_ok cleared).trans ?_
    exact bind_ok pushed
  unfold exec
  dsimp only
  rw [if_neg (by decide), if_neg (by decide), bind_ok setup]
  exact bind_ok built

theorem small_exec_hi : ∃ (k : Kernel Unit) (d : Nat) (m' : Mem),
    main smallLayout (fun _ => zeroPage) 1 (fun _ => 0) 0 = .ok k ∧
      Held smallLayout True k.mem 0 ∧ ∀ null, exec smallLayout null (some hiFile)
        [⟨2, fun _ => 0x61⟩] k.mem = .ok (some ⟨d, 12288, 0, 12264⟩, m') := by
  obtain ⟨k, started⟩ := small_starts
  have booted := main_ok started
  have funded : Funded smallLayout k.mem (uses k) := booted.inv.owns
  have room : 71 ≤ k.mem.freelist.length := by
    have free := booted.room
    omega
  obtain ⟨d, m', ran⟩ := exec_hi funded room
  exact ⟨k, d, m', started, funded.held_zero, ran⟩

/-! ### The arguments of `main` -/

/-- Where `exec` succeeds without a lookup through a missing page table: the words at `esp`,
the array of pointers, copies of the arguments, and where all of them are. -/
theorem exec_arguments {file : Option File} {image : Image} (null : Op Nat) (sound : m.Sound 0)
    (tables : TablesPresent layout m file argv)
    (ran : exec layout null file argv m = .ok (some image, m')) :
    ∃ addrs : List Nat,
      userWord m' image.pgdir image.esp = some 0xffffffff ∧
      userWord m' image.pgdir (image.esp + 4) = some argv.length ∧
      userWord m' image.pgdir (image.esp + 8) = some (image.esp + 12) ∧
      (∀ i a, addrs[i]? = some a → userWord m' image.pgdir (image.esp + 12 + 4 * i) = some a) ∧
      userWord m' image.pgdir (image.esp + 12 + 4 * argv.length) = some 0 ∧
      List.Forall₂ (fun arg a => a % 4 = 0 ∧ arg.StoredAt m' image.pgdir a) argv addrs ∧
      image.esp % 4 = 0 ∧ image.sz % PGSIZE = 0 ∧
      (stackRegions image.esp argv addrs).Pairwise Region.Apart ∧
      ∀ r ∈ stackRegions image.esp argv addrs,
        image.sz - PGSIZE ≤ r.start ∧ r.start + r.size ≤ image.sz := by
  rw [exec_agrees null file argv m tables] at ran
  have held : Held layout False m 0 := ⟨sound, False.elim⟩
  obtain ⟨_, built⟩ := (exec_ends held file argv).post_of_ok ran
  obtain ⟨_, f, _, _, ready, _, framed⟩ := built image rfl
  have bottom := framed.bottom ready
  obtain ⟨addrs, pushed, has⟩ := framed
  have lower := Pushed.le argv pushed
  have limit := ready.limit
  have aligned := ready.aligned
  obtain ⟨stored, inside, apart, addresses, final⟩ := Pushed.arranged argv pushed
  have length : addrs.length = argv.length := stored.length_eq.symm
  generalize image.esp = sp at *
  generalize image.sz = sz at *
  rw [length] at has lower inside final
  have word (i w : Nat) (found : ([0xffffffff, argv.length, sp + 12] ++ addrs ++ [0])[i]? = some w)
      (small : w < UINT) : userWord m' image.pgdir (sp + 4 * i) = some w := by
    have below : i < 3 + argv.length + 1 := by
      have range := (List.getElem?_eq_some_iff.mp found).1
      simp only [List.length_append, List.length_cons, List.length_nil, length] at range
      omega
    exact has.word below found small
  have last : ([0xffffffff, argv.length, sp + 12] ++ addrs ++ [0])[3 + argv.length]? = some 0 := by
    have front : ([0xffffffff, argv.length, sp + 12] ++ addrs).length = 3 + argv.length := by
      rw [List.length_append, length]
      rfl
    rw [← front]
    exact List.getElem?_concat_length
  simp only [KERNBASE] at limit
  simp only [PGSIZE] at aligned bottom ⊢
  refine ⟨addrs, word 0 _ rfl (by decide), word 1 _ rfl ?_, word 2 _ rfl ?_, ?_, ?_, stored, ?_,
    aligned, .cons ?_ (.cons ?_ apart), ?_⟩
  · simp only [UINT]
    omega
  · simp only [UINT]
    omega
  · intro i a found
    have range := addresses a (List.mem_of_getElem? found)
    have placed : ([0xffffffff, argv.length, sp + 12] ++ addrs ++ [0])[3 + i]? = some a := by
      have below := (List.getElem?_eq_some_iff.mp found).1
      rw [List.getElem?_append_left (by simp; omega), List.getElem?_append_right (by simp)]
      simpa using found
    have there := word (3 + i) a placed (by simp only [UINT]; omega)
    rwa [Nat.mul_add, ← Nat.add_assoc] at there
  · have there := word _ 0 last (by decide)
    rwa [Nat.mul_add, ← Nat.add_assoc] at there
  · have multiple := final (by omega)
    omega
  · intro r member
    left
    rcases List.mem_cons.mp member with rfl | string
    · exact Nat.le_refl _
    · have range := inside r string
      change sp + 12 ≤ r.start
      omega
  · intro r member
    have range := inside r member
    left
    change sp + 12 + 4 * (argv.length + 1) ≤ r.start
    omega
  · intro r member
    rcases List.mem_cons.mp member with rfl | member
    · exact ⟨by change sz - 4096 ≤ sp; omega, by change sp + 12 ≤ sz; omega⟩
    · rcases List.mem_cons.mp member with rfl | string
      · exact ⟨by change sz - 4096 ≤ sp + 12; omega,
          by change sp + 12 + 4 * (argv.length + 1) ≤ sz; omega⟩
      · have range := inside r string
        omega

/-- The first process executes a program with the argument `aa`. -/
theorem exec_arguments_one : ∃ (k : Kernel Unit) (d : Nat) (m' : Mem),
    main smallLayout (fun _ => zeroPage) 1 (fun _ => 0) 0 = .ok k ∧
      exec smallLayout (loadNull (k.proc k.initproc).pgdir) (some hiFile)
        [⟨2, fun _ => 0x61⟩] k.mem = .ok (some ⟨d, 12288, 0, 12264⟩, m') ∧
      userWord m' d 12264 = some 0xffffffff ∧ userWord m' d 12268 = some 1 ∧
      userWord m' d 12272 = some 12276 := by
  obtain ⟨k, d, m', started, held, ran⟩ := small_exec_hi
  have tables : TablesPresent smallLayout k.mem (some hiFile) [⟨2, fun _ => 0x61⟩] := by
    unfold TablesPresent
    rw [ran]
    nofun
  obtain ⟨_, first, count, array, _⟩ :=
    exec_arguments (loadNull (k.proc k.initproc).pgdir) held.sound tables (ran _)
  exact ⟨k, d, m', started, ran _, first, count, array⟩

end Xv6.Memory
