/-
Who may sleep on a pipe while its lock is free.

A process that sleeps, or has released `p->lock` in `sleep` and is about to, waits for a
change of the pipe.  Whoever makes such a change holds the lock and still owes a `wakeup`
on the channel, which it issues before it releases the lock; `pipewrite` breaks this when
it returns -1 from a full pipe after having stored bytes.
-/

import Xv6.Pipe.Fifo

namespace Xv6.Pipes

open Library

/-- The process sleeps on the channel or can no longer be kept from it. -/
def Waits (s : System) (chan : Chan) (q : Nat) : Prop :=
  (s.proc q).sleeping = some chan ∨
    ∃ call, (s.proc q).pc = .mark call ∧ call.chan = chan

/-- What a sleeper on the channel waits for has not happened. -/
def Blocked (pipe : Pipe) : Chan → Prop
  | .nread => pipe.isEmpty = true ∧ pipe.writeopen = true
  | .nwrite => pipe.isFull = true ∧ pipe.readopen = true

/-- A process at this point calls `wakeup` on the channel before it releases the lock. -/
def Pc.owes : Pc → Chan → Bool
  | .loop (.write _ _), .nread | .wakeFull _ _, .nread | .stored _, .nread => true
  | .copy _ _, .nwrite | .copied _ _, .nwrite => true
  | .closed true, .nread | .closed false, .nwrite => true
  | _, _ => false

/-- What a process on its way to `sleep` has tested under the lock. -/
def Tested (pipe : Pipe) : Pc → Prop
  | .wakeFull _ _ => Blocked pipe .nwrite
  | .sleep call | .unlock call => Blocked pipe call.chan
  | _ => True

theorem tested_of_unlocked {pipe : Pipe} {pc : Pc} (unlocked : ¬ pc.holdsLock = true) :
    Tested pipe pc := by
  cases pc with
  | wakeFull n left => exact absurd rfl unlocked
  | sleep call => exact absurd rfl unlocked
  | unlock call => exact absurd rfl unlocked
  | _ => trivial

theorem holdsLock_of_owes {pc : Pc} {chan : Chan} (owes : pc.owes chan = true) :
    pc.holdsLock = true := by
  cases pc with
  | outside => cases owes
  | acquire call => cases owes
  | mark call => cases owes
  | asleep call => cases owes
  | acquireClose writable => cases owes
  | _ => rfl

structure SleepInv (s : System) : Prop where
  tested : ∀ p, Tested s.pipe (s.proc p).pc
  sleepers : ∀ chan q, Waits s chan q →
    Blocked s.pipe chan ∨ ∃ p, (s.proc p).pc.owes chan = true

/-! ### Waiting processes -/

section Waits

variable {s next : System} {p q : Nat} {pc : Pc} {chan : Chan}

theorem Moves.waits (moves : Moves s p pc next) (apart : ∀ call, pc ≠ .mark call)
    (waits : Waits next chan q) : Waits s chan q := by
  rcases waits with asleep | ⟨call, marking, same⟩
  · exact Or.inl (moves.sleepers q chan asleep)
  · by_cases equal : q = p
    · rw [equal, moves.here] at marking
      exact absurd marking (apart call)
    · rw [moves.others q equal] at marking
      exact Or.inr ⟨call, marking, same⟩

theorem waits_of_markSleeping {call : Call} (point : (s.proc p).pc = .mark call)
    (waits : Waits (s.markSleeping p call) chan q) : Waits s chan q := by
  by_cases equal : q = p
  · rw [equal] at waits ⊢
    rcases waits with asleep | ⟨later, marking, same⟩
    · rw [s.markSleeping_self] at asleep
      exact Or.inr ⟨call, point, Option.some.inj asleep⟩
    · rw [s.markSleeping_self] at marking
      cases marking
  · unfold Waits at waits
    rwa [s.markSleeping_other equal] at waits

theorem waits_of_setKilled (waits : Waits (s.setKilled p) chan q) :
    Waits s chan q := by
  rcases waits with asleep | ⟨call, marking, same⟩
  · exact Or.inl (s.setKilled_sleeping asleep)
  · rw [s.setKilled_pc] at marking
    exact Or.inr ⟨call, marking, same⟩

/-- A `wakeup` leaves nobody waiting: it needs `ptable.lock`, which a process on its way
to sleep holds. -/
theorem not_waits_of_wakeup (locks : Locks s) (free : s.ptable = none)
    (apart : ∀ call, pc ≠ .mark call) :
    ¬ Waits ((s.wakeup1 chan).setPc p pc) chan q := by
  intro waits
  have moves : Moves (s.wakeup1 chan) p pc ((s.wakeup1 chan).setPc p pc) :=
    Moves.setPc pc rfl
  rcases moves.waits apart waits with asleep | ⟨call, marking, _⟩
  · exact (s.wakeup1_sleeping asleep).2 rfl
  · rw [s.wakeup1_pc] at marking
    have held : (s.proc q).pc.holdsTable = true := by
      rw [marking]
      rfl
    exact locks.table.not_free held free

end Waits

/-! ### The invariant -/

namespace SleepInv

variable {s next : System} {p : Nat} {pc before : Pc}

theorem boot : SleepInv machine.start := by
  constructor
  · exact fun _ => trivial
  · intro chan q waits
    rcases waits with asleep | ⟨call, marking, _⟩
    · cases asleep
    · cases marking

/-- The rule for a step of `p`: what it leaves blocked or owed must cover those who still
wait. -/
theorem goes (inv : SleepInv s) (locks : Locks s)
    (point : (s.proc p).pc = before) (goes : Goes s p pc next)
    (others : next.pipe = s.pipe ∨ before.holdsLock = true)
    (owed : ∀ chan q, Waits next chan q →
      Blocked next.pipe chan ∨
        (Waits s chan q ∧ (Blocked s.pipe chan ∨ before.owes chan = true →
          Blocked next.pipe chan ∨ pc.owes chan = true)))
    (here : Tested next.pipe pc) : SleepInv next := by
  constructor
  · intro q
    by_cases same : q = p
    · rw [same, goes.here]
      exact here
    · rw [goes.others q same]
      rcases others with pipe | held
      · rw [pipe]
        exact inv.tested q
      · apply tested_of_unlocked
        exact fun also => same (locks.lock.unique also (point ▸ held))
  · intro chan q waits
    have justify : Blocked next.pipe chan ∨ pc.owes chan = true →
        Blocked next.pipe chan ∨ ∃ r, (next.proc r).pc.owes chan = true := by
      rintro (blocked | owes)
      · exact Or.inl blocked
      · exact Or.inr ⟨p, goes.here ▸ owes⟩
    rcases owed chan q waits with blocked | ⟨waited, covers⟩
    · exact Or.inl blocked
    · rcases inv.sleepers chan q waited with blocked | ⟨r, owes⟩
      · exact justify (covers (Or.inl blocked))
      · by_cases same : r = p
        · rw [same, point] at owes
          exact justify (covers (Or.inr owes))
        · rw [← goes.others r same] at owes
          exact Or.inr ⟨r, owes⟩

/-- A step that changes neither the pipe nor what `p` owes. -/
theorem quiet (inv : SleepInv s) (locks : Locks s)
    (point : (s.proc p).pc = before) (moved : Goes s p pc next)
    (pipe : next.pipe = s.pipe)
    (waits : ∀ chan q, Waits next chan q → Waits s chan q)
    (kept : ∀ chan, before.owes chan = true → pc.owes chan = true)
    (here : Tested s.pipe pc) : SleepInv next := by
  apply inv.goes locks point moved (Or.inl pipe)
  · intro chan q still
    refine Or.inr ⟨waits chan q still, ?_⟩
    rw [pipe]
    exact Or.imp_right (kept chan)
  · rw [pipe]
    exact here

/-- A `wakeup` pays what is owed on its channel. -/
theorem wakes (inv : SleepInv s) (locks : Locks s) (chan : Chan)
    (point : (s.proc p).pc = before) (free : s.ptable = none)
    (apart : ∀ call, pc ≠ .mark call)
    (kept : ∀ other, other ≠ chan → before.owes other = true → pc.owes other = true)
    (here : Tested s.pipe pc) :
    SleepInv ((s.wakeup1 chan).setPc p pc) := by
  apply inv.goes locks point (Goes.wakeup chan pc) (Or.inl rfl)
  · intro other q waits
    refine Or.inr ⟨(Moves.wakeup chan pc).waits apart waits, ?_⟩
    have different : other ≠ chan := by
      intro same
      rw [same] at waits
      exact not_waits_of_wakeup locks free apart waits
    exact Or.imp_right (kept other different)
  · exact here

/-- Storing a byte: the writer owes the readers a `wakeup`, and no writer waits. -/
theorem stores (inv : SleepInv s) (locks : Locks s) (n : Nat) (byte : UInt8)
    (left : List UInt8) (point : (s.proc p).pc = .loop (.write n (byte :: left)))
    (room : s.pipe.isFull = false) :
    SleepInv { s.setPc p (.loop (.write n left)) with
      pipe := s.pipe.store byte } := by
  refine inv.goes locks point (Goes.setPc (.loop (.write n left)) rfl) (Or.inr rfl) ?_ trivial
  intro chan q waits
  have moves : Moves s p (.loop (.write n left))
      { s.setPc p (.loop (.write n left)) with pipe := s.pipe.store byte } :=
    Moves.setPc _ rfl
  refine Or.inr ⟨moves.waits (by simp) waits, ?_⟩
  cases chan with
  | nread => exact fun _ => Or.inr rfl
  | nwrite =>
    rintro (blocked | owes)
    · exact absurd blocked.1 (Bool.eq_false_iff.mp room)
    · cases owes

/-- Taking a byte: the reader owes the writers a `wakeup`, and no reader waits. -/
theorem takes (inv : SleepInv s) (locks : Locks s) (n : Nat) (got : List UInt8)
    (point : (s.proc p).pc = .copy n got) (some : s.pipe.isEmpty = false) :
    SleepInv { s.setPc p (.copy n (got ++ [s.pipe.oldest])) with
      pipe := s.pipe.take } := by
  refine inv.goes locks point (Goes.setPc (.copy n (got ++ [s.pipe.oldest])) rfl)
    (Or.inr rfl) ?_ trivial
  intro chan q waits
  have moves : Moves s p (.copy n (got ++ [s.pipe.oldest]))
      { s.setPc p (.copy n (got ++ [s.pipe.oldest])) with
        pipe := s.pipe.take } :=
    Moves.setPc _ rfl
  refine Or.inr ⟨moves.waits (by simp) waits, ?_⟩
  cases chan with
  | nread =>
    rintro (blocked | owes)
    · exact absurd blocked.1 (Bool.eq_false_iff.mp some)
    · cases owes
  | nwrite => exact fun _ => Or.inr rfl

theorem closes (inv : SleepInv s) (locks : Locks s) (writable : Bool)
    (point : (s.proc p).pc = .close writable) :
    SleepInv { s.setPc p (.closed writable) with
      pipe := s.pipe.closeEnd writable } := by
  refine inv.goes locks point (Goes.setPc (.closed writable) rfl) (Or.inr rfl) ?_ trivial
  intro chan q waits
  have moves : Moves s p (.closed writable)
      { s.setPc p (.closed writable) with pipe := s.pipe.closeEnd writable } :=
    Moves.setPc _ rfl
  refine Or.inr ⟨moves.waits (by simp) waits, ?_⟩
  -- The end that is closed blocks only the sleepers of the channel that is owed.
  rintro (blocked | owes)
  · cases writable <;> cases chan
    · exact Or.inl blocked
    · exact Or.inr rfl
    · exact Or.inr rfl
    · exact Or.inl blocked
  · cases owes

/-- The step that leaves the debts of `pipewrite` unpaid. -/
theorem aborts (inv : SleepInv s) (locks : Locks s)
    (n : Nat) (left : List UInt8) (point : (s.proc p).pc = .loop (.write n left))
    (nobody : ∀ q, ¬ Waits s .nread q) : SleepInv (s.finish p (-1)) := by
  apply inv.goes locks point (Goes.finish (-1)) (Or.inl rfl)
  · intro chan q waits
    have waited := (Moves.finish (-1)).waits (by simp) waits
    refine Or.inr ⟨waited, ?_⟩
    cases chan with
    | nread => exact absurd waited (nobody q)
    | nwrite =>
      rintro (blocked | owes)
      · exact Or.inl blocked
      · cases owes
  · trivial

/-- Giving up the lock in `sleep`: the process now waits for what it has tested. -/
theorem unlocks (inv : SleepInv s) (locks : Locks s) (call : Call)
    (point : (s.proc p).pc = .unlock call) :
    SleepInv (s.release p (.mark call)) := by
  have goes : Goes s p (.mark call) (s.release p (.mark call)) :=
    Goes.setPc (.mark call) rfl
  have moves : Moves s p (.mark call) (s.release p (.mark call)) :=
    Moves.setPc (.mark call) rfl
  apply inv.goes locks point goes (Or.inl rfl)
  · intro chan q waits
    rcases waits with asleep | ⟨later, marking, same⟩
    · refine Or.inr ⟨Or.inl (moves.sleepers q chan asleep), ?_⟩
      rintro (blocked | owes)
      · exact Or.inl blocked
      · cases owes
    · by_cases equal : q = p
      · rw [equal, goes.here] at marking
        have tested := inv.tested p
        rw [point] at tested
        rw [← same, ← Pc.mark.inj marking]
        exact Or.inl tested
      · rw [goes.others q equal] at marking
        refine Or.inr ⟨Or.inr ⟨later, marking, same⟩, ?_⟩
        rintro (blocked | owes)
        · exact Or.inl blocked
        · cases owes
  · trivial

end SleepInv

/-! ### The condition -/

/-- A `pipewrite` returns -1 from a full pipe only while no process waits for bytes. -/
def AbortCondition (s : System) (event : Event) : Prop :=
  ∀ p n left, event = .run p → (s.proc p).pc = .loop (.write n left) → left ≠ [] →
    s.pipe.isFull = true →
    s.pipe.readopen = false ∨ (s.proc p).killed = true →
    ∀ q, ¬ Waits s .nread q

namespace SleepInv

variable {s next : System} {p : Nat} {pc : Pc}

theorem run (inv : SleepInv s) (locks : Locks s)
    (condition : AbortCondition s (.run p)) (point : (s.proc p).pc = pc)
    (ran : Run s p pc next) : SleepInv next := by
  have known := inv.tested p
  rw [point] at known
  -- Moves of `p` that leave the pipe, the debts and the sleepers alone.
  have keeps {before after : Pc} {next : System} (point : (s.proc p).pc = before)
      (moves : Moves s p after next) (pipe : next.pipe = s.pipe)
      (apart : ∀ call, after ≠ .mark call)
      (kept : ∀ chan, before.owes chan = true → after.owes chan = true)
      (here : Tested s.pipe after) : SleepInv next :=
    inv.quiet locks point moves.toGoes pipe (fun _ _ => moves.waits apart) kept here
  have nothing {before after : Pc} (free : ∀ chan, before.owes chan = false) :
      ∀ chan, before.owes chan = true → after.owes chan = true := by
    intro chan owes
    rw [free chan] at owes
    cases owes
  cases ran with
  | acquires call free =>
    exact keeps point (Moves.setPc (.loop call) rfl) rfl (by simp) (nothing (fun _ => rfl))
      trivial
  | finishesStoring n =>
    refine keeps point (Moves.setPc (.stored n) rfl) rfl (by simp) ?_ trivial
    intro chan owes
    cases chan with
    | nread => rfl
    | nwrite => cases owes
  | aborts n byte left full cause =>
    apply inv.aborts locks n (byte :: left) point
    exact condition p n (byte :: left) rfl point (List.cons_ne_nil byte left) full cause
  | fills n byte left full listening =>
    refine keeps point (Moves.setPc (.wakeFull n (byte :: left)) rfl) rfl (by simp) ?_
      ⟨full, listening⟩
    intro chan owes
    cases chan with
    | nread => rfl
    | nwrite => cases owes
  | stores n byte left room => exact inv.stores locks n byte left point room
  | cancels n =>
    exact keeps point (Moves.finish (-1)) rfl (by simp) (nothing (fun _ => rfl)) trivial
  | waits n empty feeding =>
    exact keeps point (Moves.setPc (.sleep (.read n)) rfl) rfl (by simp)
      (nothing (fun _ => rfl)) ⟨empty, feeding⟩
  | reads n ready =>
    exact keeps point (Moves.setPc (.copy n []) rfl) rfl (by simp) (nothing (fun _ => rfl))
      trivial
  | wakesAtFull n left free =>
    refine inv.wakes locks .nread point free (by simp) ?_ known
    intro other different owes
    cases other with
    | nread => exact absurd rfl different
    | nwrite => cases owes
  | sleeps call free =>
    exact keeps point (Moves.setPc (.unlock call) rfl) rfl (by simp)
      (nothing (fun _ => rfl)) known
  | unlocks call => exact inv.unlocks locks call point
  | marks call =>
    exact inv.quiet locks point (Goes.markSleeping call) rfl
      (fun _ _ => waits_of_markSleeping point) (nothing (fun _ => rfl)) trivial
  | resumes call woken =>
    exact keeps point (Moves.setPc (.acquire call) rfl) rfl (by simp)
      (nothing (fun _ => rfl)) trivial
  | wakesReaders n free =>
    refine inv.wakes locks .nread point free (by simp) ?_ trivial
    intro other different owes
    cases other with
    | nread => exact absurd rfl different
    | nwrite => cases owes
  | leavesWrite n =>
    exact keeps point (Moves.finish n) rfl (by simp) (nothing (fun _ => rfl)) trivial
  | takes n got more some => exact inv.takes locks n got point some
  | stops n got done =>
    refine keeps point (Moves.setPc (.copied n got) rfl) rfl (by simp) ?_ trivial
    intro chan owes
    cases chan with
    | nread => cases owes
    | nwrite => rfl
  | wakesWriters n got free =>
    refine inv.wakes locks .nwrite point free (by simp) ?_ trivial
    intro other different owes
    cases other with
    | nread => cases owes
    | nwrite => exact absurd rfl different
  | leavesRead n got =>
    exact keeps point (Moves.finish got.length) rfl (by simp) (nothing (fun _ => rfl))
      trivial
  | acquiresClose writable free =>
    exact keeps point (Moves.setPc (.close writable) rfl) rfl (by simp)
      (nothing (fun _ => rfl)) trivial
  | closes writable => exact inv.closes locks writable point
  | wakesClosed writable free =>
    refine inv.wakes locks _ point free (by simp) ?_ trivial
    intro other different owes
    cases writable <;> cases other
    · cases owes
    · exact absurd rfl different
    · exact absurd rfl different
    · cases owes
  | leavesClose =>
    exact keeps point (Moves.setPc .outside rfl) rfl (by simp) (nothing (fun _ => rfl))
      trivial

theorem step {event : Event} (inv : SleepInv s) (locks : Locks s)
    (condition : AbortCondition s event) (stepped : Step s event next) :
    SleepInv next := by
  cases stepped with
  | @starts event p pc started outside =>
    have moves : Moves s p pc (s.setPc p pc) := Moves.setPc pc rfl
    refine inv.quiet locks outside moves.toGoes rfl ?_ ?_ ?_
    · intro chan q
      apply moves.waits
      cases started <;> simp
    · intro chan owes
      cases owes
    · cases started <;> trivial
  | runs point ran => exact inv.run locks condition point ran
  | @kills p free =>
    exact inv.quiet locks rfl Goes.setKilled rfl (fun _ _ => waits_of_setKilled)
      (fun _ owes => owes) (inv.tested p)

end SleepInv

/-- While `p->lock` is free, a process sleeps on `nread` only if the pipe is empty and can
still be written, and on `nwrite` only if it is full and can still be read. -/
def Unstranded (s : System) : Prop :=
  s.lock = none → ∀ q,
    ((s.proc q).sleeping = some .nread →
      s.pipe.contents = [] ∧ s.pipe.writeopen = true) ∧
    ((s.proc q).sleeping = some .nwrite →
      s.pipe.contents.length = PIPESIZE ∧ s.pipe.readopen = true)

theorem SleepInv.unstranded {s : System} (inv : SleepInv s) (locks : Locks s) :
    Unstranded s := by
  intro free q
  have blocked {chan : Chan} (asleep : (s.proc q).sleeping = some chan) :
      Blocked s.pipe chan := by
    rcases inv.sleepers chan q (Or.inl asleep) with blocked | ⟨p, owes⟩
    · exact blocked
    · exact absurd free (locks.lock.not_free (holdsLock_of_owes owes))
  constructor
  · intro asleep
    obtain ⟨empty, feeding⟩ := blocked asleep
    refine ⟨?_, feeding⟩
    apply List.eq_nil_of_length_eq_zero
    rw [Pipe.contents, length_segment]
    exact Pipe.isEmpty_iff.mp empty
  · intro asleep
    obtain ⟨full, listening⟩ := blocked asleep
    refine ⟨?_, listening⟩
    rw [Pipe.contents, length_segment]
    exact Pipe.isFull_iff.mp full

/-- No sleeper is stranded in a run in which a `pipewrite` returns -1 from a full pipe only
while no process waits for bytes. -/
theorem no_stranded_sleeper (labels : List Event)
    (meets : machine.Meets AbortCondition machine.start labels) :
    machine.Always Unstranded machine.start labels := by
  let good : System → Prop := fun s => Locks s ∧ SleepInv s
  have kept : machine.Always good machine.start labels := by
    apply Machine.Meets.always ?_ ⟨Locks.boot, SleepInv.boot⟩ meets
    intro s event next holds condition stepped
    have inversion := step_inversion stepped
    exact ⟨holds.1.step inversion, holds.2.step holds.1 condition inversion⟩
  exact kept.mono (fun s holds => holds.2.unstranded holds.1)

/-- The pipe is not full at this step of a writer, or the writer goes on waiting. -/
def goesOn (s : System) : Event → Bool
  | .run p =>
    !s.pipe.isFull || (s.pipe.readopen && !(s.proc p).killed)
  | _ => true

theorem abortCondition_of_goesOn (s : System) (event : Event)
    (test : goesOn s event = true) : AbortCondition s event := by
  intro p n left same _ _ full cause
  rw [same, goesOn, full, Bool.not_true, Bool.false_or, Bool.and_eq_true,
    Bool.not_eq_true'] at test
  rcases cause with ended | killed
  · rw [ended] at test
    cases test.1
  · rw [killed] at test
    cases test.2

/-- Process 0 sleeps for a byte; process 1 fills the pipe, wakes process 0 and sleeps. -/
def fullPipe : List Event :=
  .read 0 1 :: List.replicate 5 (.run 0) ++
    .write 1 (List.replicate 513 7) :: List.replicate 518 (.run 1)

set_option maxRecDepth 100000 in
theorem no_stranded_sleeper_full_pipe :
    ∃ s, machine.exec {} fullPipe = some s ∧
      (s.proc 1).sleeping = some .nwrite ∧ Unstranded s := by
  have tested : machine.checks goesOn {} fullPipe = true := by decide +kernel
  obtain ⟨s, ran, asleep⟩ : ∃ s, machine.exec {} fullPipe = some s ∧
      (s.proc 1).sleeping = some .nwrite := by
    decide +kernel
  have meets := Machine.meets_of_checks abortCondition_of_goesOn fullPipe tested
  exact ⟨s, ran, asleep, (no_stranded_sleeper fullPipe meets).last ran⟩

/-- Process 0 sleeps for a byte; process 1 starts to write 513 of them and is killed, so
that it returns from the full pipe without waking process 0. -/
def killedWriter : List Event :=
  .read 0 1 :: List.replicate 5 (.run 0) ++
    .write 1 (List.replicate 513 7) :: .run 1 :: .kill 1 :: List.replicate 513 (.run 1)

set_option maxRecDepth 100000 in
theorem reader_stranded_by_killed_writer :
    ∃ s, machine.Reachable s ∧ s.lock = none ∧
      (s.proc 0).sleeping = some .nread ∧ (s.proc 1).result = -1 ∧
      s.pipe.isFull = true ∧ s.pipe.writeopen = true := by
  obtain ⟨s, ran, stranded⟩ : ∃ s, machine.exec {} killedWriter = some s ∧
      s.lock = none ∧ (s.proc 0).sleeping = some .nread ∧
      (s.proc 1).result = -1 ∧ s.pipe.isFull = true ∧ s.pipe.writeopen = true := by
    decide +kernel
  exact ⟨s, ⟨killedWriter, ran⟩, stranded⟩

end Xv6.Pipes
