/-
What a step on a pipe can do.

`Run` lists the steps that a process takes inside of its calls, with all of their guards;
`Locks` says that the recorded holders of the two locks are the processes at the points
of the code that hold them.
-/

import Xv6.Library.Ownership
import Xv6.Pipe.Model

namespace Xv6.Pipes

open Function Library

namespace System

variable (s : System)

variable {p q : Nat}

theorem markSleeping_self (p : Nat) (call : Call) :
    (s.markSleeping p call).proc p =
      { s.proc p with pc := .asleep call, sleeping := some call.chan } :=
  update_self p _ s.proc

theorem markSleeping_other (other : q ≠ p) (call : Call) :
    (s.markSleeping p call).proc q = s.proc q :=
  update_of_ne other _ s.proc

theorem setKilled_self (p : Nat) :
    (s.setKilled p).proc p = { s.proc p with killed := true, sleeping := none } :=
  update_self p _ s.proc

theorem setKilled_other (other : q ≠ p) :
    (s.setKilled p).proc q = s.proc q :=
  update_of_ne other _ s.proc

theorem setKilled_pc (p q : Nat) : ((s.setKilled p).proc q).pc = (s.proc q).pc := by
  by_cases same : q = p
  · rw [same, setKilled_self]
  · rw [setKilled_other _ same]

theorem setKilled_sleeping {chan : Chan}
    (asleep : ((s.setKilled p).proc q).sleeping = some chan) :
    (s.proc q).sleeping = some chan := by
  by_cases same : q = p
  · rw [same, setKilled_self] at asleep
    cases asleep
  · rwa [setKilled_other _ same] at asleep

@[simp]
theorem wakeup1_pc (chan : Chan) (q : Nat) :
    ((s.wakeup1 chan).proc q).pc = (s.proc q).pc := by
  simp only [wakeup1]
  split <;> rfl

theorem wakeup1_sleeping {chan awaited : Chan}
    (asleep : ((s.wakeup1 chan).proc q).sleeping = some awaited) :
    (s.proc q).sleeping = some awaited ∧ awaited ≠ chan := by
  simp only [wakeup1] at asleep
  split at asleep
  · cases asleep
  · rename_i different
    refine ⟨asleep, ?_⟩
    intro same
    exact different (same ▸ asleep)

end System

/-! ### The steps -/

/-- The step of process `p` from its point in the code. -/
inductive Run (s : System) (p : Nat) : Pc → System → Prop
  | acquires (call : Call) (free : s.lock = none) :
      Run s p (.acquire call) { s.setPc p (.loop call) with lock := some p }
  | finishesStoring (n : Nat) :
      Run s p (.loop (.write n [])) (s.setPc p (.stored n))
  | aborts (n : Nat) (byte : UInt8) (left : List UInt8) (full : s.pipe.isFull = true)
      (cause : s.pipe.readopen = false ∨ (s.proc p).killed = true) :
      Run s p (.loop (.write n (byte :: left))) (s.finish p (-1))
  | fills (n : Nat) (byte : UInt8) (left : List UInt8) (full : s.pipe.isFull = true)
      (listening : s.pipe.readopen = true) :
      Run s p (.loop (.write n (byte :: left)))
        (s.setPc p (.wakeFull n (byte :: left)))
  | stores (n : Nat) (byte : UInt8) (left : List UInt8) (room : s.pipe.isFull = false) :
      Run s p (.loop (.write n (byte :: left)))
        { s.setPc p (.loop (.write n left)) with pipe := s.pipe.store byte }
  | cancels (n : Nat) :
      Run s p (.loop (.read n)) (s.finish p (-1))
  | waits (n : Nat) (empty : s.pipe.isEmpty = true)
      (feeding : s.pipe.writeopen = true) :
      Run s p (.loop (.read n)) (s.setPc p (.sleep (.read n)))
  | reads (n : Nat)
      (ready : s.pipe.isEmpty = false ∨ s.pipe.writeopen = false) :
      Run s p (.loop (.read n)) (s.setPc p (.copy n []))
  | wakesAtFull (n : Nat) (left : List UInt8) (free : s.ptable = none) :
      Run s p (.wakeFull n left)
        ((s.wakeup1 .nread).setPc p (.sleep (.write n left)))
  | sleeps (call : Call) (free : s.ptable = none) :
      Run s p (.sleep call) { s.setPc p (.unlock call) with ptable := some p }
  | unlocks (call : Call) :
      Run s p (.unlock call) (s.release p (.mark call))
  | marks (call : Call) :
      Run s p (.mark call) (s.markSleeping p call)
  | resumes (call : Call) (awake : (s.proc p).sleeping = none) :
      Run s p (.asleep call) (s.setPc p (.acquire call))
  | wakesReaders (n : Nat) (free : s.ptable = none) :
      Run s p (.stored n) ((s.wakeup1 .nread).setPc p (.leaveWrite n))
  | leavesWrite (n : Nat) :
      Run s p (.leaveWrite n) (s.finish p n)
  | takes (n : Nat) (got : List UInt8) (more : got.length < n)
      (some : s.pipe.isEmpty = false) :
      Run s p (.copy n got)
        { s.setPc p (.copy n (got ++ [s.pipe.oldest])) with
          pipe := s.pipe.take }
  | stops (n : Nat) (got : List UInt8)
      (done : n ≤ got.length ∨ s.pipe.isEmpty = true) :
      Run s p (.copy n got) (s.setPc p (.copied n got))
  | wakesWriters (n : Nat) (got : List UInt8) (free : s.ptable = none) :
      Run s p (.copied n got) ((s.wakeup1 .nwrite).setPc p (.leaveRead n got))
  | leavesRead (n : Nat) (got : List UInt8) :
      Run s p (.leaveRead n got) (s.finish p got.length)
  | acquiresClose (writable : Bool) (free : s.lock = none) :
      Run s p (.acquireClose writable)
        { s.setPc p (.close writable) with lock := some p }
  | closes (writable : Bool) :
      Run s p (.close writable)
        { s.setPc p (.closed writable) with pipe := s.pipe.closeEnd writable }
  | wakesClosed (writable : Bool) (free : s.ptable = none) :
      Run s p (.closed writable)
        ((s.wakeup1 (if writable then .nread else .nwrite)).setPc p .leaveClose)
  | leavesClose :
      Run s p .leaveClose (s.release p .outside)

section Inversion

variable {s next : System} {p : Nat}

theorem acquire_inversion {pc : Pc} (acquired : s.acquire p pc = some next) :
    s.lock = none ∧ next = { s.setPc p pc with lock := some p } := by
  unfold System.acquire at acquired
  split at acquired
  · rename_i free
    exact ⟨free, (Option.some.inj acquired).symm⟩
  · cases acquired

theorem wakeup_inversion {chan : Chan} {pc : Pc}
    (woken : s.wakeup chan p pc = some next) :
    s.ptable = none ∧ next = (s.wakeup1 chan).setPc p pc := by
  unfold System.wakeup at woken
  split at woken
  · rename_i free
    exact ⟨free, (Option.some.inj woken).symm⟩
  · cases woken

theorem writeLoop_run (s : System) (p n : Nat) (left : List UInt8) :
    Run s p (.loop (.write n left)) (s.writeLoop p n left) := by
  cases left with
  | nil => exact Run.finishesStoring n
  | cons byte left =>
    simp only [System.writeLoop]
    split
    · rename_i full
      split
      · rename_i cause
        exact Run.aborts n byte left full cause
      · rename_i goesOn
        apply Run.fills n byte left full
        cases listening : s.pipe.readopen with
        | true => rfl
        | false => exact absurd (Or.inl listening) goesOn
    · rename_i room
      exact Run.stores n byte left (Bool.eq_false_iff.mpr room)

theorem readLoop_run (s : System) (p n : Nat) :
    Run s p (.loop (.read n)) (s.readLoop p n) := by
  unfold System.readLoop
  split
  · rename_i waiting
    split
    · exact Run.cancels n
    · exact Run.waits n waiting.1 waiting.2
  · rename_i ready
    apply Run.reads n
    cases empty : s.pipe.isEmpty with
    | false => exact Or.inl rfl
    | true => exact Or.inr (Bool.eq_false_iff.mpr (fun feeding => ready ⟨empty, feeding⟩))

theorem readCopy_run (s : System) (p n : Nat) (got : List UInt8) :
    Run s p (.copy n got) (s.readCopy p n got) := by
  unfold System.readCopy
  split
  · rename_i more
    exact Run.takes n got more.1 more.2
  · rename_i finished
    apply Run.stops n got
    cases empty : s.pipe.isEmpty with
    | true => exact Or.inr rfl
    | false => exact Or.inl (Nat.le_of_not_lt (fun more => finished ⟨more, empty⟩))

theorem run_inversion (ran : s.run p = some next) :
    Run s p (s.proc p).pc next := by
  unfold System.run at ran
  cases point : (s.proc p).pc with
    simp only [point, Option.ite_none_right_eq_some, Option.some.injEq, reduceCtorEq] at ran
  | acquire call =>
    obtain ⟨free, rfl⟩ := acquire_inversion ran
    exact Run.acquires call free
  | loop call =>
    cases call with simp only [Option.some.injEq] at ran
    | write n left => exact ran ▸ writeLoop_run s p n left
    | read n => exact ran ▸ readLoop_run s p n
  | wakeFull n left =>
    obtain ⟨free, rfl⟩ := wakeup_inversion ran
    exact Run.wakesAtFull n left free
  | sleep call => exact ran.2 ▸ Run.sleeps call ran.1
  | unlock call => exact ran ▸ Run.unlocks call
  | mark call => exact ran ▸ Run.marks call
  | asleep call => exact ran.2 ▸ Run.resumes call ran.1.1
  | stored n =>
    obtain ⟨free, rfl⟩ := wakeup_inversion ran
    exact Run.wakesReaders n free
  | leaveWrite n => exact ran ▸ Run.leavesWrite n
  | copy n got => exact ran ▸ readCopy_run s p n got
  | copied n got =>
    obtain ⟨free, rfl⟩ := wakeup_inversion ran
    exact Run.wakesWriters n got free
  | leaveRead n got => exact ran ▸ Run.leavesRead n got
  | acquireClose writable =>
    obtain ⟨free, rfl⟩ := acquire_inversion ran
    exact Run.acquiresClose writable free
  | close writable => exact ran ▸ Run.closes writable
  | closed writable =>
    obtain ⟨free, rfl⟩ := wakeup_inversion ran
    exact Run.wakesClosed writable free
  | leaveClose => exact ran ▸ Run.leavesClose

end Inversion

/-- A process starts a call. -/
inductive Starts : Event → Nat → Pc → Prop
  | write (p : Nat) (bytes : List UInt8) :
      Starts (.write p bytes) p (.acquire (.write bytes.length bytes))
  | read (p n : Nat) : Starts (.read p n) p (.acquire (.read n))
  | close (p : Nat) (writable : Bool) : Starts (.close p writable) p (.acquireClose writable)

inductive Step (s : System) : Event → System → Prop
  | starts {event : Event} {p : Nat} {pc : Pc} (started : Starts event p pc)
      (outside : (s.proc p).pc = .outside) : Step s event (s.setPc p pc)
  | runs {p : Nat} {pc : Pc} {next : System} (point : (s.proc p).pc = pc)
      (ran : Run s p pc next) : Step s (.run p) next
  | kills {p : Nat} (free : s.ptable = none) :
      Step s (.kill p) (s.setKilled p)

section Inversion

variable {s next : System}

theorem start_inversion {p : Nat} {pc : Pc} (started : s.start p pc = some next) :
    (s.proc p).pc = .outside ∧ next = s.setPc p pc := by
  unfold System.start at started
  split at started
  · rename_i outside
    exact ⟨outside, (Option.some.inj started).symm⟩
  · cases started

theorem step_inversion {event : Event} (stepped : machine.step s event = some next) :
    Step s event next := by
  change s.step event = some next at stepped
  cases event with
  | write p bytes =>
    obtain ⟨outside, rfl⟩ := start_inversion stepped
    exact Step.starts (Starts.write p bytes) outside
  | read p n =>
    obtain ⟨outside, rfl⟩ := start_inversion stepped
    exact Step.starts (Starts.read p n) outside
  | close p writable =>
    obtain ⟨outside, rfl⟩ := start_inversion stepped
    exact Step.starts (Starts.close p writable) outside
  | run p => exact Step.runs rfl (run_inversion stepped)
  | kill p =>
    simp only [System.step, System.kill, Option.ite_none_right_eq_some,
      Option.some.injEq] at stepped
    exact stepped.2 ▸ Step.kills stepped.1

end Inversion

/-! ### The holders of the locks -/

def Pc.holdsLock : Pc → Bool
  | .outside | .acquire _ | .mark _ | .asleep _ | .acquireClose _ => false
  | _ => true

def Pc.holdsTable : Pc → Bool
  | .unlock _ | .mark _ => true
  | _ => false

/-- Only `p` goes on in its code, to `pc`. -/
structure Goes (s : System) (p : Nat) (pc : Pc) (next : System) : Prop where
  here : (next.proc p).pc = pc
  others : ∀ q, q ≠ p → (next.proc q).pc = (s.proc q).pc

/-- Moreover no process falls asleep. -/
structure Moves (s : System) (p : Nat) (pc : Pc) (next : System) : Prop
    extends Goes s p pc next where
  sleepers : ∀ q chan, (next.proc q).sleeping = some chan →
    (s.proc q).sleeping = some chan

section Moves

variable {s next : System} {p : Nat} {pc : Pc}

theorem Moves.of_proc (record : Proc) (here : record.pc = pc)
    (asleep : ∀ chan, record.sleeping = some chan → (s.proc p).sleeping = some chan)
    (proc : next.proc = update s.proc p record) : Moves s p pc next := by
  refine ⟨⟨?_, ?_⟩, ?_⟩
  · rw [proc, update_self]
    exact here
  · intro q other
    rw [proc, update_of_ne other]
  · intro q chan sleeping
    rw [proc] at sleeping
    by_cases same : q = p
    · rw [same] at sleeping ⊢
      rw [update_self] at sleeping
      exact asleep chan sleeping
    · rwa [update_of_ne same] at sleeping

theorem Moves.setPc (pc : Pc) (proc : next.proc = (s.setPc p pc).proc) :
    Moves s p pc next :=
  Moves.of_proc { s.proc p with pc := pc } rfl (fun _ asleep => asleep) proc

theorem Moves.finish (result : Int) : Moves s p .outside (s.finish p result) :=
  Moves.of_proc { s.proc p with pc := .outside, result := result } rfl
    (fun _ asleep => asleep) rfl

theorem Moves.wakeup (chan : Chan) (pc : Pc) :
    Moves s p pc ((s.wakeup1 chan).setPc p pc) := by
  have moves : Moves (s.wakeup1 chan) p pc ((s.wakeup1 chan).setPc p pc) :=
    Moves.setPc pc rfl
  refine ⟨⟨?_, ?_⟩, ?_⟩
  · exact moves.here
  · intro q other
    rw [moves.others q other, System.wakeup1_pc]
  · intro q awaited asleep
    exact (s.wakeup1_sleeping (moves.sleepers q awaited asleep)).1

theorem Goes.setPc (pc : Pc) (proc : next.proc = (s.setPc p pc).proc) :
    Goes s p pc next :=
  (Moves.setPc pc proc).toGoes

theorem Goes.finish (result : Int) : Goes s p .outside (s.finish p result) :=
  (Moves.finish result).toGoes

theorem Goes.wakeup (chan : Chan) (pc : Pc) :
    Goes s p pc ((s.wakeup1 chan).setPc p pc) :=
  (Moves.wakeup chan pc).toGoes

theorem Goes.markSleeping (call : Call) :
    Goes s p (.asleep call) (s.markSleeping p call) := by
  constructor
  · rw [s.markSleeping_self]
  · intro q other
    rw [s.markSleeping_other other]

theorem Goes.setKilled : Goes s p (s.proc p).pc (s.setKilled p) :=
  ⟨s.setKilled_pc p p, fun q _ => s.setKilled_pc p q⟩

theorem Goes.same (goes : Goes s p pc next) (test : Pc → Bool)
    (same : test pc = test (s.proc p).pc) (q : Nat) :
    test (next.proc q).pc = true ↔ test (s.proc q).pc = true := by
  by_cases equal : q = p
  · rw [equal, goes.here, same]
  · rw [goes.others q equal]

theorem Goes.apart (goes : Goes s p pc next) (test : Pc → Bool) (q : Nat)
    (other : q ≠ p) : test (next.proc q).pc = true ↔ test (s.proc q).pc = true := by
  rw [goes.others q other]

end Moves

structure Locks (s : System) : Prop where
  lock : Owned s.lock (fun p => (s.proc p).pc.holdsLock = true)
  table : Owned s.ptable (fun p => (s.proc p).pc.holdsTable = true)
  asleep : ∀ p chan, (s.proc p).sleeping = some chan →
    ∃ call, (s.proc p).pc = .asleep call ∧ call.chan = chan

namespace Locks

variable {s next : System} {p : Nat} {pc before : Pc}

theorem boot : Locks machine.start := by
  constructor
  · intro p
    exact iff_of_false Bool.false_ne_true (Option.some_ne_none p ∘ Eq.symm)
  · intro p
    exact iff_of_false Bool.false_ne_true (Option.some_ne_none p ∘ Eq.symm)
  · intro p chan asleep
    cases asleep

theorem awake (locks : Locks s) (point : (s.proc p).pc = pc)
    (apart : ∀ call, pc ≠ .asleep call) : (s.proc p).sleeping = none := by
  cases asleep : (s.proc p).sleeping with
  | none => rfl
  | some chan =>
    obtain ⟨call, inside, _⟩ := locks.asleep p chan asleep
    exact absurd (point.symm.trans inside) (apart call)

theorem asleep_of_moves (locks : Locks s) (moves : Moves s p pc next)
    (awake : (s.proc p).sleeping = none) (q : Nat) (chan : Chan)
    (asleep : (next.proc q).sleeping = some chan) :
    ∃ call, (next.proc q).pc = .asleep call ∧ call.chan = chan := by
  have before := moves.sleepers q chan asleep
  have other : q ≠ p := by
    intro same
    rw [same, awake] at before
    cases before
  rw [moves.others q other]
  exact locks.asleep q chan before

theorem keep (locks : Locks s) (moves : Moves s p pc next)
    (point : (s.proc p).pc = before) (awake : (s.proc p).sleeping = none)
    (lock : next.lock = s.lock) (table : next.ptable = s.ptable)
    (sameLock : pc.holdsLock = before.holdsLock)
    (sameTable : pc.holdsTable = before.holdsTable) : Locks next := by
  constructor
  · rw [lock]
    exact locks.lock.keep (moves.toGoes.same Pc.holdsLock (point ▸ sameLock))
  · rw [table]
    exact locks.table.keep (moves.toGoes.same Pc.holdsTable (point ▸ sameTable))
  · exact locks.asleep_of_moves moves awake

theorem takeLock (locks : Locks s) (moves : Moves s p pc next)
    (point : (s.proc p).pc = before) (awake : (s.proc p).sleeping = none)
    (free : s.lock = none)
    (lock : next.lock = some p) (table : next.ptable = s.ptable)
    (held : pc.holdsLock = true)
    (sameTable : pc.holdsTable = before.holdsTable) : Locks next := by
  constructor
  · rw [lock]
    apply (free ▸ locks.lock).take
    · rw [moves.here]
      exact held
    · exact moves.toGoes.apart Pc.holdsLock
  · rw [table]
    exact locks.table.keep (moves.toGoes.same Pc.holdsTable (point ▸ sameTable))
  · exact locks.asleep_of_moves moves awake

theorem dropLock (locks : Locks s) (moves : Moves s p pc next)
    (point : (s.proc p).pc = before) (awake : (s.proc p).sleeping = none)
    (lock : next.lock = none) (table : next.ptable = s.ptable)
    (held : before.holdsLock = true) (given : pc.holdsLock = false)
    (sameTable : pc.holdsTable = before.holdsTable) : Locks next := by
  constructor
  · rw [lock]
    apply locks.lock.drop (p := p)
    · rw [point]
      exact held
    · rw [moves.here, given]
      exact Bool.false_ne_true
    · exact moves.toGoes.apart Pc.holdsLock
  · rw [table]
    exact locks.table.keep (moves.toGoes.same Pc.holdsTable (point ▸ sameTable))
  · exact locks.asleep_of_moves moves awake

theorem takeTable (locks : Locks s) (moves : Moves s p pc next)
    (point : (s.proc p).pc = before) (awake : (s.proc p).sleeping = none)
    (free : s.ptable = none)
    (lock : next.lock = s.lock) (table : next.ptable = some p)
    (held : pc.holdsTable = true) (sameLock : pc.holdsLock = before.holdsLock) :
    Locks next := by
  constructor
  · rw [lock]
    exact locks.lock.keep (moves.toGoes.same Pc.holdsLock (point ▸ sameLock))
  · rw [table]
    apply (free ▸ locks.table).take
    · rw [moves.here]
      exact held
    · exact moves.toGoes.apart Pc.holdsTable
  · exact locks.asleep_of_moves moves awake

theorem marks (locks : Locks s) (call : Call)
    (point : (s.proc p).pc = .mark call) : Locks (s.markSleeping p call) := by
  have goes : Goes s p (.asleep call) (s.markSleeping p call) :=
    Goes.markSleeping call
  constructor
  · exact locks.lock.keep (goes.same Pc.holdsLock (point ▸ rfl))
  · apply locks.table.drop (p := p)
    · rw [point]
      rfl
    · rw [goes.here]
      exact Bool.false_ne_true
    · exact goes.apart Pc.holdsTable
  · intro q chan asleep
    by_cases same : q = p
    · rw [same, s.markSleeping_self] at asleep ⊢
      exact ⟨call, rfl, Option.some.inj asleep⟩
    · rw [s.markSleeping_other same] at asleep ⊢
      exact locks.asleep q chan asleep

theorem run (locks : Locks s) (point : (s.proc p).pc = pc)
    (ran : Run s p pc next) : Locks next := by
  have awake := locks.awake point
  cases ran with
  | acquires call free =>
    exact locks.takeLock (Moves.setPc _ rfl) point (awake (by simp)) free rfl rfl rfl rfl
  | acquiresClose writable free =>
    exact locks.takeLock (Moves.setPc _ rfl) point (awake (by simp)) free rfl rfl rfl rfl
  | finishesStoring | fills | stores | waits | reads | takes | stops | closes =>
    exact locks.keep (Moves.setPc _ rfl) point (awake (by simp)) rfl rfl rfl rfl
  | aborts | cancels | leavesWrite | leavesRead =>
    exact locks.dropLock (Moves.finish _) point (awake (by simp)) rfl rfl rfl rfl rfl
  | wakesAtFull | wakesReaders | wakesWriters | wakesClosed =>
    exact locks.keep (Moves.wakeup _ _) point (awake (by simp)) rfl rfl rfl rfl
  | sleeps call free =>
    exact locks.takeTable (Moves.setPc _ rfl) point (awake (by simp)) free rfl rfl rfl rfl
  | unlocks | leavesClose =>
    exact locks.dropLock (Moves.setPc _ rfl) point (awake (by simp)) rfl rfl rfl rfl rfl
  | marks call => exact locks.marks call point
  | resumes call woken =>
    exact locks.keep (Moves.setPc _ rfl) point woken rfl rfl rfl rfl

theorem starts (locks : Locks s) {event : Event} (started : Starts event p pc)
    (outside : (s.proc p).pc = .outside) : Locks (s.setPc p pc) := by
  have awake := locks.awake outside (by simp)
  cases started with
  | write | read | close => exact locks.keep (Moves.setPc _ rfl) outside awake rfl rfl rfl rfl

theorem kills (locks : Locks s) (p : Nat) : Locks (s.setKilled p) := by
  have goes : Goes s p (s.proc p).pc (s.setKilled p) := Goes.setKilled
  constructor
  · exact locks.lock.keep (goes.same Pc.holdsLock rfl)
  · exact locks.table.keep (goes.same Pc.holdsTable rfl)
  · intro q chan asleep
    rw [s.setKilled_pc]
    exact locks.asleep q chan (s.setKilled_sleeping asleep)

theorem step {event : Event} (locks : Locks s) (stepped : Step s event next) :
    Locks next := by
  cases stepped with
  | starts started outside => exact locks.starts started outside
  | runs point ran => exact locks.run point ran
  | @kills p free => exact locks.kills p

end Locks

theorem reachable_locks {s : System} (reachable : machine.Reachable s) :
    Locks s :=
  reachable.invariant Locks.boot
    (fun _ _ _ locks stepped => locks.step (step_inversion stepped))

end Xv6.Pipes
