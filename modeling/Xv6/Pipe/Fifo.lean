/-
A pipe delivers the bytes stored in it, each once and in storing order.

An observer keeps the bytes that `pipewrite` has stored and those that `piperead` has
copied out, over all processes.  What a reader knows about its own call is stable because
it keeps `p->lock` from the end of the waiting loop until it returns.
-/

import Xv6.Pipe.Steps

namespace Xv6.Pipes

open Library

structure Traffic where
  stored : List UInt8 := []
  handed : List UInt8 := []

/-- The byte that the step of a process stores or copies out. -/
def observe (s : System) (event : Event) (traffic : Traffic) : Traffic :=
  match event with
  | .run p =>
    match (s.proc p).pc with
    | .loop (.write _ (byte :: _)) =>
      if s.pipe.isFull then traffic
      else { traffic with stored := traffic.stored ++ [byte] }
    | .copy n got =>
      if got.length < n ∧ s.pipe.isEmpty = false then
        { traffic with handed := traffic.handed ++ [s.pipe.oldest] }
      else traffic
    | _ => traffic
  | _ => traffic

/-! ### The buffer -/

namespace Pipe

variable {pipe : Pipe}

theorem isEmpty_iff : pipe.isEmpty = true ↔ span pipe.nread pipe.nwrite = 0 := by
  rw [isEmpty, beq_iff_eq, span_eq_zero]

theorem isFull_iff : pipe.isFull = true ↔ span pipe.nread pipe.nwrite = PIPESIZE := by
  rw [isFull, beq_iff_eq]
  exact span_eq_iff (by decide)

theorem pipesize_divides : PIPESIZE ∣ 2 ^ 32 := by decide

theorem span_store (bounded : span pipe.nread pipe.nwrite ≤ PIPESIZE)
    (room : pipe.isFull = false) (byte : UInt8) :
    span (pipe.store byte).nread (pipe.store byte).nwrite ≤ PIPESIZE := by
  have different : span pipe.nread pipe.nwrite ≠ PIPESIZE :=
    fun full => Bool.eq_false_iff.mp room (isFull_iff.mpr full)
  change span pipe.nread (pipe.nwrite + 1) ≤ PIPESIZE
  rw [span_succ (by simp only [PIPESIZE] at *; omega)]
  omega

theorem contents_store (bounded : span pipe.nread pipe.nwrite ≤ PIPESIZE)
    (room : pipe.isFull = false) (byte : UInt8) :
    (pipe.store byte).contents = pipe.contents ++ [byte] := by
  have different : span pipe.nread pipe.nwrite ≠ PIPESIZE :=
    fun full => Bool.eq_false_iff.mp room (isFull_iff.mpr full)
  exact segment_push pipe.data pipesize_divides (lt_of_le_of_ne bounded different)
    (by decide) byte

theorem contents_take (some : pipe.isEmpty = false) :
    pipe.contents = pipe.oldest :: pipe.take.contents := by
  apply segment_pop pipe.data pipesize_divides
  intro same
  exact Bool.eq_false_iff.mp some (beq_iff_eq.mpr same)

theorem span_take (bounded : span pipe.nread pipe.nwrite ≤ PIPESIZE)
    (some : pipe.isEmpty = false) :
    span pipe.take.nread pipe.take.nwrite ≤ PIPESIZE := by
  have positive : span pipe.nread pipe.nwrite ≠ 0 :=
    fun empty => Bool.eq_false_iff.mp some (isEmpty_iff.mpr empty)
  obtain ⟨count, ahead⟩ := Nat.exists_eq_succ_of_ne_zero positive
  change span (pipe.nread + 1) pipe.nwrite ≤ PIPESIZE
  rw [span_pred ahead]
  omega

theorem closeEnd_contents (writable : Bool) :
    (pipe.closeEnd writable).contents = pipe.contents := by
  unfold closeEnd
  split <;> rfl

theorem closeEnd_span (writable : Bool) :
    span (pipe.closeEnd writable).nread (pipe.closeEnd writable).nwrite =
      span pipe.nread pipe.nwrite := by
  unfold closeEnd
  split <;> rfl

end Pipe

/-! ### The invariant -/

/-- What a reader that has left the waiting loop knows of the pipe and of its bytes. -/
def Delivers (pipe : Pipe) (traffic : Traffic) : Pc → Prop
  | .copy n got =>
    got <:+ traffic.handed ∧ got.length ≤ n ∧
      (got = [] → pipe.isEmpty = false ∨ pipe.writeopen = false)
  | .copied n got | .leaveRead n got =>
    got <:+ traffic.handed ∧ got.length ≤ n ∧
      (got = [] → n = 0 ∨ (pipe.isEmpty = true ∧ pipe.writeopen = false))
  | _ => True

theorem delivers_of_unlocked {pipe : Pipe} {traffic : Traffic} {pc : Pc}
    (unlocked : ¬ pc.holdsLock = true) : Delivers pipe traffic pc := by
  cases pc with
  | copy | copied | leaveRead => exact absurd rfl unlocked
  | _ => trivial

structure FifoInv (s : System) (traffic : Traffic) : Prop where
  conserved : traffic.handed ++ s.pipe.contents = traffic.stored
  bounded : span s.pipe.nread s.pipe.nwrite ≤ PIPESIZE
  delivers : ∀ p, Delivers s.pipe traffic (s.proc p).pc

namespace FifoInv

variable {s next : System} {traffic : Traffic} {p : Nat} {pc : Pc}

theorem boot : FifoInv machine.start {} where
  conserved := rfl
  bounded := Nat.zero_le _
  delivers := fun _ => trivial

theorem quiet (inv : FifoInv s traffic) (goes : Goes s p pc next)
    (pipe : next.pipe = s.pipe) (here : Delivers s.pipe traffic pc) :
    FifoInv next traffic := by
  constructor
  · rw [pipe]
    exact inv.conserved
  · rw [pipe]
    exact inv.bounded
  · intro q
    rw [pipe]
    by_cases same : q = p
    · rw [same, goes.here]
      exact here
    · rw [goes.others q same]
      exact inv.delivers q

/-- A change of the pipe by the holder of the lock: no other process knows anything about
the pipe that could become false. -/
theorem changed {after : Traffic} (locks : Locks s) (goes : Goes s p pc next)
    (held : (s.proc p).pc.holdsLock = true)
    (conserved : after.handed ++ next.pipe.contents = after.stored)
    (bounded : span next.pipe.nread next.pipe.nwrite ≤ PIPESIZE)
    (here : Delivers next.pipe after pc) : FifoInv next after := by
  refine ⟨conserved, bounded, ?_⟩
  intro q
  by_cases same : q = p
  · rw [same, goes.here]
    exact here
  · apply delivers_of_unlocked
    rw [goes.others q same]
    exact fun also => same (locks.lock.unique also held)

theorem stores (inv : FifoInv s traffic) (locks : Locks s) (n : Nat)
    (byte : UInt8) (left : List UInt8)
    (point : (s.proc p).pc = .loop (.write n (byte :: left)))
    (room : s.pipe.isFull = false) :
    FifoInv { s.setPc p (.loop (.write n left)) with pipe := s.pipe.store byte }
      { traffic with stored := traffic.stored ++ [byte] } := by
  refine changed locks (Goes.setPc (.loop (.write n left)) rfl) ?_ ?_ ?_ ?_
  · rw [point]
    rfl
  · change traffic.handed ++ (s.pipe.store byte).contents = traffic.stored ++ [byte]
    rw [Pipe.contents_store inv.bounded room, ← List.append_assoc, inv.conserved]
  · exact Pipe.span_store inv.bounded room byte
  · trivial

theorem takes (inv : FifoInv s traffic) (locks : Locks s) (n : Nat)
    (got : List UInt8) (point : (s.proc p).pc = .copy n got)
    (more : got.length < n) (some : s.pipe.isEmpty = false) :
    FifoInv
      { s.setPc p (.copy n (got ++ [s.pipe.oldest])) with pipe := s.pipe.take }
      { traffic with handed := traffic.handed ++ [s.pipe.oldest] } := by
  have known := inv.delivers p
  rw [point] at known
  obtain ⟨⟨earlier, split⟩, _, _⟩ := known
  refine changed locks (Goes.setPc (.copy n (got ++ [s.pipe.oldest])) rfl)
    ?_ ?_ ?_ ?_
  · rw [point]
    rfl
  · change (traffic.handed ++ [s.pipe.oldest]) ++ s.pipe.take.contents =
      traffic.stored
    rw [List.append_assoc, List.singleton_append, ← Pipe.contents_take some, inv.conserved]
  · exact Pipe.span_take inv.bounded some
  · refine ⟨⟨earlier, ?_⟩, ?_, ?_⟩
    · rw [← split, List.append_assoc]
    · rw [List.length_append, List.length_singleton]
      omega
    · intro nothing
      simp at nothing

theorem closes (inv : FifoInv s traffic) (locks : Locks s) (writable : Bool)
    (point : (s.proc p).pc = .close writable) :
    FifoInv
      { s.setPc p (.closed writable) with pipe := s.pipe.closeEnd writable }
      traffic := by
  refine changed locks (Goes.setPc (.closed writable) rfl) ?_ ?_ ?_ ?_
  · rw [point]
    rfl
  · change traffic.handed ++ (s.pipe.closeEnd writable).contents = traffic.stored
    rw [Pipe.closeEnd_contents, inv.conserved]
  · change span (s.pipe.closeEnd writable).nread
      (s.pipe.closeEnd writable).nwrite ≤ PIPESIZE
    rw [Pipe.closeEnd_span]
    exact inv.bounded
  · trivial

theorem stops (inv : FifoInv s traffic) (n : Nat) (got : List UInt8)
    (point : (s.proc p).pc = .copy n got)
    (done : n ≤ got.length ∨ s.pipe.isEmpty = true) :
    Delivers s.pipe traffic (.copied n got) := by
  have known := inv.delivers p
  rw [point] at known
  obtain ⟨suffix, within, ready⟩ := known
  refine ⟨suffix, within, ?_⟩
  intro nothing
  rcases done with enough | empty
  · rw [nothing] at enough
    exact Or.inl (Nat.le_zero.mp enough)
  · rcases ready nothing with some | ended
    · rw [some] at empty
      cases empty
    · exact Or.inr ⟨empty, ended⟩

theorem run (inv : FifoInv s traffic) (locks : Locks s)
    (point : (s.proc p).pc = pc) (ran : Run s p pc next) :
    FifoInv next (observe s (.run p) traffic) := by
  unfold observe
  simp only [point]
  have known := inv.delivers p
  rw [point] at known
  cases ran with
  | aborts n byte left full cause =>
    dsimp only
    rw [if_pos full]
    exact inv.quiet (Goes.finish _) rfl trivial
  | fills n byte left full listening =>
    dsimp only
    rw [if_pos full]
    exact inv.quiet (Goes.setPc _ rfl) rfl trivial
  | stores n byte left room =>
    dsimp only
    rw [if_neg (Bool.eq_false_iff.mp room)]
    exact inv.stores locks n byte left point room
  | reads n ready =>
    apply inv.quiet (Goes.setPc _ rfl) rfl
    exact ⟨List.nil_suffix, Nat.zero_le n, fun _ => ready⟩
  | marks call => exact inv.quiet (Goes.markSleeping call) rfl trivial
  | takes n got more some =>
    dsimp only
    rw [if_pos ⟨more, some⟩]
    exact inv.takes locks n got point more some
  | stops n got done =>
    dsimp only
    rw [if_neg ?_]
    · exact inv.quiet (Goes.setPc _ rfl) rfl (inv.stops n got point done)
    · rintro ⟨more, some⟩
      rcases done with enough | empty
      · omega
      · rw [some] at empty
        cases empty
  | closes writable => exact inv.closes locks writable point
  | wakesWriters n got free => exact inv.quiet (Goes.wakeup _ _) rfl known
  | wakesAtFull | wakesReaders | wakesClosed => exact inv.quiet (Goes.wakeup _ _) rfl trivial
  | cancels | leavesWrite | leavesRead => exact inv.quiet (Goes.finish _) rfl trivial
  | _ => exact inv.quiet (Goes.setPc _ rfl) rfl trivial

theorem step {event : Event} (inv : FifoInv s traffic) (locks : Locks s)
    (stepped : Step s event next) : FifoInv next (observe s event traffic) := by
  cases stepped with
  | @starts event p pc started outside =>
    cases started with
    | write | read | close => exact inv.quiet (Goes.setPc _ rfl) rfl trivial
  | runs point ran => exact inv.run locks point ran
  | @kills p free => exact inv.quiet Goes.setKilled rfl (inv.delivers p)

end FifoInv

theorem reachable_fifoInv {s : System} {traffic : Traffic}
    (reachable : (machine.watched observe {}).Reachable (s, traffic)) :
    FifoInv s traffic := by
  apply And.right
  apply Machine.Reachable.watched_invariant FifoInv FifoInv.boot ?_ reachable
  intro state event next ghost reached inv stepped
  exact inv.step (reachable_locks reached) (step_inversion stepped)

/-- `piperead` returns -1 or the number of bytes that it has copied. -/
theorem read_returns {s next : System} {p n : Nat} {pc : Pc}
    (reading : pc.reading = some n) (ran : Run s p pc next)
    (returned : (next.proc p).pc = .outside) :
    (next.proc p).result = -1 ∨
      ∃ got, pc = .leaveRead n got ∧ (next.proc p).result = got.length := by
  have moved {after : Pc} (goes : Goes s p after next) : after = .outside :=
    goes.here.symm.trans returned
  cases ran with
  | cancels m => exact Or.inl (congrArg Proc.result (Function.update_self p _ s.proc))
  | leavesRead m got =>
    rw [show m = n from Option.some.inj reading]
    exact Or.inr ⟨got, rfl, congrArg Proc.result (Function.update_self p _ s.proc)⟩
  | aborts | leavesWrite | leavesClose | wakesAtFull | wakesReaders | wakesClosed => cases reading
  | marks call => cases moved (Goes.markSleeping call)
  | wakesWriters m got free => cases moved (Goes.wakeup _ _)
  | _ => cases moved (Goes.setPc _ rfl)

/-- The bytes handed to readers, followed by those in the buffer, are the bytes stored, in
storing order; the buffer never holds more than its size; a reader's bytes are the last
ones handed out when it leaves; and it returns 0 only at the end of the stream. -/
theorem pipe_fifo {s : System} {traffic : Traffic}
    (reachable : (machine.watched observe {}).Reachable (s, traffic)) :
    traffic.handed ++ s.pipe.contents = traffic.stored ∧
      (s.pipe.nwrite - s.pipe.nread).toNat ≤ PIPESIZE ∧
      (∀ p n got, (s.proc p).pc = .leaveRead n got → got <:+ traffic.handed) ∧
      ∀ p n next, (s.proc p).pc.reading = some n → s.run p = some next →
        (next.proc p).pc = .outside → (next.proc p).result = 0 →
        n = 0 ∨ (s.pipe.isEmpty = true ∧ s.pipe.writeopen = false) := by
  have inv := reachable_fifoInv reachable
  refine ⟨inv.conserved, inv.bounded, ?_, ?_⟩
  · intro p n got leaving
    have known := inv.delivers p
    rw [leaving] at known
    exact known.1
  · intro p n next reading ran returned zero
    rcases read_returns reading (run_inversion ran) returned with failed | ⟨got, leaving, result⟩
    · rw [failed] at zero
      cases zero
    · have known := inv.delivers p
      rw [leaving] at known
      rw [zero] at result
      exact known.2.2 (List.eq_nil_of_length_eq_zero (Int.ofNat_eq_zero.mp result.symm))

set_option maxRecDepth 100000 in
/-- Process 0 waits for bytes, process 1 writes three, and process 0 gets two of them. -/
theorem pipe_fifo_two_of_three :
    ∃ s traffic,
      (machine.watched observe {}).Reachable (s, traffic) ∧
      traffic.stored = [10, 20, 30] ∧ traffic.handed = [10, 20] ∧
      traffic.handed ++ s.pipe.contents = traffic.stored := by
  let labels : List Event :=
    .read 0 2 :: List.replicate 5 (.run 0) ++ .write 1 [10, 20, 30] :: List.replicate 7 (.run 1) ++
      List.replicate 5 (.run 0)
  obtain ⟨⟨s, traffic⟩, ran, stored, handed⟩ :
      ∃ pair, (machine.watched observe {}).exec ({}, {}) labels = some pair ∧ pair.2.stored = [10,
        20, 30] ∧ pair.2.handed = [10, 20] := by
    decide +kernel
  have reached : (machine.watched observe {}).Reachable (s, traffic) := ⟨labels, ran⟩
  exact ⟨s, traffic, reached, stored, handed, (pipe_fifo reached).1⟩

end Xv6.Pipes
