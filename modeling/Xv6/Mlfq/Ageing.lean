/-
Ageing: what a call of `modify_times` does to a process that has waited too long.

`push` does not insert a process that waits in some ring already, so that only a process
outside of the rings reaches the rear of the ring above.
-/

import Xv6.Mlfq.Invariant

namespace Xv6

open Library

namespace Kernel

variable {ncpu : Nat}

/-- One level up, at the rear of that level's queue and in no other, with both counters
cleared.  Only processes that come to the queue in the same call stand behind it. -/
structure Promoted (k after : Kernel ncpu) (p : Slot) : Prop where
  level : (after.proc p).queueNo + 1 = (k.proc p).queueNo
  waitTime : (after.proc p).waitTime = 0
  curTime : (after.proc p).curTime = 0
  rear : ∃ front behind, after.queues (after.proc p).queueNo = front ++ p :: behind ∧
    ∀ q ∈ behind, q ∉ k.queues (after.proc p).queueNo
  only : ∀ i, i < levels → p ∈ after.queues i → i = (after.proc p).queueNo

theorem modifyTimes_arrived {k : Kernel ncpu} (inv : k.MlfqInv) (level : Nat) :
    ∃ arrived, (k.modifyTimes .mlfq).queues level = k.queues level ++ arrived ∧
      ∀ q, q ∈ arrived ↔ ageTarget (k.proc q) = some level ∧ ¬k.Queued q := by
  obtain ⟨_, queues, _⟩ := modifyTimes_spec inv.rings inv.low
  refine ⟨_, queues level, ?_⟩
  intro q
  rw [List.mem_filter, decide_eq_true_iff]
  exact and_iff_right (List.mem_finRange q)

theorem promoted_rear {k : Kernel ncpu} {p : Slot} {level : Nat}
    {arrived front behind : List Slot} (waits : p ∉ arrived)
    (split : k.queues level ++ arrived = front ++ p :: behind)
    (new : ∀ q ∈ behind, q ∉ k.queues level) : k.queues level = front ++ [p] := by
  rcases List.append_eq_append_iff.mp split with ⟨more, _, late⟩ | ⟨more, early, late⟩
  · exact absurd (late ▸ List.mem_append_right more List.mem_cons_self) waits
  · cases more with
    | nil =>
      rw [List.nil_append] at late
      exact absurd (late ▸ List.mem_cons_self) waits
    | cons head rest =>
      rw [List.cons_append, List.cons.injEq] at late
      have none : rest = [] := by
        rw [List.eq_nil_iff_forall_not_mem]
        intro q member
        refine new q ?_ ?_
        · rw [late.2]
          exact List.mem_append_left arrived member
        · rw [early]
          exact List.mem_append_right front (List.mem_cons_of_mem head member)
      rw [early, none, late.1]

/-- An aged process goes where it belongs exactly if it waits in no ring, or already stands
at the rear of the ring above; the other processes keep their queues and their order. -/
theorem mlfq_ageing {k : Kernel ncpu} (reachable : (machine .mlfq ncpu).Reachable k) :
    (∀ p, (k.proc p).state = .runnable → (k.proc p).queueNo ≠ 0 →
        AGE < (k.proc p).waitTime + 1 →
        (k.Promoted (k.modifyTimes .mlfq) p ↔
          ¬k.Queued p ∨
            ∃ front, k.queues ((k.proc p).queueNo - 1) = front ++ [p])) ∧
      ∀ i, ∃ arrived, (k.modifyTimes .mlfq).queues i = k.queues i ++ arrived ∧
        ∀ q ∈ arrived, ¬k.Queued q := by
  have inv := (reachable_mlfqInv reachable).1
  constructor
  · intro p ready level waited
    have ages : Ages (k.proc p) := ⟨by simp [ready], level, waited⟩
    obtain ⟨ok, _, proc⟩ := modifyTimes_spec inv.rings inv.low
    have aged := (proc p).trans (chargedProc_of_ages ages)
    obtain ⟨arrived, extended, arrives⟩ := modifyTimes_arrived inv ((k.proc p).queueNo - 1)
    have inside : (k.proc p).queueNo - 1 < levels := by
      have low := inv.low p
      change (k.proc p).queueNo - 1 < 5
      omega
    constructor
    · intro promoted
      by_cases waits : k.Queued p
      · right
        obtain ⟨i, bounded, member⟩ := waits
        obtain ⟨late, whole, _⟩ := modifyTimes_arrived inv i
        have here := promoted.only i bounded (whole ▸ List.mem_append_left late member)
        obtain ⟨front, behind, split, new⟩ := promoted.rear
        rw [aged] at split new
        rw [extended] at split
        have notLate : p ∉ arrived := fun late =>
          ((arrives p).mp late).2 ⟨i, bounded, member⟩
        exact ⟨front, promoted_rear notLate split new⟩
      · exact Or.inl waits
    · intro condition
      have rear : ∃ front behind, (k.modifyTimes .mlfq).queues
          ((k.proc p).queueNo - 1) = front ++ p :: behind ∧
            ∀ q ∈ behind, q ∉ k.queues ((k.proc p).queueNo - 1) := by
        have fresh : ∀ q ∈ arrived, q ∉ k.queues ((k.proc p).queueNo - 1) :=
          fun q late early => ((arrives q).mp late).2 ⟨_, inside, early⟩
        rcases condition with absent | ⟨front, last⟩
        · have sent : ageTarget (k.proc p) = some ((k.proc p).queueNo - 1) :=
            if_pos ages
          obtain ⟨early, behind, split⟩ := List.append_of_mem ((arrives p).mpr ⟨sent, absent⟩)
          refine ⟨k.queues ((k.proc p).queueNo - 1) ++ early, behind, ?_, ?_⟩
          · rw [extended, split, List.append_assoc]
          · intro q member
            refine fresh q ?_
            rw [split]
            exact List.mem_append_right early (List.mem_cons_of_mem p member)
        · refine ⟨front, arrived, ?_, fresh⟩
          rw [extended, last, List.append_assoc]
          rfl
      have newLevel : ((k.modifyTimes .mlfq).proc p).queueNo =
          (k.proc p).queueNo - 1 := by rw [aged]
      refine ⟨?_, by rw [aged], by rw [aged], by rw [newLevel]; exact rear, ?_⟩
      · rw [newLevel]
        omega
      · intro i bounded member
        obtain ⟨front, behind, split, _⟩ := rear
        rw [newLevel]
        refine ok.distinct.apart i _ p bounded inside member ?_
        rw [split]
        exact List.mem_append_right front List.mem_cons_self
  · intro i
    obtain ⟨arrived, extended, arrives⟩ := modifyTimes_arrived inv i
    exact ⟨arrived, extended, fun q late => ((arrives q).mp late).2⟩

/-- The running process uses up its slice and is lowered; it is switched to again. -/
def sliceUsed (ticks : Nat) : List (Label 1) :=
  (List.replicate ticks [.timerTick 0, .timerCharge 0, .timerWakeup 0, .trapTail 0,
    .trapReturn 0]).flatten ++
    [.timerTick 0, .timerCharge 0, .timerWakeup 0, .trapTail 0, .yield 0, .pass 0, .enter 0,
      .pass 0, .trapReturn 0]

/-- The first process is lowered to level 2, sleeps for 20 ticks and is woken by a device. -/
def sleeperWoken : List (Label 1) :=
  startUp ++ sliceUsed 1 ++ sliceUsed 2 ++ [.syscallEnter 0, .sleep 0 (.object 7), .pass 0] ++
    (List.replicate 20 [.timerTick 0, .timerCharge 0, .timerWakeup 0, .trapTail 0]).flatten ++
    [.deviceIntr 0, .deviceWakeup 0 7, .deviceDone 0, .trapTail 0]

/-- The first process is due for ageing. -/
def firstIsDue (k : Kernel 1) : Bool :=
  decide ((k.proc 0).state = .runnable) && decide ((k.proc 0).queueNo = 2) &&
    decide ((k.proc 0).waitTime = 20)

set_option maxRecDepth 100000 in
theorem sleeperWoken_due :
    ((machine .mlfq 1).exec (boot 1) sleeperWoken).any (fun k =>
      ((machine .mlfq 1).exec k [.timerTick 0]).any (fun next =>
        firstIsDue next && decide (¬next.Queued 0)) &&
      ((machine .mlfq 1).exec k [.enter 0, .pass 0, .timerTick 0]).any (fun next =>
        firstIsDue next && decide ((0 : Slot) ∈ next.queues 0))) = true := by
  decide +kernel

/-- A process of level 2 that waits in ring 0 when the tick comes gets level 1 and stays
where it is. -/
theorem ageing_leaves_waiting_process :
    ¬∀ k : Kernel 1, (machine .mlfq 1).Reachable k →
      ∀ p, (k.proc p).state = .runnable → (k.proc p).queueNo ≠ 0 →
        AGE < (k.proc p).waitTime + 1 → k.Promoted (k.modifyTimes .mlfq) p := by
  have evaluated := sleeperWoken_due
  simp only [firstIsDue, Option.any_eq_true, Bool.and_eq_true, decide_eq_true_eq] at evaluated
  obtain ⟨before, ran, _, k, passed, ⟨⟨ready, level⟩, waited⟩, member⟩ := evaluated
  intro claimed
  have reachable : (machine .mlfq 1).Reachable k :=
    Machine.Reachable.exec ⟨_, ran⟩ passed
  have promoted := claimed k reachable 0 ready (by simp [level])
    (by rw [waited]; decide)
  obtain ⟨arrived, extended, _⟩ := modifyTimes_arrived (reachable_mlfqInv reachable).1 0
  have still := promoted.only 0 (by decide) (extended ▸ List.mem_append_left arrived member)
  have moved := promoted.level
  omega

/-- If the tick comes before that pass, the process moves to ring 1. -/
theorem mlfq_ageing_woken_process :
    ∃ k, (machine .mlfq 1).Reachable k ∧ (k.proc 0).queueNo = 2 ∧
      k.Promoted (k.modifyTimes .mlfq) 0 := by
  have evaluated := sleeperWoken_due
  simp only [firstIsDue, Option.any_eq_true, Bool.and_eq_true, decide_eq_true_eq] at evaluated
  obtain ⟨before, ran, ⟨k, ticked, ⟨⟨ready, level⟩, waited⟩, absent⟩, _⟩ := evaluated
  have reachable : (machine .mlfq 1).Reachable k :=
    Machine.Reachable.exec ⟨_, ran⟩ ticked
  refine ⟨k, reachable, level, ?_⟩
  exact ((mlfq_ageing reachable).1 0 ready (by simp [level]) (by rw [waited]; decide)).mpr
    (Or.inl absent)

end Kernel

end Xv6
