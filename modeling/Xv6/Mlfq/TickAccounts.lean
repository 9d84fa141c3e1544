/-
The ticks that a process was charged at each level.

Only two sections write `ticks` and `run_time`: `allocproc` clears both, and `modify_times`
adds one to each for a RUNNING process.
-/

import Xv6.Mlfq.Invariant

namespace Xv6

open Library
open Function (update_self)

/-- What a process was charged. -/
def Proc.account (p : Proc) : (Nat → Int) × Int := (p.ticks, p.runTime)

/-- `ticks[0] + ... + ticks[4]`. -/
def Proc.ticksSum (p : Proc) : Int := ∑ i ∈ Finset.range levels, p.ticks i

theorem Proc.ticksSum_congr {p q : Proc} (same : q.account = p.account)
    (balanced : p.ticksSum = p.runTime) : q.ticksSum = q.runTime := by
  have ticks : q.ticks = p.ticks := congrArg Prod.fst same
  have runTime : q.runTime = p.runTime := congrArg Prod.snd same
  rw [runTime, ← balanced]
  unfold ticksSum
  rw [ticks]

namespace Kernel

variable {ncpu : Nat}

/-! ### Sections that charge nothing -/

abbrev SameAccounts (k next : Kernel ncpu) : Prop := Keeps Proc.account k next

theorem modify_sameAccounts (k : Kernel ncpu) (slot : Slot) (change : Proc → Proc)
    (keeps : (change (k.proc slot)).account = (k.proc slot).account) :
    k.SameAccounts (k.modify slot change) :=
  modify_keeps k slot change Proc.account keeps

theorem push_sameAccounts (k : Kernel ncpu) (queueNo : Nat) (cur : Slot) :
    k.SameAccounts (k.push queueNo cur) :=
  push_keeps (fun _ _ => rfl) k queueNo cur

theorem wakeup1_sameAccounts (k : Kernel ncpu) (chan : Chan) :
    k.SameAccounts (k.wakeup1 chan) :=
  wakeup1_keeps (fun _ _ => rfl) k chan

theorem exit_sameAccounts (k : Kernel ncpu) (c : Fin ncpu) (curproc : Slot) :
    k.SameAccounts (k.exit c curproc) :=
  exit_keeps (fun _ _ _ _ => rfl) k c curproc

theorem sleep_sameAccounts (k : Kernel ncpu) (c : Fin ncpu) (curproc : Slot) (chan : Chan) :
    k.SameAccounts (k.sleep c curproc chan) :=
  modify_sameAccounts k curproc (fun p =>
    { p with chan := chan, state := .sleeping, resume := (k.cpu c).trap }) rfl

theorem waitLoop_sameAccounts (k : Kernel ncpu) (c : Fin ncpu) (curproc : Slot) :
    k.SameAccounts (k.waitLoop c curproc).2.2 := by
  unfold waitLoop
  split
  · exact modify_sameAccounts k _ reapProc rfl
  · split
    · exact Keeps.refl k
    · exact sleep_sameAccounts k c curproc _

theorem yield_sameAccounts (k : Kernel ncpu) (c : Fin ncpu) (p : Slot) :
    k.SameAccounts (k.yield .mlfq c p) := by
  rw [yield_mlfq_eq]
  exact (modify_sameAccounts k p yieldedProc rfl).trans (push_sameAccounts _ _ p)

theorem kill_sameAccounts (k : Kernel ncpu) (pid : Int) :
    k.SameAccounts (k.kill pid).2 := by
  unfold kill
  split
  · exact modify_sameAccounts k _ killProc rfl
  · exact Keeps.refl k

theorem setPriority_sameAccounts (k : Kernel ncpu) (pid priority : Int) :
    k.SameAccounts (k.setPriority pid priority).2 :=
  setPriority_keeps Proc.account (fun _ _ => rfl) k pid priority

theorem refillSlot_sameAccounts (k : Kernel ncpu) (slot : Slot) :
    k.SameAccounts (k.refillSlot slot) := by
  unfold refillSlot
  split
  · exact Keeps.refl k
  · exact push_sameAccounts k 0 slot

theorem refill_sameAccounts (k : Kernel ncpu) (c : Fin ncpu) :
    k.SameAccounts (k.refill.release c) := by
  have refilled := foldl_relates Keeps.refl (fun _ _ _ => Keeps.trans)
    refillSlot_sameAccounts slots k
  exact refilled.trans (.of_proc_eq (release_proc _ c))

theorem mlfqPass_sameAccounts {k : Kernel ncpu} (inv : k.MlfqInv) (c : Fin ncpu)
    (back : Option Slot) : k.SameAccounts (k.mlfqPass c back) := by
  cases mlfqPass_spec inv c back with
  | back q result =>
    rw [result]
    exact refill_sameAccounts k c
  | idle middle accounts ok proc queues nobody result =>
    rw [result]
    exact (Keeps.of_proc_eq proc).trans (refill_sameAccounts middle c)
  | dispatched middle p i before behind accounts ok proc bounded higher holding idle ready queues
      result =>
      have chosen := modify_sameAccounts middle p
        (fun q => { q with waitTime := 0, numRun := q.numRun + 1 }) rfl
      rw [result]
      exact ((Keeps.of_proc_eq proc).trans chosen).trans
        (modify_sameAccounts _ p (fun q => { q with state := .running, chan := .null }) rfl)

/-! ### Every step -/

/-- What a step does to the account of a process: nothing, or it is cleared, or it is
charged. -/
inductive AccountStep (k next : Kernel ncpu) (p : Slot) : Prop
  | same (account : (next.proc p).account = (k.proc p).account)
  | cleared (account : (next.proc p).account = (fun _ => 0, 0))
  | charged (account : (next.proc p).account = (chargedProc (k.proc p)).account)

theorem allocproc_account (k : Kernel ncpu) (p : Slot) :
    ((k.allocproc .mlfq).2.proc p).account = (k.proc p).account ∨
      ((k.allocproc .mlfq).2.proc p).account = (fun _ => 0, 0) := by
  unfold allocproc
  split
  · exact Or.inl rfl
  · rename_i slot _
    rw [if_pos rfl]
    have pushed : (k.claimSlot slot).SameAccounts
        ((k.claimSlot slot).pushFirstFree slot) := by
      unfold pushFirstFree
      split
      · exact push_sameAccounts _ _ slot
      · exact .of_proc_eq rfl
    rw [pushed p]
    by_cases here : p = slot
    · subst slot
      right
      simp only [claimSlot, update_self]
      rfl
    · rw [claimSlot_other k here]
      exact Or.inl rfl

theorem accountStep {k next : Kernel ncpu} {label : Label ncpu} (inv : k.MlfqInv)
    (stepped : k.step .mlfq label = some next) (p : Slot) : k.AccountStep next p := by
  have claimed : ∀ after : Kernel ncpu, (k.allocproc .mlfq).2.SameAccounts after →
      k.AccountStep after p := by
    intro after same
    rcases allocproc_account k p with kept | cleared
    · exact .same ((same p).trans kept)
    · exact .cleared ((same p).trans cleared)
  cases step_inversion stepped with
  | userinitAlloc c place free => exact claimed _ (.of_proc_eq rfl)
  | allocproc c q place mode free =>
    refine claimed _ ?_
    unfold forkAlloc
    simp only
    split
    · exact modify_sameAccounts _ q _ rfl
    · exact .of_proc_eq rfl
  | timerCharge c stage free =>
    refine .charged ?_
    rw [setTrap_proc, (modifyTimes_spec inv.rings inv.low).2.2]
  | pass c back place => exact .same (mlfqPass_sameAccounts inv c back p)
  | yield c q place stage free => exact .same (yield_sameAccounts k c q p)
  | exit c q place mode ordinary free => exact .same (exit_sameAccounts k c q p)
  | wait c q place mode free => exact .same (waitLoop_sameAccounts k c q p)
  | waitx c q place mode free => exact .same (waitLoop_sameAccounts k c q p)
  | timerWakeup | deviceWakeup | wakeup => exact .same (wakeup1_sameAccounts k _ p)
  | kill c q pid place mode free => exact .same (kill_sameAccounts k pid p)
  | setPriority c q pid priority place mode free =>
    exact .same (setPriority_sameAccounts k pid priority p)
  | userinitReady c np place free =>
    exact .same (modify_sameAccounts k np (fun q => { q with state := .runnable }) rfl p)
  | fault c q place quiet mode =>
    exact .same (modify_sameAccounts k q (fun r => { r with killed := true }) rfl p)
  | syscallEnter c q | syscallReturn c q | forkretReturn c q =>
    exact .same (modify_sameAccounts k q _ rfl p)
  | sleep c q chan place mode object free => exact .same (sleep_sameAccounts k c q chan p)
  | forkFail c q np | forkCopy c q np | forkReady c q np =>
    exact .same ((modify_sameAccounts k np _ rfl).trans (modify_sameAccounts _ q _ rfl) p)
  | enter | timerTick | timerOther | deviceIntr | deviceDone | trapTail | trapTailIdle
  | trapReturn | trapExit => exact .same rfl

theorem chargedProc_ticksSum {p : Proc} (low : p.queueNo ≤ 4)
    (balanced : p.ticksSum = p.runTime) : (chargedProc p).ticksSum = (chargedProc p).runTime := by
  unfold chargedProc
  split
  · have inside : p.queueNo ∈ Finset.range levels := Finset.mem_range.mpr (Nat.lt_succ_of_le low)
    have here := Finset.sum_eq_add_sum_sdiff_singleton_of_mem inside p.ticks
    unfold Proc.ticksSum at balanced ⊢
    simp only [chargeRunning, if_true]
    rw [Finset.sum_update_of_mem inside]
    omega
  · split
    · exact balanced
    · exact balanced

theorem reachable_ticksSum {k : Kernel ncpu}
    (reachable : (machine .mlfq ncpu).Reachable k) (p : Slot) :
    (k.proc p).ticksSum = (k.proc p).runTime := by
  let balanced : Kernel ncpu → Prop := fun k =>
    ∀ p, (k.proc p).ticksSum = (k.proc p).runTime
  have kept : balanced k := by
    apply reachable.invariant_above
    · intro p
      rfl
    · intro before label next reached holds stepped p
      have inv := (reachable_mlfqInv reached).1
      cases accountStep inv stepped p with
      | same account => exact Proc.ticksSum_congr account (holds p)
      | cleared account =>
        have blank : (({} : Proc).account) = (fun _ => 0, 0) := rfl
        exact Proc.ticksSum_congr (account.trans blank.symm) rfl
      | charged account =>
        exact Proc.ticksSum_congr account (chargedProc_ticksSum (inv.low p) (holds p))
  exact kept p

/-- Levels stay below the number of rings, also the one that `yield` is about to push to; the
ticks of all levels add up to the run time; and a process starts to run with no time on its
account. -/
theorem mlfq_tick_accounting {k : Kernel ncpu}
    (reachable : (machine .mlfq ncpu).Reachable k) :
    (∀ p, (k.proc p).queueNo < levels) ∧
      (∀ c next p, k.step .mlfq (.yield c) = some next → (k.cpu c).pc = .running p →
        (k.proc p).queueNo + 1 < levels) ∧
      (∀ p, (k.proc p).ticksSum = (k.proc p).runTime) ∧
      ∀ c next p, k.step .mlfq (.pass c) = some next → (next.cpu c).pc = .running p →
        (next.proc p).curTime = 0 := by
  obtain ⟨inv, yields⟩ := reachable_mlfqInv reachable
  refine ⟨fun p => Nat.lt_succ_of_le (inv.low p), ?_, reachable_ticksSum reachable, ?_⟩
  · intro c next p stepped runs
    cases step_inversion stepped with
    | yield _ q place stage free =>
      have low := inv.low p
      have above := yields c p runs stage
      change (k.proc p).queueNo + 1 < 5
      omega
  intro c next p stepped runs
  obtain ⟨back, spec⟩ := pass_spec inv stepped
  cases spec with
  | back q result =>
    rw [result] at runs
    simp [release] at runs
  | idle middle accounts ok proc queues nobody result =>
    rw [result] at runs
    simp [release] at runs
  | dispatched middle q i before behind accounts ok proc bounded higher holding idle ready
      queues result =>
      rw [result] at runs ⊢
      simp only [dispatch, update_self, CpuPc.running.injEq] at runs
      subst q
      have waits : k.Queued p := by
        refine ⟨i, bounded, ?_⟩
        rw [holding]
        exact List.mem_append_right before List.mem_cons_self
      simp only [dispatch, update_self, modify_proc_self, proc]
      exact inv.fresh p waits

set_option maxRecDepth 100000 in
/-- The first process has used two ticks of level 0 when it is switched to at level 1. -/
theorem mlfq_tick_accounting_second_level :
    ∃ k next, (machine .mlfq 1).exec (boot 1) (startUp ++ [.timerTick 0, .timerCharge 0,
        .timerWakeup 0, .trapTail 0, .trapReturn 0, .timerTick 0, .timerCharge 0, .timerWakeup 0,
        .trapTail 0, .yield 0, .pass 0, .enter 0]) = some k ∧
      (k.proc 0).queueNo = 1 ∧ (k.proc 0).ticks 0 = 2 ∧
      (k.proc 0).ticksSum = (k.proc 0).runTime ∧
      k.step .mlfq (.pass 0) = some next ∧ (next.proc 0).curTime = 0 := by
  obtain ⟨k, ran, level, ticks, next, stepped, runs⟩ :
      ∃ k, (machine .mlfq 1).exec (boot 1) (startUp ++ [.timerTick 0, .timerCharge 0,
        .timerWakeup 0, .trapTail 0, .trapReturn 0, .timerTick 0, .timerCharge 0, .timerWakeup 0,
        .trapTail 0, .yield 0, .pass 0, .enter 0]) = some k ∧ (k.proc 0).queueNo = 1 ∧
        (k.proc 0).ticks 0 = 2 ∧ ∃ next, k.step .mlfq (.pass 0) = some next ∧
        (next.cpu 0).pc = .running 0 := by
    decide +kernel
  obtain ⟨_, _, sums, starts⟩ := mlfq_tick_accounting ⟨_, ran⟩
  exact ⟨k, next, ran, level, ticks, sums 0, stepped, starts 0 next 0 stepped runs⟩

end Kernel

end Xv6
