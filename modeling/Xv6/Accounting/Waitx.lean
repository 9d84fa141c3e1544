/-
The times that `waitx` reports.

An observer counts for every process the passes of `modify_times` during its life and
those that found it RUNNING, and notes whether it was created or ended between a tick
and the charging of that tick.  `run_time` is the second count.  The reported waiting
time is the number of the other passes, one less if the process was created between a
tick and its charge, one more if it ended there.
-/

import Xv6.Process.Clock

namespace Xv6

open Function Library

/-- What the observer knows about one process. -/
structure Account where
  found : Int := 0
  passes : Int := 0
  bornInWindow : Bool := false
  diedInWindow : Bool := false

def LabelKind.observed : LabelKind → Bool
  | .claim | .charge | .exit => true
  | _ => false

/-- One pass of `modify_times` over a process in a given state. -/
def Account.charge (account : Account) (state : ProcState) : Account :=
  { account with
    found := account.found + if state = .running then 1 else 0
    passes := account.passes + if state = .unused ∨ state = .zombie then 0 else 1 }

namespace Kernel

variable {ncpu : Nat}

def observe (k : Kernel ncpu) (label : Label ncpu) (accounts : Slot → Account) :
    Slot → Account :=
  match label.kind with
  | .claim =>
    match k.firstUnused with
    | some slot => update accounts slot { bornInWindow := k.inWindow }
    | none => accounts
  | .charge => fun slot => (accounts slot).charge (k.proc slot).state
  | .exit =>
    match (k.cpu label.cpu).pc with
    | .running p =>
      update accounts p { accounts p with diedInWindow := k.inWindow }
    | _ => accounts
  | _ => accounts

/-- The kernel beside the observer. -/
def observed (policy : Policy) (ncpu : Nat) :
    Machine (Kernel ncpu × (Slot → Account)) (Label ncpu) :=
  (machine policy ncpu).watched observe (fun _ => {})

/-- The account of a slot in use agrees with its record. -/
structure Balanced (k : Kernel ncpu) (p : Slot) (account : Account) : Prop where
  charged : (k.proc p).runTime = account.found
  bounded : account.found ≤ account.passes
  living : (k.proc p).state ≠ .zombie →
    account.passes + k.inWindow.toInt =
      k.ticks - (k.proc p).startTime + account.bornInWindow.toInt
  ended : (k.proc p).state = .zombie →
    account.passes + account.diedInWindow.toInt =
      (k.proc p).endTime - (k.proc p).startTime + account.bornInWindow.toInt

/-- As long as the ticks fit into an `int`. -/
def AllBalanced (k : Kernel ncpu) (accounts : Slot → Account) : Prop :=
  k.ticks < 2 ^ 31 → ∀ p, k.InUse p → k.Balanced p (accounts p)

/-! ### What a step does to one slot -/

/-- The fields of a record that `waitx` reads, and whether it is finished. -/
structure KeepsTimes (p q : Proc) : Prop where
  runTime : q.runTime = p.runTime
  startTime : q.startTime = p.startTime
  endTime : q.endTime = p.endTime
  zombie : q.state = .zombie ↔ p.state = .zombie

variable {p q : Proc} {k next : Kernel ncpu} {label : Label ncpu} {policy : Policy}
  {accounts : Slot → Account}

theorem KeepsTimes.of_record (same : p.SameRecord q) : KeepsTimes p q :=
  ⟨same.runTime, same.startTime, same.endTime, by rw [same.state]⟩

theorem KeepsTimes.trans {r : Proc} (first : KeepsTimes p q) (second : KeepsTimes q r) :
    KeepsTimes p r :=
  ⟨second.runTime.trans first.runTime, second.startTime.trans first.startTime,
    second.endTime.trans first.endTime, second.zombie.trans first.zombie⟩

theorem keepsTimes_woken (woken : p.Woken q) : KeepsTimes p q := by
  refine ⟨woken.runTime, woken.startTime, woken.endTime, ?_⟩
  rcases woken.state with same | ⟨slept, ready⟩
  · rw [same]
  · simp [slept, ready]

theorem keepsTimes_files (files : k.Files next) (p : Slot) :
    KeepsTimes (k.proc p) (next.proc p) :=
  ⟨files.runTime p, (files.proc p).startTime, (files.proc p).endTime, by
    rw [(files.proc p).state]⟩

theorem modify_keepsTimes (k : Kernel ncpu) (slot : Slot) (change : Proc → Proc)
    (times : KeepsTimes (k.proc slot) (change (k.proc slot))) (p : Slot) :
    KeepsTimes (k.proc p) ((k.modify slot change).proc p) := by
  by_cases here : p = slot
  · subst p
    rwa [modify_proc_self]
  · rw [modify_proc_of_ne _ _ _ here]
    exact .of_record (Proc.SameRecord.refl _)

/-- What happens to a slot that is in use after a step. -/
inductive Fate (k : Kernel ncpu) (label : Label ncpu) (next : Kernel ncpu) (p : Slot) :
    Prop
  | kept (used : k.InUse p) (times : KeepsTimes (k.proc p) (next.proc p))
      (unseen : ∀ accounts, observe k label accounts p = accounts p)
      (charge : label.kind ≠ .charge)
  | claimed (kind : label.kind = .claim) (found : k.firstUnused = some p)
      (runTime : (next.proc p).runTime = 0)
      (startTime : (next.proc p).startTime = int32 k.ticks)
      (state : (next.proc p).state = .embryo)
  | ended (c : Fin ncpu) (labelled : label = .exit c)
      (place : (k.cpu c).pc = .running p) (used : k.InUse p)
      (alive : (k.proc p).state ≠ .zombie) (state : (next.proc p).state = .zombie)
      (runTime : (next.proc p).runTime = (k.proc p).runTime)
      (startTime : (next.proc p).startTime = (k.proc p).startTime)
      (endTime : (next.proc p).endTime = int32 k.ticks)
  | charged (c : Fin ncpu) (labelled : label = .timerCharge c) (used : k.InUse p)
      (state : (next.proc p).state = (k.proc p).state)
      (runTime : (next.proc p).runTime = (k.proc p).runTime +
        if (k.proc p).state = .running then 1 else 0)
      (startTime : (next.proc p).startTime = (k.proc p).startTime)
      (endTime : (next.proc p).endTime = (k.proc p).endTime)

theorem observe_quiet (quiet : label.kind.observed = false) (p : Slot) (accounts : Slot → Account) :
    observe k label accounts p = accounts p := by
  unfold observe
  cases kind : label.kind with
  | claim | charge | exit => simp [kind, LabelKind.observed] at quiet
  | _ => rfl

section Fates

variable {k next : Kernel ncpu} {label : Label ncpu} {p : Slot}

theorem Fate.quiet (used : k.InUse p) (times : KeepsTimes (k.proc p) (next.proc p))
    (quiet : label.kind.observed = false) : Fate k label next p := by
  refine .kept used times (observe_quiet quiet p) ?_
  intro kind
  rw [kind] at quiet
  cases quiet

/-- A change of one slot that neither ends a process nor touches its times; a slot that
it gives up is not in use afterwards. -/
theorem Fate.modified {slot : Slot} {change : Proc → Proc} (used : next.InUse p)
    (same : (k.modify slot change).SameTable next) (usedBefore : k.InUse slot)
    (times : (change (k.proc slot)).state = .unused ∨
      KeepsTimes (k.proc slot) (change (k.proc slot)))
    (quiet : label.kind.observed = false) : Fate k label next p := by
  have record := same.proc p
  by_cases here : p = slot
  · subst p
    rw [modify_proc_self] at record
    rcases times with unused | times
    · exact absurd (record.state.trans unused) used
    · exact .quiet usedBefore (times.trans (.of_record record)) quiet
  · rw [modify_proc_of_ne _ _ _ here] at record
    refine .quiet ?_ (.of_record record) quiet
    unfold InUse at used ⊢
    rwa [record.state] at used

theorem Fate.claims {policy : Policy} {slot : Slot} (kind : label.kind = .claim)
    (found : k.firstUnused = some slot) (used : next.InUse p)
    (same : (k.allocproc policy).2.SameTable next) : Fate k label next p := by
  rcases allocproc_cases policy k with ⟨none, _⟩ | ⟨new, after, first, result, files⟩
  · simp [found] at none
  · have equal : new = slot := Option.some.inj (first.symm.trans found)
    subst new
    rw [result] at same
    have times := (keepsTimes_files files p).trans (.of_record (same.proc p))
    have state := (same.proc p).state.trans (files.proc p).state
    by_cases here : p = slot
    · subst p
      have fresh : (k.claimSlot slot).proc slot = k.freshProc (k.proc slot) := by
        simp only [claimSlot, update_self]
      rw [fresh] at times state
      exact .claimed kind found times.runTime times.startTime state
    · rw [claimSlot_other k here] at times state
      refine .kept ?_ times ?_ (by simp [kind])
      · unfold InUse at used ⊢
        rwa [state] at used
      · intro accounts
        simp only [observe, kind, found, update_of_ne here]

theorem Fate.exits {c : Fin ncpu} {q : Slot} {woken : Kernel ncpu}
    (labelled : label = .exit c) (place : (k.cpu c).pc = .running q)
    (running : (k.proc q).state = .running) (wakes : k.Wakes woken)
    (used : next.InUse p)
    (same : (woken.modify q (fun r =>
      { r with endTime := int32 k.ticks, state := .zombie })).SameTable next) :
    Fate k label next p := by
  have record := same.proc p
  have before := wakes.proc p
  by_cases here : p = q
  · subst p
    rw [modify_proc_self] at record
    refine .ended c labelled place ?_ (by simp [running]) record.state
      (record.runTime.trans before.runTime) (record.startTime.trans before.startTime)
      record.endTime
    unfold InUse
    simp [running]
  · rw [modify_proc_of_ne _ _ _ here] at record
    refine .kept ?_ ((keepsTimes_woken before).trans (.of_record record)) ?_ (by simp [labelled, Label.kind])
    · intro unused
      have still := (before.keeps (by simp [unused])).trans unused
      exact used (record.state.trans still)
    · intro accounts
      simp only [observe, labelled, Label.kind, Label.cpu, place, update_of_ne here]

end Fates

theorem fate (stepped : TableStep policy k label next) {p : Slot} (used : next.InUse p) :
    Fate k label next p := by
  have inUse : ∀ {q : Slot} {state : ProcState}, (k.proc q).state = state →
      state ≠ .unused → k.InUse q := by
    intro q state here living
    unfold InUse
    rwa [here]
  cases stepped with
  | silent kind same =>
    refine .quiet ?_ (.of_record (same.proc p)) ?_
    · exact inUse (same.proc p).state.symm used
    · rcases kind with kind | kind <;> simp [kind, LabelKind.observed]
  | wake kind woken wakes same =>
    refine .quiet ?_ ((keepsTimes_woken (wakes.proc p)).trans (.of_record (same.proc p))) ?_
    · intro unused
      have still := ((wakes.proc p).keeps (by simp [unused])).trans unused
      exact used ((same.proc p).state.trans still)
    · simp [kind, LabelKind.observed]
  | priority c q pid priority labelled place result =>
    have keeps : ∀ {Value : Type} (field : Proc → Value),
        (∀ (r : Proc) (value : Int), field { r with priority := value } = field r) →
        field (next.proc p) = field (k.proc p) := by
      intro Value field same
      rw [result]
      exact setPriority_keeps field same k pid priority p
    have state := keeps Proc.state (fun _ _ => rfl)
    refine .quiet (inUse state.symm used) ⟨keeps Proc.runTime (fun _ _ => rfl),
      keeps Proc.startTime (fun _ _ => rfl), keeps Proc.endTime (fun _ _ => rfl), ?_⟩ ?_
    · rw [state]
    · rw [labelled]
      rfl
  | full kind none same =>
    refine .kept (inUse (same.proc p).state.symm used) (.of_record (same.proc p)) ?_
      (by simp [kind])
    intro accounts
    simp only [observe, kind, none]
  | claim kind slot found same => exact .claims kind found used same
  | forkFail kind np embryo same =>
    exact .modified used same (inUse embryo (by decide)) (Or.inl rfl)
      (by simp [kind, LabelKind.observed])
  | ready kind np embryo same =>
    refine .modified used same (inUse embryo (by decide)) (Or.inr ?_)
      (by simp [kind, LabelKind.observed])
    exact ⟨rfl, rfl, rfl, by simp [embryo]⟩
  | exit c q labelled place running woken wakes same =>
    exact .exits labelled place running wakes used same
  | reap kind child zombie same =>
    exact .modified used same (inUse zombie (by decide)) (Or.inl rfl)
      (by simp [kind, LabelKind.observed])
  | sleep kind c q place running same =>
    refine .modified used same (inUse running (by decide)) (Or.inr ?_) ?_
    · exact ⟨rfl, rfl, rfl, by simp [running]⟩
    · rcases kind with kind | kind <;> simp [kind, LabelKind.observed]
  | yield c q labelled place running stage result =>
    have files := yield_files policy k c q
    rw [← result] at files
    have given := modify_keepsTimes k q
      (fun r => { r with state := .runnable, resume := .recheck })
      ⟨rfl, rfl, rfl, by simp [running]⟩ p
    refine .quiet ?_ (given.trans (keepsTimes_files files p)) (by rw [labelled]; rfl)
    intro unused
    have different : p ≠ q := by
      intro same
      rw [same, running] at unused
      cases unused
    have still : (next.proc p).state = (k.proc p).state := by
      rw [(files.proc p).state]
      simp only [sched, modify_proc_of_ne _ _ _ different]
    exact used (still.trans unused)
  | tick c labelled same =>
    subst labelled
    exact .quiet (inUse (same.proc p).state.symm used) (.of_record (same.proc p)) rfl
  | charge c labelled same =>
    have accounts := (modifyTimes_accounts policy k).proc p
    have state := (same.proc p).state.trans accounts.state
    exact .charged c labelled (inUse state.symm used) state
      ((same.proc p).runTime.trans (modifyTimes_runTime policy k p))
      ((same.proc p).startTime.trans accounts.startTime)
      ((same.proc p).endTime.trans accounts.endTime)
  | pass c back labelled place result =>
    have quiet : label.kind.observed = false := by
      rw [labelled]
      rfl
    have living : k.InUse p := by
      intro unused
      rcases schedulerPass_state policy k c back p with same | ⟨ready, _⟩
      · rw [← result] at same
        exact used (same.trans unused)
      · rw [unused] at ready
        cases ready
    cases schedulerPass_outcome policy k c back with
    | dispatched middle q files ready after =>
      have started := modify_keepsTimes middle q
        (fun r => { r with state := .running, chan := .null })
        ⟨rfl, rfl, rfl, by simp [(files.proc q).state, ready]⟩ p
      rw [after] at result
      refine .quiet living ((keepsTimes_files files p).trans ?_) quiet
      rw [result]
      exact started
    | ended middle files after =>
      rw [after] at result
      refine .quiet living ?_ quiet
      rw [result]
      exact keepsTimes_files files p

/-! ### The balance over runs -/

theorem Balanced.keep {p : Slot} {account : Account} (balanced : k.Balanced p account)
    (times : KeepsTimes (k.proc p) (next.proc p))
    (clock : next.ticks - next.inWindow.toInt = k.ticks - k.inWindow.toInt) :
    next.Balanced p account := by
  have living := balanced.living
  refine ⟨times.runTime.trans balanced.charged, balanced.bounded, ?_, ?_⟩
  · intro alive
    rw [times.startTime]
    have before := living (fun zombie => alive (times.zombie.mpr zombie))
    omega
  · intro zombie
    rw [times.startTime, times.endTime]
    exact balanced.ended (times.zombie.mp zombie)

theorem AllBalanced.step (balanced : k.AllBalanced accounts)
    (reachable : (machine policy ncpu).Reachable k)
    (stepped : k.step policy label = some next) :
    next.AllBalanced (observe k label accounts) := by
  have clock := reachable_clockInv reachable
  have table := tableStep (reachable_kernelInv reachable) stepped
  have ticks := ticks_step table
  have window : label.kind ≠ .tick → label.kind ≠ .charge → next.inWindow = k.inWindow :=
    inWindow_other clock (reachable_trapInv reachable) stepped
  intro nextSmall p used
  have small : k.ticks < 2 ^ 31 := by
    rw [ticks] at nextSmall
    split at nextSmall <;> omega
  have cut := int32_of_lt (reachable_pidInv reachable).counted small
  cases fate table used with
  | kept usedBefore times unseen noCharge =>
    rw [unseen]
    refine (balanced small p usedBefore).keep times ?_
    by_cases tick : label.kind = .tick
    · obtain ⟨c, labelled⟩ : ∃ c, label = .timerTick c := by
        cases label <;> simp [Label.kind] at tick ⊢
      subst labelled
      obtain ⟨closed, opened⟩ := inWindow_tick clock stepped
      rw [ticks, closed, opened, if_pos tick]
      simp
    · rw [ticks, window tick noCharge, if_neg tick, add_zero]
  | claimed kind found runTime startTime state =>
    have same := window (by simp [kind]) (by simp [kind])
    have now : next.ticks = k.ticks := by simp [ticks, kind]
    have account : observe k label accounts p = { bornInWindow := k.inWindow } := by
      simp only [observe, kind, found, update_self]
    rw [account]
    refine ⟨runTime, le_refl _, ?_, fun zombie => by simp [state] at zombie⟩
    intro _
    rw [same, now, startTime, cut]
    simp
  | ended c labelled place usedBefore alive state runTime startTime endTime =>
    subst labelled
    have before := balanced small p usedBefore
    have account : observe k (.exit c) accounts p =
        { accounts p with diedInWindow := k.inWindow } := by
      simp only [observe, Label.kind, Label.cpu, place, update_self]
    rw [account]
    refine ⟨runTime.trans before.charged, before.bounded, fun living => absurd state living, ?_⟩
    intro _
    rw [startTime, endTime, cut]
    exact before.living alive
  | charged c labelled usedBefore state runTime startTime endTime =>
    subst labelled
    have before := balanced small p usedBefore
    obtain ⟨opened, closed⟩ := inWindow_charge clock stepped
    have now : next.ticks = k.ticks := by simp [ticks, Label.kind]
    have account : observe k (.timerCharge c) accounts p =
        (accounts p).charge (k.proc p).state := rfl
    rw [account]
    refine ⟨?_, ?_, ?_, ?_⟩
    · rw [runTime, before.charged]
      rfl
    · have bounded := before.bounded
      simp only [Account.charge]
      split
      · rename_i running
        simp [running, bounded]
      · split <;> omega
    · intro alive
      rw [state] at alive
      have counted := before.living alive
      have living : ¬((k.proc p).state = .unused ∨ (k.proc p).state = .zombie) := by
        intro either
        rcases either with unused | zombie
        · exact usedBefore unused
        · exact alive zombie
      simp only [Account.charge, if_neg living, closed, now, startTime]
      rw [opened] at counted
      simp only [Bool.toInt_true, Bool.toInt_false] at counted ⊢
      omega
    · intro zombie
      rw [state] at zombie
      have counted := before.ended zombie
      simpa [Account.charge, zombie, startTime, endTime] using counted

theorem observed_balanced (reachable : (observed policy ncpu).Reachable (k, accounts)) :
    k.AllBalanced accounts := by
  refine (Machine.Reachable.watched_invariant AllBalanced ?_ ?_ reachable).2
  · intro _ p used
    exact absurd rfl used
  · intro before label next accounts reached balanced stepped
    exact balanced.step reached stepped

/-! ### What `waitx` reports -/

/-- `waitx` reports the times of the ZOMBIE child that it reaps. -/
theorem waitx_reaps {c : Fin ncpu} {p : Slot} {times : WaitxTimes}
    (reaped : (k.waitx c p).2.1 = some times) :
    ∃ child, k.zombieChild p = some child ∧ (k.proc child).state = .zombie ∧
      times = waitxTimes (k.proc child) := by
  unfold waitx at reaped
  cases found : k.zombieChild p with
  | none =>
    simp only [waitLoop, found] at reaped
    split at reaped
    · cases reaped
    · cases reaped
  | some child =>
    have matching := List.find?_some found
    simp only [Bool.and_eq_true, decide_eq_true_eq] at matching
    simp only [waitLoop, found, Option.map_some, modify_proc_self, Option.some.injEq] at reaped
    exact ⟨child, rfl, matching.2, reaped.symm⟩

theorem observe_born (k : Kernel ncpu) (label : Label ncpu) (accounts : Slot → Account)
    (p : Slot) :
    (observe k label accounts p).bornInWindow =
      if label.kind = .claim ∧ k.firstUnused = some p then k.inWindow
      else (accounts p).bornInWindow := by
  cases kind : label.kind with
  | claim =>
    cases found : k.firstUnused with
    | none => simp [observe, kind, found]
    | some slot =>
      simp only [observe, kind, found, update_apply, Option.some.injEq, true_and,
        eq_comm]
      split <;> rfl
  | charge => simp [observe, kind, Account.charge]
  | exit =>
    simp only [observe, kind, reduceCtorEq, false_and, if_false]
    cases (k.cpu label.cpu).pc with
    | running q =>
      simp only [update_apply]
      split
      · rename_i same
        rw [same]
      · rfl
    | _ => rfl
  | _ => simp [observe, kind]

theorem single_not_born {k : Kernel 1}
    (reachable : (observed policy 1).Reachable (k, accounts)) (p : Slot) :
    (accounts p).bornInWindow = false := by
  refine (Machine.Reachable.watched_invariant
    (fun _ accounts => ∀ p, (accounts p).bornInWindow = false) ?_ ?_ reachable).2 p
  · exact fun _ => rfl
  · intro before label next accounts reached unborn stepped p
    rw [observe_born]
    split
    · rename_i claimed
      have quiet := claim_quiet (reachable_clockInv reached) stepped claimed.1
      rw [← Bool.not_eq_true, inWindow_iff]
      intro opened
      obtain ⟨c, ticked⟩ := opened
      rw [Subsingleton.elim c label.cpu, quiet] at ticked
      cases ticked
    · exact unborn p

/-- The reported running time is the number of passes that found the child RUNNING; with
the waiting time it makes up the time from creation to exit.  The waiting time is
negative exactly if the child was created between a tick and its charge, did not end in
such a place, and every pass of its life found it RUNNING; it is then -1.  On a single
CPU this does not happen.  The ticks must still fit into an `int`. -/
theorem waitx_accounting {policy : Policy} {k : Kernel ncpu} {accounts : Slot → Account}
    (reachable : (observed policy ncpu).Reachable (k, accounts))
    (small : k.ticks < 2 ^ 31) {c : Fin ncpu} {p : Slot}
    {times : WaitxTimes} (reaped : (k.waitx c p).2.1 = some times) :
    ∃ child, k.zombieChild p = some child ∧
      times.rtime = (accounts child).found ∧
      times.wtime + times.rtime = (k.proc child).endTime - (k.proc child).startTime ∧
      (0 ≤ times.wtime ↔ ¬((accounts child).bornInWindow = true ∧
        (accounts child).diedInWindow = false ∧
        (accounts child).found = (accounts child).passes)) ∧
      -1 ≤ times.wtime ∧ (ncpu = 1 → 0 ≤ times.wtime) := by
  obtain ⟨child, found, zombie, result⟩ := waitx_reaps reaped
  have used : k.InUse child := by
    unfold InUse
    simp [zombie]
  have balanced := observed_balanced reachable small child used
  have counted := balanced.ended zombie
  have charged := balanced.charged
  have bounded := balanced.bounded
  have unborn : ncpu = 1 → (accounts child).bornInWindow = false := by
    intro single
    subst single
    exact single_not_born reachable child
  subst result
  refine ⟨child, found, ?_⟩
  generalize accounts child = account at *
  obtain ⟨foundRunning, passes, born, died⟩ := account
  simp only [waitxTimes] at *
  refine ⟨charged, by omega, ?_, ?_, ?_⟩
  · cases born <;> cases died <;> simp at counted ⊢ <;> omega
  · cases born <;> cases died <;> simp at counted <;> omega
  · intro single
    rw [unborn single] at counted
    cases died <;> simp at counted <;> omega

/-- CPU 0 has counted a tick and not charged it when the first process, on CPU 1, forks a
child and waits; the child runs on CPU 1, is charged, and exits before the next tick. -/
def bornBetween : List (Label 2) :=
  [.userinitAlloc 0, .userinitReady 0, .enter 1, .pass 1, .forkretReturn 1, .timerTick 0,
    .syscallEnter 1, .allocproc 1, .forkCopy 1, .forkReady 1, .waitx 1, .pass 1,
    .timerCharge 0, .forkretReturn 1, .syscallEnter 1, .exit 1, .pass 1, .enter 1, .pass 1]

set_option maxRecDepth 100000 in
/-- `waitx` then reports a waiting time of -1. -/
theorem waitx_reports_negative_time :
    ¬∀ (k : Kernel 2) (c : Fin 2) (p : Slot) (times : WaitxTimes),
      (machine .roundRobin 2).Reachable k → (k.waitx c p).2.1 = some times →
      0 ≤ times.wtime := by
  obtain ⟨k, ran, times, reaped, negative⟩ :
      ∃ k, (machine .roundRobin 2).exec (boot 2) bornBetween = some k ∧
        ∃ times, (k.waitx 1 0).2.1 = some times ∧ times.wtime = -1 := by
    decide +kernel
  intro claimed
  have positive := claimed k 1 0 times ⟨_, ran⟩ reaped
  omega

/-- On one CPU the first process forks and waits; the child runs through a tick and
exits. -/
def childReaped : List (Label 1) :=
  startUp ++ [.syscallEnter 0, .allocproc 0, .forkCopy 0, .forkReady 0, .waitx 0, .pass 0,
    .forkretReturn 0, .timerTick 0, .timerCharge 0, .timerWakeup 0, .trapTail 0, .yield 0,
    .pass 0, .enter 0, .pass 0, .trapReturn 0, .syscallEnter 0, .exit 0, .pass 0, .enter 0,
    .pass 0]

set_option maxRecDepth 100000 in
theorem waitx_accounting_single_cpu :
    ∃ k accounts times, (observed .roundRobin 1).Reachable (k, accounts) ∧
      (k.waitx 0 0).2.1 = some times ∧ times.rtime = 1 ∧
      times.rtime = (accounts 1).found ∧ 0 ≤ times.wtime := by
  obtain ⟨⟨k, accounts⟩, ran, zombie, small, times, reaped, one⟩ :
      ∃ pair, (observed .roundRobin 1).exec (boot 1, fun _ => {}) childReaped = some pair ∧
        pair.1.zombieChild 0 = some 1 ∧ pair.1.ticks < 2 ^ 31 ∧
        ∃ times, (pair.1.waitx 0 0).2.1 = some times ∧ times.rtime = 1 := by
    decide +kernel
  have reachable : (observed .roundRobin 1).Reachable (k, accounts) := ⟨_, ran⟩
  obtain ⟨child, found, charged, _, _, _, positive⟩ := waitx_accounting reachable small reaped
  have same : child = 1 := Option.some.inj (found.symm.trans zombie)
  rw [same] at charged
  exact ⟨k, accounts, times, reachable, reaped, one, charged, positive rfl⟩

end Kernel

end Xv6
