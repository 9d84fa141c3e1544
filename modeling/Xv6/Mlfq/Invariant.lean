/-
The invariant of the multilevel feedback queue over whole runs.

The rings are well formed and hold no process twice, a process that waits in a ring is
not RUNNING and has no time on its account, and no level is beyond the last ring.
-/

import Xv6.Mlfq.Passes
import Xv6.Process.Traps

namespace Xv6

open Function Library

namespace Kernel

variable {ncpu : Nat}

structure MlfqInv (k : Kernel ncpu) : Prop where
  rings : k.RingsOk
  waiting : ∀ slot, k.Queued slot → (k.proc slot).state ≠ .running
  fresh : k.WaitingFresh
  low : ∀ slot, (k.proc slot).queueNo ≤ 4

theorem boot_mlfqInv : (boot ncpu).MlfqInv := by
  have nobody : ∀ slot, ¬(boot ncpu).Queued slot := by
    intro slot queued
    obtain ⟨level, _, member⟩ := queued
    rw [boot_queues] at member
    cases member
  exact ⟨boot_ringsOk, fun slot queued => absurd queued (nobody slot),
    fun slot queued => absurd queued (nobody slot), fun _ => Nat.zero_le 4⟩

/-! ### Changes outside the rings -/

variable {k next : Kernel ncpu} {slot p : Slot} {label : Label ncpu}

theorem MlfqInv.keep (inv : k.MlfqInv) (rings : next.rings = k.rings)
    (faults : next.faults = k.faults)
    (state : ∀ slot, (next.proc slot).state = .running → (k.proc slot).state = .running)
    (curTime : ∀ slot, k.Queued slot → (next.proc slot).curTime = (k.proc slot).curTime)
    (queueNo : ∀ slot, (next.proc slot).queueNo = (k.proc slot).queueNo) :
    next.MlfqInv where
  rings := inv.rings.congr rings faults
  waiting := by
    intro slot queued running
    rw [queued_congr rings] at queued
    exact inv.waiting slot queued (state slot running)
  fresh := by
    intro slot queued
    rw [queued_congr rings] at queued
    rw [curTime slot queued]
    exact inv.fresh slot queued
  low := by
    intro slot
    rw [queueNo]
    exact inv.low slot

theorem MlfqInv.congr (inv : k.MlfqInv) (same : k.SameTable next) : next.MlfqInv := by
  refine inv.keep same.rings same.faults ?_ (fun slot _ => (same.proc slot).curTime)
    (fun slot => (same.proc slot).queueNo)
  intro slot running
  rwa [(same.proc slot).state] at running

theorem MlfqInv.wakes (inv : k.MlfqInv) (wakes : k.Wakes next) : next.MlfqInv := by
  refine inv.keep wakes.rings wakes.faults ?_ (fun slot _ => (wakes.proc slot).curTime)
    (fun slot => (wakes.proc slot).queueNo)
  intro slot running
  rcases (wakes.proc slot).state with same | ⟨_, ready⟩
  · rwa [same] at running
  · rw [ready] at running
    cases running

theorem MlfqInv.modify (inv : k.MlfqInv) (slot : Slot) (change : Proc → Proc)
    (state : (change (k.proc slot)).state = .running → (k.proc slot).state = .running)
    (curTime : (change (k.proc slot)).curTime = (k.proc slot).curTime)
    (queueNo : (change (k.proc slot)).queueNo = (k.proc slot).queueNo) :
    (k.modify slot change).MlfqInv := by
  refine inv.keep rfl rfl ?_ ?_ ?_
  · intro other running
    by_cases same : other = slot
    · subst other
      rw [modify_proc_self] at running
      exact state running
    · rwa [modify_proc_of_ne _ _ _ same] at running
  · intro other _
    by_cases same : other = slot
    · subst other
      rwa [modify_proc_self]
    · rw [modify_proc_of_ne _ _ _ same]
  · intro other
    by_cases same : other = slot
    · subst other
      rwa [modify_proc_self]
    · rw [modify_proc_of_ne _ _ _ same]

theorem MlfqInv.setState (inv : k.MlfqInv) (slot : Slot) {state : ProcState}
    (stopped : state ≠ .running) : (k.setState slot state).MlfqInv :=
  inv.modify slot _ (fun running => absurd running stopped) rfl rfl

/-! ### Insertions -/

theorem MlfqInv.push (inv : k.MlfqInv) {level : Nat} (bounded : level < levels)
    (stopped : (k.proc slot).state ≠ .running) : (k.push level slot).MlfqInv := by
  have accounts := push_accounts k level slot
  have queuedAfter : ∀ other, (k.push level slot).Queued other ↔
      k.Queued other ∨ other = slot := by
    intro other
    rw [Queued, push_queues inv.rings slot bounded, LevelQueues.queued_enqueue bounded]
    rfl
  refine ⟨inv.rings.push slot bounded, ?_, ?_, ?_⟩
  · intro other queued
    rw [(accounts.proc other).state]
    rcases (queuedAfter other).mp queued with before | same
    · exact inv.waiting other before
    · rwa [same]
  · intro other queued
    rw [push_round inv.rings bounded]
    split
    · split
      · exact inv.fresh slot (by assumption)
      · rfl
    · rename_i different
      exact inv.fresh other (((queuedAfter other).mp queued).resolve_right different)
  · intro other
    rw [push_round inv.rings bounded]
    split
    · split
      · exact inv.low slot
      · exact inv.low slot
    · exact inv.low other

theorem MlfqInv.claimSlot (inv : k.MlfqInv) (slot : Slot) :
    (k.claimSlot slot).MlfqInv := by
  have procOf : ∀ other, (k.claimSlot slot).proc other =
      if other = slot then k.freshProc (k.proc slot) else k.proc other := by
    intro other
    simp only [Kernel.claimSlot, update_apply]
  refine ⟨inv.rings.congr rfl rfl, ?_, ?_, ?_⟩
  · intro other queued
    rw [procOf]
    split
    · simp [freshProc]
    · exact inv.waiting other queued
  · intro other queued
    rw [procOf]
    split
    · rfl
    · exact inv.fresh other queued
  · intro other
    rw [procOf]
    split
    · exact Nat.zero_le 4
    · exact inv.low other

theorem MlfqInv.allocproc (inv : k.MlfqInv) :
    (k.allocproc .mlfq).2.MlfqInv := by
  unfold Kernel.allocproc
  split
  · exact inv
  · rename_i slot _
    have claimed := inv.claimSlot slot
    simp only [if_true]
    rw [pushFirstFree_eq claimed.rings]
    refine claimed.push (by decide) ?_
    simp [Kernel.claimSlot, freshProc]

theorem refill_queued (ok : k.RingsOk) (slot : Slot) :
    k.refill.Queued slot ↔
      k.Queued slot ∨ refillTarget (k.proc slot) = some 0 := by
  obtain ⟨_, queues, _⟩ := refill_spec ok
  constructor
  · intro queued
    obtain ⟨level, inside, member⟩ := queued
    rw [queues, List.mem_append, List.mem_filter] at member
    rcases member with before | ⟨_, sent⟩
    · exact Or.inl ⟨level, inside, before⟩
    · have target := (of_decide_eq_true sent).1
      refine Or.inr ?_
      unfold refillTarget at target ⊢
      split at target
      · cases target
      · rename_i eligible
        rw [if_neg eligible]
  · intro either
    by_cases before : k.Queued slot
    · obtain ⟨level, inside, member⟩ := before
      exact ⟨level, inside, by rw [queues]; exact List.mem_append_left _ member⟩
    · have sent := either.resolve_left before
      refine ⟨0, by decide, ?_⟩
      rw [queues, List.mem_append, List.mem_filter]
      exact Or.inr ⟨List.mem_finRange slot, decide_eq_true ⟨sent, before⟩⟩

theorem refill_complete (ok : k.RingsOk) (ready : (k.proc slot).state = .runnable)
    (named : (k.proc slot).pid ≠ 0) :
    k.refill.Queued slot := by
  refine (refill_queued ok slot).mpr (Or.inr ?_)
  unfold refillTarget
  rw [if_neg]
  simp [ready, named]

theorem MlfqInv.refill (inv : k.MlfqInv) :
    k.refill.MlfqInv := by
  obtain ⟨ok, _, proc⟩ := refill_spec inv.rings
  have accounts := refill_files k
  refine ⟨ok, ?_, ?_, ?_⟩
  · intro slot queued
    rw [(accounts.proc slot).state]
    rcases (refill_queued inv.rings slot).mp queued with before | sent
    · exact inv.waiting slot before
    · intro running
      simp [refillTarget, running] at sent
  · intro slot queued
    rw [proc]
    unfold refilledProc
    split
    · rename_i untouched
      rcases (refill_queued inv.rings slot).mp queued with before | sent
      · exact inv.fresh slot before
      · -- sent to ring 0 and yet untouched: it waited already
        have before : k.Queued slot := by
          by_contra absent
          simp [refillTarget] at sent
          simp [sent, absent] at untouched
        exact inv.fresh slot before
    · rfl
  · intro slot
    rw [proc]
    unfold refilledProc
    split
    · exact inv.low slot
    · exact inv.low slot

/-! ### Clock ticks -/

theorem chargedProc_queueNo_le (p : Proc) : (chargedProc p).queueNo ≤ p.queueNo := by
  unfold chargedProc
  split
  · simp [chargeRunning]
  · split
    · exact Nat.sub_le _ _
    · exact le_refl _

theorem chargedProc_state (p : Proc) : (chargedProc p).state = p.state := by
  unfold chargedProc
  split
  · simp [chargeRunning]
  · split
    · rfl
    · rfl

theorem chargedProc_curTime {p : Proc} (stopped : p.state ≠ .running) (idle : p.curTime = 0) :
    (chargedProc p).curTime = 0 := by
  unfold chargedProc
  rw [if_neg stopped]
  split
  · rfl
  · exact idle

theorem modifyTimes_queued (inv : k.MlfqInv) (slot : Slot) :
    (k.modifyTimes .mlfq).Queued slot ↔ k.Queued slot ∨ Ages (k.proc slot) := by
  obtain ⟨_, queues, _⟩ := modifyTimes_spec inv.rings inv.low
  constructor
  · intro queued
    obtain ⟨level, inside, member⟩ := queued
    rw [queues, List.mem_append, List.mem_filter] at member
    rcases member with before | ⟨_, sent⟩
    · exact Or.inl ⟨level, inside, before⟩
    · have target := (of_decide_eq_true sent).1
      unfold ageTarget at target
      split at target
      · exact Or.inr (by assumption)
      · cases target
  · intro either
    by_cases before : k.Queued slot
    · obtain ⟨level, inside, member⟩ := before
      exact ⟨level, inside, by rw [queues]; exact List.mem_append_left _ member⟩
    · have ages := either.resolve_left before
      have low := inv.low slot
      refine ⟨(k.proc slot).queueNo - 1, ?_, ?_⟩
      · change (k.proc slot).queueNo - 1 < 5
        omega
      · rw [queues, List.mem_append, List.mem_filter]
        refine Or.inr ⟨List.mem_finRange slot, decide_eq_true ⟨?_, before⟩⟩
        rw [ageTarget, if_pos ages]

theorem MlfqInv.modifyTimes (inv : k.MlfqInv) :
    (k.modifyTimes .mlfq).MlfqInv := by
  obtain ⟨ok, _, proc⟩ := modifyTimes_spec inv.rings inv.low
  refine ⟨ok, ?_, ?_, ?_⟩
  · intro slot queued
    rw [proc, chargedProc_state]
    rcases (modifyTimes_queued inv slot).mp queued with before | ages
    · exact inv.waiting slot before
    · exact ages.1
  · intro slot queued
    rw [proc]
    rcases (modifyTimes_queued inv slot).mp queued with before | ages
    · exact chargedProc_curTime (inv.waiting slot before) (inv.fresh slot before)
    · rw [chargedProc_of_ages ages]
  · intro slot
    rw [proc]
    exact (chargedProc_queueNo_le _).trans (inv.low slot)

/-! ### Scheduler passes -/

/-- The three ways a pass can go. -/
inductive MlfqPass (k : Kernel ncpu) (c : Fin ncpu) (next : Kernel ncpu) :
    Option Slot → Prop
  | back (q : Slot) (result : next = k.refill.release c) :
      MlfqPass k c next (some q)
  | idle (middle : Kernel ncpu) (accounts : k.Accounts middle)
      (ok : middle.RingsOk) (proc : middle.proc = k.proc)
      (queues : middle.queues = k.queues)
      (nobody : ∀ slot, k.Queued slot → (k.proc slot).state ≠ .runnable)
      (result : next = middle.refill.release c) : MlfqPass k c next none
  | dispatched (middle : Kernel ncpu) (p : Slot) (i : Nat) (before behind : List Slot)
      (accounts : k.Accounts middle) (ok : middle.RingsOk)
      (proc : middle.proc = k.proc) (bounded : i < levels)
      (higher : ∀ j, j < i → ∀ q ∈ k.queues j, (k.proc q).state ≠ .runnable)
      (holding : k.queues i = before ++ p :: behind)
      (idle : ∀ q ∈ before, (k.proc q).state ≠ .runnable)
      (ready : (k.proc p).state = .runnable)
      (queues : middle.queues = update k.queues i (behind ++ before))
      (result : next = (middle.modify p (fun q =>
        { q with waitTime := 0, numRun := q.numRun + 1 })).dispatch c p) :
      MlfqPass k c next none

/-- The levels in front of a given one in `0, 1, 2, 3, 4` are the smaller ones. -/
theorem range_earlier {bound i : Nat} {earlier later : List Nat}
    (position : List.range bound = earlier ++ i :: later) :
    i < bound ∧ ∀ j, j < i → j ∈ earlier := by
  have inside : i ∈ List.range bound := by
    rw [position]
    exact List.mem_append_right _ List.mem_cons_self
  rw [List.mem_range] at inside
  refine ⟨inside, ?_⟩
  intro j smaller
  have sorted : (earlier ++ i :: later).Pairwise (· < ·) := position ▸ List.pairwise_lt_range
  have member : j ∈ earlier ++ i :: later := by
    rw [← position, List.mem_range]
    omega
  rcases List.mem_append.mp member with found | found
  · exact found
  · -- a level at or behind `i` is not smaller
    have ordered := (List.pairwise_append.mp sorted).2.1
    rcases List.mem_cons.mp found with same | beyond
    · omega
    · have larger := (List.pairwise_cons.mp ordered).1 j beyond
      omega

theorem mlfqPass_spec (inv : k.MlfqInv) (c : Fin ncpu) (back : Option Slot) :
    k.MlfqPass c (k.mlfqPass c back) back := by
  cases back with
  | some q => exact .back q rfl
  | none =>
    obtain ⟨ok, turned, found⟩ := select_spec inv.rings
    have proc := turned.proc_eq inv.fresh
    have accounts := (selectRing_files (List.range levels) k).1.toAccounts
    change k.Accounts k.select.2 at accounts
    simp only [mlfqPass]
    generalize k.select = selected at *
    obtain ⟨choice, middle⟩ := selected
    cases found with
    | none idle queues =>
      refine .idle middle accounts ok proc queues ?_ rfl
      intro slot queued
      obtain ⟨level, inside, member⟩ := queued
      exact idle level (List.mem_range.mpr inside) slot member
    | some p i earlier later before behind position idleEarlier holding idle ready queues =>
      obtain ⟨bounded, smaller⟩ := range_earlier position
      exact .dispatched middle p i before behind accounts ok proc bounded
        (fun j less => idleEarlier j (smaller j less)) holding idle ready queues rfl

theorem pass_spec (inv : k.MlfqInv) {c : Fin ncpu} (stepped : k.step .mlfq (.pass c) = some next) :
    ∃ back, k.MlfqPass c next back := by
  cases step_inversion stepped with
  | pass _ back place => exact ⟨back, mlfqPass_spec inv c back⟩

/-- A queue from which one process was taken and the rest turned holds nobody new, and
not that process. -/
theorem taken_queued {middle : Kernel ncpu} (ok : k.RingsOk) {i : Nat}
    {before behind : List Slot} (bounded : i < levels)
    (holding : k.queues i = before ++ p :: behind)
    (queues : middle.queues = update k.queues i (behind ++ before)) (slot : Slot) :
    middle.Queued slot ↔ k.Queued slot ∧ slot ≠ p := by
  have nodup := ok.distinct.nodup i bounded
  rw [holding] at nodup
  have here : p ∈ k.queues i := by
    rw [holding]
    exact List.mem_append_right _ List.mem_cons_self
  have turned : ∀ q, q ∈ behind ++ before ↔ q ∈ k.queues i ∧ q ≠ p := by
    intro q
    rw [holding]
    have notBefore : p ∉ before := by
      intro member
      exact (List.nodup_append.mp nodup).2.2 p member p List.mem_cons_self rfl
    have notBehind : p ∉ behind :=
      (List.nodup_cons.mp (List.nodup_append.mp nodup).2.1).1
    simp only [List.mem_append, List.mem_cons]
    constructor
    · intro member
      refine ⟨by tauto, ?_⟩
      intro same
      subst q
      tauto
    · tauto
  constructor
  · intro queued
    obtain ⟨level, inside, member⟩ := queued
    rw [queues] at member
    by_cases same : level = i
    · subst level
      rw [update_self] at member
      obtain ⟨was, different⟩ := (turned slot).mp member
      exact ⟨⟨i, inside, was⟩, different⟩
    · rw [update_of_ne same] at member
      refine ⟨⟨level, inside, member⟩, ?_⟩
      intro equal
      subst slot
      exact same (ok.distinct.apart level i p inside bounded member here)
  · intro both
    obtain ⟨⟨level, inside, member⟩, different⟩ := both
    refine ⟨level, inside, ?_⟩
    rw [queues]
    by_cases same : level = i
    · subst level
      rw [update_self]
      exact (turned slot).mpr ⟨member, different⟩
    · rwa [update_of_ne same]

theorem MlfqInv.release (inv : k.MlfqInv) (c : Fin ncpu) :
    (k.release c).MlfqInv :=
  inv.congr (.of_proc_eq rfl rfl rfl rfl rfl)

theorem MlfqInv.mlfqPass (inv : k.MlfqInv) (c : Fin ncpu) (back : Option Slot) :
    (k.mlfqPass c back).MlfqInv := by
  have spec := mlfqPass_spec inv c back
  generalize k.mlfqPass c back = next at spec
  cases spec with
  | back q result =>
    rw [result]
    exact inv.refill.release c
  | idle middle accounts ok proc queues nobody result =>
    have sameQueued : ∀ slot, middle.Queued slot ↔ k.Queued slot := by
      intro slot
      rw [Queued, queues]
      rfl
    have kept : middle.MlfqInv := by
      refine ⟨ok, ?_, ?_, ?_⟩
      · intro slot queued
        rw [proc]
        exact inv.waiting slot ((sameQueued slot).mp queued)
      · intro slot queued
        rw [proc]
        exact inv.fresh slot ((sameQueued slot).mp queued)
      · rw [proc]
        exact inv.low
    rw [result]
    exact kept.refill.release c
  | dispatched middle p i before behind accounts ok proc bounded higher holding idle ready
      queues result =>
      have queuedOf := taken_queued inv.rings bounded holding queues
      have procOf : ∀ slot, slot ≠ p → next.proc slot = k.proc slot := by
        intro slot different
        rw [result]
        simp only [dispatch, update_of_ne different]
        rw [modify_proc_of_ne _ _ _ different, proc]
      have rings : next.rings = middle.rings := by rw [result]; rfl
      have faults : next.faults = middle.faults := by rw [result]; rfl
      refine ⟨ok.congr rings faults, ?_, ?_, ?_⟩
      · intro slot queued
        obtain ⟨was, different⟩ := (queuedOf slot).mp ((queued_congr rings slot).mp queued)
        rw [procOf slot different]
        exact inv.waiting slot was
      · intro slot queued
        obtain ⟨was, different⟩ := (queuedOf slot).mp ((queued_congr rings slot).mp queued)
        rw [procOf slot different]
        exact inv.fresh slot was
      · intro slot
        by_cases same : slot = p
        · subst slot
          rw [result]
          simp only [dispatch, update_self, modify_proc_self, proc]
          exact inv.low p
        · rw [procOf slot same]
          exact inv.low slot

/-! ### Yielding -/

/-- The record of a process that has just yielded. -/
def yieldedProc (p : Proc) : Proc :=
  { p with state := .runnable, resume := .recheck, curTime := 0, queueNo := p.queueNo + 1 }

theorem yield_mlfq_eq (k : Kernel ncpu) (c : Fin ncpu) (p : Slot) :
    k.yield .mlfq c p = ((k.modify p yieldedProc).push
      ((k.proc p).queueNo + 1) p).sched c p := by
  simp only [Kernel.yield, if_true, modify_proc_self]
  congr 2
  simp only [Kernel.modify, update_self, update_idem, yieldedProc]

/-- The caller of `yield` waits nowhere, so it goes to the rear of the next ring. -/
theorem yield_mlfq_spec (inv : k.MlfqInv) {c : Fin ncpu}
    (running : (k.proc p).state = .running) (last : (k.proc p).queueNo ≠ 4) :
    (k.yield .mlfq c p).MlfqInv ∧
      (k.yield .mlfq c p).proc = update k.proc p
        (yieldedProc (k.proc p)) ∧
      (k.yield .mlfq c p).queues = update k.queues
        ((k.proc p).queueNo + 1)
        (k.queues ((k.proc p).queueNo + 1) ++ [p]) := by
  have low := inv.low p
  have bounded : (k.proc p).queueNo + 1 < levels := by
    change (k.proc p).queueNo + 1 < 5
    omega
  have absent : ¬k.Queued p := fun queued => inv.waiting p queued running
  have ok : (k.modify p yieldedProc).RingsOk := inv.rings.congr rfl rfl
  have absentAfter : ¬(k.modify p yieldedProc).Queued p := absent
  have lowered : (k.modify p yieldedProc).MlfqInv := by
    refine ⟨ok, ?_, ?_, ?_⟩
    · intro slot queued
      have different : slot ≠ p := fun same => absent (same ▸ queued)
      rw [modify_proc_of_ne _ _ _ different]
      exact inv.waiting slot queued
    · intro slot queued
      have different : slot ≠ p := fun same => absent (same ▸ queued)
      rw [modify_proc_of_ne _ _ _ different]
      exact inv.fresh slot queued
    · intro slot
      rw [modify_proc]
      split
      · change (k.proc p).queueNo + 1 ≤ 4
        omega
      · exact inv.low slot
  rw [yield_mlfq_eq]
  refine ⟨?_, ?_, ?_⟩
  · refine (lowered.push bounded ?_).congr (.of_proc_eq rfl rfl rfl rfl rfl)
    rw [modify_proc_self]
    simp [yieldedProc]
  · funext slot
    change ((k.modify p yieldedProc).push ((k.proc p).queueNo + 1) p).proc slot = _
    rw [push_round ok bounded, if_neg absentAfter, modify_proc_self, update_apply]
    split
    · rfl
    · rename_i different
      rw [modify_proc_of_ne _ _ _ different]
  · change ((k.modify p yieldedProc).push ((k.proc p).queueNo + 1) p).queues = _
    rw [push_queues ok p bounded, LevelQueues.enqueue_of_absent absentAfter]
    rfl

/-! ### Every step -/

theorem push_queueNo (k : Kernel ncpu) (level : Nat) (slot other : Slot) :
    ((k.push level slot).proc other).queueNo = (k.proc other).queueNo := by
  rcases push_proc k level slot other with same | ⟨here, cleared⟩
  · rw [same]
  · rw [cleared, here]

theorem allocproc_queueNo {other : Slot} (found : k.firstUnused = some slot)
    (different : other ≠ slot) :
    ((k.allocproc .mlfq).2.proc other).queueNo = (k.proc other).queueNo := by
  simp only [allocproc, found, if_true]
  unfold pushFirstFree
  split
  · rw [push_queueNo]
    simp only [claimSlot, update_of_ne different]
  · simp only [claimSlot, update_of_ne different]

theorem mlfqPass_queueNo (inv : k.MlfqInv) (c : Fin ncpu) (back : Option Slot) (slot : Slot) :
    ((k.mlfqPass c back).proc slot).queueNo = (k.proc slot).queueNo := by
  have refilled : ∀ other : Kernel ncpu, other.RingsOk →
      (other.refill.proc slot).queueNo = (other.proc slot).queueNo := by
    intro other ok
    rw [(refill_spec ok).2.2]
    unfold refilledProc
    split
    · rfl
    · rfl
  have spec := mlfqPass_spec inv c back
  generalize k.mlfqPass c back = next at spec
  cases spec with
  | back q result =>
    rw [result, release_proc]
    exact refilled k inv.rings
  | idle middle accounts ok proc queues nobody result =>
    rw [result, release_proc, ← proc]
    exact refilled middle ok
  | dispatched middle p i before behind accounts ok proc bounded higher holding idle ready
      queues result =>
      rw [result, ← proc]
      by_cases same : slot = p
      · subst slot
        simp only [dispatch, update_self, modify_proc_self]
      · simp only [dispatch, update_of_ne same, modify_proc_of_ne _ _ _ same]

/-- The level of a RUNNING process changes only in its own `yield`. -/
theorem running_queueNo (inv : k.MlfqInv) (stepped : TableStep .mlfq k label next)
    (running : (k.proc p).state = .running)
    (stays : ∀ c, label = .yield c → (k.cpu c).pc ≠ .running p) :
    (next.proc p).queueNo = (k.proc p).queueNo := by
  cases stepped with
  | silent kind same | full kind none same | tick c labelled same => exact (same.proc p).queueNo
  | wake kind woken wakes same =>
    exact (same.proc p).queueNo.trans (wakes.proc p).queueNo
  | priority c q pid priority labelled place result =>
    rw [result]
    unfold setPriority
    split
    · rename_i slot _
      exact modify_keeps k slot (fun q => { q with priority := priority })
        Proc.queueNo rfl p
    · rfl
  | claim kind slot found same =>
    have different : p ≠ slot := by
      intro equal
      subst slot
      rw [firstUnused_state found] at running
      cases running
    exact (same.proc p).queueNo.trans (allocproc_queueNo found different)
  | forkFail kind np embryo same | ready kind np embryo same =>
    rw [(same.proc p).queueNo]
    exact modify_keeps k np _ Proc.queueNo rfl p
  | exit c q labelled place running' woken wakes same =>
    rw [(same.proc p).queueNo, ← (wakes.proc p).queueNo]
    exact modify_keeps woken q _ Proc.queueNo rfl p
  | reap kind child zombie same =>
    rw [(same.proc p).queueNo]
    exact modify_keeps k child _ Proc.queueNo rfl p
  | sleep kind c q place running' same =>
    rw [(same.proc p).queueNo]
    exact modify_keeps k q _ Proc.queueNo rfl p
  | yield c q labelled place running' stage result =>
    have different : p ≠ q := by
      intro equal
      subst q
      exact stays c labelled place
    rw [result, yield_mlfq_eq]
    change (((k.modify q yieldedProc).push _ q).proc p).queueNo = _
    rw [push_queueNo, modify_proc_of_ne _ _ _ different]
  | charge c labelled same =>
    rw [(same.proc p).queueNo, (modifyTimes_spec inv.rings inv.low).2.2, chargedProc,
      if_pos running]
    simp [chargeRunning]
  | pass c back labelled place result =>
    rw [result]
    exact mlfqPass_queueNo inv c back p

/-- A CPU about to yield runs a process above the last level. -/
def YieldsLow (k : Kernel ncpu) : Prop :=
  ∀ c p, (k.cpu c).pc = .running p → (k.cpu c).trap = .yielding →
    (k.proc p).queueNo ≠ 4

theorem YieldsLow.step (yields : k.YieldsLow) (inv : k.MlfqInv)
    (places : k.KernelInv) (traps : k.TrapInv)
    (stepped : k.step .mlfq label = some next) :
    next.YieldsLow := by
  intro c p place stage
  obtain ⟨before, origin⟩ := yielding_origin traps stepped place stage
  have level : (next.proc p).queueNo = (k.proc p).queueNo := by
    refine running_queueNo inv (tableStep places stepped) (places.onCpu c p before) ?_
    intro d same there
    rw [places.alone d c p there before] at same
    rcases origin with ⟨_, other⟩ | ⟨timer, labelled, _⟩
    · exact other same
    · rw [labelled] at same
      cases same
  rw [level]
  rcases origin with ⟨staged, _⟩ | ⟨timer, _, wants⟩
  · exact yields c p before staged
  · simp only [wantsYield, Bool.and_eq_true, decide_eq_true_eq] at wants
    exact wants.1

theorem MlfqInv.step (inv : k.MlfqInv) (yields : k.YieldsLow) (places : k.KernelInv)
    (stepped : k.step .mlfq label = some next) : next.MlfqInv := by
  cases tableStep places stepped with
  | silent kind same => exact inv.congr same
  | wake kind woken wakes same => exact (inv.wakes wakes).congr same
  | priority c p pid priority labelled place result =>
    rw [result]
    unfold setPriority
    split
    · rename_i slot _
      exact inv.modify slot (fun q => { q with priority := priority }) id rfl rfl
    · exact inv
  | full kind none same => exact inv.congr same
  | claim kind slot found same => exact inv.allocproc.congr same
  | forkFail kind np embryo same => exact (inv.setState np (by decide)).congr same
  | ready kind np embryo same => exact (inv.setState np (by decide)).congr same
  | exit c p labelled place running woken wakes same =>
    exact ((inv.wakes wakes).modify p _ (fun dead => by cases dead) rfl rfl).congr same
  | reap kind child zombie same =>
    exact (inv.modify child reapProc (fun dead => by cases dead) rfl rfl).congr same
  | sleep kind c p place running same => exact (inv.setState p (by decide)).congr same
  | yield c p labelled place running stage result =>
    rw [result]
    exact (yield_mlfq_spec inv running (yields c p place stage)).1
  | tick c labelled same =>
    have ticked : MlfqInv { k with ticks := k.ticks + 1 } :=
      inv.keep rfl rfl (fun _ running => running) (fun _ _ => rfl) (fun _ => rfl)
    exact ticked.congr same
  | charge c labelled same => exact inv.modifyTimes.congr same
  | pass c back labelled place result =>
    rw [result]
    exact inv.mlfqPass c back

theorem reachable_mlfqInv (reachable : (machine .mlfq ncpu).Reachable k) :
    k.MlfqInv ∧ k.YieldsLow := by
  apply reachable.invariant_above
  · refine ⟨boot_mlfqInv, ?_⟩
    intro c p _ stage
    cases stage
  · intro before label next reached inv stepped
    have places := reachable_kernelInv reached
    exact ⟨inv.1.step inv.2 places stepped,
      inv.2.step inv.1 places (reachable_trapInv reached) stepped⟩

/-! ### The queue invariant -/

/-- `front`, `rear` and `sz` of a ring: the empty ring, or two positions in the array
with the number of processes from one to the other. -/
def RingShape (ring : CircularQueue Slot) : Prop :=
  (ring.front = -1 ∧ ring.rear = -1 ∧ ring.size = 0) ∨
    (0 ≤ ring.front ∧ ring.front < NPROC ∧ 0 ≤ ring.rear ∧ ring.rear < NPROC ∧
      ring.size = (ring.rear - ring.front) % NPROC + 1)

/-- At the end of a pass every RUNNABLE process with an identifier waits. -/
theorem pass_end_queued (inv : k.MlfqInv) {c : Fin ncpu}
    (stepped : k.step .mlfq (.pass c) = some next) (ended : (next.cpu c).pc = .loopTop)
    (ready : (next.proc p).state = .runnable) (named : (next.proc p).pid ≠ 0) :
    next.Queued p := by
  have refilled : ∀ middle : Kernel ncpu, middle.RingsOk → next = middle.refill.release c →
      next.Queued p := by
    intro middle ok result
    have accounts := (refill_files middle).proc p
    rw [result, release_proc] at ready named
    rw [accounts.state] at ready
    rw [accounts.pid] at named
    have queued := refill_complete ok ready named
    rw [result]
    exact (queued_congr (release_rings _ c) p).mpr queued
  obtain ⟨back, spec⟩ := pass_spec inv stepped
  cases spec with
  | back q result => exact refilled k inv.rings result
  | idle middle accounts ok proc queues nobody result => exact refilled middle ok result
  | dispatched middle q i before behind accounts ok proc bounded higher holding idle
      readyQ queues result =>
      rw [result] at ended
      simp [dispatch] at ended

/-- In every state that a run reaches the rings are well formed, no process waits
twice, no RUNNING process waits, neither fault has happened, and every scheduler pass
that ends there leaves each RUNNABLE process in exactly one ring. -/
theorem mlfq_queue_invariant {k : Kernel ncpu}
    (reachable : (machine .mlfq ncpu).Reachable k) :
    (∀ i, i < levels → RingShape (k.rings i)) ∧
      (∀ i, i < levels → (k.rings i).size = (k.queues i).length ∧
        (k.queues i).Nodup) ∧
      (∀ i j p, i < levels → j < levels → p ∈ k.queues i → p ∈ k.queues j → i = j) ∧
      (∀ i p, i < levels → p ∈ k.queues i → (k.proc p).state ≠ .running) ∧
      (∀ c next, k.step .mlfq (.pass c) = some next → (next.cpu c).pc = .loopTop →
        ∀ p, (next.proc p).state = .runnable → (next.proc p).pid ≠ 0 →
          ∃! i, i < levels ∧ p ∈ next.queues i) ∧
      k.faults = [] := by
  obtain ⟨inv, yields⟩ := reachable_mlfqInv reachable
  refine ⟨?_, ?_, inv.rings.distinct.apart, ?_, ?_, inv.rings.clean⟩
  · intro i inside
    exact (inv.rings.stores i inside).bounds
  · intro i inside
    exact ⟨(inv.rings.stores i inside).size_eq, inv.rings.distinct.nodup i inside⟩
  · intro i p inside member
    exact inv.waiting p ⟨i, inside, member⟩
  · intro c next stepped ended p ready named
    obtain ⟨i, inside, member⟩ := pass_end_queued inv stepped ended ready named
    have after := (inv.step yields (reachable_kernelInv reachable) stepped).rings
    refine ⟨i, ⟨inside, member⟩, ?_⟩
    intro j there
    exact after.distinct.apart j i p there.1 inside there.2 member

set_option maxRecDepth 100000 in
/-- The first process forks and goes to sleep: the pass that ends after it leaves the
RUNNABLE child in exactly one ring. -/
theorem mlfq_queue_invariant_after_fork :
    ∃ k next, (machine .mlfq 1).exec (boot 1)
        (startUp ++ forkLabels ++ [.syscallEnter 0, .sleep 0 (.object 7)]) = some k ∧
      k.step .mlfq (.pass 0) = some next ∧ (next.cpu 0).pc = .loopTop ∧
      (next.proc 1).state = .runnable ∧ (∃! i, i < levels ∧ (1 : Slot) ∈ next.queues i) ∧
      next.faults = [] := by
  obtain ⟨k, ran, next, stepped, ended, ready, named⟩ :
      ∃ k, (machine .mlfq 1).exec (boot 1) (startUp ++ forkLabels ++ [.syscallEnter 0,
        .sleep 0 (.object 7)]) = some k ∧ ∃ next, k.step .mlfq (.pass 0) = some next ∧
        (next.cpu 0).pc = .loopTop ∧ (next.proc 1).state = .runnable ∧ (next.proc 1).pid ≠ 0 := by
    decide +kernel
  have reachable : (machine .mlfq 1).Reachable k := ⟨_, ran⟩
  have reached := reachable_step reachable stepped
  refine ⟨k, next, ran, stepped, ended, ready, ?_, ?_⟩
  · exact (mlfq_queue_invariant reachable).2.2.2.2.1 0 next stepped ended 1 ready named
  · exact (mlfq_queue_invariant reached).2.2.2.2.2

end Kernel

end Xv6
