/-
Rings and levels: when a process waits in the ring of its own level, and when the
scheduler runs the best level first.

`queueNo` and the rings are written in different places.  `push` does nothing for a
process that waits already, so ageing such a process leaves it in its old ring; the
refill puts every process into the first ring, whatever its level; and a slot that is
allocated while it still waits keeps its ring.  Nothing else separates the two.
-/

import Xv6.Mlfq.Invariant

namespace Xv6

open Function Library

namespace Kernel

variable {ncpu : Nat}

def LevelAgreement (k : Kernel ncpu) : Prop :=
  ∀ i p, i < levels → p ∈ k.queues i → (k.proc p).queueNo = i

/-- The pass on this CPU reaches the refill: it continues after a process, or its
search finds nothing. -/
def Refills (k : Kernel ncpu) (c : Fin ncpu) : Prop :=
  (∃ q, (k.cpu c).pc = .pass (some q)) ∨
    ((k.cpu c).pc = .pass none ∧
      ∀ p, k.Queued p → (k.proc p).state ≠ .runnable)

/-- What a step must respect to keep rings and levels together. -/
def LevelCondition (k : Kernel ncpu) (label : Label ncpu) : Prop :=
  match label.kind with
  | .charge => ∀ p, k.Queued p → ¬Ages (k.proc p)
  | .pass => k.Refills label.cpu → ∀ p, (k.proc p).state = .runnable →
      (k.proc p).pid ≠ 0 → ¬k.Queued p → (k.proc p).queueNo = 0
  | .claim => ∀ slot, k.firstUnused = some slot → k.Queued slot →
      slot ∈ k.queues 0
  | _ => True

/-! ### What each operation does to the agreement -/

variable {k next : Kernel ncpu} {c : Fin ncpu}

theorem levelAgreement_congr (queues : next.queues = k.queues)
    (queueNo : ∀ p, (next.proc p).queueNo = (k.proc p).queueNo) :
    next.LevelAgreement ↔ k.LevelAgreement := by
  unfold LevelAgreement
  simp only [queues, queueNo]

theorem levelAgreement_sameTable (same : k.SameTable next) :
    next.LevelAgreement ↔ k.LevelAgreement :=
  levelAgreement_congr (queues_congr same.rings) (fun p => (same.proc p).queueNo)

theorem levelAgreement_modify (k : Kernel ncpu) (slot : Slot) (change : Proc → Proc)
    (queueNo : (change (k.proc slot)).queueNo = (k.proc slot).queueNo) :
    (k.modify slot change).LevelAgreement ↔ k.LevelAgreement :=
  levelAgreement_congr rfl (modify_keeps k slot change Proc.queueNo queueNo)

theorem chargedProc_queueNo {p : Proc} (unaged : ¬Ages p) :
    (chargedProc p).queueNo = p.queueNo := by
  unfold chargedProc
  by_cases running : p.state = .running
  · rw [if_pos running]
    simp [chargeRunning]
  · rw [if_neg running, if_neg unaged]

theorem levelAgreement_modifyTimes (inv : k.MlfqInv) (agree : k.LevelAgreement) :
    (k.modifyTimes .mlfq).LevelAgreement ↔
      ∀ p, k.Queued p → ¬Ages (k.proc p) := by
  obtain ⟨_, queues, proc⟩ := modifyTimes_spec inv.rings inv.low
  constructor
  · intro after p queued ages
    obtain ⟨i, inside, member⟩ := queued
    have stays : p ∈ (k.modifyTimes .mlfq).queues i := by
      rw [queues]
      exact List.mem_append_left _ member
    have before := agree i p inside member
    have moved := after i p inside stays
    rw [proc, chargedProc_of_ages ages] at moved
    change (k.proc p).queueNo - 1 = i at moved
    have positive := ages.2.1
    omega
  · intro still i p inside member
    rw [queues, List.mem_append, List.mem_filter] at member
    rw [proc]
    rcases member with before | ⟨_, sent⟩
    · have unaged := still p ⟨i, inside, before⟩
      rw [chargedProc_queueNo unaged]
      exact agree i p inside before
    · have target := (of_decide_eq_true sent).1
      unfold ageTarget at target
      split at target
      · rename_i ages
        rw [chargedProc_of_ages ages]
        exact Option.some.inj target
      · cases target

theorem levelAgreement_refill (ok : k.RingsOk) (agree : k.LevelAgreement) :
    k.refill.LevelAgreement ↔ ∀ p, (k.proc p).state = .runnable →
      (k.proc p).pid ≠ 0 → ¬k.Queued p → (k.proc p).queueNo = 0 := by
  obtain ⟨_, queues, proc⟩ := refill_spec ok
  have level : ∀ p, (k.refill.proc p).queueNo = (k.proc p).queueNo := by
    intro p
    rw [proc]
    unfold refilledProc
    split
    · rfl
    · rfl
  constructor
  · intro after p ready named absent
    rw [← level]
    apply after 0 p (by decide)
    rw [queues, List.mem_append, List.mem_filter]
    refine Or.inr ⟨List.mem_finRange p, decide_eq_true ⟨?_, absent⟩⟩
    unfold refillTarget
    rw [if_neg]
    simp [ready, named]
  · intro first i p inside member
    rw [queues, List.mem_append, List.mem_filter] at member
    rw [level]
    rcases member with before | ⟨_, sent⟩
    · exact agree i p inside before
    · obtain ⟨target, absent⟩ := of_decide_eq_true sent
      unfold refillTarget at target
      split at target
      · cases target
      · rename_i eligible
        rw [not_or, not_not] at eligible
        rw [first p eligible.2 eligible.1 absent]
        exact Option.some.inj target

theorem levelAgreement_allocproc (inv : k.MlfqInv) (agree : k.LevelAgreement)
    {slot : Slot} (found : k.firstUnused = some slot) :
    (k.allocproc .mlfq).2.LevelAgreement ↔
      (k.Queued slot → slot ∈ k.queues 0) := by
  obtain ⟨result, queues⟩ := allocproc_mlfq inv.rings found
  have level : ∀ p, (((k.claimSlot slot).push 0 slot).proc p).queueNo =
      if p = slot then 0 else (k.proc p).queueNo := by
    intro p
    rw [push_queueNo]
    simp only [claimSlot, update_apply]
    split
    · rfl
    · rfl
  rw [result]
  constructor
  · intro after queued
    obtain ⟨i, inside, member⟩ := queued
    have stays : slot ∈ ((k.claimSlot slot).push 0 slot).queues i := by
      rw [queues, LevelQueues.mem_enqueue]
      exact Or.inl member
    have moved := after i slot inside stays
    rw [level, if_pos rfl] at moved
    rwa [← moved] at member
  · intro first i p inside member
    rw [queues, LevelQueues.mem_enqueue] at member
    rw [level]
    rcases member with before | ⟨_, here, same⟩
    · split
      · rename_i same
        subst p
        exact inv.rings.distinct.apart 0 i slot (by decide) inside
          (first ⟨i, inside, before⟩) before
      · exact agree i p inside before
    · rw [if_pos same, here]

theorem levelAgreement_pass (inv : k.MlfqInv) (agree : k.LevelAgreement)
    {back : Option Slot} (place : (k.cpu c).pc = .pass back) :
    (k.mlfqPass c back).LevelAgreement ↔
      (k.Refills c → ∀ p, (k.proc p).state = .runnable →
        (k.proc p).pid ≠ 0 → ¬k.Queued p → (k.proc p).queueNo = 0) := by
  have released : ∀ other : Kernel ncpu,
      (other.release c).LevelAgreement ↔ other.LevelAgreement :=
    fun other => levelAgreement_congr rfl (fun _ => rfl)
  have spec := mlfqPass_spec inv c back
  have levelOf := mlfqPass_queueNo inv c back
  generalize k.mlfqPass c back = next at spec levelOf
  cases spec with
  | back q result =>
    have refills : k.Refills c := Or.inl ⟨q, place⟩
    rw [result, released, levelAgreement_refill inv.rings agree]
    exact ⟨fun holds _ => holds, fun holds => holds refills⟩
  | idle middle accounts ok proc queues nobody result =>
    have refills : k.Refills c := Or.inr ⟨place, nobody⟩
    have sameQueued : ∀ p, middle.Queued p ↔ k.Queued p := by
      intro p
      rw [Queued, queues]
      rfl
    have agreeMiddle : middle.LevelAgreement :=
      (levelAgreement_congr queues (fun p => by rw [proc])).mpr agree
    rw [result, released, levelAgreement_refill ok agreeMiddle, proc]
    simp only [sameQueued]
    exact ⟨fun holds _ => holds, fun holds => holds refills⟩
  | dispatched middle p i before behind accounts ok proc bounded higher holding idle ready
      queues result =>
      have misses : ¬k.Refills c := by
        intro refills
        rcases refills with ⟨q, other⟩ | ⟨_, nobody⟩
        · rw [place] at other
          cases other
        · refine nobody p ⟨i, bounded, ?_⟩ ready
          rw [holding]
          exact List.mem_append_right _ List.mem_cons_self
      refine ⟨fun _ refills => absurd refills misses, fun _ => ?_⟩
      intro j q inside member
      have sameQueues : next.queues = middle.queues := by
        rw [result]
        rfl
      rw [sameQueues, queues] at member
      rw [levelOf]
      by_cases same : j = i
      · subst j
        rw [update_self] at member
        apply agree i q inside
        rw [holding]
        simp only [List.mem_append, List.mem_cons] at member ⊢
        tauto
      · rw [update_of_ne same] at member
        exact agree j q inside member

theorem levelAgreement_yield (inv : k.MlfqInv) (agree : k.LevelAgreement) {p : Slot}
    (running : (k.proc p).state = .running) (last : (k.proc p).queueNo ≠ 4) :
    (k.yield .mlfq c p).LevelAgreement := by
  obtain ⟨_, proc, queues⟩ := yield_mlfq_spec (c := c) inv running last
  have absent : ¬k.Queued p := fun queued => inv.waiting p queued running
  intro i q inside member
  rw [queues] at member
  rw [proc]
  by_cases same : q = p
  · subst q
    rw [update_self]
    by_cases here : i = (k.proc p).queueNo + 1
    · exact here.symm
    · rw [update_of_ne here] at member
      exact absurd ⟨i, inside, member⟩ absent
  · rw [update_of_ne same]
    by_cases here : i = (k.proc p).queueNo + 1
    · subst i
      rw [update_self, List.mem_append, List.mem_singleton] at member
      exact agree _ q inside (member.resolve_right same)
    · rw [update_of_ne here] at member
      exact agree i q inside member

/-- From a state that agrees, a step reaches one that agrees exactly when it respects
the condition. -/
theorem levelAgreement_step {label : Label ncpu} (reachable : (machine .mlfq ncpu).Reachable k)
    (agree : k.LevelAgreement) (stepped : k.step .mlfq label = some next) :
    next.LevelAgreement ↔ k.LevelCondition label := by
  obtain ⟨inv, yields⟩ := reachable_mlfqInv reachable
  cases tableStep (reachable_kernelInv reachable) stepped with
  | silent kind same =>
    rw [levelAgreement_sameTable same]
    rcases kind with kind | kind <;> simp [LevelCondition, kind, agree]
  | wake kind woken wakes same =>
    rw [levelAgreement_sameTable same, levelAgreement_congr (queues_congr wakes.rings)
      (fun p => (wakes.proc p).queueNo)]
    simp [LevelCondition, kind, agree]
  | priority c p pid priority labelled place result =>
    subst labelled
    rw [result]
    have kept : (k.setPriority pid priority).2.LevelAgreement := by
      unfold setPriority
      split
      · rename_i slot _
        exact (levelAgreement_modify k slot
          (fun q => { q with priority := priority }) rfl).mpr agree
      · exact agree
    simp [LevelCondition, Label.kind, kept]
  | full kind none same =>
    rw [levelAgreement_sameTable same]
    simp [LevelCondition, kind, agree, none]
  | claim kind slot found same =>
    rw [levelAgreement_sameTable same, levelAgreement_allocproc inv agree found]
    simp [LevelCondition, kind, found]
  | forkFail kind np embryo same | ready kind np embryo same =>
    rw [levelAgreement_sameTable same, setState, levelAgreement_modify k np _ rfl]
    simp [LevelCondition, kind, agree]
  | exit c p labelled place running woken wakes same =>
    subst labelled
    rw [levelAgreement_sameTable same, levelAgreement_modify woken p _ rfl,
      levelAgreement_congr (queues_congr wakes.rings) (fun p => (wakes.proc p).queueNo)]
    simp [LevelCondition, Label.kind, agree]
  | reap kind child zombie same =>
    rw [levelAgreement_sameTable same, levelAgreement_modify k child _ rfl]
    simp [LevelCondition, kind, agree]
  | sleep kind c p place running same =>
    rw [levelAgreement_sameTable same, setState, levelAgreement_modify k p _ rfl]
    rcases kind with kind | kind <;> simp [LevelCondition, kind, agree]
  | yield c p labelled place running stage result =>
    subst labelled
    have kept := levelAgreement_yield (c := c) inv agree running (yields c p place stage)
    rw [result]
    simp [LevelCondition, Label.kind, kept]
  | tick c labelled same =>
    subst labelled
    rw [levelAgreement_sameTable same]
    have kept : LevelAgreement { k with ticks := k.ticks + 1 } := agree
    simp [LevelCondition, Label.kind, kept]
  | charge c labelled same =>
    subst labelled
    rw [levelAgreement_sameTable same]
    exact levelAgreement_modifyTimes inv agree
  | pass c back labelled place result =>
    subst labelled
    rw [result]
    exact levelAgreement_pass inv agree place

theorem boot_levelAgreement : (boot ncpu).LevelAgreement := by
  intro i p _ member
  rw [boot_queues] at member
  cases member

/-! ### Agreement over whole runs -/

/-- A run keeps every process in the ring of its level exactly as long as its steps
respect the condition.  Where they do, `getpinfo` names the ring in which the process
waits. -/
theorem mlfq_level_agreement (labels : List (Label ncpu)) :
    ((machine .mlfq ncpu).Always LevelAgreement (boot ncpu) labels ↔
        (machine .mlfq ncpu).Meets LevelCondition (boot ncpu) labels) ∧
      ∀ k : Kernel ncpu, k.LevelAgreement → ∀ pid stat p i,
        k.withPid pid = some p → k.getpinfo pid = some stat →
          i < levels → p ∈ k.queues i → stat.currentQueue = i := by
  constructor
  · apply Machine.always_iff_meets
    · intro state label next reachable stepped
      exact Machine.Reachable.step reachable stepped
    · intro state label next reachable agree stepped
      exact levelAgreement_step reachable agree stepped
    · exact Machine.Reachable.start (machine .mlfq ncpu)
    · exact boot_levelAgreement
  · intro k agree pid stat p i found info inside member
    simp only [getpinfo, found, Option.map_some, Option.some.injEq] at info
    rw [← info]
    exact agree i p inside member

/-- Two clock ticks with the process running on. -/
def twoTicks : List (Label 1) :=
  [.timerTick 0, .timerCharge 0, .timerWakeup 0, .trapTail 0, .trapReturn 0,
    .timerTick 0, .timerCharge 0, .timerWakeup 0, .trapTail 0]

/-- The first process is lowered to level 1, sleeps, and is woken while the CPU idles:
the refill puts it into ring 0. -/
def loweredThenWoken : List (Label 1) :=
  startUp ++ twoTicks ++ [.yield 0, .pass 0, .enter 0, .pass 0, .trapReturn 0,
    .syscallEnter 0, .sleep 0 (.object 7), .pass 0, .deviceIntr 0, .deviceWakeup 0 7,
    .deviceDone 0, .trapTail 0, .enter 0, .pass 0]

set_option maxRecDepth 100000 in
theorem level_agreement_fails_after_wakeup :
    ¬∀ k : Kernel 1, (machine .mlfq 1).Reachable k →
      ∀ i p, i < levels → p ∈ k.queues i → (k.proc p).queueNo = i := by
  obtain ⟨k, ran, member, level⟩ :
      ∃ k, (machine .mlfq 1).exec (boot 1) loweredThenWoken = some k ∧
        (0 : Slot) ∈ k.queues 0 ∧ (k.proc 0).queueNo = 1 := by
    decide +kernel
  intro claimed
  have agreed := claimed k ⟨_, ran⟩ 0 0 (by decide) member
  rw [level] at agreed
  cases agreed

/-! ### Strict priority -/

/-- The record of a process that a pass has just switched to. -/
def dispatchedProc (p : Proc) : Proc :=
  { p with waitTime := 0, numRun := p.numRun + 1, state := .running, chan := .null }

/-- The processes in the rings, in the order in which a pass looks at them. -/
def waiting (k : Kernel ncpu) : List Slot :=
  (List.range levels).flatMap k.queues

theorem mem_waiting {p : Slot} : p ∈ k.waiting ↔ k.Queued p := by
  simp only [waiting, List.mem_flatMap, List.mem_range, Queued, LevelQueues.Queued]

/-- A dispatched process was the first RUNNABLE one in the rings, and the pass changes no
other process. -/
theorem dispatch_first_waiting (inv : k.MlfqInv) {p : Slot}
    (stepped : k.step .mlfq (.pass c) = some next) (running : (next.cpu c).pc = .running p) :
    ∃ ahead behind, k.waiting = ahead ++ p :: behind ∧ (k.proc p).state = .runnable ∧
      (∀ q ∈ ahead, (k.proc q).state ≠ .runnable) ∧
      next.proc = update k.proc p (dispatchedProc (k.proc p)) ∧
      (next.cpu c).trap = (k.proc p).resume := by
  obtain ⟨back, spec⟩ := pass_spec inv stepped
  cases spec with
  | back q result =>
    rw [result] at running
    simp [release] at running
  | idle middle accounts ok proc queues nobody result =>
    rw [result] at running
    simp [release] at running
  | dispatched middle q i before behind accounts ok proc bounded higher holding idle
      ready queues result =>
      have same : q = p := by
        rw [result] at running
        simpa [dispatch] using running
      subst q
      obtain ⟨earlier, later, position⟩ := List.append_of_mem (List.mem_range.mpr bounded)
      have sorted : (earlier ++ i :: later).Pairwise (· < ·) := position ▸ List.pairwise_lt_range
      refine ⟨earlier.flatMap k.queues ++ before, behind ++ later.flatMap k.queues,
        ?_, ready, ?_, ?_, ?_⟩
      · simp [waiting, position, holding]
      · intro q member
        rcases List.mem_append.mp member with above | here
        · obtain ⟨j, inside, there⟩ := List.mem_flatMap.mp above
          have less := (List.pairwise_append.mp sorted).2.2 j inside i List.mem_cons_self
          exact higher j less q there
        · exact idle q here
      · rw [result]
        simp only [dispatch, modify, update_self, update_idem, proc,
          dispatchedProc]
      · rw [result]
        simp only [dispatch, update_self, modify_proc_self, proc]

/-- A RUNNABLE process of the best level waits in a ring, and no RUNNABLE process of another
level stands in front of it. -/
def BestFirst (k : Kernel ncpu) : Prop :=
  ∃ ahead best behind, k.waiting = ahead ++ best :: behind ∧
    (k.proc best).state = .runnable ∧
    (∀ q, (k.proc q).state = .runnable →
      (k.proc best).queueNo ≤ (k.proc q).queueNo) ∧
    ∀ q ∈ ahead, (k.proc q).state = .runnable →
      (k.proc q).queueNo = (k.proc best).queueNo

/-- A pass respects priorities exactly when the best level stands first in the rings. -/
theorem mlfq_strict_priority {k next : Kernel ncpu} {c : Fin ncpu} {p : Slot}
    (reachable : (machine .mlfq ncpu).Reachable k)
    (stepped : k.step .mlfq (.pass c) = some next)
    (running : (next.cpu c).pc = .running p) :
    (∀ q, (next.proc q).state = .runnable → (next.proc p).queueNo ≤ (next.proc q).queueNo) ↔
      k.BestFirst := by
  obtain ⟨inv, _⟩ := reachable_mlfqInv reachable
  obtain ⟨ahead, behind, position, ready, idle, procOf, _⟩ :=
    dispatch_first_waiting inv stepped running
  have others : ∀ q, q ≠ p → next.proc q = k.proc q := by
    intro q different
    rw [procOf, update_of_ne different]
  have level : (next.proc p).queueNo = (k.proc p).queueNo := by
    rw [procOf, update_self]
    rfl
  have nowRunning : (next.proc p).state = .running := by
    rw [procOf, update_self]
    rfl
  rw [level]
  constructor
  · intro best
    refine ⟨ahead, p, behind, position, ready, ?_, fun q member waits =>
      absurd waits (idle q member)⟩
    intro q waits
    by_cases same : q = p
    · rw [same]
    · rw [← others q same] at waits ⊢
      exact best q waits
  · rintro ⟨front, best, rest, placed, waits, least, level⟩ q waitsQ
    have different : q ≠ p := by
      rintro rfl
      cases nowRunning.symm.trans waitsQ
    rw [others q different] at waitsQ ⊢
    -- `p` is the first RUNNABLE process, so `best` is `p` or stands behind it
    have equal : (k.proc p).queueNo = (k.proc best).queueNo := by
      rcases List.append_eq_append_iff.mp (position.symm.trans placed) with
        ⟨between, longer, cut⟩ | ⟨between, longer, cut⟩
      · cases between with
        | nil => rw [(List.cons.inj cut).1]
        | cons first more =>
          obtain ⟨rfl, _⟩ := List.cons.inj cut
          exact level p (by simp [longer]) ready
      · cases between with
        | nil => rw [(List.cons.inj cut).1]
        | cons first more =>
          obtain ⟨rfl, _⟩ := List.cons.inj cut
          exact absurd waits (idle best (by simp [longer]))
    rw [equal]
    exact least q waitsQ

/-- The first process forks, both sleep, and the parent is woken, lowered to level 1
and put into ring 1. -/
def parentLowered : List (Label 1) :=
  startUp ++ forkLabels ++ [.syscallEnter 0, .sleep 0 (.object 7), .pass 0, .enter 0, .pass 0,
    .forkretReturn 0, .syscallEnter 0, .sleep 0 (.object 9), .pass 0, .deviceIntr 0,
    .deviceWakeup 0 7, .deviceDone 0, .trapTail 0, .enter 0, .pass 0, .enter 0, .pass 0,
    .syscallReturn 0] ++ twoTicks ++ [.yield 0, .pass 0]

/-- The child is woken at level 0 while the CPU idles, and the next pass begins. -/
def childWoken : List (Label 1) :=
  parentLowered ++ [.deviceIntr 0, .deviceWakeup 0 9, .deviceDone 0, .trapTail 0, .enter 0]

set_option maxRecDepth 100000 in
theorem strict_priority_fails_after_wakeup :
    ¬∀ (k next : Kernel 1) (c : Fin 1) (p : Slot), (machine .mlfq 1).Reachable k →
      k.step .mlfq (.pass c) = some next → (next.cpu c).pc = .running p →
      ∀ q, (next.proc q).state = .runnable →
        (next.proc p).queueNo ≤ (next.proc q).queueNo := by
  obtain ⟨k, ran, next, stepped, running, ready, lower, upper⟩ :
      ∃ k, (machine .mlfq 1).exec (boot 1) childWoken = some k ∧
        ∃ next, k.step .mlfq (.pass 0) = some next ∧ (next.cpu 0).pc = .running 0 ∧
        (next.proc 1).state = .runnable ∧ (next.proc 0).queueNo = 1 ∧ (next.proc 1).queueNo =
        0 := by
    decide +kernel
  intro claimed
  have ordered := claimed k next 0 0 ⟨_, ran⟩ stepped running 1 ready
  rw [lower, upper] at ordered
  omega

set_option maxRecDepth 100000 in
/-- With the child still asleep the same pass respects priorities. -/
theorem mlfq_strict_priority_child_asleep :
    ∃ k next, (machine .mlfq 1).exec (boot 1) (parentLowered ++ [.enter 0]) = some k ∧
      k.step .mlfq (.pass 0) = some next ∧ (next.cpu 0).pc = .running 0 ∧
      (next.proc 0).queueNo = 1 ∧
      ∀ q, (next.proc q).state = .runnable →
        (next.proc 0).queueNo ≤ (next.proc q).queueNo := by
  obtain ⟨k, ran, waiting, ready, only, next, stepped, running, level⟩ :
      ∃ k, (machine .mlfq 1).exec (boot 1) (parentLowered ++ [.enter 0]) = some k ∧
        k.waiting = [0] ∧ (k.proc 0).state = .runnable ∧
        (∀ q, (k.proc q).state = .runnable → q = 0) ∧
        ∃ next, k.step .mlfq (.pass 0) = some next ∧ (next.cpu 0).pc = .running 0 ∧
        (next.proc 0).queueNo = 1 := by
    decide +kernel
  refine ⟨k, next, ran, stepped, running, level, ?_⟩
  refine (mlfq_strict_priority ⟨_, ran⟩ stepped running).mpr
    ⟨[], 0, [], waiting, ready, fun q waits => by rw [only q waits], nofun⟩

end Kernel

end Xv6
