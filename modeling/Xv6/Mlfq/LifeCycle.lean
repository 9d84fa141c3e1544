/-
Dead processes in the rings.

Nothing takes a slot out of a ring when its process ends.  A process that ends was
RUNNING and hence in no ring, but a slot that `allocproc` has inserted stays there when
`fork` gives it back, and `modify_times` ages UNUSED and ZOMBIE slots like any other.
-/

import Xv6.Mlfq.Levels

namespace Xv6

open Function Library

namespace Kernel

variable {ncpu : Nat}

/-- No UNUSED and no ZOMBIE slot is in a ring. -/
def RingsAlive (k : Kernel ncpu) : Prop :=
  ∀ i p, i < levels → p ∈ k.queues i →
    (k.proc p).state ≠ .unused ∧ (k.proc p).state ≠ .zombie

variable {k next : Kernel ncpu}

theorem ringsAlive_iff :
    k.RingsAlive ↔ ∀ p, k.Queued p →
      (k.proc p).state ≠ .unused ∧ (k.proc p).state ≠ .zombie := by
  constructor
  · intro alive p queued
    obtain ⟨i, inside, member⟩ := queued
    exact alive i p inside member
  · intro alive i p inside member
    exact alive p ⟨i, inside, member⟩

/-- What a step must respect to keep the rings free of dead slots. -/
def LifeCondition (k : Kernel ncpu) (label : Label ncpu) : Prop :=
  match label.kind with
  | .forkFail => False
  | .charge => ∀ p, (k.proc p).state = .unused ∨ (k.proc p).state = .zombie →
      ¬Ages (k.proc p)
  | _ => True

/-! ### Who waits after an operation -/

theorem allocproc_queued (inv : k.MlfqInv) {slot : Slot}
    (found : k.firstUnused = some slot) (p : Slot) :
    (k.allocproc .mlfq).2.Queued p ↔ k.Queued p ∨ p = slot := by
  obtain ⟨result, queues⟩ := allocproc_mlfq inv.rings found
  rw [result, Queued, queues, LevelQueues.queued_enqueue (by decide)]
  rfl

theorem allocproc_state {policy : Policy} {slot : Slot} (found : k.firstUnused = some slot)
    (p : Slot) :
    ((k.allocproc policy).2.proc p).state =
      if p = slot then .embryo else (k.proc p).state := by
  rcases allocproc_cases policy k with ⟨none, _⟩ | ⟨new, after, first, result, files⟩
  · rw [none] at found
    cases found
  · rw [first] at found
    cases found
    rw [result, (files.proc p).state]
    simp only [claimSlot, update_apply]
    split
    · rfl
    · rfl

theorem mlfqPass_queued (inv : k.MlfqInv) (c : Fin ncpu) (back : Option Slot) (p : Slot) :
    ((k.mlfqPass c back).Queued p → k.Queued p ∨ (k.proc p).state = .runnable) ∧
      (k.Queued p → (k.proc p).state ≠ .runnable →
        (k.mlfqPass c back).Queued p) := by
  have refilled : ∀ middle : Kernel ncpu, middle.RingsOk → middle.proc = k.proc →
      (∀ slot, middle.Queued slot ↔ k.Queued slot) →
      ((middle.refill.release c).Queued p →
          k.Queued p ∨ (k.proc p).state = .runnable) ∧
        (k.Queued p → (k.proc p).state ≠ .runnable →
          (middle.refill.release c).Queued p) := by
    intro middle ok proc same
    have after : (middle.refill.release c).Queued p ↔
        k.Queued p ∨ refillTarget (k.proc p) = some 0 := by
      rw [queued_congr (release_rings middle.refill c), refill_queued ok, same, proc]
    rw [after]
    constructor
    · intro either
      rcases either with before | sent
      · exact Or.inl before
      · refine Or.inr ?_
        by_contra other
        simp [refillTarget, other] at sent
    · intro before _
      exact Or.inl before
  have spec := mlfqPass_spec inv c back
  generalize k.mlfqPass c back = next at spec
  cases spec with
  | back q result =>
    rw [result]
    exact refilled k inv.rings rfl (fun _ => Iff.rfl)
  | idle middle accounts ok proc queues nobody result =>
    rw [result]
    refine refilled middle ok proc ?_
    intro slot
    rw [Queued, queues]
    rfl
  | dispatched middle q i before behind accounts ok proc bounded higher holding idle ready
      queues result =>
      have rings : next.rings = middle.rings := by
        rw [result]
        rfl
      rw [queued_congr rings, taken_queued inv.rings bounded holding queues]
      constructor
      · intro both
        exact Or.inl both.1
      · intro waits stopped
        refine ⟨waits, ?_⟩
        intro same
        subst p
        exact stopped ready

theorem yield_queued (inv : k.MlfqInv) {c : Fin ncpu} {p : Slot}
    (running : (k.proc p).state = .running) (last : (k.proc p).queueNo ≠ 4) (q : Slot) :
    (k.yield .mlfq c p).Queued q ↔ k.Queued q ∨ q = p := by
  have low := inv.low p
  have bounded : (k.proc p).queueNo + 1 < levels := by
    change (k.proc p).queueNo + 1 < 5
    omega
  have absent : ¬k.Queued p := fun queued => inv.waiting p queued running
  rw [Queued, (yield_mlfq_spec (c := c) inv running last).2.2,
    ← LevelQueues.enqueue_of_absent absent, LevelQueues.queued_enqueue bounded]
  rfl

/-! ### A slot that is being set up waits -/

def EmbryosWait (k : Kernel ncpu) : Prop :=
  ∀ p, (k.proc p).state = .embryo → k.Queued p

theorem EmbryosWait.keep (wait : k.EmbryosWait) (rings : next.rings = k.rings)
    (state : ∀ p, (next.proc p).state = .embryo → (k.proc p).state = .embryo) :
    next.EmbryosWait := by
  intro p embryo
  rw [queued_congr rings]
  exact wait p (state p embryo)

theorem EmbryosWait.congr (wait : k.EmbryosWait) (same : k.SameTable next) :
    next.EmbryosWait := by
  refine wait.keep same.rings ?_
  intro p embryo
  rwa [(same.proc p).state] at embryo

theorem EmbryosWait.wakes (wait : k.EmbryosWait) (wakes : k.Wakes next) :
    next.EmbryosWait := by
  refine wait.keep wakes.rings ?_
  intro p embryo
  rcases (wakes.proc p).state with same | ⟨_, ready⟩
  · rwa [same] at embryo
  · rw [ready] at embryo
    cases embryo

theorem EmbryosWait.modify (wait : k.EmbryosWait) (slot : Slot) (change : Proc → Proc)
    (state : (change (k.proc slot)).state = .embryo → (k.proc slot).state = .embryo) :
    (k.modify slot change).EmbryosWait := by
  refine wait.keep rfl ?_
  intro p embryo
  by_cases same : p = slot
  · subst p
    rw [modify_proc_self] at embryo
    exact state embryo
  · rwa [modify_proc_of_ne _ _ _ same] at embryo

theorem EmbryosWait.step {label : Label ncpu} (wait : k.EmbryosWait)
    (reachable : (machine .mlfq ncpu).Reachable k)
    (stepped : k.step .mlfq label = some next) : next.EmbryosWait := by
  obtain ⟨inv, yields⟩ := reachable_mlfqInv reachable
  cases tableStep (reachable_kernelInv reachable) stepped with
  | silent kind same => exact wait.congr same
  | wake kind woken wakes same => exact (wait.wakes wakes).congr same
  | priority c p pid priority labelled place result =>
    rw [result]
    unfold setPriority
    split
    · rename_i slot _
      exact wait.modify slot (fun q => { q with priority := priority }) id
    · exact wait
  | full kind none same => exact wait.congr same
  | claim kind slot found same =>
    refine EmbryosWait.congr ?_ same
    intro p embryo
    rw [allocproc_queued inv found]
    rw [allocproc_state found] at embryo
    split at embryo
    · exact Or.inr (by assumption)
    · exact Or.inl (wait p embryo)
  | forkFail kind np embryo same =>
    exact (wait.modify np _ (fun dead => by cases dead)).congr same
  | ready kind np embryo same =>
    exact (wait.modify np _ (fun ready => by cases ready)).congr same
  | exit c p labelled place running woken wakes same =>
    exact ((wait.wakes wakes).modify p _ (fun dead => by cases dead)).congr same
  | reap kind child zombie same =>
    exact (wait.modify child reapProc (fun dead => by cases dead)).congr same
  | sleep kind c p place running same =>
    exact (wait.modify p _ (fun asleep => by cases asleep)).congr same
  | yield c p labelled place running stage result =>
    have last := yields c p place stage
    rw [result]
    intro q embryo
    rw [yield_queued inv running last]
    rw [(yield_mlfq_spec inv running last).2.1] at embryo
    by_cases same : q = p
    · exact Or.inr same
    · rw [update_of_ne same] at embryo
      exact Or.inl (wait q embryo)
  | tick c labelled same =>
    have ticked : EmbryosWait { k with ticks := k.ticks + 1 } := wait
    exact ticked.congr same
  | charge c labelled same =>
    refine EmbryosWait.congr ?_ same
    intro p embryo
    rw [modifyTimes_queued inv]
    rw [(modifyTimes_accounts .mlfq k).proc p |>.state] at embryo
    exact Or.inl (wait p embryo)
  | pass c back labelled place result =>
    rw [result]
    intro p embryo
    rcases schedulerPass_state .mlfq k c back p with same | ⟨_, running⟩
    · rw [same] at embryo
      refine (mlfqPass_queued inv c back p).2 (wait p embryo) ?_
      rw [embryo]
      decide
    · rw [running] at embryo
      cases embryo

theorem reachable_embryosWait (reachable : (machine .mlfq ncpu).Reachable k) :
    k.EmbryosWait := by
  apply reachable.invariant_above
  · intro p embryo
    cases embryo
  · intro before label next reached wait stepped
    exact wait.step reached stepped

/-! ### Dead slots -/

theorem RingsAlive.keep (alive : k.RingsAlive)
    (queued : ∀ p, next.Queued p → k.Queued p ∨
      ((next.proc p).state ≠ .unused ∧ (next.proc p).state ≠ .zombie))
    (state : ∀ p, k.Queued p → next.Queued p →
      (next.proc p).state = .unused ∨ (next.proc p).state = .zombie →
      (k.proc p).state = .unused ∨ (k.proc p).state = .zombie) :
    next.RingsAlive := by
  rw [ringsAlive_iff] at alive ⊢
  intro p waits
  rcases queued p waits with before | living
  · obtain ⟨used, running⟩ := alive p before
    rw [← not_or]
    intro dead
    rcases state p before waits dead with unused | zombie
    · exact used unused
    · exact running zombie
  · exact living

theorem RingsAlive.congr (alive : k.RingsAlive) (same : k.SameTable next) :
    next.RingsAlive := by
  refine alive.keep (fun p queued => Or.inl ((queued_congr same.rings p).mp queued)) ?_
  intro p _ _ dead
  rwa [(same.proc p).state] at dead

theorem RingsAlive.wakes (alive : k.RingsAlive) (wakes : k.Wakes next) :
    next.RingsAlive := by
  refine alive.keep (fun p queued => Or.inl ((queued_congr wakes.rings p).mp queued)) ?_
  intro p _ _ dead
  rcases (wakes.proc p).state with same | ⟨_, ready⟩
  · rwa [same] at dead
  · simp [ready] at dead

theorem RingsAlive.modify (alive : k.RingsAlive) (slot : Slot) (change : Proc → Proc)
    (living : k.Queued slot →
      (change (k.proc slot)).state = .unused ∨
        (change (k.proc slot)).state = .zombie →
      (k.proc slot).state = .unused ∨ (k.proc slot).state = .zombie) :
    (k.modify slot change).RingsAlive := by
  refine alive.keep (fun p queued => Or.inl queued) ?_
  intro p before _ dead
  by_cases same : p = slot
  · subst p
    rw [modify_proc_self] at dead
    exact living before dead
  · rwa [modify_proc_of_ne _ _ _ same] at dead

theorem ringsAlive_modifyTimes (inv : k.MlfqInv) (alive : k.RingsAlive) :
    (k.modifyTimes .mlfq).RingsAlive ↔
      ∀ p, (k.proc p).state = .unused ∨ (k.proc p).state = .zombie →
        ¬Ages (k.proc p) := by
  have stateOf : ∀ p, ((k.modifyTimes .mlfq).proc p).state = (k.proc p).state :=
    fun p => ((modifyTimes_accounts .mlfq k).proc p).state
  simp only [ringsAlive_iff, stateOf, modifyTimes_queued inv]
  rw [ringsAlive_iff] at alive
  constructor
  · intro after p dead ages
    obtain ⟨used, running⟩ := after p (Or.inr ages)
    rcases dead with unused | zombie
    · exact used unused
    · exact running zombie
  · intro still p either
    rcases either with before | ages
    · exact alive p before
    · rw [← not_or]
      intro dead
      exact still p dead ages

theorem not_ringsAlive_forkFail (wait : k.EmbryosWait) {np : Slot}
    (embryo : (k.proc np).state = .embryo) :
    ¬(k.setState np .unused).RingsAlive := by
  intro alive
  obtain ⟨i, inside, member⟩ := wait np embryo
  have living := (alive i np inside member).1
  rw [setState, modify_proc_self] at living
  exact living rfl

theorem ringsAlive_step {label : Label ncpu} (reachable : (machine .mlfq ncpu).Reachable k)
    (alive : k.RingsAlive) (stepped : k.step .mlfq label = some next) :
    next.RingsAlive ↔ k.LifeCondition label := by
  obtain ⟨inv, yields⟩ := reachable_mlfqInv reachable
  have wait := reachable_embryosWait reachable
  cases tableStep (reachable_kernelInv reachable) stepped with
  | silent kind same =>
    have kept := alive.congr same
    rcases kind with kind | kind <;> simp [LifeCondition, kind, kept]
  | wake kind woken wakes same =>
    have kept := (alive.wakes wakes).congr same
    simp [LifeCondition, kind, kept]
  | priority c p pid priority labelled place result =>
    subst labelled
    have kept : next.RingsAlive := by
      rw [result]
      unfold setPriority
      split
      · rename_i slot _
        exact alive.modify slot (fun q => { q with priority := priority })
          (fun _ dead => dead)
      · exact alive
    simp [LifeCondition, Label.kind, kept]
  | full kind none same =>
    have kept := alive.congr same
    simp [LifeCondition, kind, kept]
  | claim kind slot found same =>
    have kept : (k.allocproc .mlfq).2.RingsAlive := by
      refine alive.keep ?_ ?_
      · intro p queued
        rcases (allocproc_queued inv found p).mp queued with before | here
        · exact Or.inl before
        · refine Or.inr ?_
          rw [allocproc_state found, if_pos here]
          decide
      · intro p _ _ dead
        rw [allocproc_state found] at dead
        split at dead
        · simp at dead
        · exact dead
    simp [LifeCondition, kind, kept.congr same]
  | forkFail kind np embryo same =>
    have broken : ¬next.RingsAlive := by
      intro after
      refine not_ringsAlive_forkFail wait embryo ?_
      refine after.keep (fun p queued => Or.inl ((queued_congr same.rings p).mpr queued)) ?_
      intro p _ _ dead
      rwa [(same.proc p).state]
    simp [LifeCondition, kind, broken]
  | ready kind np embryo same =>
    have kept := (alive.modify np (fun q => { q with state := .runnable })
      (fun _ dead => by simp at dead)).congr same
    simp [LifeCondition, kind, kept]
  | exit c p labelled place running woken wakes same =>
    subst labelled
    have absent : ¬woken.Queued p := by
      rw [queued_congr wakes.rings]
      exact fun queued => inv.waiting p queued running
    have kept := ((alive.wakes wakes).modify p
      (fun q => { q with endTime := int32 k.ticks, state := .zombie })
      (fun queued _ => absurd queued absent)).congr same
    simp [LifeCondition, Label.kind, kept]
  | reap kind child zombie same =>
    have kept := (alive.modify child reapProc (fun _ _ => Or.inr zombie)).congr same
    simp [LifeCondition, kind, kept]
  | sleep kind c p place running same =>
    have kept := (alive.modify p (fun q => { q with state := .sleeping })
      (fun _ dead => by simp at dead)).congr same
    rcases kind with kind | kind <;> simp [LifeCondition, kind, kept]
  | yield c p labelled place running stage result =>
    subst labelled
    have last := yields c p place stage
    have procOf := (yield_mlfq_spec (c := c) inv running last).2.1
    have kept : next.RingsAlive := by
      rw [result]
      refine alive.keep ?_ ?_
      · intro q queued
        rcases (yield_queued inv running last q).mp queued with before | here
        · exact Or.inl before
        · rw [procOf, here, update_self]
          refine Or.inr ⟨?_, ?_⟩
          all_goals
            intro dead
            cases dead
      · intro q before _ dead
        have different : q ≠ p := by
          intro same
          subst q
          exact inv.waiting p before running
        rwa [procOf, update_of_ne different] at dead
    simp [LifeCondition, Label.kind, kept]
  | tick c labelled same =>
    subst labelled
    have ticked : RingsAlive { k with ticks := k.ticks + 1 } := alive
    simp [LifeCondition, Label.kind, ticked.congr same]
  | charge c labelled same =>
    subst labelled
    have both : next.RingsAlive ↔ (k.modifyTimes .mlfq).RingsAlive := by
      constructor
      · intro after
        refine after.keep (fun p queued => Or.inl ((queued_congr same.rings p).mpr queued)) ?_
        intro p _ _ dead
        rwa [(same.proc p).state]
      · intro before
        exact before.congr same
    rw [both]
    exact ringsAlive_modifyTimes inv alive
  | pass c back labelled place result =>
    subst labelled
    have kept : next.RingsAlive := by
      rw [result]
      refine alive.keep ?_ ?_
      · intro p queued
        rcases (mlfqPass_queued inv c back p).1 queued with before | ready
        · exact Or.inl before
        · rcases schedulerPass_state .mlfq k c back p with same | ⟨_, running⟩
          · rw [same, ready]
            exact Or.inr (by decide)
          · rw [running]
            exact Or.inr (by decide)
      · intro p _ _ dead
        rcases schedulerPass_state .mlfq k c back p with same | ⟨_, running⟩
        · rwa [same] at dead
        · simp [running] at dead
    simp [LifeCondition, Label.kind, kept]

/-- A run keeps dead slots out of the rings exactly as long as no `fork` fails after
its allocation and no UNUSED or ZOMBIE slot is aged.  Where they are kept out,
`allocproc` puts the new process at the rear of ring 0. -/
theorem mlfq_life_cycle (labels : List (Label ncpu)) :
    ((machine .mlfq ncpu).Always RingsAlive (boot ncpu) labels ↔
        (machine .mlfq ncpu).Meets LifeCondition (boot ncpu) labels) ∧
      ∀ k : Kernel ncpu, (machine .mlfq ncpu).Reachable k → k.RingsAlive →
        ∀ slot, k.firstUnused = some slot →
          (k.allocproc .mlfq).2.queues =
            update k.queues 0 (k.queues 0 ++ [slot]) := by
  constructor
  · apply Machine.always_iff_meets
    · intro state label next reachable stepped
      exact Machine.Reachable.step reachable stepped
    · intro state label next reachable alive stepped
      exact ringsAlive_step reachable alive stepped
    · exact Machine.Reachable.start (machine .mlfq ncpu)
    · intro i p _ member
      rw [boot_queues] at member
      cases member
  · intro k reachable alive slot found
    have inv := (reachable_mlfqInv reachable).1
    have absent : ¬k.Queued slot := by
      intro queued
      exact (ringsAlive_iff.mp alive slot queued).1 (firstUnused_state found)
    obtain ⟨result, queues⟩ := allocproc_mlfq inv.rings found
    rw [result, queues]
    exact LevelQueues.enqueue_of_absent absent

/-- The child of the first process is lowered to level 1 and exits; its parent sleeps
and does not wait for it. -/
def childExits : List (Label 1) :=
  startUp ++ forkLabels ++ [.syscallEnter 0, .sleep 0 (.object 7), .pass 0, .enter 0, .pass 0,
    .forkretReturn 0] ++ twoTicks ++ [.yield 0, .pass 0, .enter 0, .pass 0, .trapReturn 0,
    .syscallEnter 0, .exit 0, .pass 0]

/-- A clock tick while the CPU idles. -/
def idleTick : List (Label 1) :=
  [.timerTick 0, .timerCharge 0, .timerWakeup 0, .trapTail 0]

set_option maxRecDepth 100000 in
/-- After 21 ticks the ZOMBIE is aged into ring 0. -/
theorem life_cycle_fails_after_ageing :
    ¬∀ k : Kernel 1, (machine .mlfq 1).Reachable k →
      ∀ i p, i < levels → p ∈ k.queues i →
        (k.proc p).state ≠ .unused ∧ (k.proc p).state ≠ .zombie := by
  obtain ⟨k, ran, member, dead⟩ :
      ∃ k,
        (machine .mlfq 1).exec (boot 1) (childExits ++ (List.replicate 21 idleTick).flatten) =
        some k ∧
        (1 : Slot) ∈ k.queues 0 ∧ (k.proc 1).state = .zombie := by
    decide +kernel
  intro claimed
  exact (claimed k ⟨_, ran⟩ 0 1 (by decide) member).2 dead

end Kernel

end Xv6
