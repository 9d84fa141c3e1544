/-
First come, first served.

The scheduler picks the least `start_time`, the first slot among equals.  Start times
follow the order of creation only up to one tick, and slots are used again in any
order, so the oldest RUNNABLE process is chosen exactly when no other one of its tick
stands in front of it.  This holds as long as the ticks fit into an `int`.  A dispatched
process keeps its CPU until it sleeps or exits.
-/

import Xv6.Process.Identifiers

namespace Xv6

open Library

namespace Kernel

variable {ncpu : Nat}

/-! ### The choice -/

variable {k : Kernel ncpu} {c : Fin ncpu} {p : Slot}

theorem fcfs_dispatch {next : Kernel ncpu} (stepped : k.step .fcfs (.pass c) = some next)
    (running : (next.cpu c).pc = .running p) : k.procWithMinStartTime = some p := by
  cases step_inversion stepped with
  | pass _ back place =>
    simp only [schedulerPass, fcfsPass] at running
    split at running
    · simp [release] at running
    · split at running
      · rename_i q found
        simp only [dispatch, Function.update_self] at running
        cases running
        exact found
      · simp [release] at running

/-- The chosen process has the least start time, strictly less than the RUNNABLE slots
in front of it. -/
theorem procWithMinStartTime_spec (found : k.procWithMinStartTime = some p) :
    (k.proc p).state = .runnable ∧
      (∀ q, (k.proc q).state = .runnable →
        (k.proc p).startTime ≤ (k.proc q).startTime) ∧
      ∀ q, q < p → (k.proc q).state = .runnable →
        (k.proc p).startTime < (k.proc q).startTime := by
  obtain ⟨⟨before, after, split, ready, earlier⟩, least⟩ := leastScan_none found
  refine ⟨isRunnable_iff.mp ready, ?_, ?_⟩
  · intro q readyQ
    exact least q (List.mem_finRange q) (isRunnable_iff.mpr readyQ)
  · intro q less readyQ
    exact earlier q (slots_split split q less) (isRunnable_iff.mpr readyQ)

/-- The RUNNABLE process that was created first. -/
def Oldest (k : Kernel ncpu) (p : Slot) : Prop :=
  (k.proc p).state = .runnable ∧
    ∀ q, (k.proc q).state = .runnable → (k.proc p).pid ≤ (k.proc q).pid

instance : DecidablePred k.Oldest :=
  fun _ => inferInstanceAs (Decidable (_ ∧ _))

/-- No RUNNABLE process in front of the oldest one was created in the same tick. -/
def OldestFirst (k : Kernel ncpu) : Prop :=
  ∀ p, k.Oldest p → ∀ q, (k.proc q).state = .runnable → q < p →
    (k.proc q).startTime ≠ (k.proc p).startTime

instance : Decidable k.OldestFirst :=
  inferInstanceAs (Decidable (∀ _, _ → _))

theorem exists_oldest (ready : (k.proc p).state = .runnable) : ∃ o, k.Oldest o := by
  obtain ⟨o, member, least⟩ := Finset.exists_min_image
    (Finset.univ.filter (fun q => (k.proc q).state = .runnable))
    (fun q => (k.proc q).pid) ⟨p, by simpa using ready⟩
  refine ⟨o, by simpa using member, ?_⟩
  intro q readyQ
  exact least q (by simpa using readyQ)

theorem Oldest.unique (inv : k.PidInv) {o : Slot} (one : k.Oldest p)
    (other : k.Oldest o) : p = o :=
  inv.distinct p o (inUse_of_runnable one.1) (inUse_of_runnable other.1)
    (le_antisymm (one.2 o other.1) (other.2 p one.1))

theorem procWithMinStartTime_oldest (inv : k.PidInv) (bounded : k.ticks < 2 ^ 31)
    (found : k.procWithMinStartTime = some p) : k.Oldest p ↔ k.OldestFirst := by
  obtain ⟨ready, least, first⟩ := procWithMinStartTime_spec found
  constructor
  · intro oldest o other q readyQ before
    rw [← oldest.unique inv other] at before ⊢
    exact (first q before readyQ).ne'
  · intro ties
    obtain ⟨o, oldest⟩ := exists_oldest ready
    have usedO := inUse_of_runnable oldest.1
    have usedP := inUse_of_runnable ready
    have notLater : o ≠ p → (k.proc o).startTime ≤ (k.proc p).startTime := by
      intro different
      refine inv.ordered bounded o p usedO usedP (lt_of_le_of_ne (oldest.2 p ready) ?_)
      exact fun equal => different (inv.distinct o p usedO usedP equal)
    rcases lt_trichotomy p o with before | same | behind
    · have tie := le_antisymm (least o oldest.1) (notLater before.ne')
      exact absurd tie (ties o oldest p ready before)
    · exact same ▸ oldest
    · exact absurd (first o behind oldest.1) (not_lt.mpr (notLater behind.ne))

/-! ### Without preemption -/

/-- Under this policy `trap` never decides to yield. -/
theorem fcfs_never_yields (reachable : (machine .fcfs ncpu).Reachable k)
    (place : (k.cpu c).pc = .running p) :
    (k.cpu c).trap ≠ .yielding := by
  let quiet : Kernel ncpu → Prop := fun k => ∀ c p, (k.cpu c).pc = .running p →
    (k.cpu c).trap ≠ .yielding
  have always : quiet k := by
    apply reachable.invariant_above
    · intro c p place
      simp only [machine, boot] at place
      split at place
      · cases place
      · cases place
    · intro before label next reached inv stepped c p there stage
      obtain ⟨place, ⟨staged, _⟩ | ⟨timer, _, wants⟩⟩ :=
        yielding_origin (reachable_trapInv reached) stepped there stage
      · exact inv c p place staged
      · cases wants
  exact always c p place

def runsOn (c : Fin ncpu) (p : Slot) (k : Kernel ncpu) : Bool :=
  decide ((k.cpu c).pc = .running p ∧ (k.proc p).state = .running)

theorem fcfs_leaves {next : Kernel ncpu} {label : Label ncpu}
    (reachable : (machine .fcfs ncpu).Reachable k)
    (stepped : k.step .fcfs label = some next) (before : (k.cpu c).pc = .running p)
    (after : (next.cpu c).pc ≠ .running p) :
    (next.proc p).state = .sleeping ∨ (next.proc p).state = .zombie := by
  obtain ⟨own, _, state⟩ := running_end stepped before after
  cases kind : label.kind with
  | yield =>
    obtain ⟨d, labelled⟩ : ∃ d, label = .yield d := by
      cases label <;> simp [Label.kind] at kind ⊢
    subst label
    cases step_inversion stepped with
    | yield _ q place stage free => exact absurd stage (fcfs_never_yields reachable place)
  | sleep =>
    rw [kind] at state
    exact Or.inl state
  | wait =>
    rw [kind] at state
    exact Or.inl state
  | exit =>
    rw [kind] at state
    exact Or.inr state
  | _ =>
    rw [kind] at state
    exact state.elim

/-- A dispatched process is the oldest RUNNABLE one exactly when no RUNNABLE process in
front of the oldest one was created in the same tick; and it keeps its CPU in every run up
to the step that puts it to sleep or ends it. -/
theorem fcfs_order {k next : Kernel ncpu} {c : Fin ncpu} {p : Slot}
    (reachable : (machine .fcfs ncpu).Reachable k) (bounded : k.ticks < 2 ^ 31)
    (stepped : k.step .fcfs (.pass c) = some next)
    (running : (next.cpu c).pc = .running p) :
    (k.proc p).state = .runnable ∧ (k.Oldest p ↔ k.OldestFirst) ∧
    ∀ labels final, (machine .fcfs ncpu).exec next labels = some final →
      ((machine .fcfs ncpu).within (runsOn c p)).exec next labels = some final ∨
        ∃ before label after middle left, labels = before ++ label :: after ∧
          ((machine .fcfs ncpu).within (runsOn c p)).exec next before = some middle ∧
          middle.step .fcfs label = some left ∧
          ((left.proc p).state = .sleeping ∨ (left.proc p).state = .zombie) := by
  have found := fcfs_dispatch stepped running
  refine ⟨(procWithMinStartTime_spec found).1,
    procWithMinStartTime_oldest (reachable_pidInv reachable) bounded found, ?_⟩
  intro labels final ran
  have arrived := reachable_step reachable stepped
  rcases Machine.exec_first_exit (runsOn c p) ran with
    whole | ⟨before, label, after, middle, left, split, kept, leaving, outside⟩
  · exact Or.inl whole
  · refine Or.inr ⟨before, label, after, middle, left, split, kept, leaving, ?_⟩
    have reached : (machine .fcfs ncpu).Reachable middle :=
      arrived.exec (Machine.within_exec kept)
    have place : (middle.cpu c).pc = .running p := by
      have inside := Machine.within_last kept
        (decide_eq_true ⟨running, (reachable_kernelInv arrived).onCpu c p running⟩)
      exact (of_decide_eq_true inside).1
    apply fcfs_leaves reached leaving place
    intro still
    have inside : runsOn c p left = true :=
      decide_eq_true ⟨still, (reachable_kernelInv (reached.step leaving)).onCpu c p still⟩
    rw [outside] at inside
    cases inside

/-- The first process forks twice and waits. -/
def twoChildren : List (Label 1) :=
  startUp ++ forkLabels ++ forkLabels ++ [.syscallEnter 0, .wait 0, .pass 0, .enter 0]

/-- The first child exits and is reaped, and the slot goes to a third child before the
second one has run. -/
def slotReused : List (Label 1) :=
  twoChildren ++ [.pass 0, .forkretReturn 0, .syscallEnter 0, .exit 0, .pass 0, .enter 0,
    .pass 0, .wait 0, .syscallReturn 0] ++ forkLabels ++
    [.syscallEnter 0, .wait 0, .pass 0, .enter 0]

set_option maxRecDepth 100000 in
/-- All in the first tick: the third child is dispatched before the second. -/
theorem fcfs_order_fails_after_slot_reuse :
    ¬∀ (k next : Kernel 1) (c : Fin 1) (p : Slot), (machine .fcfs 1).Reachable k →
      k.step .fcfs (.pass c) = some next → (next.cpu c).pc = .running p →
      k.Oldest p := by
  obtain ⟨k, ran, younger, next, stepped, running⟩ :
      ∃ k, (machine .fcfs 1).exec (boot 1) slotReused = some k ∧ ¬k.Oldest 1 ∧
        ∃ next, k.step .fcfs (.pass 0) = some next ∧ (next.cpu 0).pc = .running 1 := by
    decide +kernel
  intro claimed
  exact younger (claimed k next 0 1 ⟨_, ran⟩ stepped running)

set_option maxRecDepth 100000 in
/-- Before any slot is used again the older child comes first. -/
theorem fcfs_order_two_children :
    ∃ k next, (machine .fcfs 1).exec (boot 1) twoChildren = some k ∧
      k.step .fcfs (.pass 0) = some next ∧ (next.cpu 0).pc = .running 1 ∧
      (k.proc 2).state = .runnable ∧ k.Oldest 1 := by
  obtain ⟨k, ran, ready, early, first, next, stepped, running⟩ :
      ∃ k, (machine .fcfs 1).exec (boot 1) twoChildren = some k ∧
        (k.proc 2).state = .runnable ∧ k.ticks < 2 ^ 31 ∧
        k.OldestFirst ∧
        ∃ next, k.step .fcfs (.pass 0) = some next ∧ (next.cpu 0).pc = .running 1 := by
    decide +kernel
  have order := fcfs_order ⟨_, ran⟩ early stepped running
  exact ⟨k, next, ran, stepped, running, ready, order.2.1.mpr first⟩

end Kernel

end Xv6
