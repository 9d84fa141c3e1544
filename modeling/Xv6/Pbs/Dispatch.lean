/-
Priority based scheduling on one CPU: the choice of a process.

The outer loop of the scheduler goes on behind the process it has run, but the inner
loop looks for the best priority from the start of the table.  Processes of equal
priority are served in turn as long as the slot that the outer loop reaches is itself
among the best, or the best ones all lie on one side of it; otherwise the inner loop
jumps back over the ones that are due.
-/

import Xv6.Process.Rounds

namespace Xv6

open Library

namespace Kernel

variable {ncpu : Nat}

/-- A RUNNABLE process of the numerically least priority. -/
def Best (k : Kernel ncpu) (p : Slot) : Prop :=
  (k.proc p).state = .runnable ∧
    ∀ q, (k.proc q).state = .runnable → (k.proc p).priority ≤ (k.proc q).priority

instance (k : Kernel ncpu) (p : Slot) : Decidable (k.Best p) :=
  inferInstanceAs (Decidable (_ ∧ _))

/-! ### The two loops -/

variable {k next : Kernel ncpu} {c : Fin ncpu} {p q : Slot}

/-- The inner loop finds a best process: the one it starts with, or else the first in
the table. -/
theorem procWithHighestPriority_best {x : Slot} (ready : (k.proc x).state = .runnable) :
    k.Best (k.procWithHighestPriority x) ∧
      (k.procWithHighestPriority x = x ∨
        (¬k.Best x ∧ ∀ q, k.Best q → k.procWithHighestPriority x ≤ q)) := by
  have chosenReady := procWithHighestPriority_state ready
  obtain ⟨chosen, found, _, least, origin⟩ := leastScan_some k.isRunnable
    (fun slot => (k.proc slot).priority) x slots
  have result : k.procWithHighestPriority x = chosen := by
    rw [procWithHighestPriority, found, Option.getD_some]
  rw [result] at chosenReady ⊢
  refine ⟨⟨chosenReady, ?_⟩, ?_⟩
  · intro q readyQ
    exact least q (List.mem_finRange q) (isRunnable_iff.mpr readyQ)
  · rcases origin with same | ⟨smaller, before, after, split, _, earlier⟩
    · exact Or.inl same
    · refine Or.inr ⟨?_, ?_⟩
      · intro best
        exact absurd smaller (not_lt.mpr (best.2 chosen chosenReady))
      · intro q best
        by_contra less
        have larger := earlier q (slots_split split q (not_le.mp less))
          (isRunnable_iff.mpr best.1)
        exact absurd larger (not_lt.mpr (best.2 chosen chosenReady))

/-- The slot that the outer loop has reached does not make the inner loop jump back over
a process that is due. -/
def Turn (k : Kernel ncpu) (x : Slot) : Prop :=
  k.Best x ∨ (∀ q, k.Best q → q < x) ∨ ∀ q, k.Best q → x < q

/-- The chosen process is the first of the best ones behind the cursor, going round the
table, exactly under that condition. -/
theorem in_turn_iff {start : Nat} {x : Slot} (inside : start ≤ NPROC)
    (found : k.nextRunnable start = some x) :
    (∀ q, k.Best q → distance NPROC start (k.procWithHighestPriority x).val ≤
        distance NPROC start q.val) ↔ k.Turn x := by
  obtain ⟨ahead, ready⟩ := nextRunnable_state found
  have first := nextRunnable_first found
  obtain ⟨best, origin⟩ := procWithHighestPriority_best ready
  generalize k.procWithHighestPriority x = p at best origin ⊢
  have casesP := distance_cases inside p.val
  constructor
  · intro nearest
    by_contra wrong
    simp only [Turn, not_or, not_forall] at wrong
    obtain ⟨notBest, ⟨right, bestRight, notLeft⟩, left, bestLeft, notRight⟩ := wrong
    -- the inner loop started over and found a slot that the cursor has passed already
    have lowest : ∀ q, k.Best q → p ≤ q := by
      rcases origin with same | ⟨_, lowest⟩
      · exact absurd (same ▸ best) notBest
      · exact lowest
    have passed : left.val < start := by
      by_contra ahead'
      have reached := first left (not_lt.mp ahead') bestLeft.1
      have equal : left = x := le_antisymm (not_lt.mp notRight) reached
      exact notBest (equal ▸ bestLeft)
    have atMost : p.val ≤ left.val := lowest left bestLeft
    have beyond : x.val ≤ right.val := not_lt.mp notLeft
    have casesRight := distance_cases inside right.val
    have bound := nearest right bestRight
    omega
  · intro turn q bestQ
    have casesQ := distance_cases inside q.val
    have reached : start ≤ q.val → x.val ≤ q.val := fun here => first q here bestQ.1
    have below : x.val < NPROC := x.isLt
    rcases origin with same | ⟨notBest, lowest⟩
    · rw [same] at casesP ⊢
      omega
    · have least : p.val ≤ q.val := lowest q bestQ
      rcases turn with good | left | right
      · exact absurd good notBest
      · have leftQ : q.val < x.val := left q bestQ
        omega
      · have rightP : x.val < p.val := right p best
        omega

/-! ### A pass -/

theorem pbs_dispatch_origin (stepped : k.step .pbs (.pass c) = some next)
    (running : (next.cpu c).pc = .running p) :
    ∃ back x, (k.cpu c).pc = .pass back ∧ k.nextRunnable (cursor back) = some x ∧
      p = k.procWithHighestPriority x ∧ next = k.dispatch c p := by
  cases step_inversion stepped with
  | pass _ back place =>
    cases found : k.nextRunnable (cursor back) with
    | none =>
      simp [schedulerPass, pbsPass, found, release] at running
    | some x =>
      simp only [schedulerPass, pbsPass, found, dispatch, Function.update_self] at running
      cases running
      refine ⟨back, x, place, found, rfl, ?_⟩
      simp only [schedulerPass, pbsPass, found]

theorem pbs_dispatch_best (stepped : k.step .pbs (.pass c) = some next)
    (running : (next.cpu c).pc = .running p) : k.Best p := by
  obtain ⟨back, x, _, found, chosen, _⟩ := pbs_dispatch_origin stepped running
  rw [chosen]
  exact (procWithHighestPriority_best (nextRunnable_state found).2).1

theorem pbs_pass_ends {back : Option Slot} (stepped : k.step .pbs (.pass c) = some next)
    (place : (k.cpu c).pc = .pass back) (ended : (next.cpu c).pc = .loopTop) :
    k.nextRunnable (cursor back) = none := by
  cases step_inversion stepped with
  | pass _ other there =>
    rw [place] at there
    cases there
    cases found : k.nextRunnable (cursor back) with
    | none => rfl
    | some x => simp [schedulerPass, pbsPass, found, dispatch] at ended

/-! ### Turns over a run -/

/-- The process is RUNNABLE, as good as the other one, and nobody RUNNABLE is better. -/
def waitsBeside (p q : Slot) (k : Kernel 1) : Bool :=
  decide (k.Best q ∧ (k.proc p).priority = (k.proc q).priority)

/-- Passes that choose do not jump back over a process that is due. -/
def TurnCondition (k : Kernel 1) (label : Label 1) : Prop :=
  label = .pass 0 → ∀ back x, (k.cpu 0).pc = .pass back →
    k.nextRunnable (cursor back) = some x → k.Turn x

theorem pass_in_turn {k next : Kernel 1} (turn : k.TurnCondition (.pass 0))
    (best : k.Best q) (stepped : k.step .pbs (.pass 0) = some next)
    (running : (next.cpu 0).pc = .running p) :
    distance NPROC (outerPosition (k.cpu 0).pc) p.val ≤
      distance NPROC (outerPosition (k.cpu 0).pc) q.val := by
  obtain ⟨back, x, place, found, chosen, _⟩ := pbs_dispatch_origin stepped running
  have inside := outerPosition_le (.pass back)
  rw [place, chosen]
  exact (in_turn_iff inside found).mpr (turn rfl back x place found) q best

theorem DueFirst.pbs_step {k next : Kernel 1} {label : Label 1} (due : k.DueFirst p q)
    (best : k.Best q) (still : next.Best q) (turn : k.TurnCondition label)
    (places : next.KernelInv) (stepped : k.step .pbs label = some next) :
    next.DueFirst p q := by
  refine due.step still.1 places stepped ?_ ?_
  · intro r labelled after
    subst label
    exact pass_in_turn turn best stepped after
  · intro back labelled before after
    subst label
    exact nextRunnable_none (pbs_pass_ends stepped before after) q best.1

theorem waitsBeside_iff {k : Kernel 1} :
    waitsBeside p q k = true ↔
      k.Best q ∧ (k.proc p).priority = (k.proc q).priority :=
  decide_eq_true_iff

/-- A whole run while a process waits; `rest` is what the run goes on with. -/
theorem DueFirst.run {k final : Kernel 1} {labels rest : List (Label 1)}
    (due : k.DueFirst p q) (waiting : waitsBeside p q k = true)
    (reachable : (machine .pbs 1).Reachable k)
    (ran : ((machine .pbs 1).within (waitsBeside p q)).exec k labels = some final)
    (meets : (machine .pbs 1).Meets TurnCondition k (labels ++ rest)) :
    final.DueFirst p q ∧ waitsBeside p q final = true ∧
      (machine .pbs 1).Meets TurnCondition final rest := by
  induction labels generalizing k with
  | nil =>
    cases ran
    exact ⟨due, waiting, meets⟩
  | cons label labels ih =>
    obtain ⟨next, taken, remaining⟩ := (Machine.exec_cons _ _ _ _ _).mp ran
    obtain ⟨stepped, still⟩ := Machine.within_step.mp taken
    obtain ⟨turn, meetsNext⟩ := meets next stepped
    have arrived := reachable_step reachable stepped
    refine ih ?_ still arrived remaining meetsNext
    exact due.pbs_step (waitsBeside_iff.mp waiting).1 (waitsBeside_iff.mp still).1 turn
      (reachable_kernelInv arrived) stepped

/-- Every dispatched process is a best one.  It is the next of the best ones in turn
exactly if the slot that the outer loop has reached is a best one or has all of them on
one side.  In a run whose passes all meet this, no process is dispatched again while an
equal one has been waiting beside it all the time. -/
theorem pbs_dispatch {k next : Kernel 1} {p : Slot}
    (reachable : (machine .pbs 1).Reachable k)
    (stepped : k.step .pbs (.pass 0) = some next)
    (running : (next.cpu 0).pc = .running p) :
    k.Best p ∧
    (∀ back x, (k.cpu 0).pc = .pass back → k.nextRunnable (cursor back) = some x →
      ((∀ q, k.Best q → distance NPROC (cursor back) p.val ≤
          distance NPROC (cursor back) q.val) ↔ k.Turn x)) ∧
    ∀ q labels middle final, waitsBeside p q next = true →
      ((machine .pbs 1).within (waitsBeside p q)).exec next labels = some middle →
      (machine .pbs 1).Meets TurnCondition next (labels ++ [.pass 0]) →
      middle.step .pbs (.pass 0) = some final → (final.cpu 0).pc ≠ .running p := by
  refine ⟨pbs_dispatch_best stepped running, ?_, ?_⟩
  · intro back x place found
    obtain ⟨back', x', place', found', chosen, _⟩ := pbs_dispatch_origin stepped running
    rw [place] at place'
    cases place'
    rw [found] at found'
    cases found'
    rw [chosen]
    exact in_turn_iff (outerPosition_le (.pass back)) found
  · intro q labels middle final waiting ran meets again runningAgain
    have arrived := reachable_step reachable stepped
    have different : q ≠ p := by
      intro same
      have onCpu := (reachable_kernelInv arrived).onCpu 0 p running
      rw [← same, (waitsBeside_iff.mp waiting).1.1] at onCpu
      cases onCpu
    have due := DueFirst.of_dispatch running different
    obtain ⟨dueThen, waitingThen, meetsThen⟩ := due.run waiting arrived ran meets
    have turn := (meetsThen final again).1
    have atMost := pass_in_turn turn (waitsBeside_iff.mp waitingThen).1 again runningAgain
    exact absurd dueThen (not_lt.mpr atMost)

/-- Two children beside the first process, of which the first one, in the slot between
the other two, gets a worse priority; then a timer interrupt. -/
def worseBetween : List (Label 1) :=
  startUp ++ forkLabels ++ forkLabels ++
    [.syscallEnter 0, .setPriority 0 2 70, .syscallReturn 0, .timerTick 0, .timerCharge 0,
      .timerWakeup 0, .trapTail 0, .yield 0]

/-- From one dispatch to the next timer interrupt. -/
def oneTick : List (Label 1) :=
  [.trapReturn 0, .timerTick 0, .timerCharge 0, .timerWakeup 0, .trapTail 0, .yield 0]

set_option maxRecDepth 100000 in
/-- The first process is dispatched twice in a row while its second child, of the same
priority, waits. -/
theorem pbs_round_robin_fails_with_worse_between :
    ¬∀ (k next middle final : Kernel 1) (p q : Slot) (labels : List (Label 1)),
      (machine .pbs 1).Reachable k → k.step .pbs (.pass 0) = some next →
      (next.cpu 0).pc = .running p → waitsBeside p q next = true →
      ((machine .pbs 1).within (waitsBeside p q)).exec next labels = some middle →
      middle.step .pbs (.pass 0) = some final → (final.cpu 0).pc ≠ .running p := by
  obtain ⟨k, ran, next, stepped, running, waiting, middle, kept, final, again, runningAgain⟩ :
      ∃ k, (machine .pbs 1).exec (boot 1) worseBetween = some k ∧
        ∃ next, k.step .pbs (.pass 0) = some next ∧ (next.cpu 0).pc = .running 0 ∧
        waitsBeside 0 2 next = true ∧
        ∃ middle, ((machine .pbs 1).within (waitsBeside 0 2)).exec next oneTick = some middle ∧
        ∃ final, middle.step .pbs (.pass 0) = some final ∧ (final.cpu 0).pc = .running 0 := by
    decide +kernel
  intro claimed
  exact claimed k next middle final 0 2 oneTick ⟨_, ran⟩ stepped running waiting kept again
    runningAgain

/-- The first tick of a new process. -/
def childTick : List (Label 1) := .forkretReturn 0 :: oneTick.tail

/-- If all processes that wait have the same priority. -/
def allBest (k : Kernel 1) (_ : Label 1) : Bool :=
  decide (∀ q, (k.proc q).state = .runnable → k.Best q)

theorem turnCondition_of_allBest (k : Kernel 1) (label : Label 1)
    (equal : k.allBest label = true) : k.TurnCondition label :=
  fun _ _ x _ found => Or.inl (of_decide_eq_true equal x (nextRunnable_state found).2)

set_option maxRecDepth 100000 in
/-- Of three processes with one priority, the one behind the cursor is dispatched, and then
another one. -/
theorem pbs_dispatch_equal_priorities :
    ∃ k next middle final, (machine .pbs 1).exec (boot 1)
        (startUp ++ forkLabels ++ forkLabels ++ oneTick.tail) = some k ∧
      k.step .pbs (.pass 0) = some next ∧ (next.cpu 0).pc = .running 1 ∧ k.Best 1 ∧
      (∀ q, k.Best q → distance NPROC 1 1 ≤ distance NPROC 1 q.val) ∧
      ((machine .pbs 1).within (waitsBeside 1 2)).exec next childTick = some middle ∧
      middle.step .pbs (.pass 0) = some final ∧ (final.cpu 0).pc ≠ .running 1 := by
  obtain ⟨k, ran, place, found, next, stepped, running, waiting, checked, middle, kept, goes⟩ :
      ∃ k, (machine .pbs 1).exec (boot 1)
          (startUp ++ forkLabels ++ forkLabels ++ oneTick.tail) = some k ∧
        (k.cpu 0).pc = .pass (some 0) ∧ k.nextRunnable 1 = some 1 ∧
        ∃ next, k.step .pbs (.pass 0) = some next ∧ (next.cpu 0).pc = .running 1 ∧
        waitsBeside 1 2 next = true ∧
        (machine .pbs 1).checks allBest next (childTick ++ [.pass 0]) = true ∧
        ∃ middle, ((machine .pbs 1).within (waitsBeside 1 2)).exec next childTick = some middle ∧
        (middle.step .pbs (.pass 0)).isSome = true := by
    decide +kernel
  obtain ⟨final, again⟩ := Option.isSome_iff_exists.mp goes
  obtain ⟨best, turn, others⟩ := pbs_dispatch ⟨_, ran⟩ stepped running
  exact ⟨k, next, middle, final, ran, stepped, running, best,
    (turn _ 1 place found).mpr (Or.inl best), kept, again,
    others 2 childTick middle final waiting kept
      (Machine.meets_of_checks turnCondition_of_allBest _ checked) again⟩

end Kernel

end Xv6
