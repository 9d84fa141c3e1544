/-
Deterministic labelled machines and their runs.

A machine has one start state and a partial step function; a run is a list of
labels.  The invariant rule is stated once and used for plain runs, for runs
whose steps all meet a condition, and for runs watched by an observer that
records a history without influencing it.
-/

import Mathlib.Tactic

namespace Xv6.Library

/-! Named, so that a literal of an index type is the same term in every module. -/

instance neZero_one : NeZero 1 := ⟨Nat.one_ne_zero⟩

instance neZero_two : NeZero 2 := ⟨Nat.succ_ne_zero 1⟩

structure Machine (State Label : Type) where
  start : State
  step : State → Label → Option State

namespace Machine

variable {State Label : Type} (machine : Machine State Label)

def exec : State → List Label → Option State
  | state, [] => some state
  | state, label :: rest =>
    (machine.step state label).bind (fun next => exec next rest)

def Reachable (state : State) : Prop :=
  ∃ labels, machine.exec machine.start labels = some state

@[simp]
theorem exec_nil (state : State) : machine.exec state [] = some state := rfl

theorem exec_cons (state final : State) (label : Label) (rest : List Label) :
    machine.exec state (label :: rest) = some final ↔
      ∃ next, machine.step state label = some next ∧
        machine.exec next rest = some final := by
  simp only [exec, Option.bind_eq_some_iff]

theorem exec_append (state final : State) (first second : List Label) :
    machine.exec state (first ++ second) = some final ↔
      ∃ middle, machine.exec state first = some middle ∧
        machine.exec middle second = some final := by
  induction first generalizing state with
  | nil => simp
  | cons label rest ih =>
    simp only [List.cons_append, exec_cons, ih]
    constructor
    · rintro ⟨next, stepped, middle, before, after⟩
      exact ⟨middle, ⟨next, stepped, before⟩, after⟩
    · rintro ⟨middle, ⟨next, stepped, before⟩, after⟩
      exact ⟨next, stepped, middle, before, after⟩

theorem exec_singleton (state next : State) (label : Label) :
    machine.exec state [label] = some next ↔ machine.step state label = some next := by
  simp [exec_cons]

theorem Reachable.start : machine.Reachable machine.start := ⟨[], rfl⟩

variable {machine}

theorem Reachable.exec {state final : State} {labels : List Label}
    (reachable : machine.Reachable state)
    (ran : machine.exec state labels = some final) : machine.Reachable final := by
  obtain ⟨before, arrived⟩ := reachable
  exact ⟨before ++ labels, (machine.exec_append _ _ _ _).mpr ⟨state, arrived, ran⟩⟩

theorem Reachable.step {state next : State} {label : Label}
    (reachable : machine.Reachable state)
    (stepped : machine.step state label = some next) : machine.Reachable next :=
  reachable.exec ((machine.exec_singleton _ _ _).mpr stepped)

theorem exec_preserves {invariant : State → Prop}
    (preserved : ∀ state label next, invariant state →
      machine.step state label = some next → invariant next)
    {state final : State} {labels : List Label} (holds : invariant state)
    (ran : machine.exec state labels = some final) : invariant final := by
  induction labels generalizing state with
  | nil =>
    simp only [exec_nil, Option.some.injEq] at ran
    exact ran ▸ holds
  | cons label rest ih =>
    obtain ⟨next, stepped, remaining⟩ := (machine.exec_cons _ _ _ _).mp ran
    exact ih (preserved state label next holds stepped) remaining

theorem Reachable.invariant {invariant : State → Prop}
    (initially : invariant machine.start)
    (preserved : ∀ state label next, invariant state →
      machine.step state label = some next → invariant next)
    {state : State} (reachable : machine.Reachable state) : invariant state := by
  obtain ⟨labels, ran⟩ := reachable
  exact exec_preserves preserved initially ran

/-- The rule for an invariant that rests on others: reachability of the state that
takes the step may be used. -/
theorem Reachable.invariant_above {invariant : State → Prop}
    (initially : invariant machine.start)
    (preserved : ∀ state label next, machine.Reachable state → invariant state →
      machine.step state label = some next → invariant next)
    {state : State} (reachable : machine.Reachable state) : invariant state := by
  let both : State → Prop := fun state => machine.Reachable state ∧ invariant state
  have kept : both state := by
    apply Reachable.invariant ?_ ?_ reachable
    · exact ⟨Reachable.start machine, initially⟩
    · intro before label next holds stepped
      exact ⟨holds.1.step stepped, preserved before label next holds.1 holds.2 stepped⟩
  exact kept.2

/-! ### Runs whose steps meet a condition -/

variable (machine)

/-- Every step that the run takes is taken in a state that meets the
condition for its label. -/
def Meets (condition : State → Label → Prop) : State → List Label → Prop
  | _, [] => True
  | state, label :: rest =>
    ∀ next, machine.step state label = some next →
      condition state label ∧ Meets condition next rest

/-- The run passes a test at every step that it takes. -/
def checks (check : State → Label → Bool) : State → List Label → Bool
  | _, [] => true
  | state, label :: rest =>
    match machine.step state label with
    | none => true
    | some next => check state label && checks check next rest

/-- The property holds in the first state and in every state reached. -/
def Always (property : State → Prop) : State → List Label → Prop
  | state, [] => property state
  | state, label :: rest =>
    property state ∧
      ∀ next, machine.step state label = some next → Always property next rest

variable {machine}

theorem meets_of_checks {check : State → Label → Bool} {condition : State → Label → Prop}
    (sound : ∀ state label, check state label = true → condition state label)
    {state : State} (labels : List Label) (passed : machine.checks check state labels = true) :
    machine.Meets condition state labels := by
  induction labels generalizing state with
  | nil => trivial
  | cons label rest ih =>
    intro next stepped
    rw [checks, stepped, Bool.and_eq_true] at passed
    exact ⟨sound state label passed.1, ih passed.2⟩

theorem Always.head {property : State → Prop} {state : State} {labels : List Label}
    (always : machine.Always property state labels) : property state := by
  cases labels with
  | nil => exact always
  | cons label rest => exact always.1

theorem Always.last {property : State → Prop} {state final : State}
    {labels : List Label} (always : machine.Always property state labels)
    (ran : machine.exec state labels = some final) : property final := by
  induction labels generalizing state with
  | nil =>
    simp only [exec_nil, Option.some.injEq] at ran
    exact ran ▸ always
  | cons label rest ih =>
    obtain ⟨next, stepped, remaining⟩ := (machine.exec_cons _ _ _ _).mp ran
    exact ih (always.2 next stepped) remaining

/-- The invariant rule for conditioned runs: the invariant may use the
condition of the step being taken. -/
theorem Meets.always {condition : State → Label → Prop} {invariant : State → Prop}
    (preserved : ∀ state label next, invariant state → condition state label →
      machine.step state label = some next → invariant next)
    {state : State} {labels : List Label} (holds : invariant state)
    (meets : machine.Meets condition state labels) :
    machine.Always invariant state labels := by
  induction labels generalizing state with
  | nil => exact holds
  | cons label rest ih =>
    refine ⟨holds, ?_⟩
    intro next stepped
    obtain ⟨condition, remaining⟩ := meets next stepped
    exact ih (preserved state label next holds condition stepped) remaining

theorem Always.mono {weaker stronger : State → Prop}
    (implies : ∀ state, stronger state → weaker state)
    {state : State} {labels : List Label}
    (always : machine.Always stronger state labels) :
    machine.Always weaker state labels := by
  induction labels generalizing state with
  | nil => exact implies state always
  | cons label rest ih =>
    exact ⟨implies state always.1, fun next stepped => ih (always.2 next stepped)⟩

/-- Where a step from a good state reaches a good state exactly when it meets
the condition, a run stays good exactly when all of its steps meet it.  The
invariant is what may be assumed of every state on the way. -/
theorem always_iff_meets {condition : State → Label → Prop}
    {property invariant : State → Prop}
    (preserved : ∀ state label next, invariant state →
      machine.step state label = some next → invariant next)
    (exactly : ∀ state label next, invariant state → property state →
      machine.step state label = some next → (property next ↔ condition state label))
    {state : State} (labels : List Label) (holds : invariant state)
    (good : property state) :
    machine.Always property state labels ↔ machine.Meets condition state labels := by
  induction labels generalizing state with
  | nil => simp only [Always, Meets, good]
  | cons label rest ih =>
    simp only [Always, Meets, good, true_and]
    apply forall_congr'
    intro next
    apply forall_congr'
    intro stepped
    have kept := preserved state label next holds stepped
    have step := exactly state label next holds good stepped
    constructor
    · intro always
      have goodNext := always.head
      exact ⟨step.mp goodNext, (ih kept goodNext).mp always⟩
    · rintro ⟨met, meets⟩
      exact (ih kept (step.mpr met)).mpr meets

/-! ### Runs that stay inside a set of states -/

/-- The machine without the steps that lead outside. -/
def within (machine : Machine State Label) (inside : State → Bool) :
    Machine State Label where
  start := machine.start
  step := fun state label => (machine.step state label).filter inside

theorem within_step {inside : State → Bool} {state next : State} {label : Label} :
    (machine.within inside).step state label = some next ↔
      machine.step state label = some next ∧ inside next = true := by
  simp only [within, Option.filter_eq_some_iff]

theorem within_exec {inside : State → Bool} {state final : State} {labels : List Label}
    (ran : (machine.within inside).exec state labels = some final) :
    machine.exec state labels = some final := by
  induction labels generalizing state with
  | nil => exact ran
  | cons label rest ih =>
    obtain ⟨next, stepped, remaining⟩ := (exec_cons _ _ _ _ _).mp ran
    exact (exec_cons _ _ _ _ _).mpr ⟨next, (within_step.mp stepped).1, ih remaining⟩

theorem within_last {inside : State → Bool} {state final : State} {labels : List Label}
    (ran : (machine.within inside).exec state labels = some final)
    (first : inside state = true) : inside final = true :=
  exec_preserves (fun _ _ _ _ stepped => (within_step.mp stepped).2) first ran

theorem exec_first_exit (inside : State → Bool) {state final : State} {labels : List Label}
    (ran : machine.exec state labels = some final) :
    (machine.within inside).exec state labels = some final ∨
      ∃ before label after middle left, labels = before ++ label :: after ∧
        (machine.within inside).exec state before = some middle ∧
        machine.step middle label = some left ∧ inside left = false := by
  induction labels generalizing state with
  | nil => exact Or.inl ran
  | cons label rest ih =>
    obtain ⟨next, stepped, remaining⟩ := (exec_cons _ _ _ _ _).mp ran
    cases test : inside next with
    | false => exact Or.inr ⟨[], label, rest, state, next, rfl, rfl, stepped, test⟩
    | true =>
      have taken := within_step.mpr ⟨stepped, test⟩
      rcases ih remaining with whole | ⟨before, out, after, middle, left, split, first, rest⟩
      · exact Or.inl ((exec_cons _ _ _ _ _).mpr ⟨next, taken, whole⟩)
      · refine Or.inr ⟨label :: before, out, after, middle, left, ?_, ?_, rest⟩
        · rw [split, List.cons_append]
        · exact (exec_cons _ _ _ _ _).mpr ⟨next, taken, first⟩

/-! ### Observers -/

/-- The machine run beside an observer: the observer sees each step's state
and label and has no effect on the machine. -/
def watched {Ghost : Type} (machine : Machine State Label)
    (observe : State → Label → Ghost → Ghost) (ghost : Ghost) :
    Machine (State × Ghost) Label where
  start := (machine.start, ghost)
  step := fun pair label =>
    (machine.step pair.1 label).map (fun next => (next, observe pair.1 label pair.2))

theorem watched_step {Ghost : Type} {observe : State → Label → Ghost → Ghost}
    {initial : Ghost} {state next : State} {before after : Ghost} {label : Label} :
    (machine.watched observe initial).step (state, before) label = some (next, after) ↔
      machine.step state label = some next ∧ after = observe state label before := by
  simp only [watched, Option.map_eq_some_iff, Prod.mk.injEq]
  constructor
  · rintro ⟨found, stepped, same, ghost⟩
    exact ⟨same ▸ stepped, ghost.symm⟩
  · rintro ⟨stepped, ghost⟩
    exact ⟨next, stepped, rfl, ghost.symm⟩

theorem Reachable.watched_invariant {Ghost : Type} {observe : State → Label → Ghost → Ghost}
    {initial : Ghost} (property : State → Ghost → Prop)
    (initially : property machine.start initial)
    (preserved : ∀ state label next ghost, machine.Reachable state → property state ghost →
      machine.step state label = some next → property next (observe state label ghost))
    {state : State} {ghost : Ghost}
    (reachable : (machine.watched observe initial).Reachable (state, ghost)) :
    machine.Reachable state ∧ property state ghost := by
  let good : State × Ghost → Prop := fun pair =>
    machine.Reachable pair.1 ∧ property pair.1 pair.2
  have kept : good (state, ghost) := by
    apply reachable.invariant
    · exact ⟨Reachable.start machine, initially⟩
    · intro before label after holds stepped
      obtain ⟨machineStep, seen⟩ := watched_step.mp stepped
      refine ⟨holds.1.step machineStep, ?_⟩
      rw [seen]
      exact preserved before.1 label after.1 before.2 holds.1 holds.2 machineStep
  exact kept

end Machine

end Xv6.Library
