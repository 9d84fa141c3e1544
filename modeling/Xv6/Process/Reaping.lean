/-
Every process is waited for at most once.

An observer notes for every identifier which process created it, which identifiers have
exited and which have been returned by `wait` or `waitx`.  Slots and parents change
hands, but a returned identifier is new, belongs to a process that has exited, and goes
to its creator, or to the first process after the creator has exited.
-/

import Xv6.Process.Family

namespace Xv6

open Library

namespace Kernel

variable {ncpu : Nat}

/-- The kernel beside the observer. -/
def chronicled (policy : Policy) (ncpu : Nat) :
    Machine (Kernel ncpu × History) (Label ncpu) :=
  (machine policy ncpu).watched chronicle {}

theorem boot_recorded : (boot ncpu).tree.Recorded {} where
  counted := rfl
  gone := nofun
  nodup := List.nodup_nil
  dead := nofun
  forking := nofun
  raised := nofun

variable {k : Kernel ncpu}

theorem inUse_iff_life {p : Slot} : k.InUse p ↔ k.tree.life p ≠ .free :=
  not_congr ProcState.life_free.symm

theorem PidInv.ids (pids : k.PidInv) : k.tree.Ids where
  issued := fun p used => pids.issued p (inUse_iff_life.mpr used)
  distinct := fun p q usedP usedQ =>
    pids.distinct p q (inUse_iff_life.mpr usedP) (inUse_iff_life.mpr usedQ)

theorem chronicled_recorded {policy : Policy} {history : History}
    (reachable : (chronicled policy ncpu).Reachable (k, history)) :
    (machine policy ncpu).Reachable k ∧ k.tree.Recorded history := by
  refine reachable.watched_invariant (fun k history => k.tree.Recorded history)
    boot_recorded ?_
  intro k label next history reached recorded stepped
  have ok := reachable_treeOk reached
  have pids := reachable_pidInv reached
  obtain ⟨event, step, noted⟩ := happens ok (reachable_placed reached)
    (reachable_resumes reached) pids stepped
  rw [noted]
  exact recorded.step ok pids.ids step

section Results

variable {label : Label ncpu} {c : Fin ncpu} {p : Slot}

theorem waitLoop_result (k : Kernel ncpu) (c : Fin ncpu) (p : Slot) :
    (k.waitLoop c p).2.1 = (k.waitLoop c p).1.map (fun child => (k.proc child).pid) ∨
      ((k.waitLoop c p).1 = none ∧ (k.waitLoop c p).2.1 = some (-1)) := by
  unfold waitLoop
  split
  · exact Or.inl rfl
  · split
    · exact Or.inr ⟨rfl, rfl⟩
    · exact Or.inl rfl

theorem returnedBy_eq (labelled : label = .wait c ∨ label = .waitx c)
    (place : (k.cpu c).pc = .running p) :
    k.returnedBy label = (k.waitLoop c p).2.1 := by
  rcases labelled with labelled | labelled
  · simp only [labelled, returnedBy, place]
    rfl
  · simp only [labelled, returnedBy, place]
    rfl

/-- A positive result is the identifier of a ZOMBIE child of the caller. -/
theorem returnedBy_child {pid : Int} (returned : k.returnedBy label = some pid)
    (positive : 0 < pid) :
    ∃ p child, (k.cpu label.cpu).pc = .running p ∧ k.zombieChild p = some child ∧
      pid = (k.proc child).pid := by
  have found : ∀ c, label = .wait c ∨ label = .waitx c →
      ∃ p child, (k.cpu c).pc = .running p ∧ k.zombieChild p = some child ∧
        pid = (k.proc child).pid := by
    intro c labelled
    cases place : (k.cpu c).pc with
    | running p =>
      rw [returnedBy_eq labelled place] at returned
      rcases waitLoop_result k c p with result | ⟨_, failed⟩
      · rw [result] at returned
        obtain ⟨child, reaped, same⟩ := Option.map_eq_some_iff.mp returned
        exact ⟨p, child, rfl, waitLoop_reaped reaped, same.symm⟩
      · rw [failed] at returned
        cases returned
        omega
    | boot | loopTop | pass =>
      rcases labelled with labelled | labelled <;> simp [labelled, returnedBy, place] at returned
  cases label with
  | wait c => exact found c (Or.inl rfl)
  | waitx c => exact found c (Or.inr rfl)
  | _ => cases returned

end Results

/-- Beside any run with its history: the identifiers of slots in use are positive, at most
the number of allocations so far and pairwise distinct; nothing has been returned twice;
a call of `wait` or `waitx` that returns an identifier returns one that has exited and has
not been returned before, to the process that is its parent then, which is its creator, or
the first process if the creator has exited; and the two calls agree in any state. -/
theorem reaped_once {policy : Policy} {k : Kernel ncpu} {history : History}
    (reachable : (chronicled policy ncpu).Reachable (k, history)) :
    (∀ p, k.InUse p →
      0 < (k.proc p).pid ∧ (k.proc p).pid ≤ history.allocated) ∧
    (∀ p q, k.InUse p → k.InUse q →
      (k.proc p).pid = (k.proc q).pid → p = q) ∧
    history.reaped.Nodup ∧
    (∀ label next pid, k.step policy label = some next →
      k.returnedBy label = some pid → 0 < pid →
      pid ∉ history.reaped ∧ pid ∈ history.exited ∧
      (k.chronicle label history).reaped = pid :: history.reaped ∧
      ∃ p child, (k.cpu label.cpu).pc = .running p ∧ (k.proc child).pid = pid ∧
        (k.proc child).state = .zombie ∧ (k.proc child).parent = some p ∧
        (history.creator pid = some (k.proc p).pid ∨
          (k.initproc = some p ∧
            ∃ creator, history.creator pid = some creator ∧ creator ∈ history.exited))) ∧
    ∀ c p, (k.wait c p).1 = (k.waitx c p).1 ∧
      (k.wait c p).2.proc = (k.waitx c p).2.2.proc := by
  obtain ⟨reached, holds⟩ := chronicled_recorded reachable
  have pids := reachable_pidInv reached
  refine ⟨?_, pids.distinct, holds.nodup, ?_, fun _ _ => ⟨rfl, rfl⟩⟩
  · intro p used
    have issued := pids.issued p used
    have counted : k.nextpid = _ := holds.counted
    omega
  · intro label next pid _ returned positive
    obtain ⟨p, child, place, found, same⟩ := returnedBy_child returned positive
    subst pid
    obtain ⟨parent, zombie⟩ := zombieChild_spec found
    have dead : k.tree.life child = .dead := ProcState.life_dead.mpr zombie
    have labelled : label = .wait label.cpu ∨ label = .waitx label.cpu := by
      cases label with
      | wait c => exact Or.inl rfl
      | waitx c => exact Or.inr rfl
      | _ => cases returned
    refine ⟨?_, holds.dead child dead, ?_, p, child, place, rfl, zombie, parent, ?_⟩
    · intro old
      exact (holds.gone _ old).2 child (by rw [dead]; exact nofun) rfl
    · rw [chronicle_wait labelled place]
      simp only [waitLoop, found, if_pos positive]
    · exact holds.raised child p (by rw [dead]; rfl) parent

/-- The grandchild exits as well, and the first process has waited for its own child. -/
def grandchildExits : List (Label 1) :=
  orphaned ++ [.pass 0, .forkretReturn 0, .syscallEnter 0, .exit 0, .pass 0, .enter 0, .pass 0,
    .wait 0]

set_option maxRecDepth 100000 in
/-- The next call of `wait` returns the grandchild to the first process, whose child, the
creator, has exited. -/
theorem reaped_once_grandchild :
    ∃ (k : Kernel 1) (history : History),
      (chronicled .roundRobin 1).exec (boot 1, {}) grandchildExits = some (k, history) ∧
      (k.step .roundRobin (.wait 0)).isSome = true ∧
      k.returnedBy (.wait 0) = some 3 ∧ history.reaped = [2] ∧
      (3 : Int) ∉ history.reaped ∧ (3 : Int) ∈ history.exited := by
  obtain ⟨⟨k, history⟩, ran, taken, returned, reaped⟩ :
      ∃ pair, (chronicled .roundRobin 1).exec (boot 1, {}) grandchildExits = some pair ∧
        (pair.1.step .roundRobin (.wait 0)).isSome = true ∧
        pair.1.returnedBy (.wait 0) = some 3 ∧ pair.2.reaped = [2] := by
    decide +kernel
  have reachable : (chronicled .roundRobin 1).Reachable (k, history) := ⟨_, ran⟩
  obtain ⟨_, _, _, calls, _⟩ := reaped_once reachable
  obtain ⟨next, stepped⟩ := Option.isSome_iff_exists.mp taken
  obtain ⟨new, exited, _⟩ := calls (.wait 0) next 3 stepped returned (by decide)
  exact ⟨k, history, ran, taken, returned, reaped, new, exited⟩

end Kernel

end Xv6
