/-
The table scan of a single CPU, going round and round.

The scan stands behind the process that it has run.  Going round from there it comes
to every other slot before it comes back to that process, and a pass that serves
somebody nearer, or ends because nobody is left ahead, keeps this order.
-/

import Xv6.Process.Moves
import Xv6.Library.CyclicOrder

namespace Xv6

open Library

namespace Kernel

variable {ncpu : Nat}

/-! ### The scan -/

theorem nextRunnable_first {k : Kernel ncpu} {start : Nat} {x : Slot}
    (found : k.nextRunnable start = some x) :
    ∀ q : Slot, start ≤ q.val → (k.proc q).state = .runnable → x ≤ q := by
  obtain ⟨_, before, after, split, passed⟩ := List.find?_eq_some_iff_append.mp found
  intro q ahead ready
  by_contra earlier
  have skipped := passed q (slots_split split q (not_le.mp earlier))
  simp [ahead, isRunnable_iff.mpr ready] at skipped

theorem nextRunnable_none {k : Kernel ncpu} {start : Nat}
    (found : k.nextRunnable start = none) :
    ∀ q : Slot, (k.proc q).state = .runnable → q.val < start := by
  intro q ready
  by_contra ahead
  have skipped := List.find?_eq_none.mp found q (List.mem_finRange q)
  simp [not_lt.mp ahead, isRunnable_iff.mpr ready] at skipped

/-! ### Positions on the way round -/

/-- Where the outer loop of the scheduler stands while a CPU is busy. -/
def outerPosition : CpuPc → Nat
  | .running r => r.val + 1
  | .pass back => cursor back
  | _ => 0

theorem outerPosition_le (pc : CpuPc) : outerPosition pc ≤ NPROC := by
  cases pc with
  | running r => exact r.isLt
  | pass back =>
    cases back with
    | none => exact Nat.zero_le _
    | some r => exact r.isLt
  | boot np => exact Nat.zero_le _
  | loopTop => exact Nat.zero_le _

/-- Going round the table the outer loop comes to the second process first. -/
def DueFirst (k : Kernel 1) (p q : Slot) : Prop :=
  distance NPROC (outerPosition (k.cpu 0).pc) q.val <
    distance NPROC (outerPosition (k.cpu 0).pc) p.val

variable {k : Kernel 1} {p q : Slot}

theorem DueFirst.congr {next : Kernel 1} (due : k.DueFirst p q)
    (same : outerPosition (next.cpu 0).pc = outerPosition (k.cpu 0).pc) :
    next.DueFirst p q := by
  unfold DueFirst
  rwa [same]

/-- One step while the second process waits: a pass serves it or somebody nearer, and a
pass ends only when the scan is behind it. -/
theorem DueFirst.step {policy : Policy} {next : Kernel 1} {label : Label 1}
    (due : k.DueFirst p q) (still : (next.proc q).state = .runnable) (places : next.KernelInv)
    (stepped : k.step policy label = some next)
    (serves : ∀ r, label = .pass 0 → (next.cpu 0).pc = .running r →
      distance NPROC (outerPosition (k.cpu 0).pc) r.val ≤
        distance NPROC (outerPosition (k.cpu 0).pc) q.val)
    (ends : ∀ back, label = .pass 0 → (k.cpu 0).pc = .pass back →
      (next.cpu 0).pc = .loopTop → q.val < cursor back) : next.DueFirst p q := by
  have only : label.cpu = 0 := Subsingleton.elim _ _
  have moved := cpuStep stepped
  cases moved with
  | stays r before after moved =>
    rw [only] at before after
    exact due.congr (by rw [before, after])
  | leaves r before after | enters before after =>
    rw [only] at before after
    exact due.congr (by rw [before, after]; rfl)
  | idle before after _ =>
    rw [only] at after
    exact due.congr (by rw [after])
  | boots np before after =>
    rw [only] at before after
    refine due.congr ?_
    rcases after with ⟨new, after⟩ | after
    · rw [before, after]
      rfl
    · rw [before, after]
      rfl
  | starts r back labelled before after resumed ready =>
    rw [only] at labelled before after
    have different : r ≠ q := by
      intro same
      have running := places.onCpu 0 r after
      rw [same, still] at running
      cases running
    have strictly : distance NPROC (outerPosition (k.cpu 0).pc) r.val <
        distance NPROC (outerPosition (k.cpu 0).pc) q.val := by
      refine lt_of_le_of_ne (serves r labelled after) ?_
      intro equal
      exact different (Fin.ext (distance_injective (outerPosition_le _) r.isLt q.isLt equal))
    unfold DueFirst
    rw [after]
    exact distance_advance (outerPosition_le _) r.isLt q.isLt p.isLt strictly due
  | ends back labelled before after =>
    rw [only] at labelled before after
    have behind := ends back labelled before (congrArg Cpu.pc after)
    unfold DueFirst at due ⊢
    rw [before] at due
    rw [after]
    exact distance_wrap (outerPosition_le (.pass back)) behind due

theorem DueFirst.of_dispatch (running : (k.cpu 0).pc = .running p) (different : q ≠ p) :
    k.DueFirst p q := by
  unfold DueFirst
  rw [running]
  exact distance_last p.isLt q.isLt (fun same => different (Fin.ext same))

end Kernel

end Xv6
