/-
The calls that look for a process by its identifier: `kill`, `set_priority` and `getpinfo`.

They compare `pid` alone.  A free slot that was never used or was reaped has identifier 0,
and one whose `fork` failed still has the identifier it was given; a call with such an
identifier finds the free slot.  `allocproc` does not clear `killed`.
-/

import Xv6.Process.Identifiers

namespace Xv6

open Library

namespace Kernel

variable {ncpu : Nat}

/-! ### Identifiers of all slots -/

variable {policy : Policy} {k next : Kernel ncpu} {pid : Int} {change : Proc → Proc}

/-- Identifiers other than 0 belong to one slot, whether it is in use or free. -/
structure PidsApart (k : Kernel ncpu) : Prop where
  below : ∀ p, (k.proc p).pid < k.nextpid
  apart : ∀ p q, (k.proc p).pid = (k.proc q).pid → (k.proc p).pid ≠ 0 → p = q

theorem reachable_pidsApart (reachable : (machine policy ncpu).Reachable k) :
    k.PidsApart := by
  have inv := reachable_numbered reachable
  exact ⟨inv.below, inv.apart⟩

/-! ### What the search finds -/

/-- The three ways a search can go. -/
inductive Lookup (k : Kernel ncpu) (pid : Int) : Option Slot → Prop
  | live (p : Slot) (used : k.InUse p) (here : (k.proc p).pid = pid)
      (alone : ∀ q, (k.proc q).pid = pid → q = p) : Lookup k pid (some p)
  | free (p : Slot) (unused : ¬k.InUse p) (here : (k.proc p).pid = pid)
      (dead : ∀ q, k.InUse q → (k.proc q).pid ≠ pid) : Lookup k pid (some p)
  | none (unknown : ∀ q, (k.proc q).pid ≠ pid) : Lookup k pid none

theorem withPid_lookup (pids : k.PidInv) (inv : k.PidsApart) (pid : Int) :
    k.Lookup pid (k.withPid pid) := by
  cases found : k.withPid pid with
  | none =>
    refine .none ?_
    intro q same
    exact List.find?_eq_none.mp found q (List.mem_finRange q) (decide_eq_true same)
  | some p =>
    have test := List.find?_some found
    have here : (k.proc p).pid = pid := of_decide_eq_true test
    by_cases used : k.InUse p
    · have named : (k.proc p).pid ≠ 0 := by
        have issued := (pids.issued p used).1
        omega
      refine .live p used here ?_
      intro q same
      exact (inv.apart p q (here.trans same.symm) named).symm
    · refine .free p used here ?_
      intro q living same
      have named : (k.proc q).pid ≠ 0 := by
        have issued := (pids.issued q living).1
        omega
      exact used (inv.apart q p (same.trans here.symm) named ▸ living)

/-- No free slot has the identifier. -/
def NoFreeSlotHas (k : Kernel ncpu) (pid : Int) : Prop :=
  ∀ p, (k.proc p).pid = pid → k.InUse p

/-- A call that looks for an identifier: it succeeds exactly if a slot in use has it, it
changes that slot alone, and it changes nothing if there is none. -/
structure Finds (k next : Kernel ncpu) (pid : Int) (succeeds : Prop)
    (change : Proc → Proc) : Prop where
  success : succeeds ↔ ∃ p, k.InUse p ∧ (k.proc p).pid = pid
  found : ∀ p, k.InUse p → (k.proc p).pid = pid → next = k.modify p change
  unknown : (∀ p, k.InUse p → (k.proc p).pid ≠ pid) → next = k

/-- `getpinfo` tells about the slot in use with the identifier, if there is one. -/
structure Tells (k : Kernel ncpu) (pid : Int) : Prop where
  success : (k.getpinfo pid).isSome = true ↔
    ∃ p, k.InUse p ∧ (k.proc p).pid = pid
  found : ∀ p, k.InUse p → (k.proc p).pid = pid →
    k.getpinfo pid = some
      { pid := pid
        runtime := (k.proc p).runTime
        numRun := (k.proc p).numRun
        currentQueue := (k.proc p).queueNo
        ticks := (k.proc p).ticks }

theorem Finds.of_live {p : Slot} {succeeds : Prop} (used : k.InUse p)
    (here : (k.proc p).pid = pid) (alone : ∀ q, (k.proc q).pid = pid → q = p)
    (success : succeeds) :
    k.Finds (k.modify p change) pid succeeds change where
  success := iff_of_true success ⟨p, used, here⟩
  found := by
    intro q _ same
    rw [alone q same]
  unknown := fun nobody => absurd here (nobody p used)

theorem Finds.of_none {succeeds : Prop} (unknown : ∀ q, (k.proc q).pid ≠ pid)
    (fails : ¬succeeds) :
    k.Finds k pid succeeds change where
  success := iff_of_false fails (fun ⟨q, _, same⟩ => unknown q same)
  found := fun q _ same => absurd same (unknown q)
  unknown := fun _ => rfl

theorem Lookup.noFreeSlotHas {found : Option Slot} (lookup : k.Lookup pid found) :
    k.NoFreeSlotHas pid ↔ ∀ p, found = some p → k.InUse p := by
  cases lookup with
  | live p used here alone =>
    refine iff_of_true ?_ ?_
    · intro q same
      rw [alone q same]
      exact used
    · rintro _ ⟨⟩
      exact used
  | free p unused here dead =>
    refine iff_of_false (fun free => unused (free p here)) (fun free => unused (free p rfl))
  | none unknown => exact iff_of_true (fun q same => absurd same (unknown q)) nofun

theorem kill_finds (pids : k.PidInv) (inv : k.PidsApart) (pid : Int) :
    k.Finds (k.kill pid).2 pid ((k.kill pid).1 = 0) killProc ↔
      k.NoFreeSlotHas pid := by
  have lookup := withPid_lookup pids inv pid
  rw [lookup.noFreeSlotHas]
  unfold kill
  generalize k.withPid pid = found at *
  cases lookup with
  | live p used here alone =>
    refine iff_of_true (.of_live used here alone rfl) ?_
    rintro _ ⟨⟩
    exact used
  | free p unused here dead =>
    refine iff_of_false ?_ (fun free => unused (free p rfl))
    intro finds
    obtain ⟨q, used, same⟩ := finds.success.mp rfl
    exact dead q used same
  | none unknown => exact iff_of_true (.of_none unknown (by nofun)) nofun

theorem getpinfo_tells (pids : k.PidInv) (inv : k.PidsApart) (pid : Int) :
    k.Tells pid ↔ k.NoFreeSlotHas pid := by
  have lookup := withPid_lookup pids inv pid
  rw [lookup.noFreeSlotHas]
  cases hit : k.withPid pid with
  | none =>
    rw [hit] at lookup
    cases lookup with
    | none unknown =>
      refine iff_of_true ⟨?_, fun q _ same => absurd same (unknown q)⟩ nofun
      unfold getpinfo
      rw [hit]
      exact iff_of_false nofun (fun ⟨q, _, same⟩ => unknown q same)
  | some p =>
    rw [hit] at lookup
    cases lookup with
    | live _ used here alone =>
      refine iff_of_true ⟨?_, ?_⟩ ?_
      · unfold getpinfo
        rw [hit]
        exact iff_of_true rfl ⟨p, used, here⟩
      · intro q _ same
        rw [alone q same]
        unfold getpinfo
        rw [hit, ← here]
        rfl
      · rintro _ ⟨⟩
        exact used
    | free _ unused here dead =>
      refine iff_of_false ?_ (fun free => unused (free p rfl))
      intro tells
      have answered : (k.getpinfo pid).isSome = true := by
        unfold getpinfo
        rw [hit]
        rfl
      obtain ⟨q, used, same⟩ := tells.success.mp answered
      exact dead q used same

/-- `set_priority` answers with the old priority, which may itself be -1. -/
theorem setPriority_finds (pids : k.PidInv) (inv : k.PidsApart)
    (free : k.NoFreeSlotHas pid) (priority : Int) :
    k.Finds (k.setPriority pid priority).2 pid
        ((k.setPriority pid priority).1 ≠ -1) (fun p => { p with priority := priority }) ↔
      ∀ p, k.InUse p → (k.proc p).pid = pid → (k.proc p).priority ≠ -1 := by
  have lookup := withPid_lookup pids inv pid
  unfold setPriority
  generalize k.withPid pid = found at *
  cases lookup with
  | live p used here alone =>
    constructor
    · intro finds q _ same
      rw [alone q same]
      exact finds.success.mpr ⟨p, used, here⟩
    · intro other
      have finds : k.Finds (k.modify p (fun q => { q with priority := priority })) pid
          ((k.proc p).priority ≠ -1) (fun q => { q with priority := priority }) :=
        .of_live used here alone (other p used here)
      exact finds
  | free p unused here dead => exact absurd (free p here) unused
  | none unknown =>
    exact iff_of_true (.of_none unknown (fun differs => differs rfl))
      (fun q _ same => absurd same (unknown q))

/-! ### Processes that are born killed -/

/-- No free slot has `killed` set. -/
def FreeUnkilled (k : Kernel ncpu) : Prop :=
  ∀ p, (k.proc p).state = .unused → (k.proc p).killed = false

/-- No `kill` finds a free slot, and no `fork` fails whose new process has been killed. -/
def BirthCondition (k : Kernel ncpu) (label : Label ncpu) : Prop :=
  (∀ c pid p, label = .kill c pid → k.withPid pid = some p → k.InUse p) ∧
    ∀ c p np, label = .forkFail c → (k.cpu c).pc = .running p →
      (k.proc p).control = .forking np false → (k.proc np).killed = false

/-- All steps but `kill` and a failing `fork` keep the free slots unkilled. -/
theorem FreeUnkilled.step {o o' : Outline ncpu} {label : Label ncpu} (placed : o.Placed)
    (free : ∀ p, (o.core p).state = .unused → (o.core p).killed = false)
    (step : o.Step label o') (unnamed : ∀ c pid, label ≠ .kill c pid)
    (succeeds : ∀ c, label ≠ .forkFail c) (p : Slot) (unused : (o'.core p).state = .unused) :
    (o'.core p).killed = false := by
  have running := placed.onCpu
  cases step with
  | calm c trap own stage woken =>
    rcases (woken p).state with kept | ⟨_, ready⟩
    · rw [(woken p).rest]
      exact free p (kept.symm.trans unused)
    · cases ready.symm.trans unused
  | exit c q labelled place mode ordinary lock passes =>
    have other : p ≠ q := by
      rintro rfl
      cases passes.gone.symm.trans unused
    rcases passes.state p other with kept | ⟨_, ready⟩
    · rw [passes.rest]
      exact free p (kept.symm.trans unused)
    · cases ready.symm.trans unused
  | kills c slot pid labelled => exact absurd labelled (unnamed c pid)
  | forkFails c q np labelled => exact absurd labelled (succeeds c)
  | acts c q core trap own kind place quiet calm record same =>
    have state : core.state = (o.core q).state := by rw [record.rest]
    subst same
    grind
  | _ =>
    rename_i same
    subst same
    grind

theorem freeUnkilled_kill (free : k.FreeUnkilled) (pid : Int) :
    (k.kill pid).2.FreeUnkilled ↔
      ∀ p, k.withPid pid = some p → k.InUse p := by
  unfold kill FreeUnkilled
  cases found : k.withPid pid with
  | none => exact iff_of_true free nofun
  | some slot =>
    simp only [modify_proc, killProc, Option.some.injEq, forall_eq', InUse]
    constructor
    · intro killed unused
      have impossible := killed slot
      simp [unused] at impossible
    · intro used p
      split
      · split
        · exact nofun
        · exact fun unused => absurd unused used
      · exact free p

theorem freeUnkilled_forkFail (free : k.FreeUnkilled) {p np : Slot} :
    ((k.setState np .unused).setControl p .syscall).FreeUnkilled ↔
      (k.proc np).killed = false := by
  have state : ∀ q, (((k.setState np .unused).setControl p .syscall).proc q).state =
      if q = np then .unused else (k.proc q).state := by
    intro q
    simp only [setControl, setState, modify_proc]
    grind
  have killed : ∀ q, (((k.setState np .unused).setControl p .syscall).proc q).killed =
      (k.proc q).killed := by
    intro q
    simp only [setControl, setState, modify_proc]
    grind
  unfold FreeUnkilled
  simp only [state, killed]
  constructor
  · intro after
    exact after np (if_pos rfl)
  · intro unkilled q unused
    split at unused
    · rename_i same
      rw [same]
      exact unkilled
    · exact free q unused

/-- A step keeps the free slots unkilled exactly if it meets the condition. -/
theorem freeUnkilled_step {label : Label ncpu} (placed : k.outline.Placed)
    (free : k.FreeUnkilled) (stepped : k.step policy label = some next) :
    next.FreeUnkilled ↔ k.BirthCondition label := by
  cases label with
  | kill c pid =>
    cases step_inversion stepped with
    | kill _ p _ place mode call =>
      rw [freeUnkilled_kill free]
      constructor
      · intro used
        refine ⟨?_, nofun⟩
        rintro _ _ q ⟨⟩ found
        exact used q found
      · intro condition q found
        exact condition.1 c pid q rfl found
  | forkFail c =>
    cases step_inversion stepped with
    | forkFail _ p np place quiet mode =>
      rw [freeUnkilled_forkFail free]
      constructor
      · intro unkilled
        refine ⟨nofun, ?_⟩
        rintro _ q new ⟨⟩ there forking
        rw [place, CpuPc.running.injEq] at there
        subst q
        rw [mode, Control.forking.injEq] at forking
        rw [← forking.1]
        exact unkilled
      · intro condition
        exact condition.2 c p np rfl place mode
  | _ =>
    refine iff_of_true ?_ ⟨nofun, nofun⟩
    exact FreeUnkilled.step placed free (outlineStep stepped) nofun nofun

/-! ### The calls in every reachable table -/

/-- `kill` and `getpinfo` treat an identifier as they should exactly if no free slot has it;
then `set_priority` does exactly if the old priority is not the answer -1.  A run keeps
`killed` cleared in the free slots, so that no process is born killed, exactly as long as no
`kill` finds a free slot and no `fork` fails whose new process has been killed. -/
theorem pid_lookups (policy : Policy) (labels : List (Label ncpu)) :
    (∀ k : Kernel ncpu, (machine policy ncpu).Reachable k → ∀ pid,
        (k.Finds (k.kill pid).2 pid ((k.kill pid).1 = 0) killProc ↔
          k.NoFreeSlotHas pid) ∧
        (k.Tells pid ↔ k.NoFreeSlotHas pid) ∧
        (k.NoFreeSlotHas pid → ∀ priority,
          (k.Finds (k.setPriority pid priority).2 pid
              ((k.setPriority pid priority).1 ≠ -1)
              (fun p => { p with priority := priority }) ↔
            ∀ p, k.InUse p → (k.proc p).pid = pid → (k.proc p).priority ≠ -1))) ∧
      ((machine policy ncpu).Always FreeUnkilled (boot ncpu) labels ↔
        (machine policy ncpu).Meets BirthCondition (boot ncpu) labels) ∧
      ∀ k : Kernel ncpu, k.FreeUnkilled → ∀ slot, k.firstUnused = some slot →
        ((k.allocproc policy).2.proc slot).killed = false := by
  refine ⟨?_, ?_, ?_⟩
  · intro k reachable pid
    have pids := reachable_pidInv reachable
    have inv := reachable_pidsApart reachable
    exact ⟨kill_finds pids inv pid, getpinfo_tells pids inv pid,
      fun free priority => setPriority_finds pids inv free priority⟩
  · apply Machine.always_iff_meets
    · intro state label next reachable stepped
      exact Machine.Reachable.step reachable stepped
    · intro state label next reachable free stepped
      exact freeUnkilled_step (reachable_placed reachable) free stepped
    · exact Machine.Reachable.start (machine policy ncpu)
    · intro p _
      rfl
  · intro k free slot found
    rcases allocproc_cases policy k with ⟨missing, _⟩ | ⟨slot', after, found', result, files⟩
    · rw [missing] at found
      cases found
    · rw [found', Option.some.injEq] at found
      subst slot'
      rw [result, (files.proc slot).killed]
      simp only [claimSlot, Function.update_self]
      exact free slot (firstUnused_state found')

set_option maxRecDepth 100000 in
/-- The first process calls `kill(0)`, which reports success although no process has
identifier 0; the child of its next `fork` is born killed. -/
theorem kill_zero_marks_free_slot :
    (¬∀ k : Kernel 1, (machine .mlfq 1).Reachable k → ∀ pid,
        k.Finds (k.kill pid).2 pid ((k.kill pid).1 = 0) killProc) ∧
      ¬∀ k next : Kernel 1, (machine .mlfq 1).Reachable k →
        k.step .mlfq (.allocproc 0) = some next →
          ∀ p, (k.proc p).state = .unused → (next.proc p).state = .embryo →
            (next.proc p).killed = false := by
  obtain ⟨k, ran, success, nobody, marked, called, unused, next, stepped, embryo, killed⟩ :
      ∃ k, (machine .mlfq 1).exec (boot 1) (startUp ++ [.syscallEnter 0]) = some k ∧
        (k.kill 0).1 = 0 ∧ (∀ p, (k.proc p).state ≠ .unused → (k.proc p).pid ≠ 0) ∧
        ∃ marked, (machine .mlfq 1).exec k [.kill 0 0] = some marked ∧
        (marked.proc 1).state = .unused ∧ ∃ next, marked.step .mlfq (.allocproc 0) = some next ∧
        (next.proc 1).state = .embryo ∧ (next.proc 1).killed = true := by
    decide +kernel
  have reachable : (machine .mlfq 1).Reachable k := ⟨_, ran⟩
  constructor
  · intro claimed
    obtain ⟨p, used, pid⟩ := (claimed k reachable 0).success.mp success
    exact nobody p used pid
  · intro claimed
    have unkilled := claimed marked next (reachable.exec called) stepped 1 unused embryo
    rw [killed] at unkilled
    cases unkilled

end Kernel

end Xv6
