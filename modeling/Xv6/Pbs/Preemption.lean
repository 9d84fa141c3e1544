/-
Priority based scheduling on one CPU: preemption.

At the end of an interrupt `trap` looks for a process of a better priority and yields to
it.  The system-call branch of `trap` returns before that test, so a call that wakes,
forks or re-prioritises a process into a better priority goes back to its caller.
-/

import Xv6.Pbs.Dispatch

namespace Xv6

open Library

namespace Kernel

/-- No RUNNABLE process has a numerically smaller priority. -/
def Unbeaten (k : Kernel 1) (p : Slot) : Prop :=
  ∀ q, (k.proc q).state = .runnable → (k.proc p).priority ≤ (k.proc q).priority

instance (k : Kernel 1) (p : Slot) : Decidable (k.Unbeaten p) :=
  inferInstanceAs (Decidable (∀ _, _))

/-- The running process is unbeaten while it executes its program or a system call, and
when it is about to leave `trap`. -/
def Settled (k : Kernel 1) : Prop :=
  ∀ p, (k.cpu 0).pc = .running p →
    (k.cpu 0).trap = .none ∨ (k.cpu 0).trap = .recheck → k.Unbeaten p

/-- A call of the process makes nobody better RUNNABLE. -/
def CallKeeps (k : Kernel 1) (p : Slot) : Label 1 → Prop
  | .wakeup _ chan => ∀ q, (k.proc q).state = .sleeping → (k.proc q).chan = chan →
      (k.proc p).priority ≤ (k.proc q).priority
  | .kill _ pid => ∀ q, k.withPid pid = some q → (k.proc q).state = .sleeping →
      (k.proc p).priority ≤ (k.proc q).priority
  | .setPriority _ pid priority => ∀ q, k.withPid pid = some q →
      (q = p → ∀ r, (k.proc r).state = .runnable →
        priority ≤ (k.proc r).priority) ∧
      ((k.proc q).state = .runnable → (k.proc p).priority ≤ priority)
  | .forkReady _ => ∀ np copied, (k.proc p).control = .forking np copied →
      (k.proc p).priority ≤ (k.proc np).priority
  | _ => True

/-- It concerns the calls that a process makes outside of interrupts. -/
def CallCondition (k : Kernel 1) (label : Label 1) : Prop :=
  ∀ p, (k.cpu 0).pc = .running p → (k.cpu 0).trap = .none → k.CallKeeps p label

/-! ### Interrupts -/

/-- Nobody who may run is better than a process that `trap` lets go on. -/
theorem stays_unbeaten {k : Kernel 1} (inv : k.PidInv) {p : Slot} {timer : Bool}
    (stays : k.wantsYield .pbs p timer = false) : k.Unbeaten p := by
  intro q ready
  by_contra beaten
  have better := not_le.mp beaten
  have issued := (inv.issued q (inUse_of_runnable ready)).1
  have named : (k.proc q).pid ≠ 0 := by omega
  have here := List.mem_finRange q
  cases timer with
  | false =>
    simp only [wantsYield, checkPremption, Bool.not_false, if_true, List.any_eq_false,
      Bool.and_eq_true, decide_eq_true_eq, not_and, not_lt] at stays
    have worse := stays q here named
    omega
  | true =>
    simp only [wantsYield, checkPremption, Bool.not_true, Bool.false_eq_true, if_false,
      List.any_eq_false, Bool.and_eq_true, decide_eq_true_eq, not_and, not_le] at stays
    have worse := stays q here named
    omega

theorem dispatch_unbeaten {k next : Kernel 1} {p : Slot}
    (stepped : k.step .pbs (.pass 0) = some next)
    (running : (next.cpu 0).pc = .running p) : next.Unbeaten p := by
  have best := pbs_dispatch_best stepped running
  obtain ⟨_, _, _, _, _, result⟩ := pbs_dispatch_origin stepped running
  intro q ready
  rw [result] at ready ⊢
  by_cases same : q = p
  · rw [same]
  · simp only [dispatch, Function.update_self, Function.update_of_ne same] at ready ⊢
    exact best.2 q ready

/-- Every way to the last test of `trap` goes through the test for a better process, or
through the scheduler. -/
theorem recheck_unbeaten {k : Kernel 1} (reachable : (machine .pbs 1).Reachable k)
    {p : Slot} (place : (k.cpu 0).pc = .running p)
    (stage : (k.cpu 0).trap = .recheck) : k.Unbeaten p := by
  let tested : Kernel 1 → Prop := fun k => ∀ p, (k.cpu 0).pc = .running p →
    (k.cpu 0).trap = .recheck → k.Unbeaten p
  have always : tested k := by
    apply reachable.invariant_above
    · intro p place
      cases place
    · intro before label next reached inv stepped p after stage
      change before.step .pbs label = some next at stepped
      have only : label.cpu = 0 := Subsingleton.elim _ _
      rcases running_origin stepped after with place | ⟨labelled, _⟩
      · have moved := trapMove stepped (p := p) (only ▸ place) (only ▸ after)
        rw [only, stage] at moved
        generalize toward : Trap.recheck = trap at moved
        cases moved with
        | tail timer staged alive =>
          have stays : before.wantsYield .pbs p timer = false := by
            by_contra wants
            rw [Bool.not_eq_false] at wants
            simp [wants] at toward
          have unbeaten := stays_unbeaten (reachable_pidInv reached) stays
          cases step_inversion stepped with
          | trapTail _ _ _ _ _ _ _ => exact unbeaten
          | trapTailIdle _ _ _ idle => exact absurd place (idle p)
        | call label kind quiet => simp [← toward] at quiet
        | _ => cases toward
      · subst label
        exact dispatch_unbeaten stepped after
  exact always p place stage

/-! ### Calls -/

/-- Calls that make nobody RUNNABLE. -/
theorem quiet_call_unbeaten {k next : Kernel 1} {label : Label 1} {p : Slot}
    (unbeaten : k.Unbeaten p)
    (stepped : TableStep .pbs k label next)
    (running : (k.proc p).state = .running)
    (kind : label.kind = .silent ∨ label.kind = .claim ∨ label.kind = .forkFail ∨
      label.kind = .wait) : next.Unbeaten p := by
  have keep : ∀ middle : Kernel 1, middle.SameTable next →
      (∀ q, (middle.proc q).state = .runnable → (k.proc q).state = .runnable ∧
        (middle.proc q).priority = (k.proc q).priority) →
      (middle.proc p).priority = (k.proc p).priority → next.Unbeaten p := by
    intro middle same fewer own q ready
    rw [(same.proc q).state] at ready
    obtain ⟨readyBefore, priority⟩ := fewer q ready
    rw [(same.proc p).priority, (same.proc q).priority, own, priority]
    exact unbeaten q readyBefore
  have modified : ∀ (slot : Slot) (change : Proc → Proc),
      (change (k.proc slot)).state ≠ .runnable →
      (change (k.proc slot)).priority = (k.proc slot).priority →
      (k.modify slot change).SameTable next → next.Unbeaten p := by
    intro slot change idle priority same
    refine keep _ same ?_ (modify_keeps k slot change Proc.priority priority p)
    intro q ready
    refine ⟨?_, modify_keeps k slot change Proc.priority priority q⟩
    by_cases here : q = slot
    · subst q
      rw [modify_proc_self] at ready
      exact absurd ready idle
    · rwa [modify_proc_of_ne _ _ _ here] at ready
  cases stepped with
  | silent _ same | full _ none same => exact keep k same (fun q ready => ⟨ready, rfl⟩) rfl
  | claim _ slot found same =>
    have claimed : (k.allocproc .pbs).2 = k.claimSlot slot := by
      simp [allocproc, found]
    rw [claimed] at same
    have different : p ≠ slot := by
      intro here
      have unused := firstUnused_state found
      rw [← here, running] at unused
      cases unused
    refine keep _ same ?_ ?_
    · intro q ready
      by_cases here : q = slot
      · subst q
        simp [claimSlot, freshProc] at ready
      · rw [claimSlot_other k here] at ready ⊢
        exact ⟨ready, rfl⟩
    · rw [claimSlot_other k different]
  | forkFail _ np embryo same =>
    exact modified np (fun q => { q with state := .unused }) (by simp) rfl same
  | reap _ child zombie same => exact modified child reapProc (by simp [reapProc]) rfl same
  | sleep _ c q place sleeping same =>
    exact modified q (fun r => { r with state := .sleeping }) (by simp) rfl same
  | wake kind' | ready kind' => simp [kind'] at kind
  | priority c q pid priority labelled | exit c q labelled | yield c q labelled | tick c labelled
  | charge c labelled | pass c back labelled => simp [labelled, Label.kind] at kind

theorem unbeaten_iff_newly {k next : Kernel 1} {p : Slot} (new : Slot → Prop)
    (unbeaten : k.Unbeaten p)
    (priority : ∀ q, (next.proc q).priority = (k.proc q).priority)
    (ready : ∀ q, (next.proc q).state = .runnable ↔ (k.proc q).state = .runnable ∨ new q) :
    next.Unbeaten p ↔
      ∀ q, new q → (k.proc p).priority ≤ (k.proc q).priority := by
  unfold Unbeaten
  simp only [priority, ready]
  constructor
  · intro after q newly
    exact after q (Or.inr newly)
  · intro newcomers q runnable
    rcases runnable with before | newly
    · exact unbeaten q before
    · exact newcomers q newly

theorem wakeup1_unbeaten {k : Kernel 1} {p : Slot} (unbeaten : k.Unbeaten p)
    (chan : Chan) :
    (k.wakeup1 chan).Unbeaten p ↔
      ∀ q, (k.proc q).state = .sleeping → (k.proc q).chan = chan →
        (k.proc p).priority ≤ (k.proc q).priority := by
  rw [unbeaten_iff_newly
    (fun q => (k.proc q).state = .sleeping ∧ (k.proc q).chan = chan) unbeaten
    (fun q => (wakeProc_woken chan (k.proc q)).priority)]
  · simp only [and_imp]
  · intro q
    change (wakeProc chan (k.proc q)).state = .runnable ↔ _
    unfold wakeProc
    split
    · rename_i woken
      exact iff_of_true rfl (Or.inr woken)
    · rename_i other
      exact (or_iff_left other).symm

theorem kill_unbeaten {k : Kernel 1} {p : Slot} (unbeaten : k.Unbeaten p)
    (pid : Int) :
    (k.kill pid).2.Unbeaten p ↔
      ∀ q, k.withPid pid = some q → (k.proc q).state = .sleeping →
        (k.proc p).priority ≤ (k.proc q).priority := by
  rw [unbeaten_iff_newly
    (fun q => k.withPid pid = some q ∧ (k.proc q).state = .sleeping) unbeaten
    (fun q => ((kill_wakes k pid).proc q).priority)]
  · simp only [and_imp]
  · intro q
    unfold kill
    split
    · rename_i slot found
      by_cases here : q = slot
      · subst q
        simp only [modify_proc_self, killProc, found, true_and]
        split
        · rename_i asleep
          exact iff_of_true rfl (Or.inr asleep)
        · rename_i awake
          exact (or_iff_left awake).symm
      · rw [modify_proc_of_ne _ _ _ here]
        refine (or_iff_left ?_).symm
        intro named
        exact here (Option.some.inj (named.1.symm.trans found))
    · rename_i absent
      refine (or_iff_left ?_).symm
      intro named
      rw [absent] at named
      cases named.1

theorem setPriority_unbeaten {k : Kernel 1} {p : Slot} (unbeaten : k.Unbeaten p)
    (running : (k.proc p).state = .running) (pid priority : Int) :
    (k.setPriority pid priority).2.Unbeaten p ↔
      ∀ q, k.withPid pid = some q →
        (q = p → ∀ r, (k.proc r).state = .runnable →
          priority ≤ (k.proc r).priority) ∧
        ((k.proc q).state = .runnable → (k.proc p).priority ≤ priority) := by
  unfold setPriority
  split
  · rename_i slot found
    simp only [found, Option.some.injEq, forall_eq']
    have state := modify_keeps k slot (fun q => { q with priority := priority })
      Proc.state rfl
    unfold Unbeaten
    simp only [state]
    by_cases own : slot = p
    · -- the caller re-prioritises itself
      subst p
      have others : ∀ q, (k.proc q).state = .runnable →
          ((k.modify slot (fun q => { q with priority := priority })).proc q).priority =
            (k.proc q).priority := by
        intro q ready
        have different : q ≠ slot := by
          intro same
          rw [same, running] at ready
          cases ready
        rw [modify_proc_of_ne _ _ _ different]
      rw [modify_proc_self]
      constructor
      · intro after
        refine ⟨fun _ r ready => ?_, fun ready => ?_⟩
        · rw [← others r ready]
          exact after r ready
        · rw [running] at ready
          cases ready
      · intro condition q ready
        rw [others q ready]
        exact condition.1 rfl q ready
    · have mine : ((k.modify slot (fun q => { q with priority := priority })).proc p).priority
          = (k.proc p).priority := by
        rw [modify_proc_of_ne _ _ _ (Ne.symm own)]
      rw [mine]
      constructor
      · intro after
        refine ⟨fun same => absurd same own, fun ready => ?_⟩
        have bound := after slot ready
        rwa [modify_proc_self] at bound
      · intro condition q ready
        by_cases here : q = slot
        · subst q
          rw [modify_proc_self]
          exact condition.2 ready
        · rw [modify_proc_of_ne _ _ _ here]
          exact unbeaten q ready
  · rename_i absent
    simp [absent, unbeaten]

theorem forkReady_unbeaten {k : Kernel 1} {p np : Slot} (unbeaten : k.Unbeaten p) :
    ((k.setState np .runnable).setControl p .syscall).Unbeaten p ↔
      (k.proc p).priority ≤ (k.proc np).priority := by
  have control := modify_keeps (k.setState np .runnable) p
    (fun q => { q with control := .syscall }) Proc.state rfl
  rw [unbeaten_iff_newly (fun q => q = np) unbeaten]
  · simp only [forall_eq]
  · intro q
    rw [setControl, modify_keeps _ p _ Proc.priority rfl q, setState,
      modify_keeps k np _ Proc.priority rfl q]
  · intro q
    rw [setControl, control, setState, modify_proc]
    split
    · rename_i here
      exact iff_of_true rfl (Or.inr here)
    · rename_i here
      exact (or_iff_left here).symm

/-! ### Every step -/

theorem settled_iff {k : Kernel 1} {p : Slot} (place : (k.cpu 0).pc = .running p)
    (quiet : (k.cpu 0).trap = .none) : k.Settled ↔ k.Unbeaten p := by
  constructor
  · intro settled
    exact settled p place (Or.inl quiet)
  · intro unbeaten q there _
    rw [place] at there
    cases there
    exact unbeaten

theorem settled_of_trap {k : Kernel 1} (left : (k.cpu 0).trap ≠ .none)
    (checked : (k.cpu 0).trap ≠ .recheck) : k.Settled := by
  intro p _ stage
  rcases stage with quiet | recheck
  · exact absurd quiet left
  · exact absurd recheck checked

theorem settled_of_idle {k : Kernel 1} (idle : ∀ p, (k.cpu 0).pc ≠ .running p) :
    k.Settled :=
  fun p place _ => absurd place (idle p)

theorem callCondition_iff {k : Kernel 1} {label : Label 1} {p : Slot}
    (place : (k.cpu 0).pc = .running p) (quiet : (k.cpu 0).trap = .none) :
    k.CallCondition label ↔ k.CallKeeps p label := by
  constructor
  · intro condition
    exact condition p place quiet
  · intro keeps q there _
    rw [place] at there
    cases there
    exact keeps

/-- A call of the running process. -/
theorem call_unbeaten {k next : Kernel 1} {label : Label 1} {p : Slot}
    (places : k.KernelInv) (unbeaten : k.Unbeaten p)
    (stepped : k.step .pbs label = some next)
    (before : (k.cpu 0).pc = .running p) (call : label.isCall = true) :
    next.Unbeaten p ↔ k.CallKeeps p label := by
  have running := places.onCpu 0 p before
  have mine : ∀ {c : Fin 1} {q : Slot}, (k.cpu c).pc = .running q → q = p := by
    intro c q place
    rw [Subsingleton.elim c 0, before] at place
    exact (CpuPc.running.inj place).symm
  have harmless := quiet_call_unbeaten unbeaten (tableStep places stepped) running
  cases step_inversion stepped with
  | wakeup c q chan place mode object free => exact wakeup1_unbeaten unbeaten chan
  | kill c q pid place mode free => exact kill_unbeaten unbeaten pid
  | setPriority c q pid priority place mode free =>
    exact setPriority_unbeaten unbeaten running pid priority
  | forkReady c q np place quiet mode free =>
    rw [mine place] at mode ⊢
    rw [forkReady_unbeaten unbeaten]
    constructor
    · intro least other copied forking
      rw [mode] at forking
      cases forking
      exact least
    · intro keeps
      exact keeps np true mode
  | syscallEnter | syscallReturn | forkretReturn | forkCopy =>
    exact iff_of_true (harmless (Or.inl rfl)) trivial
  | allocproc c q place mode free =>
    exact iff_of_true (harmless (Or.inr (Or.inl rfl))) trivial
  | forkFail c q np place quiet mode =>
    exact iff_of_true (harmless (Or.inr (Or.inr (Or.inl rfl)))) trivial
  | wait | waitx =>
    exact iff_of_true (harmless (Or.inr (Or.inr (Or.inr rfl)))) trivial
  | _ => cases call

theorem callCondition_of_not_call {k : Kernel 1} {label : Label 1}
    (other : label.isCall = false) : k.CallCondition label := by
  intro p _ _
  cases label <;> trivial

theorem settled_step {k next : Kernel 1} {label : Label 1}
    (reachable : (machine .pbs 1).Reachable k) (settled : k.Settled)
    (stepped : k.step .pbs label = some next) :
    next.Settled ↔ k.CallCondition label := by
  have only : label.cpu = 0 := Subsingleton.elim _ _
  have places := reachable_kernelInv reachable
  have arrived := reachable_step reachable stepped
  cases cpuStep stepped with
  | stays p before after moved =>
    rw [only] at before after moved
    generalize stage : (next.cpu 0).trap = trap at moved
    cases moved with
    | call label kind quiet =>
      rcases quiet with quiet | ⟨exiting, _⟩
      · have quietNext := stage.trans quiet
        rw [settled_iff after quietNext, callCondition_iff before quiet]
        exact call_unbeaten places (settled p before (Or.inl quiet)) stepped before kind
      · refine iff_of_true (settled_of_trap ?_ ?_) ?_
        · simp [stage, exiting]
        · simp [stage, exiting]
        · intro q _ quiet
          rw [exiting] at quiet
          cases quiet
    | tail timer staged alive =>
      refine iff_of_true ?_ (callCondition_of_not_call rfl)
      intro q there checked
      rw [after] at there
      cases there
      rcases checked with quiet | recheck
      · rw [stage] at quiet
        split at quiet <;> cases quiet
      · exact recheck_unbeaten arrived after recheck
    | back staged alive =>
      refine iff_of_true ?_ (callCondition_of_not_call rfl)
      have unbeaten := settled p before (Or.inr staged)
      rw [settled_iff after stage]
      cases step_inversion stepped with
      | trapReturn _ _ _ _ _ => exact unbeaten
    | _ =>
      exact iff_of_true (settled_of_trap (by simp [stage]) (by simp [stage]))
        (callCondition_of_not_call rfl)
  | leaves p before after _ state =>
    rw [only] at after
    refine iff_of_true (settled_of_idle (by simp [after])) ?_
    intro q _ _
    cases label <;> trivial
  | starts p back labelled before after resumed ready =>
    rw [only] at labelled before after
    subst label
    refine iff_of_true ?_ (callCondition_of_not_call rfl)
    intro q there _
    rw [after] at there
    cases there
    exact dispatch_unbeaten stepped after
  | idle before after _ =>
    rw [only] at before after
    exact iff_of_true (settled_of_idle (fun p => after ▸ before p))
      (fun p place => absurd place (before p))
  | enters before after | ends back labelled before after =>
    rw [only] at before after
    exact iff_of_true (settled_of_idle (by simp [after])) (fun p place => by simp [before] at place)
  | boots np before after =>
    rw [only] at before after
    refine iff_of_true (settled_of_idle ?_) (fun p place => by simp [before] at place)
    rcases after with ⟨new, after⟩ | after <;> simp [after]

/-! ### Returns to user mode -/

/-- The steps with which `trap` returns to the program of a process: the end of an
interrupt that came from user mode, and the end of a system call. -/
def ReturnsToUser (k : Kernel 1) (p : Slot) : Label 1 → Prop
  | .trapReturn _ => (k.proc p).control = .user
  | .syscallReturn _ => True
  | _ => False

theorem returnsToUser_settles {k next : Kernel 1} {label : Label 1} {p : Slot}
    (settled : k.Settled) (place : (k.cpu 0).pc = .running p)
    (returns : k.ReturnsToUser p label) (stepped : k.step .pbs label = some next) :
    next.Unbeaten p := by
  cases step_inversion stepped with
  | trapReturn c q there stage alive =>
    rw [Subsingleton.elim c 0] at stage
    exact settled p place (Or.inr stage)
  | syscallReturn c q there mode alive =>
    have quiet := inSyscall_quiet mode
    rw [Subsingleton.elim c 0] at quiet
    have unbeaten := settled p place (Or.inl quiet)
    intro r ready
    have same := SameTable.setControl k q .user
    rw [(same.proc p).priority, (same.proc r).priority]
    rw [(same.proc r).state] at ready
    exact unbeaten r ready
  | _ => exact returns.elim

/-- A run keeps its running process unbeaten, outside of interrupts and when `trap`
returns, exactly as long as no call of the process makes a better one RUNNABLE; and then
every return to user mode is to an unbeaten process.  The end of an interrupt always is. -/
theorem pbs_preemption (labels : List (Label 1)) :
    ((machine .pbs 1).Always Settled (boot 1) labels ↔
      (machine .pbs 1).Meets CallCondition (boot 1) labels) ∧
    ∀ (k next : Kernel 1) (label : Label 1) (p : Slot),
      (machine .pbs 1).exec (boot 1) labels = some k →
      (k.cpu 0).pc = .running p → k.ReturnsToUser p label →
      k.step .pbs label = some next →
      (machine .pbs 1).Meets CallCondition (boot 1) labels ∨ label = .trapReturn 0 →
      next.Unbeaten p := by
  have exactly : (machine .pbs 1).Always Settled (boot 1) labels ↔
      (machine .pbs 1).Meets CallCondition (boot 1) labels := by
    apply Machine.always_iff_meets
    · intro state label next reachable stepped
      exact Machine.Reachable.step reachable stepped
    · intro state label next reachable settled stepped
      exact settled_step reachable settled stepped
    · exact Machine.Reachable.start (machine .pbs 1)
    · exact settled_of_idle (fun p place => nomatch place)
  refine ⟨exactly, ?_⟩
  intro k next label p ran place returns stepped condition
  rcases condition with meets | interrupt
  · have settled := (exactly.mpr meets).last ran
    exact returnsToUser_settles settled place returns stepped
  · subst interrupt
    cases step_inversion stepped with
    | trapReturn _ q there stage alive => exact recheck_unbeaten ⟨labels, ran⟩ place stage

/-- The first process forks a child and gives it the better priority 10. -/
def childPreferred : List (Label 1) :=
  startUp ++ forkLabels ++ [.syscallEnter 0, .setPriority 0 2 10]

set_option maxRecDepth 100000 in
/-- `set_priority` returns to the caller while the child is RUNNABLE with priority 10. -/
theorem pbs_preemption_fails_after_set_priority :
    ¬∀ (k next : Kernel 1) (label : Label 1) (p : Slot),
      (machine .pbs 1).Reachable k → (k.cpu 0).pc = .running p →
      k.ReturnsToUser p label → k.step .pbs label = some next →
      next.Unbeaten p := by
  obtain ⟨k, ran, place, next, stepped, ready, better, own⟩ :
      ∃ k, (machine .pbs 1).exec (boot 1) childPreferred = some k ∧
        (k.cpu 0).pc = .running 0 ∧ ∃ next, k.step .pbs (.syscallReturn 0) = some next ∧
        (next.proc 1).state = .runnable ∧ (next.proc 1).priority =
        10 ∧ (next.proc 0).priority = 60 := by
    decide +kernel
  intro claimed
  have ordered := claimed k next (.syscallReturn 0) 0 ⟨_, ran⟩ place trivial stepped 1 ready
  rw [better, own] at ordered
  omega

end Kernel

end Xv6
