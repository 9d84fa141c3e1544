/-
Time slices on one CPU.

`trap` lets a process yield when `cur_time` is greater than the slice of its level, and
never at the last level.  A process that was dispatched at level q is therefore charged
one tick more than its slice before it yields, and a process at the last level is never
made to yield.
-/

import Xv6.Mlfq.LifeCycle

namespace Xv6

open Function Library

namespace Kernel

/-- The ticks that a run charges. -/
def charges {ncpu : Nat} (labels : List (Label ncpu)) : Nat :=
  labels.countP (fun label => decide (label.kind = .charge))

def onCpu (p : Slot) (k : Kernel 1) : Bool :=
  decide ((k.cpu 0).pc = .running p)

/-- A run during which the process keeps the only CPU. -/
def KeepsCpu (p : Slot) (k : Kernel 1) (labels : List (Label 1)) (final : Kernel 1) :
    Prop :=
  ((machine .mlfq 1).within (onCpu p)).exec k labels = some final

/-! ### The account of a RUNNING process -/

section Account

variable {ncpu : Nat}

variable {k : Kernel ncpu} {p : Slot}

theorem push_other {level : Nat} {slot : Slot} (different : p ≠ slot) :
    (k.push level slot).proc p = k.proc p := by
  rcases push_proc k level slot p with same | ⟨here, _⟩
  · exact same
  · exact absurd here different

theorem allocproc_other {slot : Slot} (found : k.firstUnused = some slot)
    (different : p ≠ slot) :
    (k.allocproc .mlfq).2.proc p = k.proc p := by
  simp only [allocproc, found, if_true]
  unfold pushFirstFree
  split
  · rw [push_other different]
    simp only [claimSlot, update_of_ne different]
  · simp only [claimSlot, update_of_ne different]

/-- Only a charge changes the account of a process that keeps running. -/
theorem running_curTime {next : Kernel ncpu} {label : Label ncpu} (inv : k.MlfqInv)
    (stepped : TableStep .mlfq k label next) (running : (k.proc p).state = .running)
    (still : (next.proc p).state = .running) (nopass : label.kind ≠ .pass) :
    (next.proc p).curTime =
      (k.proc p).curTime + if label.kind = .charge then 1 else 0 := by
  cases stepped with
  | silent kind same =>
    rw [(same.proc p).curTime]
    rcases kind with kind | kind <;> simp [kind]
  | wake kind woken wakes same =>
    rw [(same.proc p).curTime, (wakes.proc p).curTime]
    simp [kind]
  | priority c q pid priority labelled place result =>
    subst labelled
    have kept : ((k.setPriority pid priority).2.proc p).curTime =
        (k.proc p).curTime := by
      unfold setPriority
      split
      · rename_i slot _
        exact modify_keeps k slot (fun q => { q with priority := priority })
          Proc.curTime rfl p
      · rfl
    rw [result, kept]
    simp [Label.kind]
  | full kind none same =>
    rw [(same.proc p).curTime]
    simp [kind]
  | claim kind slot found same =>
    have different : p ≠ slot := by
      intro equal
      subst slot
      rw [firstUnused_state found] at running
      cases running
    rw [(same.proc p).curTime, allocproc_other found different]
    simp [kind]
  | forkFail kind np embryo same | ready kind np embryo same =>
    rw [(same.proc p).curTime, setState, modify_keeps k np _ Proc.curTime rfl p]
    simp [kind]
  | exit c q labelled place running' woken wakes same =>
    subst labelled
    rw [(same.proc p).curTime, modify_keeps woken q _ Proc.curTime rfl p,
      (wakes.proc p).curTime]
    simp [Label.kind]
  | reap kind child zombie same =>
    rw [(same.proc p).curTime, modify_keeps k child _ Proc.curTime rfl p]
    simp [kind]
  | sleep kind c q place running' same =>
    rw [(same.proc p).curTime, setState, modify_keeps k q _ Proc.curTime rfl p]
    rcases kind with kind | kind <;> simp [kind]
  | yield c q labelled place running' stage result =>
    subst labelled
    have different : p ≠ q := by
      intro equal
      subst q
      have ready : (next.proc p).state = .runnable := by
        rw [result, yield_mlfq_eq]
        change (((k.modify p yieldedProc).push _ p).proc p).state = .runnable
        rw [((push_accounts _ _ _).proc p).state, modify_proc_self]
        rfl
      rw [ready] at still
      cases still
    rw [result, yield_mlfq_eq]
    change (((k.modify q yieldedProc).push _ q).proc p).curTime = _
    rw [push_other different, modify_proc_of_ne _ _ _ different]
    simp [Label.kind]
  | tick c labelled same =>
    subst labelled
    rw [(same.proc p).curTime]
    simp [Label.kind]
  | charge c labelled same =>
    subst labelled
    rw [(same.proc p).curTime, (modifyTimes_spec inv.rings inv.low).2.2, chargedProc,
      if_pos running]
    simp [chargeRunning, Label.kind]
  | pass c back labelled place result =>
    subst labelled
    exact absurd rfl nopass

end Account

/-! ### One slice -/

/-- How many ticks may have been charged at each stage of `trap`. -/
def WithinSlice (q n : Nat) : Trap → Prop
  | .charged => n ≤ 2 ^ q + 1
  | .tail _ => n ≤ 2 ^ q + 1
  | .exiting => n ≤ 2 ^ q + 1
  | .yielding => n = 2 ^ q + 1
  | _ => n ≤ 2 ^ q

/-- A slice at level `q` of which `n` ticks are charged. -/
structure Slice (k : Kernel 1) (p : Slot) (q n : Nat) : Prop where
  place : (k.cpu 0).pc = .running p
  level : (k.proc p).queueNo = q
  charged : (k.proc p).curTime = n
  within : q ≠ 4 → WithinSlice q n (k.cpu 0).trap
  yields : (k.cpu 0).trap = .yielding → q ≠ 4

variable {q n : Nat} {k next final : Kernel 1} {p : Slot} {label : Label 1}

theorem WithinSlice.le {trap : Trap} (within : WithinSlice q n trap) :
    n ≤ 2 ^ q + 1 := by
  cases trap with
  | yielding => exact le_of_eq within
  | charged => exact within
  | tail timer => exact within
  | exiting => exact within
  | none | ticked | device | recheck => exact Nat.le_succ_of_le within

/-- One step of the process that keeps the CPU. -/
theorem Slice.step (slice : k.Slice p q n) (reachable : (machine .mlfq 1).Reachable k)
    (stepped : k.step .mlfq label = some next) (after : (next.cpu 0).pc = .running p) :
    next.Slice p q (n + if label.kind = .charge then 1 else 0) := by
  have only : label.cpu = 0 := Subsingleton.elim _ _
  have places := reachable_kernelInv reachable
  obtain ⟨inv, _⟩ := reachable_mlfqInv reachable
  have moved := trapMove stepped (p := p) (only ▸ slice.place) (only ▸ after)
  rw [only] at moved
  have table := tableStep places stepped
  have running := places.onCpu 0 p slice.place
  have still := (reachable_kernelInv (reachable.step stepped)).onCpu 0 p after
  obtain ⟨nopass, noyield⟩ := moved.keeps
  have level := running_queueNo inv table running (fun c same => absurd (congrArg Label.kind same) noyield)
  have account := running_curTime inv table running still nopass
  have limit : ticksQ q = ((2 ^ q : Nat) : Int) := by simp [ticksQ]
  refine ⟨after, level.trans slice.level, ?_, ?_, ?_⟩
  · rw [account, slice.charged]
    split
    · simp
    · simp
  · intro last
    have before := slice.within last
    generalize (next.cpu 0).trap = trap at moved
    cases moved with
    | tick stage | charge stage | wakeup stage | device stage | deviceWakeup address stage =>
      simpa [WithinSlice, stage, Label.kind] using before
    | other stage | deviceDone stage | fault stage =>
      rw [stage] at before
      exact Nat.le_succ_of_le before
    | tail timer stage alive =>
      rw [stage] at before
      change n ≤ 2 ^ q + 1 at before
      simp only [Label.kind, reduceCtorEq, if_false, Nat.add_zero]
      -- the decision: one tick more than the slice, or still inside it
      split
      · rename_i wants
        simp only [wantsYield, slice.level, slice.charged, limit, Bool.and_eq_true,
          decide_eq_true_eq, Nat.cast_lt] at wants
        change n = 2 ^ q + 1
        omega
      · rename_i stays
        simp only [wantsYield, slice.level, slice.charged, limit, Bool.and_eq_true,
          decide_eq_true_eq, Nat.cast_lt, not_and] at stays
        have bounded := stays last
        change n ≤ 2 ^ q
        omega
    | back stage alive => simpa [WithinSlice, stage, Label.kind] using before
    | exit killed stage => simpa [WithinSlice, Label.kind] using before.le
    | call label kind stage =>
      have uncharged : label.kind ≠ .charge := by
        cases label <;> simp [Label.isCall, Label.kind] at kind ⊢
      rwa [if_neg uncharged, Nat.add_zero]
  · intro yielding
    rw [yielding] at moved
    generalize toward : Trap.yielding = trap at moved
    cases moved with
    | tail timer stage alive =>
      split at toward
      · rename_i wants
        simp only [wantsYield, slice.level, Bool.and_eq_true, decide_eq_true_eq] at wants
        exact wants.1
      · cases toward
    | call label kind stage => exact slice.yields toward.symm
    | _ => cases toward

theorem keepsCpu_nil (p : Slot) (k : Kernel 1) : KeepsCpu p k [] k := rfl

theorem keepsCpu_cons {rest : List (Label 1)} :
    KeepsCpu p k (label :: rest) final ↔
      ∃ next, k.step .mlfq label = some next ∧ (next.cpu 0).pc = .running p ∧
        KeepsCpu p next rest final := by
  unfold KeepsCpu
  rw [Machine.exec_cons]
  constructor
  · intro ran
    obtain ⟨next, stepped, remaining⟩ := ran
    obtain ⟨taken, inside⟩ := Machine.within_step.mp stepped
    exact ⟨next, taken, of_decide_eq_true inside, remaining⟩
  · intro ran
    obtain ⟨next, taken, inside, remaining⟩ := ran
    exact ⟨next, Machine.within_step.mpr ⟨taken, decide_eq_true inside⟩, remaining⟩

theorem keepsCpu_append {middle : Kernel 1} {first second : List (Label 1)}
    (before : KeepsCpu p k first middle) (after : KeepsCpu p middle second final) :
    KeepsCpu p k (first ++ second) final :=
  (Machine.exec_append _ _ _ _ _).mpr ⟨middle, before, after⟩

theorem charges_cons {ncpu : Nat} (label : Label ncpu) (rest : List (Label ncpu)) :
    charges (label :: rest) = (if label.kind = .charge then 1 else 0) + charges rest := by
  unfold charges
  rw [List.countP_cons, Nat.add_comm]
  simp only [decide_eq_true_eq]

theorem charges_append {ncpu : Nat} (first second : List (Label ncpu)) :
    charges (first ++ second) = charges first + charges second :=
  List.countP_append

theorem Slice.run {labels : List (Label 1)} (slice : k.Slice p q n)
    (reachable : (machine .mlfq 1).Reachable k) (ran : KeepsCpu p k labels final) :
    final.Slice p q (n + charges labels) ∧ (machine .mlfq 1).Reachable final := by
  induction labels generalizing k n with
  | nil =>
    cases ran
    exact ⟨slice, reachable⟩
  | cons label rest ih =>
    obtain ⟨next, stepped, after, remaining⟩ := keepsCpu_cons.mp ran
    have result := ih (slice.step reachable stepped after)
      (reachable_step reachable stepped) remaining
    rwa [Nat.add_assoc, ← charges_cons] at result

/-- A dispatch starts a slice with nothing charged, at a place where the process gave
up the CPU before. -/
theorem dispatch_slice (reachable : (machine .mlfq 1).Reachable k)
    (stepped : k.step .mlfq (.pass 0) = some next) (running : (next.cpu 0).pc = .running p) :
    next.Slice p (next.proc p).queueNo 0 ∧
      ((next.cpu 0).trap = .none ∨ (next.cpu 0).trap = .recheck ∨
        (next.cpu 0).trap = .exiting) ∧
      ((next.proc p).control = .user →
        (next.cpu 0).trap = .recheck ∨ (next.cpu 0).trap = .exiting) := by
  obtain ⟨inv, _⟩ := reachable_mlfqInv reachable
  have record := (reachable_trapInv reachable).records p
  obtain ⟨ahead, behind, position, ready, _, procOf, stage⟩ :=
    dispatch_first_waiting inv stepped running
  have here : next.proc p = dispatchedProc (k.proc p) := by
    rw [procOf, update_self]
  have places := record.places
  rw [← stage] at places
  refine ⟨⟨running, rfl, ?_, ?_, ?_⟩, places, ?_⟩
  · rw [here]
    exact inv.fresh p (mem_waiting.mp (by simp [position]))
  · intro _
    rcases places with place | place | place <;> simp [place, WithinSlice]
  · intro yielding
    simp [yielding] at places
  · intro user
    rw [here] at user
    rw [stage]
    exact record.user (Or.inr ready) user

/-! ### A killed process in user mode -/

/-- The process can only go on to `exit`. -/
def Doomed (k : Kernel 1) (p : Slot) : Prop :=
  (k.cpu 0).pc = .running p ∧
    ((k.cpu 0).trap = .exiting ∨
      ((k.cpu 0).trap = .recheck ∧ k.mustExit p = true))

theorem Doomed.step (doomed : k.Doomed p) (stepped : k.step .mlfq label = some next)
    (after : (next.cpu 0).pc = .running p) : next.Doomed p ∧ label.kind ≠ .charge := by
  have only : label.cpu = 0 := Subsingleton.elim _ _
  obtain ⟨place, stages⟩ := doomed
  have moved := trapMove stepped (p := p) (only ▸ place) (only ▸ after)
  rw [only] at moved
  have leaves : (next.cpu 0).trap = .exiting ∧ label.kind ≠ .charge := by
    generalize (next.cpu 0).trap = trap at moved
    cases moved with
    | exit killed stage => exact ⟨rfl, nofun⟩
    | back stage alive =>
      rcases stages with exiting | ⟨_, killed⟩
      · rw [stage] at exiting
        cases exiting
      · rcases alive with policy | alive
        · cases policy
        · rw [killed] at alive
          cases alive
    | call label kind stage =>
      rcases stage with quiet | ⟨exiting, wake⟩
      · simp [quiet] at stages
      · refine ⟨exiting, ?_⟩
        rw [wake]
        decide
    | tick stage | charge stage | wakeup stage | other stage | device stage
    | deviceWakeup address stage | deviceDone stage | fault stage | tail timer stage =>
      simp [stage] at stages
  exact ⟨⟨after, Or.inl leaves.1⟩, leaves.2⟩

theorem Doomed.uncharged {labels : List (Label 1)} (doomed : k.Doomed p)
    (ran : KeepsCpu p k labels final) :
    charges labels = 0 := by
  induction labels generalizing k with
  | nil => rfl
  | cons label rest ih =>
    obtain ⟨next, stepped, after, remaining⟩ := keepsCpu_cons.mp ran
    obtain ⟨still, free⟩ := doomed.step stepped after
    rw [charges_cons, if_neg free, ih still remaining]

/-! ### A process that computes on -/

/-- The process executes its program, or a system call, with nothing to stop it. -/
structure Poised (k : Kernel 1) (p : Slot) (q n : Nat) : Prop where
  reachable : (machine .mlfq 1).Reachable k
  slice : k.Slice p q n
  quiet : (k.cpu 0).trap = .none
  alive : k.mustExit p = false

theorem unlocked (inv : k.KernelInv) (place : (k.cpu 0).pc = .running p) :
    k.lock = none := by
  cases held : k.lock with
  | none => rfl
  | some c =>
    obtain ⟨back, passing⟩ := inv.locked c held
    rw [Subsingleton.elim c 0, place] at passing
    cases passing

/-- A timer interrupt up to the end of `modify_times`. -/
theorem Poised.charge (poised : k.Poised p q n) :
    ∃ middle, KeepsCpu p k [.timerTick 0, .timerCharge 0] middle ∧
      (middle.cpu 0).trap = .charged ∧ middle.mustExit p = false := by
  have place := poised.slice.place
  have free := unlocked (reachable_kernelInv poised.reachable) place
  let ticked : Kernel 1 := { k.setTrap 0 .ticked with ticks := k.ticks + 1 }
  have accounts := modifyTimes_accounts .mlfq ticked
  have first : k.step .mlfq (.timerTick 0) = some ticked := by
    simp [step, stepIf, interruptible, poised.quiet, place, ticked]
  have stage : (ticked.cpu 0).trap = .ticked := by
    simp [ticked, setTrap]
  have still : (ticked.cpu 0).pc = .running p := by
    simp [ticked, place]
  have second : ticked.step .mlfq (.timerCharge 0) =
      some ((ticked.modifyTimes .mlfq).setTrap 0 .charged) := by
    have unheld : ticked.lock = none := free
    simp [step, stepIf, stage, unheld]
  have after : (((ticked.modifyTimes .mlfq).setTrap 0 .charged).cpu 0).pc = .running p := by
    rw [setTrap_pc, accounts.cpu, still]
  refine ⟨_, keepsCpu_cons.mpr ⟨ticked, first, still,
    keepsCpu_cons.mpr ⟨_, second, after, keepsCpu_nil p _⟩⟩, ?_, ?_⟩
  · rw [setTrap_trap, if_pos rfl]
  · rw [← poised.alive, mustExit, setTrap_proc, (accounts.proc p).killed,
      (accounts.proc p).control]
    rfl

/-- The rest of the interrupt, for a process that need not yield. -/
theorem slice_resume (slice : k.Slice p q n) (reachable : (machine .mlfq 1).Reachable k)
    (stage : (k.cpu 0).trap = .charged) (alive : k.mustExit p = false)
    (inside : q = 4 ∨ n ≤ 2 ^ q) :
    ∃ next, KeepsCpu p k [.timerWakeup 0, .trapTail 0, .trapReturn 0] next ∧
      (next.cpu 0).trap = .none ∧ next.mustExit p = false := by
  have places := reachable_kernelInv reachable
  have free := unlocked places slice.place
  let woken : Kernel 1 := (k.wakeup1 .ticks).setTrap 0 (.tail true)
  have unmoved : woken.proc p = k.proc p := by
    change wakeProc .ticks (k.proc p) = k.proc p
    rw [wakeProc, if_neg]
    rw [places.onCpu 0 p slice.place]
    rintro ⟨asleep, _⟩
    cases asleep
  have first : k.step .mlfq (.timerWakeup 0) = some woken := by
    simp [step, stepIf, stage, free, woken]
  have place : (woken.cpu 0).pc = .running p := by
    simp only [woken, setTrap_pc]
    exact slice.place
  have trap : (woken.cpu 0).trap = .tail true := by
    simp [woken, setTrap_trap]
  have living : woken.mustExit p = false := by
    rw [← alive, mustExit, unmoved]
    rfl
  have stays : woken.wantsYield .mlfq p true = false := by
    simp only [wantsYield, unmoved, slice.level, slice.charged, ticksQ]
    rcases inside with last | bounded
    · simp [last]
    · have least : ((n : Nat) : Int) ≤ 2 ^ q := by exact_mod_cast bounded
      simp [least]
  have second : woken.step .mlfq (.trapTail 0) = some (woken.setTrap 0 .recheck) := by
    simp [step, trap, trapTail, place, living, stays, stepIf]
  have third : (woken.setTrap 0 .recheck).step .mlfq (.trapReturn 0) =
      some ((woken.setTrap 0 .recheck).setTrap 0 .none) := by
    have alive' : (woken.setTrap 0 .recheck).mustExit p = false := living
    simp [step, stepProc, place, stepIf, setTrap_trap, alive']
  refine ⟨_, keepsCpu_cons.mpr ⟨woken, first, place, keepsCpu_cons.mpr ⟨_, second, ?_,
    keepsCpu_cons.mpr ⟨_, third, ?_, keepsCpu_nil p _⟩⟩⟩, ?_, living⟩
  · rw [setTrap_pc, place]
  · rw [setTrap_pc, setTrap_pc, place]
  · rw [setTrap_trap, if_pos rfl]

theorem Poised.round (poised : k.Poised p q n) (inside : q = 4 ∨ n + 1 ≤ 2 ^ q) :
    ∃ labels next, KeepsCpu p k labels next ∧ charges labels = 1 ∧
      next.Poised p q (n + 1) := by
  obtain ⟨middle, charged, stage, living⟩ := poised.charge
  obtain ⟨slice, reachable⟩ := poised.slice.run poised.reachable charged
  obtain ⟨next, resumed, quiet, alive⟩ := slice_resume slice reachable stage living inside
  obtain ⟨sliceNext, reachableNext⟩ := slice.run reachable resumed
  exact ⟨_, next, keepsCpu_append charged resumed, rfl, reachableNext, sliceNext, quiet, alive⟩

theorem Poised.rounds (poised : k.Poised p q 0) (n : Nat) (inside : q = 4 ∨ n ≤ 2 ^ q) :
    ∃ labels next, KeepsCpu p k labels next ∧ charges labels = n ∧
      next.Poised p q n := by
  induction n with
  | zero => exact ⟨[], k, rfl, rfl, poised⟩
  | succ n ih =>
    obtain ⟨labels, middle, ran, counted, still⟩ :=
      ih (inside.imp_right Nat.le_of_succ_le)
    obtain ⟨more, next, continued, one, after⟩ := still.round inside
    refine ⟨labels ++ more, next, keepsCpu_append ran continued, ?_, after⟩
    rw [charges_append, counted, one]

theorem Poised.overruns (poised : k.Poised p q 0) :
    ∃ labels next, KeepsCpu p k labels next ∧ charges labels = 2 ^ q + 1 := by
  obtain ⟨labels, middle, ran, counted, still⟩ := poised.rounds (2 ^ q) (Or.inr le_rfl)
  obtain ⟨next, charged, _⟩ := still.charge
  refine ⟨_, next, keepsCpu_append ran charged, ?_⟩
  rw [charges_append, counted]
  rfl

/-! ### From one dispatch to the next -/

/-- A dispatched process that need not exit executes its program at once, or after the
rest of the interrupt in which it gave up the CPU. -/
theorem dispatch_poised (reachable : (machine .mlfq 1).Reachable k)
    (stepped : k.step .mlfq (.pass 0) = some next) (running : (next.cpu 0).pc = .running p)
    (alive : next.mustExit p = false) :
    ∃ labels final, KeepsCpu p next labels final ∧ charges labels = 0 ∧
      final.Poised p (next.proc p).queueNo 0 := by
  obtain ⟨slice, places, _⟩ := dispatch_slice reachable stepped running
  have arrived := reachable_step reachable stepped
  rcases places with quiet | recheck | exiting
  · exact ⟨[], next, keepsCpu_nil p next, rfl, arrived, slice, quiet, alive⟩
  · have returned : next.step .mlfq (.trapReturn 0) = some (next.setTrap 0 .none) := by
      simp [step, stepProc, running, stepIf, recheck, alive]
    have place : ((next.setTrap 0 .none).cpu 0).pc = .running p := by
      rw [setTrap_pc, running]
    have ran : KeepsCpu p next [.trapReturn 0] (next.setTrap 0 .none) :=
      keepsCpu_cons.mpr ⟨_, returned, place, keepsCpu_nil p _⟩
    obtain ⟨sliceAfter, reachableAfter⟩ := slice.run arrived ran
    refine ⟨_, _, ran, rfl, reachableAfter, sliceAfter, ?_, alive⟩
    rw [setTrap_trap, if_pos rfl]
  · obtain ⟨killed, user⟩ := (reachable_trapInv arrived).exiting 0 p running exiting
    simp [mustExit, killed, user] at alive

/-- A process that a pass dispatches at level q stays within the slice of q exactly when
it has been killed and will return to user mode, and then it is not charged at all.  Any
other process can be charged one tick more, and at level 4 any number of ticks.  A yield
comes exactly one tick after the slice, never at level 4, and moves the process to the
tail of the next queue. -/
theorem mlfq_time_slice {k next : Kernel 1} {p : Slot}
    (reachable : (machine .mlfq 1).Reachable k)
    (stepped : k.step .mlfq (.pass 0) = some next)
    (running : (next.cpu 0).pc = .running p) :
    ((∀ labels final, KeepsCpu p next labels final →
        (charges labels : Int) ≤ ticksQ (next.proc p).queueNo) ↔
      (next.proc p).killed = true ∧ (next.proc p).control = .user) ∧
    ((next.proc p).queueNo ≠ 4 → ∀ labels final, KeepsCpu p next labels final →
      (charges labels : Int) ≤ ticksQ (next.proc p).queueNo + 1) ∧
    ((next.proc p).queueNo = 4 → next.mustExit p = false → ∀ n,
      ∃ labels final, KeepsCpu p next labels final ∧ charges labels = n) ∧
    ∀ labels middle final, KeepsCpu p next labels middle →
      middle.step .mlfq (.yield 0) = some final →
      (charges labels : Int) = ticksQ (next.proc p).queueNo + 1 ∧
        (next.proc p).queueNo ≠ 4 ∧
        (final.proc p).queueNo = (next.proc p).queueNo + 1 ∧
        final.queues = update middle.queues ((next.proc p).queueNo + 1)
          (middle.queues ((next.proc p).queueNo + 1) ++ [p]) := by
  obtain ⟨slice, places, inUser⟩ := dispatch_slice reachable stepped running
  have arrived := reachable_step reachable stepped
  have limit : ticksQ (next.proc p).queueNo = ((2 ^ (next.proc p).queueNo : Nat) : Int) := by
    simp [ticksQ]
  generalize (next.proc p).queueNo = q at slice limit ⊢
  rw [limit]
  refine ⟨⟨?_, ?_⟩, ?_, ?_, ?_⟩
  · intro bounded
    by_contra living
    have alive : next.mustExit p = false := by
      simpa [mustExit] using living
    obtain ⟨labels, middle, ran, none, poised⟩ :=
      dispatch_poised reachable stepped running alive
    rw [slice.level] at poised
    obtain ⟨more, final, continued, counted⟩ := poised.overruns
    have most := bounded _ final (keepsCpu_append ran continued)
    rw [charges_append, none, counted] at most
    omega
  · intro doomed labels final ran
    have stuck : next.Doomed p := by
      refine ⟨running, ?_⟩
      rcases inUser doomed.2 with recheck | exiting
      · exact Or.inr ⟨recheck, by simp [mustExit, doomed]⟩
      · exact Or.inl exiting
    rw [stuck.uncharged ran]
    positivity
  · intro last labels final ran
    have within := ((slice.run arrived ran).1.within last).le
    omega
  · intro last alive n
    obtain ⟨labels, middle, ran, none, poised⟩ :=
      dispatch_poised reachable stepped running alive
    rw [slice.level] at poised
    obtain ⟨more, final, continued, counted, _⟩ := poised.rounds n (Or.inl last)
    refine ⟨_, final, keepsCpu_append ran continued, ?_⟩
    rw [charges_append, none, counted, Nat.zero_add]
  · intro labels middle final ran yielded
    obtain ⟨sliceThen, reachableThen⟩ := slice.run arrived ran
    cases step_inversion yielded with
    | yield _ r place stage free =>
      have same : p = r := by
        rw [sliceThen.place] at place
        exact CpuPc.running.inj place
      subst r
      have last := sliceThen.yields stage
      have within := sliceThen.within last
      rw [stage] at within
      change 0 + charges labels = 2 ^ q + 1 at within
      have notLast : (middle.proc p).queueNo ≠ 4 := by
        rw [sliceThen.level]
        exact last
      have runningThen := (reachable_kernelInv reachableThen).onCpu 0 p place
      obtain ⟨_, procOf, queuesOf⟩ :=
        yield_mlfq_spec (c := 0) (reachable_mlfqInv reachableThen).1 runningThen notLast
      refine ⟨by omega, last, ?_, ?_⟩
      · rw [procOf, update_self, ← sliceThen.level]
        rfl
      · rw [queuesOf, sliceThen.level]

/-- The labels of the first process from its first dispatch to the moment at which it is
about to yield. -/
def firstSlice : List (Label 1) :=
  .forkretReturn 0 :: twoTicks

set_option maxRecDepth 100000 in
/-- The first process is charged two ticks at level 0, whose slice is one tick. -/
theorem time_slice_overrun_at_level_zero :
    ¬∀ (k next : Kernel 1) (p : Slot), (machine .mlfq 1).Reachable k →
      k.step .mlfq (.pass 0) = some next → (next.cpu 0).pc = .running p →
      ∀ labels final, KeepsCpu p next labels final →
        (charges labels : Int) ≤ ticksQ (next.proc p).queueNo := by
  obtain ⟨k, ran, next, stepped, running, level, goesOn⟩ :
      ∃ k, (machine .mlfq 1).exec (boot 1) [.userinitAlloc 0, .userinitReady 0,
        .enter 0] = some k ∧ ∃ next, k.step .mlfq (.pass 0) = some next ∧
        (next.cpu 0).pc = .running 0 ∧ (next.proc 0).queueNo = 0 ∧
        (((machine .mlfq 1).within (onCpu 0)).exec next firstSlice).isSome = true := by
    decide +kernel
  obtain ⟨final, kept⟩ := Option.isSome_iff_exists.mp goesOn
  intro claimed
  have bounded := claimed k next 0 ⟨_, ran⟩ stepped running firstSlice final kept
  rw [level] at bounded
  exact absurd bounded (by decide)

set_option maxRecDepth 100000 in
/-- The same process then yields, and is the last one in queue 1. -/
theorem mlfq_time_slice_first_yield :
    ∃ k next middle final, (machine .mlfq 1).Reachable k ∧
      k.step .mlfq (.pass 0) = some next ∧ (next.cpu 0).pc = .running 0 ∧
      KeepsCpu 0 next firstSlice middle ∧ middle.step .mlfq (.yield 0) = some final ∧
      (charges firstSlice : Int) = ticksQ (next.proc 0).queueNo + 1 ∧
      final.queues = update middle.queues ((next.proc 0).queueNo + 1)
        (middle.queues ((next.proc 0).queueNo + 1) ++ [0]) := by
  obtain ⟨k, ran, next, stepped, running, middle, kept, yields⟩ :
      ∃ k, (machine .mlfq 1).exec (boot 1) [.userinitAlloc 0, .userinitReady 0,
        .enter 0] = some k ∧ ∃ next, k.step .mlfq (.pass 0) = some next ∧
        (next.cpu 0).pc = .running 0 ∧
        ∃ middle, ((machine .mlfq 1).within (onCpu 0)).exec next firstSlice = some middle ∧
        (middle.step .mlfq (.yield 0)).isSome = true := by
    decide +kernel
  obtain ⟨final, yielded⟩ := Option.isSome_iff_exists.mp yields
  obtain ⟨_, _, _, atYield⟩ := mlfq_time_slice ⟨_, ran⟩ stepped running
  obtain ⟨counted, _, _, tail⟩ := atYield firstSlice middle final kept yielded
  exact ⟨k, next, middle, final, ⟨_, ran⟩, stepped, running, kept, yielded, counted, tail⟩

end Kernel

end Xv6
