/-
What the operations leave alone.

Two relations between kernels cover most of them.  `Wakes` is what `wakeup1`, `kill`
and the search for children in `exit` may do: sleeping processes become RUNNABLE.
`Accounts` is what the clock and the rings may do: times, levels and rings change,
but no process changes its state or its place in the kernel.
-/

import Xv6.Process.Inversion

namespace Xv6

open Function

/-! ### Waking -/

structure Proc.Woken (p q : Proc) : Prop where
  state : q.state = p.state ∨ (p.state = .sleeping ∧ q.state = .runnable)
  killed : p.killed = true → q.killed = true
  pid : q.pid = p.pid
  startTime : q.startTime = p.startTime
  endTime : q.endTime = p.endTime
  runTime : q.runTime = p.runTime
  waitTime : q.waitTime = p.waitTime
  priority : q.priority = p.priority
  curTime : q.curTime = p.curTime
  queueNo : q.queueNo = p.queueNo
  chan : q.chan = p.chan
  control : q.control = p.control
  resume : q.resume = p.resume

theorem Proc.Woken.refl (p : Proc) : p.Woken p :=
  ⟨Or.inl rfl, id, rfl, rfl, rfl, rfl, rfl, rfl, rfl, rfl, rfl, rfl, rfl⟩

theorem Proc.Woken.trans {p q r : Proc} (first : p.Woken q) (second : q.Woken r) :
    p.Woken r where
  state := by
    rcases first.state with same | ⟨slept, ready⟩
    · rcases second.state with same' | ⟨slept', ready'⟩
      · exact Or.inl (same'.trans same)
      · exact Or.inr ⟨same ▸ slept', ready'⟩
    · rcases second.state with same' | ⟨slept', _⟩
      · exact Or.inr ⟨slept, same'.trans ready⟩
      · rw [ready] at slept'
        cases slept'
  killed := second.killed ∘ first.killed
  pid := second.pid.trans first.pid
  startTime := second.startTime.trans first.startTime
  endTime := second.endTime.trans first.endTime
  runTime := second.runTime.trans first.runTime
  waitTime := second.waitTime.trans first.waitTime
  priority := second.priority.trans first.priority
  curTime := second.curTime.trans first.curTime
  queueNo := second.queueNo.trans first.queueNo
  chan := second.chan.trans first.chan
  control := second.control.trans first.control
  resume := second.resume.trans first.resume

theorem Proc.Woken.keeps {p q : Proc} (woken : p.Woken q) (awake : p.state ≠ .sleeping) :
    q.state = p.state := by
  rcases woken.state with same | ⟨slept, _⟩
  · exact same
  · exact absurd slept awake

namespace Kernel

variable {ncpu : Nat}

theorem foldl_relates {relation : Kernel ncpu → Kernel ncpu → Prop}
    (refl : ∀ k, relation k k)
    (trans : ∀ first second third, relation first second → relation second third →
      relation first third)
    {round : Kernel ncpu → Slot → Kernel ncpu}
    (relates : ∀ k slot, relation k (round k slot))
    (visited : List Slot) (k : Kernel ncpu) :
    relation k (visited.foldl round k) := by
  induction visited generalizing k with
  | nil => exact refl k
  | cons slot rest ih => exact trans _ _ _ (relates k slot) (ih _)

/-- A field of the records that two kernels share. -/
def Keeps {Value : Type} (field : Proc → Value) (k next : Kernel ncpu) : Prop :=
  ∀ slot, field (next.proc slot) = field (k.proc slot)

section Fields

variable {Value : Type} {field : Proc → Value}

theorem Keeps.refl (k : Kernel ncpu) : Keeps field k k := fun _ => rfl

theorem Keeps.of_proc_eq {k next : Kernel ncpu} (same : next.proc = k.proc) :
    Keeps field k next := by
  intro slot
  rw [same]

theorem Keeps.trans {first second third : Kernel ncpu} (before : Keeps field first second)
    (after : Keeps field second third) : Keeps field first third :=
  fun slot => (after slot).trans (before slot)

theorem push_keeps (blind : ∀ (p : Proc) curTime, field { p with curTime := curTime } = field p)
    (k : Kernel ncpu) (queueNo : Nat) (cur : Slot) :
    Keeps field k (k.push queueNo cur) := by
  intro other
  rcases push_proc k queueNo cur other with same | ⟨here, cleared⟩
  · rw [same]
  · rw [cleared, here]
    exact blind _ 0

theorem wakeup1_keeps (blind : ∀ (p : Proc) state, field { p with state := state } = field p)
    (k : Kernel ncpu) (chan : Chan) : Keeps field k (k.wakeup1 chan) := by
  intro slot
  change field (wakeProc chan (k.proc slot)) = _
  unfold wakeProc
  split
  · exact blind _ _
  · rfl

theorem exit_keeps
    (blind : ∀ (p : Proc) state parent endTime,
      field { p with state := state, parent := parent, endTime := endTime } = field p)
    (k : Kernel ncpu) (c : Fin ncpu) (curproc : Slot) :
    Keeps field k (k.exit c curproc) := by
  have woken : ∀ (k : Kernel ncpu) chan, Keeps field k (k.wakeup1 chan) :=
    wakeup1_keeps (fun p state => blind p state p.parent p.endTime)
  have passes : ∀ (k : Kernel ncpu) pq, Keeps field k (passToInit curproc k pq) := by
    intro k pq
    have moved : Keeps field k
        (k.modify pq (fun p => { p with parent := k.initproc })) :=
      modify_keeps k pq _ field (blind _ _ _ _)
    unfold passToInit
    split
    · simp only
      split
      · exact moved.trans (woken _ _)
      · exact moved
    · exact Keeps.refl k
  have passed := (woken k (chanOf (k.proc curproc).parent)).trans
    (foldl_relates Keeps.refl (fun _ _ _ => Keeps.trans) passes slots _)
  unfold exit
  dsimp only
  generalize slots.foldl (passToInit curproc) _ = after at passed ⊢
  exact passed.trans (modify_keeps after curproc
    (fun p => { p with endTime := int32 after.ticks, state := .zombie }) field (blind _ _ _ _))

end Fields

structure Wakes (k next : Kernel ncpu) : Prop where
  proc : ∀ slot, (k.proc slot).Woken (next.proc slot)
  rings : next.rings = k.rings
  faults : next.faults = k.faults
  ticks : next.ticks = k.ticks
  nextpid : next.nextpid = k.nextpid
  initproc : next.initproc = k.initproc
  lock : next.lock = k.lock
  cpu : next.cpu = k.cpu

theorem Wakes.refl (k : Kernel ncpu) : k.Wakes k :=
  ⟨fun _ => Proc.Woken.refl _, rfl, rfl, rfl, rfl, rfl, rfl, rfl⟩

theorem Wakes.trans {first second third : Kernel ncpu} (before : first.Wakes second)
    (after : second.Wakes third) : first.Wakes third where
  proc := fun slot => (before.proc slot).trans (after.proc slot)
  rings := after.rings.trans before.rings
  faults := after.faults.trans before.faults
  ticks := after.ticks.trans before.ticks
  nextpid := after.nextpid.trans before.nextpid
  initproc := after.initproc.trans before.initproc
  lock := after.lock.trans before.lock
  cpu := after.cpu.trans before.cpu

theorem wakeProc_woken (chan : Chan) (p : Proc) : p.Woken (wakeProc chan p) := by
  unfold wakeProc
  split
  · rename_i matching
    exact ⟨Or.inr ⟨matching.1, rfl⟩, id, rfl, rfl, rfl, rfl, rfl, rfl, rfl, rfl, rfl, rfl, rfl⟩
  · exact Proc.Woken.refl p

theorem wakeup1_wakes (k : Kernel ncpu) (chan : Chan) :
    k.Wakes (k.wakeup1 chan) :=
  ⟨fun slot => wakeProc_woken chan (k.proc slot), rfl, rfl, rfl, rfl, rfl, rfl, rfl⟩

theorem modify_wakes (k : Kernel ncpu) (slot : Slot) (change : Proc → Proc)
    (woken : (k.proc slot).Woken (change (k.proc slot))) :
    k.Wakes (k.modify slot change) := by
  refine ⟨?_, rfl, rfl, rfl, rfl, rfl, rfl, rfl⟩
  intro other
  by_cases same : other = slot
  · subst other
    rwa [modify_proc_self]
  · rw [modify_proc_of_ne _ _ _ same]
    exact Proc.Woken.refl _

theorem kill_wakes (k : Kernel ncpu) (pid : Int) : k.Wakes (k.kill pid).2 := by
  unfold kill
  split
  · rename_i slot _
    apply modify_wakes
    refine ⟨?_, fun _ => rfl, rfl, rfl, rfl, rfl, rfl, rfl, rfl, rfl, rfl, rfl, rfl⟩
    by_cases slept : (k.proc slot).state = .sleeping
    · exact Or.inr ⟨slept, if_pos slept⟩
    · exact Or.inl (if_neg slept)
  · exact Wakes.refl k

theorem passToInit_wakes (curproc : Slot) (k : Kernel ncpu) (pq : Slot) :
    k.Wakes (passToInit curproc k pq) := by
  have moved : k.Wakes
      (k.modify pq (fun p => { p with parent := k.initproc })) :=
    modify_wakes k pq _
      ⟨Or.inl rfl, id, rfl, rfl, rfl, rfl, rfl, rfl, rfl, rfl, rfl, rfl, rfl⟩
  unfold passToInit
  split
  · simp only
    split
    · exact moved.trans (wakeup1_wakes _ _)
    · exact moved
  · exact Wakes.refl k

theorem passToInit_foldl_wakes (curproc : Slot) (visited : List Slot)
    (k : Kernel ncpu) : k.Wakes (visited.foldl (passToInit curproc) k) :=
  foldl_relates Wakes.refl (fun _ _ _ => Wakes.trans) (passToInit_wakes curproc) visited k

theorem exit_eq (k : Kernel ncpu) (c : Fin ncpu) (curproc : Slot) :
    ∃ woken, k.Wakes woken ∧
      k.exit c curproc = (woken.modify curproc (fun p =>
        { p with endTime := int32 k.ticks, state := .zombie })).sched c curproc := by
  have wakes := (wakeup1_wakes k (chanOf (k.proc curproc).parent)).trans
    (passToInit_foldl_wakes curproc slots _)
  refine ⟨_, wakes, ?_⟩
  rw [← wakes.ticks]
  rfl

end Kernel

/-! ### Accounting -/

structure Proc.Accounted (p q : Proc) : Prop where
  state : q.state = p.state
  pid : q.pid = p.pid
  parent : q.parent = p.parent
  chan : q.chan = p.chan
  killed : q.killed = p.killed
  startTime : q.startTime = p.startTime
  endTime : q.endTime = p.endTime
  priority : q.priority = p.priority
  control : q.control = p.control
  resume : q.resume = p.resume

theorem Proc.Accounted.refl (p : Proc) : p.Accounted p :=
  ⟨rfl, rfl, rfl, rfl, rfl, rfl, rfl, rfl, rfl, rfl⟩

theorem Proc.Accounted.trans {p q r : Proc} (first : p.Accounted q)
    (second : q.Accounted r) : p.Accounted r where
  state := second.state.trans first.state
  pid := second.pid.trans first.pid
  parent := second.parent.trans first.parent
  chan := second.chan.trans first.chan
  killed := second.killed.trans first.killed
  startTime := second.startTime.trans first.startTime
  endTime := second.endTime.trans first.endTime
  priority := second.priority.trans first.priority
  control := second.control.trans first.control
  resume := second.resume.trans first.resume

namespace Kernel

variable {ncpu : Nat}

structure Accounts (k next : Kernel ncpu) : Prop where
  proc : ∀ slot, (k.proc slot).Accounted (next.proc slot)
  ticks : next.ticks = k.ticks
  nextpid : next.nextpid = k.nextpid
  initproc : next.initproc = k.initproc
  lock : next.lock = k.lock
  cpu : next.cpu = k.cpu

theorem Accounts.refl (k : Kernel ncpu) : k.Accounts k :=
  ⟨fun _ => Proc.Accounted.refl _, rfl, rfl, rfl, rfl, rfl⟩

theorem Accounts.trans {first second third : Kernel ncpu} (before : first.Accounts second)
    (after : second.Accounts third) : first.Accounts third where
  proc := fun slot => (before.proc slot).trans (after.proc slot)
  ticks := after.ticks.trans before.ticks
  nextpid := after.nextpid.trans before.nextpid
  initproc := after.initproc.trans before.initproc
  lock := after.lock.trans before.lock
  cpu := after.cpu.trans before.cpu

theorem modify_accounts (k : Kernel ncpu) (slot : Slot) (change : Proc → Proc)
    (accounted : (k.proc slot).Accounted (change (k.proc slot))) :
    k.Accounts (k.modify slot change) := by
  refine ⟨?_, rfl, rfl, rfl, rfl, rfl⟩
  intro other
  by_cases same : other = slot
  · subst other
    rwa [modify_proc_self]
  · rw [modify_proc_of_ne _ _ _ same]
    exact Proc.Accounted.refl _

/-- What the queues do: the clock alone charges `run_time`. -/
structure Files (k next : Kernel ncpu) : Prop extends k.Accounts next where
  runTime : ∀ slot, (next.proc slot).runTime = (k.proc slot).runTime

theorem Files.refl (k : Kernel ncpu) : k.Files k :=
  ⟨Accounts.refl k, fun _ => rfl⟩

theorem Files.trans {first second third : Kernel ncpu} (before : first.Files second)
    (after : second.Files third) : first.Files third :=
  ⟨before.toAccounts.trans after.toAccounts,
    fun slot => (after.runTime slot).trans (before.runTime slot)⟩

theorem modify_files (k : Kernel ncpu) (slot : Slot) (change : Proc → Proc)
    (accounted : (k.proc slot).Accounted (change (k.proc slot)))
    (runTime : (change (k.proc slot)).runTime = (k.proc slot).runTime) :
    k.Files (k.modify slot change) :=
  ⟨modify_accounts k slot change accounted,
    modify_keeps k slot change Proc.runTime runTime⟩

theorem push_files (k : Kernel ncpu) (queueNo : Nat) (cur : Slot) :
    k.Files (k.push queueNo cur) := by
  obtain ⟨cpu, lock, ticks, nextpid, initproc⟩ := push_frame k queueNo cur
  refine ⟨⟨?_, ticks, nextpid, initproc, lock, cpu⟩, ?_⟩
  · intro other
    rcases push_proc k queueNo cur other with same | ⟨inserted, cleared⟩
    · rw [same]
      exact Proc.Accounted.refl _
    · rw [cleared, inserted]
      exact ⟨rfl, rfl, rfl, rfl, rfl, rfl, rfl, rfl, rfl, rfl⟩
  · intro other
    rcases push_proc k queueNo cur other with same | ⟨inserted, cleared⟩
    · rw [same]
    · rw [cleared, inserted]

theorem push_accounts (k : Kernel ncpu) (queueNo : Nat) (cur : Slot) :
    k.Accounts (k.push queueNo cur) :=
  (push_files k queueNo cur).toAccounts

theorem pop_files (k : Kernel ncpu) (queueNo : Nat) :
    k.Files (k.pop queueNo).2 :=
  ⟨⟨fun _ => Proc.Accounted.refl _, rfl, rfl, rfl, rfl, rfl⟩, fun _ => rfl⟩

theorem refillSlot_files (k : Kernel ncpu) (slot : Slot) :
    k.Files (k.refillSlot slot) := by
  unfold refillSlot
  split
  · exact Files.refl k
  · exact push_files k 0 slot

theorem refill_files (k : Kernel ncpu) : k.Files k.refill :=
  foldl_relates Files.refl (fun _ _ _ => Files.trans) refillSlot_files slots k

/-- `yield` leaves RUNNING, files the caller and switches to the scheduler. -/
theorem yield_files (policy : Policy) (k : Kernel ncpu) (c : Fin ncpu) (p : Slot) :
    ((k.modify p (fun q => { q with state := .runnable, resume := .recheck })).sched
      c p).Files (k.yield policy c p) := by
  unfold yield
  simp only
  split
  · have lowered := modify_files
      (k.modify p (fun q => { q with state := .runnable, resume := .recheck })) p
      (fun q => { q with curTime := 0, queueNo := q.queueNo + 1 })
      ⟨rfl, rfl, rfl, rfl, rfl, rfl, rfl, rfl, rfl, rfl⟩ rfl
    have filed := lowered.trans (push_files _
      ((((k.modify p (fun q => { q with state := .runnable, resume := .recheck })).modify p
        (fun q => { q with curTime := 0, queueNo := q.queueNo + 1 })).proc p).queueNo) p)
    exact ⟨⟨filed.proc, filed.ticks, filed.nextpid, filed.initproc, rfl,
      by simp only [sched, filed.cpu]⟩, filed.runTime⟩
  · exact Files.refl _

theorem chargeSlot_accounts (policy : Policy) (k : Kernel ncpu) (slot : Slot) :
    k.Accounts (chargeSlot policy k slot) := by
  unfold chargeSlot
  split
  · apply modify_accounts
    unfold chargeRunning
    split
    · exact ⟨rfl, rfl, rfl, rfl, rfl, rfl, rfl, rfl, rfl, rfl⟩
    · exact ⟨rfl, rfl, rfl, rfl, rfl, rfl, rfl, rfl, rfl, rfl⟩
  · have waited : k.Accounts
        (k.modify slot (fun p => { p with waitTime := p.waitTime + 1 })) :=
      modify_accounts k slot _ ⟨rfl, rfl, rfl, rfl, rfl, rfl, rfl, rfl, rfl, rfl⟩
    simp only
    split
    · refine waited.trans (Accounts.trans ?_ (push_accounts _ _ _))
      exact modify_accounts _ slot _ ⟨rfl, rfl, rfl, rfl, rfl, rfl, rfl, rfl, rfl, rfl⟩
    · exact waited

theorem modifyTimes_accounts (policy : Policy) (k : Kernel ncpu) :
    k.Accounts (k.modifyTimes policy) :=
  foldl_relates Accounts.refl (fun _ _ _ => Accounts.trans) (chargeSlot_accounts policy) slots
    k

/-! ### Allocation -/

variable {k : Kernel ncpu} {p : Slot}

theorem firstUnused_state {slot : Slot} (found : k.firstUnused = some slot) :
    (k.proc slot).state = .unused := by
  have unused := List.find?_some found
  simpa using unused

theorem claimSlot_other (k : Kernel ncpu) {slot other : Slot} (different : other ≠ slot) :
    (k.claimSlot slot).proc other = k.proc other := by
  simp only [claimSlot, update_of_ne different]

theorem pushFirstFree_files (k : Kernel ncpu) (slot : Slot) :
    k.Files (k.pushFirstFree slot) := by
  unfold pushFirstFree
  split
  · exact push_files k _ slot
  · exact Files.refl k

/-- Either the table is full and nothing happens, or the first UNUSED slot is
initialised and the rings take note. -/
theorem allocproc_cases (policy : Policy) (k : Kernel ncpu) :
    (k.firstUnused = none ∧ k.allocproc policy = (none, k)) ∨
      ∃ slot after, k.firstUnused = some slot ∧
        k.allocproc policy = (some slot, after) ∧
        (k.claimSlot slot).Files after := by
  unfold allocproc
  cases found : k.firstUnused with
  | none => exact Or.inl ⟨rfl, rfl⟩
  | some slot =>
    refine Or.inr ⟨slot, _, rfl, rfl, ?_⟩
    split
    · exact pushFirstFree_files _ slot
    · exact Files.refl _

/-! ### Scheduler passes -/

/-- What the search of one ring returns is RUNNABLE; the search only accounts.  The
induction is on the rounds left. -/
theorem scanRing_files (i rounds : Nat) (cursz : Int) (k : Kernel ncpu) :
    k.Files (scanRing i rounds cursz k).2 ∧
      ∀ p, (scanRing i rounds cursz k).1 = some p →
        (k.proc p).state = .runnable := by
  induction rounds generalizing cursz k with
  | zero =>
    refine ⟨Files.refl k, ?_⟩
    intro p found
    cases found
  | succ rounds ih =>
    have popped := pop_files k i
    unfold scanRing
    split
    · simp only
      split
      · refine ⟨popped, ?_⟩
        intro p found
        cases found
      · rename_i head _
        split
        · rename_i ready
          refine ⟨popped, ?_⟩
          intro p found
          cases found
          rw [← (popped.proc head).state]
          exact isRunnable_iff.mp ready
        · have pushed := popped.trans (push_files (k.pop i).2 i head)
          obtain ⟨scanned, ready⟩ := ih (cursz + 1) ((k.pop i).2.push i head)
          refine ⟨pushed.trans scanned, ?_⟩
          intro p found
          rw [← (pushed.proc p).state]
          exact ready p found
    · refine ⟨Files.refl k, ?_⟩
      intro p found
      cases found

theorem selectRing_files (order : List Nat) (k : Kernel ncpu) :
    k.Files (selectRing order k).2 ∧
      ∀ p, (selectRing order k).1 = some p → (k.proc p).state = .runnable := by
  induction order generalizing k with
  | nil =>
    refine ⟨Files.refl k, ?_⟩
    intro p found
    cases found
  | cons i rest ih =>
    unfold selectRing
    split
    · exact ih k
    · obtain ⟨scanned, ready⟩ := scanRing_files i (k.rings i).size.toNat 0 k
      simp only
      split
      · rename_i head selected
        refine ⟨scanned, ?_⟩
        intro p found
        cases found
        exact ready head selected
      · obtain ⟨after, readyAfter⟩ := ih (scanRing i (k.rings i).size.toNat 0 k).2
        refine ⟨scanned.trans after, ?_⟩
        intro p found
        rw [← (scanned.proc p).state]
        exact readyAfter p found

/-- A pass accounts, and then either switches to a RUNNABLE process or ends. -/
inductive PassOutcome (k : Kernel ncpu) (c : Fin ncpu) (next : Kernel ncpu) : Prop
  | dispatched (middle : Kernel ncpu) (p : Slot) (files : k.Files middle)
      (ready : (k.proc p).state = .runnable) (result : next = middle.dispatch c p)
  | ended (middle : Kernel ncpu) (files : k.Files middle)
      (result : next = middle.release c)

theorem nextRunnable_state {start : Nat} (found : k.nextRunnable start = some p) :
    start ≤ p.val ∧ (k.proc p).state = .runnable := by
  have matching := List.find?_some found
  simpa [isRunnable_iff] using matching

theorem procWithMinStartTime_state (found : k.procWithMinStartTime = some p) :
    (k.proc p).state = .runnable := by
  obtain ⟨⟨_, _, _, ready, _⟩, _⟩ := Library.leastScan_none found
  exact isRunnable_iff.mp ready

theorem procWithHighestPriority_state (ready : (k.proc p).state = .runnable) :
    (k.proc (k.procWithHighestPriority p)).state = .runnable := by
  obtain ⟨chosen, found, _, _, origin⟩ := Library.leastScan_some k.isRunnable
    (fun slot => (k.proc slot).priority) p slots
  rw [procWithHighestPriority, found, Option.getD_some]
  rcases origin with same | ⟨_, _, _, _, fits, _⟩
  · rwa [same]
  · exact isRunnable_iff.mp fits

theorem schedulerPass_outcome (policy : Policy) (k : Kernel ncpu) (c : Fin ncpu)
    (back : Option Slot) : k.PassOutcome c (k.schedulerPass policy c back) := by
  cases policy with
  | roundRobin =>
    simp only [schedulerPass, roundRobinPass]
    split
    · rename_i p found
      exact .dispatched k p (Files.refl k) (nextRunnable_state found).2 rfl
    · exact .ended k (Files.refl k) rfl
  | fcfs =>
    simp only [schedulerPass, fcfsPass]
    split
    · exact .ended k (Files.refl k) rfl
    · split
      · rename_i p found
        exact .dispatched k p (Files.refl k) (procWithMinStartTime_state found) rfl
      · exact .ended k (Files.refl k) rfl
  | pbs =>
    simp only [schedulerPass, pbsPass]
    split
    · rename_i p found
      exact .dispatched k _ (Files.refl k)
        (procWithHighestPriority_state (nextRunnable_state found).2) rfl
    · exact .ended k (Files.refl k) rfl
  | mlfq =>
    obtain ⟨selected, ready⟩ := selectRing_files (List.range levels) k
    simp only [schedulerPass, mlfqPass]
    split
    · exact .ended _ (refill_files k) rfl
    · split
      · rename_i p found
        refine .dispatched _ p (selected.trans ?_) (ready p found) rfl
        exact modify_files _ p _ ⟨rfl, rfl, rfl, rfl, rfl, rfl, rfl, rfl, rfl, rfl⟩ rfl
      · exact .ended _ (selected.trans (refill_files _)) rfl

theorem schedulerPass_state (policy : Policy) (k : Kernel ncpu) (c : Fin ncpu)
    (back : Option Slot) (slot : Slot) :
    ((k.schedulerPass policy c back).proc slot).state = (k.proc slot).state ∨
      ((k.proc slot).state = .runnable ∧
        ((k.schedulerPass policy c back).proc slot).state = .running) := by
  cases schedulerPass_outcome policy k c back with
  | dispatched middle p files ready result =>
    rw [result]
    by_cases same : slot = p
    · subst slot
      exact Or.inr ⟨ready, by simp only [dispatch, update_self]⟩
    · simp only [dispatch, update_of_ne same]
      exact Or.inl (files.proc slot).state
  | ended middle files result =>
    rw [result, release_proc]
    exact Or.inl (files.proc slot).state

end Kernel

end Xv6
