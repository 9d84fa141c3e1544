/-
The outline of the kernel: where processes and CPUs stand.

Times, priorities, levels and rings are left out.  In this outline most labels do the same,
and what a step can do to it is said here once, with the record of every process after the
step.  Invariants about states, identifiers, parents, locks and CPUs take their cases from
here.
-/

import Xv6.Process.Effects

namespace Xv6

open Function (update update_apply update_eq_self update_of_ne)

inductive LabelKind
  | silent
  | wake
  | priority
  | claim
  | forkFail
  | ready
  | exit
  | wait
  | sleep
  | yield
  | tick
  | charge
  | pass
  deriving DecidableEq

def Label.kind {ncpu : Nat} : Label ncpu → LabelKind
  | .userinitAlloc _ | .allocproc _ => .claim
  | .userinitReady _ | .forkReady _ => .ready
  | .timerWakeup _ | .deviceWakeup _ _ | .wakeup _ _ | .kill _ _ => .wake
  | .setPriority _ _ _ => .priority
  | .forkFail _ => .forkFail
  | .exit _ => .exit
  | .wait _ | .waitx _ => .wait
  | .sleep _ _ => .sleep
  | .yield _ => .yield
  | .timerTick _ => .tick
  | .timerCharge _ => .charge
  | .pass _ => .pass
  | .enter _ | .timerOther _ | .deviceIntr _ | .deviceDone _ | .fault _ | .trapTail _
  | .trapReturn _ | .trapExit _ | .syscallEnter _ | .syscallReturn _ | .forkretReturn _
  | .forkCopy _ => .silent

/-- The CPU that takes the step. -/
def Label.cpu {ncpu : Nat} : Label ncpu → Fin ncpu
  | .userinitAlloc c | .userinitReady c | .enter c | .pass c | .timerTick c | .timerCharge c
  | .timerWakeup c | .timerOther c | .deviceIntr c | .deviceWakeup c _ | .deviceDone c
  | .fault c | .trapTail c | .yield c | .trapReturn c | .trapExit c | .syscallEnter c
  | .syscallReturn c | .forkretReturn c | .sleep c _ | .wakeup c _ | .kill c _
  | .setPriority c _ _ | .allocproc c | .forkFail c | .forkCopy c | .forkReady c | .exit c
  | .wait c | .waitx c => c

def Control.fork : Control → Option (Slot × Bool)
  | .forking np copied => some (np, copied)
  | _ => none

/-- A record without its times, its priority and its level. -/
structure Core where
  state : ProcState
  pid : Int
  parent : Option Slot
  chan : Chan
  killed : Bool
  control : Control
  resume : Trap
  startTime : Int

def Proc.core (p : Proc) : Core :=
  ⟨p.state, p.pid, p.parent, p.chan, p.killed, p.control, p.resume, p.startTime⟩

/-- The process on whose channel a record sleeps. -/
def Core.waits (p : Core) : Option Slot :=
  match p.state, p.chan with
  | .sleeping, .proc q => some q
  | _, _ => none

theorem Core.waits_eq_some (p : Core) {q : Slot} :
    p.waits = some q ↔ p.state = .sleeping ∧ p.chan = .proc q := by
  unfold waits
  split
  · rename_i slept chan
    simp [slept, chan]
  · rename_i awake
    simp only [reduceCtorEq, false_iff, not_and]
    exact fun slept chan => awake q slept chan

def Proc.waits (p : Proc) : Option Slot :=
  match p.state, p.chan with
  | .sleeping, .proc q => some q
  | _, _ => none

theorem Proc.waits_eq_some {p : Proc} {q : Slot} :
    p.waits = some q ↔ p.state = .sleeping ∧ p.chan = .proc q :=
  p.core.waits_eq_some

theorem Proc.Woken.waits {p q : Proc} (woken : p.Woken q) {r : Slot} (waits : q.waits = some r) :
    p.waits = some r := by
  rw [waits_eq_some, woken.chan] at waits
  rcases woken.state with same | ⟨_, ready⟩
  · exact waits_eq_some.mpr ⟨same.symm.trans waits.1, waits.2⟩
  · rw [ready] at waits
    cases waits.1

/-- The record of a process that may have been woken up. -/
structure Core.Woken (p q : Core) : Prop where
  state : q.state = p.state ∨ (p.state = .sleeping ∧ q.state = .runnable)
  rest : q = { p with state := q.state }

/-- What the caller of a system call changes in its own record. -/
structure Core.Own (p q : Core) : Prop where
  killed : p.killed = true → q.killed = true
  before : p.control.fork = none
  after : q.control.fork = none
  rest : q = { p with killed := q.killed, control := q.control }

@[ext]
structure Outline (ncpu : Nat) where
  core : Slot → Core
  nextpid : Int
  ticks : Int
  initproc : Option Slot
  lock : Option (Fin ncpu)
  cpu : Fin ncpu → Cpu

variable {ncpu : Nat}

namespace Outline

def set (o : Outline ncpu) (p : Slot) (core : Core) : Outline ncpu :=
  { o with core := update o.core p core }

def setTrap (o : Outline ncpu) (c : Fin ncpu) (trap : Trap) : Outline ncpu :=
  { o with cpu := update o.cpu c { o.cpu c with trap := trap } }

def setCpu (o : Outline ncpu) (c : Fin ncpu) (pc : CpuPc) : Outline ncpu :=
  { o with cpu := update o.cpu c { pc := pc, trap := .none } }

def setControl (o : Outline ncpu) (p : Slot) (control : Control) : Outline ncpu :=
  o.set p { o.core p with control := control }

def setState (o : Outline ncpu) (p : Slot) (state : ProcState) : Outline ncpu :=
  o.set p { o.core p with state := state }

def sched (o : Outline ncpu) (c : Fin ncpu) (p : Slot) : Outline ncpu :=
  { o.setCpu c (.pass (some p)) with lock := some c }

def claim (o : Outline ncpu) (np : Slot) : Outline ncpu :=
  { o.set np { o.core np with
      state := .embryo, pid := o.nextpid, control := .forkret, resume := .none,
      startTime := int32 o.ticks } with
    nextpid := o.nextpid + 1 }

section Fields

variable (o : Outline ncpu) (p q : Slot) (c d : Fin ncpu) (core : Core) (trap : Trap) (pc : CpuPc)

@[grind =]
theorem set_core : (o.set p core).core q = if q = p then core else o.core q :=
  update_apply ..

@[grind =]
theorem setTrap_pc : ((o.setTrap c trap).cpu d).pc = (o.cpu d).pc := by
  simp only [setTrap, update_apply]
  split
  · rename_i same
    rw [same]
  · rfl

@[grind =]
theorem setCpu_pc : ((o.setCpu c pc).cpu d).pc = if d = c then pc else (o.cpu d).pc := by
  simp only [setCpu, update_apply]
  split
  · rfl
  · rfl

@[grind =]
theorem setTrap_core : (o.setTrap c trap).core q = o.core q := rfl

@[grind =]
theorem setCpu_core : (o.setCpu c pc).core q = o.core q := rfl

@[grind =]
theorem setControl_core (control : Control) : (o.setControl p control).core q =
    if q = p then { o.core p with control := control } else o.core q :=
  update_apply ..

theorem setControl_state (control : Control) :
    ((o.setControl p control).core q).state = (o.core q).state := by
  rw [setControl_core]
  split
  · rename_i same
    rw [same]
  · rfl

@[grind =]
theorem setState_core (state : ProcState) : (o.setState p state).core q =
    if q = p then { o.core p with state := state } else o.core q :=
  update_apply ..

@[grind =]
theorem claim_core : (o.claim p).core q = if q = p then { o.core p with
    state := .embryo, pid := o.nextpid, control := .forkret, resume := .none,
    startTime := int32 o.ticks } else o.core q :=
  update_apply ..

@[grind =]
theorem setTrap_trap : ((o.setTrap c trap).cpu d).trap =
    if d = c then trap else (o.cpu d).trap := by
  simp only [setTrap, update_apply]
  split
  · rfl
  · rfl

@[grind =]
theorem setCpu_trap : ((o.setCpu c pc).cpu d).trap =
    if d = c then .none else (o.cpu d).trap := by
  simp only [setCpu, update_apply]
  split
  · rfl
  · rfl

@[grind =]
theorem set_cpu : (o.set p core).cpu d = o.cpu d := rfl

@[grind =]
theorem setState_cpu (state : ProcState) : (o.setState p state).cpu d = o.cpu d := rfl

@[grind =]
theorem setControl_cpu (control : Control) : (o.setControl p control).cpu d = o.cpu d := rfl

@[grind =]
theorem claim_cpu : (o.claim p).cpu d = o.cpu d := rfl

@[grind =]
theorem sched_cpu : (o.sched c p).cpu d = (o.setCpu c (.pass (some p))).cpu d := rfl

@[grind =]
theorem sched_core : (o.sched c p).core q = o.core q := rfl

end Fields

/-- No child of the process is a ZOMBIE. -/
def NoZombies (o : Outline ncpu) (p : Slot) : Prop :=
  ∀ child, (o.core child).parent = some p → (o.core child).state ≠ .zombie

/-- What `exit` does to the records: the caller is a ZOMBIE, its children go to the first
process, and nobody sleeps any more who may have to wait for a ZOMBIE. -/
structure Passes (o : Outline ncpu) (p : Slot) (passed : Slot → Core) : Prop where
  gone : (passed p).state = .zombie
  state : ∀ q, q ≠ p → (passed q).state = (o.core q).state ∨
    ((o.core q).state = .sleeping ∧ (passed q).state = .runnable)
  parent : ∀ q, (passed q).parent =
    if (o.core q).parent = some p then o.initproc else (o.core q).parent
  rest : ∀ q, passed q = { o.core q with state := (passed q).state, parent := (passed q).parent }
  sleepers : ∀ q r, (passed q).state = .sleeping → (passed q).chan = .proc r →
    (o.core p).parent ≠ some r ∧ ∀ zombie, (o.core zombie).parent = some p →
      (o.core zombie).state = .zombie → o.initproc ≠ some r

/-- The ways a step can go. -/
inductive Step (o : Outline ncpu) (label : Label ncpu) (o' : Outline ncpu) : Prop
  | calm (c : Fin ncpu) (trap : Trap) (own : label.cpu = c)
      (stage : trap = .exiting → (o.cpu c).trap = .exiting)
      (woken : ∀ p, (o.core p).Woken (o'.core p))
      (awake : label.kind = .wake ∨ o'.core = o.core)
      (full : label.kind = .claim → ∀ p, (o.core p).state ≠ .unused)
      (childless : label.kind = .wait → ∀ p, (o.cpu c).pc = .running p → o.NoZombies p)
      (ordinary : label.kind ≠ .exit)
      (later : o.ticks ≤ o'.ticks)
      (same : o' = { o.setTrap c trap with core := o'.core, ticks := o'.ticks })
  | exits (c : Fin ncpu) (p : Slot) (labelled : label = .trapExit c)
      (place : (o.cpu c).pc = .running p) (killed : (o.core p).killed = true)
      (user : (o.core p).control = .user) (same : o' = o.setTrap c .exiting)
  | kills (c : Fin ncpu) (slot : Slot) (pid : Int) (labelled : label = .kill c pid)
      (found : slots.find? (fun q => decide ((o.core q).pid = pid)) = some slot)
      (same : o' = o.set slot { o.core slot with
        killed := true
        state := if (o.core slot).state = .sleeping then .runnable else (o.core slot).state })
  | acts (c : Fin ncpu) (p : Slot) (core : Core) (trap : Trap) (own : label.cpu = c)
      (kind : label.kind = .silent) (place : (o.cpu c).pc = .running p)
      (quiet : (o.cpu c).trap = .none) (calm : trap ≠ .exiting)
      (record : (o.core p).Own core) (same : o' = (o.set p core).setTrap c trap)
  | sleeps (c : Fin ncpu) (p : Slot) (chan : Chan) (own : label.cpu = c)
      (kind : label.kind = .sleep ∨ label.kind = .wait) (place : (o.cpu c).pc = .running p)
      (mode : (o.cpu c).trap = .none ∧ (o.core p).control ≠ .user ∨ (o.cpu c).trap = .exiting)
      (waits : ∀ q, chan = .proc q → q = p)
      (childless : label.kind = .wait ∨ chan = .proc p → o.NoZombies p)
      (free : o.lock = none)
      (same : o' = (o.set p { o.core p with
        chan := chan, state := .sleeping, resume := (o.cpu c).trap }).sched c p)
  | yields (c : Fin ncpu) (p : Slot) (labelled : label = .yield c)
      (place : (o.cpu c).pc = .running p) (stage : (o.cpu c).trap = .yielding)
      (free : o.lock = none)
      (same : o' = (o.set p { o.core p with
        state := .runnable, resume := .recheck }).sched c p)
  | exit (c : Fin ncpu) (p : Slot) (labelled : label = .exit c)
      (place : (o.cpu c).pc = .running p)
      (mode : (o.cpu c).trap = .none ∧ (o.core p).control = .syscall ∨
        (o.cpu c).trap = .exiting)
      (ordinary : o.initproc ≠ some p) (free : o.lock = none) (passes : o.Passes p o'.core)
      (same : o' = { o.sched c p with core := o'.core })
  | starts (c : Fin ncpu) (p : Slot) (back : Option Slot) (labelled : label = .pass c)
      (place : (o.cpu c).pc = .pass back) (ready : (o.core p).state = .runnable)
      (same : o' = { o.set p { o.core p with state := .running, chan := .null } with
        lock := none
        cpu := update o.cpu c { pc := .running p, trap := (o.core p).resume } })
  | ends (c : Fin ncpu) (back : Option Slot) (labelled : label = .pass c)
      (place : (o.cpu c).pc = .pass back) (same : o' = { o.setCpu c .loopTop with lock := none })
  | enters (c : Fin ncpu) (labelled : label = .enter c) (place : (o.cpu c).pc = .loopTop)
      (free : o.lock = none) (same : o' = { o.setCpu c (.pass none) with lock := some c })
  | bootClaims (c : Fin ncpu) (np : Slot) (labelled : label = .userinitAlloc c)
      (place : (o.cpu c).pc = .boot none) (free : o.lock = none)
      (unused : (o.core np).state = .unused)
      (same : o' = { (o.claim np).setCpu c (.boot (some np)) with initproc := some np })
  | bootFull (c : Fin ncpu) (labelled : label = .userinitAlloc c)
      (place : (o.cpu c).pc = .boot none) (full : ∀ p, (o.core p).state ≠ .unused)
      (same : o' = { o.setCpu c (.boot none) with initproc := none })
  | bootReady (c : Fin ncpu) (np : Slot) (labelled : label = .userinitReady c)
      (place : (o.cpu c).pc = .boot (some np)) (free : o.lock = none)
      (same : o' = (o.setState np .runnable).setCpu c .loopTop)
  | forks (c : Fin ncpu) (p np : Slot) (labelled : label = .allocproc c)
      (place : (o.cpu c).pc = .running p) (quiet : (o.cpu c).trap = .none)
      (mode : (o.core p).control = .syscall) (unused : (o.core np).state = .unused)
      (same : o' = (o.claim np).setControl p (.forking np false))
  | forkFails (c : Fin ncpu) (p np : Slot) (labelled : label = .forkFail c)
      (place : (o.cpu c).pc = .running p) (quiet : (o.cpu c).trap = .none)
      (mode : (o.core p).control = .forking np false)
      (same : o' = (o.setState np .unused).setControl p .syscall)
  | forkCopies (c : Fin ncpu) (p np : Slot) (labelled : label = .forkCopy c)
      (place : (o.cpu c).pc = .running p) (quiet : (o.cpu c).trap = .none)
      (mode : (o.core p).control = .forking np false)
      (same : o' = (o.set np { o.core np with parent := some p }).setControl p
        (.forking np true))
  | forkReady (c : Fin ncpu) (p np : Slot) (labelled : label = .forkReady c)
      (place : (o.cpu c).pc = .running p) (quiet : (o.cpu c).trap = .none)
      (mode : (o.core p).control = .forking np true)
      (same : o' = (o.setState np .runnable).setControl p .syscall)
  | reaps (c : Fin ncpu) (p child : Slot) (own : label.cpu = c) (kind : label.kind = .wait)
      (place : (o.cpu c).pc = .running p) (parent : (o.core child).parent = some p)
      (zombie : (o.core child).state = .zombie)
      (found : slots.find? (fun q => decide ((o.core q).parent = some p) &&
        decide ((o.core q).state = .zombie)) = some child)
      (same : o' = o.set child { o.core child with
        pid := 0, parent := none, killed := false, state := .unused })

section Calm

variable {o : Outline ncpu} {label : Label ncpu}

theorem setTrap_self (o : Outline ncpu) (c : Fin ncpu) : o.setTrap c (o.cpu c).trap = o :=
  Outline.ext rfl rfl rfl rfl rfl (update_eq_self ..)

theorem Step.retrap (label : Label ncpu) {trap : Trap} (other : trap ≠ .exiting)
    (plain : label.kind ≠ .claim ∧ label.kind ≠ .wait ∧ label.kind ≠ .exit) :
    o.Step label (o.setTrap label.cpu trap) :=
  .calm label.cpu trap rfl (fun same => absurd same other) (fun _ => ⟨Or.inl rfl, rfl⟩)
    (Or.inr rfl) (fun kind => absurd kind plain.1) (fun kind => absurd kind plain.2.1) plain.2.2
    le_rfl rfl

theorem Step.still
    (full : label.kind = .claim → ∀ p, (o.core p).state ≠ .unused)
    (childless : label.kind = .wait → ∀ p, (o.cpu label.cpu).pc = .running p → o.NoZombies p)
    (ordinary : label.kind ≠ .exit) : o.Step label o :=
  .calm label.cpu (o.cpu label.cpu).trap rfl id (fun _ => ⟨Or.inl rfl, rfl⟩) (Or.inr rfl) full
    childless ordinary le_rfl (setTrap_self o label.cpu).symm

end Calm

/-- The CPUs that do not take the step stay as they are. -/
theorem Step.cpu_other {o o' : Outline ncpu} {label : Label ncpu} {d : Fin ncpu}
    (step : o.Step label o') (other : d ≠ label.cpu) : o'.cpu d = o.cpu d := by
  have moved : ∀ (c : Fin ncpu) (value : Cpu), label.cpu = c →
      update o.cpu c value d = o.cpu d := by
    rintro c value rfl
    exact update_of_ne other _ _
  cases step with
  | calm c trap own | acts c p core trap own | sleeps c p chan own =>
    rename_i same
    rw [same]
    exact moved c _ own
  | exits c p labelled | yields c p labelled | exit c p labelled | starts c p back labelled
  | ends c back labelled | enters c labelled | bootClaims c np labelled | bootFull c labelled
  | bootReady c np labelled =>
    rename_i same
    rw [same]
    exact moved c _ (congrArg Label.cpu labelled)
  | kills | forks | forkFails | forkCopies | forkReady | reaps =>
    rename_i same
    rw [same]
    rfl

end Outline

namespace Kernel

def outline (k : Kernel ncpu) : Outline ncpu where
  core p := (k.proc p).core
  nextpid := k.nextpid
  ticks := k.ticks
  initproc := k.initproc
  lock := k.lock
  cpu := k.cpu

section Outlines

variable {k next : Kernel ncpu}

theorem Accounts.outline_eq (accounts : k.Accounts next) : next.outline = k.outline := by
  refine Outline.ext (funext fun p => ?_) accounts.nextpid accounts.ticks accounts.initproc
    accounts.lock accounts.cpu
  have record := accounts.proc p
  change (next.proc p).core = (k.proc p).core
  simp only [Proc.core, record.state, record.pid, record.parent, record.chan, record.killed,
    record.control, record.resume, record.startTime]

theorem modify_outline (k : Kernel ncpu) (slot : Slot) (change : Proc → Proc) :
    (k.modify slot change).outline =
      k.outline.set slot (change (k.proc slot)).core :=
  Outline.ext (Function.comp_update Proc.core k.proc slot _) rfl rfl rfl rfl rfl

theorem modify_outline_self (k : Kernel ncpu) (slot : Slot) (change : Proc → Proc)
    (blind : (change (k.proc slot)).core = (k.proc slot).core) :
    (k.modify slot change).outline = k.outline := by
  rw [modify_outline, blind]
  exact Outline.ext (update_eq_self ..) rfl rfl rfl rfl rfl

theorem setTrap_outline (k : Kernel ncpu) (c : Fin ncpu) (trap : Trap) :
    (k.setTrap c trap).outline = k.outline.setTrap c trap := rfl

theorem sched_outline (k : Kernel ncpu) (c : Fin ncpu) (p : Slot) :
    (k.sched c p).outline = k.outline.sched c p := rfl

theorem setState_outline (k : Kernel ncpu) (p : Slot) (state : ProcState) :
    (k.setState p state).outline = k.outline.setState p state :=
  modify_outline k p (fun q => { q with state := state })

theorem setControl_outline (k : Kernel ncpu) (p : Slot) (control : Control) :
    (k.setControl p control).outline = k.outline.setControl p control :=
  modify_outline k p (fun q => { q with control := control })

theorem setPriority_outline (k : Kernel ncpu) (pid priority : Int) :
    (k.setPriority pid priority).2.outline = k.outline := by
  unfold setPriority
  split
  · rename_i slot _
    exact modify_outline_self k slot (fun q => { q with priority := priority }) rfl
  · rfl

theorem sleep_outline (k : Kernel ncpu) (c : Fin ncpu) (p : Slot) (chan : Chan) :
    (k.sleep c p chan).outline = (k.outline.set p { k.outline.core p with
      chan := chan, state := .sleeping, resume := (k.cpu c).trap }).sched c p := by
  unfold sleep
  rw [sched_outline, modify_outline]
  rfl

theorem yield_outline (policy : Policy) (k : Kernel ncpu) (c : Fin ncpu) (p : Slot) :
    (k.yield policy c p).outline = (k.outline.set p { k.outline.core p with
      state := .runnable, resume := .recheck }).sched c p := by
  rw [(yield_files policy k c p).toAccounts.outline_eq, sched_outline, modify_outline]
  rfl

/-- Either the table is full, or the first UNUSED slot is claimed. -/
theorem allocproc_outline (policy : Policy) (k : Kernel ncpu) :
    ((∀ p, (k.outline.core p).state ≠ .unused) ∧
        k.allocproc policy = (none, k)) ∨
      ∃ np, (k.outline.core np).state = .unused ∧
        (k.allocproc policy).1 = some np ∧
        (k.allocproc policy).2.outline = k.outline.claim np := by
  rcases allocproc_cases policy k with ⟨full, result⟩ | ⟨np, after, found, result, files⟩
  · refine Or.inl ⟨?_, result⟩
    intro p unused
    exact List.find?_eq_none.mp full p (List.mem_finRange p) (decide_eq_true unused)
  · refine Or.inr ⟨np, firstUnused_state found, by rw [result], ?_⟩
    rw [result, files.toAccounts.outline_eq]
    exact congrArg (fun o => { o with nextpid := k.nextpid + 1 })
      (modify_outline k np k.freshProc)

theorem wakeup1_woken (k : Kernel ncpu) (chan : Chan) (p : Slot) :
    (k.outline.core p).Woken ((k.wakeup1 chan).outline.core p) := by
  change (k.proc p).core.Woken (wakeProc chan (k.proc p)).core
  unfold wakeProc
  split
  · rename_i matching
    exact ⟨Or.inr ⟨matching.1, rfl⟩, rfl⟩
  · exact ⟨Or.inl rfl, rfl⟩

end Outlines

/-! ### The loop of `exit` -/

section Passing

variable {k : Kernel ncpu} {curproc : Slot}

theorem wakeup1_waits (k : Kernel ncpu) (target : Option Slot) (p r : Slot)
    (waits : ((k.wakeup1 (chanOf target)).proc p).waits = some r) : target ≠ some r := by
  rintro rfl
  obtain ⟨slept, chan⟩ := Proc.waits_eq_some.mp waits
  simp only [wakeup1, wakeProc] at slept chan
  split at slept
  · cases slept
  · rename_i other
    rw [if_neg other] at chan
    exact other ⟨slept, chan⟩

/-- The loop of `exit` after some of its rounds. -/
structure PassesChildren (curproc : Slot) (visited : List Slot) (k next : Kernel ncpu) :
    Prop where
  wakes : k.Wakes next
  parent : ∀ p, (next.proc p).parent =
    if p ∈ visited ∧ (k.proc p).parent = some curproc then k.initproc
    else (k.proc p).parent
  init : ∀ zombie ∈ visited, (k.proc zombie).parent = some curproc →
    (k.proc zombie).state = .zombie →
    ∀ p r, (next.proc p).waits = some r → k.initproc ≠ some r

/-- One round: the parent of one child, and a wakeup if that child is a ZOMBIE. -/
theorem passToInit_passes (curproc : Slot) (k : Kernel ncpu) (pq : Slot) :
    PassesChildren curproc [pq] k (passToInit curproc k pq) := by
  refine ⟨passToInit_wakes curproc k pq, ?_, ?_⟩
  · intro p
    unfold passToInit
    split
    · rename_i child
      have parentOf : ((k.modify pq (fun p => { p with parent := k.initproc })).proc
          p).parent = if p ∈ [pq] ∧ (k.proc p).parent = some curproc then k.initproc
            else (k.proc p).parent := by
        by_cases here : p = pq
        · simp [here, child]
        · simp [here, modify_proc_of_ne]
      dsimp only
      split
      · refine Eq.trans ?_ parentOf
        exact wakeup1_keeps (fun _ _ => rfl) _ _ p
      · exact parentOf
    · rename_i stranger
      rw [if_neg]
      rintro ⟨here, child⟩
      exact stranger (List.mem_singleton.mp here ▸ child)
  · intro zombie member child dead p r waits
    obtain rfl := List.mem_singleton.mp member
    unfold passToInit at waits
    rw [if_pos child] at waits
    dsimp only at waits
    rw [modify_proc_self, if_pos dead] at waits
    exact wakeup1_waits _ _ p r waits

theorem PassesChildren.cons {pq : Slot} {rest : List Slot} {middle next : Kernel ncpu}
    (first : PassesChildren curproc [pq] k middle)
    (later : PassesChildren curproc rest middle next) :
    PassesChildren curproc (pq :: rest) k next := by
  have sameInit := first.wakes.initproc
  refine ⟨first.wakes.trans later.wakes, ?_, ?_⟩
  · intro p
    rw [later.parent, first.parent, sameInit]
    by_cases child : (k.proc p).parent = some curproc
    · by_cases here : p = pq
      · subst p
        simp [child]
      · simp [here, child]
    · simp [child]
  · intro zombie member child dead p r waits
    by_cases here : zombie = pq
    · exact first.init zombie (List.mem_singleton.mpr here) child dead p r
        ((later.wakes.proc p).waits waits)
    · rw [← sameInit]
      refine later.init zombie ((List.mem_cons.mp member).resolve_left here) ?_ ?_ p r waits
      · rw [first.parent, if_neg (fun both => here (List.mem_singleton.mp both.1))]
        exact child
      · rw [(first.wakes.proc zombie).keeps (by rw [dead]; decide)]
        exact dead

theorem passToInit_foldl_passes (curproc : Slot) (visited : List Slot) (k : Kernel ncpu) :
    PassesChildren curproc visited k (visited.foldl (passToInit curproc) k) := by
  induction visited generalizing k with
  | nil =>
    refine ⟨Wakes.refl k, ?_, nofun⟩
    intro p
    rw [if_neg (fun both => List.not_mem_nil both.1)]
    rfl
  | cons pq rest ih => exact (passToInit_passes curproc k pq).cons (ih _)

theorem exit_outline (k : Kernel ncpu) (c : Fin ncpu) (p : Slot) :
    k.outline.Passes p (k.exit c p).outline.core ∧
      (k.exit c p).outline =
        { k.outline.sched c p with core := (k.exit c p).outline.core } := by
  have rest : Keeps (fun q : Proc => { q.core with state := .unused, parent := none }) k
      (k.exit c p) := exit_keeps (fun _ _ _ _ => rfl) k c p
  have woken := wakeup1_wakes k (chanOf (k.proc p).parent)
  have kin : Keeps Proc.parent k (k.wakeup1 (chanOf (k.proc p).parent)) :=
    wakeup1_keeps (fun _ _ => rfl) k _
  have passes := passToInit_foldl_passes p slots (k.wakeup1 (chanOf (k.proc p).parent))
  have notParent := wakeup1_waits k (k.proc p).parent
  unfold exit at rest ⊢
  dsimp only at rest ⊢
  generalize slots.foldl (passToInit p) _ = passed at passes rest ⊢
  have wakes := woken.trans passes.wakes
  generalize result : passed.modify p
    (fun q => { q with endTime := int32 passed.ticks, state := .zombie }) = last at rest ⊢
  have gone : (last.proc p).state = .zombie := by
    rw [← result, modify_proc_self]
  have elsewhere : ∀ q, q ≠ p → last.proc q = passed.proc q := by
    intro q other
    rw [← result, modify_proc_of_ne _ _ _ other]
  have parent : ∀ q, (last.proc q).parent = (passed.proc q).parent := by
    rw [← result]
    exact modify_keeps passed p _ Proc.parent rfl
  refine ⟨⟨gone, ?_, ?_, ?_, ?_⟩, ?_⟩
  · intro q other
    change (last.proc q).state = _ ∨ _ ∧ (last.proc q).state = _
    rw [elsewhere q other]
    exact (wakes.proc q).state
  · intro q
    refine (parent q).trans ((passes.parent q).trans ?_)
    rw [kin q]
    simp only [List.mem_finRange, true_and]
    rfl
  · intro q
    exact congrArg (fun core : Core => { core with
      state := (last.proc q).state, parent := (last.proc q).parent }) (rest q)
  · intro q r slept chan
    have other : q ≠ p := by
      rintro rfl
      cases slept.symm.trans gone
    have waits : (passed.proc q).waits = some r := by
      rw [← elsewhere q other]
      exact Proc.waits_eq_some.mpr ⟨slept, chan⟩
    refine ⟨notParent q r ((passes.wakes.proc q).waits waits), ?_⟩
    intro zombie child dead
    refine passes.init zombie (List.mem_finRange zombie) ((kin zombie).trans child) ?_ q r waits
    have zombieState : (k.proc zombie).state = .zombie := dead
    rw [(woken.proc zombie).keeps (by rw [zombieState]; decide)]
    exact zombieState
  · rw [← result]
    exact Outline.ext rfl wakes.nextpid wakes.ticks wakes.initproc rfl
      (congrArg (update · c _) wakes.cpu)

end Passing

/-! ### Every step -/

section Steps

variable {policy : Policy} {k next : Kernel ncpu} {label : Label ncpu} {c : Fin ncpu} {p : Slot}

theorem inSyscall_iff : k.inSyscall c p = true ↔
    (k.cpu c).trap = .none ∧ (k.proc p).control = .syscall := by
  simp only [inSyscall, Bool.and_eq_true, decide_eq_true_eq]

theorem maySleep_mode (mode : k.maySleep c p = true) :
    (k.cpu c).trap = .none ∧ (k.proc p).control ≠ .user ∨
      (k.cpu c).trap = .exiting := by
  simp only [maySleep, Bool.or_eq_true, Bool.and_eq_true, decide_eq_true_eq] at mode
  rcases mode with (call | exiting) | ⟨⟨quiet, control⟩, _⟩
  · obtain ⟨quiet, control⟩ := inSyscall_iff.mp call
    exact Or.inl ⟨quiet, by rw [control]; nofun⟩
  · exact Or.inr exiting
  · exact Or.inl ⟨quiet, by rw [control]; nofun⟩

theorem woken_outlineStep (label : Label ncpu) (chan : Chan) {trap : Trap} (kind : label.kind = .wake)
    (stage : trap = .exiting → (k.cpu label.cpu).trap = .exiting) :
    k.outline.Step label ((k.wakeup1 chan).outline.setTrap label.cpu trap) := by
  refine .calm label.cpu trap rfl stage (wakeup1_woken k chan) (Or.inl kind) ?_ ?_ ?_ le_rfl rfl
  all_goals
    rw [kind]
    nofun

theorem control_outlineStep (control : Control) (own : label.cpu = c) (kind : label.kind = .silent)
    (place : (k.cpu c).pc = .running p) (quiet : (k.cpu c).trap = .none)
    (before : (k.proc p).control.fork = none) (after : control.fork = none) :
    k.outline.Step label (k.setControl p control).outline := by
  refine .acts c p { (k.proc p).core with control := control } .none own kind place quiet nofun
    ⟨id, before, after, rfl⟩ ((setControl_outline k p control).trans ?_)
  rw [← quiet]
  exact (Outline.setTrap_self _ c).symm

theorem waitLoop_outlineStep (own : label.cpu = c) (kind : label.kind = .wait)
    (place : (k.cpu c).pc = .running p) (mode : k.inSyscall c p = true)
    (free : k.lock = none) : k.outline.Step label (k.waitLoop c p).2.2.outline := by
  obtain ⟨quiet, control⟩ := inSyscall_iff.mp mode
  unfold waitLoop
  cases found : k.zombieChild p with
  | some child =>
    have matching := List.find?_some found
    simp only [Bool.and_eq_true, decide_eq_true_eq] at matching
    exact .reaps c p child own kind place matching.1 matching.2 found
      (modify_outline k child reapProc)
  | none =>
    have childless : k.outline.NoZombies p := by
      intro child parent dead
      refine List.find?_eq_none.mp found child (List.mem_finRange child) ?_
      simp only [Bool.and_eq_true, decide_eq_true_eq]
      exact ⟨parent, dead⟩
    dsimp only
    split
    · subst c
      refine .still (by rw [kind]; nofun) ?_ (by rw [kind]; nofun)
      intro _ q there
      cases place.symm.trans there
      exact childless
    · refine .sleeps c p (.proc p) own (Or.inr kind) place (Or.inl ⟨quiet, ?_⟩) ?_
        (fun _ => childless) free (sleep_outline k c p _)
      · change (k.proc p).control ≠ .user
        rw [control]
        nofun
      · rintro q ⟨⟩
        rfl

/-- The inversion of a step in the outline. -/
theorem outlineStep (stepped : k.step policy label = some next) :
    k.outline.Step label next.outline := by
  cases step_inversion stepped with
  | userinitAlloc c place free =>
    rcases allocproc_outline policy k with ⟨full, result⟩ | ⟨np, unused, found, result⟩
    · refine .bootFull c rfl place full ?_
      unfold userinitAlloc
      rw [result]
      rfl
    · refine .bootClaims c np rfl place free unused ?_
      rw [← result, ← found]
      rfl
  | userinitReady c np place free =>
    refine .bootReady c np rfl place free ?_
    rw [← setState_outline]
    rfl
  | enter c place quiet free => exact .enters c rfl place free rfl
  | pass c back place =>
    cases schedulerPass_outcome policy k c back with
    | dispatched middle p files ready result =>
      refine .starts c p back rfl place ready ?_
      rw [result, ← files.toAccounts.outline_eq]
      exact congrArg (fun o : Outline ncpu => { o with
        lock := none
        cpu := update o.cpu c { pc := .running p, trap := (middle.proc p).resume } })
        (modify_outline middle p (fun q => { q with state := .running, chan := .null }))
    | ended middle files result =>
      refine .ends c back rfl place ?_
      rw [result, ← files.toAccounts.outline_eq]
      rfl
  | timerTick c first on =>
    exact .calm c .ticked rfl nofun (fun _ => ⟨Or.inl rfl, rfl⟩) (Or.inr rfl) nofun nofun nofun
      (Int.le_add_one le_rfl) rfl
  | timerCharge c stage free =>
    rw [setTrap_outline, (modifyTimes_accounts policy k).outline_eq]
    exact .retrap (.timerCharge c) nofun ⟨nofun, nofun, nofun⟩
  | timerWakeup c stage free =>
    rw [setTrap_outline]
    exact woken_outlineStep (.timerWakeup c) .ticks rfl nofun
  | timerOther c other on => exact .retrap (.timerOther c) nofun ⟨nofun, nofun, nofun⟩
  | deviceIntr c on => exact .retrap (.deviceIntr c) nofun ⟨nofun, nofun, nofun⟩
  | deviceWakeup c address stage free =>
    rw [← Outline.setTrap_self (Kernel.outline (k.wakeup1 _)) c]
    exact woken_outlineStep (.deviceWakeup c address) _ rfl id
  | deviceDone c stage => exact .retrap (.deviceDone c) nofun ⟨nofun, nofun, nofun⟩
  | fault c p place quiet mode =>
    rw [setTrap_outline, modify_outline]
    have outside : (k.proc p).control.fork = none := by rw [mode]; rfl
    exact .acts c p _ (.tail false) rfl rfl place quiet nofun ⟨fun _ => rfl, outside, outside, rfl⟩ rfl
  | trapTail c p timer place stage alive free =>
    refine .retrap (.trapTail c) ?_ ⟨nofun, nofun, nofun⟩
    split
    · nofun
    · nofun
  | trapTailIdle c timer stage place => exact .retrap (.trapTail c) nofun ⟨nofun, nofun, nofun⟩
  | yield c p place stage free =>
    exact .yields c p rfl place stage free (yield_outline policy k c p)
  | trapReturn c p place stage alive => exact .retrap (.trapReturn c) nofun ⟨nofun, nofun, nofun⟩
  | trapExit c p place killed ordinary stage =>
    simp only [mustExit, Bool.and_eq_true, decide_eq_true_eq] at killed
    exact .exits c p rfl place killed.1 killed.2 rfl
  | syscallEnter c p place quiet mode =>
    refine control_outlineStep .syscall rfl rfl place quiet (congrArg Control.fork mode) rfl
  | syscallReturn c p place mode alive =>
    obtain ⟨quiet, control⟩ := inSyscall_iff.mp mode
    exact control_outlineStep .user rfl rfl place quiet (congrArg Control.fork control) rfl
  | forkretReturn c p place quiet mode =>
    exact control_outlineStep .user rfl rfl place quiet (congrArg Control.fork mode) rfl
  | sleep c p chan place mode object free =>
    refine .sleeps c p chan rfl (Or.inl rfl) place (maySleep_mode mode) ?_ ?_ free
      (sleep_outline k c p chan)
    · rintro q rfl
      cases object
    · rintro (kind | rfl)
      · cases kind
      · cases object
  | wakeup c p chan place mode object free =>
    rw [← Outline.setTrap_self (Kernel.outline (k.wakeup1 chan)) c]
    exact woken_outlineStep (.wakeup c chan) chan rfl id
  | kill c p pid place mode free =>
    unfold kill
    cases found : k.withPid pid with
    | none => exact .still nofun nofun nofun
    | some slot => exact .kills c slot pid rfl found (modify_outline k slot killProc)
  | setPriority c p pid priority place mode free =>
    rw [setPriority_outline]
    exact .still nofun nofun nofun
  | allocproc c p place mode free =>
    obtain ⟨quiet, control⟩ := inSyscall_iff.mp mode
    unfold forkAlloc
    rcases allocproc_outline policy k with ⟨full, result⟩ | ⟨np, unused, found, result⟩
    · rw [result]
      exact .still (fun _ => full) nofun nofun
    · simp only [found]
      refine .forks c p np rfl place quiet control unused ?_
      rw [← result]
      exact setControl_outline _ p _
  | forkFail c p np place quiet mode =>
    exact .forkFails c p np rfl place quiet mode (by rw [setControl_outline, setState_outline])
  | forkCopy c p np place quiet mode =>
    exact .forkCopies c p np rfl place quiet mode (by rw [setControl_outline, modify_outline]; rfl)
  | forkReady c p np place quiet mode free =>
    exact .forkReady c p np rfl place quiet mode (by rw [setControl_outline, setState_outline])
  | exit c p place mode ordinary free =>
    obtain ⟨passes, same⟩ := exit_outline k c p
    exact .exit c p rfl place (mode.imp_left inSyscall_iff.mp) ordinary free passes same
  | wait c p place mode free => exact waitLoop_outlineStep rfl rfl place mode free
  | waitx c p place mode free => exact waitLoop_outlineStep rfl rfl place mode free

end Steps

end Kernel

end Xv6
