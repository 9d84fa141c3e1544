/-
The invariant that every policy keeps: processes and CPUs belong together.

A CPU that executes a process finds it RUNNING and is alone with it, every RUNNING process
has such a CPU, the lock is held exactly by the CPU inside a scheduler pass, and the slot that
a `fork` has allocated stays EMBRYO and belongs to that `fork` alone until it is published or
given back.
-/

import Xv6.Process.Outline

namespace Xv6

open Library

variable {ncpu : Nat}

def CpuPc.isPass : CpuPc → Bool
  | .pass _ => true
  | _ => false

theorem CpuPc.isPass_iff {pc : CpuPc} : pc.isPass = true ↔ ∃ back, pc = .pass back := by
  cases pc <;> simp [isPass]

namespace Outline

structure Placed (o : Outline ncpu) : Prop where
  onCpu : ∀ c p, (o.cpu c).pc = .running p → (o.core p).state = .running
  alone : ∀ c d p, (o.cpu c).pc = .running p → (o.cpu d).pc = .running p → c = d
  occupied : ∀ p, (o.core p).state = .running → ∃ c, (o.cpu c).pc = .running p
  locked : ∀ c, o.lock = some c ↔ (o.cpu c).pc.isPass = true
  booted : ∀ c np, (o.cpu c).pc = .boot np → c.val = 0
  embryo : ∀ p np copied, (o.core p).control = .forking np copied → (o.core np).state = .embryo
  forks : ∀ p q np copied copied', (o.core p).control = .forking np copied →
    (o.core q).control = .forking np copied' → p = q
  booting : ∀ c np, (o.cpu c).pc = .boot (some np) →
    (o.core np).state = .embryo ∧ ∀ p copied, (o.core p).control ≠ .forking np copied

variable {o o' : Outline ncpu} {label : Label ncpu} {c : Fin ncpu} {p np : Slot}

/-- The CPUs stay where they are, RUNNING and EMBRYO processes stay so, and no process enters
`fork`. -/
theorem Placed.keep (inv : o.Placed) (pc : ∀ d, (o'.cpu d).pc = (o.cpu d).pc)
    (lock : o'.lock = o.lock)
    (running : ∀ q, (o'.core q).state = .running ↔ (o.core q).state = .running)
    (embryo : ∀ q, (o.core q).state = .embryo → (o'.core q).state = .embryo)
    (forking : ∀ q new copied, (o'.core q).control = .forking new copied →
      ∃ copied', (o.core q).control = .forking new copied') : o'.Placed where
  onCpu := by grind [inv.onCpu]
  alone := by grind [inv.alone]
  occupied := by grind [inv.occupied]
  locked := by grind [inv.locked]
  booted := by grind [inv.booted]
  embryo := by grind [inv.embryo]
  forks := by grind [inv.forks]
  booting := by grind [inv.booting]

/-- `sched`: the caller is no longer RUNNING, everyone else stays as they are. -/
theorem Placed.sched (inv : o.Placed) (place : (o.cpu c).pc = .running p) (free : o.lock = none)
    {passed : Slot → Core} (left : (passed p).state ≠ .running)
    (running : ∀ q, q ≠ p → ((passed q).state = .running ↔ (o.core q).state = .running))
    (embryo : ∀ q, (o.core q).state = .embryo → (passed q).state = .embryo)
    (control : ∀ q, (passed q).control = (o.core q).control) :
    ({ o.sched c p with core := passed } : Outline ncpu).Placed := by
  have pcOf : ∀ d, ((o.sched c p).cpu d).pc = if d = c then .pass (some p) else (o.cpu d).pc :=
    fun d => setCpu_pc o c d (.pass (some p))
  have lock : (o.sched c p).lock = some c := rfl
  exact {
    onCpu := by grind [inv.onCpu, inv.alone]
    alone := by grind [inv.alone]
    occupied := by grind [inv.occupied]
    locked := by grind [inv.locked, CpuPc.isPass]
    booted := by grind [inv.booted]
    embryo := by grind [inv.embryo]
    forks := by grind [inv.forks]
    booting := by grind [inv.booting]
  }

/-- A CPU takes up a RUNNABLE process, which no CPU executes. -/
theorem Placed.starts (inv : o.Placed) {back : Option Slot} (place : (o.cpu c).pc = .pass back)
    (ready : (o.core p).state = .runnable)
    (pcOf : ∀ d, (o'.cpu d).pc = if d = c then .running p else (o.cpu d).pc)
    (free : o'.lock = none)
    (core : ∀ q, o'.core q =
      if q = p then { o.core p with state := .running, chan := .null } else o.core q) :
    o'.Placed where
  onCpu := by grind [inv.onCpu]
  alone := by grind [inv.alone, inv.onCpu]
  occupied := by grind [inv.occupied]
  locked := by
    have locked := inv.locked
    grind [CpuPc.isPass]
  booted := by grind [inv.booted]
  embryo := by grind [inv.embryo]
  forks := by grind [inv.forks]
  booting := by grind [inv.booting]

/-- A CPU moves outside processes and `main`. -/
theorem Placed.idles (inv : o.Placed) {pc : CpuPc}
    (pcOf : ∀ d, (o'.cpu d).pc = if d = c then pc else (o.cpu d).pc)
    (stage : (o.cpu c).pc = .loopTop ∧ o.lock = none ∧ pc = .pass none ∧ o'.lock = some c ∨
      (∃ back, (o.cpu c).pc = .pass back) ∧ pc = .loopTop ∧ o'.lock = none)
    (core : ∀ q, o'.core q = o.core q) : o'.Placed where
  onCpu := by grind [inv.onCpu]
  alone := by grind [inv.alone]
  occupied := by grind [inv.occupied]
  locked := by grind [inv.locked, CpuPc.isPass]
  booted := by grind [inv.booted]
  embryo := by grind [inv.embryo]
  forks := by grind [inv.forks]
  booting := by grind [inv.booting]

/-- `userinit` moves on: its slot is claimed or published. -/
theorem Placed.boots (inv : o.Placed) {before : Option Slot} {pc : CpuPc} {core : Core}
    (place : (o.cpu c).pc = .boot before)
    (pcOf : ∀ d, (o'.cpu d).pc = if d = c then pc else (o.cpu d).pc) (lock : o'.lock = o.lock)
    (coreOf : ∀ q, o'.core q = if q = np then core else o.core q)
    (control : ∀ new copied, core.control = .forking new copied →
      (o.core np).control = .forking new copied)
    (stage : before = none ∧ (o.core np).state = .unused ∧ core.state = .embryo ∧
        pc = .boot (some np) ∨
      before = some np ∧ core.state = .runnable ∧ pc = .loopTop) : o'.Placed where
  onCpu := by grind [inv.onCpu, inv.booting]
  alone := by grind [inv.alone]
  occupied := by grind [inv.occupied]
  locked := by grind [inv.locked, CpuPc.isPass]
  booted := by grind [inv.booted]
  embryo := by grind [inv.embryo, inv.booting]
  forks := by grind [inv.forks]
  booting := by grind [inv.booting, inv.booted, inv.embryo]

/-- A `fork` begins with a slot that nobody had. -/
theorem Placed.forks_begin (inv : o.Placed) (unused : (o.core np).state = .unused)
    (cpu : ∀ d, o'.cpu d = o.cpu d) (lock : o'.lock = o.lock)
    (state : ∀ q, (o'.core q).state = if q = np then .embryo else (o.core q).state)
    (control : ∀ q, (o'.core q).control = if q = p then .forking np false else
      if q = np then .forkret else (o.core q).control) : o'.Placed where
  onCpu := by grind [inv.onCpu]
  alone := by grind [inv.alone]
  occupied := by grind [inv.occupied]
  locked := by grind [inv.locked]
  booted := by grind [inv.booted]
  embryo := by grind [inv.embryo]
  forks := by grind [inv.forks, inv.embryo]
  booting := by grind [inv.booting]

/-- The end of a `fork`, published or given back: its slot leaves EMBRYO. -/
theorem Placed.forks_end (inv : o.Placed) {copied : Bool} (outcome : ProcState)
    (mode : (o.core p).control = .forking np copied) (ended : outcome ≠ .running)
    (cpu : ∀ d, o'.cpu d = o.cpu d) (lock : o'.lock = o.lock)
    (state : ∀ q, (o'.core q).state = if q = np then outcome else (o.core q).state)
    (control : ∀ q, (o'.core q).control = if q = p then .syscall else (o.core q).control) :
    o'.Placed where
  onCpu := by grind [inv.onCpu, inv.embryo p np copied mode]
  alone := by grind [inv.alone]
  occupied := by grind [inv.occupied]
  locked := by grind [inv.locked]
  booted := by grind [inv.booted]
  embryo := by grind [inv.embryo, inv.forks]
  forks := by grind [inv.forks]
  booting := by
    have booting := inv.booting
    grind

/-- One step keeps the invariant, whatever the policy. -/
theorem Placed.step (inv : o.Placed) (step : o.Step label o') : o'.Placed := by
  have running := inv.onCpu
  cases step with
  | calm c trap own stage woken awake full childless ordinary later same =>
    have record : ∀ q, (o'.core q).control = (o.core q).control := fun q => by rw [(woken q).rest]
    have state := fun q => (woken q).state
    refine inv.keep (fun d => ?_) (by rw [same]; rfl) ?running ?embryo ?forking
    · rw [same]
      exact setTrap_pc o c d trap
    case running | embryo | forking => grind
  | exits c p labelled place killed user same =>
    subst same
    exact inv.keep (setTrap_pc o c · .exiting) rfl (fun _ => Iff.rfl) (fun _ => id)
      (fun _ _ copied mode => ⟨copied, mode⟩)
  | kills c slot pid labelled found same | forkCopies c p np labelled place quiet mode same
  | reaps c p child own kind place parent zombie found same =>
    subst same
    refine inv.keep (fun _ => rfl) rfl ?running ?embryo ?forking
    case running | embryo | forking => grind
  | acts c p core trap own kind place quiet calm record same =>
    have outside : ∀ new copied, core.control ≠ .forking new copied := by
      intro new copied mode
      have after := record.after
      rw [mode] at after
      cases after
    have state : core.state = (o.core p).state := by rw [record.rest]
    subst same
    refine inv.keep (setTrap_pc (o.set p core) c · trap) rfl ?running ?embryo ?forking
    case running | embryo | forking => grind
  | sleeps c p chan own kind place mode waits childless free same
  | yields c p labelled place stage free same =>
    subst same
    apply inv.sched place free
    case left | running | embryo | control => grind
  | exit c p labelled place mode ordinary free passes same =>
    have control : ∀ q, (o'.core q).control = (o.core q).control := fun q => by rw [passes.rest]
    have gone := passes.gone
    have state := passes.state
    rw [same]
    apply inv.sched place free
    case left | running | embryo | control => grind
  | starts c p back labelled place ready same =>
    subst same
    exact inv.starts place ready (fun d => by simp only [Function.update_apply]; split <;> rfl) rfl
      (set_core o p · _)
  | ends c back labelled place same =>
    subst same
    exact inv.idles (setCpu_pc o c · .loopTop) (Or.inr ⟨⟨back, place⟩, rfl, rfl⟩) (fun _ => rfl)
  | enters c labelled place free same =>
    subst same
    exact inv.idles (setCpu_pc o c · (.pass none)) (Or.inl ⟨place, free, rfl, rfl⟩) (fun _ => rfl)
  | bootClaims c np labelled place free unused same =>
    subst same
    exact inv.boots place (setCpu_pc (o.claim np) c · (.boot (some np))) rfl (set_core o np · _) nofun
      (Or.inl ⟨rfl, unused, rfl, rfl⟩)
  | bootFull c labelled place full same =>
    subst same
    refine inv.keep (fun d => ?_) rfl (fun _ => Iff.rfl) (fun _ => id)
      (fun _ _ copied mode => ⟨copied, mode⟩)
    refine (setCpu_pc o c d _).trans ?_
    grind
  | bootReady c np labelled place free same =>
    subst same
    exact inv.boots place (setCpu_pc (o.setState np .runnable) c · .loopTop) rfl (set_core o np · _)
      (fun _ _ => id) (Or.inr ⟨rfl, rfl, rfl⟩)
  | forks c p np labelled place quiet mode unused same =>
    subst same
    refine inv.forks_begin (p := p) unused (fun _ => rfl) rfl ?state ?control
    case state | control => grind
  | forkFails c p np labelled place quiet mode same =>
    subst same
    refine inv.forks_end .unused mode nofun (fun _ => rfl) rfl ?state ?control
    case state | control => grind
  | forkReady c p np labelled place quiet mode same =>
    subst same
    refine inv.forks_end .runnable mode nofun (fun _ => rfl) rfl ?state ?control
    case state | control => grind

end Outline

namespace Kernel

structure KernelInv (k : Kernel ncpu) : Prop where
  onCpu : ∀ c p, (k.cpu c).pc = .running p → (k.proc p).state = .running
  alone : ∀ c d p, (k.cpu c).pc = .running p → (k.cpu d).pc = .running p → c = d
  locked : ∀ c, k.lock = some c → ∃ back, (k.cpu c).pc = .pass back
  booted : ∀ c np, (k.cpu c).pc = .boot np → c.val = 0
  embryo : ∀ p np copied, (k.proc p).control = .forking np copied →
    (k.proc np).state = .embryo
  forks : ∀ p q np copied copied', (k.proc p).control = .forking np copied →
    (k.proc q).control = .forking np copied' → p = q
  booting : ∀ c np, (k.cpu c).pc = .boot (some np) →
    (k.proc np).state = .embryo ∧
      ∀ p copied, (k.proc p).control ≠ .forking np copied

theorem boot_placed : (boot ncpu).outline.Placed := by
  have pcOf : ∀ c, ((boot ncpu).outline.cpu c).pc = if c.val = 0 then .boot none else .loopTop :=
    fun _ => rfl
  have core : ∀ p, (boot ncpu).outline.core p = ({} : Proc).core := fun _ => rfl
  have free : (boot ncpu).outline.lock = none := rfl
  constructor
  case locked => grind [CpuPc.isPass]
  case alone | booted => grind
  case onCpu | occupied | embryo | forks | booting => grind [Proc.core]

variable {k : Kernel ncpu} {policy : Policy}

theorem reachable_placed (reachable : (machine policy ncpu).Reachable k) :
    k.outline.Placed := by
  apply reachable.invariant boot_placed
  intro before label next inv stepped
  exact inv.step (outlineStep stepped)

theorem reachable_kernelInv (reachable : (machine policy ncpu).Reachable k) :
    k.KernelInv := by
  have inv := reachable_placed reachable
  exact ⟨inv.onCpu, inv.alone, fun c held => CpuPc.isPass_iff.mp ((inv.locked c).mp held),
    inv.booted, inv.embryo, inv.forks, inv.booting⟩

end Kernel

end Xv6
