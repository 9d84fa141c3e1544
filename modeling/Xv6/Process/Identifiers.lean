/-
Process identifiers and start times.

Identifiers are handed out in increasing order and `start_time` is read from the tick
counter at the same moment, so among the slots in use the order of identifiers is the
order of creation, and it agrees with the order of start times as far as that goes, until
the tick counter no longer fits into an `int`.
-/

import Xv6.Process.Traps

namespace Xv6

open Library

namespace Outline

variable {ncpu : Nat}

/-- Identifiers other than 0 belong to one slot, whether it is in use or free; the slots in use
were numbered in the order of their start times. -/
structure Numbered (o : Outline ncpu) : Prop where
  positive : 1 ≤ o.nextpid
  below : ∀ p, (o.core p).pid < o.nextpid
  apart : ∀ p q, (o.core p).pid = (o.core q).pid → (o.core p).pid ≠ 0 → p = q
  named : ∀ p, (o.core p).state ≠ .unused → 1 ≤ (o.core p).pid
  counted : 0 ≤ o.ticks
  born : ∀ p, (o.core p).state ≠ .unused → (o.core p).startTime ≤ o.ticks
  ordered : o.ticks < 2 ^ 31 →
    ∀ p q, (o.core p).state ≠ .unused → (o.core q).state ≠ .unused →
      (o.core p).pid < (o.core q).pid → (o.core p).startTime ≤ (o.core q).startTime

variable {o o' : Outline ncpu} {label : Label ncpu} {slot : Slot}

theorem Numbered.keep (inv : o.Numbered) (pid : ∀ p, (o'.core p).pid = (o.core p).pid)
    (start : ∀ p, (o'.core p).startTime = (o.core p).startTime)
    (used : ∀ p, (o.core p).state = .unused → (o'.core p).state = .unused)
    (nextpid : o'.nextpid = o.nextpid) (ticks : o.ticks ≤ o'.ticks) : o'.Numbered := by
  obtain ⟨positive, below, apart, named, counted, born, ordered⟩ := inv
  constructor
  case counted => omega
  case ordered =>
    intro small p q usedP usedQ less
    rw [start, start]
    refine ordered (by omega) p q ?_ ?_ (by rwa [← pid p, ← pid q])
    · exact fun unused => usedP (used p unused)
    · exact fun unused => usedQ (used q unused)
  case positive | below | apart | named | born => grind

theorem Numbered.congr (inv : o.Numbered) (core : o'.core = o.core)
    (nextpid : o'.nextpid = o.nextpid) (ticks : o'.ticks = o.ticks) : o'.Numbered :=
  inv.keep (fun p => by rw [core]) (fun p => by rw [core]) (fun p => by rw [core]; exact id) nextpid
    ticks.ge

/-- A new process has the largest identifier and the latest start time. -/
theorem Numbered.claim (inv : o.Numbered) (slot : Slot) : (o.claim slot).Numbered := by
  obtain ⟨positive, below, apart, named, counted, born, ordered⟩ := inv
  have nextpid : (o.claim slot).nextpid = o.nextpid + 1 := rfl
  have ticks : (o.claim slot).ticks = o.ticks := rfl
  have now := int32_le counted
  have exactly := int32_of_lt counted
  constructor
  case positive | below | apart | named => grind
  case counted | born | ordered => grind

theorem Numbered.reap (inv : o.Numbered) {core : Core} (pid : core.pid = 0)
    (free : core.state = .unused) : (o.set slot core).Numbered := by
  obtain ⟨positive, below, apart, named, counted, born, ordered⟩ := inv
  have nextpid : (o.set slot core).nextpid = o.nextpid := rfl
  have ticks : (o.set slot core).ticks = o.ticks := rfl
  constructor
  case positive | below | apart | named => grind
  case counted | born | ordered => grind

/-- A record changes that keeps its identifier and stays in use. -/
theorem Numbered.set (inv : o.Numbered) {core : Core} (pid : core.pid = (o.core slot).pid)
    (start : core.startTime = (o.core slot).startTime)
    (used : (o.core slot).state = .unused → core.state = .unused) : (o.set slot core).Numbered := by
  refine inv.keep ?pid ?start ?used rfl le_rfl
  case pid | start | used => grind

theorem Numbered.step (inv : o.Numbered) (placed : o.Placed) (step : o.Step label o') :
    o'.Numbered := by
  have in_use : ∀ {p : Slot} {state : ProcState}, (o.core p).state = state → state ≠ .unused →
      (o.core p).state ≠ .unused := fun here used => here ▸ used
  cases step with
  | calm c trap own stage woken awake full childless ordinary later same =>
    refine inv.keep (fun p => by rw [(woken p).rest]) (fun p => by rw [(woken p).rest]) ?_
      (by rw [same]; rfl) later
    intro p unused
    rcases (woken p).state with kept | ⟨slept, _⟩
    · exact kept.trans unused
    · cases slept.symm.trans unused
  | exit c p labelled place mode ordinary free passes same =>
    have running := placed.onCpu c p place
    refine inv.keep (fun q => by rw [passes.rest]) (fun q => by rw [passes.rest]) ?_
      (by rw [same]; rfl) (by rw [same]; exact le_rfl)
    intro q unused
    have other : q ≠ p := by
      rintro rfl
      cases unused.symm.trans running
    rcases passes.state q other with kept | ⟨slept, _⟩
    · exact kept.trans unused
    · cases slept.symm.trans unused
  | acts c p core trap own kind place quiet calm record same =>
    have changed : (o.set p core).Numbered := by
      refine inv.set (by rw [record.rest]) (by rw [record.rest]) ?_
      rw [record.rest]
      exact id
    rw [same]
    exact changed.congr rfl rfl rfl
  | exits | ends | enters | bootFull =>
    rename_i same
    rw [same]
    exact inv.congr rfl rfl rfl
  | kills c slot pid labelled found same =>
    rw [same]
    refine inv.set rfl rfl ?_
    intro unused
    rw [unused]
    rfl
  | sleeps c p chan own kind place | yields c p labelled place =>
    rename_i same
    have used := in_use (placed.onCpu c p place) nofun
    rw [same]
    refine (inv.set ?_ ?_ (fun unused => absurd unused used)).congr rfl rfl rfl
    · rfl
    · rfl
  | starts c p back labelled place ready same =>
    have used := in_use ready nofun
    rw [same]
    refine (inv.set ?_ ?_ (fun unused => absurd unused used)).congr rfl rfl rfl
    · rfl
    · rfl
  | bootClaims c np labelled place free unused same =>
    rw [same]
    exact (inv.claim np).congr rfl rfl rfl
  | bootReady c np labelled place free same =>
    have used := in_use (placed.booting c np place).1 nofun
    rw [same]
    refine (inv.set ?_ ?_ (fun unused => absurd unused used)).congr rfl rfl rfl
    · rfl
    · rfl
  | forks c p np labelled place quiet mode unused same =>
    rw [same]
    exact (inv.claim np).set rfl rfl id
  | forkFails c p np labelled place quiet mode same =>
    rw [same]
    have given : (o.setState np .unused).Numbered := inv.set rfl rfl (fun _ => rfl)
    exact given.set rfl rfl id
  | forkCopies c p np labelled place quiet mode same =>
    rw [same]
    have given : (o.set np { o.core np with parent := some p }).Numbered := inv.set rfl rfl id
    exact given.set rfl rfl id
  | forkReady c p np labelled place quiet mode same =>
    have used := in_use (placed.embryo p np true mode) nofun
    have ready : (o.setState np .runnable).Numbered :=
      inv.set rfl rfl (fun unused => absurd unused used)
    rw [same]
    exact ready.set rfl rfl id
  | reaps c p child own kind place parent zombie found same =>
    rw [same]
    exact inv.reap rfl rfl

end Outline

namespace Kernel

variable {ncpu : Nat}

def InUse (k : Kernel ncpu) (p : Slot) : Prop :=
  (k.proc p).state ≠ .unused

variable {k next : Kernel ncpu}

theorem inUse_of_runnable {p : Slot} (ready : (k.proc p).state = .runnable) :
    k.InUse p := by
  unfold InUse
  rw [ready]
  decide

structure PidInv (k : Kernel ncpu) : Prop where
  positive : 1 ≤ k.nextpid
  issued : ∀ p, k.InUse p →
    1 ≤ (k.proc p).pid ∧ (k.proc p).pid < k.nextpid
  distinct : ∀ p q, k.InUse p → k.InUse q →
    (k.proc p).pid = (k.proc q).pid → p = q
  counted : 0 ≤ k.ticks
  ordered : k.ticks < 2 ^ 31 → ∀ p q, k.InUse p → k.InUse q →
    (k.proc p).pid < (k.proc q).pid →
    (k.proc p).startTime ≤ (k.proc q).startTime

variable {policy : Policy}

theorem reachable_numbered (reachable : (machine policy ncpu).Reachable k) :
    k.outline.Numbered := by
  apply reachable.invariant_above
  · exact ⟨le_refl 1, fun _ => Int.zero_lt_one, fun _ _ _ named => absurd rfl named,
      fun _ used => absurd rfl used, le_refl 0, fun _ used => absurd rfl used,
      fun _ _ _ used => absurd rfl used⟩
  · intro before label next reached inv stepped
    exact inv.step (reachable_placed reached) (outlineStep stepped)

theorem reachable_pidInv (reachable : (machine policy ncpu).Reachable k) :
    k.PidInv := by
  have inv := reachable_numbered reachable
  refine ⟨inv.positive, fun p used => ⟨inv.named p used, inv.below p⟩, ?_, inv.counted,
    inv.ordered⟩
  intro p q used _ same
  have named := inv.named p used
  exact inv.apart p q same (by omega)

end Kernel

end Xv6
