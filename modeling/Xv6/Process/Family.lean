/-
The process tree over whole runs.

`fork` writes `np->parent` outside the lock, `exit` passes children on to the first
process and wakes whoever may have to wait for a ZOMBIE, and slots are used again.
Every step of the kernel is an event of the tree of its slots.  So every process but the
first has a parent that is alive, and nobody sleeps in `wait` beside a ZOMBIE child.
-/

import Xv6.Process.Moves
import Xv6.Library.ProcessTree

namespace Xv6

open Library

def ProcState.life : ProcState → Life
  | .unused => .free
  | .embryo => .embryo
  | .sleeping | .runnable | .running => .living
  | .zombie => .dead

variable {state : ProcState}

theorem ProcState.life_free : state.life = .free ↔ state = .unused := by
  cases state <;> simp [life]

theorem ProcState.life_dead : state.life = .dead ↔ state = .zombie := by
  cases state <;> simp [life]

theorem ProcState.life_living :
    state.life = .living ↔ state = .runnable ∨ state = .running ∨ state = .sleeping := by
  cases state <;> simp [life]

/-! ### The tree of an outline -/

namespace Outline

variable {ncpu : Nat}

def tree (o : Outline ncpu) : ProcessTree Slot where
  life p := (o.core p).state.life
  parent p := (o.core p).parent
  pid p := (o.core p).pid
  fork p := (o.core p).control.fork
  waits p := (o.core p).waits
  first := o.initproc
  nextpid := o.nextpid
  boots np := ∃ c, (o.cpu c).pc = .boot np

variable {o o' : Outline ncpu} {c : Fin ncpu} {p np : Slot}

attribute [grind] ProcState.life Control.fork
attribute [grind =] Core.waits_eq_some
attribute [local grind =] Function.update_apply

theorem tree_ext {life : Slot → Life} {parent : Slot → Option Slot} {pid : Slot → Int}
    {fork : Slot → Option (Slot × Bool)} {first : Option Slot} {nextpid : Int}
    (sameLife : ∀ q, (o'.core q).state.life = life q)
    (sameParent : ∀ q, (o'.core q).parent = parent q) (samePid : ∀ q, (o'.core q).pid = pid q)
    (sameFork : ∀ q, (o'.core q).control.fork = fork q) (sameFirst : o'.initproc = first)
    (sameNext : o'.nextpid = nextpid) :
    o'.tree = ⟨life, parent, pid, fork, o'.tree.waits, first, nextpid, o'.tree.boots⟩ :=
  ProcessTree.ext (funext sameLife) (funext sameParent) (funext samePid) (funext sameFork) rfl
    sameFirst sameNext rfl

/-- An event without a birth or a death; a process that falls asleep in `wait` has no ZOMBIE
child. -/
theorem tree_quiet (life : ∀ q, (o'.core q).state.life = (o.core q).state.life)
    (parent : ∀ q, (o'.core q).parent = (o.core q).parent)
    (pid : ∀ q, (o'.core q).pid = (o.core q).pid)
    (fork : ∀ q, (o'.core q).control.fork = (o.core q).control.fork)
    (initproc : o'.initproc = o.initproc) (nextpid : o'.nextpid = o.nextpid)
    (waits : ∀ q r, (o'.core q).waits = some r → (o.core q).waits = some r ∨
      (o.core q).state = .running ∧ r = q ∧ o.NoZombies q)
    (boots : ∀ d i, (o'.cpu d).pc = .boot i → (o.cpu d).pc = .boot i) :
    o.tree.Step o'.tree .quiet := by
  refine .quiet (tree_ext life parent pid fork initproc nextpid) ?_ ?_
  · intro q r waiting
    rcases waits q r waiting with before | ⟨running, own, childless⟩
    · exact Or.inl before
    · refine Or.inr ⟨ProcState.life_living.mpr (Or.inr (Or.inl running)), own, ?_⟩
      intro child given dead
      exact childless child given (ProcState.life_dead.mp dead)
  · rintro i ⟨d, place⟩
    exact ⟨d, boots d i place⟩

theorem tree_fork (placed : o.Placed) (place : (o.cpu c).pc = .running p)
    (mode : (o.core p).control = .syscall) (unused : (o.core np).state = .unused)
    (outside : (o.core np).control.fork = none) :
    o.tree.Step ((o.claim np).setControl p (.forking np false)).tree (.fork p np) := by
  have running := placed.onCpu c p place
  refine .fork p np (ProcState.life_living.mpr (Or.inr (Or.inl running))) (congrArg Control.fork mode)
    (ProcState.life_free.mpr unused)
    (tree_ext ?life ?parent ?pid ?fork rfl rfl) ⟨?waits, fun _ => id⟩
  case life | parent | pid | fork | waits =>
    simp only [tree]
    grind

theorem tree_fail (mode : (o.core p).control = .forking np false) :
    o.tree.Step ((o.setState np .unused).setControl p .syscall).tree (.fail p np) := by
  refine .fail p np (congrArg Control.fork mode)
    (tree_ext ?life ?parent ?pid ?fork rfl rfl) ⟨?waits, fun _ => id⟩
  case life | parent | pid | fork | waits =>
    simp only [tree]
    grind

theorem tree_copy (mode : (o.core p).control = .forking np false) :
    o.tree.Step ((o.set np { o.core np with parent := some p }).setControl p
      (.forking np true)).tree (.copy p np) := by
  refine .copy p np (congrArg Control.fork mode)
    (tree_ext ?life ?parent ?pid ?fork rfl rfl) ⟨?waits, fun _ => id⟩
  case life | parent | pid | fork | waits =>
    simp only [tree]
    grind

theorem tree_publish (mode : (o.core p).control = .forking np true) :
    o.tree.Step ((o.setState np .runnable).setControl p .syscall).tree (.publish p np) := by
  refine .publish p np (congrArg Control.fork mode)
    (tree_ext ?life ?parent ?pid ?fork rfl rfl) ⟨?waits, fun _ => id⟩
  case life | parent | pid | fork | waits =>
    simp only [tree]
    grind

/-- The slot of the first process is allocated while the table is empty. -/
theorem tree_claim (placed : o.Placed) (place : (o.cpu c).pc = .boot none)
    (unused : (o.core np).state = .unused) (outside : (o.core np).control.fork = none) :
    o.tree.Step ({ (o.claim np).setCpu c (.boot (some np)) with
      initproc := some np } : Outline ncpu).tree (.claim np) := by
  refine .claim np ⟨c, place⟩ (ProcState.life_free.mpr unused)
    (tree_ext ?life ?parent ?pid ?fork rfl rfl) ?waits ?boots
  case boots =>
    -- only CPU 0 is ever in `main`
    rintro i ⟨d, there⟩
    have atZero := placed.booted c none place
    have only := placed.booted d
    change (((o.claim np).setCpu c (.boot (some np))).cpu d).pc = .boot i at there
    rw [setCpu_pc] at there
    split at there
    · cases there
      rfl
    · rename_i other
      exact absurd (Fin.ext ((only i there).trans atZero.symm)) other
  case life | parent | pid | fork | waits =>
    simp only [tree]
    grind

theorem tree_start (placed : o.Placed) (place : (o.cpu c).pc = .boot (some np)) :
    o.tree.Step ((o.setState np .runnable).setCpu c .loopTop).tree (.start np) := by
  refine .start np ⟨c, place⟩ (tree_ext ?life ?parent ?pid ?fork rfl rfl) ?waits ?boots
  case boots =>
    rintro i ⟨d, there⟩
    have atZero := placed.booted c (some np) place
    rw [setCpu_pc] at there
    split at there
    · cases there
    · rename_i other
      exact absurd (Fin.ext ((placed.booted d i there).trans atZero.symm)) other
  case life | parent | pid | fork | waits =>
    simp only [tree]
    grind

theorem tree_exit (placed : o.Placed) (place : (o.cpu c).pc = .running p)
    (outside : (o.core p).control.fork = none) (ordinary : o.initproc ≠ some p)
    (passes : o.Passes p o'.core) (same : o' = { o.sched c p with core := o'.core }) :
    o.tree.Step o'.tree (.exit p) := by
  have running := placed.onCpu c p place
  obtain ⟨gone, state, parent, rest, sleepers⟩ := passes
  have initproc : o'.initproc = o.initproc := by rw [same]; rfl
  have nextpid : o'.nextpid = o.nextpid := by rw [same]; rfl
  have cpuOf : ∀ d, o'.cpu d = (o.sched c p).cpu d := fun d => by rw [same]
  refine .exit p (ProcState.life_living.mpr (Or.inr (Or.inl running))) outside ordinary
    (tree_ext ?life parent ?pid ?fork initproc nextpid) ⟨?waits, ?boots⟩ ?sleepers
  case sleepers =>
    intro q r waits
    obtain ⟨slept, chan⟩ := (o'.core q).waits_eq_some.mp waits
    obtain ⟨notParent, notFirst⟩ := sleepers q r slept chan
    refine ⟨?_, notParent, fun zombie child dead => notFirst zombie child (ProcState.life_dead.mp dead)⟩
    rintro rfl
    cases gone.symm.trans slept
  case life | pid | fork | waits | boots =>
    simp only [tree]
    grind

theorem tree_reap {child : Slot} (zombie : (o.core child).state = .zombie) :
    o.tree.Step (o.set child { o.core child with
      pid := 0, parent := none, killed := false, state := .unused }).tree (.reap child) := by
  refine .reap child (ProcState.life_dead.mpr zombie)
    (tree_ext ?life ?parent ?pid ?fork rfl rfl) ⟨?waits, fun _ => id⟩
  case life | parent | pid | fork | waits =>
    simp only [tree]
    grind

end Outline

namespace Kernel

variable {ncpu : Nat}

def tree (k : Kernel ncpu) : ProcessTree Slot where
  life p := (k.proc p).state.life
  parent p := (k.proc p).parent
  pid p := (k.proc p).pid
  fork p := (k.proc p).control.fork
  waits p := (k.proc p).waits
  first := k.initproc
  nextpid := k.nextpid
  boots np := ∃ c, (k.cpu c).pc = .boot np

theorem boot_treeOk : (boot ncpu).tree.Ok where
  parents := nofun
  root := nofun
  notSelf := nofun
  free := fun _ _ => rfl
  embryo := nofun
  copied := nofun
  forker := nofun
  forks := nofun
  sleepers := nofun
  init := nofun
  booting := by
    rintro np ⟨c, place⟩
    simp only [boot] at place
    split at place
    · cases place
      exact ⟨fun _ => rfl, rfl, nofun⟩
    · cases place

/-! ### Every step -/

/-- What a step of `wait` or `waitx` returns; `none` if it goes to sleep. -/
def returnedBy (k : Kernel ncpu) : Label ncpu → Option Int
  | .wait c =>
    match (k.cpu c).pc with
    | .running p => (k.wait c p).1
    | _ => none
  | .waitx c =>
    match (k.cpu c).pc with
    | .running p => (k.waitx c p).1
    | _ => none
  | _ => none

def chronicle (k : Kernel ncpu) (label : Label ncpu) (history : History) : History :=
  match label with
  | .userinitAlloc _ =>
    match k.firstUnused with
    | some _ => { history with allocated := history.allocated + 1 }
    | none => history
  | .allocproc c =>
    match k.firstUnused, (k.cpu c).pc with
    | some _, .running p =>
      { history with
        allocated := history.allocated + 1
        creator := Function.update history.creator k.nextpid
          (some (k.proc p).pid) }
    | _, _ => history
  | .exit c =>
    match (k.cpu c).pc with
    | .running p => { history with exited := (k.proc p).pid :: history.exited }
    | _ => history
  | .wait _ | .waitx _ =>
    match k.returnedBy label with
    -- an identifier is positive; -1 says that there is nobody to wait for
    | some pid => if 0 < pid then { history with reaped := pid :: history.reaped } else history
    | none => history
  | _ => history

/-- A step is an event of the tree, and the observer notes what happens. -/
def Happens (k : Kernel ncpu) (label : Label ncpu) (next : Kernel ncpu)
    (event : ProcessTree.Event Slot) : Prop :=
  k.tree.Step next.tree event ∧
    ∀ history, k.chronicle label history = k.tree.note history event

section Steps

open Outline (tree_quiet tree_claim tree_start tree_fork tree_fail tree_copy tree_publish tree_exit
  tree_reap)

variable {policy : Policy} {k next : Kernel ncpu} {label : Label ncpu}

theorem chronicle_wait {c : Fin ncpu} {p : Slot} (labelled : label = .wait c ∨ label = .waitx c)
    (place : (k.cpu c).pc = .running p) (history : History) :
    k.chronicle label history =
      match (k.waitLoop c p).2.1 with
      | some pid => if 0 < pid then { history with reaped := pid :: history.reaped } else history
      | none => history := by
  rcases labelled with labelled | labelled
  · subst label
    simp only [chronicle, returnedBy, place]
    rfl
  · subst label
    simp only [chronicle, returnedBy, place]
    rfl

theorem wait_label (kind : label.kind = .wait) :
    label = .wait label.cpu ∨ label = .waitx label.cpu := by
  cases label with
  | wait c => exact Or.inl rfl
  | waitx c => exact Or.inr rfl
  | _ => cases kind

theorem waitLoop_childless {c : Fin ncpu} {p : Slot} (none : k.zombieChild p = .none) :
    (k.waitLoop c p).2.1 = some (-1) ∨ (k.waitLoop c p).2.1 = .none := by
  simp only [waitLoop, none]
  split
  · exact Or.inl rfl
  · exact Or.inr rfl

/-- A step in which nobody is born, exits or is waited for. -/
theorem chronicle_quiet (full : label.kind = .claim → k.firstUnused = none)
    (childless : label.kind = .wait → ∀ p, (k.cpu label.cpu).pc = .running p →
      k.zombieChild p = none) (ordinary : label.kind ≠ .exit) (history : History) :
    k.chronicle label history = history := by
  have waited : label.kind = .wait → k.chronicle label history = history := by
    intro kind
    cases place : (k.cpu label.cpu).pc with
    | running p =>
      rw [chronicle_wait (wait_label kind) place]
      rcases waitLoop_childless (c := label.cpu) (childless kind p place) with failed | slept
      · rw [failed]
        rfl
      · rw [slept]
    | _ =>
      rcases wait_label kind with same | same <;> rw [same] <;>
        simp only [chronicle, returnedBy, place]
  cases label with
  | userinitAlloc c => simp only [chronicle, full rfl]
  | allocproc c => simp only [chronicle, full rfl]
  | exit c => exact absurd rfl ordinary
  | wait c | waitx c => exact waited rfl
  | _ => rfl

theorem firstUnused_none (full : ∀ p, (k.outline.core p).state ≠ .unused) :
    k.firstUnused = none := by
  refine List.find?_eq_none.mpr ?_
  intro p _ unused
  exact full p (of_decide_eq_true unused)

theorem zombieChild_none {p : Slot} (childless : k.outline.NoZombies p) :
    k.zombieChild p = none := by
  refine List.find?_eq_none.mpr ?_
  intro child _ matching
  simp only [Bool.and_eq_true, decide_eq_true_eq] at matching
  exact childless child matching.1 matching.2

theorem firstUnused_some {np : Slot} (unused : (k.proc np).state = .unused) :
    ∃ slot, k.firstUnused = some slot :=
  Option.isSome_iff_exists.mp (List.find?_isSome.mpr ⟨np, List.mem_finRange np, decide_eq_true unused⟩)

theorem happens (ok : k.tree.Ok) (placed : k.outline.Placed)
    (traps : k.outline.Resumes) (pids : k.PidInv)
    (stepped : k.step policy label = some next) :
    ∃ event, k.Happens label next event := by
  -- a free slot and an EMBRYO are outside `fork`
  have outside : ∀ np, (k.outline.core np).state = .unused →
      (k.outline.core np).control.fork = none := by
    intro np unused
    cases inside : (k.outline.core np).control.fork with
    | none => rfl
    | some taken =>
      have living := (ok.forker np taken.1 taken.2 inside).1
      cases (ProcState.life_free.mpr unused).symm.trans living
  have step := outlineStep stepped
  unfold Happens
  change ∃ event, k.outline.tree.Step next.outline.tree event ∧ _
  generalize next.outline = o' at step ⊢
  have running := placed.onCpu
  cases step with
  | calm c trap own stage woken awake full childless ordinary later same =>
    have cpuOf : ∀ d, o'.cpu d = (k.outline.setTrap c trap).cpu d := fun d => by rw [same]
    have state := fun q => (woken q).state
    have rest := fun q => (woken q).rest
    refine ⟨.quiet, tree_quiet ?life ?parent ?pid ?fork (by rw [same]; rfl) (by rw [same]; rfl)
        ?waits ?boots,
      chronicle_quiet (fun kind => firstUnused_none (full kind))
        (fun kind p place => zombieChild_none (childless kind p (own ▸ place))) ordinary⟩
    case life | parent | pid | fork | waits | boots => grind
  | exits c p labelled | kills c slot pid labelled | yields c p labelled place
  | starts c p back labelled place ready | ends c back labelled | enters c labelled =>
    rename_i same
    subst label same
    refine ⟨.quiet, tree_quiet ?life ?parent ?pid ?fork rfl rfl ?waits ?boots, fun _ => rfl⟩
    case life | parent | pid | fork | waits | boots => grind
  | acts c p core trap own kind place quiet calm record same =>
    obtain ⟨killed, before, after, rest⟩ := record
    subst same
    refine ⟨.quiet, tree_quiet ?life ?parent ?pid ?fork rfl rfl ?waits ?boots,
      chronicle_quiet ?full ?childless ?ordinary⟩
    case life | parent | pid | fork | waits | boots => grind
    case full | childless | ordinary => grind
  | sleeps c p chan own kind place mode waits childless free same =>
    subst same
    refine ⟨.quiet, tree_quiet ?life ?parent ?pid ?fork rfl rfl ?waits ?boots,
      chronicle_quiet ?full ?childless ?ordinary⟩
    case childless =>
      intro kind' q there
      cases place.symm.trans (own ▸ there)
      exact zombieChild_none (childless (Or.inl kind'))
    case life | parent | pid | fork | waits | boots => grind
    case full | ordinary => grind
  | bootFull c labelled place full same =>
    have first : k.outline.initproc = none := (ok.booting none ⟨c, place⟩).2.1
    subst same
    refine ⟨.quiet, tree_quiet (fun _ => rfl) (fun _ => rfl) (fun _ => rfl) (fun _ => rfl) first.symm
      rfl (fun _ _ => Or.inl) ?boots,
      chronicle_quiet (fun _ => firstUnused_none full) ?childless ?ordinary⟩
    case boots => grind
    case childless | ordinary => grind [Label.kind]
  | bootClaims c np labelled place free unused same =>
    obtain ⟨slot, found⟩ := firstUnused_some unused
    subst label same
    refine ⟨.claim np, tree_claim placed place unused (outside np unused), fun history => ?_⟩
    simp only [chronicle, found]
    rfl
  | bootReady c np labelled place free same =>
    subst label same
    exact ⟨.start np, tree_start placed place, fun _ => rfl⟩
  | forks c p np labelled place quiet mode unused same =>
    obtain ⟨slot, found⟩ := firstUnused_some unused
    subst label same
    refine ⟨.fork p np, tree_fork placed place mode unused (outside np unused), fun history => ?_⟩
    simp only [chronicle, found, show (k.cpu c).pc = .running p from place]
    rfl
  | forkFails c p np labelled place quiet mode same =>
    subst label same
    exact ⟨.fail p np, tree_fail mode, fun _ => rfl⟩
  | forkCopies c p np labelled place quiet mode same =>
    subst label same
    exact ⟨.copy p np, tree_copy mode, fun _ => rfl⟩
  | forkReady c p np labelled place quiet mode same =>
    subst label same
    exact ⟨.publish p np, tree_publish mode, fun _ => rfl⟩
  | exit c p labelled place mode ordinary free passes same =>
    subst label
    refine ⟨.exit p, tree_exit placed place ?_ ordinary passes same, fun history => ?_⟩
    · rcases mode with ⟨_, call⟩ | exiting
      · exact congrArg Control.fork call
      · exact congrArg Control.fork (traps.exiting c p place exiting).2
    · simp only [chronicle, show (k.cpu c).pc = .running p from place]
      rfl
  | reaps c p child own kind place parent zombie found same =>
    subst same
    refine ⟨.reap child, tree_reap zombie, fun history => ?_⟩
    have reaped : k.zombieChild p = some child := found
    rw [chronicle_wait (wait_label kind) (own.symm ▸ place)]
    simp only [waitLoop, reaped]
    refine if_pos (pids.issued child ?_).1
    intro unused
    cases unused.symm.trans zombie

end Steps

theorem reachable_treeOk {policy : Policy} {k : Kernel ncpu}
    (reachable : (machine policy ncpu).Reachable k) : k.tree.Ok := by
  apply reachable.invariant_above boot_treeOk
  intro before label next reached ok stepped
  obtain ⟨event, step, _⟩ := happens ok (reachable_placed reached) (reachable_resumes reached)
    (reachable_pidInv reached) stepped
  exact ok.step step

/-- In every reachable state, under every policy and on any number of CPUs: a process that
is alive or a ZOMBIE has a living parent unless it is the first process, a free slot has no
parent, and nobody sleeps in `wait` or `waitx` with a ZOMBIE child. -/
theorem process_tree {policy : Policy} {k : Kernel ncpu}
    (reachable : (machine policy ncpu).Reachable k) :
    (∀ p, (k.proc p).state = .runnable ∨ (k.proc p).state = .running ∨
        (k.proc p).state = .sleeping ∨ (k.proc p).state = .zombie →
      k.initproc ≠ some p →
      ∃ q, (k.proc p).parent = some q ∧ ((k.proc q).state = .runnable ∨
        (k.proc q).state = .running ∨ (k.proc q).state = .sleeping)) ∧
    (∀ p, (k.proc p).state = .unused → (k.proc p).parent = none) ∧
    ∀ p, (k.proc p).state = .sleeping → (k.proc p).chan = .proc p →
      ∀ child, (k.proc child).parent = some p → (k.proc child).state ≠ .zombie := by
  have ok := reachable_treeOk reachable
  refine ⟨?_, ?_, ?_⟩
  · intro p states ordinary
    have born : (k.tree.life p).born = true := by
      change (k.proc p).state.life.born = true
      rcases states with state | state | state | state
      · rw [state]
        rfl
      · rw [state]
        rfl
      · rw [state]
        rfl
      · rw [state]
        rfl
    obtain ⟨q, parent, living⟩ := ok.parents p born ordinary
    exact ⟨q, parent, ProcState.life_living.mp living⟩
  · intro p unused
    exact ok.free p (ProcState.life_free.mpr unused)
  · intro p slept chan child parent zombie
    exact (ok.sleepers p p (Proc.waits_eq_some.mpr ⟨slept, chan⟩)).2.2 child parent
      (ProcState.life_dead.mpr zombie)

/-- The first process forks, its child forks and exits before the grandchild. -/
def orphaned : List (Label 1) :=
  startUp ++ forkLabels ++
    [.syscallEnter 0, .wait 0, .pass 0, .forkretReturn 0] ++ forkLabels ++
    [.syscallEnter 0, .exit 0]

set_option maxRecDepth 100000 in
/-- The grandchild has been passed to the first process, which has been woken up. -/
theorem process_tree_orphaned :
    ∃ k : Kernel 1, (machine .roundRobin 1).exec (boot 1) orphaned = some k ∧
      k.initproc = some 0 ∧ (k.proc 0).state = .runnable ∧
      (k.proc 1).state = .zombie ∧ (k.proc 2).state = .runnable ∧
      (∃ q, (k.proc 2).parent = some q ∧ ((k.proc q).state = .runnable ∨
        (k.proc q).state = .running ∨ (k.proc q).state = .sleeping)) ∧
      (k.proc 3).parent = none := by
  obtain ⟨k, ran, first, woken, zombie, ready, unused⟩ :
      ∃ k, (machine .roundRobin 1).exec (boot 1) orphaned = some k ∧
        k.initproc = some 0 ∧ (k.proc 0).state = .runnable ∧
        (k.proc 1).state = .zombie ∧ (k.proc 2).state = .runnable ∧
        (k.proc 3).state = .unused := by
    decide +kernel
  obtain ⟨parents, free, _⟩ := process_tree ⟨_, ran⟩
  refine ⟨k, ran, first, woken, zombie, ready, parents 2 (Or.inl ready) ?_, free 3 unused⟩
  rw [first]
  decide

end Kernel

end Xv6
