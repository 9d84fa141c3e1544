/-
Processes that fork, exit and wait for each other.

A process tree has slots that are free, reserved for an unfinished `fork`, alive or dead.
Here is what can happen to it, and what stays true: every process has a living parent, since
the first process takes over the children of those that exit.  A history beside the tree
records who created whom and who has been waited for.
-/

import Mathlib.Logic.Function.Basic
import Mathlib.Data.List.Nodup

namespace Xv6

open Function

/-- What the observer knows: the number of allocations, the creator of each identifier,
and the identifiers that have exited and that have been returned, latest first. -/
structure History where
  allocated : Nat := 0
  creator : Int → Option Int := fun _ => none
  exited : List Int := []
  reaped : List Int := []

namespace Library

/-- The life of a slot. -/
inductive Life
  | free
  | embryo
  | living
  | dead
  deriving DecidableEq

/-- Published, alive or dead. -/
def Life.born : Life → Bool
  | .living | .dead => true
  | .free | .embryo => false

attribute [grind] Life.born

@[ext]
structure ProcessTree (Slot : Type) where
  life : Slot → Life
  parent : Slot → Option Slot
  pid : Slot → Int
  /-- The slot that a process inside `fork` has taken, and whether it has got its parent. -/
  fork : Slot → Option (Slot × Bool)
  /-- On whose channel a process sleeps. -/
  waits : Slot → Option Slot
  first : Option Slot
  nextpid : Int
  /-- How far the first process has been made, as long as nothing else runs. -/
  boots : Option Slot → Prop

namespace ProcessTree

variable {Slot : Type} [DecidableEq Slot]

inductive Event (Slot : Type)
  | quiet
  | claim (np : Slot)
  | start (np : Slot)
  | fork (p np : Slot)
  | fail (p np : Slot)
  | copy (p np : Slot)
  | publish (p np : Slot)
  | exit (p : Slot)
  | reap (child : Slot)

def note (t : ProcessTree Slot) (history : History) : Event Slot → History
  | .claim _ => { history with allocated := history.allocated + 1 }
  | .fork p _ =>
    { history with
      allocated := history.allocated + 1
      creator := update history.creator t.nextpid (some (t.pid p)) }
  | .exit p => { history with exited := t.pid p :: history.exited }
  | .reap child => { history with reaped := t.pid child :: history.reaped }
  | _ => history

/-- Nobody sleeps on a process who did not before. -/
def Wakes (t t' : ProcessTree Slot) : Prop :=
  (∀ p q, t'.waits p = some q → t.waits p = some q) ∧ ∀ np, t'.boots np → t.boots np

/-- What the events do, apart from waking processes. -/
inductive Step (t t' : ProcessTree Slot) : Event Slot → Prop
  | quiet (same : t' = { t with waits := t'.waits, boots := t'.boots })
      (waits : ∀ p q, t'.waits p = some q → t.waits p = some q ∨ t.life p = .living ∧ q = p ∧
        ∀ child, t.parent child = some p → t.life child ≠ .dead)
      (boots : ∀ np, t'.boots np → t.boots np) : Step t t' .quiet
  | claim (np : Slot) (boot : t.boots none) (free : t.life np = .free)
      (same : t' = { t with
        life := update t.life np .embryo
        pid := update t.pid np t.nextpid
        nextpid := t.nextpid + 1
        first := some np
        waits := t'.waits
        boots := t'.boots })
      (waits : ∀ p q, t'.waits p = some q → t.waits p = some q)
      (boots : ∀ i, t'.boots i → i = some np) : Step t t' (.claim np)
  | start (np : Slot) (boot : t.boots (some np))
      (same : t' = { t with
        life := update t.life np .living, waits := t'.waits, boots := t'.boots })
      (waits : ∀ p q, t'.waits p = some q → t.waits p = some q)
      (boots : ∀ i, ¬t'.boots i) : Step t t' (.start np)
  | fork (p np : Slot) (living : t.life p = .living) (outside : t.fork p = none)
      (free : t.life np = .free)
      (same : t' = { t with
        life := update t.life np .embryo
        pid := update t.pid np t.nextpid
        nextpid := t.nextpid + 1
        fork := update t.fork p (some (np, false))
        waits := t'.waits
        boots := t'.boots })
      (wakes : t.Wakes t') : Step t t' (.fork p np)
  | fail (p np : Slot) (inside : t.fork p = some (np, false))
      (same : t' = { t with
        life := update t.life np .free
        fork := update t.fork p none
        waits := t'.waits
        boots := t'.boots })
      (wakes : t.Wakes t') : Step t t' (.fail p np)
  | copy (p np : Slot) (inside : t.fork p = some (np, false))
      (same : t' = { t with
        parent := update t.parent np (some p)
        fork := update t.fork p (some (np, true))
        waits := t'.waits
        boots := t'.boots })
      (wakes : t.Wakes t') : Step t t' (.copy p np)
  | publish (p np : Slot) (inside : t.fork p = some (np, true))
      (same : t' = { t with
        life := update t.life np .living
        fork := update t.fork p none
        waits := t'.waits
        boots := t'.boots })
      (wakes : t.Wakes t') : Step t t' (.publish p np)
  | exit (p : Slot) (living : t.life p = .living) (outside : t.fork p = none)
      (ordinary : t.first ≠ some p)
      (same : t' = { t with
        life := update t.life p .dead
        parent := fun q => if t.parent q = some p then t.first else t.parent q
        waits := t'.waits
        boots := t'.boots })
      (wakes : t.Wakes t')
      (woken : ∀ q r, t'.waits q = some r → q ≠ p ∧ t.parent p ≠ some r ∧
        ∀ zombie, t.parent zombie = some p → t.life zombie = .dead → t.first ≠ some r) :
      Step t t' (.exit p)
  | reap (child : Slot) (dead : t.life child = .dead)
      (same : t' = { t with
        life := update t.life child .free
        parent := update t.parent child none
        pid := update t.pid child 0
        waits := t'.waits
        boots := t'.boots })
      (wakes : t.Wakes t') : Step t t' (.reap child)

structure Ok (t : ProcessTree Slot) : Prop where
  parents : ∀ p, (t.life p).born = true → t.first ≠ some p →
    ∃ q, t.parent p = some q ∧ t.life q = .living
  root : ∀ i, t.first = some i → t.parent i = none
  notSelf : ∀ p, t.parent p ≠ some p
  free : ∀ p, t.life p = .free → t.parent p = none
  embryo : ∀ np q, t.life np = .embryo → t.parent np = some q → t.fork q = some (np, true)
  copied : ∀ p np, t.fork p = some (np, true) → t.parent np = some p
  forker : ∀ p np copied, t.fork p = some (np, copied) →
    t.life p = .living ∧ t.life np = .embryo
  forks : ∀ p q np copied copied', t.fork p = some (np, copied) →
    t.fork q = some (np, copied') → p = q
  sleepers : ∀ p q, t.waits p = some q → t.life p = .living ∧ q = p ∧
    ∀ child, t.parent child = some p → t.life child ≠ .dead
  init : ∀ p, (t.life p).born = true → ∃ i, t.first = some i ∧ t.life i = .living
  booting : ∀ np, t.boots np → (∀ p, (t.life p).born = false) ∧ t.first = np ∧
    ∀ i, np = some i → t.life i = .embryo

variable {t t' : ProcessTree Slot} {event : Event Slot}

attribute [local grind =] update_apply Wakes

omit [DecidableEq Slot] in
/-- Only a `fork` that has copied has written the parent. -/
theorem Ok.uncopied (ok : t.Ok) {p np : Slot} (inside : t.fork p = some (np, false)) :
    t.parent np = none := by
  cases parent : t.parent np with
  | none => rfl
  | some q =>
    have copied := ok.embryo np q (ok.forker p np false inside).2 parent
    obtain rfl := ok.forks q p np true false copied inside
    rw [inside] at copied
    cases copied

section Events

variable (ok : t.Ok) {p np child : Slot}
include ok

theorem Ok.quiet (step : t.Step t' .quiet) : t'.Ok := by
  obtain ⟨parents, root, notSelf, free, embryo, copied, forker, forks, sleepers, init, booting⟩ := ok
  cases step with
  | quiet same waits boots =>
    rw [same]
    constructor
    case parents | root | notSelf | init => grind
    case free | embryo | copied | forker | forks => grind
    case sleepers | booting => grind

theorem Ok.claim (step : t.Step t' (.claim np)) : t'.Ok := by
  cases step with
  | claim _ boot isFree same waits boots =>
    have unborn := (ok.booting none boot).1
    obtain ⟨parents, root, notSelf, free, embryo, copied, forker, forks, sleepers, init, _⟩ := ok
    rw [same]
    constructor
    case parents | root | notSelf | init => grind
    case free | embryo | copied | forker | forks => grind
    case sleepers | booting => grind

theorem Ok.start (step : t.Step t' (.start np)) : t'.Ok := by
  cases step with
  | start _ boot same waits boots =>
    obtain ⟨unborn, first⟩ := ok.booting (some np) boot
    obtain ⟨parents, root, notSelf, free, embryo, copied, forker, forks, sleepers, init, _⟩ := ok
    rw [same]
    constructor
    case parents | root | notSelf | init => grind
    case free | embryo | copied | forker | forks => grind
    case sleepers | booting => grind

theorem Ok.fork (step : t.Step t' (.fork p np)) : t'.Ok := by
  cases step with
  | fork _ _ living outside isFree same wakes =>
    obtain ⟨i, first, initLiving⟩ := ok.init p (by rw [living]; rfl)
    obtain ⟨parents, root, notSelf, free, embryo, copied, forker, forks, sleepers, _, booting⟩ := ok
    rw [same]
    constructor
    case parents | root | notSelf | init => grind
    case free | embryo | copied | forker | forks => grind
    case sleepers | booting => grind

theorem Ok.fail (step : t.Step t' (.fail p np)) : t'.Ok := by
  cases step with
  | fail _ _ inside same wakes =>
    have noParent := ok.uncopied inside
    obtain ⟨parents, root, notSelf, free, embryo, copied, forker, forks, sleepers, init, booting⟩ := ok
    rw [same]
    constructor
    case parents | root | notSelf | init => grind
    case free | embryo | copied | forker | forks => grind
    case sleepers | booting => grind

theorem Ok.copy (step : t.Step t' (.copy p np)) : t'.Ok := by
  cases step with
  | copy _ _ inside same wakes =>
    have noParent := ok.uncopied inside
    obtain ⟨living, isEmbryo⟩ := ok.forker p np false inside
    obtain ⟨i, first, initLiving⟩ := ok.init p (by rw [living]; rfl)
    obtain ⟨parents, root, notSelf, free, embryo, copied, forker, forks, sleepers, _, booting⟩ := ok
    rw [same]
    constructor
    case forks =>
      have before (q slot : Slot) (flag : Bool)
          (now : update t.fork p (some (np, true)) q = some (slot, flag)) :
          ∃ flag, t.fork q = some (slot, flag) := by grind
      intro q r slot _ _ first second
      obtain ⟨_, first⟩ := before q slot _ first
      obtain ⟨_, second⟩ := before r slot _ second
      exact forks q r slot _ _ first second
    case parents | root | notSelf | init => grind
    case free | embryo | copied | forker => grind
    case sleepers | booting => grind

theorem Ok.publish (step : t.Step t' (.publish p np)) : t'.Ok := by
  cases step with
  | publish _ _ inside same wakes =>
    obtain ⟨living, isEmbryo⟩ := ok.forker p np true inside
    obtain ⟨i, first, initLiving⟩ := ok.init p (by rw [living]; rfl)
    obtain ⟨parents, root, notSelf, free, embryo, copied, forker, forks, sleepers, _, booting⟩ := ok
    rw [same]
    constructor
    case parents | root | notSelf | init => grind
    case free | embryo | copied | forker | forks => grind
    case sleepers | booting => grind

theorem Ok.exit (step : t.Step t' (.exit p)) : t'.Ok := by
  cases step with
  | exit _ living outside ordinary same wakes woken =>
    obtain ⟨i, first, initLiving⟩ := ok.init p (by rw [living]; rfl)
    obtain ⟨parents, root, notSelf, free, embryo, copied, forker, forks, sleepers, _, booting⟩ := ok
    rw [same]
    constructor
    case parents | root | notSelf | init => grind
    case free | embryo | copied | forker | forks => grind
    case sleepers | booting => grind

theorem Ok.reap (step : t.Step t' (.reap child)) : t'.Ok := by
  cases step with
  | reap _ dead same wakes =>
    obtain ⟨parents, root, notSelf, free, embryo, copied, forker, forks, sleepers, init, booting⟩ := ok
    rw [same]
    constructor
    case parents | root | notSelf | init => grind
    case free | embryo | copied | forker | forks => grind
    case sleepers | booting => grind

end Events

theorem Ok.step (ok : t.Ok) (step : t.Step t' event) : t'.Ok := by
  cases event with
  | quiet => exact ok.quiet step
  | claim np => exact ok.claim step
  | start np => exact ok.start step
  | fork p np => exact ok.fork step
  | fail p np => exact ok.fail step
  | copy p np => exact ok.copy step
  | publish p np => exact ok.publish step
  | exit p => exact ok.exit step
  | reap child => exact ok.reap step

/-! ### The history -/

/-- The identifiers of the slots in use have been given out, each once. -/
structure Ids (t : ProcessTree Slot) : Prop where
  issued : ∀ p, t.life p ≠ .free → 0 < t.pid p ∧ t.pid p < t.nextpid
  distinct : ∀ p q, t.life p ≠ .free → t.life q ≠ .free → t.pid p = t.pid q → p = q

/-- The process in a slot was created by the process in another one, or has been passed to
the first process because its creator has exited. -/
def Raised (t : ProcessTree Slot) (history : History) (child parent : Slot) : Prop :=
  history.creator (t.pid child) = some (t.pid parent) ∨
    (t.first = some parent ∧
      ∃ creator, history.creator (t.pid child) = some creator ∧ creator ∈ history.exited)

structure Recorded (t : ProcessTree Slot) (history : History) : Prop where
  counted : t.nextpid = history.allocated + 1
  gone : ∀ pid ∈ history.reaped, pid < t.nextpid ∧ ∀ p, t.life p ≠ .free → t.pid p ≠ pid
  nodup : history.reaped.Nodup
  dead : ∀ p, t.life p = .dead → t.pid p ∈ history.exited
  forking : ∀ p np copied, t.fork p = some (np, copied) →
    history.creator (t.pid np) = some (t.pid p)
  raised : ∀ p q, (t.life p).born = true → t.parent p = some q → t.Raised history p q

attribute [local grind] Raised

omit [DecidableEq Slot] in
theorem Ok.parent_living (ok : t.Ok) {p q : Slot} (born : (t.life p).born = true)
    (parent : t.parent p = some q) : t.life q = .living := by
  have ordinary : t.first ≠ some p := by
    intro first
    rw [ok.root p first] at parent
    cases parent
  obtain ⟨r, same, living⟩ := ok.parents p born ordinary
  rw [parent] at same
  cases same
  exact living

section Records

variable {history : History} (recorded : t.Recorded history) (ok : t.Ok) (ids : t.Ids)
  {p np : Slot}
include recorded ok ids

theorem Recorded.claim (step : t.Step t' (.claim np)) :
    t'.Recorded (t.note history (.claim np)) := by
  obtain ⟨counted, gone, nodup, dead, forking, raised⟩ := recorded
  obtain ⟨issued, distinct⟩ := ids
  have alive := fun p q => ok.parent_living (p := p) (q := q)
  have forker := ok.forker
  cases step with
  | claim _ boot isFree same waits boots =>
    have unborn := (ok.booting none boot).1
    rw [same]
    constructor
    case counted | gone | nodup | dead => grind [note]
    case forking | raised => grind [note]

theorem Recorded.start (step : t.Step t' (.start np)) :
    t'.Recorded (t.note history (.start np)) := by
  obtain ⟨counted, gone, nodup, dead, forking, raised⟩ := recorded
  obtain ⟨issued, distinct⟩ := ids
  have alive := fun p q => ok.parent_living (p := p) (q := q)
  have forker := ok.forker
  cases step with
  | start _ boot same waits boots =>
    obtain ⟨unborn, first⟩ := ok.booting (some np) boot
    have root := ok.root
    rw [same]
    constructor
    case counted | gone | nodup | dead => grind [note]
    case forking | raised => grind [note]

theorem Recorded.exit (step : t.Step t' (.exit p)) :
    t'.Recorded (t.note history (.exit p)) := by
  obtain ⟨counted, gone, nodup, dead, forking, raised⟩ := recorded
  obtain ⟨issued, distinct⟩ := ids
  have alive := fun p q => ok.parent_living (p := p) (q := q)
  have forker := ok.forker
  cases step with
  | exit _ living outside ordinary same wakes woken =>
    rw [same]
    constructor
    case raised =>
      intro q r born parent
      have bornBefore : (t.life q).born = true := by grind
      dsimp only at parent
      split at parent
      · rename_i child
        -- the caller created it, since only the first process inherits
        rcases raised q p bornBefore child with own | ⟨first, _⟩
        · exact Or.inr ⟨parent, _, own, List.mem_cons_self⟩
        · exact absurd first ordinary
      · rcases raised q r bornBefore parent with own | ⟨first, creator, known, gone⟩
        · exact Or.inl own
        · exact Or.inr ⟨first, creator, known, List.mem_cons_of_mem _ gone⟩
    case counted | gone | nodup | dead | forking => grind [note]

end Records

/-- Every event keeps the history in step with the table. -/
theorem Recorded.step {history : History} (recorded : t.Recorded history) (ok : t.Ok) (ids : t.Ids)
    (step : t.Step t' event) : t'.Recorded (t.note history event) := by
  have ⟨counted, gone, nodup, dead, forking, raised⟩ := recorded
  have ⟨issued, distinct⟩ := ids
  have alive := fun p q => ok.parent_living (p := p) (q := q)
  have forker := ok.forker
  cases step with
  | claim np boot isFree same waits boots =>
    exact recorded.claim ok ids (.claim np boot isFree same waits boots)
  | start np boot same waits boots =>
    exact recorded.start ok ids (.start np boot same waits boots)
  | exit p living outside ordinary same wakes woken =>
    exact recorded.exit ok ids (.exit p living outside ordinary same wakes woken)
  | quiet same waits boots =>
    rw [same]
    exact ⟨counted, gone, nodup, dead, forking, raised⟩
  | fork p np living outside isFree same wakes =>
    have apart : p ≠ np := by
      rintro rfl
      rw [living] at isFree
      cases isFree
    -- identifiers in use are older than the new one
    have older (q : Slot) (used : t.life q ≠ .free) : q ≠ np ∧ t.pid q ≠ t.nextpid :=
      ⟨fun new => used (new ▸ isFree), Int.ne_of_lt (issued q used).2⟩
    rw [same]
    constructor
    case forking =>
      intro q slot copied inside
      change update history.creator t.nextpid (some (t.pid p))
        (update t.pid np t.nextpid slot) = some (update t.pid np t.nextpid q)
      by_cases caller : q = p
      · subst q
        simp only [update_self, Option.some.injEq, Prod.mk.injEq] at inside
        rw [← inside.1, update_self, update_self, update_of_ne apart]
      · have inside : t.fork q = some (slot, copied) := by
          rw [← inside]
          exact (update_of_ne caller ..).symm
        have living := older q (by rw [(forker q slot copied inside).1]; exact nofun)
        have embryo := older slot (by rw [(forker q slot copied inside).2]; exact nofun)
        rw [update_of_ne living.1, update_of_ne embryo.1,
          update_of_ne embryo.2]
        exact forking q slot copied inside
    case raised =>
      intro child q born parent
      have bornBefore : (t.life child).born = true := by grind
      have used := older child (by grind)
      have usedParent := older q (by rw [alive child q bornBefore parent]; exact nofun)
      have before := raised child q bornBefore parent
      unfold Raised at before ⊢
      simp only [note, update_of_ne used.1, update_of_ne usedParent.1,
        update_of_ne used.2]
      exact before
    case counted | gone | nodup | dead => grind [note]
  | fail p np inside same wakes =>
    rw [same]
    constructor
    case counted | gone | nodup | dead => grind [note]
    case forking | raised => grind [note]
  | copy p np inside same wakes =>
    rw [same]
    constructor
    case counted | gone | nodup | dead => grind [note]
    case forking | raised => grind [note]
  | publish p np inside same wakes =>
    have copied := ok.copied
    rw [same]
    constructor
    case counted | gone | nodup | dead => grind [note]
    case forking | raised => grind [note]
  | reap child isDead same wakes =>
    rw [same]
    constructor
    case raised =>
      intro q r born parent
      have before := raised q r
      have usedParent := alive q r
      grind [note]
    case counted | gone | nodup | dead | forking => grind [note]

end ProcessTree

end Library

end Xv6
