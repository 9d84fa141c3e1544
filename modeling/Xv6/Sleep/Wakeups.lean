/-
No wakeup is lost.

A process that has found the condition false holds `lk` until it holds `ptable.lock`, and
holds that until it is marked as SLEEPING.  So a waker that sets the condition later
starts its scan after the mark, and as long as somebody sleeps although the condition
holds, some waker has not yet come to its slot.
-/

import Xv6.Sleep.Model

namespace Xv6.Sleep

open Library
open Function (update update_apply update_of_ne update_self)

/-! ### What a process holds, has seen and owes -/

def Pc.holds (shared : Bool) : Pc → Lock → Bool
  | .test, lock | .served, lock | .set, lock | .setDone, lock | .unlockLast, lock
  | .sleepAcquire, lock | .wakeAcquire true, lock => decide (lock = lkOf shared)
  | .sleepRelease, lock => decide (lock = lkOf shared) || decide (lock = .ptable)
  | .setChan, lock | .setState, lock | .sched, lock | .resumed, lock | .sleepEnd, lock
  | .scan false _, lock => decide (lock = .ptable)
  | .scan true _, lock => decide (lock = lkOf shared) || decide (lock = .ptable)
  | .outside, _ | .acquireWait, _ | .asleep, _ | .reacquire, _ | .acquireSet, _
  | .wakeAcquire false, _ => false

def Turn.holds : Turn → Lock → Bool
  | .held, lock | .marked, lock | .back, lock => decide (lock = .ptable)
  | .on, _ | .off, _ => false

@[simp]
theorem Turn.holds_on (lock : Lock) : Turn.on.holds lock = false := rfl

def Proc.holds (shared : Bool) (proc : Proc) (lock : Lock) : Bool :=
  proc.pc.holds shared lock || proc.turn.holds lock

/-- The process has found the condition false and still holds `lk`. -/
def Pc.tested : Pc → Bool
  | .sleepAcquire | .sleepRelease => true
  | _ => false

/-- The process is SLEEPING, or will be without another test. -/
def Proc.committed (proc : Proc) : Bool :=
  match proc.pc with
  | .setChan | .setState | .sched => true
  | .asleep => decide (proc.state = .sleeping)
  | _ => false

/-- Between setting the condition and the end of `wakeup`. -/
def Pc.waking : Pc → Bool
  | .setDone | .wakeAcquire _ | .scan _ _ => true
  | _ => false

/-- The waker has still to look at the slot. -/
def Pc.covers (pc : Pc) (slot : Nat) : Bool :=
  match pc with
  | .setDone | .wakeAcquire _ => true
  | .scan _ next => decide (next ≤ slot)
  | _ => false

theorem Pc.waking_of_covers {pc : Pc} {slot : Nat} (owes : pc.covers slot = true) :
    pc.waking = true := by
  cases pc with
  | setDone => rfl
  | wakeAcquire locked => rfl
  | scan locked next => rfl
  | _ => cases owes

theorem Pc.owes_nothing {pc here : Pc} {slot : Nat} {goal : Prop} (place : pc = here)
    (idle : here.waking = false) (owes : pc.covers slot = true) : goal := by
  have waking := Pc.waking_of_covers owes
  rw [place, idle] at waking
  cases waking

/-- Instructions that are reached only if `lk` is not `ptable.lock`. -/
def Pc.apart : Pc → Bool
  | .sleepAcquire | .sleepRelease | .sleepEnd | .reacquire | .wakeAcquire true => true
  | _ => false

structure Proc.Wf (shared : Bool) (proc : Proc) : Prop where
  slept : proc.state = .sleeping →
    proc.turn = .on ∧ proc.onChan = true ∧ (proc.pc = .sched ∨ proc.pc = .asleep)
  ready : proc.state = .runnable →
    proc.turn = .marked ∨ proc.turn = .off ∨ (proc.turn = .on ∧ proc.pc = .asleep)
  aside : proc.turn ≠ .on → proc.pc ≠ .asleep ∧ ∀ lock, proc.pc.holds shared lock = false
  chan : proc.pc = .setState → proc.onChan = true
  apart : proc.pc.apart = true → shared = false

theorem Proc.Wf.running {shared : Bool} {proc : Proc} (wf : proc.Wf shared)
    (on : proc.turn = .on) ⦃here : Pc⦄ (place : proc.pc = here) (stays : here ≠ .sched)
    (awake : here ≠ .asleep) : proc.state = .running := by
  subst place
  cases state : proc.state with
  | running => rfl
  | runnable =>
    rcases wf.ready state with turn | turn | ⟨_, isAsleep⟩
    · rw [on] at turn
      cases turn
    · rw [on] at turn
      cases turn
    · exact absurd isAsleep awake
  | sleeping =>
    rcases (wf.slept state).2.2 with isSched | isAsleep
    · exact absurd isSched stays
    · exact absurd isAsleep awake

theorem Proc.Wf.of_running {shared : Bool} {proc : Proc} (state : proc.state = .running)
    (on : proc.turn = .on) (chan : proc.pc = .setState → proc.onChan = true)
    (apart : proc.pc.apart = true → shared = false) : proc.Wf shared where
  slept := by
    intro slept
    rw [state] at slept
    cases slept
  ready := by
    intro ready
    rw [state] at ready
    cases ready
  aside := fun off => absurd on off
  chan := chan
  apart := apart

namespace System

variable {n : Nat}

structure Inv (shared : Bool) (s : System n) : Prop where
  wf : ∀ p, (s.proc p).Wf shared
  held : ∀ lock p, s.locks lock = some (.proc p) ↔
    (s.proc p).holds shared lock = true
  tested : ∀ p, (s.proc p).pc.tested = true → s.cond = false
  covered : ∀ p, (s.proc p).committed = true → s.cond = true →
    ∃ q, (s.proc q).pc.covers p.val = true

section Changes

variable {shared : Bool} {s : System n}

theorem start_inv (shared cond : Bool) : Inv shared ({ cond := cond } : System n) where
  wf := fun _ => .of_running rfl rfl nofun nofun
  held := by
    intro lock p
    simp [Proc.holds, Pc.holds, Turn.holds]
  tested := nofun
  covered := nofun

variable {p : Fin n} {proc : Proc} {lock : Lock}

/-- One process changes its record and its locks; the condition stays. -/
theorem Inv.change {next : System n} (inv : s.Inv shared)
    (changed : next.proc = update s.proc p proc) (wf : proc.Wf shared)
    (others : ∀ lock q, q ≠ p →
      (next.locks lock = some (.proc q) ↔ s.locks lock = some (.proc q)))
    (own : ∀ lock, next.locks lock = some (.proc p) ↔ proc.holds shared lock = true)
    (cond : next.cond = s.cond) (tested : proc.pc.tested = true → s.cond = false)
    (committed : proc.committed = true → s.cond = true → (s.proc p).committed = true)
    (covers : ∀ q : Fin n, (s.proc p).pc.covers q.val = true → proc.pc.covers q.val = true) :
    next.Inv shared := by
  have here : next.proc p = proc := by
    rw [changed, update_self]
  have elsewhere : ∀ q, q ≠ p → next.proc q = s.proc q := by
    intro q other
    rw [changed, update_of_ne other]
  constructor
  · intro q
    by_cases same : q = p
    · rw [same, here]
      exact wf
    · rw [elsewhere q same]
      exact inv.wf q
  · intro lock q
    by_cases same : q = p
    · rw [same, here]
      exact own lock
    · rw [elsewhere q same, others lock q same]
      exact inv.held lock q
  · intro q
    rw [cond]
    by_cases same : q = p
    · rw [same, here]
      exact tested
    · rw [elsewhere q same]
      exact inv.tested q
  · intro q isCommitted holds
    rw [cond] at holds
    have before : (s.proc q).committed = true := by
      by_cases same : q = p
      · subst q
        rw [here] at isCommitted
        exact committed isCommitted holds
      · rwa [elsewhere q same] at isCommitted
    obtain ⟨w, owes⟩ := inv.covered q before holds
    refine ⟨w, ?_⟩
    by_cases same : w = p
    · subst w
      rw [here]
      exact covers q owes
    · rw [elsewhere w same]
      exact owes

theorem Inv.stays (inv : s.Inv shared) (wf : proc.Wf shared)
    (holds : ∀ lock, proc.holds shared lock = (s.proc p).holds shared lock)
    (tested : proc.pc.tested = true → s.cond = false)
    (committed : proc.committed = true → s.cond = true → (s.proc p).committed = true)
    (covers : ∀ q : Fin n, (s.proc p).pc.covers q.val = true → proc.pc.covers q.val = true) :
    (s.setProc p proc).Inv shared := by
  refine inv.change rfl wf (fun _ _ _ => Iff.rfl) ?_ rfl tested committed covers
  intro lock
  rw [holds]
  exact inv.held lock p

theorem Inv.acquires (inv : s.Inv shared) (free : s.locks lock = none)
    (wf : proc.Wf shared)
    (holds : ∀ other, proc.holds shared other =
      (decide (other = lock) || (s.proc p).holds shared other))
    (tested : proc.pc.tested = true → s.cond = false)
    (committed : proc.committed = true → s.cond = true → (s.proc p).committed = true)
    (covers : ∀ q : Fin n, (s.proc p).pc.covers q.val = true → proc.pc.covers q.val = true) :
    ((s.setLock lock (some (.proc p))).setProc p proc).Inv shared := by
  refine inv.change rfl wf ?_ ?_ rfl tested committed covers
  · intro other q different
    simp only [setProc, setLock, update_apply]
    split
    · rename_i same
      rw [same, free]
      simp [Ne.symm different]
    · rfl
  · intro other
    simp only [setProc, setLock, update_apply, holds]
    split
    · rename_i same
      simp [same]
    · rename_i different
      simp [different, inv.held]

theorem Inv.releases {owner : Option (Owner n)} (inv : s.Inv shared)
    (had : (s.proc p).holds shared lock = true) (given : ∀ q, owner ≠ some (.proc q))
    (wf : proc.Wf shared)
    (holds : ∀ other, proc.holds shared other =
      (decide (other ≠ lock) && (s.proc p).holds shared other))
    (tested : proc.pc.tested = true → s.cond = false)
    (committed : proc.committed = true → s.cond = true → (s.proc p).committed = true)
    (covers : ∀ q : Fin n, (s.proc p).pc.covers q.val = true → proc.pc.covers q.val = true) :
    ((s.setLock lock owner).setProc p proc).Inv shared := by
  have owned := (inv.held lock p).mpr had
  refine inv.change rfl wf ?_ ?_ rfl tested committed covers
  · intro other q different
    simp only [setProc, setLock, update_apply]
    split
    · rename_i same
      rw [same, owned]
      simp [given q, Ne.symm different]
    · rfl
  · intro other
    simp only [setProc, setLock, update_apply, holds]
    split
    · rename_i same
      simp [same, given p]
    · rename_i different
      simp [different, inv.held]

theorem Inv.exclusive (inv : s.Inv shared) {q : Fin n}
    (first : (s.proc p).holds shared lock = true)
    (second : (s.proc q).holds shared lock = true) : p = q := by
  have ownedFirst := (inv.held lock p).mpr first
  have ownedSecond := (inv.held lock q).mpr second
  rw [ownedFirst] at ownedSecond
  cases ownedSecond
  rfl

theorem Inv.scheduler {owner : Option (Owner n)} (inv : s.Inv shared)
    (before : ∀ p, s.locks .ptable ≠ some (.proc p))
    (after : ∀ p, owner ≠ some (.proc p)) : (s.setLock .ptable owner).Inv shared := by
  refine ⟨inv.wf, ?_, inv.tested, inv.covered⟩
  intro lock p
  refine Iff.trans ?_ (inv.held lock p)
  simp only [setLock, update_apply]
  split
  · rename_i same
    rw [same]
    simp [before p, after p]
  · rfl

end Changes

/-! ### The instructions -/

section Instructions

variable {shared : Bool} {s next : System n} {p : Fin n}

theorem tested_holds {proc : Proc} (tested : proc.pc.tested = true) :
    proc.holds shared (lkOf shared) = true := by
  unfold Proc.holds
  cases place : proc.pc <;> rw [place] at tested <;> simp [Pc.tested, Pc.holds] at tested ⊢

/-- Setting the condition: no waiter is between its test and the release of `lk`. -/
theorem Inv.sets (inv : s.Inv shared) (on : (s.proc p).turn = .on)
    (place : (s.proc p).pc = .set) :
    ({ s with cond := true }.setPc p .setDone).Inv shared := by
  have running := (inv.wf p).running on place nofun nofun
  have holdsLk : (s.proc p).holds shared (lkOf shared) = true := by
    simp [Proc.holds, Pc.holds, place]
  have here : ({ s with cond := true }.setPc p .setDone).proc p =
      { s.proc p with pc := .setDone } := by
    simp only [setPc, setProc, update_self]
  have elsewhere : ∀ q, q ≠ p →
      ({ s with cond := true }.setPc p .setDone).proc q = s.proc q := by
    intro q other
    simp only [setPc, setProc, update_of_ne other]
  constructor
  · intro q
    by_cases same : q = p
    · rw [same, here]
      exact .of_running running on nofun nofun
    · rw [elsewhere q same]
      exact inv.wf q
  · intro lock q
    by_cases same : q = p
    · rw [same, here]
      refine (inv.held lock p).trans ?_
      simp [Proc.holds, Pc.holds, place]
    · rw [elsewhere q same]
      exact inv.held lock q
  · intro q tested
    exfalso
    by_cases same : q = p
    · rw [same, here] at tested
      cases tested
    · rw [elsewhere q same] at tested
      exact same (inv.exclusive (tested_holds tested) holdsLk)
  · intro q _ _
    refine ⟨p, ?_⟩
    rw [here]
    rfl

/-- A process that may be woken by the scan holds no lock. -/
theorem Inv.scans (inv : s.Inv shared) (on : (s.proc p).turn = .on) {locked : Bool}
    {slot : Fin n} (place : (s.proc p).pc = .scan locked slot.val) :
    ((s.wakeSlot slot).setPc p (.scan locked (slot.val + 1))).Inv shared := by
  have running := (inv.wf p).running on place nofun nofun
  have scanning : (s.proc p).holds shared .ptable = true := by
    cases locked <;> simp [Proc.holds, Pc.holds, place]
  -- first the slot is looked at
  have looked : (s.wakeSlot slot).Inv shared ∧
      (s.wakeSlot slot).proc p = s.proc p ∧
      ((s.wakeSlot slot).proc slot).committed = false := by
    have notCommitting : ∀ pc, (s.proc slot).pc = pc → pc.holds shared .ptable = true →
        pc ≠ .scan locked slot.val → False := by
      intro pc there holdsTable different
      have held : (s.proc slot).holds shared .ptable = true := by
        simp [Proc.holds, there, holdsTable]
      rw [inv.exclusive held scanning, place] at there
      exact different there.symm
    unfold wakeSlot
    split
    · rename_i sleeper
      obtain ⟨onSlot, onChan, placeSlot⟩ := (inv.wf slot).slept sleeper.1
      have isAsleep : (s.proc slot).pc = .asleep := by
        rcases placeSlot with isSched | isAsleep
        · exact (notCommitting .sched isSched rfl nofun).elim
        · exact isAsleep
      have different : p ≠ slot := by
        intro same
        rw [← same, place] at isAsleep
        cases isAsleep
      refine ⟨?_, ?_, ?_⟩
      · refine inv.stays ?_ (fun _ => rfl) ?_ ?_ (fun _ => id)
        · refine ⟨nofun, fun _ => Or.inr (Or.inr ⟨onSlot, isAsleep⟩), fun off => absurd onSlot off,
            ?_, ?_⟩
          · intro isSet
            rw [isAsleep] at isSet
            cases isSet
          · intro apart
            rw [isAsleep] at apart
            cases apart
        · intro tested
          rw [isAsleep] at tested
          cases tested
        · intro committed
          simp [Proc.committed, isAsleep] at committed
      · simp only [setProc, update_of_ne different]
      · simp [setProc, Proc.committed, isAsleep]
    · rename_i awake
      refine ⟨inv, rfl, ?_⟩
      cases committed : (s.proc slot).committed with
      | false => rfl
      | true =>
        exfalso
        unfold Proc.committed at committed
        cases there : (s.proc slot).pc with
        | setChan => exact notCommitting .setChan there rfl nofun
        | setState => exact notCommitting .setState there rfl nofun
        | sched => exact notCommitting .sched there rfl nofun
        | asleep =>
          simp only [there, decide_eq_true_eq] at committed
          exact awake ⟨committed, ((inv.wf slot).slept committed).2.1⟩
        | _ => simp [there] at committed
  -- then the waker goes on to the next one
  obtain ⟨middleInv, sameP, notCommitted⟩ := looked
  generalize s.wakeSlot slot = middle at middleInv sameP notCommitted
  have placeM : (middle.proc p).pc = .scan locked slot.val := by
    rw [sameP]
    exact place
  have here : (middle.setPc p (.scan locked (slot.val + 1))).proc p =
      { s.proc p with pc := .scan locked (slot.val + 1) } := by
    simp only [setPc, setProc, update_self, sameP]
  have elsewhere : ∀ q, q ≠ p →
      (middle.setPc p (.scan locked (slot.val + 1))).proc q = middle.proc q := by
    intro q other
    simp only [setPc, setProc, update_of_ne other]
  constructor
  · intro q
    by_cases same : q = p
    · rw [same, here]
      exact .of_running running on nofun nofun
    · rw [elsewhere q same]
      exact middleInv.wf q
  · intro lock q
    by_cases same : q = p
    · rw [same, here]
      refine (middleInv.held lock p).trans ?_
      cases locked <;> simp [Proc.holds, Pc.holds, sameP, place]
    · rw [elsewhere q same]
      exact middleInv.held lock q
  · intro q tested
    by_cases same : q = p
    · rw [same, here] at tested
      cases tested
    · rw [elsewhere q same] at tested
      exact middleInv.tested q tested
  · intro q committed holds
    have other : q ≠ p := by
      intro same
      rw [same, here] at committed
      cases committed
    rw [elsewhere q other] at committed
    obtain ⟨w, owes⟩ := middleInv.covered q committed holds
    refine ⟨w, ?_⟩
    by_cases same : w = p
    · subst w
      rw [here]
      rw [placeM] at owes
      simp only [Pc.covers, decide_eq_true_eq] at owes ⊢
      -- the slot just looked at sleeps no longer
      have distinct : slot.val ≠ q.val := by
        intro equal
        rw [Fin.ext equal] at notCommitted
        rw [committed] at notCommitted
        cases notCommitted
      omega
    · rw [elsewhere w same]
      exact owes

theorem Inv.run (inv : s.Inv shared) (on : (s.proc p).turn = .on)
    (ran : Runs shared s p next) : next.Inv shared := by
  have wf := inv.wf p
  have running := wf.running on
  cases ran with
  | acquireWait place free | acquireSet place free =>
    refine inv.acquires free (.of_running ?_ on nofun nofun) ?_ nofun nofun ?_
    · exact running place nofun nofun
    · intro lock
      simp [Proc.holds, Pc.holds, place]
    · exact fun _ => Pc.owes_nothing place rfl
  | passes place holds =>
    refine inv.stays (.of_running ?_ on nofun nofun) ?_ nofun nofun ?_
    · exact running place nofun nofun
    · intro lock
      simp [Proc.holds, Pc.holds, place]
    · exact fun _ => Pc.owes_nothing place rfl
  | waits place fails =>
    have state := running place nofun nofun
    refine inv.stays ?_ ?_ (fun _ => fails) ?_ ?_
    · refine .of_running state on ?_ ?_
      · cases shared <;> nofun
      · cases shared
        · exact fun _ => rfl
        · nofun
    · intro lock
      cases shared <;> simp [Proc.holds, Pc.holds, place, lkOf]
    · intro _ holds
      rw [fails] at holds
      cases holds
    · exact fun _ => Pc.owes_nothing place rfl
  | sleepAcquire place free =>
    refine inv.acquires free (.of_running ?_ on nofun ?_) ?_ ?_ nofun ?_
    · exact running place nofun nofun
    · exact fun _ => wf.apart (by rw [place]; rfl)
    · intro lock
      simp [Proc.holds, Pc.holds, place, on, Bool.or_comm]
    · exact fun _ => inv.tested p (by rw [place]; rfl)
    · exact fun _ => Pc.owes_nothing place rfl
  | sleepRelease place =>
    have apart := wf.apart (by rw [place]; rfl)
    have fails := inv.tested p (by rw [place]; rfl)
    refine inv.releases ?_ nofun (.of_running ?_ on nofun nofun) ?_ nofun ?_ ?_
    · simp [Proc.holds, Pc.holds, place, apart, lkOf]
    · exact running place nofun nofun
    · intro lock
      cases lock <;> simp [Proc.holds, Pc.holds, place, apart, lkOf, on]
    · intro _ holds
      rw [fails] at holds
      cases holds
    · exact fun _ => Pc.owes_nothing place rfl
  | setChan place =>
    refine inv.stays (.of_running ?_ on (fun _ => rfl) nofun) ?_ nofun ?_ ?_
    · exact running place nofun nofun
    · intro lock
      simp [Proc.holds, Pc.holds, place]
    · intro _ _
      simp [Proc.committed, place]
    · exact fun _ => Pc.owes_nothing place rfl
  | setState place =>
    refine inv.stays ?_ ?_ nofun ?_ ?_
    · exact ⟨fun _ => ⟨on, wf.chan place, Or.inl rfl⟩, nofun, fun off => absurd on off, nofun,
        nofun⟩
    · intro lock
      simp [Proc.holds, Pc.holds, place]
    · intro _ _
      simp [Proc.committed, place]
    · exact fun _ => Pc.owes_nothing place rfl
  | sched place =>
    refine inv.releases ?_ nofun ?_ ?_ nofun ?_ ?_
    · simp [Proc.holds, Pc.holds, place]
    · refine ⟨?_, ?_, fun off => absurd on off, nofun, nofun⟩
      · intro slept
        exact ⟨on, (wf.slept slept).2.1, Or.inr rfl⟩
      · intro _
        exact Or.inr (Or.inr ⟨on, rfl⟩)
    · intro lock
      cases lock <;> simp [Proc.holds, Pc.holds, place, on]
    · intro _ _
      simp [Proc.committed, place]
    · exact fun _ => Pc.owes_nothing place rfl
  | resumed place =>
    have state := running place nofun nofun
    refine inv.stays ?_ ?_ ?_ ?_ ?_
    · refine .of_running state on ?_ ?_
      · cases shared <;> nofun
      · cases shared
        · exact fun _ => rfl
        · nofun
    · intro lock
      cases shared <;> simp [Proc.holds, Pc.holds, place, lkOf]
    · cases shared <;> nofun
    · cases shared <;> nofun
    · exact fun _ => Pc.owes_nothing place rfl
  | sleepEnd place =>
    refine inv.releases ?_ nofun (.of_running ?_ on nofun ?_) ?_ nofun nofun ?_
    · simp [Proc.holds, Pc.holds, place]
    · exact running place nofun nofun
    · exact fun _ => wf.apart (by rw [place]; rfl)
    · intro lock
      cases lock <;> simp [Proc.holds, Pc.holds, place, on]
    · exact fun _ => Pc.owes_nothing place rfl
  | reacquire place free =>
    have apart := wf.apart (by rw [place]; rfl)
    refine inv.acquires free (.of_running ?_ on nofun nofun) ?_ nofun nofun ?_
    · exact running place nofun nofun
    · intro lock
      simp [Proc.holds, Pc.holds, place, apart, lkOf]
    · exact fun _ => Pc.owes_nothing place rfl
  | served place | unlockLast place =>
    refine inv.releases ?_ nofun (.of_running ?_ on nofun nofun) ?_ nofun nofun ?_
    · simp [Proc.holds, Pc.holds, place]
    · exact running place nofun nofun
    · intro lock
      simp [Proc.holds, Pc.holds, place, on]
    · exact fun _ => Pc.owes_nothing place rfl
  | set place => exact inv.sets on place
  | wakeAcquire locked place free =>
    refine inv.acquires free (.of_running ?_ on nofun nofun) ?_ nofun nofun ?_
    · exact running place nofun nofun
    · intro lock
      cases locked <;>
        simp [Proc.holds, Pc.holds, place, on, Bool.or_comm]
    · intro q _
      exact decide_eq_true (Nat.zero_le q.val)
  | scan locked slot place => exact inv.scans on place
  | scanned slot place outside isShared =>
    refine inv.stays (.of_running ?_ on nofun nofun) ?_ nofun nofun ?_
    · exact running place nofun nofun
    · intro lock
      simp [Proc.holds, Pc.holds, place, isShared, lkOf]
    · intro q owes
      rw [place] at owes
      have atMost : slot ≤ q.val := of_decide_eq_true owes
      omega
  | woken locked slot place outside apart =>
    have state := running place nofun nofun
    refine inv.releases ?_ nofun ?_ ?_ ?_ ?_ ?_
    · cases locked <;> simp [Proc.holds, Pc.holds, place]
    · refine .of_running state on ?_ ?_
      · cases locked <;> nofun
      · cases locked <;> nofun
    · intro lock
      cases shared with
      | true =>
        rw [apart rfl] at place ⊢
        cases lock <;> simp [Proc.holds, Pc.holds, place, on]
      | false =>
        cases locked <;> cases lock <;>
          simp [Proc.holds, Pc.holds, place, on, lkOf]
    · cases locked <;> nofun
    · cases locked <;> nofun
    · intro q owes
      rw [place] at owes
      have atMost : slot ≤ q.val := of_decide_eq_true owes
      omega

end Instructions

/-! ### Every step -/

section Steps

variable {shared : Bool} {s next : System n}

theorem Inv.dispatch {p : Fin n} (inv : s.Inv shared)
    (held : s.locks .ptable = some .scheduler)
    (ready : (s.proc p).state = .runnable) : (s.dispatch p).Inv shared := by
  have wf := inv.wf p
  have unlocked : ∀ lock, (s.proc p).holds shared lock = true → lock = .lk := by
    intro lock holds
    cases lock with
    | lk => rfl
    | ptable =>
      have owner := (inv.held .ptable p).mpr holds
      rw [held] at owner
      cases owner
  -- it gave up the CPU in `yield` or in `sleep`
  have away : ((s.proc p).turn = .off ∧ (s.proc p).pc ≠ .asleep ∧
      ∀ lock, (s.proc p).pc.holds shared lock = false) ∨
      ((s.proc p).turn = .on ∧ (s.proc p).pc = .asleep) := by
    rcases wf.ready ready with marked | off | asleep
    · have table : (s.proc p).holds shared .ptable = true := by
        simp [Proc.holds, marked, Turn.holds]
      cases unlocked .ptable table
    · have aside := wf.aside (by rw [off]; nofun)
      exact Or.inl ⟨off, aside⟩
    · exact Or.inr asleep
  unfold System.dispatch
  rcases away with ⟨off, awake, holdsNone⟩ | ⟨on, asleep⟩
  · rw [if_neg awake, if_pos off]
    refine inv.change rfl ?_ ?_ ?_ rfl ?_ ?_ (fun _ => id)
    · refine ⟨nofun, nofun, fun _ => ⟨awake, holdsNone⟩, wf.chan, wf.apart⟩
    · intro lock q other
      simp only [setProc, setLock, update_apply]
      split
      · rename_i same
        rw [same, held]
        simp [Ne.symm other]
      · rfl
    · intro lock
      simp only [setProc, setLock, update_apply, Proc.holds, holdsNone, Bool.false_or,
        Turn.holds]
      split
      · rename_i same
        simp [same]
      · rename_i different
        rw [inv.held lock p]
        simp [Proc.holds, holdsNone, off, Turn.holds, different]
    · exact inv.tested p
    · intro committed _
      unfold Proc.committed at committed ⊢
      cases place : (s.proc p).pc <;> simp_all
  · rw [if_pos asleep, if_neg (by rw [on]; nofun)]
    refine inv.change rfl (.of_running rfl on nofun nofun) ?_ ?_ rfl nofun nofun ?_
    · intro lock q other
      simp only [setProc, setLock, update_apply]
      split
      · rename_i same
        rw [same, held]
        simp [Ne.symm other]
      · rfl
    · intro lock
      simp only [setProc, setLock, update_apply, Proc.holds, Pc.holds, on,
        Turn.holds_on, Bool.or_false]
      split
      · rename_i same
        simp [same]
      · rename_i different
        rw [inv.held lock p]
        simp [Proc.holds, Pc.holds, asleep, on, different]
    · exact fun _ => Pc.owes_nothing asleep rfl

theorem Inv.step (inv : s.Inv shared) (stepped : Step shared s next) :
    next.Inv shared := by
  cases stepped with
  | wait p on place | set p on place =>
    have state := (inv.wf p).running on place nofun nofun
    refine inv.stays (.of_running state on nofun nofun) ?_ nofun nofun ?_
    · intro lock
      simp [Proc.holds, Pc.holds, place]
    · exact fun _ => Pc.owes_nothing place rfl
  | run p next on ran => exact inv.run on ran
  | wakeupFirst p on place =>
    have state := (inv.wf p).running on place nofun nofun
    refine inv.stays ?_ ?_ ?_ ?_ ?_
    · refine .of_running state on ?_ ?_
      · cases shared <;> nofun
      · cases shared
        · exact fun _ => rfl
        · nofun
    · intro lock
      cases shared <;> simp [Proc.holds, Pc.holds, place, lkOf]
    · cases shared <;> nofun
    · cases shared <;> nofun
    · intro q _
      cases shared
      · rfl
      · exact decide_eq_true (Nat.zero_le q.val)
  | unlockFirst p on place =>
    have state := (inv.wf p).running on place nofun nofun
    refine inv.releases ?_ nofun (.of_running state on nofun nofun) ?_ nofun nofun (fun _ _ => rfl)
    · simp [Proc.holds, Pc.holds, place]
    · intro lock
      simp [Proc.holds, Pc.holds, place, on]
  | clear p on place => exact ⟨inv.wf, inv.held, fun _ _ => rfl, nofun⟩
  | preempt p on awake unlocked free =>
    have holdsNone : ∀ lock, (s.proc p).pc.holds shared lock = false := by
      intro lock
      cases holds : (s.proc p).pc.holds shared lock with
      | false => rfl
      | true =>
        refine absurd ((inv.held lock p).mpr ?_) (unlocked lock)
        simp [Proc.holds, holds]
    have state := (inv.wf p).running on rfl ?_ awake
    · refine inv.acquires free ?_ ?_ (inv.tested p) ?_ (fun _ => id)
      · refine ⟨?_, ?_, fun _ => ⟨awake, holdsNone⟩, (inv.wf p).chan, (inv.wf p).apart⟩
        · intro slept
          rw [state] at slept
          cases slept
        · intro ready
          rw [state] at ready
          cases ready
      · intro lock
        simp [Proc.holds, holdsNone, on, Turn.holds]
      · exact fun committed _ => committed
    · intro isSched
      have table := holdsNone .ptable
      rw [isSched] at table
      cases table
  | yieldMark p turn =>
    have aside := (inv.wf p).aside (by rw [turn]; nofun)
    refine inv.stays ?_ ?_ (inv.tested p) ?_ (fun _ => id)
    · exact ⟨nofun, fun _ => Or.inl rfl, fun _ => aside, (inv.wf p).chan, (inv.wf p).apart⟩
    · intro lock
      simp [Proc.holds, turn, Turn.holds]
    · intro committed _
      unfold Proc.committed at committed ⊢
      cases place : (s.proc p).pc <;> simp_all
  | yieldSched p turn =>
    have aside := (inv.wf p).aside (by rw [turn]; nofun)
    refine inv.releases ?_ nofun ?_ ?_ (inv.tested p) (fun committed _ => committed)
      (fun _ => id)
    · simp [Proc.holds, turn, Turn.holds]
    · refine ⟨?_, fun _ => Or.inr (Or.inl rfl), fun _ => aside, (inv.wf p).chan,
        (inv.wf p).apart⟩
      intro slept
      have on := ((inv.wf p).slept slept).1
      rw [turn] at on
      cases on
    · intro lock
      cases lock <;> simp [Proc.holds, turn, Turn.holds, aside.2]
  | yieldEnd p turn =>
    have wf := inv.wf p
    have aside := wf.aside (by rw [turn]; nofun)
    refine inv.releases ?_ nofun ?_ ?_ (inv.tested p) (fun committed _ => committed)
      (fun _ => id)
    · simp [Proc.holds, turn, Turn.holds]
    · refine ⟨?_, ?_, fun off => absurd rfl off, wf.chan, wf.apart⟩
      · intro slept
        have on := (wf.slept slept).1
        rw [turn] at on
        cases on
      · intro ready
        rcases wf.ready ready with marked | off | ⟨on, _⟩
        · rw [turn] at marked
          cases marked
        · rw [turn] at off
          cases off
        · rw [turn] at on
          cases on
    · intro lock
      cases lock <;> simp [Proc.holds, turn, Turn.holds, aside.2]
  | schedAcquire free =>
    refine inv.scheduler ?_ nofun
    intro p held
    rw [free] at held
    cases held
  | dispatch p held ready => exact inv.dispatch held ready
  | schedRelease held =>
    refine inv.scheduler ?_ nofun
    intro p owner
    rw [held] at owner
    cases owner

end Steps

end System

theorem reachable_inv {n : Nat} {shared cond : Bool} {s : System n}
    (reachable : (machine n shared cond).Reachable s) : s.Inv shared :=
  reachable.invariant (System.start_inv shared cond)
    (fun _ _ _ inv stepped => inv.step (System.step_inversion stepped))

/-- For any number of processes and any interleaving, whether `lk` is a lock of its own or
`ptable.lock`: while the condition holds and no waker is between setting it and the end of
`wakeup`, nobody is SLEEPING on the channel. -/
theorem no_lost_wakeup {n : Nat} {shared cond : Bool} {s : System n}
    (reachable : (machine n shared cond).Reachable s) :
    ¬(s.cond = true ∧ (∀ q, (s.proc q).pc.waking = false) ∧
      ∃ p, (s.proc p).state = .sleeping ∧ (s.proc p).onChan = true) := by
  rintro ⟨holds, idle, p, slept, _⟩
  have inv := reachable_inv reachable
  have committed : (s.proc p).committed = true := by
    unfold Proc.committed
    rcases ((inv.wf p).slept slept).2.2 with place | place
    · rw [place]
    · rw [place]
      exact decide_eq_true slept
  obtain ⟨q, owes⟩ := inv.covered p committed holds
  have waking := Pc.waking_of_covers owes
  rw [idle q] at waking
  cases waking

/-- A waiter finds the condition false and releases `lk`; a waker sets the condition and
releases `lk` before the waiter is marked, and must then wait for `ptable.lock`. -/
def crossing : List (Label 2) :=
  [.wait 0, .run 0, .run 0, .run 0, .run 0, .set 1, .run 1, .run 1, .unlockFirst 1, .run 0,
    .run 0, .run 0]

/-- The scan of the waker. -/
def wakes : List (Label 2) := [.schedRelease, .run 1, .run 1, .run 1, .run 1]

/-- The waiter sleeps when the waker starts its scan, and is RUNNABLE when it has ended. -/
theorem no_lost_wakeup_crossing :
    ∃ before after : System 2,
      (machine 2 false false).exec { cond := false } crossing = some before ∧
      before.cond = true ∧ (before.proc 0).state = .sleeping ∧
      (machine 2 false false).exec before wakes = some after ∧ after.cond = true ∧
      (∀ q, (after.proc q).pc.waking = false) ∧
      ¬∃ p, (after.proc p).state = .sleeping ∧ (after.proc p).onChan = true := by
  obtain ⟨before, ran, set, slept, after, scanned, still, idle⟩ :
      ∃ before, (machine 2 false false).exec { cond := false } crossing = some before ∧
        before.cond = true ∧ (before.proc 0).state = .sleeping ∧
        ∃ after, (machine 2 false false).exec before wakes = some after ∧ after.cond = true ∧ ∀ q,
        (after.proc q).pc.waking = false := by
    decide +kernel
  have reachable : (machine 2 false false).Reachable after :=
    ⟨crossing ++ wakes, (Machine.exec_append _ _ _ _ _).mpr ⟨before, ran, scanned⟩⟩
  refine ⟨before, after, ran, set, slept, scanned, still, idle, ?_⟩
  intro sleeper
  exact no_lost_wakeup reachable ⟨still, idle, sleeper⟩

end Xv6.Sleep
