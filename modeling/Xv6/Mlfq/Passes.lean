/-
What the loops of the multilevel feedback queue do to the lists behind the rings.

Selection rotates the rings it searches and takes out one process; the refill at the
end of a pass and the ageing in `modify_times` append processes that wait nowhere.
-/

import Xv6.Process.TableSteps

namespace Xv6

open Function Library

namespace Kernel

variable {ncpu : Nat}

/-- A waiting process has no time on its account, so inserting it again after it was
taken out changes nothing but the rings. -/
def WaitingFresh (k : Kernel ncpu) : Prop :=
  ∀ slot, k.Queued slot → (k.proc slot).curTime = 0

/-! ### Rotation -/

/-- What the search does to the table: a process that it takes out and inserts again has
its account cleared. -/
def Turned (k after : Kernel ncpu) : Prop :=
  ∀ slot, after.proc slot = k.proc slot ∨
    (k.Queued slot ∧ after.proc slot = { k.proc slot with curTime := 0 })

variable {k after : Kernel ncpu} {i : Nat}

theorem Turned.of_proc_eq (same : after.proc = k.proc) :
    k.Turned after := by
  intro slot
  rw [same]
  exact Or.inl rfl

theorem Turned.trans {first second third : Kernel ncpu} (before : first.Turned second)
    (after : second.Turned third) (queued : ∀ slot, second.Queued slot → first.Queued slot) :
    first.Turned third := by
  intro slot
  rcases after slot with same | ⟨waiting, cleared⟩
  · rw [same]
    exact before slot
  · refine Or.inr ⟨queued slot waiting, ?_⟩
    rw [cleared]
    rcases before slot with same | ⟨_, cleared'⟩
    · rw [same]
    · rw [cleared']

theorem Turned.state (turned : k.Turned after) (slot : Slot) :
    (after.proc slot).state = (k.proc slot).state := by
  rcases turned slot with same | ⟨_, cleared⟩
  · rw [same]
  · rw [cleared]

theorem Turned.proc_eq (turned : k.Turned after) (fresh : k.WaitingFresh) :
    after.proc = k.proc := by
  funext slot
  rcases turned slot with same | ⟨waiting, cleared⟩
  · exact same
  · rw [cleared, ← fresh slot waiting]

/-- One round of the search that does not find a RUNNABLE process. -/
theorem rotate_spec (ok : k.RingsOk) (bounded : i < levels) {head : Slot} {rest : List Slot}
    (holding : k.queues i = head :: rest) :
    ((k.pop i).2.push i head).RingsOk ∧
      k.Turned ((k.pop i).2.push i head) ∧
      ((k.pop i).2.push i head).queues =
        update k.queues i (rest ++ [head]) := by
  obtain ⟨_, poppedQueues, poppedOk⟩ := pop_of_cons ok bounded holding
  have here : head ∈ k.queues i := by
    rw [holding]
    exact List.mem_cons_self
  have absent : ¬(k.pop i).2.Queued head := by
    intro queued
    obtain ⟨level, inside, member⟩ := queued
    rw [poppedQueues] at member
    have nodup := ok.distinct.nodup i bounded
    rw [holding] at nodup
    by_cases same : level = i
    · subst level
      rw [update_self] at member
      exact (List.nodup_cons.mp nodup).1 member
    · rw [update_of_ne same] at member
      exact same (ok.distinct.apart level i head inside bounded member here)
  refine ⟨poppedOk.push head bounded, ?_, ?_⟩
  · intro slot
    rcases push_proc (k.pop i).2 i head slot with same | ⟨here', cleared⟩
    · exact Or.inl same
    · subst slot
      exact Or.inr ⟨⟨i, bounded, here⟩, cleared⟩
  · rw [push_queues poppedOk head bounded, LevelQueues.enqueue_of_absent absent, poppedQueues,
      update_self, update_idem]

/-! ### The search of one ring -/

/-- What the search of a ring that holds `pending ++ rotated` returns. -/
inductive ScanResult (k : Kernel ncpu) (i : Nat) (pending rotated : List Slot)
    (after : Kernel ncpu) : Option Slot → Prop
  | none (idle : ∀ q ∈ pending, (k.proc q).state ≠ .runnable)
      (queues : after.queues = update k.queues i (rotated ++ pending)) :
      ScanResult k i pending rotated after none
  | some (p : Slot) (before behind : List Slot)
      (split : pending = before ++ p :: behind)
      (idle : ∀ q ∈ before, (k.proc q).state ≠ .runnable)
      (ready : (k.proc p).state = .runnable)
      (queues : after.queues =
        update k.queues i (behind ++ rotated ++ before)) :
      ScanResult k i pending rotated after (some p)

theorem queued_of_update {next : Kernel ncpu} {items : List Slot}
    (queues : next.queues = update k.queues i items)
    (subset : ∀ slot ∈ items, slot ∈ k.queues i) (slot : Slot) (queued : next.Queued slot) :
    k.Queued slot := by
  obtain ⟨level, inside, member⟩ := queued
  rw [queues] at member
  by_cases same : level = i
  · subst level
    rw [update_self] at member
    exact ⟨i, inside, subset slot member⟩
  · rw [update_of_ne same] at member
    exact ⟨level, inside, member⟩

/-- The induction is on the part of the ring not yet searched: a round either finds
its head RUNNABLE or moves it behind the part already searched. -/
theorem scanRing_spec (bounded : i < levels) (pending rotated : List Slot) (k : Kernel ncpu)
    (ok : k.RingsOk) (holding : k.queues i = pending ++ rotated) :
    (scanRing i pending.length rotated.length k).2.RingsOk ∧
      k.Turned (scanRing i pending.length rotated.length k).2 ∧
      k.ScanResult i pending rotated (scanRing i pending.length rotated.length k).2
        (scanRing i pending.length rotated.length k).1 := by
  induction pending generalizing rotated k with
  | nil =>
    refine ⟨ok, .of_proc_eq rfl, .none (by simp) ?_⟩
    rw [List.append_nil, ← List.nil_append rotated, ← holding]
    exact (update_eq_self i k.queues).symm
  | cons head rest ih =>
    rw [List.cons_append] at holding
    have size : (rotated.length : Int) < (k.rings i).size := by
      rw [(ok.stores i bounded).size_eq, holding]
      simp only [List.length_cons, List.length_append]
      omega
    obtain ⟨popped, poppedQueues, poppedOk⟩ := pop_of_cons ok bounded holding
    simp only [List.length_cons, scanRing, if_pos size, popped]
    by_cases ready : (k.proc head).state = .runnable
    · have found : (k.pop i).2.isRunnable head = true := isRunnable_iff.mpr ready
      rw [if_pos found]
      refine ⟨poppedOk, .of_proc_eq rfl, .some head [] rest rfl (by simp) ready ?_⟩
      rw [poppedQueues, List.append_nil]
    · have skipped : ¬(k.pop i).2.isRunnable head = true := mt isRunnable_iff.mp ready
      rw [if_neg skipped]
      obtain ⟨turnedOk, turned, turnedQueues⟩ := rotate_spec ok bounded holding
      have turnedHolding : ((k.pop i).2.push i head).queues i =
          rest ++ (rotated ++ [head]) := by
        rw [turnedQueues, update_self, List.append_assoc]
      have turnedQueued : ∀ slot, ((k.pop i).2.push i head).Queued slot →
          k.Queued slot := by
        refine queued_of_update turnedQueues ?_
        intro slot member
        rw [holding]
        simp only [List.mem_append, List.mem_cons, List.not_mem_nil, or_false] at member ⊢
        tauto
      have next := ih (rotated ++ [head]) _ turnedOk turnedHolding
      have count : ((rotated ++ [head]).length : Int) = (rotated.length : Int) + 1 := by
        simp
      rw [count] at next
      obtain ⟨nextOk, nextTurned, result⟩ := next
      refine ⟨nextOk, turned.trans nextTurned turnedQueued, ?_⟩
      generalize (scanRing i rest.length ((rotated.length : Int) + 1)
        ((k.pop i).2.push i head)) = scanned at result ⊢
      obtain ⟨choice, after⟩ := scanned
      cases result with
      | none idle queues =>
        simp only [turned.state] at idle
        refine .none (List.forall_mem_cons.mpr ⟨ready, idle⟩) ?_
        rw [queues, turnedQueues, update_idem, List.append_assoc]
        rfl
      | some p before behind split idle readyP queues =>
        simp only [turned.state] at idle readyP
        refine .some p (head :: before) behind (by rw [split]; rfl)
          (List.forall_mem_cons.mpr ⟨ready, idle⟩) readyP ?_
        rw [queues, turnedQueues, update_idem]
        simp only [List.append_assoc, List.cons_append, List.nil_append]

/-! ### The search of all rings -/

/-- The first RUNNABLE process of the first ring that holds one leaves its ring; the
processes in front of it move to the rear. -/
inductive SelectResult (k : Kernel ncpu) (order : List Nat) (after : Kernel ncpu) :
    Option Slot → Prop
  | none (idle : ∀ i ∈ order, ∀ q ∈ k.queues i, (k.proc q).state ≠ .runnable)
      (queues : after.queues = k.queues) : SelectResult k order after none
  | some (p : Slot) (i : Nat) (earlier later : List Nat) (before behind : List Slot)
      (position : order = earlier ++ i :: later)
      (idleEarlier : ∀ j ∈ earlier, ∀ q ∈ k.queues j, (k.proc q).state ≠ .runnable)
      (holding : k.queues i = before ++ p :: behind)
      (idle : ∀ q ∈ before, (k.proc q).state ≠ .runnable)
      (ready : (k.proc p).state = .runnable)
      (queues : after.queues = update k.queues i (behind ++ before)) :
      SelectResult k order after (some p)

theorem SelectResult.cons {order : List Nat} {choice : Option Slot}
    (idleHere : ∀ q ∈ k.queues i, (k.proc q).state ≠ .runnable)
    (result : k.SelectResult order after choice) :
    k.SelectResult (i :: order) after choice := by
  cases result with
  | none idle queues => exact .none (List.forall_mem_cons.mpr ⟨idleHere, idle⟩) queues
  | some p j earlier later before behind position idleEarlier holding idle ready queues =>
    refine .some p j (i :: earlier) later before behind ?_ ?_ holding idle ready queues
    · rw [position]
      rfl
    · exact List.forall_mem_cons.mpr ⟨idleHere, idleEarlier⟩

theorem SelectResult.congr {other : Kernel ncpu} {order : List Nat} {choice : Option Slot}
    (result : other.SelectResult order after choice)
    (state : ∀ slot, (other.proc slot).state = (k.proc slot).state)
    (sameQueues : other.queues = k.queues) :
    k.SelectResult order after choice := by
  cases result with
  | none idle queues =>
    simp only [state, sameQueues] at idle
    exact .none idle (queues.trans sameQueues)
  | some p i earlier later before behind position idleEarlier holding idle ready queues =>
    simp only [state] at idleEarlier idle ready
    rw [sameQueues] at idleEarlier holding queues
    exact .some p i earlier later before behind position idleEarlier holding idle ready queues

theorem selectRing_spec (order : List Nat) (bounded : ∀ i ∈ order, i < levels)
    (k : Kernel ncpu) (ok : k.RingsOk) :
    (selectRing order k).2.RingsOk ∧ k.Turned (selectRing order k).2 ∧
      k.SelectResult order (selectRing order k).2 (selectRing order k).1 := by
  induction order generalizing k with
  | nil => exact ⟨ok, .of_proc_eq rfl, .none (by simp) rfl⟩
  | cons i rest ih =>
    obtain ⟨inside, later⟩ := List.forall_mem_cons.mp bounded
    have stores := ok.stores i inside
    unfold selectRing
    split
    · rename_i empty
      have nothing : k.queues i = [] := stores.isEmpty_iff.mp empty
      obtain ⟨restOk, restTurned, result⟩ := ih later k ok
      refine ⟨restOk, restTurned, result.cons ?_⟩
      rw [nothing]
      simp
    · have rounds : (k.rings i).size.toNat = (k.queues i).length := by
        rw [stores.size_eq]
        rfl
      have scanned := scanRing_spec inside (k.queues i) [] k ok (by simp)
      simp only [List.length_nil, Nat.cast_zero] at scanned
      rw [rounds]
      obtain ⟨scannedOk, scannedTurned, result⟩ := scanned
      generalize scanRing i (k.queues i).length 0 k = outcome at *
      obtain ⟨choice, after⟩ := outcome
      cases result with
      | none idle queues =>
        have unchanged : after.queues = k.queues := by
          rw [queues, List.nil_append, update_eq_self]
        have stillQueued : ∀ slot, after.Queued slot → k.Queued slot := by
          intro slot queued
          rwa [Queued, unchanged] at queued
        obtain ⟨restOk, restTurned, found⟩ := ih later after scannedOk
        exact ⟨restOk, scannedTurned.trans restTurned stillQueued,
          (found.congr scannedTurned.state unchanged).cons idle⟩
      | some p before behind split idle ready queues =>
        refine ⟨scannedOk, scannedTurned, .some p i [] rest before behind rfl (by simp) split
          idle ready ?_⟩
        rw [queues, List.append_nil]

theorem select_spec (ok : k.RingsOk) :
    k.select.2.RingsOk ∧ k.Turned k.select.2 ∧
      k.SelectResult (List.range levels) k.select.2 k.select.1 :=
  selectRing_spec (List.range levels) (fun _ member => List.mem_range.mp member) k ok

/-! ### Loops over the table that insert processes -/

/-- A round of such a loop looks at one slot only: it changes that record and sends
the slot to its target level. -/
structure InsertingRound (round : Kernel ncpu → Slot → Kernel ncpu) (valid : Proc → Prop)
    (target : Proc → Option Nat) (change : Bool → Proc → Proc) : Prop where
  bounded : ∀ p level, valid p → target p = some level → level < levels
  ok : ∀ k slot, k.RingsOk → valid (k.proc slot) →
    (round k slot).RingsOk
  queues : ∀ k slot, k.RingsOk → valid (k.proc slot) →
    (round k slot).queues =
      LevelQueues.enqueueAll levels (fun _ => target (k.proc slot)) k.queues [slot]
  proc : ∀ k slot, k.RingsOk → valid (k.proc slot) → ∀ other,
    (round k slot).proc other =
      if other = slot then change (decide (k.Queued slot)) (k.proc slot)
      else k.proc other

section InsertingLoop

variable {round : Kernel ncpu → Slot → Kernel ncpu} {valid : Proc → Prop}
  {target : Proc → Option Nat} {change : Bool → Proc → Proc}

theorem InsertingRound.queued_other (inserting : InsertingRound round valid target change)
    {k : Kernel ncpu} {slot other : Slot} (ok : k.RingsOk)
    (fits : valid (k.proc slot)) (different : other ≠ slot) :
    (round k slot).Queued other ↔ k.Queued other := by
  rw [Queued, inserting.queues k slot ok fits]
  cases sent : target (k.proc slot) with
  | none => simp only [LevelQueues.enqueueAll, Queued]
  | some level =>
    simp only [LevelQueues.enqueueAll]
    rw [LevelQueues.queued_enqueue (inserting.bounded _ level fits sent)]
    simp only [different, or_false, Queued]

/-- The whole loop, by induction over the slots still to visit. -/
theorem InsertingRound.foldl (inserting : InsertingRound round valid target change)
    (visited : List Slot) (nodup : visited.Nodup) (k : Kernel ncpu)
    (ok : k.RingsOk) (fits : ∀ slot ∈ visited, valid (k.proc slot)) :
    (visited.foldl round k).RingsOk ∧
      (visited.foldl round k).queues =
        LevelQueues.enqueueAll levels (fun slot => target (k.proc slot)) k.queues
          visited ∧
      ∀ other, (visited.foldl round k).proc other =
        if other ∈ visited then change (decide (k.Queued other)) (k.proc other)
        else k.proc other := by
  induction visited generalizing k with
  | nil => exact ⟨ok, rfl, fun other => by simp⟩
  | cons slot rest ih =>
    obtain ⟨fitsHere, fitsLater⟩ := List.forall_mem_cons.mp fits
    obtain ⟨unvisited, nodupRest⟩ := List.nodup_cons.mp nodup
    have different : ∀ other ∈ rest, other ≠ slot :=
      fun other member same => unvisited (same ▸ member)
    have procOf := inserting.proc k slot ok fitsHere
    have sameLater : ∀ other ∈ rest,
        (round k slot).proc other = k.proc other := by
      intro other member
      rw [procOf, if_neg (different other member)]
    have stillFits : ∀ other ∈ rest, valid ((round k slot).proc other) := by
      intro other member
      rw [sameLater other member]
      exact fitsLater other member
    obtain ⟨restOk, restQueues, restProc⟩ :=
      ih nodupRest (round k slot) (inserting.ok k slot ok fitsHere) stillFits
    refine ⟨restOk, ?_, ?_⟩
    · have sameTarget : ∀ other ∈ rest, target ((round k slot).proc other) =
          target (k.proc other) := by
        intro other member
        rw [sameLater other member]
      rw [List.foldl_cons, restQueues, LevelQueues.enqueueAll_congr sameTarget,
        inserting.queues k slot ok fitsHere]
      cases sent : target (k.proc slot) with
      | none => simp only [LevelQueues.enqueueAll, sent]
      | some level => simp only [LevelQueues.enqueueAll, sent]
    · intro other
      rw [List.foldl_cons, restProc]
      by_cases here : other = slot
      · subst other
        rw [if_neg unvisited, if_pos List.mem_cons_self, procOf, if_pos rfl]
      · rw [procOf, if_neg here]
        by_cases member : other ∈ rest
        · rw [if_pos member, if_pos (List.mem_cons_of_mem slot member)]
          congr 1
          exact decide_eq_decide.mpr (inserting.queued_other ok fitsHere here)
        · have absent : other ∉ slot :: rest := by
            simp [here, member]
          rw [if_neg member, if_neg absent]

/-- The loop over the whole table: every record changes in its own way, and each
queue is extended by those sent to it that waited nowhere. -/
theorem InsertingRound.table (inserting : InsertingRound round valid target change)
    {k : Kernel ncpu} (ok : k.RingsOk)
    (fits : ∀ slot, valid (k.proc slot)) :
    (slots.foldl round k).RingsOk ∧
      (∀ level, (slots.foldl round k).queues level = k.queues level ++
        slots.filter (fun slot => decide (target (k.proc slot) = some level ∧
          ¬k.Queued slot))) ∧
      ∀ slot, (slots.foldl round k).proc slot =
        change (decide (k.Queued slot)) (k.proc slot) := by
  have nodup : slots.Nodup := List.nodup_finRange NPROC
  obtain ⟨looped, queues, proc⟩ := inserting.foldl slots nodup k ok (fun slot _ => fits slot)
  refine ⟨looped, ?_, ?_⟩
  · intro level
    rw [queues]
    exact LevelQueues.enqueueAll_apply
      (fun slot _ level sent => inserting.bounded (k.proc slot) level (fits slot) sent)
      nodup k.queues level
  · intro slot
    rw [proc, if_pos (List.mem_finRange slot)]

end InsertingLoop

/-! ### The refill at the end of a pass -/

/-- What one insertion attempt does when the slot is sent to a level, stated so that a
round can use it whether the slot waits already or not. -/
theorem push_round (ok : k.RingsOk) {slot : Slot} {level : Nat} (bounded : level < levels)
    (other : Slot) :
    (k.push level slot).proc other =
      if other = slot then
        if k.Queued slot then k.proc slot
        else { k.proc slot with curTime := 0 }
      else k.proc other := by
  by_cases queued : k.Queued slot
  · rw [push_of_queued ok queued, if_pos queued]
    split
    · rename_i same
      rw [same]
    · rfl
  · rw [push_of_absent ok queued bounded, setRing_proc, modify_proc, if_neg queued]

/-- The refill inserts RUNNABLE processes with an identifier. -/
def refillTarget (p : Proc) : Option Nat :=
  if p.pid = 0 ∨ p.state ≠ .runnable then none else some 0

def refilledProc (queued : Bool) (p : Proc) : Proc :=
  if p.pid = 0 ∨ p.state ≠ .runnable ∨ queued = true then p else { p with curTime := 0 }

theorem refillSlot_inserting :
    InsertingRound (refillSlot : Kernel ncpu → Slot → Kernel ncpu) (fun _ => True)
      refillTarget refilledProc where
  bounded := by
    intro p level _ sent
    unfold refillTarget at sent
    split at sent
    · cases sent
    · cases sent
      decide
  ok := by
    intro k slot ok _
    unfold refillSlot
    split
    · exact ok
    · exact ok.push slot (by decide)
  queues := by
    intro k slot ok _
    unfold refillSlot refillTarget
    split
    · simp only [LevelQueues.enqueueAll]
    · simp only [LevelQueues.enqueueAll]
      exact push_queues ok slot (by decide)
  proc := by
    intro k slot ok _ other
    unfold refillSlot
    by_cases skipped : (k.proc slot).pid = 0 ∨ (k.proc slot).state ≠ .runnable
    · have unchanged : refilledProc (decide (k.Queued slot)) (k.proc slot) =
          k.proc slot := by
        unfold refilledProc
        rw [if_pos]
        tauto
      rw [if_pos skipped, unchanged]
      split
      · rename_i same
        rw [same]
      · rfl
    · have attempted : refilledProc (decide (k.Queued slot)) (k.proc slot) =
          if k.Queued slot then k.proc slot
          else { k.proc slot with curTime := 0 } := by
        unfold refilledProc
        by_cases queued : k.Queued slot
        · rw [if_pos queued, if_pos]
          simp [queued]
        · rw [if_neg queued, if_neg]
          simp only [queued, decide_false, Bool.false_eq_true, or_false]
          exact skipped
      rw [if_neg skipped, push_round ok (by decide), attempted]

theorem refill_spec (ok : k.RingsOk) :
    k.refill.RingsOk ∧
      (∀ level, k.refill.queues level = k.queues level ++
        slots.filter (fun slot => decide (refillTarget (k.proc slot) = some level ∧
          ¬k.Queued slot))) ∧
      ∀ slot, k.refill.proc slot =
        refilledProc (decide (k.Queued slot)) (k.proc slot) := by
  unfold refill
  exact refillSlot_inserting.table ok (fun _ => trivial)

/-! ### Ageing -/

/-- `modify_times` moves the process up one level. -/
def Ages (p : Proc) : Prop :=
  p.state ≠ .running ∧ p.queueNo ≠ 0 ∧ AGE < p.waitTime + 1

instance (p : Proc) : Decidable (Ages p) :=
  inferInstanceAs (Decidable (_ ∧ _ ∧ _))

def ageTarget (p : Proc) : Option Nat :=
  if Ages p then some (p.queueNo - 1) else none

def chargedProc (p : Proc) : Proc :=
  if p.state = .running then chargeRunning .mlfq p
  else if Ages p then { p with queueNo := p.queueNo - 1, curTime := 0, waitTime := 0 }
  else { p with waitTime := p.waitTime + 1 }

theorem chargedProc_of_ages {p : Proc} (ages : Ages p) :
    chargedProc p = { p with queueNo := p.queueNo - 1, curTime := 0, waitTime := 0 } := by
  rw [chargedProc, if_neg ages.1, if_pos ages]

/-- A round of `modify_times` with and without ageing. -/
theorem chargeSlot_cases (k : Kernel ncpu) (slot : Slot) :
    (¬Ages (k.proc slot) ∧ chargeSlot .mlfq k slot =
        k.modify slot (fun _ => chargedProc (k.proc slot))) ∨
      (Ages (k.proc slot) ∧ chargeSlot .mlfq k slot =
        (k.modify slot (fun _ => chargedProc (k.proc slot))).push
          ((k.proc slot).queueNo - 1) slot) := by
  by_cases running : (k.proc slot).state = .running
  · refine Or.inl ⟨fun ages => ages.1 running, ?_⟩
    rw [chargeSlot, if_pos running, chargedProc, if_pos running]
    rfl
  · simp only [chargeSlot, if_neg running, modify_proc_self, true_and]
    by_cases ages : Ages (k.proc slot)
    · refine Or.inr ⟨ages, ?_⟩
      rw [if_pos ages.2, chargedProc_of_ages ages]
      simp only [modify, update_self, update_idem]
    · refine Or.inl ⟨ages, ?_⟩
      rw [if_neg (fun guard => ages ⟨running, guard⟩), chargedProc, if_neg running, if_neg ages]
      rfl

theorem chargeSlot_inserting :
    InsertingRound (chargeSlot .mlfq : Kernel ncpu → Slot → Kernel ncpu)
      (fun p => p.queueNo ≤ 4) ageTarget (fun _ => chargedProc) where
  bounded := by
    intro p level low sent
    unfold ageTarget at sent
    split at sent
    · cases sent
      change p.queueNo - 1 < 5
      omega
    · cases sent
  ok := by
    intro k slot ok low
    have charged : (k.modify slot (fun _ => chargedProc (k.proc slot))).RingsOk :=
      ok.congr rfl rfl
    rcases chargeSlot_cases k slot with ⟨_, result⟩ | ⟨ages, result⟩
    · rwa [result]
    · rw [result]
      apply charged.push slot
      change (k.proc slot).queueNo - 1 < 5
      omega
  queues := by
    intro k slot ok low
    have charged : (k.modify slot (fun _ => chargedProc (k.proc slot))).RingsOk :=
      ok.congr rfl rfl
    rcases chargeSlot_cases k slot with ⟨ages, result⟩ | ⟨ages, result⟩
    · simp only [result, LevelQueues.enqueueAll, ageTarget, if_neg ages]
      rfl
    · have bounded : (k.proc slot).queueNo - 1 < levels := by
        change (k.proc slot).queueNo - 1 < 5
        omega
      simp only [result, LevelQueues.enqueueAll, ageTarget, if_pos ages]
      exact push_queues charged slot bounded
  proc := by
    intro k slot ok low other
    have charged : (k.modify slot (fun _ => chargedProc (k.proc slot))).RingsOk :=
      ok.congr rfl rfl
    rcases chargeSlot_cases k slot with ⟨_, result⟩ | ⟨ages, result⟩
    · rw [result, modify_proc]
    · have bounded : (k.proc slot).queueNo - 1 < levels := by
        change (k.proc slot).queueNo - 1 < 5
        omega
      rw [result, push_round charged bounded, modify_proc_self]
      split
      · -- the record was cleared before the insertion, which clears it again
        split
        · rfl
        · rw [chargedProc_of_ages ages]
      · rename_i different
        rw [modify_proc_of_ne _ _ _ different]

theorem modifyTimes_spec (ok : k.RingsOk) (low : ∀ slot, (k.proc slot).queueNo ≤ 4) :
    (k.modifyTimes .mlfq).RingsOk ∧
      (∀ level, (k.modifyTimes .mlfq).queues level = k.queues level ++
        slots.filter (fun slot => decide (ageTarget (k.proc slot) = some level ∧
          ¬k.Queued slot))) ∧
      ∀ slot, (k.modifyTimes .mlfq).proc slot = chargedProc (k.proc slot) := by
  unfold modifyTimes
  exact chargeSlot_inserting.table ok low

/-! ### Allocation -/

/-- A ring is full only if it holds every slot, so a new process always goes to the
first ring, unless it waits somewhere already. -/
theorem pushFirstFree_eq (ok : k.RingsOk) (slot : Slot) :
    k.pushFirstFree slot = k.push 0 slot := by
  by_cases queued : k.Queued slot
  · unfold pushFirstFree
    rw [push_of_queued ok queued]
    split
    · exact push_of_queued ok queued _
    · rfl
  · have room := ok.not_full (by decide : 0 < levels) queued
    have first : (List.range levels).find? (fun i => !k.isFull i) = some 0 := by
      change (0 :: _).find? _ = some 0
      rw [List.find?_cons_of_pos]
      simp [room]
    simp only [pushFirstFree, first]

/-- `allocproc` under the multilevel feedback queue. -/
theorem allocproc_mlfq (ok : k.RingsOk) {slot : Slot} (found : k.firstUnused = some slot)
    :
    (k.allocproc .mlfq).2 = (k.claimSlot slot).push 0 slot ∧
      ((k.claimSlot slot).push 0 slot).queues =
        LevelQueues.enqueue levels k.queues 0 slot := by
  have claimed : (k.claimSlot slot).RingsOk := ok.congr rfl rfl
  constructor
  · simp only [allocproc, found, if_true, pushFirstFree_eq claimed]
  · rw [push_queues claimed slot (by decide)]
    rfl

end Kernel

end Xv6
