/-
The five rings of the multilevel feedback queue: `isEmpty`, `isFull`, `push` and
`pop`, and what they do to the lists that the rings hold.

`push` first searches all five rings, so a process that waits anywhere is not
inserted again.  With the rings well formed and no process waiting twice, a ring is
full only if it holds every slot of the table; the full branch of `push` is then
dead, because its search has found the process before.
-/

import Xv6.Process.Table
import Xv6.Library.LevelQueues

namespace Xv6

open Function Library

namespace Kernel

variable {ncpu : Nat}

def isEmpty (k : Kernel ncpu) (queueNo : Nat) : Bool :=
  (k.rings queueNo).isEmpty

def isFull (k : Kernel ncpu) (queueNo : Nat) : Bool :=
  (k.rings queueNo).isFull NPROC

/-- The search at the top of `push`. -/
def inSomeRing (k : Kernel ncpu) (cur : Slot) : Bool :=
  (List.range levels).any (fun i => (k.rings i).holds NPROC cur)

def push (k : Kernel ncpu) (queueNo : Nat) (cur : Slot) : Kernel ncpu :=
  if k.inSomeRing cur then k
  else if k.isFull queueNo then
    { k with faults := .queueFull queueNo :: k.faults }
  else
    (k.modify cur (fun p => { p with curTime := 0 })).setRing queueNo
      ((k.rings queueNo).enqueue NPROC cur)

def pop (k : Kernel ncpu) (queueNo : Nat) : Option Slot × Kernel ncpu :=
  (((k.rings queueNo).dequeue NPROC).1,
    { k with
      faults := if k.isEmpty queueNo then .popEmpty queueNo :: k.faults
        else k.faults
      rings := update k.rings queueNo
        ((k.rings queueNo).dequeue NPROC).2 })

/-! ### The lists behind the rings -/

/-- The processes of each ring from front to rear. -/
def queues (k : Kernel ncpu) (level : Nat) : List Slot :=
  (k.rings level).contents NPROC

def Queued (k : Kernel ncpu) (slot : Slot) : Prop :=
  LevelQueues.Queued levels k.queues slot

instance (k : Kernel ncpu) (slot : Slot) : Decidable (k.Queued slot) :=
  inferInstanceAs (Decidable (LevelQueues.Queued levels k.queues slot))

/-- The rings are well formed, no process waits twice, and neither of the two
faults has happened. -/
structure RingsOk (k : Kernel ncpu) : Prop where
  stores : ∀ level, level < levels →
    (k.rings level).Stores NPROC (k.queues level)
  distinct : LevelQueues.Distinct levels k.queues
  clean : k.faults = []

variable {k other : Kernel ncpu} {cur : Slot} {queueNo : Nat}

theorem queues_congr (same : k.rings = other.rings) :
    k.queues = other.queues := by
  funext level
  simp only [queues, same]

theorem queued_congr (same : k.rings = other.rings) (slot : Slot) :
    k.Queued slot ↔ other.Queued slot := by
  simp only [Queued, queues_congr same]

theorem RingsOk.congr (ok : k.RingsOk) (sameRings : other.rings = k.rings)
    (sameFaults : other.faults = k.faults) :
    other.RingsOk := by
  have sameQueues := queues_congr sameRings
  constructor
  · rw [sameRings, sameQueues]
    exact ok.stores
  · rw [sameQueues]
    exact ok.distinct
  · rw [sameFaults]
    exact ok.clean

theorem boot_queues (level : Nat) : (boot ncpu).queues level = [] :=
  CircularQueue.stores_empty.contents_eq

theorem boot_ringsOk : (boot ncpu).RingsOk where
  stores := by
    intro level _
    rw [boot_queues]
    exact CircularQueue.stores_empty
  distinct := by
    have none : (boot ncpu).queues = fun _ => [] := funext boot_queues
    rw [none]
    exact LevelQueues.distinct_nil
  clean := rfl

theorem RingsOk.inSomeRing_iff (ok : k.RingsOk) (cur : Slot) :
    k.inSomeRing cur = true ↔ k.Queued cur := by
  simp only [inSomeRing, List.any_eq_true, List.mem_range]
  constructor
  · rintro ⟨level, bounded, found⟩
    exact ⟨level, bounded, ((ok.stores level bounded).holds_iff cur).mp found⟩
  · rintro ⟨level, bounded, member⟩
    exact ⟨level, bounded, ((ok.stores level bounded).holds_iff cur).mpr member⟩

theorem RingsOk.room (ok : k.RingsOk) {level : Nat} (bounded : level < levels)
    (absent : cur ∉ k.queues level) :
    (k.queues level).length < NPROC := by
  have nodup : (cur :: k.queues level).Nodup :=
    List.nodup_cons.mpr ⟨absent, ok.distinct.nodup level bounded⟩
  have counted := nodup.length_le_card
  rw [Fintype.card_fin, List.length_cons] at counted
  omega

theorem RingsOk.not_full (ok : k.RingsOk) {level : Nat} (bounded : level < levels)
    (absent : ¬k.Queued cur) :
    k.isFull level = false := by
  have room := ok.room bounded (fun member => absent ⟨level, bounded, member⟩)
  rw [← Bool.not_eq_true, isFull, (ok.stores level bounded).isFull_iff (by decide)]
  omega

/-! ### `push` -/

theorem push_of_queued (ok : k.RingsOk) (queued : k.Queued cur) (queueNo : Nat) :
    k.push queueNo cur = k := by
  rw [push, if_pos ((ok.inSomeRing_iff cur).mpr queued)]

theorem push_of_absent (ok : k.RingsOk) (absent : ¬k.Queued cur)
    (bounded : queueNo < levels) :
    k.push queueNo cur =
      (k.modify cur (fun p => { p with curTime := 0 })).setRing queueNo
        ((k.rings queueNo).enqueue NPROC cur) := by
  have notFound : ¬k.inSomeRing cur = true :=
    fun found => absent ((ok.inSomeRing_iff cur).mp found)
  have notFull : ¬k.isFull queueNo = true := by
    rw [ok.not_full bounded absent]
    decide
  rw [push, if_neg notFound, if_neg notFull]

theorem push_queues (ok : k.RingsOk) (cur : Slot) (bounded : queueNo < levels) :
    (k.push queueNo cur).queues =
      LevelQueues.enqueue levels k.queues queueNo cur := by
  by_cases queued : k.Queued cur
  · rw [push_of_queued ok queued, LevelQueues.enqueue_of_queued queued]
  · rw [push_of_absent ok queued bounded, LevelQueues.enqueue_of_absent queued]
    have room := ok.room bounded (fun member => queued ⟨queueNo, bounded, member⟩)
    funext level
    by_cases same : level = queueNo
    · subst level
      simp only [queues, setRing, update_self]
      exact ((ok.stores queueNo bounded).enqueue room cur).contents_eq
    · simp only [queues, setRing, modify_rings, update_of_ne same]

theorem RingsOk.push (ok : k.RingsOk) (cur : Slot) (bounded : queueNo < levels) :
    (k.push queueNo cur).RingsOk := by
  by_cases queued : k.Queued cur
  · rwa [push_of_queued ok queued]
  · have room := ok.room bounded (fun member => queued ⟨queueNo, bounded, member⟩)
    have newQueues := push_queues ok cur bounded
    refine ⟨?_, ?_, ?_⟩
    · intro level inside
      rw [newQueues, LevelQueues.enqueue_of_absent queued, push_of_absent ok queued bounded]
      by_cases same : level = queueNo
      · subst level
        simp only [setRing, update_self]
        exact (ok.stores queueNo bounded).enqueue room cur
      · simp only [setRing, modify_rings, update_of_ne same]
        exact ok.stores level inside
    · rw [newQueues]
      exact ok.distinct.enqueue bounded
    · rw [push_of_absent ok queued bounded]
      exact ok.clean

/-- Apart from the rings, `push` only clears `cur_time` of the process it inserts. -/
theorem push_proc (k : Kernel ncpu) (queueNo : Nat) (cur other : Slot) :
    (k.push queueNo cur).proc other = k.proc other ∨
      (other = cur ∧
        (k.push queueNo cur).proc other = { k.proc cur with curTime := 0 }) := by
  unfold push
  split
  · exact Or.inl rfl
  · split
    · exact Or.inl rfl
    · by_cases same : other = cur
      · subst other
        exact Or.inr ⟨rfl, by rw [setRing_proc, modify_proc_self]⟩
      · exact Or.inl (by rw [setRing_proc, modify_proc_of_ne _ _ _ same])

theorem push_frame (k : Kernel ncpu) (queueNo : Nat) (cur : Slot) :
    (k.push queueNo cur).cpu = k.cpu ∧
      (k.push queueNo cur).lock = k.lock ∧
      (k.push queueNo cur).ticks = k.ticks ∧
      (k.push queueNo cur).nextpid = k.nextpid ∧
      (k.push queueNo cur).initproc = k.initproc := by
  unfold push
  split
  · exact ⟨rfl, rfl, rfl, rfl, rfl⟩
  · split
    · exact ⟨rfl, rfl, rfl, rfl, rfl⟩
    · exact ⟨rfl, rfl, rfl, rfl, rfl⟩

/-! ### `pop` -/

theorem pop_of_cons (ok : k.RingsOk) (bounded : queueNo < levels) {head : Slot}
    {rest : List Slot} (holding : k.queues queueNo = head :: rest) :
    (k.pop queueNo).1 = some head ∧
      (k.pop queueNo).2.queues = update k.queues queueNo rest ∧
      (k.pop queueNo).2.RingsOk := by
  have stores := ok.stores queueNo bounded
  have taken := (holding ▸ stores).dequeue
  have notEmpty : k.isEmpty queueNo = false := by
    rw [← Bool.not_eq_true, isEmpty, stores.isEmpty_iff, holding]
    exact List.cons_ne_nil head rest
  have newQueues : (k.pop queueNo).2.queues =
      update k.queues queueNo rest := by
    funext level
    by_cases same : level = queueNo
    · subst level
      simp only [queues, pop, update_self]
      exact taken.2.contents_eq
    · simp only [queues, pop, update_of_ne same]
  refine ⟨taken.1, newQueues, ?_, ?_, ?_⟩
  · intro level inside
    rw [newQueues]
    by_cases same : level = queueNo
    · subst level
      simp only [pop, update_self]
      exact taken.2
    · simp only [pop, update_of_ne same]
      exact ok.stores level inside
  · rw [newQueues]
    have nodup := ok.distinct.nodup queueNo bounded
    rw [holding] at nodup
    refine ok.distinct.replace queueNo (List.nodup_cons.mp nodup).2 ?_
    intro slot member
    rw [holding]
    exact List.mem_cons_of_mem head member
  · simp only [pop, notEmpty]
    exact ok.clean

end Kernel

end Xv6
