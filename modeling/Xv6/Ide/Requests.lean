/-
The requests to the driver of `ide.c`.

An observer keeps the requests as they are queued, started, transferred by the device,
completed and returned from.  The invariant compares them: each of these lists is an initial
part of the one before it, and the queue has the requests that are not completed.
-/

import Xv6.Ide.Model

namespace Xv6.Ide

open Function Library

variable {nbuf : Nat}

/-- A call of `iderw`: the buffer, the process that holds it, and its fields. -/
structure Request (nbuf : Nat) where
  b : Fin nbuf
  holder : Option Nat
  buf : Buf

def System.request (s : System nbuf) (b : Fin nbuf) : Request nbuf :=
  ⟨b, s.lock b, s.buf b⟩

/-- The arguments for `memide.c`. -/
def Request.call (request : Request nbuf) : Bool × Buf := (request.holder.isSome, request.buf)

structure Completion (nbuf : Nat) where
  request : Request nbuf
  after : Buf

structure History (nbuf : Nat) where
  queued : List (Request nbuf) := []
  started : List (Request nbuf) := []
  transferred : List (Request nbuf) := []
  completed : List (Completion nbuf) := []
  returned : List (Nat × Fin nbuf × Buf) := []

def observe (havedisk1 : Bool) (s : System nbuf) (event : Event nbuf)
    (history : History nbuf) : History nbuf :=
  match event with
  | .iderw p b =>
    match s.iderw havedisk1 p b with
    | .ok next =>
      { history with
        queued := history.queued ++ [s.request b]
        started := history.started ++
          if next.idequeue.head = some b then [s.request b] else [] }
    | .error _ => history
  | .finish =>
    { history with
      transferred := history.transferred ++ s.idequeue.head.toList.map s.request }
  | .interrupt =>
    match s.device with
    | .done data =>
      match s.ideintr data with
      | .ok next =>
        { history with
          completed := history.completed ++ s.idequeue.head.toList.map (fun b =>
            ⟨s.request b, next.buf b⟩)
          started := history.started ++ next.idequeue.head.toList.map next.request }
      | .error _ => history
    | _ => history
  | .run p =>
    match (s.proc p).inside with
    | some b =>
      if (s.buf b).isClean then
        { history with returned := history.returned ++ [(p, b, s.buf b)] }
      else history
    | none => history
  | _ => history

/-- The completed requests of a process, with what it finds in its buffer. -/
def History.completedBy (history : History nbuf) (p : Nat) : List (Nat × Fin nbuf × Buf) :=
  (history.completed.filter (fun c => c.request.holder = some p)).map
    (fun c => (p, c.request.b, c.after))

def History.returnedBy (history : History nbuf) (p : Nat) : List (Nat × Fin nbuf × Buf) :=
  history.returned.filter (fun entry => entry.1 = p)

/-! ### The device -/

theorem registers_sector {b : Buf} (small : b.blockno < FSSIZE) :
    (System.registers b).sector = b.blockno ∧ (System.registers b).disk = b.dev % 2 := by
  unfold System.registers Registers.sector Registers.disk
  simp only [FSSIZE, BSIZE, SECTOR_SIZE] at small ⊢
  omega

theorem command_finish {b : Buf} (small : b.blockno < FSSIZE) (disks : Disks) :
    (System.command b).finish disks =
      if b.dirty then
        (update disks (b.dev % 2)
          (update (disks (b.dev % 2)) b.blockno b.data), b.data)
      else (disks, disks (b.dev % 2) b.blockno) := by
  obtain ⟨sector, disk⟩ := registers_sector small
  unfold System.command
  cases b.dirty with
  | true =>
    simp only [if_true, Command.finish]
    rw [sector, disk]
  | false =>
    simp only [Bool.false_eq_true, if_false, Command.finish]
    rw [sector, disk]

/-- The device and `ideintr` together do what `memide.c` does. -/
theorem memide_iderw {b : Buf} (dirty : b.isClean = false) (dev : b.dev = 1)
    (small : b.blockno < FSSIZE) (disks : Disks) :
    Memide.iderw (disks 1) true b =
      .ok (((System.command b).finish disks).1 1,
        b.complete ((System.command b).finish disks).2) := by
  have range : ¬Memide.disksize ≤ b.blockno := Nat.not_le_of_lt small
  rw [command_finish small, dev]
  unfold Memide.iderw
  rw [if_neg (by decide), if_neg (by rw [dirty]; decide), if_neg (not_not.mpr dev), if_neg range]
  cases flag : b.dirty with
  | true =>
    simp only [if_true, Buf.complete, flag]
    rw [update_self]
  | false => simp only [Bool.false_eq_true, if_false, Buf.complete, flag]

theorem memide_run_concat (requests : List (Bool × Buf)) (holding : Bool) (b : Buf) :
    ∀ {memdisk middle final : Nat → Block} {bufs : List Buf} {after : Buf},
      Memide.run memdisk requests = .ok (middle, bufs) →
      Memide.iderw middle holding b = .ok (final, after) →
        Memide.run memdisk (requests ++ [(holding, b)]) = .ok (final, bufs ++ [after]) := by
  induction requests with
  | nil =>
    intro memdisk middle final bufs after ran last
    cases ran
    rw [List.nil_append, Memide.run, last]
    rfl
  | cons request rest ih =>
    intro memdisk middle final bufs after ran last
    obtain ⟨held, first⟩ := request
    rw [Memide.run] at ran
    cases one : Memide.iderw memdisk held first with
    | error cause =>
      rw [one] at ran
      cases ran
    | ok result =>
      rw [one] at ran
      cases later : Memide.run result.1 rest with
      | error cause =>
        simp only [Bind.bind, Except.bind, later] at ran
        cases ran
      | ok finally' =>
        simp only [Bind.bind, Except.bind, later] at ran
        cases ran
        rw [List.cons_append, Memide.run, one]
        simp only [Bind.bind, Except.bind, ih later last]
        rfl

/-! ### The invariant -/

namespace System

/-- The request that the device has finished. -/
def finished (s : System nbuf) (queue : List (Fin nbuf)) : List (Fin nbuf) :=
  match s.device with
  | .done _ => queue.take 1
  | _ => []

/-- The data in the device. -/
def data (s : System nbuf) : Block :=
  match s.device with
  | .done data => data
  | _ => fun _ => 0

/-- The completed request that a process has not yet returned from. -/
def waiting (s : System nbuf) (queue : List (Fin nbuf)) (p : Nat) :
    List (Nat × Fin nbuf × Buf) :=
  match (s.proc p).inside with
  | some b => if b ∈ queue then [] else [(p, b, s.buf b)]
  | none => []

end System

/-- The first request in the queue is the one that the device works on. -/
inductive Drives (s : System nbuf) : List (Fin nbuf) → Device → Prop
  | idle : Drives s [] .idle
  | busy {b : Fin nbuf} {rest : List (Fin nbuf)} : (s.buf b).blockno < FSSIZE →
      Drives s (b :: rest) (.busy (System.command (s.buf b)))
  | done {b : Fin nbuf} {rest : List (Fin nbuf)} {data : Block} :
      Drives s (b :: rest) (.done data)

structure Inv (disks : Disks) (s : System nbuf) (history : History nbuf)
    (queue : List (Fin nbuf)) : Prop where
  holds : s.idequeue.Holds queue
  nodup : queue.Nodup
  drives : Drives s queue s.device
  queued : history.queued =
    history.completed.map Completion.request ++ queue.map s.request
  started : history.started =
    history.completed.map Completion.request ++ (queue.take 1).map s.request
  transferred : history.transferred =
    history.completed.map Completion.request ++ (s.finished queue).map s.request
  locked : ∀ b ∈ queue, ∃ p, s.lock b = some p ∧ (s.proc p).inside = some b
  pending : ∀ b ∈ queue, (s.buf b).isClean = false
  inside : ∀ p b, (s.proc p).inside = some b → s.lock b = some p ∧
    (b ∈ queue ∨ ((s.buf b).isClean = true ∧ (s.proc p).sleeping = false))
  mine : ∀ p, history.completedBy p = history.returnedBy p ++ s.waiting queue p
  clean : ∀ entry ∈ history.returned, entry.2.2.isClean = true
  replay : (∀ request ∈ history.queued, request.buf.dev = 1) →
    Memide.run (disks 1) (history.transferred.map Request.call) =
      .ok (s.disks 1, history.completed.map Completion.after ++
        (s.finished queue).map (fun b => (s.buf b).complete s.data))

namespace Inv

variable {disks : Disks} {s next : System nbuf} {history : History nbuf}
  {queue : List (Fin nbuf)}

theorem start (disks : Disks) : Inv disks ({ disks := disks } : System nbuf) {} [] where
  holds := LinkedQueue.holds_empty
  nodup := List.nodup_nil
  drives := .idle
  queued := rfl
  started := rfl
  transferred := rfl
  locked := fun _ member => absurd member List.not_mem_nil
  pending := fun _ member => absurd member List.not_mem_nil
  inside := fun _ _ found => nomatch found
  mine := fun _ => rfl
  clean := fun _ member => absurd member List.not_mem_nil
  replay := fun _ => rfl

theorem not_queued (inv : Inv disks s history queue) {b : Fin nbuf}
    (outside : ∀ p, s.lock b = some p → (s.proc p).inside = none) : b ∉ queue := by
  intro member
  obtain ⟨p, locked, inside⟩ := inv.locked b member
  rw [outside p locked] at inside
  cases inside

/-- A step that leaves the queue and the device alone, and the buffers of the processes that
stay in the driver. -/
theorem frame (inv : Inv disks s history queue) (returned : List (Nat × Fin nbuf × Buf))
    (idequeue : next.idequeue = s.idequeue) (device : next.device = s.device)
    (disk : next.disks = s.disks)
    (queued : ∀ b ∈ queue, next.lock b = s.lock b ∧ next.buf b = s.buf b)
    (stays : ∀ p, ∀ b ∈ queue, (s.proc p).inside = some b → (next.proc p).inside = some b)
    (inside : ∀ p b, (next.proc p).inside = some b → (s.proc p).inside = some b ∧
      next.lock b = s.lock b ∧ next.buf b = s.buf b ∧
      (b ∉ queue → (s.proc p).sleeping = false → (next.proc p).sleeping = false))
    (mine : ∀ p, history.completedBy p =
      returned.filter (fun entry => entry.1 = p) ++ next.waiting queue p)
    (clean : ∀ entry ∈ returned, entry.2.2.isClean = true) :
    Inv disks next { history with returned := returned } queue := by
  have requests {part : List (Fin nbuf)} (sub : ∀ b ∈ part, b ∈ queue) :
      part.map next.request = part.map s.request := by
    apply List.map_congr_left
    intro b member
    unfold System.request
    rw [(queued b (sub b member)).1, (queued b (sub b member)).2]
  have finished : next.finished queue = s.finished queue := by
    unfold System.finished
    rw [device]
  have data : next.data = s.data := by
    unfold System.data
    rw [device]
  have part : ∀ b ∈ s.finished queue, b ∈ queue := by
    intro b member
    unfold System.finished at member
    split at member
    · exact List.mem_of_mem_take member
    · exact absurd member List.not_mem_nil
  refine ⟨idequeue ▸ inv.holds, inv.nodup, ?_, ?_, ?_, ?_, ?_, ?_, ?_, mine, clean, ?_⟩
  · rw [device]
    have drives := inv.drives
    generalize s.device = current at drives
    cases drives with
    | idle => exact .idle
    | @busy b rest small =>
      rw [← (queued b List.mem_cons_self).2] at small ⊢
      exact .busy small
    | done => exact .done
  · rw [requests fun _ => id]
    exact inv.queued
  · rw [requests fun _ => List.mem_of_mem_take]
    exact inv.started
  · rw [finished, requests part]
    exact inv.transferred
  · intro b member
    obtain ⟨p, locked, found⟩ := inv.locked b member
    exact ⟨p, (queued b member).1.trans locked, stays p b member found⟩
  · intro b member
    rw [(queued b member).2]
    exact inv.pending b member
  · intro p b found
    obtain ⟨before, sameLock, sameBuf, awake⟩ := inside p b found
    obtain ⟨locked, state⟩ := inv.inside p b before
    refine ⟨sameLock.trans locked, ?_⟩
    rw [sameBuf]
    by_cases member : b ∈ queue
    · exact Or.inl member
    · obtain ⟨done, woken⟩ := state.resolve_left member
      exact Or.inr ⟨done, awake member woken⟩
  · intro devs
    have same : (s.finished queue).map (fun b => (next.buf b).complete next.data) =
        (s.finished queue).map (fun b => (s.buf b).complete s.data) := by
      apply List.map_congr_left
      intro b member
      rw [(queued b (part b member)).2, data]
    rw [finished, same, disk]
    exact inv.replay devs

theorem outside_step (inv : Inv disks s history queue)
    (idequeue : next.idequeue = s.idequeue) (device : next.device = s.device)
    (disk : next.disks = s.disks)
    (procs : ∀ p, (next.proc p).inside = (s.proc p).inside)
    (inside : ∀ p b, (s.proc p).inside = some b →
      next.lock b = s.lock b ∧ next.buf b = s.buf b ∧
      (b ∉ queue → (s.proc p).sleeping = false → (next.proc p).sleeping = false)) :
    Inv disks next history queue := by
  refine inv.frame history.returned idequeue device disk ?_ ?_ ?_ ?_ inv.clean
  · intro b member
    obtain ⟨p, _, found⟩ := inv.locked b member
    exact ⟨(inside p b found).1, (inside p b found).2.1⟩
  · intro p b _ found
    rw [procs]
    exact found
  · intro p b found
    rw [procs] at found
    exact ⟨found, inside p b found⟩
  · intro p
    rw [inv.mine]
    unfold System.waiting
    rw [procs]
    cases found : (s.proc p).inside with
    | none => rfl
    | some b =>
      simp only [(inside p b found).2.1]
      rfl

theorem length_queue (inv : Inv disks s history queue) : queue.length < nbuf + 1 := by
  have few := inv.nodup.length_le_card
  rw [Fintype.card_fin] at few
  exact Nat.lt_succ_of_le few

end Inv

end Xv6.Ide
