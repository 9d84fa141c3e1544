/-
The driver of `ide.c` works as that of `memide.c` does on the same requests in the order of
its queue.
-/

import Xv6.Ide.Sections

namespace Xv6.Ide

open Library

variable {nbuf : Nat}

/-- Requests are started, transferred and completed one at a time in the order in which they
were queued.  While there are any, the device works on the first one, and no process whose
request is completed stays asleep.  A process returns only from its own completed requests,
with a valid buffer.  The disk and the buffers are those that `memide.c` leaves after the same
requests, if they are for the disk that it has. -/
theorem ide_refines_memide {havedisk1 : Bool} {disks : Disks} {events : List (Event nbuf)}
    {s : System nbuf} {history : History nbuf}
    (ran : ((machine nbuf havedisk1 disks).watched (observe havedisk1) {}).exec
      ((machine nbuf havedisk1 disks).start, {}) events = some (s, history)) :
    (∃ queue : List (Fin nbuf), queue.Nodup ∧
        history.queued =
          history.completed.map Completion.request ++ queue.map s.request ∧
        history.started =
          history.completed.map Completion.request ++ (queue.take 1).map s.request ∧
        (s.device = .idle ↔ queue = []) ∧
        ∀ p b, (s.proc p).inside = some b →
          b ∈ queue ∨ ((s.buf b).isClean = true ∧ (s.proc p).sleeping = false)) ∧
      (history.completed.map Completion.request <+: history.transferred ∧
        history.transferred <+: history.started) ∧
      (∀ p, history.returnedBy p <+: history.completedBy p ∧
        ((s.proc p).inside = none → history.returnedBy p = history.completedBy p)) ∧
      (∀ entry ∈ history.returned, entry.2.2.valid = true ∧ entry.2.2.dirty = false) ∧
      ((∀ request ∈ history.queued, request.buf.dev = 1) →
        ∃ bufs, Memide.run (disks 1) (history.transferred.map Request.call) =
            .ok (s.disks 1, bufs) ∧
          history.completed.map Completion.after <+: bufs) := by
  have kept (pair : System nbuf × History nbuf) (event : Event nbuf)
      (next : System nbuf × History nbuf) (holds : ∃ queue, Inv disks pair.1 pair.2 queue)
      (stepped : ((machine nbuf havedisk1 disks).watched (observe havedisk1) {}).step pair event =
        some next) : ∃ queue, Inv disks next.1 next.2 queue := by
    obtain ⟨queue, inv⟩ := holds
    obtain ⟨moved, seen⟩ := Machine.watched_step.mp stepped
    rw [seen]
    exact inv.step moved
  obtain ⟨queue, inv⟩ := Machine.exec_preserves kept ⟨[], Inv.start disks⟩ ran
  have part : s.finished queue <+: queue.take 1 := by
    unfold System.finished
    split
    · exact List.prefix_rfl
    · exact List.nil_prefix
  have forgotten (p : Nat) (b : Fin nbuf) (found : (s.proc p).inside = some b) :=
    (inv.inside p b found).2
  refine ⟨⟨queue, inv.nodup, inv.queued, inv.started, ?_, forgotten⟩, ⟨?_, ?_⟩, ?_, ?_, ?_⟩
  · have drives := inv.drives
    generalize s.device = device at drives
    cases drives with
    | idle => exact ⟨fun _ => rfl, fun _ => rfl⟩
    | busy small => simp only [reduceCtorEq]
    | done => simp only [reduceCtorEq]
  · rw [inv.transferred]
    exact List.prefix_append _ _
  · rw [inv.transferred, inv.started]
    exact (List.prefix_append_right_inj _).mpr (part.map s.request)
  · intro p
    rw [inv.mine]
    refine ⟨List.prefix_append _ _, ?_⟩
    intro outside
    have nothing : s.waiting queue p = [] := by
      unfold System.waiting
      rw [outside]
    rw [nothing, List.append_nil]
  · intro entry member
    have clean := inv.clean entry member
    unfold Buf.isClean at clean
    rw [Bool.and_eq_true, Bool.not_eq_true'] at clean
    exact clean
  · intro devs
    exact ⟨_, inv.replay devs, List.prefix_append _ _⟩

/-- A process writes a block, and another one reads it after that. -/
def writeThenRead : List (Event 2) :=
  [.acquiresleep 0 0, .acquiresleep 1 1,
    .set 0 { valid := true, dirty := true, dev := 1, blockno := 5, data := fun _ => 7 },
    .set 1 { dev := 1, blockno := 5 }, .iderw 0 0, .iderw 1 1, .finish, .interrupt, .run 0,
    .finish, .interrupt, .run 1]

set_option maxRecDepth 100000 in
theorem ide_refines_memide_write_then_read : ∃ s history,
    ((machine 2 true fun _ _ _ => 0).watched (observe true) {}).exec
        ((machine 2 true fun _ _ _ => 0).start, {}) writeThenRead = some (s, history) ∧
      history.returned.map (fun entry => (entry.1, entry.2.2.data 0)) = [(0, 7), (1, 7)] ∧
      ∃ bufs, Memide.run (fun _ _ => 0) (history.transferred.map Request.call) =
        .ok (s.disks 1, bufs) ∧ history.completed.map Completion.after <+: bufs := by
  have outcome : (((machine 2 true fun _ _ _ => 0).watched (observe true) {}).exec
      ((machine 2 true fun _ _ _ => 0).start, {}) writeThenRead).map (fun pair =>
        (pair.2.returned.map (fun entry => (entry.1, entry.2.2.data 0)),
          pair.2.queued.map (fun request => request.buf.dev))) =
      some ([(0, 7), (1, 7)], [1, 1]) := by decide +kernel
  obtain ⟨⟨s, history⟩, ran, same⟩ := Option.map_eq_some_iff.mp outcome
  obtain ⟨returned, devs⟩ := Prod.mk.inj same
  have ones (request : Request 2) (member : request ∈ history.queued) : request.buf.dev = 1 := by
    have mapped : request.buf.dev ∈ history.queued.map (fun request => request.buf.dev) :=
      List.mem_map_of_mem member
    rw [devs] at mapped
    simpa using mapped
  exact ⟨s, history, ran, returned, (ide_refines_memide ran).2.2.2.2 ones⟩

end Xv6.Ide
