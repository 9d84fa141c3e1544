/-
The log beside an observer.

An observer numbers the operations and keeps the calls of `log_write` in a journal:
they are pending until `write_head` puts the header of their transaction on the disk,
then committed; a crash discards what is pending.  As long as `log_write` still finds the
room for which it has tested, the log keeps its invariant, with the journal for the writes.
-/

import Xv6.Log.Invariant

namespace Xv6.Log

open Function Library

/-- A call of `log_write`. -/
structure Write where
  op : Nat
  blockno : Nat
  data : Block

def Write.entry (write : Write) : Nat × Block := (write.blockno, write.data)

/-- The writes of one operation. -/
def writesOf (op : Nat) (writes : List Write) : List Write :=
  writes.filter (fun write => write.op == op)

/-- What the observer knows: `current` is the last operation that a process began. -/
structure Journal where
  started : Nat := 0
  current : Nat → Nat := fun _ => 0
  logged : List Write := []
  committed : List Write := []
  pending : List Write := []

namespace Journal

def beginOp (journal : Journal) (p : Nat) : Journal :=
  { journal with
    started := journal.started + 1
    current := update journal.current p journal.started }

def logWrite (journal : Journal) (write : Write) : Journal :=
  { journal with
    logged := journal.logged ++ [write]
    pending := journal.pending ++ [write] }

def commit (journal : Journal) : Journal :=
  { journal with committed := journal.committed ++ journal.pending, pending := [] }

def discard (journal : Journal) : Journal := { journal with pending := [] }

/-- What the committed writes make of a disk. -/
def store (journal : Journal) (disk : Nat → Block) : Nat → Block :=
  install (journal.committed.map Write.entry) disk

end Journal

def observe (storage : Storage) (event : Event) (journal : Journal) : Journal :=
  match event with
  | .beginOp p => journal.beginOp p
  | .logWrite p blockno data => journal.logWrite ⟨journal.current p, blockno, data⟩
  | .advance => if storage.stage = .writeHead then journal.commit else journal
  | .crash => journal.discard
  | _ => journal

/-- The log beside the observer. -/
def recorded {layout : Layout} (image : Image layout) : Machine (Storage × Journal) Event :=
  (machine image).watched observe {}

/-- A block that `log_write` adds finds the room that the test has found, though other
processes may have added blocks since. -/
def Fits (layout : Layout) (now : Storage × Journal) : Event → Prop
  | .logWrite _ blockno _ => now.1.lh.HasRoom layout blockno
  | _ => True

/-! ### Operations are committed as a whole -/

/-- Everything that the operation has logged is pending. -/
def Journal.Open (journal : Journal) (op : Nat) : Prop :=
  writesOf op journal.committed = [] ∧
    writesOf op journal.pending = writesOf op journal.logged

structure JournalInv (storage : Storage) (journal : Journal) : Prop where
  numbered : ∀ write ∈ journal.logged, write.op < journal.started
  known : ∀ p ∈ storage.active, journal.current p < journal.started
  opened : ∀ p ∈ storage.active, journal.Open (journal.current p)
  held : ∀ op, writesOf op journal.pending ≠ [] → journal.Open op
  whole : ∀ op, writesOf op journal.committed = [] ∨
    writesOf op journal.committed = writesOf op journal.logged

theorem writesOf_concat (op : Nat) (writes : List Write) (write : Write) :
    writesOf op (writes ++ [write]) =
      writesOf op writes ++ if write.op = op then [write] else [] := by
  by_cases same : write.op = op
  · simp [writesOf, same]
  · simp [writesOf, same]

variable {journal : Journal} {layout : Layout} {storage : Storage}

theorem Journal.Open.logWrite {op : Nat} (opened : journal.Open op) (write : Write) :
    (journal.logWrite write).Open op := by
  refine ⟨opened.1, ?_⟩
  change writesOf op (journal.pending ++ [write]) = writesOf op (journal.logged ++ [write])
  rw [writesOf_concat, writesOf_concat, opened.2]

namespace JournalInv

variable {before after : Storage} {journal : Journal}

theorem boot (disk : Nat → Block) : JournalInv (Storage.boot disk) {} where
  numbered := nofun
  known := nofun
  opened := nofun
  held := fun _ some => absurd rfl some
  whole := fun _ => Or.inl rfl

theorem shrink (inv : JournalInv before journal)
    (fewer : ∀ p ∈ after.active, p ∈ before.active) : JournalInv after journal where
  numbered := inv.numbered
  known := fun p member => inv.known p (fewer p member)
  opened := fun p member => inv.opened p (fewer p member)
  held := inv.held
  whole := inv.whole

theorem fresh (inv : JournalInv before journal) : journal.Open journal.started := by
  have nothing : writesOf journal.started journal.logged = [] := by
    apply List.filter_eq_nil_iff.mpr
    intro write member
    have earlier := inv.numbered write member
    rw [beq_iff_eq]
    omega
  constructor
  · rcases inv.whole journal.started with none | all
    · exact none
    · exact all.trans nothing
  · rw [nothing]
    by_contra some
    exact some ((inv.held journal.started some).2.trans nothing)

theorem beginOp (inv : JournalInv before journal) {p : Nat}
    (active : after.active = p :: before.active) :
    JournalInv after (journal.beginOp p) := by
  refine ⟨?_, ?_, ?_, inv.held, inv.whole⟩
  · intro write member
    exact Nat.lt_succ_of_lt (inv.numbered write member)
  · intro q member
    by_cases same : q = p
    · subst q
      change update journal.current p journal.started p < journal.started + 1
      rw [update_self]
      exact Nat.lt_succ_self _
    · rw [active, List.mem_cons] at member
      change update journal.current p journal.started q < journal.started + 1
      rw [update_of_ne same]
      exact Nat.lt_succ_of_lt (inv.known q (member.resolve_left same))
  · intro q member
    by_cases same : q = p
    · subst q
      change journal.Open (update journal.current p journal.started p)
      rw [update_self]
      exact inv.fresh
    · rw [active, List.mem_cons] at member
      change journal.Open (update journal.current p journal.started q)
      rw [update_of_ne same]
      exact inv.opened q (member.resolve_left same)

theorem logWrite (inv : JournalInv before journal) {p : Nat} (member : p ∈ before.active)
    (active : after.active = before.active) (blockno : Nat) (data : Block) :
    JournalInv after (journal.logWrite ⟨journal.current p, blockno, data⟩) := by
  have opened := inv.opened p member
  refine ⟨?_, ?_, ?_, ?_, ?_⟩
  · intro write present
    rcases List.mem_append.mp present with old | new
    · exact inv.numbered write old
    · rw [List.mem_singleton.mp new]
      exact inv.known p member
  · rw [active]
    exact inv.known
  · intro q present
    rw [active] at present
    exact (inv.opened q present).logWrite _
  · intro op some
    by_cases same : journal.current p = op
    · exact same ▸ opened.logWrite _
    · apply Journal.Open.logWrite
      apply inv.held op
      change writesOf op (journal.pending ++ [_]) ≠ [] at some
      rw [writesOf_concat, if_neg same, List.append_nil] at some
      exact some
  · intro op
    change writesOf op journal.committed = [] ∨
      writesOf op journal.committed = writesOf op (journal.logged ++ [_])
    rw [writesOf_concat]
    by_cases same : journal.current p = op
    · exact Or.inl (same ▸ opened.1)
    · rw [if_neg same, List.append_nil]
      exact inv.whole op

theorem commit (inv : JournalInv before journal) (quiet : after.active = []) :
    JournalInv after journal.commit := by
  refine ⟨inv.numbered, ?_, ?_, fun _ some => absurd rfl some, ?_⟩
  · rw [quiet]
    nofun
  · rw [quiet]
    nofun
  · intro op
    change writesOf op (journal.committed ++ journal.pending) = [] ∨
      writesOf op (journal.committed ++ journal.pending) = writesOf op journal.logged
    rw [writesOf, List.filter_append]
    change writesOf op journal.committed ++ writesOf op journal.pending = [] ∨
      writesOf op journal.committed ++ writesOf op journal.pending = writesOf op journal.logged
    by_cases none : writesOf op journal.pending = []
    · rw [none, List.append_nil]
      exact inv.whole op
    · obtain ⟨absent, all⟩ := inv.held op none
      rw [absent, all]
      exact Or.inr rfl

theorem discard (inv : JournalInv before journal) (quiet : after.active = []) :
    JournalInv after journal.discard := by
  refine ⟨inv.numbered, ?_, ?_, fun _ some => absurd rfl some, inv.whole⟩
  · rw [quiet]
    nofun
  · rw [quiet]
    nofun

end JournalInv

/-! ### The invariant over whole runs -/

structure CrashInv {layout : Layout} (image : Image layout) (storage : Storage)
    (journal : Journal) : Prop where
  calls : CallsInv storage
  log : LogInv layout image.disk storage (journal.committed.map Write.entry)
    (journal.pending.map Write.entry)
  journal : JournalInv storage journal

theorem Advance.active {before after : Storage} (advanced : Advance layout before after) :
    after.active = before.active := by
  cases advanced <;> rfl

namespace CrashInv

variable {layout : Layout} {image : Image layout} {before after : Storage} {journal : Journal}

theorem boot : CrashInv image (Storage.boot image.disk) {} := by
  have empty : (layout.header image.disk).n = 0 := image.empty
  refine ⟨CallsInv.boot _, LogInv.boot ⟨.empty empty, ?_⟩, JournalInv.boot _⟩
  intro blockno _
  rw [layout.replay_empty empty]
  rfl

theorem advance (inv : CrashInv image before journal) (advanced : Advance layout before after) :
    CrashInv image after
      (if before.stage = .writeHead then journal.commit else journal) := by
  have kept := advanced.logInv inv.log
  by_cases stands : before.stage = .writeHead
  · rw [if_pos stands]
    have quiet : after.active = [] := by
      rw [advanced.active]
      exact inv.calls.quiet (by rw [stands]; rfl) (by rw [stands]; nofun)
    refine ⟨inv.calls.advance advanced, ?_, inv.journal.commit quiet⟩
    change LogInv layout image.disk after
      ((journal.committed ++ journal.pending).map Write.entry) []
    rw [List.map_append]
    exact kept.2 stands
  · rw [if_neg stands]
    refine ⟨inv.calls.advance advanced, kept.1 stands, inv.journal.shrink ?_⟩
    rw [advanced.active]
    exact fun _ member => member

theorem step {event : Event} (inv : CrashInv image before journal)
    (fits : Fits layout (before, journal) event) (stepped : Step layout before event after) :
    CrashInv image after (observe before event journal) := by
  have calls := inv.calls.step stepped
  cases stepped with
  | begins p running free room =>
    have idle := inv.calls.idle_of_free running free
    refine ⟨calls, inv.log.move rfl (by rw [idle]; rfl) id, inv.journal.beginOp rfl⟩
  | tests p running member =>
    exact ⟨calls, ⟨inv.log.durable, inv.log.live⟩, inv.journal.shrink (fun _ there => there)⟩
  | logs p blockno data running member home space =>
    have idle := inv.calls.idle_of_member running member
    have live := inv.log.live (by rw [idle]; rfl)
    rw [idle] at live
    have grown := live.logWrite data home fits
    refine ⟨calls, ?_, ?_⟩
    · change LogInv layout image.disk _ (journal.committed.map Write.entry)
        ((journal.pending ++ [_]).map Write.entry)
      rw [List.map_append]
      exact .of_view grown inv.log.durable (before.view_logged blockno data _) idle
    · apply inv.journal.logWrite member
      rfl
  | ends p member more =>
    refine ⟨calls, ⟨inv.log.durable, inv.log.live⟩, inv.journal.shrink ?_⟩
    intro q present
    exact List.mem_of_mem_erase present
  | commits p running member free last =>
    have idle := inv.calls.idle_of_free running free
    refine ⟨calls, inv.log.move rfl (by rw [idle]; rfl) (by rw [idle]; exact id),
      inv.journal.shrink ?_⟩
    intro q present
    exact List.mem_of_mem_erase present
  | panicsTesting p panic running member cause =>
    refine ⟨calls, ?_, inv.journal.shrink (fun _ there => there)⟩
    apply inv.log.halt <;> rfl
  | overruns p blockno data running member absent full =>
    refine ⟨calls, ?_, ?_⟩
    · apply inv.log.halt <;> rfl
    · exact inv.journal.logWrite member (by rfl) blockno data
  | panicsEnding p running member busy =>
    refine ⟨calls, ?_, inv.journal.shrink (fun _ present => List.mem_of_mem_erase present)⟩
    apply inv.log.halt <;> rfl
  | advances advanced => exact inv.advance advanced
  | reads blockno live =>
    have same := before.view_bread blockno
    exact ⟨calls, inv.log.move same live id, inv.journal.shrink (fun _ member => member)⟩
  | recycles blockno live recycled =>
    obtain ⟨same, stage, active⟩ :=
      Storage.view_recycle (inv.log.live live).coherent recycled
    refine ⟨calls, inv.log.move same live (stage ▸ id), inv.journal.shrink ?_⟩
    rw [active]
    exact fun _ member => member
  | crashes =>
    exact ⟨calls, LogInv.boot inv.log.durable, inv.journal.discard rfl⟩

end CrashInv

theorem CrashInv.always {image : Image layout} (inv : CrashInv image storage journal)
    {events : List Event} (meets : (recorded image).Meets (Fits layout) (storage, journal) events) :
    (recorded image).Always (fun now => CrashInv image now.1 now.2) (storage, journal) events := by
  refine Machine.Meets.always ?_ inv meets
  intro before event after kept fits stepped
  obtain ⟨taken, seen⟩ := Machine.watched_step.mp stepped
  rw [seen]
  exact kept.step fits (step_inversion taken)

theorem reachable_callsInv {image : Image layout}
    (reachable : (recorded image).Reachable (storage, journal)) : CallsInv storage :=
  (reachable.watched_invariant (fun storage _ => CallsInv storage) (CallsInv.boot _)
    (fun _ _ _ _ _ inv stepped => inv.step (step_inversion stepped))).2

end Xv6.Log
