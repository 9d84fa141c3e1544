/-
Writes of many processes through one open file: `filewrite` of `file.c`.

Every process has a list of calls to make, each with its bytes, all of them through one
`struct file` on one inode.  `ilock`, `writei`, the advance of `f->off` and `iunlock` are
separate steps that interleave freely, also with writes to other inodes.  `begin_op` and
`end_op` are not modelled: they delay a process and change nothing here.
-/

import Mathlib.Tactic
import Xv6.Fs.ReadWrite
import Xv6.Library.Machine
import Xv6.Library.Ownership

namespace Xv6.Fs.Shared

open Function Library Code

abbrev MAXOPBLOCKS : Nat := 10

/-- `max` in `filewrite`. -/
def maxChunk : Nat := (MAXOPBLOCKS - 1 - 1 - 2) / 2 * 512

theorem maxChunk_eq : maxChunk = 1536 := rfl

/-- Where a process stands: outside, at the test `i < n`, behind `ilock`, behind `writei` with
its return value, and behind `f->off += r`. -/
inductive Pc
  | idle
  | loop (data : List UInt8) (i : Nat)
  | locked (data : List UInt8) (i : Nat)
  | wrote (data : List UInt8) (i : Nat) (r : Int)
  | advanced (data : List UInt8) (i : Nat) (r : Int)

/-- The calls that a process has not made yet, and what its calls have returned. -/
structure Writer where
  calls : List (List UInt8)
  pc : Pc := .idle
  results : List Int := []

/-- `ip` is the inode in memory, `off` is `f->off` and `lock` the sleep-lock of the inode. -/
structure State (n : Nat) where
  disk : Disk
  ip : Dinode
  off : Nat
  lock : Option (Fin n) := none
  writer : Fin n → Writer

inductive Label (n : Nat)
  | call (p : Fin n)
  | ilock (p : Fin n)
  | writei (p : Fin n)
  | advance (p : Fin n)
  | iunlock (p : Fin n)
  | leave (p : Fin n)
  -- some process writes to another inode
  | elsewhere (i off : Nat) (src : List UInt8)

/-- The file system and the inode that the file refers to. -/
structure Setting where
  sb : Superblock
  devsw : Devsw
  inum : Nat

namespace State

variable {n : Nat} (setting : Setting)

def setWriter (state : State n) (p : Fin n) (writer : Writer) : State n :=
  { state with writer := update state.writer p writer }

/-- `n1`. -/
def count (data : List UInt8) (i : Nat) : Nat := min (data.length - i) maxChunk

/-- The bytes at `addr + i` that one round writes. -/
def chunk (data : List UInt8) (i : Nat) : List UInt8 := (data.drop i).take (count data i)

/-- `writei(f->ip, addr + i, f->off, n1)`. -/
def write (state : State n) (data : List UInt8) (i : Nat) : Except Stop (Int × Locked) :=
  Fs.writei setting.sb setting.devsw setting.inum state.off (chunk data i)
    ⟨state.disk, state.ip⟩

def call (state : State n) (p : Fin n) : Option (State n) :=
  match (state.writer p).pc, (state.writer p).calls with
  | .idle, data :: calls =>
    some (state.setWriter p { state.writer p with calls := calls, pc := .loop data 0 })
  | _, _ => none

def ilock (state : State n) (p : Fin n) : Option (State n) :=
  match (state.writer p).pc with
  | .loop data i =>
    if i < data.length ∧ state.lock = none then
      some ({ state with lock := some p }.setWriter p
        { state.writer p with pc := .locked data i })
    else none
  | _ => none

def writei (state : State n) (p : Fin n) : Option (State n) :=
  match (state.writer p).pc with
  | .locked data i =>
    match state.write setting data i with
    | .ok (r, s) =>
      some ({ state with disk := s.disk, ip := s.ip }.setWriter p
        { state.writer p with pc := .wrote data i r })
    | .error _ => none
  | _ => none

/-- `if(r > 0) f->off += r`. -/
def advance (state : State n) (p : Fin n) : Option (State n) :=
  match (state.writer p).pc with
  | .wrote data i r =>
    some ({ state with
      off := if 0 < r then (state.off + r.toNat) % 2 ^ 32 else state.off }.setWriter p
        { state.writer p with pc := .advanced data i r })
  | _ => none

/-- `iunlock` and the tests behind it: a failed write ends the call, and a short one panics. -/
def iunlock (state : State n) (p : Fin n) : Option (State n) :=
  match (state.writer p).pc with
  | .advanced data i r =>
    if r < 0 then
      some ({ state with lock := none }.setWriter p
        { state.writer p with pc := .idle, results := (state.writer p).results ++ [-1] })
    else if r = count data i then
      some ({ state with lock := none }.setWriter p
        { state.writer p with pc := .loop data (i + r.toNat) })
    else none
  | _ => none

/-- `return i == n ? n : -1`. -/
def leave (state : State n) (p : Fin n) : Option (State n) :=
  match (state.writer p).pc with
  | .loop data i =>
    if i < data.length then none
    else
      some (state.setWriter p { state.writer p with
        pc := .idle
        results := (state.writer p).results ++
          [if i = data.length then (data.length : Int) else -1] })
  | _ => none

/-- A file that is not ours is written, with its own lock held. -/
def elsewhere (state : State n) (i off : Nat) (src : List UInt8) : Option (State n) :=
  if i ≠ setting.inum ∧ i < setting.sb.ninodes ∧ (state.disk.dinode setting.sb i).type ≠ 0 ∧
      off < 2 ^ 32 ∧ src.length < 2 ^ 32 then
    match Fs.writei setting.sb setting.devsw i off src
        ⟨state.disk, state.disk.dinode setting.sb i⟩ with
    | .ok (_, s) => some { state with disk := s.disk }
    | .error _ => none
  else none

def step (state : State n) : Label n → Option (State n)
  | .call p => state.call p
  | .ilock p => state.ilock p
  | .writei p => state.writei setting p
  | .advance p => state.advance p
  | .iunlock p => state.iunlock p
  | .leave p => state.leave p
  | .elsewhere i off src => state.elsewhere setting i off src

end State

/-- The processes are about to make their calls. -/
def machine {n : Nat} (setting : Setting) (disk : Disk) (off : Nat)
    (calls : Fin n → List (List UInt8)) : Machine (State n) (Label n) where
  start :=
    { disk := disk
      ip := disk.dinode setting.sb setting.inum
      off := off
      writer := fun p => { calls := calls p } }
  step := State.step setting

/-! ### The chunks of a call -/

/-- The bytes of a call, cut as `filewrite` cuts them. -/
def chunks (data : List UInt8) : List (List UInt8) :=
  if data = [] then []
  else data.take maxChunk :: chunks (data.drop maxChunk)
termination_by data.length
decreasing_by
  have some : 0 < data.length := List.length_pos_iff.mpr (by assumption)
  have positive := maxChunk_eq
  rw [List.length_drop]
  omega

theorem chunks_nil : chunks [] = [] := by
  rw [chunks, if_pos rfl]

variable {data : List UInt8} {i n : Nat} {setting : Setting}

theorem chunks_drop (inside : i < data.length) :
    chunks (data.drop i) =
      State.chunk data i :: chunks (data.drop (i + State.count data i)) := by
  have some : data.drop i ≠ [] := by
    intro empty
    rw [List.drop_eq_nil_iff] at empty
    omega
  rw [chunks, if_neg some]
  unfold State.chunk State.count
  congr 1
  · by_cases short : data.length - i ≤ maxChunk
    · rw [Nat.min_eq_left short, List.take_of_length_le (by rw [List.length_drop]; exact short),
        List.take_of_length_le (by rw [List.length_drop])]
    · rw [Nat.min_eq_right (by omega)]
  · rw [List.drop_drop]
    by_cases short : data.length - i ≤ maxChunk
    · rw [Nat.min_eq_left short, List.drop_eq_nil_of_le (by omega),
        List.drop_eq_nil_of_le (by omega)]
    · rw [Nat.min_eq_right (by omega)]

theorem chunks_drop_all (outside : data.length ≤ i) :
    chunks (data.drop i) = [] := by
  rw [List.drop_eq_nil_of_le outside, chunks_nil]

theorem length_chunk (data : List UInt8) (i : Nat) :
    (State.chunk data i).length = State.count data i := by
  unfold State.chunk State.count
  rw [List.length_take, List.length_drop]
  omega

theorem count_le (data : List UInt8) (i : Nat) : State.count data i ≤ maxChunk :=
  Nat.min_le_right _ _

/-! ### What each step does -/

inductive Step {n : Nat} (setting : Setting) (state : State n) : Label n → State n → Prop
  | call (p : Fin n) (data : List UInt8) (calls : List (List UInt8))
      (place : (state.writer p).pc = .idle) (todo : (state.writer p).calls = data :: calls) :
      Step setting state (.call p)
        (state.setWriter p { state.writer p with calls := calls, pc := .loop data 0 })
  | ilock (p : Fin n) (data : List UInt8) (i : Nat)
      (place : (state.writer p).pc = .loop data i) (inside : i < data.length)
      (free : state.lock = none) :
      Step setting state (.ilock p)
        ({ state with lock := some p }.setWriter p { state.writer p with pc := .locked data i })
  | writei (p : Fin n) (data : List UInt8) (i : Nat) (r : Int) (s : Locked)
      (place : (state.writer p).pc = .locked data i)
      (ran : state.write setting data i = .ok (r, s)) :
      Step setting state (.writei p)
        ({ state with disk := s.disk, ip := s.ip }.setWriter p
          { state.writer p with pc := .wrote data i r })
  | advance (p : Fin n) (data : List UInt8) (i : Nat) (r : Int)
      (place : (state.writer p).pc = .wrote data i r) :
      Step setting state (.advance p)
        ({ state with
          off := if 0 < r then (state.off + r.toNat) % 2 ^ 32 else state.off }.setWriter p
            { state.writer p with pc := .advanced data i r })
  | fails (p : Fin n) (data : List UInt8) (i : Nat) (r : Int)
      (place : (state.writer p).pc = .advanced data i r) (negative : r < 0) :
      Step setting state (.iunlock p)
        ({ state with lock := none }.setWriter p
          { state.writer p with pc := .idle, results := (state.writer p).results ++ [-1] })
  | iunlock (p : Fin n) (data : List UInt8) (i : Nat) (r : Int)
      (place : (state.writer p).pc = .advanced data i r) (whole : r = State.count data i) :
      Step setting state (.iunlock p)
        ({ state with lock := none }.setWriter p
          { state.writer p with pc := .loop data (i + r.toNat) })
  | leave (p : Fin n) (data : List UInt8) (i : Nat)
      (place : (state.writer p).pc = .loop data i) (outside : ¬i < data.length) :
      Step setting state (.leave p)
        (state.setWriter p { state.writer p with
          pc := .idle
          results := (state.writer p).results ++
            [if i = data.length then (data.length : Int) else -1] })
  | elsewhere (i off : Nat) (src : List UInt8) (r : Int) (s : Locked) (other : i ≠ setting.inum)
      (inside : i < setting.sb.ninodes) (allocated : (state.disk.dinode setting.sb i).type ≠ 0)
      (smallOff : off < 2 ^ 32) (small : src.length < 2 ^ 32)
      (ran : Fs.writei setting.sb setting.devsw i off src
        ⟨state.disk, state.disk.dinode setting.sb i⟩ = .ok (r, s)) :
      Step setting state (.elsewhere i off src) { state with disk := s.disk }

theorem step_inversion {state next : State n} {label : Label n}
    (stepped : state.step setting label = some next) : Step setting state label next := by
  cases label with
  | call p =>
    change state.call p = some next at stepped
    unfold State.call at stepped
    split at stepped
    · rename_i data calls place todo
      cases stepped
      exact .call p data calls place todo
    · cases stepped
  | ilock p =>
    change state.ilock p = some next at stepped
    unfold State.ilock at stepped
    split at stepped
    · rename_i data i place
      split at stepped
      · rename_i guard
        cases stepped
        exact .ilock p data i place guard.1 guard.2
      · cases stepped
    · cases stepped
  | writei p =>
    change state.writei setting p = some next at stepped
    unfold State.writei at stepped
    split at stepped
    · rename_i data i place
      split at stepped
      · rename_i r s ran
        cases stepped
        exact .writei p data i r s place ran
      · cases stepped
    · cases stepped
  | advance p =>
    change state.advance p = some next at stepped
    unfold State.advance at stepped
    split at stepped
    · rename_i data i r place
      cases stepped
      exact .advance p data i r place
    · cases stepped
  | iunlock p =>
    change state.iunlock p = some next at stepped
    unfold State.iunlock at stepped
    split at stepped
    · rename_i data i r place
      split at stepped
      · rename_i negative
        cases stepped
        exact .fails p data i r place negative
      · split at stepped
        · rename_i whole
          cases stepped
          exact .iunlock p data i r place whole
        · cases stepped
    · cases stepped
  | leave p =>
    change state.leave p = some next at stepped
    unfold State.leave at stepped
    split at stepped
    · rename_i data i place
      split at stepped
      · cases stepped
      · rename_i outside
        cases stepped
        exact .leave p data i place outside
    · cases stepped
  | elsewhere i off src =>
    change state.elsewhere setting i off src = some next at stepped
    unfold State.elsewhere at stepped
    split at stepped
    · rename_i guard
      split at stepped
      · rename_i r s ran
        cases stepped
        exact .elsewhere i off src r s guard.1 guard.2.1 guard.2.2.1 guard.2.2.2.1
          guard.2.2.2.2 ran
      · cases stepped
    · cases stepped

/-! ### The chunks that have been written -/

/-- The chunks in the order in which they were written, each with its writer. -/
abbrev History (n : Nat) := List (Fin n × List UInt8)

namespace History

variable {n : Nat} (history : History n)

/-- All bytes, one chunk after the other. -/
def bytes : List UInt8 := (history.map Prod.snd).flatten

/-- The chunks of one process. -/
def chunksOf (p : Fin n) : List (List UInt8) :=
  (history.filter (fun entry => decide (entry.1 = p))).map Prod.snd

theorem bytes_append (p : Fin n) (chunk : List UInt8) :
    bytes (history ++ [(p, chunk)]) = history.bytes ++ chunk := by
  simp [bytes]

theorem chunksOf_append_self (p : Fin n) (chunk : List UInt8) :
    chunksOf (history ++ [(p, chunk)]) p = history.chunksOf p ++ [chunk] := by
  simp [chunksOf]

theorem chunksOf_append_other {p q : Fin n} (chunk : List UInt8) (different : p ≠ q) :
    chunksOf (history ++ [(p, chunk)]) q = history.chunksOf q := by
  simp [chunksOf, different]

end History

/-- A successful `writei` adds its chunk. -/
def record {n : Nat} (setting : Setting) (state : State n) (label : Label n)
    (history : History n) : History n :=
  match label with
  | .writei p =>
    match (state.writer p).pc with
    | .locked data i =>
      match state.write setting data i with
      | .ok (r, _) => if 0 < r then history ++ [(p, State.chunk data i)] else history
      | .error _ => history
    | _ => history
  | _ => history

/-! ### The invariant -/

/-- The process holds the lock of the inode. -/
def Pc.holds : Pc → Bool
  | .locked _ _ => true
  | .wrote _ _ _ => true
  | .advanced _ _ _ => true
  | .idle => false
  | .loop _ _ => false

/-- A write has failed that the process has not reported yet. -/
def Pc.failing : Pc → Bool
  | .wrote _ _ r => decide (r < 0)
  | .advanced _ _ r => decide (r < 0)
  | .idle => false
  | .loop _ _ => false
  | .locked _ _ => false

/-- The bytes by which `f->off` is behind. -/
def Pc.behind : Pc → Nat
  | .wrote _ _ r => r.toNat
  | .idle => 0
  | .loop _ _ => 0
  | .locked _ _ => 0
  | .advanced _ _ _ => 0

/-- The chunks of the call that a process is in. -/
def Pc.pending : Pc → List (List UInt8)
  | .idle => []
  | .loop data i => chunks (data.drop i)
  | .locked data i => chunks (data.drop i)
  | .wrote data i r => chunks (data.drop (i + r.toNat))
  | .advanced data i r => chunks (data.drop (i + r.toNat))

/-- Rounds start inside the data, and a write that has not failed was whole. -/
def Pc.Wf : Pc → Prop
  | .locked data i => i < data.length
  | .wrote data i r => i < data.length ∧ (r < 0 ∨ r = State.count data i)
  | .advanced data i r => i < data.length ∧ (r < 0 ∨ r = State.count data i)
  | .idle => True
  | .loop _ _ => True

namespace Writer

def Failed (writer : Writer) : Prop := -1 ∈ writer.results ∨ writer.pc.failing = true

/-- The chunks that are still to be written. -/
def pending (writer : Writer) : List (List UInt8) :=
  writer.pc.pending ++ writer.calls.flatMap chunks

end Writer

/-- What holds when these chunks have been written to the file, which had the bytes `old` when
the offset was `start`. -/
structure Inv {n : Nat} (setting : Setting) (old : List UInt8) (start : Nat)
    (calls : Fin n → List (List UInt8)) (state : State n) (history : History n) : Prop where
  rest : Locked.AtRest setting.sb setting.inum ⟨state.disk, state.ip⟩
  lock : Owned state.lock (fun p => (state.writer p).pc.holds = true)
  wf : ∀ p, (state.writer p).pc.Wf
  bytes : state.disk.bytes setting.sb setting.inum =
    old.take start ++ history.bytes ++ old.drop (start + history.bytes.length)
  inside : history.bytes ≠ [] → start + history.bytes.length ≤ MAXFILE * BSIZE ∧ start ≤ old.length
  free : state.lock = none → state.off = start + history.bytes.length
  busy : ∀ p, state.lock = some p →
    state.off + (state.writer p).pc.behind = start + history.bytes.length
  short : ∀ entry ∈ history, entry.2.length ≤ maxChunk
  order : ∀ p, ¬(state.writer p).Failed →
    history.chunksOf p ++ (state.writer p).pending = (calls p).flatMap chunks

namespace Inv

variable {n : Nat} {setting : Setting} {old : List UInt8} {start : Nat}
  {calls : Fin n → List (List UInt8)} {state : State n} {history : History n}

theorem total_lt (inv : Inv setting old start calls state history) (small : start < 2 ^ 32) :
    start + history.bytes.length < 2 ^ 32 := by
  have limit : MAXFILE * BSIZE < 2 ^ 32 := by decide
  by_cases none : history.bytes = []
  · rw [none]
    exact small
  · exact lt_of_le_of_lt (inv.inside none).1 limit

variable {p : Fin n} {writer : Writer} {data : List UInt8} {i : Nat} {r : Int}

theorem locked_by (inv : Inv setting old start calls state history) {pc : Pc}
    (place : (state.writer p).pc = pc) (holds : pc.holds = true) : state.lock = some p := by
  refine (inv.lock p).mp ?_
  change (state.writer p).pc.holds = true
  rw [place, holds]

theorem off_add (inv : Inv setting old start calls state history) {pc : Pc}
    (place : (state.writer p).pc = pc) (holds : pc.holds = true) :
    state.off + pc.behind = start + history.bytes.length := by
  rw [← place]
  exact inv.busy p (inv.locked_by place holds)

theorem order_step {after : History n} (inv : Inv setting old start calls state history)
    (others : ∀ q, q ≠ p → after.chunksOf q = history.chunksOf q)
    (own : ¬writer.Failed → ¬(state.writer p).Failed ∧
      after.chunksOf p ++ writer.pending = history.chunksOf p ++ (state.writer p).pending)
    (q : Fin n) (fine : ¬(update state.writer p writer q).Failed) :
    after.chunksOf q ++ (update state.writer p writer q).pending =
      (calls q).flatMap chunks := by
  by_cases same : q = p
  · subst same
    rw [update_self] at fine ⊢
    rw [(own fine).2]
    exact inv.order q (own fine).1
  · rw [update_of_ne same] at fine ⊢
    rw [others q same]
    exact inv.order q fine

theorem wf_step (inv : Inv setting old start calls state history) (own : writer.pc.Wf) (q : Fin n) :
    (update state.writer p writer q).pc.Wf := by
  by_cases same : q = p
  · subst same
    rw [update_self]
    exact own
  · rw [update_of_ne same]
    exact inv.wf q

theorem holds_other {q : Fin n} (different : q ≠ p) :
    (update state.writer p writer q).pc.holds = true ↔
      (state.writer q).pc.holds = true := by
  rw [update_of_ne different]

theorem lock_keep (inv : Inv setting old start calls state history)
    (same : writer.pc.holds = (state.writer p).pc.holds) :
    Owned state.lock
      (fun q => (update state.writer p writer q).pc.holds = true) := by
  refine inv.lock.keep ?_
  intro q
  by_cases equal : q = p
  · subst equal
    rw [update_self, same]
  · exact holds_other equal

theorem outside_step (inv : Inv setting old start calls state history)
    (before : (state.writer p).pc.holds = false) (holds : writer.pc.holds = false)
    (wf : writer.pc.Wf)
    (own : ¬writer.Failed → ¬(state.writer p).Failed ∧ writer.pending = (state.writer p).pending) :
    Inv setting old start calls (state.setWriter p writer) history where
  rest := inv.rest
  lock := inv.lock_keep (by rw [before, holds])
  wf := inv.wf_step wf
  bytes := inv.bytes
  inside := inv.inside
  free := inv.free
  busy := by
    intro q locked
    have different : q ≠ p := by
      intro same
      have held := (inv.lock q).mpr locked
      rw [same, before] at held
      cases held
    change state.off + (update state.writer p writer q).pc.behind = _
    rw [update_of_ne different]
    exact inv.busy q locked
  short := inv.short
  order := by
    refine inv.order_step (fun _ _ => rfl) ?_
    intro fine
    obtain ⟨fineBefore, same⟩ := own fine
    exact ⟨fineBefore, by rw [same]⟩

theorem release (inv : Inv setting old start calls state history)
    (place : (state.writer p).pc = .advanced data i r) (holds : writer.pc.holds = false)
    (wf : writer.pc.Wf)
    (own : ¬writer.Failed → ¬(state.writer p).Failed ∧ writer.pending = (state.writer p).pending) :
    Inv setting old start calls ({ state with lock := none }.setWriter p writer) history where
  rest := inv.rest
  lock := by
    have mine : (state.writer p).pc.holds = true := by rw [place]; rfl
    refine inv.lock.drop mine ?_ (fun q different => holds_other different)
    change ¬(update state.writer p writer p).pc.holds = true
    rw [update_self, holds]
    exact Bool.false_ne_true
  wf := inv.wf_step wf
  bytes := inv.bytes
  inside := inv.inside
  free := by
    intro _
    exact inv.off_add place rfl
  busy := by
    intro q locked
    cases locked
  short := inv.short
  order := by
    refine inv.order_step (fun _ _ => rfl) ?_
    intro fine
    obtain ⟨fineBefore, same⟩ := own fine
    exact ⟨fineBefore, by rw [same]⟩

theorem ilock_step (inv : Inv setting old start calls state history)
    (place : (state.writer p).pc = .loop data i) (inside : i < data.length)
    (free : state.lock = none) :
    Inv setting old start calls
      ({ state with lock := some p }.setWriter p { state.writer p with pc := .locked data i })
      history where
  rest := inv.rest
  lock := by
    have owned := inv.lock
    rw [free] at owned
    refine owned.take ?_ (fun q different => holds_other different)
    change (update state.writer p _ p).pc.holds = true
    rw [update_self]
    rfl
  wf := inv.wf_step inside
  bytes := inv.bytes
  inside := inv.inside
  free := nofun
  busy := by
    intro q locked
    cases locked
    change state.off + (update state.writer p _ p).pc.behind = _
    rw [update_self]
    exact inv.free free
  short := inv.short
  order := by
    refine inv.order_step (fun _ _ => rfl) ?_
    intro fine
    refine ⟨?_, ?_⟩
    · rintro (failed | failing)
      · exact fine (Or.inl failed)
      · rw [place] at failing
        cases failing
    · unfold Writer.pending
      rw [place]
      rfl

theorem advance_step (inv : Inv setting old start calls state history) (small : start < 2 ^ 32)
    (place : (state.writer p).pc = .wrote data i r) :
    Inv setting old start calls
      ({ state with
        off := if 0 < r then (state.off + r.toNat) % 2 ^ 32 else state.off }.setWriter p
          { state.writer p with pc := .advanced data i r }) history := by
  have mine := inv.locked_by place rfl
  have behind : state.off + r.toNat = _ := inv.off_add place rfl
  have total := inv.total_lt small
  have off : (if 0 < r then (state.off + r.toNat) % 2 ^ 32 else state.off) =
      start + history.bytes.length := by
    by_cases positive : 0 < r
    · rw [if_pos positive, behind, Nat.mod_eq_of_lt total]
    · rw [if_neg positive]
      omega
  have wf := inv.wf p
  rw [place] at wf
  refine ⟨inv.rest, inv.lock_keep ?_, inv.wf_step wf, inv.bytes, inv.inside, ?_, ?_, inv.short,
    inv.order_step (fun _ _ => rfl) ?_⟩
  · rw [place]
    rfl
  · intro free
    change state.lock = none at free
    rw [mine] at free
    cases free
  · intro q locked
    change state.lock = some q at locked
    rw [mine] at locked
    cases locked
    change _ + (update state.writer p _ p).pc.behind = _
    rw [update_self]
    exact off
  · intro fine
    refine ⟨?_, ?_⟩
    · rintro (failed | failing)
      · exact fine (Or.inl failed)
      · rw [place] at failing
        exact fine (Or.inr failing)
    · unfold Writer.pending
      rw [place]
      rfl

theorem fail_step (inv : Inv setting old start calls state history)
    (place : (state.writer p).pc = .locked data i) :
    Inv setting old start calls
      (state.setWriter p { state.writer p with pc := .wrote data i (-1) }) history := by
  have mine := inv.locked_by place rfl
  have wf := inv.wf p
  rw [place] at wf
  refine ⟨inv.rest, inv.lock_keep ?_, inv.wf_step ⟨wf, Or.inl (by decide)⟩, inv.bytes, inv.inside,
    inv.free, ?_, inv.short, inv.order_step (fun _ _ => rfl) ?_⟩
  · rw [place]
    rfl
  · intro q locked
    change state.lock = some q at locked
    rw [mine] at locked
    cases locked
    change _ + (update state.writer p _ p).pc.behind = _
    rw [update_self]
    have off := inv.off_add place rfl
    exact off
  · intro fine
    exact absurd (Or.inr rfl) fine

/-- A write behind the chunks of the history adds a chunk. -/
theorem write_step {s : Locked} (inv : Inv setting old start calls state history)
    (place : (state.writer p).pc = .locked data i) (reaches : state.off ≤ state.ip.size)
    (fits : state.off + (State.chunk data i).length ≤ MAXFILE * BSIZE)
    (written : Locked.Written setting.sb setting.inum state.off (State.chunk data i)
      ⟨state.disk, state.ip⟩ s) :
    Inv setting old start calls
      ({ state with disk := s.disk, ip := s.ip }.setWriter p
        { state.writer p with pc := .wrote data i (State.count data i) })
      (history ++ [(p, State.chunk data i)]) := by
  have mine := inv.locked_by place rfl
  have off : state.off = start + history.bytes.length := inv.off_add place rfl
  have inside := inv.wf p
  rw [place] at inside
  have size : (state.disk.bytes setting.sb setting.inum).length = state.ip.size := by
    rw [inv.rest.bytes_eq, Area.length_slice]
  have started : start ≤ old.length := by
    rw [inv.bytes] at size
    simp only [List.length_append, List.length_take, List.length_drop] at size
    omega
  have before : (old.take start ++ history.bytes).length = state.off := by
    rw [List.length_append, List.length_take, Nat.min_eq_left started, off]
  have bytes := History.bytes_append history p (State.chunk data i)
  refine ⟨written.rest, inv.lock_keep ?_, inv.wf_step ⟨inside, Or.inr rfl⟩, ?_, ?_, ?_, ?_, ?_,
    inv.order_step (fun q different => History.chunksOf_append_other _ _ (Ne.symm different)) ?_⟩
  · rw [place]
    rfl
  · change s.disk.bytes _ _ = _
    have kept : (old.take start ++ history.bytes ++ old.drop (start + history.bytes.length)).drop
        (state.off + (State.chunk data i).length) =
          old.drop (start + (history.bytes ++ State.chunk data i).length) := by
      rw [← before, List.drop_length_add_append, List.drop_drop, List.length_append, Nat.add_assoc]
    rw [written.bytes, inv.bytes, bytes, List.take_left' before, kept]
    simp only [List.append_assoc]
  · intro _
    rw [bytes, List.length_append, ← Nat.add_assoc, ← off]
    exact ⟨fits, started⟩
  · intro free
    change state.lock = none at free
    rw [mine] at free
    cases free
  · intro q locked
    change state.lock = some q at locked
    rw [mine] at locked
    cases locked
    change _ + (update state.writer p _ p).pc.behind = _
    rw [update_self, bytes, List.length_append, ← Nat.add_assoc, ← off, length_chunk]
    rfl
  · intro entry member
    rcases List.mem_append.mp member with old | new
    · exact inv.short entry old
    · rw [List.mem_singleton.mp new, length_chunk]
      exact count_le data i
  · intro fine
    refine ⟨?_, ?_⟩
    · rintro (failed | failing)
      · exact fine (Or.inl failed)
      · rw [place] at failing
        cases failing
    · unfold Writer.pending
      rw [place, History.chunksOf_append_self]
      change _ ++ (chunks (data.drop (i + State.count data i)) ++ _) =
        _ ++ (chunks (data.drop i) ++ _)
      rw [chunks_drop inside]
      simp

/-- Writes to other inodes do not touch the file. -/
theorem elsewhere_step {off : Nat} {src : List UInt8} {s : Locked}
    (inv : Inv setting old start calls state history) (other : i ≠ setting.inum)
    (inside : i < setting.sb.ninodes) (allocated : (state.disk.dinode setting.sb i).type ≠ 0)
    (smallOff : off < 2 ^ 32) (small : src.length < 2 ^ 32)
    (ran : Fs.writei setting.sb setting.devsw i off src
      ⟨state.disk, state.disk.dinode setting.sb i⟩ = .ok (r, s)) :
    Inv setting old start calls { state with disk := s.disk } history := by
  have kept : Locked.AtRest setting.sb setting.inum ⟨s.disk, state.ip⟩ ∧
      s.disk.bytes setting.sb setting.inum = state.disk.bytes setting.sb setting.inum := by
    by_cases device : (state.disk.dinode setting.sb i).type = T_DEV
    · rw [Locked.writei_device device ran]
      exact ⟨inv.rest, rfl⟩
    · have lock := inv.rest.consistent.lock inside allocated device
      rcases (Locked.writei_ends setting.devsw lock smallOff small).post_of_ok ran with
        ⟨_, same, _⟩ | ⟨_, _, _, written⟩
      · rw [same]
        exact ⟨inv.rest, rfl⟩
      · have mine := inv.rest.inv.inside
        have copy : state.disk.dinode setting.sb setting.inum = state.ip := inv.rest.copy
        have type : (state.disk.dinode setting.sb setting.inum).type ≠ 0 := by
          rw [copy]
          exact inv.rest.inv.allocated
        have file : (state.disk.dinode setting.sb setting.inum).type ≠ T_DEV := by
          rw [copy]
          exact inv.rest.inv.file
        have dinode := written.dinode setting.inum other.symm mine
        have after := written.rest.consistent.lock mine (by rw [dinode]; exact type)
          (by rw [dinode]; exact file)
        rw [dinode] at after
        change Locked.AtRest _ _ ⟨s.disk, state.disk.dinode setting.sb setting.inum⟩ at after
        rw [copy] at after
        exact ⟨after, written.others setting.inum other.symm mine type file⟩
  exact ⟨kept.1, inv.lock, inv.wf, kept.2.trans inv.bytes, inv.inside, inv.free, inv.busy,
    inv.short, inv.order⟩

end Inv

/-! ### Runs -/

theorem record_writei {state : State n} {p : Fin n} {r : Int} {s : Locked} (history : History n)
    (place : (state.writer p).pc = .locked data i) (ran : state.write setting data i = .ok (r, s)) :
    record setting state (.writei p) history =
      if 0 < r then history ++ [(p, State.chunk data i)] else history := by
  simp only [record, place, ran]

theorem Inv.step {old : List UInt8} {start : Nat} {calls : Fin n → List (List UInt8)}
    {state next : State n} {history : History n} {label : Label n}
    (inv : Inv setting old start calls state history) (small : start < 2 ^ 32)
    (stepped : state.step setting label = some next) :
    Inv setting old start calls next (record setting state label history) := by
  cases step_inversion stepped with
  | call p data left place todo =>
    refine inv.outside_step (by rw [place]; rfl) rfl trivial ?_
    intro fine
    refine ⟨?_, ?_⟩
    · rintro (failed | failing)
      · exact fine (Or.inl failed)
      · rw [place] at failing
        cases failing
    · unfold Writer.pending
      rw [place, todo]
      rfl
  | ilock p data i place inside free => exact inv.ilock_step place inside free
  | writei p data i r s place ran =>
    rw [record_writei history place ran]
    have off : state.off = _ := inv.off_add place rfl
    have total := inv.total_lt small
    have length := length_chunk data i
    have short := count_le data i
    have chunkSize := maxChunk_eq
    have inside := inv.wf p
    rw [place] at inside
    have positive : 0 < State.count data i := by
      change i < data.length at inside
      unfold State.count
      omega
    rcases (Locked.writei_ends setting.devsw inv.rest (by omega) (by omega)).post_of_ok ran with
      ⟨failed, same, _⟩ | ⟨whole, reaches, fits, written⟩
    · rw [failed, same, if_neg (by decide)]
      exact inv.fail_step place
    · rw [whole, length, if_pos (by omega)]
      exact inv.write_step place reaches fits written
  | advance p data i r place => exact inv.advance_step small place
  | fails p data i r place negative =>
    refine inv.release place rfl trivial ?_
    intro fine
    exact absurd (Or.inl (by simp)) fine
  | iunlock p data i r place whole =>
    refine inv.release place rfl trivial ?_
    intro fine
    refine ⟨?_, ?_⟩
    · rintro (failed | failing)
      · exact fine (Or.inl failed)
      · rw [place, whole] at failing
        have negative : (State.count data i : Int) < 0 := of_decide_eq_true failing
        omega
    · unfold Writer.pending
      rw [place]
      rfl
  | leave p data i place outside =>
    refine inv.outside_step (by rw [place]; rfl) rfl trivial ?_
    intro fine
    refine ⟨?_, ?_⟩
    · rintro (failed | failing)
      · exact fine (Or.inl (List.mem_append_left _ failed))
      · rw [place] at failing
        cases failing
    · unfold Writer.pending
      rw [place]
      change [] ++ _ = chunks (data.drop i) ++ _
      rw [chunks_drop_all (not_lt.mp outside)]
  | elsewhere i off src r s other inside allocated smallOff smallSrc ran =>
    exact inv.elsewhere_step other inside allocated smallOff smallSrc ran

theorem Inv.start {disk : Disk} {off : Nat} {calls : Fin n → List (List UInt8)}
    (consistent : disk.Consistent setting.sb) (inside : setting.inum < setting.sb.ninodes)
    (allocated : (disk.dinode setting.sb setting.inum).type ≠ 0)
    (file : (disk.dinode setting.sb setting.inum).type ≠ T_DEV) :
    Inv setting (disk.bytes setting.sb setting.inum) off calls
      (machine setting disk off calls).start [] where
  rest := consistent.lock inside allocated file
  lock := by
    intro p
    exact iff_of_false Bool.false_ne_true nofun
  wf := fun _ => trivial
  bytes := (List.take_append_drop off _).symm.trans (by simp [History.bytes, machine])
  inside := fun some => absurd rfl some
  free := fun _ => rfl
  busy := nofun
  short := nofun
  order := fun _ _ => rfl

theorem reachable_inv {disk : Disk} {off : Nat} {calls : Fin n → List (List UInt8)}
    {state : State n} {history : History n} (consistent : disk.Consistent setting.sb)
    (inside : setting.inum < setting.sb.ninodes)
    (allocated : (disk.dinode setting.sb setting.inum).type ≠ 0)
    (file : (disk.dinode setting.sb setting.inum).type ≠ T_DEV) (small : off < 2 ^ 32)
    (reachable : ((machine setting disk off calls).watched (record setting) []).Reachable
      (state, history)) :
    Inv setting (disk.bytes setting.sb setting.inum) off calls state history := by
  refine (reachable.watched_invariant (Inv setting (disk.bytes setting.sb setting.inum) off calls)
    (Inv.start consistent inside allocated file) ?_).2
  intro before label next ghost _ inv stepped
  exact inv.step small stepped

theorem flatten_chunks (data : List UInt8) : (chunks data).flatten = data := by
  induction data using chunks.induct with
  | case1 =>
    rw [chunks_nil]
    rfl
  | case2 data some ih =>
    rw [chunks, if_neg some, List.flatten_cons, ih, List.take_append_drop]

theorem History.length_bytes (history : History n) :
    history.bytes.length = ∑ p, (history.chunksOf p).flatten.length := by
  induction history with
  | nil => simp [History.bytes, History.chunksOf]
  | cons entry rest ih =>
    obtain ⟨p, chunk⟩ := entry
    have own : ∀ q, (History.chunksOf ((p, chunk) :: rest) q).flatten.length =
        (if p = q then chunk.length else 0) + (History.chunksOf rest q).flatten.length := by
      intro q
      by_cases same : p = q
      · simp [History.chunksOf, same]
      · simp [History.chunksOf, same]
    have first : History.bytes ((p, chunk) :: rest) = chunk ++ History.bytes rest := rfl
    rw [first, List.length_append, ih]
    simp only [own, Finset.sum_add_distrib, Finset.sum_ite_eq, Finset.mem_univ, if_true]

theorem length_flatten_flatMap_chunks (calls : List (List UInt8)) :
    (calls.flatMap chunks).flatten.length = (calls.map List.length).sum := by
  induction calls with
  | nil => rfl
  | cons data rest ih =>
    rw [List.flatMap_cons, List.flatten_append, List.length_append, flatten_chunks, ih]
    rfl

/-- Any number of processes write any numbers of any byte strings through one open file, in any
interleaving, and every call succeeds: the file then has, from the first offset on, all chunks
one after the other, of which each process's are its own in order, and nothing else of it has
changed. -/
theorem shared_writes {n : Nat} {setting : Setting} {disk : Disk} {off : Nat}
    {calls : Fin n → List (List UInt8)} {state : State n} {history : History n}
    (consistent : disk.Consistent setting.sb) (inside : setting.inum < setting.sb.ninodes)
    (allocated : (disk.dinode setting.sb setting.inum).type ≠ 0)
    (file : (disk.dinode setting.sb setting.inum).type ≠ T_DEV) (small : off < 2 ^ 32)
    (reachable : ((machine setting disk off calls).watched (record setting) []).Reachable
      (state, history))
    (finished : ∀ p, (state.writer p).pc = .idle ∧ (state.writer p).calls = [])
    (succeeded : ∀ p, -1 ∉ (state.writer p).results) :
    (∀ entry ∈ history, entry.2.length ≤ 1536) ∧
      (∀ p, history.chunksOf p = (calls p).flatMap chunks) ∧
      history.bytes.length = ∑ p, ((calls p).map List.length).sum ∧
      (history.bytes ≠ [] → off ≤ (disk.bytes setting.sb setting.inum).length) ∧
      state.disk.bytes setting.sb setting.inum =
        (disk.bytes setting.sb setting.inum).take off ++ history.bytes ++
          (disk.bytes setting.sb setting.inum).drop (off + history.bytes.length) ∧
      state.off = off + history.bytes.length := by
  have inv := reachable_inv consistent inside allocated file small reachable
  have order : ∀ p, history.chunksOf p = (calls p).flatMap chunks := by
    intro p
    have fine : ¬(state.writer p).Failed := by
      rintro (failed | failing)
      · exact succeeded p failed
      · rw [(finished p).1] at failing
        cases failing
    have order := inv.order p fine
    unfold Writer.pending at order
    rw [(finished p).1, (finished p).2] at order
    change history.chunksOf p ++ [] = _ at order
    rw [List.append_nil] at order
    exact order
  have unlocked : state.lock = none := by
    cases locked : state.lock with
    | none => rfl
    | some p =>
      have holds : (state.writer p).pc.holds = true := (inv.lock p).mpr locked
      rw [(finished p).1] at holds
      cases holds
  refine ⟨inv.short, order, ?_, fun some => (inv.inside some).2, inv.bytes, inv.free unlocked⟩
  rw [History.length_bytes]
  refine Finset.sum_congr rfl ?_
  intro p _
  rw [order p, length_flatten_flatMap_chunks]

/-- Two data blocks, and an empty file. -/
def twoBlocks : Setting where
  sb :=
    { size := 6, nblocks := 2, ninodes := 2, nlog := 0, logstart := 2, inodestart := 2,
      bmapstart := 3 }
  devsw := {}
  inum := 1

def emptyFile : Disk :=
  let zero : Disk := fun _ _ => 0
  let marked := [0, 1, 2, 3].foldl (fun disk b => disk.setUsed twoBlocks.sb b) zero
  marked.setDinode twoBlocks.sb 1 { type := T_FILE, nlink := 1 }

theorem emptyFile_consistent : emptyFile.Consistent twoBlocks.sb := by
  refine Disk.Consistent.of_empty ⟨by decide, by decide, by decide⟩ ?_ ?_
  · decide +kernel
  · decide +kernel

/-- One process calls twice and another once; the second waits for the lock while the first
writes. -/
def twoWriters : Fin 2 → List (List UInt8)
  | 0 => [[1, 2], [3]]
  | 1 => [[7, 8, 9]]

def crossedWrites : List (Label 2) :=
  [.call 0, .call 1, .ilock 0, .writei 0, .advance 0, .iunlock 0, .ilock 1, .leave 0, .call 0,
    .writei 1, .advance 1, .iunlock 1, .ilock 0, .writei 0, .leave 1, .advance 0, .iunlock 0,
    .leave 0]

def Writer.done (writer : Writer) : Bool :=
  match writer.pc with
  | .idle => writer.calls.isEmpty && !writer.results.contains (-1)
  | _ => false

theorem Writer.of_done {writer : Writer} (done : writer.done = true) :
    (writer.pc = .idle ∧ writer.calls = []) ∧ -1 ∉ writer.results := by
  unfold Writer.done at done
  split at done
  · rename_i idle
    simp only [Bool.and_eq_true, List.isEmpty_iff, Bool.not_eq_true'] at done
    refine ⟨⟨idle, done.1⟩, ?_⟩
    intro failed
    rw [List.contains_iff_mem.mpr failed] at done
    cases done.2
  · cases done

theorem shared_writes_crossed :
    ∃ state history,
      ((machine twoBlocks emptyFile 0 twoWriters).watched (record twoBlocks) []).Reachable
        (state, history) ∧
      state.disk.bytes twoBlocks.sb 1 = history.bytes ∧ state.off = 6 := by
  have evaluated : (((machine twoBlocks emptyFile 0 twoWriters).watched (record twoBlocks) []).exec
      ((machine twoBlocks emptyFile 0 twoWriters).start, []) crossedWrites).any (fun final =>
        decide (∀ p, (final.1.writer p).done = true)) = true := by
    decide +kernel
  simp only [Option.any_eq_true, decide_eq_true_eq] at evaluated
  obtain ⟨⟨state, history⟩, ran, done⟩ := evaluated
  have reachable : ((machine twoBlocks emptyFile 0 twoWriters).watched
      (record twoBlocks) []).Reachable (state, history) := ⟨crossedWrites, ran⟩
  obtain ⟨_, _, length, _, bytes, off⟩ := shared_writes emptyFile_consistent (by decide)
    (by decide +kernel) (by decide +kernel) (by decide) reachable
    (fun p => (Writer.of_done (done p)).1) (fun p => (Writer.of_done (done p)).2)
  have old : emptyFile.bytes twoBlocks.sb 1 = [] := by decide +kernel
  refine ⟨state, history, reachable, ?_, ?_⟩
  · change state.disk.bytes twoBlocks.sb 1 = _ at bytes
    rw [bytes, show emptyFile.bytes twoBlocks.sb twoBlocks.inum = [] from old]
    simp
  · rw [off, length]
    rfl

end Xv6.Fs.Shared
