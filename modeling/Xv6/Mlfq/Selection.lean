/-
The selection of a process in a scheduler pass, with the local variables of `scheduler`.

`f` and `p` live across passes.  A pass finds `f` cleared, and `p` is only dereferenced
behind an assignment from `pop`.  The loops get a bound on their rounds; they never reach
it if it is larger than the number of processes.
-/

import Xv6.Mlfq.Invariant
import Xv6.Library.Panics

namespace Xv6

open Function Library Code

namespace Selection

variable {ncpu : Nat}

/-- What `p` points to: nothing, a process, or the end of the table after the last loop. -/
inductive Pointer
  | null
  | slot (p : Slot)
  | tableEnd
  deriving DecidableEq

structure Locals where
  f : Bool := false
  p : Pointer := .null

inductive Halt
  | unset
  | outOfRounds
  deriving DecidableEq

structure Pass (ncpu : Nat) where
  kernel : Kernel ncpu
  locals : Locals

abbrev Sched (ncpu : Nat) := Code Halt (Pass ncpu)

/-- The process behind `p -> ...`. -/
def deref : Sched ncpu Slot := fun s =>
  match s.locals.p with
  | .slot p => .ok (p, s)
  | _ => .error .unset

/-- `p = pop(i)`. -/
def popInto (i : Nat) : Sched ncpu Unit :=
  modify (fun s =>
    { kernel := (s.kernel.pop i).2
      locals := { s.locals with p := ((s.kernel.pop i).1.map Pointer.slot).getD .null } })

/-- `while(sz[i] > cursz)`. -/
def scanWhile (i : Nat) : Nat → Int → Sched ncpu Unit
  | 0, _ => Code.stop .outOfRounds
  | rounds + 1, cursz => do
    let s ← get
    if cursz < (s.kernel.rings i).size then
      popInto i
      let p ← deref
      let s ← get
      if (s.kernel.proc p).state ≠ .runnable then
        modify (fun s => { s with kernel := s.kernel.push i p })
        scanWhile i rounds (cursz + 1)
      else modify (fun s => { s with locals := { s.locals with f := true } })
    else pure ()

/-- `for(int i = 0; i < 5; i++)`. -/
def searchRings (rounds : Nat) : List Nat → Sched ncpu Unit
  | [] => pure ()
  | i :: rest => do
    let s ← get
    if s.locals.f = false ∧ s.kernel.isEmpty i = false then
      scanWhile i rounds 0
      let s ← get
      if s.locals.f then pure () else searchRings rounds rest
    else searchRings rounds rest

/-- The lines in front of the switch. -/
def chosenProc (q : Proc) : Proc := { q with waitTime := 0, numRun := q.numRun + 1 }

/-- A pass up to the switch; it returns the process to switch to. -/
def selection (rounds : Nat) : Sched ncpu (Option Slot) := do
  searchRings rounds (List.range levels)
  let s ← get
  if s.locals.f then
    let p ← deref
    let s ← get
    if (s.kernel.proc p).state = .runnable then
      modify (fun s =>
        { kernel := s.kernel.modify p chosenProc
          locals := { s.locals with f := false } })
      pure (some p)
    else pure none
  else pure none

/-- The end of a pass. -/
def refillIfClear : Sched ncpu Unit :=
  modify (fun s =>
    if s.locals.f = false then
      { kernel := s.kernel.refill, locals := { s.locals with p := .tableEnd } }
    else s)

/-- The local variables after passes in which `scheduler` finds the first kernel and, where
it has switched to a process, comes back to the second one. -/
def passes (rounds : Nat) : List (Kernel ncpu × Kernel ncpu) → Locals → Except Halt Locals
  | [], locals => .ok locals
  | (found, left) :: rest, locals =>
    match selection rounds ⟨found, locals⟩ with
    | .error halt => .error halt
    | .ok (choice, s) =>
      let back : Pass ncpu :=
        if choice.isSome then ⟨left, { s.locals with p := .null }⟩ else s
      match refillIfClear back with
      | .error halt => .error halt
      | .ok (_, ended) => passes rounds rest ended.locals

/-! ### The loops -/

/-- Where the loop of one ring ends: the search of `scanRing`, with `f` set and `p` at the
process if it has found one. -/
structure Searched (s : Pass ncpu) (result : Option Slot × Kernel ncpu) : Prop where
  kernel : s.kernel = result.2
  f : s.locals.f = result.1.isSome
  p : ∀ q, result.1 = some q → s.locals.p = .slot q

theorem popInto_ok {s : Pass ncpu} {i : Nat} {head : Slot}
    (popped : (s.kernel.pop i).1 = some head) :
    popInto i s = .ok ((), ⟨(s.kernel.pop i).2, { s.locals with p := .slot head }⟩) := by
  have pointer : ((s.kernel.pop i).1.map Pointer.slot).getD .null = .slot head := by
    rw [popped]
    rfl
  rw [← pointer]
  rfl

theorem refillIfClear_ok {s : Pass ncpu} (clear : s.locals.f = false) :
    refillIfClear s = .ok ((), ⟨s.kernel.refill, { s.locals with p := .tableEnd }⟩) := by
  change Except.ok ((), if s.locals.f = false then _ else s) = _
  rw [if_pos clear]

theorem scanWhile_ends {i : Nat} (bounded : i < levels) (pending rotated : List Slot)
    (rounds : Nat) (s : Pass ncpu) (ok : s.kernel.RingsOk) (clear : s.locals.f = false)
    (holding : s.kernel.queues i = pending ++ rotated) (enough : pending.length < rounds) :
    (scanWhile i rounds rotated.length).Ends s (fun _ => False) (fun _ s' =>
      Searched s' (Kernel.scanRing i pending.length rotated.length s.kernel)) := by
  -- as for `scanRing`: the induction is on the part of the ring not yet searched
  induction pending generalizing rotated rounds s with
  | nil =>
    obtain ⟨fuel, rfl⟩ := Nat.exists_eq_add_of_lt enough
    have size : (s.kernel.rings i).size = rotated.length := by
      rw [(ok.stores i bounded).size_eq, holding, List.nil_append]
    refine Ends.bind_of_ok rfl ?_
    rw [if_neg (by omega)]
    exact Ends.of_pure ⟨rfl, clear, nofun⟩
  | cons head rest ih =>
    obtain ⟨fuel, rfl⟩ := Nat.exists_eq_add_of_lt enough
    rw [List.length_cons] at enough
    rw [List.cons_append] at holding
    have size : (rotated.length : Int) < (s.kernel.rings i).size := by
      rw [(ok.stores i bounded).size_eq, holding]
      simp only [List.length_cons, List.length_append]
      omega
    obtain ⟨popped, _, _⟩ := Kernel.pop_of_cons ok bounded holding
    refine Ends.bind_of_ok rfl ?_
    rw [if_pos size]
    refine Ends.bind_of_ok (popInto_ok popped) ?_
    refine Ends.bind_of_ok rfl ?_
    refine Ends.bind_of_ok rfl ?_
    simp only [List.length_cons, Kernel.scanRing, if_pos size, popped]
    change Ends (if (s.kernel.proc head).state ≠ .runnable then _ else _) _ _ _
    by_cases ready : (s.kernel.proc head).state = .runnable
    · have found : (s.kernel.pop i).2.isRunnable head = true := Kernel.isRunnable_iff.mpr ready
      rw [if_neg (not_not_intro ready), if_pos found]
      refine Ends.of_ok rfl ⟨rfl, rfl, ?_⟩
      rintro q ⟨⟩
      rfl
    · have skipped : ¬(s.kernel.pop i).2.isRunnable head = true := mt Kernel.isRunnable_iff.mp ready
      rw [if_pos ready, if_neg skipped]
      refine Ends.bind_of_ok rfl ?_
      obtain ⟨turnedOk, _, turnedQueues⟩ := Kernel.rotate_spec ok bounded holding
      have turnedHolding : ((s.kernel.pop i).2.push i head).queues i =
          rest ++ (rotated ++ [head]) := by
        rw [turnedQueues, update_self, List.append_assoc]
      have count : ((rotated ++ [head]).length : Int) = (rotated.length : Int) + 1 := by
        simp
      rw [← count]
      exact ih (rotated ++ [head]) (rest.length + 1 + fuel) _ turnedOk clear turnedHolding
        (by omega)

theorem searchRings_ends {rounds : Nat} (enough : NPROC < rounds) (order : List Nat)
    (bounded : ∀ i ∈ order, i < levels) (s : Pass ncpu) (ok : s.kernel.RingsOk)
    (clear : s.locals.f = false) :
    (searchRings rounds order).Ends s (fun _ => False) (fun _ s' =>
      Searched s' (Kernel.selectRing order s.kernel)) := by
  induction order generalizing s with
  | nil => exact Ends.of_pure ⟨rfl, clear, nofun⟩
  | cons i rest ih =>
    obtain ⟨inside, later⟩ := List.forall_mem_cons.mp bounded
    unfold searchRings Kernel.selectRing
    refine Ends.bind_of_ok rfl ?_
    by_cases empty : s.kernel.isEmpty i = true
    · rw [if_neg (by simp [empty]), if_pos empty]
      exact ih later s ok clear
    · rw [if_pos ⟨clear, Bool.not_eq_true _ ▸ empty⟩, if_neg empty]
      have stores := ok.stores i inside
      have size : (s.kernel.rings i).size.toNat = (s.kernel.queues i).length := by
        rw [stores.size_eq]
        rfl
      have few : (s.kernel.queues i).length ≤ NPROC := by
        have counted := (ok.distinct.nodup i inside).length_le_card
        rwa [Fintype.card_fin] at counted
      have scan := scanWhile_ends inside (s.kernel.queues i) [] rounds s ok clear
        (by rw [List.append_nil]) (by omega)
      have spec := Kernel.scanRing_spec inside (s.kernel.queues i) [] s.kernel ok
        (by rw [List.append_nil])
      rw [size]
      rw [List.length_nil, Nat.cast_zero] at scan spec
      refine Ends.bind scan ?_
      rintro _ s' searched
      refine Ends.bind_of_ok rfl ?_
      generalize Kernel.scanRing i (s.kernel.queues i).length 0 s.kernel = outcome at *
      obtain ⟨choice, after⟩ := outcome
      have kernel : s'.kernel = after := searched.kernel
      cases choice with
      | some p =>
        have f : s'.locals.f = true := searched.f
        rw [if_pos f]
        exact Ends.of_pure searched
      | none =>
        have stillClear : s'.locals.f = false := searched.f
        rw [if_neg (by rw [stillClear]; decide)]
        have continued := ih later s' (by rw [kernel]; exact spec.1) stillClear
        rwa [kernel] at continued

/-- What a pass finds: `kernel.select`, with `f` cleared again. -/
theorem selection_ends {rounds : Nat} (enough : NPROC < rounds) (s : Pass ncpu)
    (ok : s.kernel.RingsOk) (clear : s.locals.f = false) :
    (selection rounds).Ends s (fun _ => False) (fun choice s' =>
      choice = s.kernel.select.1 ∧ s'.locals.f = false ∧
        s'.kernel = match s.kernel.select.1 with
          | some p => s.kernel.select.2.modify p chosenProc
          | none => s.kernel.select.2) := by
  have found := searchRings_ends enough (List.range levels)
    (fun _ member => List.mem_range.mp member) s ok clear
  obtain ⟨_, turned, spec⟩ := Kernel.select_spec ok
  unfold selection
  refine Ends.bind found ?_
  rintro _ s' searched
  change Searched s' s.kernel.select at searched
  refine Ends.bind_of_ok rfl ?_
  generalize s.kernel.select = outcome at *
  obtain ⟨choice, after⟩ := outcome
  have kernel : s'.kernel = after := searched.kernel
  cases spec with
  | none idle queues =>
    have f : s'.locals.f = false := searched.f
    rw [if_neg (by rw [f]; decide)]
    exact Ends.of_pure ⟨rfl, f, kernel⟩
  | some p i earlier later before behind position idleEarlier holding idle ready queues =>
    have derefs : deref s' = .ok (p, s') := by
      unfold deref
      rw [searched.p p rfl]
    have stillReady : (s'.kernel.proc p).state = .runnable := by
      rw [kernel, turned.state p]
      exact ready
    have f : s'.locals.f = true := searched.f
    rw [if_pos f]
    refine Ends.bind_of_ok derefs ?_
    refine Ends.bind_of_ok rfl ?_
    rw [if_pos stillReady]
    refine Ends.bind_of_ok rfl ?_
    refine Ends.of_pure ⟨rfl, rfl, ?_⟩
    change s'.kernel.modify p chosenProc = after.modify p chosenProc
    rw [kernel]

/-- `f` is clear again at the end of every pass. -/
theorem passes_clear {rounds : Nat} (enough : NPROC < rounds)
    (history : List (Kernel ncpu × Kernel ncpu)) (rings : ∀ pass ∈ history, pass.1.RingsOk)
    (locals : Locals) (clear : locals.f = false) :
    ∃ after, passes rounds history locals = .ok after ∧ after.f = false := by
  induction history generalizing locals with
  | nil => exact ⟨locals, rfl, clear⟩
  | cons pass rest ih =>
    obtain ⟨found, left⟩ := pass
    obtain ⟨here, later⟩ := List.forall_mem_cons.mp rings
    obtain ⟨choice, s, ran, _, f, _⟩ :=
      (selection_ends enough ⟨found, locals⟩ here clear).exists_ok (fun _ => id)
    unfold passes
    simp only [ran]
    cases choice with
    | none =>
      simp only [Option.isSome_none, Bool.false_eq_true, if_false, refillIfClear_ok f]
      exact ih later _ f
    | some p =>
      have back : (⟨left, { s.locals with p := .null }⟩ : Pass ncpu).locals.f = false := f
      simp only [Option.isSome_some, if_true, refillIfClear_ok back]
      exact ih later _ f

/-! ### Selection -/

/-- After any passes `f` is clear.  The selection then ends without a dereference of an
unset `p`; it takes the RUNNABLE process nearest to the front of the first ring that holds
one and moves those in front of it to the rear, and it is what the pass goes on with. -/
theorem mlfq_selection {history : List (Kernel ncpu × Kernel ncpu)}
    (rings : ∀ pass ∈ history, pass.1.RingsOk) {kernel : Kernel ncpu} (ok : kernel.RingsOk)
    {rounds : Nat} (enough : NPROC < rounds) :
    ∃ locals, passes rounds history {} = .ok locals ∧ locals.f = false ∧
      ∃ choice after, selection rounds ⟨kernel, locals⟩ = .ok (choice, after) ∧
        (∀ c, kernel.mlfqPass c none = match choice with
          | some p => after.kernel.dispatch c p
          | none => after.kernel.refill.release c) ∧
        (choice = none ↔
          ∀ i, i < levels → ∀ q ∈ kernel.queues i, (kernel.proc q).state ≠ .runnable) ∧
        (choice = none → after.kernel.queues = kernel.queues) ∧
        ∀ p, choice = some p → ∃ i before behind, i < levels ∧
          (∀ j, j < i → ∀ q ∈ kernel.queues j, (kernel.proc q).state ≠ .runnable) ∧
          kernel.queues i = before ++ p :: behind ∧
          (∀ q ∈ before, (kernel.proc q).state ≠ .runnable) ∧
          (kernel.proc p).state = .runnable ∧
          after.kernel.queues = update kernel.queues i (behind ++ before) := by
  obtain ⟨locals, ran, clear⟩ := passes_clear enough history rings {} rfl
  obtain ⟨choice, after, selected, which, _, result⟩ :=
    (selection_ends enough ⟨kernel, locals⟩ ok clear).exists_ok (fun _ => id)
  obtain ⟨_, _, spec⟩ := Kernel.select_spec ok
  refine ⟨locals, ran, clear, choice, after, selected, ?_⟩
  simp only [Kernel.mlfqPass]
  dsimp only at which result
  rw [which]
  generalize kernel.select = outcome at *
  obtain ⟨chosen, middle⟩ := outcome
  cases spec with
  | none idle queues =>
    have kept : after.kernel = middle := result
    refine ⟨fun c => by rw [kept], ?_, ?_, by simp⟩
    · refine iff_of_true rfl ?_
      intro i inside
      exact idle i (List.mem_range.mpr inside)
    · intro _
      rw [kept, queues]
  | some p i earlier later before behind position idleEarlier holding idle ready queues =>
    obtain ⟨inside, smaller⟩ := Kernel.range_earlier position
    have changed : after.kernel = middle.modify p chosenProc := result
    have taken : after.kernel.queues = middle.queues := by
      rw [changed]
      exact Kernel.queues_congr (Kernel.modify_rings _ _ _)
    refine ⟨fun c => by rw [changed]; rfl, ?_, by simp, ?_⟩
    · refine iff_of_false (by simp) ?_
      intro nobody
      refine nobody i inside p ?_ ready
      rw [holding]
      exact List.mem_append_right before List.mem_cons_self
    · rintro q ⟨⟩
      refine ⟨i, before, behind, inside, ?_, holding, idle, ready, taken.trans queues⟩
      intro j less
      exact idleEarlier j (smaller j less)

/-- While the first process forks on CPU 0, its first child forks on CPU 1. -/
def twoForks : List (Label 2) :=
  let fork : List (Label 2) := [.allocproc 0, .forkCopy 0, .forkReady 0]
  [.userinitAlloc 0, .userinitReady 0, .enter 0, .pass 0, .forkretReturn 0, .syscallEnter 0] ++
    fork ++ [.enter 1, .pass 1, .forkretReturn 1, .syscallEnter 1, .allocproc 1, .syscallReturn 0,
      .syscallEnter 0] ++ fork ++ [.syscallReturn 0, .syscallEnter 0] ++ fork

set_option maxRecDepth 100000 in
/-- After one pass that finds nobody, the second one takes the second of three processes, which
is the first that is runnable, and moves the one before it to the end. -/
theorem mlfq_selection_second_process :
    ∃ kernel : Kernel 2, (machine .mlfq 2).exec (Kernel.boot 2) twoForks = some kernel ∧
      kernel.queues 0 = [2, 3, 4] ∧
      ∃ locals after, passes 65 [(Kernel.boot 2, Kernel.boot 2)] {} = .ok locals ∧
        selection 65 ⟨kernel, locals⟩ = .ok (some 3, after) ∧ after.kernel.queues 0 = [4, 2] := by
  obtain ⟨kernel, ran, holding, idle, ready⟩ :
      ∃ kernel, (machine .mlfq 2).exec (Kernel.boot 2) twoForks = some kernel ∧
        kernel.queues 0 = [2, 3, 4] ∧ (kernel.proc 2).state ≠ .runnable ∧
        (kernel.proc 3).state = .runnable := by
    decide +kernel
  have before : ∀ pass ∈ [(Kernel.boot 2, Kernel.boot 2)], pass.1.RingsOk :=
    List.forall_mem_singleton.mpr Kernel.boot_ringsOk
  obtain ⟨locals, passed, _, choice, after, selected, _, nobody, _, taken⟩ :=
    mlfq_selection before (Kernel.reachable_mlfqInv ⟨_, ran⟩).1.rings (by decide : NPROC < 65)
  have waits : (3 : Slot) ∈ kernel.queues 0 := by
    rw [holding]
    decide
  cases choice with
  | none => exact absurd ready (nobody.mp rfl 0 (by decide) 3 waits)
  | some p =>
    obtain ⟨i, front, behind, _, higher, split, skipped, chosen, queues⟩ := taken p rfl
    obtain rfl : i = 0 := by
      by_contra later
      exact higher 0 (Nat.pos_of_ne_zero later) 3 waits ready
    rw [holding] at split
    refine ⟨kernel, ran, holding, locals, after, passed, ?_⟩
    rw [queues, update_self]
    match front, split with
    | [], split =>
      cases split
      exact absurd chosen idle
    | [_], split =>
      cases split
      exact ⟨selected, rfl⟩
    | _ :: second :: _, split =>
      have equal : 3 = second := (List.cons.inj (List.cons.inj split).2).1
      exact absurd ready (skipped 3 (by simp [equal]))

end Selection

end Xv6
