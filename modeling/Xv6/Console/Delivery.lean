/-
The readers of the console get the committed bytes, each once and in the order in which they
were committed.

An observer keeps the bytes that the write index passes and those that the read index passes,
with the process that takes them, and the return of every call.
-/

import Xv6.Console.Lines

namespace Xv6.Console

open Function Library

/-- A return from `consoleread`: `taken` has the bytes that the call took out of the ring, and
`left` is the byte that is next in the ring. -/
structure Outcome where
  proc : Nat
  size : BitVec 32
  result : Int
  got : List UInt8
  taken : List UInt8
  left : Option UInt8

structure History where
  committed : List UInt8 := []
  taken : List (Nat × UInt8) := []
  returned : List Outcome := []

/-- The bytes that the read index passes. -/
def passed (input next : Input) : List UInt8 := segment INPUT_BUF input.buf input.r next.r

/-- What the iteration of a reader adds to the history. -/
def History.iterate (history : History) (s : System) (p : Nat) (call : Call) : History :=
  let (next, turn) := s.input.consoleread (s.proc p).killed call
  let bytes := passed s.input next
  { history with
    taken := history.taken ++ bytes.map (fun byte => (p, byte))
    returned := history.returned ++
      match turn with
      | .finish result got =>
        [⟨p, call.target, result, got, call.got ++ bytes, next.unread.head?⟩]
      | _ => [] }

def observe (s : System) (event : Event) (history : History) : History :=
  match event with
  | .character c =>
    let next := (s.input.consoleintr c).1
    { history with
      committed := history.committed ++ segment INPUT_BUF next.buf s.input.w next.w }
  | .run p =>
    match (s.proc p).pc with
    | .loop call => history.iterate s p call
    | _ => history
  | _ => history

/-! ### Calls -/

/-- What a call knows of its locals. -/
structure Call.Ok (call : Call) : Prop where
  count : call.n.toNat + call.got.length = call.target.toNat
  plain : ctrlD ∉ call.got
  small : call.got ≠ [] → call.target.toNat < 2 ^ 31

theorem Call.Ok.fresh (n : BitVec 32) : Call.Ok { target := n, n := n } where
  count := rfl
  plain := List.not_mem_nil
  small := fun some => absurd rfl some

theorem slt_iff (n : BitVec 32) : (0#32).slt n = true ↔ 0 < n.toNat ∧ n.toNat < 2 ^ 31 := by
  rw [BitVec.slt, decide_eq_true_iff, BitVec.toInt_zero, BitVec.toInt_eq_toNat_cond]
  have bound := n.isLt
  split <;> omega

theorem Call.Ok.result {call : Call} (ok : call.Ok) : call.result = call.got.length := by
  have count := ok.count
  have bound := call.target.isLt
  have difference : (call.target - call.n).toNat = call.got.length := by
    rw [BitVec.toNat_sub_of_le (BitVec.le_def.mpr (by omega))]
    omega
  have short : call.got.length < 2 ^ 31 := by
    by_cases empty : call.got = []
    · rw [empty]
      decide
    · have small := ok.small empty
      omega
  rw [Call.result, BitVec.toInt_eq_toNat_cond, if_pos (by omega), difference]

/-- A byte has been stored at `dst`. -/
theorem Call.Ok.store {call : Call} (ok : call.Ok) (more : (0#32).slt call.n = true)
    {byte : UInt8} (plain : byte ≠ ctrlD) :
    Call.Ok { call with n := call.n - 1, got := call.got ++ [byte] } := by
  obtain ⟨positive, small⟩ := (slt_iff call.n).mp more
  have count := ok.count
  have fewer : (call.n - 1).toNat = call.n.toNat - 1 :=
    BitVec.toNat_sub_of_le (BitVec.le_def.mpr positive)
  refine ⟨?_, ?_, ?_⟩
  · change (call.n - 1).toNat + (call.got ++ [byte]).length = call.target.toNat
    rw [fewer, List.length_append, List.length_singleton]
    omega
  · intro member
    rcases List.mem_append.mp member with before | last
    · exact ok.plain before
    · exact plain (List.mem_singleton.mp last).symm
  · intro _
    by_cases empty : call.got = []
    · rw [empty, List.length_nil] at count
      change call.target.toNat < 2 ^ 31
      omega
    · exact ok.small empty

theorem Call.Ok.lt_iff {call : Call} (ok : call.Ok) : call.n < call.target ↔ call.got ≠ [] := by
  have count := ok.count
  rw [BitVec.lt_def, ← List.length_pos_iff]
  omega

/-- A return is complete: the bytes are those that the call took, except that a ^D that is
taken alone gives no byte.  A shorter read ends at a newline or at a ^D, and the latter stays
in the ring if it follows other bytes. -/
structure Outcome.Ok (o : Outcome) (killed : Bool) : Prop where
  plain : ctrlD ∉ o.got
  taken : o.taken = o.got ∨ (o.got = [] ∧ o.taken = [ctrlD])
  result : o.result = o.got.length ∨ (o.result = -1 ∧ killed = true)
  ends : o.result ≠ -1 → (o.got.length : Int) < o.size.toInt →
    o.got.getLast? = some newline ∨ o.taken = [ctrlD] ∨ (o.got ≠ [] ∧ o.left = some ctrlD)

theorem Outcome.Ok.mono {o : Outcome} {killed later : Bool} (ok : o.Ok killed)
    (kept : killed = true → later = true) : o.Ok later where
  plain := ok.plain
  taken := ok.taken
  result := ok.result.imp_right (fun both => ⟨both.1, kept both.2⟩)
  ends := ok.ends

/-- How an iteration of `consoleread` relates the call and the bytes that it takes. -/
inductive Turned (p : Nat) (killed : Bool) (call : Call) (bytes : List UInt8)
    (left : Option UInt8) : Next → Prop
  | again {later : Call} : later.Ok → later.got = call.got ++ bytes →
      Turned p killed call bytes left (.again later)
  | sleep : bytes = [] → Turned p killed call bytes left (.sleep call)
  | finish {result : Int} {got : List UInt8} :
      Outcome.Ok ⟨p, call.target, result, got, call.got ++ bytes, left⟩ killed →
      Turned p killed call bytes left (.finish result got)

theorem Call.Ok.full {call : Call} (ok : call.Ok) (more : ¬(0#32).slt call.n = true) :
    call.target.toInt ≤ call.got.length := by
  have none : ¬(0 < call.n.toNat ∧ call.n.toNat < 2 ^ 31) := fun both =>
    more ((slt_iff call.n).mpr both)
  have count := ok.count
  have bound := call.target.isLt
  rw [BitVec.toInt_eq_toNat_cond]
  by_cases empty : call.got = []
  · rw [empty, List.length_nil] at count ⊢
    split <;> omega
  · have small := ok.small empty
    split <;> omega

theorem Input.Ok.consoleread {input : Input} {call : Call} (ok : input.Ok) (valid : call.Ok)
    (p : Nat) (killed : Bool) :
    (input.consoleread killed call).1.Ok ∧
      input.unread = passed input (input.consoleread killed call).1 ++
        (input.consoleread killed call).1.unread ∧
      Turned p killed call (passed input (input.consoleread killed call).1)
        (input.consoleread killed call).1.unread.head? (input.consoleread killed call).2 := by
  have still : passed input input = [] := segment_self _ _
  have same : input.unread = passed input input ++ input.unread := by
    rw [still, List.nil_append]
  have result := valid.result
  unfold Input.consoleread
  by_cases more : (0#32).slt call.n = true
  · rw [if_pos more]
    by_cases empty : input.r = input.w
    · rw [if_pos empty]
      cases killed with
      | true =>
        rw [if_pos rfl]
        refine ⟨ok, same, .finish ⟨valid.plain, ?_, Or.inr ⟨rfl, rfl⟩, ?_⟩⟩
        · rw [still, List.append_nil]
          exact Or.inl rfl
        · intro other
          exact absurd rfl other
      | false => exact ⟨ok, same, .sleep still⟩
    · rw [if_neg empty]
      obtain ⟨after, oldest, one⟩ := ok.take empty
      have takes : passed input { input with r := input.r + 1 } = [input.oldest] := one
      by_cases eof : input.oldest = ctrlD
      · simp only [if_pos eof]
        by_cases some : call.n < call.target
        · rw [if_pos some]
          have back : ({ input with r := input.r + 1 - 1 } : Input) = input := by
            have sum : input.r + 1 - 1 = input.r := by
              change input.r + 1#32 - 1#32 = input.r
              ring
            rw [sum]
          change Input.Ok { input with r := input.r + 1 - 1 } ∧
            input.unread = passed input { input with r := input.r + 1 - 1 } ++
              ({ input with r := input.r + 1 - 1 } : Input).unread ∧
            Turned p killed call (passed input { input with r := input.r + 1 - 1 })
              ({ input with r := input.r + 1 - 1 } : Input).unread.head?
              (.finish call.result call.got)
          rw [back]
          refine ⟨ok, same, .finish ⟨valid.plain, ?_, Or.inl result, ?_⟩⟩
          · rw [still, List.append_nil]
            exact Or.inl rfl
          · intro _ _
            refine Or.inr (Or.inr ⟨valid.lt_iff.mp some, ?_⟩)
            rw [oldest, eof, List.head?_cons]
        · rw [if_neg some]
          have none : call.got = [] := not_not.mp (mt valid.lt_iff.mpr some)
          have only : call.got ++ passed input { input with r := input.r + 1 } = [ctrlD] := by
            rw [none, takes, eof, List.nil_append]
          refine ⟨after, ?_, .finish ⟨valid.plain, Or.inr ⟨none, only⟩, Or.inl result, ?_⟩⟩
          · rw [takes, oldest, List.singleton_append]
          · intro _ _
            exact Or.inr (Or.inl only)
      · simp only [if_neg eof]
        have stored := valid.store more eof
        have grown : call.got ++ [input.oldest] =
            call.got ++ passed input { input with r := input.r + 1 } := by rw [takes]
        by_cases complete : input.oldest = newline
        · rw [if_pos complete]
          refine ⟨after, ?_, .finish ⟨stored.plain, Or.inl grown.symm, Or.inl stored.result, ?_⟩⟩
          · rw [takes, oldest, List.singleton_append]
          · intro _ _
            refine Or.inl ?_
            rw [List.getLast?_concat, complete]
        · rw [if_neg complete]
          refine ⟨after, ?_, .again stored grown⟩
          rw [takes, oldest, List.singleton_append]
  · rw [if_neg more]
    refine ⟨ok, same, .finish ⟨valid.plain, ?_, Or.inl result, ?_⟩⟩
    · rw [still, List.append_nil]
      exact Or.inl rfl
    · intro _ short
      have full := valid.full more
      change (call.got.length : Int) < call.target.toInt at short
      omega

/-! ### Steps -/

def Pc.call : Pc → Option Call
  | .outside => none
  | .acquire call | .loop call | .asleep call => some call

/-- The bytes that the call under way has stored. -/
def Pc.got (pc : Pc) : List UInt8 := (pc.call.map Call.got).getD []

/-- A step that leaves the ring and the bytes of all calls alone. -/
structure Quiet (s : System) (event : Event) (next : System) : Prop where
  input : next.input = s.input
  history : ∀ history, observe s event history = history
  calls : ∀ q call, (next.proc q).pc.call = some call →
    (s.proc q).pc.call = some call ∨ call.Ok
  got : ∀ q, (next.proc q).pc.got = (s.proc q).pc.got
  killed : ∀ q, (s.proc q).killed = true → (next.proc q).killed = true
  outside : ∀ q, (s.proc q).pc = .outside →
    (next.proc q).pc = .outside ∨ ∃ n, event = .read q n

theorem Quiet.of_proc {s next : System} {event : Event} {p : Nat} {proc : Proc}
    (input : next.input = s.input)
    (history : ∀ history, observe s event history = history)
    (procs : next.proc = update s.proc p proc)
    (calls : ∀ call, proc.pc.call = some call → (s.proc p).pc.call = some call ∨ call.Ok)
    (got : proc.pc.got = (s.proc p).pc.got)
    (killed : (s.proc p).killed = true → proc.killed = true)
    (outside : (s.proc p).pc = .outside → proc.pc = .outside ∨ ∃ n, event = .read p n) :
    Quiet s event next := by
  have here : next.proc p = proc := by rw [procs, update_self]
  have other (q : Nat) (different : q ≠ p) : next.proc q = s.proc q := by
    rw [procs, update_of_ne different]
  refine ⟨input, history, ?_, ?_, ?_, ?_⟩ <;> intro q <;> by_cases same : q = p
  · rw [same, here]
    exact calls
  · rw [other q same]
    exact fun call found => Or.inl found
  · rw [same, here]
    exact got
  · rw [other q same]
  · rw [same, here]
    exact killed
  · rw [other q same]
    exact id
  · rw [same, here]
    exact outside
  · rw [other q same]
    exact Or.inl

/-- A step is quiet, a character, or an iteration of a reader. -/
theorem step_cases {s next : System} {event : Event}
    (stepped : s.step event = some next) :
    Quiet s event next ∨
      (∃ c, event = .character c ∧ next = s.character c) ∨
      ∃ p call, event = .run p ∧ (s.proc p).pc = .loop call ∧
        next = s.iterate p call := by
  have unchanged (lock : Option Holder)
      (silent : ∀ history, observe s event history = history) :
      Quiet s event { s with lock := lock } :=
    ⟨rfl, silent, fun _ _ found => Or.inl found, fun _ => rfl, fun _ => id, fun _ => Or.inl⟩
  cases event with
  | interrupt | done =>
    simp only [System.step, Option.ite_none_right_eq_some, Option.some.injEq] at stepped
    rw [← stepped.2]
    exact Or.inl (unchanged _ fun _ => rfl)
  | character c =>
    simp only [System.step, Option.ite_none_right_eq_some, Option.some.injEq] at stepped
    exact Or.inr (Or.inl ⟨c, rfl, stepped.2.symm⟩)
  | read p n =>
    refine Or.inl ?_
    unfold System.step at stepped
    cases pc : (s.proc p).pc with
    | outside =>
      simp only [pc, Option.some.injEq] at stepped
      rw [← stepped]
      refine Quiet.of_proc rfl (fun _ => rfl) rfl ?_ ?_ id fun _ => Or.inr ⟨n, rfl⟩
      · intro call found
        cases found
        exact Or.inr (Call.Ok.fresh n)
      · rw [pc]
        rfl
    | _ => simp only [pc, reduceCtorEq] at stepped
  | run p =>
    unfold System.step System.run at stepped
    cases pc : (s.proc p).pc with
    | outside => simp only [pc, reduceCtorEq] at stepped
    | acquire call =>
      simp only [pc, Option.ite_none_right_eq_some, Option.some.injEq] at stepped
      rw [← stepped.2]
      refine Or.inl (Quiet.of_proc rfl ?_ rfl ?_ ?_ id ?_)
      · intro history
        simp only [observe, pc]
      · rw [pc]
        exact fun _ => Or.inl
      · rw [pc]
        rfl
      · intro outside
        cases pc.symm.trans outside
    | loop call =>
      simp only [pc, Option.some.injEq] at stepped
      exact Or.inr (Or.inr ⟨p, call, rfl, pc, stepped.symm⟩)
    | asleep call =>
      simp only [pc] at stepped
      cases sleeping : (s.proc p).sleeping with
      | true => simp only [sleeping, if_true, reduceCtorEq] at stepped
      | false =>
        simp only [sleeping, Bool.false_eq_true, if_false, Option.some.injEq] at stepped
        rw [← stepped]
        refine Or.inl (Quiet.of_proc rfl ?_ rfl ?_ ?_ id ?_)
        · intro history
          simp only [observe, pc]
        · rw [pc]
          exact fun _ => Or.inl
        · rw [pc]
          rfl
        · intro outside
          cases pc.symm.trans outside
  | kill p =>
    simp only [System.step, Option.some.injEq] at stepped
    rw [← stepped]
    refine Or.inl ?_
    exact Quiet.of_proc rfl (fun _ => rfl) rfl (fun _ => Or.inl) rfl (fun _ => rfl) Or.inl

theorem character_proc (s : System) (c q : Nat) :
    ((s.character c).proc q).pc = (s.proc q).pc ∧
      ((s.character c).proc q).killed = (s.proc q).killed ∧
      (s.character c).input = (s.input.consoleintr c).1 := by
  unfold System.character
  obtain ⟨input, wakes⟩ := s.input.consoleintr c
  cases wakes with
  | true => exact ⟨rfl, rfl, rfl⟩
  | false => exact ⟨rfl, rfl, rfl⟩

/-- What the iteration of a reader does. -/
structure Iterates (s : System) (p : Nat) (call : Call) (bytes : List UInt8)
    (outcomes : List Outcome) (next : System) : Prop where
  ok : next.input.Ok
  unread : s.input.unread = bytes ++ next.input.unread
  returned : ∀ o ∈ outcomes, o.proc = p ∧ o.Ok (s.proc p).killed
  got : outcomes.flatMap Outcome.taken ++ (next.proc p).pc.got = call.got ++ bytes
  calls : ∀ later, (next.proc p).pc.call = some later → later.Ok
  killed : (next.proc p).killed = (s.proc p).killed
  others : ∀ q, q ≠ p → next.proc q = s.proc q

theorem iterate_iterates {s : System} {p : Nat} {call : Call} (ok : s.input.Ok)
    (valid : call.Ok) (history : History) :
    ∃ bytes outcomes,
      history.iterate s p call =
          { history with
            taken := history.taken ++ bytes.map (fun byte => (p, byte))
            returned := history.returned ++ outcomes } ∧
        Iterates s p call bytes outcomes (s.iterate p call) := by
  obtain ⟨after, unread, turned⟩ := ok.consoleread valid p (s.proc p).killed
  unfold History.iterate System.iterate
  generalize s.input.consoleread (s.proc p).killed call = pair at after unread turned
  obtain ⟨next, turn⟩ := pair
  refine ⟨passed s.input next, _, rfl, ?_⟩
  have other (proc : Proc) (q : Nat) (different : q ≠ p) :
      update s.proc p proc q = s.proc q := update_of_ne different _ _
  have here (proc : Proc) : update s.proc p proc p = proc :=
    update_self _ _ _
  cases turned with
  | @again later valid' grown =>
    refine ⟨after, unread, fun o member => absurd member List.not_mem_nil, ?_, ?_, ?_, other _⟩
    · change (update s.proc p _ p).pc.got = _
      rw [here]
      exact grown
    · change ∀ found, (update s.proc p _ p).pc.call = some found → _
      rw [here]
      intro found same
      cases same
      exact valid'
    · change (update s.proc p _ p).killed = _
      rw [here]
  | sleep nothing =>
    refine ⟨after, unread, fun o member => absurd member List.not_mem_nil, ?_, ?_, ?_, other _⟩
    · change (update s.proc p _ p).pc.got = _
      rw [here, nothing, List.append_nil]
      rfl
    · change ∀ found, (update s.proc p _ p).pc.call = some found → _
      rw [here]
      intro found same
      cases same
      exact valid
    · change (update s.proc p _ p).killed = _
      rw [here]
  | @finish result got outcome =>
    refine ⟨after, unread, ?_, ?_, ?_, ?_, other _⟩
    · intro o member
      rw [List.mem_singleton.mp member]
      exact ⟨rfl, outcome⟩
    · change _ ++ (update s.proc p _ p).pc.got = _
      rw [here, List.flatMap_singleton]
      exact List.append_nil _
    · change ∀ found, (update s.proc p _ p).pc.call = some found → _
      rw [here]
      intro found same
      cases same
    · change (update s.proc p _ p).killed = _
      rw [here]

/-! ### Runs -/

/-- The bytes that a process has taken, in order. -/
def History.takenBy (history : History) (p : Nat) : List UInt8 :=
  (history.taken.filter (fun entry => entry.1 = p)).map Prod.snd

/-- The returns of a process, in order. -/
def History.returnedTo (history : History) (p : Nat) : List Outcome :=
  history.returned.filter (fun o => o.proc = p)

structure Delivers (s : System) (history : History) : Prop where
  ok : s.input.Ok
  calls : ∀ p call, (s.proc p).pc.call = some call → call.Ok
  conserved : history.taken.map Prod.snd ++ s.input.unread = history.committed
  each : ∀ p, history.takenBy p =
    (history.returnedTo p).flatMap Outcome.taken ++ (s.proc p).pc.got
  returned : ∀ o ∈ history.returned, o.Ok (s.proc o.proc).killed

theorem Delivers.start : Delivers machine.start {} where
  ok := ⟨Nat.le_refl _, Nat.zero_le _⟩
  calls := fun _ _ found => nomatch found
  conserved := rfl
  each := fun _ => rfl
  returned := fun _ member => absurd member List.not_mem_nil

theorem filter_tagged (bytes : List UInt8) (p q : Nat) :
    ((bytes.map (fun byte => (p, byte))).filter (fun entry => entry.1 = q)).map Prod.snd =
      if p = q then bytes else [] := by
  induction bytes with
  | nil => split <;> rfl
  | cons byte rest ih =>
    by_cases same : p = q
    · rw [if_pos same] at ih ⊢
      rw [List.map_cons, List.filter_cons_of_pos (by simpa using same), List.map_cons, ih]
    · rw [if_neg same] at ih ⊢
      rw [List.map_cons, List.filter_cons_of_neg (by simpa using same), ih]

/-- A step keeps the invariant. -/
theorem Delivers.step {s next : System} {event : Event} {history : History}
    (delivers : Delivers s history) (stepped : s.step event = some next) :
    Delivers next (observe s event history) := by
  rcases step_cases stepped with quiet | ⟨c, rfl, rfl⟩ | ⟨p, call, rfl, pc, rfl⟩
  · rw [quiet.history]
    refine ⟨?_, ?_, ?_, ?_, ?_⟩
    · rw [quiet.input]
      exact delivers.ok
    · intro q call found
      rcases quiet.calls q call found with before | fresh
      · exact delivers.calls q call before
      · exact fresh
    · rw [quiet.input]
      exact delivers.conserved
    · intro q
      rw [quiet.got]
      exact delivers.each q
    · intro o member
      exact (delivers.returned o member).mono (quiet.killed o.proc)
  · have same := character_proc s c
    obtain ⟨after, _, unread⟩ := (delivers.ok.consoleintr c).1.unread
    have input := (same 0).2.2
    refine ⟨?_, ?_, ?_, ?_, ?_⟩
    · rw [input]
      exact after
    · intro q call found
      rw [(same q).1] at found
      exact delivers.calls q call found
    · rw [input, unread, ← List.append_assoc]
      change _ = history.committed ++ _
      rw [← delivers.conserved]
      rfl
    · intro q
      rw [(same q).1]
      exact delivers.each q
    · intro o member
      rw [(same o.proc).2.1]
      exact delivers.returned o member
  · have valid := delivers.calls p call (by rw [pc]; rfl)
    obtain ⟨bytes, outcomes, seen, iterates⟩ := iterate_iterates delivers.ok valid history
    have observed : observe s (.run p) history = history.iterate s p call := by
      simp only [observe, pc]
    have got : (s.proc p).pc.got = call.got := by
      rw [pc]
      rfl
    rw [observed, seen]
    refine ⟨iterates.ok, ?_, ?_, ?_, ?_⟩
    · intro q later found
      by_cases same : q = p
      · rw [same] at found
        exact iterates.calls later found
      · rw [iterates.others q same] at found
        exact delivers.calls q later found
    · change (history.taken ++ _).map Prod.snd ++ _ = history.committed
      rw [List.map_append, List.map_map, ← delivers.conserved, iterates.unread,
        List.append_assoc]
      congr 2
      exact List.map_id bytes
    · intro q
      have before := delivers.each q
      unfold History.takenBy History.returnedTo at before ⊢
      rw [List.filter_append, List.map_append, filter_tagged, before, List.filter_append,
        List.flatMap_append, List.append_assoc, List.append_assoc]
      congr 1
      by_cases same : p = q
      · have all : outcomes.filter (fun o => o.proc = q) = outcomes := by
          apply List.filter_eq_self.mpr
          intro o member
          exact decide_eq_true ((iterates.returned o member).1.trans same)
        rw [if_pos same, all, ← same, got]
        exact iterates.got.symm
      · have none : outcomes.filter (fun o => o.proc = q) = [] := by
          apply List.filter_eq_nil_iff.mpr
          intro o member found
          exact same ((iterates.returned o member).1.symm.trans (of_decide_eq_true found))
        rw [if_neg same, none, iterates.others q (Ne.symm same), List.append_nil]
        rfl
    · intro o member
      have alive (q : Nat) : ((s.iterate p call).proc q).killed = (s.proc q).killed := by
        by_cases same : q = p
        · rw [same]
          exact iterates.killed
        · rw [iterates.others q same]
      rw [alive]
      rcases List.mem_append.mp member with before | now
      · exact delivers.returned o before
      · obtain ⟨mine, outcome⟩ := iterates.returned o now
        rw [mine]
        exact outcome

/-- A call starts only while no other one is under way. -/
def StartsAlone (pair : System × History) (event : Event) : Prop :=
  ∀ p n, event = .read p n → ∀ q, (pair.1.proc q).pc = .outside

/-- At most one call is under way, and the earlier ones have returned all bytes before its
own. -/
def Successive (s : System) (history : History) : Prop :=
  ∃ p, (∀ q, q ≠ p → (s.proc q).pc = .outside) ∧
    history.taken.map Prod.snd =
      history.returned.flatMap Outcome.taken ++ (s.proc p).pc.got

theorem Successive.step {s next : System} {event : Event} {history : History}
    (delivers : Delivers s history) (successive : Successive s history)
    (alone : StartsAlone (s, history) event) (stepped : s.step event = some next) :
    Successive next (observe s event history) := by
  obtain ⟨p, others, taken⟩ := successive
  rcases step_cases stepped with quiet | ⟨c, rfl, rfl⟩ | ⟨q, call, rfl, pc, rfl⟩
  · rw [quiet.history]
    by_cases reads : ∃ q n, event = .read q n
    · obtain ⟨q, n, read⟩ := reads
      have all := alone q n read
      refine ⟨q, ?_, ?_⟩
      · intro other different
        rcases quiet.outside other (all other) with outside | ⟨n', same⟩
        · exact outside
        · cases read.symm.trans same
          exact absurd rfl different
      · rw [quiet.got, all q, taken, all p]
    · refine ⟨p, ?_, ?_⟩
      · intro q different
        rcases quiet.outside q (others q different) with outside | ⟨n, same⟩
        · exact outside
        · exact absurd ⟨q, n, same⟩ reads
      · rw [quiet.got]
        exact taken
  · refine ⟨p, ?_, ?_⟩
    · intro q different
      rw [(character_proc s c q).1]
      exact others q different
    · rw [(character_proc s c p).1]
      exact taken
  · have mine : q = p := by
      by_contra different
      cases pc.symm.trans (others q different)
    have valid := delivers.calls q call (by rw [pc]; rfl)
    obtain ⟨bytes, outcomes, seen, iterates⟩ := iterate_iterates delivers.ok valid history
    have observed : observe s (.run q) history = history.iterate s q call := by
      simp only [observe, pc]
    rw [observed, seen]
    refine ⟨q, ?_, ?_⟩
    · intro other different
      rw [iterates.others other different]
      exact others other (mine ▸ different)
    · rw [← mine, pc] at taken
      change (history.taken ++ _).map Prod.snd = (history.returned ++ outcomes).flatMap _ ++ _
      rw [List.map_append, taken, List.flatMap_append, List.append_assoc, List.append_assoc,
        iterates.got, List.map_map]
      congr 2
      exact List.map_id bytes

/-- The calls of a single process do not overlap. -/
theorem meets_of_single {p : Nat} (events : List Event)
    (single : ∀ q n, Event.read q n ∈ events → q = p) :
    ∀ {s : System} {history : History}, Delivers s history →
      (∀ q, q ≠ p → (s.proc q).pc = .outside) →
        (machine.watched observe {}).Meets StartsAlone (s, history) events := by
  induction events with
  | nil =>
    intro s history _ _
    trivial
  | cons event rest ih =>
    intro s history delivers others pair stepped
    obtain ⟨next, later⟩ := pair
    obtain ⟨moved, seen⟩ := Machine.watched_step.mp stepped
    have moved : s.step event = some next := moved
    constructor
    · rintro q n rfl other
      have mine : q = p := single q n List.mem_cons_self
      by_cases same : other = p
      · unfold System.step at moved
        rw [same, ← mine]
        cases pc : (s.proc q).pc with
        | outside => rfl
        | _ => simp only [pc, reduceCtorEq] at moved
      · exact others other same
    · rw [seen]
      refine ih (fun q n member => single q n (List.mem_cons_of_mem _ member))
        (delivers.step moved) ?_
      intro q different
      rcases step_cases moved with quiet | ⟨c, rfl, rfl⟩ | ⟨r, call, rfl, pc, rfl⟩
      · rcases quiet.outside q (others q different) with outside | ⟨n, rfl⟩
        · exact outside
        · exact absurd (single q n List.mem_cons_self) different
      · rw [(character_proc s c q).1]
        exact others q different
      · have apart : q ≠ r := by
          rintro rfl
          cases pc.symm.trans (others q different)
        have valid := delivers.calls r call (by rw [pc]; rfl)
        obtain ⟨_, _, _, iterates⟩ := iterate_iterates delivers.ok valid history
        rw [iterates.others q apart]
        exact others q different

/-- The indices keep their order over any run; a character leaves the committed bytes alone;
and the bytes that the readers take are the committed ones in order, each of which goes to one
call and is returned by it. -/
theorem console_input {events : List Event} {s : System} {history : History}
    (ran : (machine.watched observe {}).exec (machine.start, {}) events =
      some (s, history)) :
    (s.input.w - s.input.r ≤ s.input.e - s.input.r ∧
        s.input.e - s.input.r ≤ BitVec.ofNat 32 INPUT_BUF) ∧
      (∀ c, (s.input.consoleintr c).1.lines = s.input.lines.character c ∧
        ∃ committed, (s.input.consoleintr c).1.unread = s.input.unread ++ committed) ∧
      history.taken.map Prod.snd ++ s.input.unread = history.committed ∧
      (∀ p, history.takenBy p =
        (history.returnedTo p).flatMap Outcome.taken ++ (s.proc p).pc.got) ∧
      (∀ o ∈ history.returned, o.Ok (s.proc o.proc).killed) ∧
      ((machine.watched observe {}).Meets StartsAlone (machine.start, {}) events →
        ∃ p, (∀ q, q ≠ p → (s.proc q).pc = .outside) ∧
          history.returned.flatMap Outcome.taken ++ (s.proc p).pc.got ++
            s.input.unread = history.committed) := by
  have step (pair : System × History) (event : Event) (next : System × History)
      (stepped : (machine.watched observe {}).step pair event = some next) :
      pair.1.step event = some next.1 ∧ next.2 = observe pair.1 event pair.2 :=
    Machine.watched_step.mp stepped
  have kept (pair : System × History) (event : Event) (next : System × History)
      (holds : Delivers pair.1 pair.2)
      (stepped : (machine.watched observe {}).step pair event = some next) :
      Delivers next.1 next.2 := by
    obtain ⟨moved, seen⟩ := step pair event next stepped
    rw [seen]
    exact holds.step moved
  have keptAlone (pair : System × History) (event : Event) (next : System × History)
      (holds : Delivers pair.1 pair.2 ∧ Successive pair.1 pair.2)
      (alone : StartsAlone pair event)
      (stepped : (machine.watched observe {}).step pair event = some next) :
      Delivers next.1 next.2 ∧ Successive next.1 next.2 := by
    refine ⟨kept pair event next holds.1 stepped, ?_⟩
    obtain ⟨moved, seen⟩ := step pair event next stepped
    rw [seen]
    exact holds.2.step holds.1 alone moved
  have delivers : Delivers s history := Machine.exec_preserves kept Delivers.start ran
  refine ⟨⟨?_, ?_⟩, ?_, delivers.conserved, delivers.each, delivers.returned, ?_⟩
  · exact BitVec.le_def.mpr delivers.ok.ordered
  · exact BitVec.le_def.mpr delivers.ok.bounded
  · intro c
    obtain ⟨handled, lines⟩ := delivers.ok.consoleintr c
    exact ⟨lines, _, handled.unread.2.2⟩
  · intro meets
    have first : Successive machine.start {} := ⟨0, fun _ _ => rfl, rfl⟩
    have always := Machine.Meets.always keptAlone ⟨Delivers.start, first⟩ meets
    obtain ⟨_, p, others, taken⟩ := always.last ran
    refine ⟨p, others, ?_⟩
    rw [← taken]
    exact delivers.conserved

/-- A reader waits for a line in which one character is erased and that ends with ^D; its
second call takes the ^D. -/
def twoReads : List Event :=
  [.read 0 5, .run 0, .run 0, .interrupt, .character 104, .character 105, .character 8,
    .character 111, .character 4, .done, .run 0, .run 0, .run 0, .run 0, .run 0,
    .read 0 5, .run 0, .run 0]

set_option maxRecDepth 100000 in
theorem console_input_two_reads : ∃ s history,
    (machine.watched observe {}).exec (machine.start, {}) twoReads = some (s, history) ∧
      history.returned.map (fun o => (o.result, o.got)) = [(2, [104, 111]), (0, [])] ∧
      history.committed = [104, 111, 4] ∧
      (∃ p, history.returned.flatMap Outcome.taken ++ (s.proc p).pc.got ++
        s.input.unread = history.committed) ∧
      ∀ o ∈ history.returned, o.Ok (s.proc o.proc).killed := by
  have outcome : ((machine.watched observe {}).exec (machine.start, {}) twoReads).map
      (fun pair => (pair.2.returned.map (fun o => (o.result, o.got)), pair.2.committed)) =
        some ([(2, [104, 111]), (0, [])], [104, 111, 4]) := by decide +kernel
  obtain ⟨⟨s, history⟩, ran, same⟩ := Option.map_eq_some_iff.mp outcome
  obtain ⟨results, committed⟩ := Prod.mk.inj same
  have single (q : Nat) (n : BitVec 32) (member : Event.read q n ∈ twoReads) : q = 0 := by
    simp only [twoReads, List.mem_cons, reduceCtorEq, Event.read.injEq, List.not_mem_nil,
      or_false, false_or] at member
    rcases member with first | second
    · exact first.1
    · exact second.1
  obtain ⟨_, _, _, _, outcomes, successive⟩ := console_input ran
  obtain ⟨p, _, all⟩ :=
    successive (meets_of_single twoReads single Delivers.start fun _ _ => rfl)
  exact ⟨s, history, ran, results, committed, ⟨p, all⟩, outcomes⟩

end Xv6.Console
