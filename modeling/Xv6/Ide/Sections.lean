/-
What the sections of `ide.c` under `idelock` do with the requests.
-/

import Xv6.Ide.Requests

namespace Xv6.Ide

open Function Library

variable {nbuf : Nat}

/-! ### The sections -/

variable {s next : System nbuf} {b : Fin nbuf} {p : Nat}

theorem idestart_ok (ran : s.idestart (some b) = .ok next) :
    (s.buf b).blockno < FSSIZE ∧
      next = { s with device := .busy (System.command (s.buf b)) } := by
  unfold System.idestart at ran
  by_cases large : FSSIZE ≤ (s.buf b).blockno
  · simp only [if_pos large, reduceCtorEq] at ran
  · simp only [if_neg large] at ran
    refine ⟨Nat.lt_of_not_le large, ?_⟩
    cases device : s.device with
    | busy command => simp only [device, reduceCtorEq] at ran
    | _ =>
      simp only [device, Except.ok.injEq] at ran
      exact ran.symm

theorem System.setProc_self (s : System nbuf) (p : Nat) (proc : Proc nbuf) :
    (s.setProc p proc).proc p = proc := by
  simp only [System.setProc, update_self]

theorem System.setProc_other {q : Nat} {proc : Proc nbuf} (other : q ≠ p) :
    (s.setProc p proc).proc q = s.proc q := by
  simp only [System.setProc, update_of_ne other]

theorem await_dirty (dirty : (s.buf b).isClean = false) :
    s.await p b = s.setProc p { inside := some b, sleeping := true } := by
  unfold System.await
  rw [if_neg (by rw [dirty]; decide)]

/-- What `iderw` does before it sleeps. -/
theorem iderw_ok {havedisk1 : Bool} (ran : s.iderw havedisk1 p b = .ok next) :
    s.lock b = some p ∧ (s.buf b).isClean = false ∧
      ∃ longer, s.idequeue.append (nbuf + 1) b = some longer ∧
        ((longer.head = some b ∧ (s.buf b).blockno < FSSIZE ∧
            next = { s with
              idequeue := longer
              device := .busy (System.command (s.buf b))
              proc := update s.proc p { inside := some b, sleeping := true } }) ∨
          (longer.head ≠ some b ∧
            next = { s with
              idequeue := longer
              proc := update s.proc p { inside := some b, sleeping := true } })) := by
  unfold System.iderw at ran
  by_cases held : s.lock b = some p
  · rw [if_neg (not_not.mpr held)] at ran
    cases clean : (s.buf b).isClean with
    | true => simp only [clean, if_true, reduceCtorEq] at ran
    | false =>
      rw [if_neg (by rw [clean]; decide)] at ran
      by_cases missing : (s.buf b).dev ≠ 0 ∧ havedisk1 = false
      · simp only [if_pos missing, reduceCtorEq] at ran
      · rw [if_neg missing] at ran
        cases appended : s.idequeue.append (nbuf + 1) b with
        | none => simp only [appended, reduceCtorEq] at ran
        | some longer =>
          simp only [appended] at ran
          refine ⟨held, rfl, longer, rfl, ?_⟩
          by_cases first : longer.head = some b
          · rw [if_pos first] at ran
            cases starts : ({ s with idequeue := longer } : System nbuf).idestart
                (some b) with
            | error cause =>
              rw [starts] at ran
              cases ran
            | ok begun =>
              obtain ⟨small, same⟩ := idestart_ok starts
              rw [starts, same] at ran
              cases ran
              exact Or.inl ⟨first, small, await_dirty clean⟩
          · rw [if_neg first] at ran
            cases ran
            exact Or.inr ⟨first, await_dirty clean⟩
  · simp only [if_pos held, reduceCtorEq] at ran

/-- What `ideintr` does for the request at the head of the queue. -/
theorem ideintr_ok {rest : List (Fin nbuf)} {data : Block}
    (holds : s.idequeue.Holds (b :: rest)) (ran : s.ideintr data = .ok next) :
    (rest = [] ∧ next = s.complete b data) ∨
      ∃ second others, rest = second :: others ∧
        ((s.complete b data).buf second).blockno < FSSIZE ∧
        next = { s.complete b data with
          device := .busy (System.command ((s.complete b data).buf second)) } := by
  have first : s.idequeue.head = some b := holds.1
  have popped : (s.complete b data).idequeue.head = rest.head? := holds.pop.head
  unfold System.ideintr at ran
  simp only [first] at ran
  cases rest with
  | nil =>
    have none : (s.complete b data).idequeue.head = none := popped
    rw [if_pos none] at ran
    cases ran
    exact Or.inl ⟨rfl, rfl⟩
  | cons second others =>
    have some : (s.complete b data).idequeue.head = some second := popped
    rw [some, if_neg (by simp)] at ran
    obtain ⟨small, same⟩ := idestart_ok ran
    exact Or.inr ⟨second, others, rfl, small, same⟩

namespace Inv

variable {disks : Disks} {s next : System nbuf} {history : History nbuf}
  {queue : List (Fin nbuf)}

variable {havedisk1 : Bool}

theorem iderw (inv : Inv disks s history queue) {p : Nat} {b : Fin nbuf}
    (outside : (s.proc p).inside = none) (ran : s.iderw havedisk1 p b = .ok next) :
    Inv disks next (observe havedisk1 s (.iderw p b) history) (queue ++ [b]) := by
  obtain ⟨held, dirty, longer, appended, cases'⟩ := iderw_ok ran
  have fresh : b ∉ queue := inv.not_queued fun q locked => by
    rw [held] at locked
    cases locked
    exact outside
  obtain ⟨result, same, holds⟩ := inv.holds.append inv.nodup fresh inv.length_queue
  rw [appended] at same
  cases same
  have head : longer.head = (queue ++ [b]).head? := holds.head
  -- The two ways in which the section ends differ only in the device.
  have shape : next = { s with
      idequeue := longer
      device := next.device
      proc := update s.proc p { inside := some b, sleeping := true } } := by
    rcases cases' with ⟨_, _, rfl⟩ | ⟨_, rfl⟩ <;> rfl
  have idequeue : next.idequeue = longer := by rw [shape]
  have buf : next.buf = s.buf := by rw [shape]
  have lock : next.lock = s.lock := by rw [shape]
  have disk : next.disks = s.disks := by rw [shape]
  have request : next.request = s.request := by
    unfold System.request
    rw [buf, lock]
  have here : next.proc p = { inside := some b, sleeping := true } := by
    rw [shape]
    exact update_self _ _ _
  have other (q : Nat) (different : q ≠ p) : next.proc q = s.proc q := by
    rw [shape]
    exact update_of_ne different _ _
  have device : (queue = [] ∧ (s.buf b).blockno < FSSIZE ∧ s.device = .idle ∧
      next.device = .busy (System.command (s.buf b))) ∨
      (queue ≠ [] ∧ next.device = s.device) := by
    rcases cases' with ⟨first, small, rfl⟩ | ⟨first, rfl⟩
    · refine Or.inl ?_
      cases queue with
      | nil =>
        have drives := inv.drives
        generalize current : s.device = device at drives
        cases drives
        exact ⟨rfl, small, rfl, rfl⟩
      | cons front rest =>
        rw [head, List.cons_append, List.head?_cons, Option.some.injEq] at first
        exact absurd (first ▸ List.mem_cons_self) fresh
    · refine Or.inr ⟨?_, rfl⟩
      rintro rfl
      exact first head
  have finished : next.finished (queue ++ [b]) = s.finished queue := by
    unfold System.finished
    rcases device with ⟨rfl, _, idle, busy⟩ | ⟨some, same⟩
    · rw [idle, busy]
    · rw [same, List.take_append_of_le_length (List.length_pos_iff.mpr some)]
  have data : next.data = s.data := by
    unfold System.data
    rcases device with ⟨_, _, idle, busy⟩ | ⟨_, same⟩
    · rw [idle, busy]
    · rw [same]
  have observed : observe havedisk1 s (.iderw p b) history =
      { history with
        queued := history.queued ++ [s.request b]
        started := history.started ++
          if longer.head = some b then [s.request b] else [] } := by
    simp only [observe, ran, idequeue]
  rw [observed]
  constructor
  case holds =>
    rw [idequeue]
    exact holds
  case nodup =>
    refine inv.nodup.append (List.nodup_singleton b) ?_
    rw [List.disjoint_singleton]
    exact fresh
  case drives =>
    rcases device with ⟨rfl, small, _, busy⟩ | ⟨some, same⟩
    · rw [busy, ← buf]
      rw [← buf] at small
      exact .busy small
    · rw [same]
      have drives := inv.drives
      generalize s.device = current at drives
      cases drives with
      | idle => exact absurd rfl some
      | @busy front rest small =>
        rw [← buf] at small ⊢
        exact .busy small
      | done => exact .done
  case queued =>
    change history.queued ++ _ = _
    rw [inv.queued, request, List.map_append, List.append_assoc]
    rfl
  case started =>
    change history.started ++ _ = _
    rw [inv.started, request, head]
    cases queue with
    | nil =>
      have first : ([] ++ [b]).head? = some b := rfl
      rw [if_pos first, List.append_assoc]
      rfl
    | cons front rest =>
      have different : (front :: rest ++ [b]).head? ≠ some b := by
        intro same
        exact fresh (Option.some.inj same ▸ List.mem_cons_self)
      rw [if_neg different, List.append_nil]
      rfl
  case transferred =>
    rw [finished, request]
    exact inv.transferred
  case locked =>
    intro c member
    rw [lock]
    rcases List.mem_append.mp member with before | now
    · obtain ⟨q, locked, inside⟩ := inv.locked c before
      refine ⟨q, locked, ?_⟩
      have different : q ≠ p := by
        rintro rfl
        rw [outside] at inside
        cases inside
      rw [other q different]
      exact inside
    · rw [List.mem_singleton.mp now]
      refine ⟨p, held, ?_⟩
      rw [here]
  case pending =>
    intro c member
    rw [buf]
    rcases List.mem_append.mp member with before | now
    · exact inv.pending c before
    · rw [List.mem_singleton.mp now]
      exact dirty
  case inside =>
    intro q c found
    rw [lock, buf]
    by_cases same : q = p
    · rw [same, here] at found
      cases found
      rw [same]
      exact ⟨held, Or.inl (List.mem_append_right _ (List.mem_singleton_self b))⟩
    · rw [other q same] at found ⊢
      obtain ⟨locked, state⟩ := inv.inside q c found
      exact ⟨locked, state.imp_left (List.mem_append_left _)⟩
  case mine =>
    intro q
    have same : next.waiting (queue ++ [b]) q = s.waiting queue q := by
      unfold System.waiting
      by_cases mine : q = p
      · rw [mine, here, outside]
        exact if_pos (List.mem_append_right _ (List.mem_singleton_self b))
      · rw [other q mine]
        cases found : (s.proc q).inside with
        | none => rfl
        | some c =>
          have different : c ≠ b := by
            rintro rfl
            have locked := (inv.inside q c found).1
            rw [held] at locked
            exact mine (Option.some.inj locked).symm
          have iff : c ∈ queue ++ [b] ↔ c ∈ queue := by
            rw [List.mem_append, List.mem_singleton, or_iff_left different]
          simp only [iff, buf]
    rw [same]
    exact inv.mine q
  case clean => exact inv.clean
  case replay =>
    intro devs
    rw [finished, data, disk, buf]
    exact inv.replay fun request member => devs request (List.mem_append_left _ member)

/-- A process goes on after `sleep`. -/
theorem run (inv : Inv disks s history queue) {p : Nat} {b : Fin nbuf}
    (found : (s.proc p).inside = some b) :
    Inv disks (s.await p b) (observe havedisk1 s (.run p) history) queue := by
  obtain ⟨held, state⟩ := inv.inside p b found
  cases clean : (s.buf b).isClean with
  | false =>
    have member : b ∈ queue := by
      rcases state with member | ⟨done, _⟩
      · exact member
      · rw [clean] at done
        cases done
    have observed : observe havedisk1 s (.run p) history = history := by
      simp only [observe, found, clean, Bool.false_eq_true, if_false]
    rw [observed, await_dirty clean]
    refine inv.outside_step rfl rfl rfl ?_ ?_ <;> intro q <;> by_cases same : q = p
    · rw [same, System.setProc_self, found]
    · rw [System.setProc_other same]
    · intro c inside
      rw [same, found] at inside
      cases inside
      exact ⟨rfl, rfl, fun absent => absurd member absent⟩
    · intro c inside
      rw [System.setProc_other same]
      exact ⟨rfl, rfl, fun _ => id⟩
  | true =>
    have absent : b ∉ queue := by
      intro member
      rw [inv.pending b member] at clean
      cases clean
    have observed : observe havedisk1 s (.run p) history =
        { history with returned := history.returned ++ [(p, b, s.buf b)] } := by
      simp only [observe, found, clean, if_true]
    have returns : s.await p b =
        s.setProc p { s.proc p with inside := none } := if_pos clean
    have here : ((s.await p b).proc p).inside = none := by
      rw [returns, System.setProc_self]
    have other (q : Nat) (different : q ≠ p) : (s.await p b).proc q = s.proc q := by
      rw [returns, System.setProc_other different]
    rw [observed]
    refine inv.frame _ ?_ ?_ ?_ ?_ ?_ ?_ ?_ ?_
    · rw [returns]
      rfl
    · rw [returns]
      rfl
    · rw [returns]
      rfl
    · intro c _
      rw [returns]
      exact ⟨rfl, rfl⟩
    · intro q c member inside
      have different : q ≠ p := by
        rintro rfl
        rw [found] at inside
        cases inside
        exact absent member
      rw [other q different]
      exact inside
    · intro q c inside
      by_cases same : q = p
      · rw [same, here] at inside
        cases inside
      · rw [other q same] at inside ⊢
        rw [returns]
        exact ⟨inside, rfl, rfl, fun _ => id⟩
    · intro q
      rw [inv.mine, List.filter_append, List.append_assoc]
      unfold History.returnedBy System.waiting
      by_cases same : q = p
      · rw [same, here, found, List.filter_cons_of_pos (by simp)]
        simp only [if_neg absent]
        rfl
      · rw [other q same, List.filter_cons_of_neg (by simpa using Ne.symm same), returns]
        rfl
    · intro entry member
      rcases List.mem_append.mp member with before | now
      · exact inv.clean entry before
      · rw [List.mem_singleton.mp now]
        exact clean

/-- The device finishes its command. -/
theorem finish (inv : Inv disks s history queue) {command : Command}
    (busy : s.device = .busy command) :
    Inv disks { s with
        disks := (command.finish s.disks).1
        device := .done (command.finish s.disks).2 }
      (observe havedisk1 s .finish history) queue := by
  have drives := inv.drives
  rw [busy] at drives
  cases drives with
  | @busy b rest small =>
    have head : s.idequeue.head = some b := inv.holds.1
    have idle : s.finished (b :: rest) = [] := by
      unfold System.finished
      rw [busy]
    have observed : observe havedisk1 s .finish history =
        { history with transferred := history.transferred ++ [s.request b] } := by
      simp only [observe, head, Option.toList_some, List.map_singleton]
    have transferred := inv.transferred
    have replay := inv.replay
    rw [idle] at transferred replay
    rw [observed]
    refine ⟨inv.holds, inv.nodup, .done, inv.queued, inv.started, ?_, inv.locked, inv.pending,
      inv.inside, inv.mine, inv.clean, ?_⟩
    · change history.transferred ++ _ = _
      rw [transferred, List.map_nil, List.append_nil]
      rfl
    · intro devs
      obtain ⟨p, held, _⟩ := inv.locked b List.mem_cons_self
      have dev : (s.buf b).dev = 1 := by
        apply devs (s.request b)
        change _ ∈ history.queued
        rw [inv.queued]
        exact List.mem_append_right _ List.mem_cons_self
      have call : (s.request b).call = (true, s.buf b) := by
        unfold Request.call System.request
        rw [held]
        rfl
      have one := memide_iderw (inv.pending b List.mem_cons_self) dev small s.disks
      have all := memide_run_concat _ true (s.buf b) (replay devs) one
      change Memide.run (disks 1) ((history.transferred ++ [s.request b]).map _) = _
      rw [List.map_append, List.map_singleton, call, all, List.map_nil, List.append_nil]
      rfl

/-- `ideintr` completes the request at the head of the queue. -/
theorem interrupt (inv : Inv disks s history queue) {data : Block}
    (done : s.device = .done data) (ran : s.ideintr data = .ok next) :
    Inv disks next (observe havedisk1 s .interrupt history) queue.tail := by
  have drives := inv.drives
  rw [done] at drives
  cases drives with
  | @done b rest =>
    have holds := inv.holds
    have head : s.idequeue.head = some b := holds.1
    obtain ⟨absent, nodup⟩ := List.nodup_cons.mp inv.nodup
    obtain ⟨p, held, inside⟩ := inv.locked b List.mem_cons_self
    have sections := ideintr_ok holds ran
    -- The next request is started or not, which only changes the device.
    have shape : next = { s.complete b data with device := next.device } := by
      rcases sections with ⟨_, rfl⟩ | ⟨_, _, _, _, rfl⟩ <;> rfl
    have idle : next.finished rest = [] := by
      unfold System.finished
      rcases sections with ⟨_, rfl⟩ | ⟨_, _, _, _, rfl⟩ <;> rfl
    have idequeue : next.idequeue = s.idequeue.pop b := by
      rw [shape]
      rfl
    have lock : next.lock = s.lock := by
      rw [shape]
      rfl
    have disk : next.disks = s.disks := by
      rw [shape]
      rfl
    have here : next.buf b = (s.buf b).complete data := by
      rw [shape]
      exact update_self _ _ _
    have other (c : Fin nbuf) (different : c ≠ b) : next.buf c = s.buf c := by
      rw [shape]
      exact update_of_ne different _ _
    have procs (q : Nat) : next.proc q =
        if (s.proc q).inside = some b then { s.proc q with sleeping := false }
        else s.proc q := by
      rw [shape]
      rfl
    have where' (q : Nat) : (next.proc q).inside = (s.proc q).inside := by
      rw [procs]
      split <;> rfl
    have apart {c : Fin nbuf} (member : c ∈ rest) : c ≠ b := by
      rintro rfl
      exact absent member
    have request {part : List (Fin nbuf)} (sub : ∀ c ∈ part, c ∈ rest) :
        part.map next.request = part.map s.request := by
      apply List.map_congr_left
      intro c member
      unfold System.request
      rw [lock, other c (apart (sub c member))]
    have popped : next.idequeue.head = rest.head? := by
      rw [idequeue]
      exact holds.pop.head
    have observed : observe havedisk1 s .interrupt history =
        { history with
          completed := history.completed ++ [⟨s.request b, next.buf b⟩]
          started := history.started ++ (rest.take 1).map next.request } := by
      have first : rest.head?.toList = rest.take 1 := by cases rest <;> rfl
      simp only [observe, done, ran, head, popped, Option.toList_some, List.map_singleton, first]
    have finished : s.finished (b :: rest) = [b] := by
      unfold System.finished
      rw [done]
      rfl
    rw [observed, List.tail_cons]
    constructor
    case holds =>
      rw [idequeue]
      exact holds.pop
    case nodup => exact nodup
    case drives =>
      rcases sections with ⟨rfl, rfl⟩ | ⟨second, others, rfl, small, rfl⟩
      · exact .idle
      · exact Drives.busy small
    case queued =>
      change history.queued = _
      rw [inv.queued, List.map_append, List.append_assoc, request fun _ => id]
      rfl
    case started =>
      change history.started ++ _ = _
      rw [inv.started, List.map_append]
      rfl
    case transferred =>
      change history.transferred = _
      rw [inv.transferred, finished, idle, List.map_append, List.map_nil, List.append_nil]
      rfl
    case locked =>
      intro c member
      obtain ⟨q, locked, inside⟩ := inv.locked c (List.mem_cons_of_mem _ member)
      rw [lock]
      refine ⟨q, locked, ?_⟩
      rw [where']
      exact inside
    case pending =>
      intro c member
      rw [other c (apart member)]
      exact inv.pending c (List.mem_cons_of_mem _ member)
    case inside =>
      intro q c found
      rw [where'] at found
      obtain ⟨locked, state⟩ := inv.inside q c found
      rw [lock]
      refine ⟨locked, ?_⟩
      by_cases same : c = b
      · rw [same] at found
        rw [same, here, procs, if_pos found]
        exact Or.inr ⟨rfl, rfl⟩
      · have different : (s.proc q).inside ≠ some b := by
          rw [found]
          exact fun equal => same (Option.some.inj equal)
        rw [other c same, procs, if_neg different]
        exact state.imp_left fun member => (List.mem_cons.mp member).resolve_left same
    case mine =>
      intro q
      have before := inv.mine q
      unfold History.completedBy System.waiting at before ⊢
      change ((history.completed ++ [_]).filter _).map _ = history.returnedBy q ++ _
      rw [List.filter_append, List.map_append, before, where', List.append_assoc]
      congr 1
      by_cases mine : q = p
      · have own : decide (s.lock b = some q) = true := by
          rw [mine]
          exact decide_eq_true held
        rw [mine, inside, List.filter_cons_of_pos (by rw [← mine]; exact own)]
        simp only [List.mem_cons_self, if_true, if_neg absent]
        rfl
      · have foreign : ([⟨s.request b, next.buf b⟩] : List (Completion nbuf)).filter
            (fun c => c.request.holder = some q) = [] := by
          apply List.filter_eq_nil_iff.mpr
          intro c member
          rw [List.mem_singleton.mp member, decide_eq_true_iff]
          change s.lock b ≠ some q
          rw [held]
          exact fun same => mine (Option.some.inj same).symm
        rw [foreign]
        cases found : (s.proc q).inside with
        | none => rfl
        | some c =>
          have different : c ≠ b := by
            rintro rfl
            have locked := (inv.inside q c found).1
            rw [held] at locked
            exact mine (Option.some.inj locked).symm
          have iff : c ∈ b :: rest ↔ c ∈ rest := by
            rw [List.mem_cons, or_iff_right different]
          simp only [iff, other c different]
          exact List.append_nil _
    case clean => exact inv.clean
    case replay =>
      intro devs
      have replay := inv.replay devs
      have loaded : s.data = data := by
        unfold System.data
        rw [done]
      rw [finished, loaded] at replay
      rw [idle, List.map_nil, List.append_nil, disk, List.map_append, List.map_singleton, here]
      exact replay

theorem panicked (inv : Inv disks s history queue) (cause : Panic) :
    Inv disks { s with panic := some cause } history queue :=
  inv.outside_step rfl rfl rfl (fun _ => rfl) fun _ _ _ => ⟨rfl, rfl, fun _ => id⟩

/-- A step keeps the invariant. -/
theorem step (inv : Inv disks s history queue) {event : Event nbuf}
    (stepped : s.step havedisk1 event = some next) :
    ∃ later, Inv disks next (observe havedisk1 s event history) later := by
  unfold System.step at stepped
  cases running : s.panic with
  | some cause => simp only [running, reduceCtorEq] at stepped
  | none =>
    simp only [running] at stepped
    cases event with
    | acquiresleep p b =>
      simp only [System.move, Option.ite_none_right_eq_some, Option.some.injEq] at stepped
      obtain ⟨⟨free, _⟩, rfl⟩ := stepped
      refine ⟨queue, inv.outside_step rfl rfl rfl (fun _ => rfl) ?_⟩
      intro q c found
      refine ⟨update_of_ne ?_ _ _, rfl, fun _ => id⟩
      rintro rfl
      rw [(inv.inside q c found).1] at free
      cases free
    | releasesleep p b =>
      simp only [System.move, Option.ite_none_right_eq_some, Option.some.injEq] at stepped
      obtain ⟨⟨held, outside⟩, rfl⟩ := stepped
      refine ⟨queue, inv.outside_step rfl rfl rfl (fun _ => rfl) ?_⟩
      intro q c found
      refine ⟨update_of_ne ?_ _ _, rfl, fun _ => id⟩
      rintro rfl
      rw [(inv.inside q c found).1] at held
      cases held
      rw [outside] at found
      cases found
    | set b buf =>
      simp only [System.move, Option.ite_none_right_eq_some, Option.some.injEq] at stepped
      obtain ⟨free, rfl⟩ := stepped
      refine ⟨queue, inv.outside_step rfl rfl rfl (fun _ => rfl) ?_⟩
      intro q c found
      refine ⟨rfl, update_of_ne ?_ _ _, fun _ => id⟩
      rintro rfl
      have locked := (inv.inside q c found).1
      simp only [System.isFree, locked, found, Option.isNone_some, Bool.false_eq_true] at free
    | iderw p b =>
      simp only [System.move, Option.ite_none_right_eq_some] at stepped
      obtain ⟨outside, after⟩ := stepped
      cases ran : s.iderw havedisk1 p b with
      | ok result =>
        rw [ran] at after
        cases after
        exact ⟨queue ++ [b], inv.iderw outside ran⟩
      | error stop =>
        rw [ran] at after
        cases stop with
        | spins => cases after
        | panics cause =>
          cases after
          simp only [observe, ran]
          exact ⟨queue, inv.panicked cause⟩
    | run p =>
      simp only [System.move] at stepped
      cases found : (s.proc p).inside with
      | none => simp only [found, reduceCtorEq] at stepped
      | some b =>
        simp only [found, Option.ite_none_left_eq_some, Option.some.injEq] at stepped
        rw [← stepped.2]
        exact ⟨queue, inv.run found⟩
    | kill p =>
      simp only [System.move, Option.some.injEq] at stepped
      rw [← stepped]
      refine ⟨queue, inv.outside_step rfl rfl rfl ?_ ?_⟩ <;> intro q <;> by_cases same : q = p
      · rw [same, System.setProc_self]
      · rw [System.setProc_other same]
      · rw [same, System.setProc_self]
        exact fun _ _ => ⟨rfl, rfl, fun _ _ => rfl⟩
      · rw [System.setProc_other same]
        exact fun _ _ => ⟨rfl, rfl, fun _ => id⟩
    | finish =>
      simp only [System.move] at stepped
      cases device : s.device with
      | busy command =>
        simp only [device, Option.some.injEq] at stepped
        rw [← stepped]
        exact ⟨queue, inv.finish device⟩
      | _ => simp only [device, reduceCtorEq] at stepped
    | interrupt =>
      simp only [System.move] at stepped
      cases device : s.device with
      | done data =>
        simp only [device] at stepped
        cases ran : s.ideintr data with
        | ok result =>
          rw [ran] at stepped
          cases stepped
          exact ⟨queue.tail, inv.interrupt device ran⟩
        | error stop =>
          rw [ran] at stepped
          cases stop with
          | spins => cases stepped
          | panics cause =>
            cases stepped
            have observed : observe havedisk1 s .interrupt history = history := by
              simp only [observe, device, ran]
            rw [observed]
            exact ⟨queue, inv.panicked cause⟩
      | _ => simp only [device, reduceCtorEq] at stepped

end Inv

end Xv6.Ide
