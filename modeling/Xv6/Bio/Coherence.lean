/-
The cache and the disk together are a map from block numbers to contents.

An observer keeps this map: it starts as the disk and changes only where the holder of a
buffer changes its data.  A block that the disk has not got in its current contents is
pinned, by `B_DIRTY` or by the holder that still has to call `log_write` or `bwrite`.
-/

import Xv6.Bio.Steps

namespace Xv6.Bio

open Function Library

/-- The abstract map under the step of a use. -/
def observe (cache : Cache) (event : Event) (contents : Nat → Block) : Nat → Block :=
  match event with
  | .modify u data =>
    match cache.use u with
    | .holding _ blockno _ => update contents blockno data
    | _ => contents
  | _ => contents

/-- The buffer that a use has got from `bread`. -/
def Use.ready : Use → Option (Fin NBUF)
  | .holding b _ _ | .writing b _ => some b
  | _ => none

theorem Use.locked_of_ready {use : Use} {b : Fin NBUF} (ready : use.ready = some b) :
    use.locked = some b := by
  cases use with
  | holding c blockno changed => exact ready
  | writing c blockno => exact ready
  | _ => cases ready

/-- The buffer may be newer than the disk. -/
def Pending (cache : Cache) (b : Fin NBUF) : Prop :=
  (cache.buf b).dirty = true ∨ ∃ u blockno, cache.use u = .holding b blockno true

structure Coherent (cache : Cache) (contents : Nat → Block) : Prop where
  pinned : ∀ b, (cache.buf b).dirty = true → (cache.buf b).valid = true
  ready : ∀ u b, (cache.use u).ready = some b → (cache.buf b).valid = true
  written : ∀ u b blockno, cache.use u = .writing b blockno → (cache.buf b).dirty = true
  current : ∀ b, (cache.buf b).dev = ROOTDEV → (cache.buf b).valid = true →
    (cache.buf b).data = contents (cache.buf b).blockno
  stored : ∀ blockno, cache.disk blockno = contents blockno ∨
    ∃ b, (cache.buf b).dev = ROOTDEV ∧ (cache.buf b).blockno = blockno ∧ Pending cache b

section Coherent

variable {cache next : Cache} {contents after : Nat → Block} {u blockno : Nat}
  {b : Fin NBUF} {use : Use}

theorem boot_coherent (disk : Nat → Block) : Coherent (machine disk).start disk where
  pinned := fun b dirty => by cases dirty
  ready := fun u b ready => by cases ready
  written := fun u b blockno writing => by cases writing
  current := fun b dev => by cases dev
  stored := fun blockno => Or.inl rfl

theorem Coherent.stored_here (coherent : Coherent cache contents) (shape : Shape cache)
    (dev : (cache.buf b).dev = ROOTDEV) :
    cache.disk (cache.buf b).blockno = contents (cache.buf b).blockno ∨ Pending cache b := by
  rcases coherent.stored (cache.buf b).blockno with same | ⟨c, devC, number, pending⟩
  · exact Or.inl same
  · rw [shape.unique c b devC dev number] at pending
    exact Or.inr pending

/-- The rule for a step of a use on its own buffer: only the buffer's own block has to be
looked at. -/
theorem Coherent.change (coherent : Coherent cache contents) (shape : Shape cache)
    (touches : Touches cache u b use next) (mine : (cache.use u).target = some b)
    (disk : ∀ n, n ≠ (cache.buf b).blockno → next.disk n = cache.disk n)
    (elsewhere : ∀ n, n ≠ (cache.buf b).blockno → after n = contents n)
    (flags : (cache.use u).locked = some b ∨
      ((next.buf b).valid = (cache.buf b).valid ∧ (next.buf b).dirty = (cache.buf b).dirty))
    (pinned : (next.buf b).dirty = true → (next.buf b).valid = true)
    (ready : use.ready = some b → (next.buf b).valid = true)
    (written : ∀ n, use = .writing b n → (next.buf b).dirty = true)
    (current : (next.buf b).valid = true → (next.buf b).data = after (cache.buf b).blockno)
    (stored : next.disk (cache.buf b).blockno = after (cache.buf b).blockno ∨
      Pending next b) : Coherent next after := by
  have target : use.target = some b := by
    rw [← mine, Use.target, Use.target, touches.block]
  have root := shape.dev_of_target mine
  -- A process that works with `b` is `u`, or finds the flags of `b` as they were.
  have rival {v : Nat} (other : v ≠ u) (locked : (cache.use v).locked = some b) :
      (next.buf b).valid = (cache.buf b).valid ∧
        (next.buf b).dirty = (cache.buf b).dirty := by
    rcases flags with held | same
    · exact absurd ((shape.owned b).unique locked held) other
    · exact same
  constructor
  · intro c dirty
    by_cases same : c = b
    · rw [same] at dirty ⊢
      exact pinned dirty
    · rw [touches.others c same] at dirty ⊢
      exact coherent.pinned c dirty
  · intro v c isReady
    by_cases equal : v = u
    · rw [equal, touches.use_self] at isReady
      have here : c = b := by
        rw [Use.target_of_locked (Use.locked_of_ready isReady)] at target
        exact Option.some.inj target
      rw [here] at isReady ⊢
      exact ready isReady
    · rw [touches.use_other equal] at isReady
      have valid := coherent.ready v c isReady
      by_cases same : c = b
      · rw [same] at isReady valid ⊢
        rw [(rival equal (Use.locked_of_ready isReady)).1]
        exact valid
      · rw [touches.others c same]
        exact valid
  · intro v c n writing
    by_cases equal : v = u
    · rw [equal, touches.use_self] at writing
      have here : c = b := by
        rw [writing] at target
        exact Option.some.inj target
      rw [here] at writing ⊢
      exact written n writing
    · rw [touches.use_other equal] at writing
      have dirty := coherent.written v c n writing
      by_cases same : c = b
      · rw [same] at writing dirty ⊢
        rw [(rival equal (congrArg Use.locked writing)).2]
        exact dirty
      · rw [touches.others c same]
        exact dirty
  · intro c dev valid
    by_cases same : c = b
    · rw [same] at valid ⊢
      rw [touches.blockno]
      exact current valid
    · rw [touches.others c same] at dev valid ⊢
      have different : (cache.buf c).blockno ≠ (cache.buf b).blockno :=
        fun number => same (shape.unique c b dev root number)
      rw [elsewhere _ different]
      exact coherent.current c dev valid
  · intro n
    by_cases here : n = (cache.buf b).blockno
    · rw [here]
      rcases stored with same | pending
      · exact Or.inl same
      · exact Or.inr ⟨b, touches.dev.trans root, touches.blockno, pending⟩
    · rw [disk n here, elsewhere n here]
      rcases coherent.stored n with same | ⟨c, dev, number, pending⟩
      · exact Or.inl same
      · have different : c ≠ b := fun equal => here (equal ▸ number.symm)
        refine Or.inr ⟨c, ?_, ?_, ?_⟩
        · rw [touches.others c different, dev]
        · rw [touches.others c different, number]
        · rcases pending with dirty | ⟨v, m, holding⟩
          · rw [← touches.others c different] at dirty
            exact Or.inl dirty
          · have other : v ≠ u := by
              intro equal
              rw [← equal, holding] at mine
              exact different (Option.some.inj mine)
            rw [← touches.use_other other] at holding
            exact Or.inr ⟨v, m, holding⟩

/-- A step of a use without a sleep lock that changes no data and no flags. -/
theorem Coherent.keep (coherent : Coherent cache contents)
    (uses : next.use = update cache.use u use) (disk : next.disk = cache.disk)
    (same : ∀ c, ((next.buf c).valid = (cache.buf c).valid ∧
        (next.buf c).dirty = (cache.buf c).dirty) ∧
      ((next.buf c).dev = (cache.buf c).dev ∧
        (next.buf c).blockno = (cache.buf c).blockno) ∧
      (next.buf c).data = (cache.buf c).data)
    (before : (cache.use u).locked = none) (afterwards : use.locked = none) :
    Coherent next contents := by
  have own : next.use u = use := by rw [uses, update_self]
  have away {v : Nat} (other : v ≠ u) : next.use v = cache.use v := by
    rw [uses, update_of_ne other]
  have older {v : Nat} {c : Fin NBUF} (locked : (next.use v).locked = some c) :
      next.use v = cache.use v := by
    apply away
    intro equal
    rw [equal, own, afterwards] at locked
    cases locked
  have newer {v : Nat} {c : Fin NBUF} (locked : (cache.use v).locked = some c) :
      next.use v = cache.use v := by
    apply away
    intro equal
    rw [equal, before] at locked
    cases locked
  constructor
  · intro c
    rw [(same c).1.1, (same c).1.2]
    exact coherent.pinned c
  · intro v c ready
    rw [older (Use.locked_of_ready ready)] at ready
    rw [(same c).1.1]
    exact coherent.ready v c ready
  · intro v c n writing
    rw [older (congrArg Use.locked writing)] at writing
    rw [(same c).1.2]
    exact coherent.written v c n writing
  · intro c
    rw [(same c).1.1, (same c).2.1.1, (same c).2.1.2, (same c).2.2]
    exact coherent.current c
  · intro n
    rw [disk]
    rcases coherent.stored n with stored | ⟨c, dev, number, pending⟩
    · exact Or.inl stored
    · refine Or.inr ⟨c, (same c).2.1.1.trans dev, (same c).2.1.2.trans number, ?_⟩
      rcases pending with dirty | ⟨v, m, holding⟩
      · exact Or.inl ((same c).1.2.trans dirty)
      · exact Or.inr ⟨v, m, (newer (congrArg Use.locked holding)).trans holding⟩

/-- Recycling loses nothing: an unused clean buffer is not pending. -/
theorem Coherent.recycles (coherent : Coherent cache contents) (shape : Shape cache)
    (idle : cache.use u = .idle) (free : (cache.buf b).refcnt = 0)
    (clean : (cache.buf b).dirty = false) :
    Coherent ((cache.recycle b ROOTDEV blockno).setUse u (.locking b blockno)) contents := by
  have self : ((cache.recycle b ROOTDEV blockno).setUse u (.locking b blockno)).buf b =
      { cache.buf b with
        dev := ROOTDEV, blockno := blockno, valid := false, dirty := false, refcnt := 1 } :=
    cache.setBuf_self b _
  have apart {c : Fin NBUF} (other : c ≠ b) :
      ((cache.recycle b ROOTDEV blockno).setUse u (.locking b blockno)).buf c =
        cache.buf c := cache.setBuf_other other _
  have own : ((cache.recycle b ROOTDEV blockno).setUse u (.locking b blockno)).use u =
      .locking b blockno := update_self ..
  have away {v : Nat} (other : v ≠ u) :
      ((cache.recycle b ROOTDEV blockno).setUse u (.locking b blockno)).use v =
        cache.use v := update_of_ne other ..
  -- No use refers to the recycled buffer.
  have unused {v : Nat} {c : Fin NBUF} (target : (cache.use v).target = some c) :
      c ≠ b := by
    intro same
    have positive := shape.refcnt_pos (same ▸ target)
    omega
  have older {v : Nat} {c : Fin NBUF}
      (locked : (((cache.recycle b ROOTDEV blockno).setUse u
        (.locking b blockno)).use v).locked = some c) :
      ((cache.recycle b ROOTDEV blockno).setUse u (.locking b blockno)).use v =
        cache.use v := by
    apply away
    intro equal
    rw [equal, own] at locked
    cases locked
  constructor
  · intro c dirty
    by_cases same : c = b
    · rw [same, self] at dirty
      cases dirty
    · rw [apart same] at dirty ⊢
      exact coherent.pinned c dirty
  · intro v c ready
    rw [older (Use.locked_of_ready ready)] at ready
    rw [apart (unused (Use.target_of_locked (Use.locked_of_ready ready)))]
    exact coherent.ready v c ready
  · intro v c n writing
    rw [older (congrArg Use.locked writing)] at writing
    rw [apart (unused (congrArg Use.target writing))]
    exact coherent.written v c n writing
  · intro c dev valid
    by_cases same : c = b
    · rw [same, self] at valid
      cases valid
    · rw [apart same] at dev valid ⊢
      exact coherent.current c dev valid
  · intro n
    rcases coherent.stored n with stored | ⟨c, dev, number, pending⟩
    · exact Or.inl stored
    · have different : c ≠ b := by
        intro same
        rcases pending with dirty | ⟨v, m, holding⟩
        · rw [same, clean] at dirty
          cases dirty
        · exact unused (congrArg Use.target holding) same
      refine Or.inr ⟨c, ?_, ?_, ?_⟩
      · rw [apart different, dev]
      · rw [apart different, number]
      · rcases pending with dirty | ⟨v, m, holding⟩
        · exact Or.inl (by rw [apart different, dirty])
        · have other : v ≠ u := by
            intro equal
            rw [equal, idle] at holding
            cases holding
          exact Or.inr ⟨v, m, (away other).trans holding⟩

/-- The completion of a disk request: the buffer and the disk then agree. -/
theorem Coherent.ideintr (coherent : Coherent cache contents) (shape : Shape cache)
    (locked : (cache.use u).locked = some b) (block : (cache.use u).block = some (b, blockno))
    (outside : ∀ changed, cache.use u ≠ .holding b blockno changed) :
    Coherent ((cache.ideintr b).setUse u (.holding b blockno false)) contents := by
  have target := Use.target_of_locked locked
  have root := shape.dev_of_target target
  have touches : Touches cache u b (.holding b blockno false)
      ((cache.ideintr b).setUse u (.holding b blockno false)) :=
    Touches.ideintr block.symm
  cases dirty : (cache.buf b).dirty with
  | true =>
    have current := coherent.current b root (coherent.pinned b dirty)
    have written : cache.ideintr b =
        { cache.setBuf b { cache.buf b with valid := true, dirty := false } with
          disk := update cache.disk (cache.buf b).blockno (cache.buf b).data } :=
      if_pos dirty
    rw [written] at touches ⊢
    apply coherent.change shape touches target
    · intro n other
      exact update_of_ne other ..
    · exact fun _ _ => rfl
    · exact Or.inl locked
    · exact fun _ => congrArg Buf.valid (cache.setBuf_self b _)
    · exact fun _ => congrArg Buf.valid (cache.setBuf_self b _)
    · intro n writing
      cases writing
    · intro _
      exact (congrArg Buf.data (cache.setBuf_self b _)).trans current
    · exact Or.inl ((update_self ..).trans current)
  | false =>
    have loaded : cache.ideintr b = cache.setBuf b { cache.buf b with
        valid := true, data := cache.disk (cache.buf b).blockno } :=
      if_neg (Bool.eq_false_iff.mp dirty)
    have same : cache.disk (cache.buf b).blockno = contents (cache.buf b).blockno := by
      rcases coherent.stored_here shape root with same | pending | ⟨v, n, holding⟩
      · exact same
      · rw [dirty] at pending
        cases pending
      · -- The holder of the lock is the use whose request this is.
        have equal := (shape.owned b).unique (congrArg Use.locked holding) locked
        rw [equal] at holding
        rw [holding] at block
        cases block
        exact absurd holding (outside true)
    rw [loaded] at touches ⊢
    apply coherent.change shape touches target
    · exact fun _ _ => rfl
    · exact fun _ _ => rfl
    · exact Or.inl locked
    · exact fun _ => congrArg Buf.valid (cache.setBuf_self b _)
    · exact fun _ => congrArg Buf.valid (cache.setBuf_self b _)
    · intro n writing
      cases writing
    · intro _
      exact (congrArg Buf.data (cache.setBuf_self b _)).trans same
    · exact Or.inl same

theorem Coherent.locks (coherent : Coherent cache contents) (shape : Shape cache)
    (point : cache.use u = .locking b blockno) :
    Coherent ((cache.setBuf b { cache.buf b with lock := some u }).setUse u
      (if (cache.buf b).valid then .holding b blockno false else .loading b blockno))
      contents := by
  have target : (cache.use u).target = some b := congrArg Use.target point
  have root := shape.dev_of_target target
  have buf := cache.setBuf_self b { cache.buf b with lock := some u }
  have touches : Touches cache u b
      (if (cache.buf b).valid then .holding b blockno false else .loading b blockno)
      ((cache.setBuf b { cache.buf b with lock := some u }).setUse u
        (if (cache.buf b).valid then .holding b blockno false else .loading b blockno)) := by
    refine Touches.of_setBuf _ rfl rfl rfl ?_
    rw [point]
    split <;> rfl
  apply coherent.change shape touches target
  · exact fun _ _ => rfl
  · exact fun _ _ => rfl
  · rw [Cache.setUse_buf, buf]
    exact Or.inr ⟨rfl, rfl⟩
  · rw [Cache.setUse_buf, buf]
    exact coherent.pinned b
  · intro ready
    rw [Cache.setUse_buf, buf]
    split at ready
    · assumption
    · cases ready
  · intro n writing
    split at writing <;> cases writing
  · rw [Cache.setUse_buf, buf]
    exact coherent.current b root
  · rcases coherent.stored_here shape root with same | dirty | ⟨v, n, holding⟩
    · exact Or.inl same
    · refine Or.inr (Or.inl ?_)
      rw [Cache.setUse_buf, buf]
      exact dirty
    · have other : v ≠ u := by
        intro equal
        rw [equal, point] at holding
        cases holding
      exact Or.inr (Or.inr ⟨v, n, (touches.use_other other).trans holding⟩)

/-- The holder changes its buffer and has to log or write it. -/
theorem Coherent.modifies (coherent : Coherent cache contents) (shape : Shape cache)
    {changed : Bool} (data : Block) (point : cache.use u = .holding b blockno changed) :
    Coherent ((cache.setBuf b { cache.buf b with data := data }).setUse u
      (.holding b blockno true)) (update contents blockno data) := by
  have target : (cache.use u).target = some b := congrArg Use.target point
  have number := (shape.named u b blockno (congrArg Use.block point)).2
  have valid := coherent.ready u b (congrArg Use.ready point)
  have buf := cache.setBuf_self b { cache.buf b with data := data }
  have touches : Touches cache u b (.holding b blockno true)
      ((cache.setBuf b { cache.buf b with data := data }).setUse u
        (.holding b blockno true)) :=
    Touches.of_setBuf _ rfl rfl rfl (congrArg Use.block point).symm
  apply coherent.change shape touches target
  · exact fun _ _ => rfl
  · intro n other
    rw [number] at other
    exact update_of_ne other ..
  · exact Or.inl (congrArg Use.locked point)
  · rw [Cache.setUse_buf, buf]
    exact fun _ => valid
  · rw [Cache.setUse_buf, buf]
    exact fun _ => valid
  · intro n writing
    cases writing
  · intro _
    rw [Cache.setUse_buf, buf, number, update_self]
  · exact Or.inr (Or.inr ⟨u, blockno, touches.use_self⟩)

/-- `log_write` and the first half of `bwrite`: the holder marks its buffer. -/
theorem Coherent.marks (coherent : Coherent cache contents) (shape : Shape cache)
    {changed : Bool} (point : cache.use u = .holding b blockno changed)
    (block : use.block = some (b, blockno)) :
    Coherent ((cache.setBuf b { cache.buf b with dirty := true }).setUse u use)
      contents := by
  have target : (cache.use u).target = some b := congrArg Use.target point
  have root := shape.dev_of_target target
  have valid := coherent.ready u b (congrArg Use.ready point)
  have buf := cache.setBuf_self b { cache.buf b with dirty := true }
  have touches : Touches cache u b use
      ((cache.setBuf b { cache.buf b with dirty := true }).setUse u use) :=
    Touches.of_setBuf _ rfl rfl rfl (block.trans (congrArg Use.block point).symm)
  apply coherent.change shape touches target
  · exact fun _ _ => rfl
  · exact fun _ _ => rfl
  · exact Or.inl (congrArg Use.locked point)
  · rw [Cache.setUse_buf, buf]
    exact fun _ => valid
  · rw [Cache.setUse_buf, buf]
    exact fun _ => valid
  · rw [Cache.setUse_buf, buf]
    exact fun _ _ => rfl
  · rw [Cache.setUse_buf, buf]
    exact coherent.current b root
  · refine Or.inr (Or.inl ?_)
    rw [Cache.setUse_buf, buf]

theorem Coherent.releases (coherent : Coherent cache contents) (shape : Shape cache)
    (point : cache.use u = .holding b blockno false) :
    Coherent ((cache.setBuf b { cache.buf b with lock := none }).setUse u
      (.unlocked b blockno)) contents := by
  have target : (cache.use u).target = some b := congrArg Use.target point
  have root := shape.dev_of_target target
  have buf := cache.setBuf_self b { cache.buf b with lock := none }
  have touches : Touches cache u b (.unlocked b blockno)
      ((cache.setBuf b { cache.buf b with lock := none }).setUse u (.unlocked b blockno)) :=
    Touches.of_setBuf _ rfl rfl rfl (congrArg Use.block point).symm
  apply coherent.change shape touches target
  · exact fun _ _ => rfl
  · exact fun _ _ => rfl
  · exact Or.inl (congrArg Use.locked point)
  · rw [Cache.setUse_buf, buf]
    exact coherent.pinned b
  · intro ready
    cases ready
  · intro n writing
    cases writing
  · rw [Cache.setUse_buf, buf]
    exact coherent.current b root
  · rcases coherent.stored_here shape root with same | dirty | ⟨v, n, holding⟩
    · exact Or.inl same
    · refine Or.inr (Or.inl ?_)
      rw [Cache.setUse_buf, buf]
      exact dirty
    · have other : v ≠ u := by
        intro equal
        rw [equal, point] at holding
        cases holding
      exact Or.inr (Or.inr ⟨v, n, (touches.use_other other).trans holding⟩)

theorem Coherent.step {event : Event} (coherent : Coherent cache contents)
    (shape : Shape cache) (stepped : Step cache event next) :
    Coherent next (observe cache event contents) := by
  cases stepped with
  | hits u blockno b idle dev same =>
    refine coherent.keep rfl rfl ?_ (congrArg Use.locked idle) rfl
    intro c
    by_cases equal : c = b
    · rw [equal, Cache.setUse_buf, cache.setBuf_self]
      exact ⟨⟨rfl, rfl⟩, ⟨rfl, rfl⟩, rfl⟩
    · rw [Cache.setUse_buf, cache.setBuf_other equal]
      exact ⟨⟨rfl, rfl⟩, ⟨rfl, rfl⟩, rfl⟩
  | recycles u blockno b idle absent free clean =>
    exact coherent.recycles shape idle free clean
  | locks u blockno b point free => exact coherent.locks shape point
  | loads u blockno b point | stores u blockno b point =>
    apply coherent.ideintr shape (congrArg Use.locked point) (congrArg Use.block point)
    intro changed holding
    rw [point] at holding
    cases holding
  | modifies u blockno b changed data point =>
    have seen : observe cache (.modify u data) contents =
        update contents blockno data := by
      simp only [observe, point]
    rw [seen]
    exact coherent.modifies shape data point
  | logs u blockno b changed point => exact coherent.marks shape point rfl
  | writes u blockno b changed point => exact coherent.marks shape point rfl
  | releases u blockno b point => exact coherent.releases shape point
  | unrefs u blockno b point =>
    refine coherent.keep rfl rfl ?_ (congrArg Use.locked point) rfl
    intro c
    by_cases equal : c = b
    · rw [equal]
      change (((cache.setBuf b _).buf b).valid = _ ∧ ((cache.setBuf b _).buf b).dirty = _) ∧
        (((cache.setBuf b _).buf b).dev = _ ∧ ((cache.setBuf b _).buf b).blockno = _) ∧
        ((cache.setBuf b _).buf b).data = _
      rw [cache.setBuf_self]
      exact ⟨⟨rfl, rfl⟩, ⟨rfl, rfl⟩, rfl⟩
    · have other : ((cache.unref b).setUse u .idle).buf c = cache.buf c :=
        cache.setBuf_other equal _
      rw [other]
      exact ⟨⟨rfl, rfl⟩, ⟨rfl, rfl⟩, rfl⟩

end Coherent

theorem reachable_coherent {disk contents : Nat → Block} {cache : Cache}
    (reachable : ((machine disk).watched observe disk).Reachable (cache, contents)) :
    Shape cache ∧ Coherent cache contents := by
  obtain ⟨reached, coherent⟩ := reachable.watched_invariant Coherent (boot_coherent disk) (by
    intro state event next ghost reached coherent stepped
    have shape := reachable_shape reached
    exact coherent.step shape (step_inversion shape stepped))
  exact ⟨reachable_shape reached, coherent⟩

/-! ### The map of blocks -/

/-- What the cache and the disk together hold for a block. -/
def Cache.view (cache : Cache) (blockno : Nat) : Block :=
  match (List.finRange NBUF).find? (fun b =>
    cache.holds ROOTDEV blockno b && (cache.buf b).valid) with
  | some b => (cache.buf b).data
  | none => cache.disk blockno

theorem Coherent.view {cache : Cache} {contents : Nat → Block}
    (coherent : Coherent cache contents) : cache.view = contents := by
  funext blockno
  unfold Cache.view
  cases search : (List.finRange NBUF).find? (fun b =>
      cache.holds ROOTDEV blockno b && (cache.buf b).valid) with
  | some b =>
    have test := List.find?_some search
    rw [Bool.and_eq_true, Cache.holds, Bool.and_eq_true, beq_iff_eq, beq_iff_eq] at test
    obtain ⟨⟨dev, number⟩, valid⟩ := test
    exact (coherent.current b dev valid).trans (congrArg contents number)
  | none =>
    have absent := List.find?_eq_none.mp search
    rcases coherent.stored blockno with same | ⟨b, dev, number, pending⟩
    · exact same
    · have valid : (cache.buf b).valid = true := by
        rcases pending with dirty | ⟨u, n, holding⟩
        · exact coherent.pinned b dirty
        · exact coherent.ready u b (congrArg Use.ready holding)
      exfalso
      apply absent b (List.mem_finRange b)
      rw [Bool.and_eq_true, Cache.holds, Bool.and_eq_true, beq_iff_eq, beq_iff_eq]
      exact ⟨⟨dev, number⟩, valid⟩

/-- A buffer that is referenced or dirty keeps its block. -/
theorem Step.keeps_block {cache next : Cache} {event : Event}
    (stepped : Step cache event next) (b : Fin NBUF)
    (used : 0 < (cache.buf b).refcnt ∨ (cache.buf b).dirty = true) :
    (next.buf b).dev = (cache.buf b).dev ∧ (next.buf b).blockno = (cache.buf b).blockno := by
  have touched {u : Nat} {c : Fin NBUF} {use : Use} (touches : Touches cache u c use next) :
      (next.buf b).dev = (cache.buf b).dev ∧
        (next.buf b).blockno = (cache.buf b).blockno :=
    ⟨touches.same Buf.dev touches.dev b, touches.same Buf.blockno touches.blockno b⟩
  cases stepped with
  | hits u blockno c idle dev same =>
    by_cases equal : b = c
    · rw [equal, Cache.setUse_buf, cache.setBuf_self]
      exact ⟨rfl, rfl⟩
    · rw [Cache.setUse_buf, cache.setBuf_other equal]
      exact ⟨rfl, rfl⟩
  | recycles u blockno c idle absent free clean =>
    have other : b ≠ c := by
      intro same
      rw [same] at used
      rcases used with positive | dirty
      · omega
      · rw [clean] at dirty
        cases dirty
    rw [Cache.setUse_buf, Cache.recycle, cache.setBuf_other other]
    exact ⟨rfl, rfl⟩
  | locks u blockno c point free =>
    refine touched (Touches.of_setBuf _ rfl rfl rfl ?_)
    rw [point]
    split <;> rfl
  | loads u blockno c point | stores u blockno c point =>
    exact touched (Touches.ideintr (congrArg Use.block point).symm)
  | modifies u blockno c changed data point | logs u blockno c changed point
  | writes u blockno c changed point | releases u blockno c point =>
    exact touched (Touches.of_setBuf _ rfl rfl rfl (congrArg Use.block point).symm)
  | unrefs u blockno c point =>
    by_cases equal : b = c
    · have self : ((cache.unref c).setUse u .idle).buf c =
          { cache.buf c with refcnt := (cache.buf c).refcnt - 1 } := cache.setBuf_self c _
      rw [equal, self]
      exact ⟨rfl, rfl⟩
    · have other : ((cache.unref c).setUse u .idle).buf b = cache.buf b :=
        cache.setBuf_other equal _
      rw [other]
      exact ⟨rfl, rfl⟩

/-- At every point of every run at most one buffer holds a block, the list is a ring of all
buffers, no step recycles a referenced or dirty buffer, a process that has got a buffer
from `bread` sees the last modification of its block, and the cache and the disk together
are the map that the modifications make of the original disk. -/
theorem buffer_cache_coherence {disk contents : Nat → Block} {cache : Cache}
    (reachable : ((machine disk).watched observe disk).Reachable (cache, contents)) :
    (∀ b c, (cache.buf b).dev = ROOTDEV → (cache.buf c).dev = ROOTDEV →
      (cache.buf b).blockno = (cache.buf c).blockno → b = c) ∧
    (∃ items, items.Perm (List.finRange NBUF) ∧ cache.links.Ring items) ∧
    (∀ event next, (machine disk).step cache event = some next → ∀ b,
      0 < (cache.buf b).refcnt ∨ (cache.buf b).dirty = true →
      (next.buf b).dev = (cache.buf b).dev ∧
        (next.buf b).blockno = (cache.buf b).blockno) ∧
    (∀ u b blockno changed, cache.use u = .holding b blockno changed →
      (cache.buf b).data = contents blockno) ∧
    cache.view = contents := by
  obtain ⟨shape, coherent⟩ := reachable_coherent reachable
  refine ⟨shape.unique, shape.ring, ?_, ?_, coherent.view⟩
  · intro event next stepped b used
    exact (step_inversion shape stepped).keeps_block b used
  · intro u b blockno changed point
    obtain ⟨dev, number⟩ := shape.named u b blockno (congrArg Use.block point)
    have valid := coherent.ready u b (congrArg Use.ready point)
    exact (coherent.current b dev valid).trans (congrArg contents number)

/-- Use 0 reads block 5, fills it with sevens, logs and releases it; use 1 reads the block
again. -/
def rereadRun : List Event :=
  [.bread 0 5, .lock 0, .complete 0, .modify 0 (fun _ => 7), .logWrite 0, .brelse 0,
    .unref 0, .bread 1 5, .lock 1]

set_option maxRecDepth 100000 in
theorem buffer_cache_coherence_reread :
    ∃ cache contents,
      ((machine (fun _ _ => 0)).watched observe (fun _ _ => 0)).Reachable (cache, contents) ∧
      cache.use 1 = .holding 0 5 false ∧ (cache.buf 0).data 9 = 7 := by
  have evaluated : (((machine (fun _ _ => 0)).watched observe (fun _ _ => 0)).exec
      ((machine (fun _ _ => 0)).start, fun _ _ => 0) rereadRun).any (fun pair =>
        decide (pair.1.use 1 = .holding 0 5 false) && decide (pair.2 5 9 = 7)) = true := by
    decide +kernel
  simp only [Option.any_eq_true, Bool.and_eq_true, decide_eq_true_eq] at evaluated
  obtain ⟨⟨cache, contents⟩, ran, holding, sevens⟩ := evaluated
  have reached : ((machine (fun _ _ => 0)).watched observe (fun _ _ => 0)).Reachable
      (cache, contents) := ⟨rereadRun, ran⟩
  have data := (buffer_cache_coherence reached).2.2.2.1 1 0 5 false holding
  exact ⟨cache, contents, reached, holding, (congrFun data 9).trans sevens⟩

end Xv6.Bio
