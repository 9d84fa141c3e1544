/-
What a step on the buffer cache can do, and the shape of the cache.

`Shape` collects what does not concern the data: the list of buffers, the reference
counts, the holders of the sleep locks, and which block a buffer in use belongs to.
-/

import Xv6.Bio.Model
import Xv6.Library.Ownership

namespace Xv6.Bio

open Function Library

namespace Use

/-- The buffer that a use refers to and the block that it asked for. -/
def block : Use → Option (Fin NBUF × Nat)
  | .idle => none
  | .locking b blockno | .loading b blockno | .holding b blockno _ | .writing b blockno
  | .unlocked b blockno => some (b, blockno)

def target (use : Use) : Option (Fin NBUF) := use.block.map Prod.fst

/-- The buffer whose sleep lock a use holds. -/
def locked : Use → Option (Fin NBUF)
  | .loading b _ | .holding b _ _ | .writing b _ => some b
  | _ => none

theorem target_of_locked {use : Use} {b : Fin NBUF} (locked : use.locked = some b) :
    use.target = some b := by
  cases use with
  | loading c blockno => exact locked
  | holding c blockno changed => exact locked
  | writing c blockno => exact locked
  | _ => cases locked

end Use

namespace Cache

variable (cache : Cache)

@[simp]
theorem setUse_buf (u : Nat) (use : Use) : (cache.setUse u use).buf = cache.buf := rfl

@[simp]
theorem setUse_use (u : Nat) (use : Use) :
    (cache.setUse u use).use = update cache.use u use := rfl

@[simp]
theorem setBuf_buf (b : Fin NBUF) (buf : Buf) :
    (cache.setBuf b buf).buf = update cache.buf b buf := rfl

@[simp]
theorem setBuf_use (b : Fin NBUF) (buf : Buf) : (cache.setBuf b buf).use = cache.use := rfl

theorem setBuf_self (b : Fin NBUF) (buf : Buf) : (cache.setBuf b buf).buf b = buf :=
  update_self ..

theorem setBuf_other {b c : Fin NBUF} (other : c ≠ b) (buf : Buf) :
    (cache.setBuf b buf).buf c = cache.buf c :=
  update_of_ne other ..

@[simp]
theorem unref_use (b : Fin NBUF) : (cache.unref b).use = cache.use := rfl

end Cache

structure Shape (cache : Cache) : Prop where
  ring : ∃ items, items.Perm (List.finRange NBUF) ∧ cache.links.Ring items
  unique : ∀ b c, (cache.buf b).dev = ROOTDEV → (cache.buf c).dev = ROOTDEV →
    (cache.buf b).blockno = (cache.buf c).blockno → b = c
  counted : ∀ b, ∃ users : Finset Nat, users.card = (cache.buf b).refcnt ∧
    ∀ u, u ∈ users ↔ (cache.use u).target = some b
  owned : ∀ b, Owned (cache.buf b).lock (fun u => (cache.use u).locked = some b)
  named : ∀ u b blockno, (cache.use u).block = some (b, blockno) →
    (cache.buf b).dev = ROOTDEV ∧ (cache.buf b).blockno = blockno

/-! ### The steps -/

inductive Step (cache : Cache) : Event → Cache → Prop
  | hits (u blockno : Nat) (b : Fin NBUF) (idle : cache.use u = .idle)
      (dev : (cache.buf b).dev = ROOTDEV) (same : (cache.buf b).blockno = blockno) :
      Step cache (.bread u blockno)
        ((cache.setBuf b { cache.buf b with refcnt := (cache.buf b).refcnt + 1 }).setUse u
          (.locking b blockno))
  | recycles (u blockno : Nat) (b : Fin NBUF) (idle : cache.use u = .idle)
      (absent : ∀ c, (cache.buf c).dev = ROOTDEV → (cache.buf c).blockno ≠ blockno)
      (free : (cache.buf b).refcnt = 0) (clean : (cache.buf b).dirty = false) :
      Step cache (.bread u blockno)
        ((cache.recycle b ROOTDEV blockno).setUse u (.locking b blockno))
  | locks (u blockno : Nat) (b : Fin NBUF) (point : cache.use u = .locking b blockno)
      (free : (cache.buf b).lock = none) :
      Step cache (.lock u)
        ((cache.setBuf b { cache.buf b with lock := some u }).setUse u
          (if (cache.buf b).valid then .holding b blockno false else .loading b blockno))
  | loads (u blockno : Nat) (b : Fin NBUF) (point : cache.use u = .loading b blockno) :
      Step cache (.complete u) ((cache.ideintr b).setUse u (.holding b blockno false))
  | stores (u blockno : Nat) (b : Fin NBUF) (point : cache.use u = .writing b blockno) :
      Step cache (.complete u) ((cache.ideintr b).setUse u (.holding b blockno false))
  | modifies (u blockno : Nat) (b : Fin NBUF) (changed : Bool) (data : Block)
      (point : cache.use u = .holding b blockno changed) :
      Step cache (.modify u data)
        ((cache.setBuf b { cache.buf b with data := data }).setUse u (.holding b blockno true))
  | logs (u blockno : Nat) (b : Fin NBUF) (changed : Bool)
      (point : cache.use u = .holding b blockno changed) :
      Step cache (.logWrite u)
        ((cache.setBuf b { cache.buf b with dirty := true }).setUse u
          (.holding b blockno false))
  | writes (u blockno : Nat) (b : Fin NBUF) (changed : Bool)
      (point : cache.use u = .holding b blockno changed) :
      Step cache (.bwrite u)
        ((cache.setBuf b { cache.buf b with dirty := true }).setUse u (.writing b blockno))
  | releases (u blockno : Nat) (b : Fin NBUF)
      (point : cache.use u = .holding b blockno false) :
      Step cache (.brelse u)
        ((cache.setBuf b { cache.buf b with lock := none }).setUse u (.unlocked b blockno))
  | unrefs (u blockno : Nat) (b : Fin NBUF) (point : cache.use u = .unlocked b blockno) :
      Step cache (.unref u) ((cache.unref b).setUse u .idle)

section Inversion

variable {cache next : Cache} {disk : Nat → Block}

/-- The two loops of `bget` find a buffer of the block, or else an unused one. -/
theorem bget_inversion (shape : Shape cache) {u blockno : Nat} (idle : cache.use u = .idle)
    (got : cache.bget u ROOTDEV blockno = some next) :
    Step cache (.bread u blockno) next := by
  obtain ⟨items, perm, ring⟩ := shape.ring
  have enough : items.length < NBUF + 1 := by
    rw [perm.length_eq, List.length_finRange]
    exact Nat.lt_succ_self NBUF
  have all (b : Fin NBUF) : b ∈ items := perm.mem_iff.mpr (List.mem_finRange b)
  unfold Cache.bget at got
  split at got
  · rename_i b walked
    have test := ring.walk_found enough walked
    rw [Cache.holds, Bool.and_eq_true, beq_iff_eq, beq_iff_eq] at test
    cases got
    exact Step.hits u blockno b idle test.1 test.2
  · rename_i walked
    have none := ring.walk_absent enough walked
    split at got
    · rename_i b found
      have test := ring.reverse.walk_found (List.length_reverse.trans_lt enough) found
      rw [Cache.unused, Bool.and_eq_true, beq_iff_eq, Bool.not_eq_true'] at test
      cases got
      apply Step.recycles u blockno b idle ?_ test.1 test.2
      intro c dev same
      have missed := none c (all c)
      rw [Cache.holds, dev, same, beq_self_eq_true, beq_self_eq_true] at missed
      cases missed
    · cases got
  · cases got

theorem step_inversion (shape : Shape cache) {event : Event}
    (stepped : (machine disk).step cache event = some next) : Step cache event next := by
  change cache.step event = some next at stepped
  cases event with simp only [Cache.step] at stepped
  | bread u blockno =>
    split at stepped
    · rename_i idle
      exact bget_inversion shape idle stepped
    · cases stepped
  | lock u =>
    split at stepped
    · rename_i b blockno point
      simp only [Cache.acquiresleep, Option.ite_none_right_eq_some,
        Option.some.injEq] at stepped
      exact stepped.2 ▸ Step.locks u blockno b point stepped.1
    · cases stepped
  | complete u =>
    split at stepped
    · rename_i b blockno point
      cases stepped
      exact Step.loads u blockno b point
    · rename_i b blockno point
      cases stepped
      exact Step.stores u blockno b point
    · cases stepped
  | modify u data =>
    split at stepped
    · rename_i b blockno changed point
      cases stepped
      exact Step.modifies u blockno b changed data point
    · cases stepped
  | logWrite u =>
    split at stepped
    · rename_i b blockno changed point
      cases stepped
      exact Step.logs u blockno b changed point
    · cases stepped
  | bwrite u =>
    split at stepped
    · rename_i b blockno changed point
      simp only [Option.ite_none_right_eq_some, Option.some.injEq] at stepped
      exact stepped.2 ▸ Step.writes u blockno b changed point
    · cases stepped
  | brelse u =>
    split at stepped
    · rename_i b blockno point
      simp only [Option.ite_none_right_eq_some, Option.some.injEq] at stepped
      exact stepped.2 ▸ Step.releases u blockno b point
    · cases stepped
  | unref u =>
    split at stepped
    · rename_i b blockno point
      cases stepped
      exact Step.unrefs u blockno b point
    · cases stepped

end Inversion

/-! ### The shape is kept -/

/-- A step of `u` on `b` that leaves the list, the reference counts and the owners of the
blocks alone. -/
structure Touches (cache : Cache) (u : Nat) (b : Fin NBUF) (use : Use) (next : Cache) :
    Prop where
  links : next.links = cache.links
  uses : next.use = update cache.use u use
  others : ∀ c, c ≠ b → next.buf c = cache.buf c
  dev : (next.buf b).dev = (cache.buf b).dev
  blockno : (next.buf b).blockno = (cache.buf b).blockno
  refcnt : (next.buf b).refcnt = (cache.buf b).refcnt
  block : use.block = (cache.use u).block

namespace Touches

variable {cache next : Cache} {u : Nat} {b : Fin NBUF} {use : Use}

theorem of_setBuf (buf : Buf) (dev : buf.dev = (cache.buf b).dev)
    (blockno : buf.blockno = (cache.buf b).blockno)
    (refcnt : buf.refcnt = (cache.buf b).refcnt) (block : use.block = (cache.use u).block) :
    Touches cache u b use ((cache.setBuf b buf).setUse u use) where
  links := rfl
  uses := rfl
  others := fun c other => update_of_ne other _ _
  dev := by rw [Cache.setUse_buf, Cache.setBuf_buf, update_self, dev]
  blockno := by rw [Cache.setUse_buf, Cache.setBuf_buf, update_self, blockno]
  refcnt := by rw [Cache.setUse_buf, Cache.setBuf_buf, update_self, refcnt]
  block := block

theorem ideintr (block : use.block = (cache.use u).block) :
    Touches cache u b use ((cache.ideintr b).setUse u use) := by
  unfold Cache.ideintr
  split
  · have same : Touches cache u b use
        ((cache.setBuf b { cache.buf b with valid := true, dirty := false }).setUse u use) :=
      of_setBuf _ rfl rfl rfl block
    exact ⟨rfl, rfl, same.others, same.dev, same.blockno, same.refcnt, block⟩
  · exact of_setBuf _ rfl rfl rfl block

theorem use_self (touches : Touches cache u b use next) : next.use u = use := by
  rw [touches.uses, update_self]

theorem use_other (touches : Touches cache u b use next) {v : Nat} (other : v ≠ u) :
    next.use v = cache.use v := by
  rw [touches.uses, update_of_ne other]

theorem use_block (touches : Touches cache u b use next) (v : Nat) :
    (next.use v).block = (cache.use v).block := by
  by_cases same : v = u
  · rw [same, touches.use_self, touches.block]
  · rw [touches.use_other same]

theorem same (touches : Touches cache u b use next) {Value : Type} (field : Buf → Value)
    (kept : field (next.buf b) = field (cache.buf b)) (c : Fin NBUF) :
    field (next.buf c) = field (cache.buf c) := by
  by_cases equal : c = b
  · rw [equal, kept]
  · rw [touches.others c equal]

theorem shape (touches : Touches cache u b use next) (shape : Shape cache)
    (owned : ∀ c, Owned (next.buf c).lock (fun v => (next.use v).locked = some c)) :
    Shape next := by
  have dev := touches.same Buf.dev touches.dev
  have blockno := touches.same Buf.blockno touches.blockno
  constructor
  · rw [touches.links]
    exact shape.ring
  · intro c d
    rw [dev, dev, blockno, blockno]
    exact shape.unique c d
  · intro c
    rw [touches.same Buf.refcnt touches.refcnt]
    obtain ⟨users, card, members⟩ := shape.counted c
    refine ⟨users, card, ?_⟩
    intro v
    rw [members v, Use.target, Use.target, touches.use_block]
  · exact owned
  · intro v c number
    rw [touches.use_block, dev, blockno]
    exact shape.named v c number

theorem owned_same (touches : Touches cache u b use next) (shape : Shape cache)
    (lock : (next.buf b).lock = (cache.buf b).lock)
    (locked : use.locked = (cache.use u).locked) (c : Fin NBUF) :
    Owned (next.buf c).lock (fun v => (next.use v).locked = some c) := by
  rw [touches.same Buf.lock lock]
  apply (shape.owned c).keep
  intro v
  by_cases same : v = u
  · rw [same, touches.use_self, locked]
  · rw [touches.use_other same]

end Touches

section Shape

variable {cache next : Cache}

theorem ring_foldl {links : Links (Fin NBUF)} {items : List (Fin NBUF)}
    (ring : links.Ring items) (bufs : List (Fin NBUF)) (distinct : bufs.Nodup)
    (fresh : ∀ b, b ∈ bufs → b ∉ items) :
    (bufs.foldl Links.linkFront links).Ring (bufs.reverse ++ items) := by
  induction bufs generalizing links items with
  | nil => exact ring
  | cons b bufs ih =>
    obtain ⟨notAgain, distinctRest⟩ := List.nodup_cons.mp distinct
    rw [List.foldl_cons, List.reverse_cons, List.append_assoc]
    apply ih (ring.linkFront (fresh b (List.mem_cons_self ..))) distinctRest
    intro c member again
    rcases List.mem_cons.mp again with same | inside
    · exact notAgain (same ▸ member)
    · exact fresh c (List.mem_cons_of_mem _ member) inside

theorem binit_ring : binit.Ring (List.finRange NBUF).reverse := by
  have ring := ring_foldl Links.ring_empty (List.finRange NBUF) (List.nodup_finRange NBUF)
    (fun b _ => List.not_mem_nil)
  rwa [List.append_nil] at ring

theorem boot_shape (disk : Nat → Block) : Shape (machine disk).start where
  ring := ⟨_, List.reverse_perm _, binit_ring⟩
  unique := fun b c dev => by cases dev
  counted := fun b => ⟨∅, rfl, fun u => by simp [machine, Use.target, Use.block]⟩
  owned := fun b u => iff_of_false (by simp [machine, Use.locked]) (by simp [machine])
  named := fun u b blockno block => by cases block

variable {u blockno : Nat} {b : Fin NBUF}

theorem Shape.refcnt_pos (shape : Shape cache) (target : (cache.use u).target = some b) :
    0 < (cache.buf b).refcnt := by
  obtain ⟨users, card, members⟩ := shape.counted b
  exact card ▸ Finset.card_pos.mpr ⟨u, (members u).mpr target⟩

theorem Shape.dev_of_target (shape : Shape cache) (target : (cache.use u).target = some b) :
    (cache.buf b).dev = ROOTDEV := by
  obtain ⟨⟨c, blockno⟩, block, same⟩ := Option.map_eq_some_iff.mp target
  change c = b at same
  rw [← same]
  exact (shape.named u c blockno block).1

/-- A use begins: one more reference to `b`, whose block it names. -/
theorem Shape.refer (shape : Shape cache) {buf : Buf} (idle : cache.use u = .idle)
    (dev : buf.dev = ROOTDEV) (number : buf.blockno = blockno)
    (refcnt : buf.refcnt = (cache.buf b).refcnt + 1) (lock : buf.lock = (cache.buf b).lock)
    (fresh : ∀ c, c ≠ b → (cache.buf c).dev = ROOTDEV → (cache.buf c).blockno ≠ blockno)
    (kept : 0 < (cache.buf b).refcnt →
      buf.dev = (cache.buf b).dev ∧ buf.blockno = (cache.buf b).blockno) :
    Shape ((cache.setBuf b buf).setUse u (.locking b blockno)) := by
  have self : update cache.buf b buf b = buf := update_self ..
  have apart (c : Fin NBUF) (other : c ≠ b) :
      update cache.buf b buf c = cache.buf c := update_of_ne other ..
  have here : update cache.use u (.locking b blockno) u = .locking b blockno :=
    update_self ..
  have away (v : Nat) (other : v ≠ u) :
      update cache.use u (.locking b blockno) v = cache.use v :=
    update_of_ne other ..
  refine ⟨shape.ring, ?_, ?_, ?_, ?_⟩
  · intro c d
    simp only [Cache.setUse_buf, Cache.setBuf_buf]
    by_cases first : c = b <;> by_cases second : d = b
    · intro _ _ _
      rw [first, second]
    · rw [first, self, apart d second, number]
      intro _ devD same
      exact absurd same.symm (fresh d second devD)
    · rw [second, self, apart c first, number]
      intro devC _ same
      exact absurd same (fresh c first devC)
    · rw [apart c first, apart d second]
      exact shape.unique c d
  · intro c
    obtain ⟨users, card, members⟩ := shape.counted c
    simp only [Cache.setUse_buf, Cache.setBuf_buf, Cache.setUse_use, Cache.setBuf_use]
    have outside : u ∉ users := by
      rw [members u, idle]
      exact Option.some_ne_none c ∘ Eq.symm
    by_cases same : c = b
    · refine ⟨insert u users, ?_, ?_⟩
      · rw [Finset.card_insert_of_notMem outside, card, same, self, refcnt]
      · intro v
        rw [Finset.mem_insert, members v]
        by_cases equal : v = u
        · rw [equal, here, same]
          exact iff_of_true (Or.inl rfl) rfl
        · rw [away v equal]
          exact or_iff_right equal
    · refine ⟨users, ?_, ?_⟩
      · rw [apart c same, card]
      · intro v
        rw [members v]
        by_cases equal : v = u
        · rw [equal, here, idle]
          apply iff_of_false
          · exact Option.some_ne_none c ∘ Eq.symm
          · exact fun target => same (Option.some.inj target).symm
        · rw [away v equal]
  · intro c
    simp only [Cache.setUse_buf, Cache.setBuf_buf, Cache.setUse_use, Cache.setBuf_use]
    have lockSame : (update cache.buf b buf c).lock = (cache.buf c).lock := by
      by_cases same : c = b
      · rw [same, self, lock]
      · rw [apart c same]
    rw [lockSame]
    apply (shape.owned c).keep
    intro v
    by_cases equal : v = u
    · rw [equal, here, idle]
      exact Iff.rfl
    · rw [away v equal]
  · intro v c other block
    simp only [Cache.setUse_buf, Cache.setBuf_buf, Cache.setUse_use, Cache.setBuf_use]
      at block ⊢
    by_cases equal : v = u
    · rw [equal, here] at block
      cases block
      rw [self]
      exact ⟨dev, number⟩
    · rw [away v equal] at block
      have old := shape.named v c other block
      by_cases same : c = b
      · -- A buffer in use keeps its block.
        rw [same] at block old
        have target : (cache.use v).target = some b := by rw [Use.target, block]; rfl
        have positive := shape.refcnt_pos target
        rw [same, self, (kept positive).1, (kept positive).2]
        exact old
      · rw [apart c same]
        exact old

theorem Shape.relink (shape : Shape cache) (b : Fin NBUF) :
    ∃ items, items.Perm (List.finRange NBUF) ∧
      ((cache.links.unlink b).linkFront b).Ring items := by
  obtain ⟨items, perm, ring⟩ := shape.ring
  have member : b ∈ items := perm.mem_iff.mpr (List.mem_finRange b)
  refine ⟨b :: items.erase b, (List.perm_cons_erase member).symm.trans perm, ?_⟩
  apply (ring.unlink member).linkFront
  exact fun again => (ring.distinct.mem_erase_iff.mp again).1 rfl

/-- A use ends: one reference less to `b`. -/
theorem Shape.unrefs (shape : Shape cache) (point : cache.use u = .unlocked b blockno) :
    Shape ((cache.unref b).setUse u .idle) := by
  have target : (cache.use u).target = some b := by rw [point]; rfl
  have here : update cache.use u .idle u = .idle := update_self ..
  have away (v : Nat) (other : v ≠ u) : update cache.use u .idle v = cache.use v :=
    update_of_ne other ..
  have self : ((cache.unref b).buf b) =
      { cache.buf b with refcnt := (cache.buf b).refcnt - 1 } := update_self ..
  have apart (c : Fin NBUF) (other : c ≠ b) : (cache.unref b).buf c = cache.buf c :=
    update_of_ne other ..
  have same {Value : Type} (field : Buf → Value)
      (kept : field { cache.buf b with refcnt := (cache.buf b).refcnt - 1 } =
        field (cache.buf b)) (c : Fin NBUF) :
      field ((cache.unref b).buf c) = field (cache.buf c) := by
    by_cases equal : c = b
    · rw [equal, self, kept]
    · rw [apart c equal]
  refine ⟨?_, ?_, ?_, ?_, ?_⟩
  · change ∃ items, _ ∧ Links.Ring (if (cache.buf b).refcnt - 1 = 0 then _ else _) items
    split
    · exact shape.relink b
    · exact shape.ring
  · intro c d
    simp only [Cache.setUse_buf]
    rw [same Buf.dev rfl, same Buf.dev rfl, same Buf.blockno rfl, same Buf.blockno rfl]
    exact shape.unique c d
  · intro c
    obtain ⟨users, card, members⟩ := shape.counted c
    simp only [Cache.setUse_buf, Cache.setUse_use, Cache.unref_use]
    by_cases equal : c = b
    · have member : u ∈ users := (members u).mpr (equal ▸ target)
      refine ⟨users.erase u, ?_, ?_⟩
      · rw [Finset.card_erase_of_mem member, card, equal, self]
      · intro v
        rw [Finset.mem_erase, members v]
        by_cases ending : v = u
        · rw [ending, here]
          exact iff_of_false (fun both => both.1 rfl) (Option.some_ne_none c ∘ Eq.symm)
        · rw [away v ending]
          exact and_iff_right ending
    · refine ⟨users, ?_, ?_⟩
      · rw [apart c equal, card]
      · intro v
        rw [members v]
        by_cases ending : v = u
        · rw [ending, here, target]
          apply iff_of_false
          · exact fun both => equal (Option.some.inj both).symm
          · exact Option.some_ne_none c ∘ Eq.symm
        · rw [away v ending]
  · intro c
    simp only [Cache.setUse_buf, Cache.setUse_use, Cache.unref_use]
    rw [same Buf.lock rfl]
    apply (shape.owned c).keep
    intro v
    by_cases ending : v = u
    · rw [ending, here, point]
      exact Iff.rfl
    · rw [away v ending]
  · intro v c number block
    simp only [Cache.setUse_buf, Cache.setUse_use, Cache.unref_use] at block ⊢
    rw [same Buf.dev rfl, same Buf.blockno rfl]
    by_cases ending : v = u
    · rw [ending, here] at block
      cases block
    · rw [away v ending] at block
      exact shape.named v c number block

theorem Shape.locks (shape : Shape cache) {use : Use} (point : cache.use u = .locking b blockno)
    (free : (cache.buf b).lock = none) (block : use.block = some (b, blockno))
    (locked : use.locked = some b) :
    Shape ((cache.setBuf b { cache.buf b with lock := some u }).setUse u use) := by
  have touches : Touches cache u b use
      ((cache.setBuf b { cache.buf b with lock := some u }).setUse u use) :=
    Touches.of_setBuf _ rfl rfl rfl (by rw [point, block]; rfl)
  apply touches.shape shape
  intro c
  by_cases same : c = b
  · rw [same, Cache.setUse_buf, Cache.setBuf_buf, update_self]
    apply (free ▸ shape.owned b).take
    · rw [touches.use_self, locked]
    · intro v other
      rw [touches.use_other other]
  · rw [touches.others c same]
    apply (shape.owned c).keep
    intro v
    by_cases equal : v = u
    · rw [equal, touches.use_self, point, locked]
      apply iff_of_false
      · exact fun both => same (Option.some.inj both).symm
      · exact Option.some_ne_none c ∘ Eq.symm
    · rw [touches.use_other equal]

theorem Shape.releases (shape : Shape cache) {changed : Bool}
    (point : cache.use u = .holding b blockno changed) :
    Shape ((cache.setBuf b { cache.buf b with lock := none }).setUse u
      (.unlocked b blockno)) := by
  have touches : Touches cache u b (.unlocked b blockno)
      ((cache.setBuf b { cache.buf b with lock := none }).setUse u (.unlocked b blockno)) :=
    Touches.of_setBuf _ rfl rfl rfl (by rw [point]; rfl)
  have held : (cache.use u).locked = some b := by rw [point]; rfl
  apply touches.shape shape
  intro c
  by_cases same : c = b
  · rw [same, Cache.setUse_buf, Cache.setBuf_buf, update_self]
    apply (shape.owned b).drop held
    · rw [touches.use_self]
      exact Option.some_ne_none b ∘ Eq.symm
    · intro v other
      rw [touches.use_other other]
  · rw [touches.others c same]
    apply (shape.owned c).keep
    intro v
    by_cases equal : v = u
    · rw [equal, touches.use_self, held]
      apply iff_of_false
      · exact Option.some_ne_none c ∘ Eq.symm
      · exact fun both => same (Option.some.inj both).symm
    · rw [touches.use_other equal]

theorem Shape.works (shape : Shape cache) {use : Use} (touches : Touches cache u b use next)
    (lock : (next.buf b).lock = (cache.buf b).lock) (locked : use.locked = (cache.use u).locked) :
    Shape next :=
  touches.shape shape (touches.owned_same shape lock locked)

theorem ideintr_lock (b : Fin NBUF) : ((cache.ideintr b).buf b).lock = (cache.buf b).lock := by
  unfold Cache.ideintr
  split
  · change ((cache.setBuf b _).buf b).lock = _
    rw [cache.setBuf_self]
  · rw [cache.setBuf_self]

theorem Shape.step {event : Event} (shape : Shape cache) (stepped : Step cache event next) :
    Shape next := by
  cases stepped with
  | hits u blockno b idle dev same =>
    apply shape.refer idle
    · exact dev
    · exact same
    · rfl
    · rfl
    · intro c other devC equal
      exact other (shape.unique c b devC dev (equal.trans same.symm))
    · exact fun _ => ⟨rfl, rfl⟩
  | recycles u blockno b idle absent free clean =>
    apply shape.refer idle
    · rfl
    · rfl
    · rw [free]
    · rfl
    · exact fun c _ => absent c
    · intro positive
      omega
  | locks u blockno b point free =>
    apply shape.locks point free
    · split <;> rfl
    · split <;> rfl
  | loads u blockno b point | stores u blockno b point =>
    exact shape.works (Touches.ideintr (point ▸ rfl)) (ideintr_lock b) (point ▸ rfl)
  | modifies u blockno b changed data point | logs u blockno b changed point
  | writes u blockno b changed point =>
    exact shape.works (Touches.of_setBuf _ rfl rfl rfl (point ▸ rfl))
      (by rw [Cache.setUse_buf, Cache.setBuf_self]) (point ▸ rfl)
  | releases u blockno b point => exact shape.releases point
  | unrefs u blockno b point => exact shape.unrefs point

end Shape

theorem reachable_shape {disk : Nat → Block} {cache : Cache}
    (reachable : (machine disk).Reachable cache) : Shape cache :=
  reachable.invariant (boot_shape disk)
    (fun _ _ _ shape stepped => shape.step (step_inversion shape stepped))

end Xv6.Bio
