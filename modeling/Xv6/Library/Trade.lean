/-
Cells that change hands.

A store has a list of free cells and contents for all cells.  An operation trades the
cells that its caller owns before it for those that the caller owns afterwards: what is
missing has gone to the free list, what is new has come from it, and no cell of anybody
else has been touched.  Trades compose, and hold beside any other owner.
-/

import Mathlib.Algebra.BigOperators.Group.Multiset.Basic
import Mathlib.Algebra.Order.Group.Multiset
import Mathlib.Logic.Function.Basic

namespace Xv6.Library

open Function

structure Store (Cell Content : Type) where
  freelist : List Cell
  page : Cell → Content

variable {Cell Content : Type}

/-- The free cells and an owner's share have no cell in common, and none twice. -/
def Store.Sound (store : Store Cell Content) (share : Multiset Cell) : Prop :=
  ((store.freelist : Multiset Cell) + share).Nodup

structure Trades (before after : Store Cell Content) (given taken : Multiset Cell) :
    Prop where
  conserved : (after.freelist : Multiset Cell) + taken = before.freelist + given
  untouched : ∀ cell, cell ∉ before.freelist → cell ∉ given →
    after.page cell = before.page cell

namespace Trades

variable {before middle after : Store Cell Content} {given taken next rest : Multiset Cell}

theorem refl (store : Store Cell Content) (share : Multiset Cell) :
    Trades store store share share :=
  ⟨rfl, fun _ _ _ => rfl⟩

theorem trans (first : Trades before middle given taken)
    (second : Trades middle after taken next) : Trades before after given next := by
  constructor
  · rw [second.conserved, first.conserved]
  · intro cell notFree notGiven
    have outside : cell ∉ (middle.freelist : Multiset Cell) + taken := by
      rw [first.conserved, Multiset.mem_add, Multiset.mem_coe]
      exact not_or.mpr ⟨notFree, notGiven⟩
    rw [Multiset.mem_add, Multiset.mem_coe, not_or] at outside
    rw [second.untouched cell outside.1 outside.2, first.untouched cell notFree notGiven]

theorem frame (trade : Trades before after given taken) (rest : Multiset Cell) :
    Trades before after (given + rest) (taken + rest) := by
  constructor
  · rw [← add_assoc, ← add_assoc, trade.conserved]
  · intro cell notFree notGiven
    rw [Multiset.mem_add, not_or] at notGiven
    exact trade.untouched cell notFree notGiven.1

theorem sound (trade : Trades before after given taken) (sound : before.Sound given) :
    after.Sound taken := by
  unfold Store.Sound
  rw [trade.conserved]
  exact sound

theorem others (trade : Trades before after given taken)
    (sound : before.Sound (given + rest)) {cell : Cell} (member : cell ∈ rest) :
    after.page cell = before.page cell := by
  unfold Store.Sound at sound
  rw [← add_assoc] at sound
  have disjoint := (Multiset.nodup_add.mp sound).2.2
  have outside : cell ∉ (before.freelist : Multiset Cell) + given :=
    fun inside => Multiset.disjoint_left.mp disjoint inside member
  rw [Multiset.mem_add, Multiset.mem_coe, not_or] at outside
  exact trade.untouched cell outside.1 outside.2

end Trades

namespace Store

variable {store : Store Cell Content} {share rest : Multiset Cell}

theorem Sound.left (sound : store.Sound (share + rest)) : store.Sound share := by
  unfold Store.Sound at sound
  rw [← add_assoc] at sound
  exact (Multiset.nodup_add.mp sound).1

theorem Sound.nodup (sound : store.Sound share) : share.Nodup :=
  (Multiset.nodup_add.mp sound).2.1

theorem Sound.not_free (sound : store.Sound share) {cell : Cell} (member : cell ∈ share) :
    cell ∉ store.freelist :=
  fun free => Multiset.disjoint_left.mp (Multiset.nodup_add.mp sound).2.2
    (Multiset.mem_coe.mpr free) member

variable [DecidableEq Cell]

def setPage (store : Store Cell Content) (cell : Cell) (content : Content) :
    Store Cell Content :=
  { store with page := update store.page cell content }

theorem setPage_self (store : Store Cell Content) (cell : Cell) (content : Content) :
    (store.setPage cell content).page cell = content :=
  update_self ..

theorem setPage_other (store : Store Cell Content) {cell other : Cell}
    (different : other ≠ cell) (content : Content) :
    (store.setPage cell content).page other = store.page other :=
  update_of_ne different ..

theorem trades_setPage {cell : Cell} (member : cell ∈ share) (content : Content) :
    Trades store (store.setPage cell content) share share := by
  constructor
  · rfl
  · intro other _ notMine
    apply store.setPage_other
    exact fun same => notMine (same ▸ member)

end Store

/-! ### Many owners

The cells of an owner may depend on the contents of the store, as those of a linked
structure do, but only on the contents of the owner's own cells. -/

section Owners

variable {Owner : Type} {cells : Store Cell Content → Owner → Multiset Cell}

def Local (cells : Store Cell Content → Owner → Multiset Cell) : Prop :=
  ∀ store store' owner,
    (∀ cell, cell ∈ cells store owner → store'.page cell = store.page cell) →
    cells store' owner = cells store owner

def shares (cells : Store Cell Content → Owner → Multiset Cell) (store : Store Cell Content)
    (owners : Multiset Owner) : Multiset Cell :=
  (owners.map (cells store)).sum

theorem shares_cons (store : Store Cell Content) (owner : Owner) (owners : Multiset Owner) :
    shares cells store (owner ::ₘ owners) = cells store owner + shares cells store owners := by
  unfold shares
  rw [Multiset.map_cons, Multiset.sum_cons]

theorem shares_add (store : Store Cell Content) (first second : Multiset Owner) :
    shares cells store (first + second) =
      shares cells store first + shares cells store second := by
  unfold shares
  rw [Multiset.map_add, Multiset.sum_add]

theorem shares_singleton (store : Store Cell Content) (owner : Owner) :
    shares cells store {owner} = cells store owner := by
  unfold shares
  rw [Multiset.map_singleton, Multiset.sum_singleton]

theorem subset_shares {store : Store Cell Content} {owner : Owner} {owners : Multiset Owner}
    (member : owner ∈ owners) {cell : Cell} (inside : cell ∈ cells store owner) :
    cell ∈ shares cells store owners := by
  obtain ⟨rest, rfl⟩ := Multiset.exists_cons_of_mem member
  rw [shares_cons]
  exact Multiset.mem_add.mpr (Or.inl inside)

theorem Trades.shares_rest {before after : Store Cell Content} {given taken : Multiset Cell}
    {rest : Multiset Owner} (isLocal : Local cells) (trade : Trades before after given taken)
    (sound : before.Sound (given + shares cells before rest)) :
    shares cells after rest = shares cells before rest := by
  unfold shares
  congr 1
  apply Multiset.map_congr rfl
  intro owner member
  apply isLocal
  intro cell inside
  exact trade.others sound (subset_shares member inside)

theorem Trades.conserves_all {before after : Store Cell Content} {given taken rest : Multiset Owner}
    (isLocal : Local cells)
    (trade : Trades before after (shares cells before given) (shares cells after taken))
    (sound : before.Sound (shares cells before (given + rest))) :
    (after.freelist : Multiset Cell) + shares cells after (taken + rest) =
      before.freelist + shares cells before (given + rest) := by
  rw [shares_add] at sound
  rw [shares_add, shares_add, trade.shares_rest isLocal sound, ← add_assoc, ← add_assoc,
    trade.conserved]

end Owners

end Xv6.Library
