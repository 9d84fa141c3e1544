/-
The holder of a lock.

A lock records its holder; each process is at a point of its code where it holds the lock
or not.  The two agree as long as the record changes only by taking a free lock and by
giving up a held one.
-/

import Mathlib.Logic.Basic

namespace Xv6.Library

variable {Process : Type}

/-- Exactly the recorded owner, if there is one, holds the lock. -/
def Owned (owner : Option Process) (holds : Process → Prop) : Prop :=
  ∀ p, holds p ↔ owner = some p

namespace Owned

variable {owner : Option Process} {holds holds' : Process → Prop}

theorem unique (owned : Owned owner holds) {p q : Process} (first : holds p)
    (second : holds q) : p = q := by
  have one := (owned p).mp first
  rw [(owned q).mp second] at one
  exact (Option.some.inj one).symm

theorem not_free (owned : Owned owner holds) {p : Process} (held : holds p) :
    owner ≠ none := by
  rw [(owned p).mp held]
  exact Option.some_ne_none p

theorem keep (owned : Owned owner holds) (same : ∀ q, holds' q ↔ holds q) :
    Owned owner holds' :=
  fun q => (same q).trans (owned q)

theorem take {p : Process} (owned : Owned none holds) (mine : holds' p)
    (others : ∀ q, q ≠ p → (holds' q ↔ holds q)) : Owned (some p) holds' := by
  intro q
  by_cases same : q = p
  · rw [same]
    exact iff_of_true mine rfl
  · rw [others q same, owned q]
    apply iff_of_false
    · exact Option.some_ne_none q ∘ Eq.symm
    · exact fun equal => same (Option.some.inj equal).symm

theorem drop {p : Process} (owned : Owned owner holds) (held : holds p) (mine : ¬ holds' p)
    (others : ∀ q, q ≠ p → (holds' q ↔ holds q)) : Owned none holds' := by
  intro q
  apply iff_of_false
  · intro still
    by_cases same : q = p
    · exact mine (same ▸ still)
    · exact same (owned.unique ((others q same).mp still) held)
  · exact Option.some_ne_none q ∘ Eq.symm

end Owned

end Xv6.Library
