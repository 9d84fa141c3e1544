/-
Strings in arrays of a fixed number of characters.

Such an array holds a string that ends at the first NUL byte or at the end of the array.
-/

import Mathlib.Data.List.TakeWhile
import Mathlib.Tactic

namespace Xv6.Library

/-- The string that the first `n` characters hold. -/
def cstr (n : Nat) (s : List UInt8) : List UInt8 := (s.take n).takeWhile (fun c => c != 0)

def strncpy (n : Nat) (s : List UInt8) : List UInt8 :=
  cstr n s ++ List.replicate (n - (cstr n s).length) 0

/-- An end of a list counts as a NUL byte. -/
def strncmp : Nat → List UInt8 → List UInt8 → Int
  | 0, _, _ => 0
  | n + 1, p, q =>
    if p.headD 0 ≠ 0 ∧ p.headD 0 = q.headD 0 then strncmp n p.tail q.tail
    else ((p.headD 0).toNat : Int) - (q.headD 0).toNat

theorem length_cstr_le (n : Nat) (s : List UInt8) : (cstr n s).length ≤ n :=
  le_trans (List.takeWhile_sublist _).length_le (List.length_take_le n s)

variable {n : Nat} {s : List UInt8}

@[simp]
theorem length_strncpy (n : Nat) (s : List UInt8) : (strncpy n s).length = n := by
  have bounded := length_cstr_le n s
  unfold strncpy
  rw [List.length_append, List.length_replicate]
  omega

end Xv6.Library
