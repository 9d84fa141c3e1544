/-
Positions on a circle, seen from a cursor that goes round.

The distance of a position is the number of steps the cursor takes to reach it.  A
cursor that passes over some positions keeps the order of those still ahead.
-/

import Mathlib.Tactic

namespace Xv6.Library

def distance (size cursor position : Nat) : Nat :=
  if cursor ≤ position then position - cursor else position + size - cursor

theorem distance_cases {size cursor : Nat} (inside : cursor ≤ size) (position : Nat) :
    (cursor ≤ position ∧ distance size cursor position + cursor = position) ∨
      (position < cursor ∧ distance size cursor position + cursor = position + size) := by
  unfold distance
  split
  · left
    omega
  · right
    omega

section Distance

variable {size cursor : Nat} (inside : cursor ≤ size)
include inside

theorem distance_injective {first second : Nat} (firstBound : first < size)
    (secondBound : second < size)
    (equal : distance size cursor first = distance size cursor second) : first = second := by
  have firstCases := distance_cases inside first
  have secondCases := distance_cases inside second
  omega

theorem distance_advance {served near far : Nat} (servedBound : served < size)
    (nearBound : near < size) (farBound : far < size)
    (first : distance size cursor served < distance size cursor near)
    (order : distance size cursor near < distance size cursor far) :
    distance size (served + 1) near < distance size (served + 1) far := by
  have servedCases := distance_cases inside served
  have nearCases := distance_cases inside near
  have farCases := distance_cases inside far
  have beyond : served + 1 ≤ size := servedBound
  have nearAfter := distance_cases beyond near
  have farAfter := distance_cases beyond far
  omega

theorem distance_wrap {near far : Nat} (behind : near < cursor)
    (order : distance size cursor near < distance size cursor far) :
    distance size 0 near < distance size 0 far := by
  have nearCases := distance_cases inside near
  have farCases := distance_cases inside far
  have nearAfter := distance_cases (Nat.zero_le size) near
  have farAfter := distance_cases (Nat.zero_le size) far
  omega

end Distance

theorem distance_last {size served position : Nat} (servedBound : served < size)
    (bounded : position < size) (different : position ≠ served) :
    distance size (served + 1) position < distance size (served + 1) served := by
  have beyond : served + 1 ≤ size := servedBound
  have servedCases := distance_cases beyond served
  have positionCases := distance_cases beyond position
  omega

end Xv6.Library
