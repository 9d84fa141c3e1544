/-
Redo logs: lists of addressed values that are installed into a store.

Installing writes the entries in order, so the last entry of an address wins.  A
store may be overwritten with anything at the addresses of a log before the log is
installed, in particular with a part of the log itself, and the result is the same.
-/

import Mathlib.Logic.Function.Basic
import Mathlib.Data.List.Basic

namespace Xv6.Library

open Function

section RedoLog

variable {Address Value : Type} [DecidableEq Address]

def install (entries : List (Address × Value)) (store : Address → Value) : Address → Value :=
  entries.foldl (fun store entry => update store entry.1 entry.2) store

@[simp]
theorem install_nil (store : Address → Value) : install [] store = store := rfl

theorem install_cons (entry : Address × Value) (entries : List (Address × Value))
    (store : Address → Value) :
    install (entry :: entries) store =
      install entries (update store entry.1 entry.2) := rfl

theorem install_append (first second : List (Address × Value)) (store : Address → Value) :
    install (first ++ second) store = install second (install first store) :=
  List.foldl_append

theorem install_concat (entries : List (Address × Value)) (address : Address) (value : Value)
    (store : Address → Value) :
    install (entries ++ [(address, value)]) store =
      update (install entries store) address value := by
  rw [install_append]
  rfl

theorem install_congr {entries : List (Address × Value)} {left right : Address → Value}
    (agree : ∀ address, address ∉ entries.map Prod.fst → left address = right address) :
    install entries left = install entries right := by
  induction entries generalizing left right with
  | nil =>
    funext address
    exact agree address List.not_mem_nil
  | cons entry entries ih =>
    rw [install_cons, install_cons]
    apply ih
    intro address absent
    by_cases same : address = entry.1
    · subst address
      rw [update_self, update_self]
    · rw [update_of_ne same, update_of_ne same]
      apply agree
      rw [List.map_cons, List.mem_cons]
      intro member
      rcases member with equal | later
      · exact same equal
      · exact absent later

/-- Writing to an address of the log before installing it changes nothing, so an
installation that was cut short can be repeated from the start. -/
theorem install_update {entries : List (Address × Value)} {address : Address}
    (logged : address ∈ entries.map Prod.fst) (value : Value) (store : Address → Value) :
    install entries (update store address value) = install entries store := by
  apply install_congr
  intro other absent
  apply update_of_ne
  intro same
  subst other
  exact absent logged

/-- A log whose values are read from a view shows the view at its addresses and the
store elsewhere. -/
theorem install_view (addresses : List Address) (view store : Address → Value)
    (address : Address) :
    install (addresses.map (fun logged => (logged, view logged))) store address =
      if address ∈ addresses then view address else store address := by
  induction addresses generalizing store with
  | nil => simp
  | cons first rest ih =>
    rw [List.map_cons, install_cons, ih]
    by_cases later : address ∈ rest
    · simp [later]
    · by_cases same : address = first
      · subst address
        simp [later]
      · simp [later, same]

end RedoLog

end Xv6.Library
