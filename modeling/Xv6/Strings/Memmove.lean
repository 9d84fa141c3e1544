/-
The two versions of `memmove`: the kernel's in `string.c` and the user library's in `ulib.c`.

Pointers are addresses in a space of 2^32 bytes.  The kernel chooses the direction of the
copy by comparing the ranges; the user library always copies upwards.
-/

import Xv6.Library.Bytes

namespace Xv6.Strings

open Function Library

/-- The size of the address space. -/
abbrev ADDRESSES : Nat := 0x100000000

/-- `while(n-- > 0) *d++ = *s++` -/
def copyUp : Nat → Nat → Nat → Area → Area
  | 0, _, _, mem => mem
  | n + 1, d, s, mem => copyUp n (d + 1) (s + 1) (update mem d (mem s))

/-- `while(n-- > 0) *--d = *--s` -/
def copyDown : Nat → Nat → Nat → Area → Area
  | 0, _, _, mem => mem
  | n + 1, d, s, mem => copyDown n (d - 1) (s - 1) (update mem (d - 1) (mem (s - 1)))

namespace StringC

/-- The sum of the comparison is a pointer and wraps. -/
def memmove (dst src n : Nat) (mem : Area) : Area :=
  if src < dst ∧ dst < (src + n) % ADDRESSES then copyDown n (dst + n) (src + n) mem
  else copyUp n dst src mem

end StringC

namespace Ulib

def memmove (dst src n : Nat) (mem : Area) : Area := copyUp n dst src mem

end Ulib

/-- What a move of `n` bytes is for. -/
structure Moves (dst src n : Nat) (mem after : Area) : Prop where
  copied : ∀ i < n, after (dst + i) = mem (src + i)
  rest : ∀ a, a < dst ∨ dst + n ≤ a → after a = mem a

variable {dst src n : Nat} {mem after other : Area}

theorem Moves.unique (first : Moves dst src n mem after) (second : Moves dst src n mem other) :
    after = other := by
  funext a
  by_cases inside : dst ≤ a ∧ a < dst + n
  · obtain ⟨i, rfl⟩ := Nat.exists_eq_add_of_le inside.1
    have bounded : i < n := by omega
    rw [first.copied i bounded, second.copied i bounded]
  · have outside : a < dst ∨ dst + n ≤ a := by omega
    rw [first.rest a outside, second.rest a outside]

/-- A byte is read before the copy overwrites it. -/
theorem copyUp_moves (apart : dst ≤ src ∨ src + n ≤ dst) :
    Moves dst src n mem (copyUp n dst src mem) := by
  induction n generalizing dst src mem with
  | zero => exact ⟨fun i none => absurd none (Nat.not_lt_zero i), fun _ _ => rfl⟩
  | succ n ih =>
    have later : dst + 1 ≤ src + 1 ∨ src + 1 + n ≤ dst + 1 := by omega
    have moved := @ih (dst + 1) (src + 1) (update mem dst (mem src)) later
    rw [copyUp]
    constructor
    · intro i bounded
      cases i with
      | zero =>
        rw [moved.rest _ (by omega)]
        exact update_self dst (mem src) mem
      | succ i =>
        have copied := moved.copied i (by omega)
        rw [update_of_ne (by omega)] at copied
        rw [← Nat.add_assoc, Nat.add_right_comm, copied, ← Nat.add_assoc, Nat.add_right_comm]
    · intro a outside
      rw [moved.rest a (by omega), update_of_ne (by omega)]

theorem copyDown_moves (below : src ≤ dst) :
    Moves dst src n mem (copyDown n (dst + n) (src + n) mem) := by
  induction n generalizing mem with
  | zero => exact ⟨fun i none => absurd none (Nat.not_lt_zero i), fun _ _ => rfl⟩
  | succ n ih =>
    have moved := @ih (update mem (dst + n) (mem (src + n)))
    rw [← Nat.add_assoc, ← Nat.add_assoc, copyDown, Nat.add_sub_cancel, Nat.add_sub_cancel]
    constructor
    · intro i bounded
      by_cases last : i = n
      · subst last
        rw [moved.rest _ (by omega)]
        exact update_self _ _ mem
      · rw [moved.copied i (by omega), update_of_ne (by omega)]
    · intro a outside
      rw [moved.rest a (by omega), update_of_ne (by omega)]

/-- The kernel copies downwards only where the ranges overlap and the target is the upper one;
there `src + n` does not wrap, since the target ends inside the address space. -/
theorem StringC.memmove_moves (inside : dst + n ≤ ADDRESSES) :
    Moves dst src n mem (StringC.memmove dst src n mem) := by
  unfold StringC.memmove
  split
  · rename_i overlap
    exact copyDown_moves overlap.1.le
  · rename_i separate
    apply copyUp_moves
    by_contra overlap
    have unwrapped : (src + n) % ADDRESSES = src + n := Nat.mod_eq_of_lt (by omega)
    omega

theorem Ulib.memmove_moves (apart : dst ≤ src ∨ src + n ≤ dst) :
    Moves dst src n mem (Ulib.memmove dst src n mem) :=
  copyUp_moves apart

theorem copyUp_const (n d s : Nat) (byte : UInt8) :
    copyUp n d s (fun _ => byte) = fun _ => byte := by
  induction n generalizing d s with
  | zero => rfl
  | succ n ih =>
    rw [copyUp, update_eq_self d (fun _ => byte)]
    exact ih (d + 1) (s + 1)

/-- A byte that stands only at the start of the target is lost before it is read. -/
theorem Ulib.memmove_loses (target : dst + n ≤ ADDRESSES)
    (overlap : src < dst ∧ dst < src + n) :
    Ulib.memmove dst src n (update (fun _ => 0) dst 1) ≠
      StringC.memmove dst src n (update (fun _ => 0) dst 1) := by
  intro same
  obtain ⟨k, rfl⟩ := Nat.exists_eq_add_of_lt overlap.1
  obtain ⟨m, rfl⟩ : ∃ m, n = m + 1 := ⟨n - 1, by omega⟩
  have user : Ulib.memmove (src + k + 1) src (m + 1)
      (update (fun _ => 0) (src + k + 1) 1) = fun _ => 0 := by
    rw [Ulib.memmove, copyUp, update_of_ne (by omega), update_idem,
      update_eq_self _ (fun _ => (0 : UInt8))]
    exact copyUp_const ..
  have kept := congrFun (user.symm.trans same) (src + k + 1 + (k + 1))
  rw [(StringC.memmove_moves target).copied (k + 1) (by omega), ← Nat.add_assoc,
    update_self] at kept
  cases kept

/-- Within the address space the kernel's version moves the bytes, also where the ranges
overlap.  The user library's agrees with it on every memory unless the target starts inside the
source, above its first byte. -/
theorem memmove_versions (dst src n : Nat) (target : dst + n ≤ ADDRESSES) :
    (∀ mem, Moves dst src n mem (StringC.memmove dst src n mem)) ∧
      ((∀ mem, Ulib.memmove dst src n mem = StringC.memmove dst src n mem) ↔
        ¬(src < dst ∧ dst < src + n)) := by
  have kernel : ∀ mem, Moves dst src n mem (StringC.memmove dst src n mem) :=
    fun mem => StringC.memmove_moves target
  refine ⟨kernel, fun agree overlap => Ulib.memmove_loses target overlap (agree _), ?_⟩
  intro apart mem
  have user : Moves dst src n mem (Ulib.memmove dst src n mem) :=
    Ulib.memmove_moves (by omega)
  exact user.unique (kernel mem)

/-- Moved down by one byte within one array. -/
theorem memmove_versions_down :
    Ulib.memmove 10 11 2 (fun a => UInt8.ofNat a) =
        StringC.memmove 10 11 2 (fun a => UInt8.ofNat a) ∧
      StringC.memmove 10 11 2 (fun a => UInt8.ofNat a) 10 = 11 :=
  ⟨(memmove_versions 10 11 2 (by decide)).2.mpr (by decide) _, by decide⟩

/-- Moved up by one byte, the user library repeats the first byte. -/
theorem memmove_versions_up :
    StringC.memmove 11 10 2 (fun a => UInt8.ofNat a) 12 = 11 ∧
      Ulib.memmove 11 10 2 (fun a => UInt8.ofNat a) 12 = 10 := by
  decide

end Xv6.Strings
