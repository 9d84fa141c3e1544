/-
The checks of system call arguments in `syscall.c`.

The functions return what they hand on, or nothing for -1, and the addresses at which they have
read user memory.  An address is a `uint`: the sums of the comparisons wrap.
-/

import Xv6.Library.Bytes
import Xv6.Memory.Model

namespace Xv6.Syscall

open Library Memory

/-- What the checks know of the caller: `sz`, the saved `esp`, and the memory. -/
structure Caller where
  sz : Nat
  esp : Nat
  mem : Area

def uint (n : Int) : Nat := (n % 2 ^ 32).toNat

section Checks

variable (curproc : Caller)

/-- The addresses of the four bytes of a word. -/
def word (addr : Nat) : List Nat := (List.range' addr 4).map (fun a : Nat => uint a)

def fetchint (addr : Nat) : Option Nat × List Nat :=
  if curproc.sz ≤ addr ∨ curproc.sz < uint (addr + 4) then (none, [])
  else (some (ofBytes ((word addr).map curproc.mem)), word addr)

/-- `for(s = *pp; s < ep; s++)`, with `ep - s` addresses left; the result is the length. -/
def scan (mem : Area) : Nat → Nat → Option Nat × List Nat
  | 0, _ => (none, [])
  | left + 1, s =>
    if mem s = 0 then (some 0, [s])
    else ((scan mem left (s + 1)).1.map (· + 1), s :: (scan mem left (s + 1)).2)

/-- Returns `*pp` and the length. -/
def fetchstr (addr : Nat) : Option (Nat × Nat) × List Nat :=
  if curproc.sz ≤ addr then (none, [])
  else
    let found := scan curproc.mem (curproc.sz - addr) addr
    (found.1.map (fun length => (addr, length)), found.2)

def argint (n : Int) : Option Nat × List Nat :=
  fetchint curproc (uint (curproc.esp + 4 + 4 * n))

def argptr (n size : Int) : Option Nat × List Nat :=
  match argint curproc n with
  | (none, reads) => (none, reads)
  | (some i, reads) =>
    if size < 0 ∨ curproc.sz ≤ i ∨ curproc.sz < uint (i + size) then (none, reads)
    else (some i, reads)

def argstr (n : Int) : Option (Nat × Nat) × List Nat :=
  match argint curproc n with
  | (none, reads) => (none, reads)
  | (some addr, reads) => ((fetchstr curproc addr).1, reads ++ (fetchstr curproc addr).2)

/-! ### What is accepted -/

/-- The word of argument `n` lies inside the memory of the caller and holds the value. -/
def IsArgument (n : Int) (value : Nat) : Prop :=
  uint (curproc.esp + 4 + 4 * n) + 4 ≤ curproc.sz ∧
    value = ofBytes (curproc.mem.slice (uint (curproc.esp + 4 + 4 * n)) 4)

/-- There is a string of this length at the address, and its NUL lies below `sz`. -/
def IsString (addr length : Nat) : Prop :=
  addr + length < curproc.sz ∧ curproc.mem (addr + length) = 0 ∧
    ∀ j < length, curproc.mem (addr + j) ≠ 0

end Checks

theorem uint_of_lt {n : Int} (positive : 0 ≤ n) (small : n < 2 ^ 32) : (uint n : Int) = n := by
  unfold uint
  omega

theorem word_eq {addr : Nat} (small : addr + 4 ≤ 2 ^ 32) : word addr = List.range' addr 4 := by
  refine (List.map_congr_left ?_).trans (List.map_id _)
  intro a member
  have bounds := List.mem_range'_1.mp member
  have same := uint_of_lt (n := a) (by omega) (by omega)
  exact Int.ofNat_inj.mp same

theorem scan_spec (mem : Area) (left s : Nat) :
    (∀ length, (scan mem left s).1 = some length ↔
      length < left ∧ mem (s + length) = 0 ∧ ∀ j < length, mem (s + j) ≠ 0) ∧
    ∀ a ∈ (scan mem left s).2, a < s + left := by
  induction left generalizing s with
  | zero => exact ⟨by simp [scan], nofun⟩
  | succ left ih =>
    obtain ⟨found, reads⟩ := ih (s + 1)
    unfold scan
    split
    · rename_i zero
      refine ⟨fun length => ?_, by simp⟩
      cases length with
      | zero => simp [zero]
      | succ length =>
        refine iff_of_false nofun ?_
        exact fun holds => holds.2.2 0 (Nat.succ_pos length) zero
    · rename_i nonzero
      constructor
      · intro length
        cases length with
        | zero => simp [nonzero]
        | succ length =>
          have next := found length
          simp only [Nat.add_right_comm s 1] at next
          rw [Nat.forall_lt_succ_left]
          simp [next, nonzero, Nat.add_assoc]
      · intro a member
        rcases List.mem_cons.mp member with rfl | later
        · omega
        · have below := reads a later
          omega

variable {curproc : Caller}

theorem fetchint_spec (small : curproc.sz < KERNBASE) (addr : Nat) :
    (∀ value, (fetchint curproc addr).1 = some value ↔
      addr + 4 ≤ curproc.sz ∧ value = ofBytes (curproc.mem.slice addr 4)) ∧
    ∀ a ∈ (fetchint curproc addr).2, a < curproc.sz := by
  simp only [KERNBASE] at small
  unfold fetchint
  by_cases inside : addr + 4 ≤ curproc.sz
  · have sum := uint_of_lt (n := addr + 4) (by omega) (by omega)
    have slice : (word addr).map curproc.mem = curproc.mem.slice addr 4 := by
      rw [word_eq (by omega)]
      rfl
    rw [if_neg (by omega), slice, word_eq (by omega)]
    refine ⟨fun value => by simp [inside, eq_comm], fun a member => ?_⟩
    have bounds := List.mem_range'_1.mp member
    omega
  · have refused : curproc.sz ≤ addr ∨ curproc.sz < uint (addr + 4) := by
      by_cases low : curproc.sz ≤ addr
      · exact Or.inl low
      · have sum := uint_of_lt (n := addr + 4) (by omega) (by omega)
        omega
    rw [if_pos refused]
    exact ⟨by simp [inside], nofun⟩

theorem fetchstr_spec (curproc : Caller) (addr : Nat) :
    (∀ a length, (fetchstr curproc addr).1 = some (a, length) ↔
      a = addr ∧ IsString curproc addr length) ∧
    ∀ a ∈ (fetchstr curproc addr).2, a < curproc.sz := by
  unfold fetchstr IsString
  split
  · refine ⟨fun a length => ?_, nofun⟩
    simp only [reduceCtorEq, false_iff]
    omega
  · obtain ⟨found, reads⟩ := scan_spec curproc.mem (curproc.sz - addr) addr
    refine ⟨fun a length => ?_, fun a member => by have below := reads a member; omega⟩
    have room : length < curproc.sz - addr ↔ addr + length < curproc.sz := by omega
    simp [found, room, eq_comm, and_comm]

/-- Each check accepts exactly the arguments that lie inside the memory of the caller, and
reads nothing outside it. -/
theorem argument_checks (curproc : Caller) (small : curproc.sz < KERNBASE) (n : Int) :
    ((∀ value, (argint curproc n).1 = some value ↔ IsArgument curproc n value) ∧
      ∀ a ∈ (argint curproc n).2, a < curproc.sz) ∧
    (∀ size : Int, size < 2 ^ 31 →
      (∀ p, (argptr curproc n size).1 = some p ↔
        IsArgument curproc n p ∧ 0 ≤ size ∧ p < curproc.sz ∧ p + size ≤ curproc.sz) ∧
      ∀ a ∈ (argptr curproc n size).2, a < curproc.sz) ∧
    (∀ p length, (argstr curproc n).1 = some (p, length) ↔
      IsArgument curproc n p ∧ IsString curproc p length) ∧
    (∀ p e, IsArgument curproc n p → p ≤ e → e < curproc.sz → curproc.mem e = 0 →
      ∃ length, (argstr curproc n).1 = some (p, length)) ∧
    ∀ a ∈ (argstr curproc n).2, a < curproc.sz := by
  have words := fetchint_spec small (uint (curproc.esp + 4 + 4 * n))
  change (∀ value, (argint curproc n).1 = some value ↔ IsArgument curproc n value) ∧
    ∀ a ∈ (argint curproc n).2, a < curproc.sz at words
  have strings : ∀ p length, (argstr curproc n).1 = some (p, length) ↔
      IsArgument curproc n p ∧ IsString curproc p length := by
    intro p length
    unfold argstr
    rw [← words.1 p]
    generalize argint curproc n = fetched
    rcases fetched with ⟨_ | addr, reads⟩
    · simp
    · simp only [(fetchstr_spec curproc addr).1, Option.some.injEq]
      constructor
      · rintro ⟨rfl, string⟩
        exact ⟨rfl, string⟩
      · rintro ⟨rfl, string⟩
        exact ⟨rfl, string⟩
  refine ⟨words, fun size bounded => ?_, strings, ?_, ?_⟩
  · simp only [← words.1]
    have reads := words.2
    unfold argptr
    generalize argint curproc n = fetched at reads ⊢
    rcases fetched with ⟨_ | i, read⟩
    · exact ⟨by simp, reads⟩
    · simp only [KERNBASE] at small
      dsimp only at reads ⊢
      split
      · rename_i refused
        refine ⟨fun p => ?_, reads⟩
        simp only [reduceCtorEq, Option.some.injEq, false_iff]
        rintro ⟨rfl, positive, low, inside⟩
        have sum := uint_of_lt (n := i + size) (by omega) (by omega)
        omega
      · rename_i accepted
        refine ⟨fun p => ?_, reads⟩
        simp only [Option.some.injEq, iff_self_and]
        rintro rfl
        have sum := uint_of_lt (n := i + size) (by omega) (by omega)
        omega
  · intro p e argument from' below nul
    have ends : ∃ length, curproc.mem (p + length) = 0 := ⟨e - p, by rwa [Nat.add_sub_cancel' from']⟩
    have first := Nat.find_min' ends (m := e - p) (by rwa [Nat.add_sub_cancel' from'])
    refine ⟨Nat.find ends, (strings p _).mpr ⟨argument, ?_, Nat.find_spec ends, ?_⟩⟩
    · omega
    · exact fun j less => Nat.find_min ends less
  · have reads := words.2
    unfold argstr
    generalize argint curproc n = fetched at reads ⊢
    rcases fetched with ⟨_ | addr, read⟩
    · exact reads
    · intro a member
      rcases List.mem_append.mp member with here | there
      · exact reads a here
      · exact (fetchstr_spec curproc addr).2 a there

/-- A pointer to the last four bytes, and the same pointer for five. -/
theorem argument_checks_last_word :
    (argptr ⟨16, 0, Area.patch (fun _ => 0) 4 [12]⟩ 0 4).1 = some 12 ∧
      (argptr ⟨16, 0, Area.patch (fun _ => 0) 4 [12]⟩ 0 5).1 ≠ some 12 := by
  obtain ⟨_, pointers, _⟩ := argument_checks ⟨16, 0, Area.patch (fun _ => 0) 4 [12]⟩ (by decide) 0
  refine ⟨((pointers 4 (by decide)).1 12).mpr ⟨⟨by decide, by decide⟩, by decide⟩, ?_⟩
  intro accepted
  have inside := ((pointers 5 (by decide)).1 12).mp accepted
  exact absurd inside.2.2.2 (by decide)

end Xv6.Syscall
