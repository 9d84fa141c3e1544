/-
The input ring of the console holds the committed bytes that wait for a reader and, behind
them, the line that is being edited.
-/

import Mathlib.Data.List.DropRight
import Xv6.Console.Model

namespace Xv6.Console

open Library

/-! ### Lines -/

/-- Committed bytes that wait for a reader, and the line that is being edited. -/
structure Lines where
  unread : List UInt8
  line : List UInt8

namespace Lines

/-- A character at the end of the line.  The line is complete after a newline or ^D, or if it
fills the buffer. -/
def type (lines : Lines) (c : Nat) : Lines :=
  if c = 10 ∨ c = 13 ∨ c = 4 ∨ lines.unread.length + lines.line.length + 1 = INPUT_BUF then
    ⟨lines.unread ++ (lines.line ++ [UInt8.ofNat (if c = 13 then 10 else c)]), []⟩
  else ⟨lines.unread, lines.line ++ [UInt8.ofNat c]⟩

def character (lines : Lines) (c : Nat) : Lines :=
  if c = 0x10 then lines
  else if c = 0x15 then ⟨lines.unread, lines.line.rdropWhile (fun byte => byte ≠ newline)⟩
  else if c = 8 ∨ c = 0x7f then ⟨lines.unread, lines.line.dropLast⟩
  else if c ≠ 0 ∧ lines.unread.length + lines.line.length < INPUT_BUF then lines.type c
  else lines

end Lines

namespace Input

variable {input next : Input} {line : List UInt8} {c : Nat}

def lines (input : Input) : Lines := ⟨input.unread, input.line⟩

/-! ### The ring -/

/-- The order of the indices. -/
structure Ok (input : Input) : Prop where
  ordered : span input.r input.w ≤ span input.r input.e
  bounded : span input.r input.e ≤ INPUT_BUF

theorem input_buf_divides : INPUT_BUF ∣ 2 ^ 32 := by decide

theorem Ok.total (ok : input.Ok) :
    span input.r input.e = input.unread.length + input.line.length := by
  unfold unread Input.line
  rw [length_segment, length_segment]
  exact span_split ok.ordered

theorem line_eq_nil : input.line = [] ↔ input.w = input.e := by
  rw [← List.length_eq_zero_iff, Input.line, length_segment, span_eq_zero]

/-- A change of the line behind the committed bytes. -/
structure Edits (input next : Input) (line : List UInt8) : Prop where
  ok : next.Ok
  first : next.r = input.r
  last : next.w = input.w
  unread : next.unread = input.unread
  line : next.line = line

theorem Edits.refl (ok : input.Ok) : input.Edits input input.line where
  ok := ok
  first := rfl
  last := rfl
  unread := rfl
  line := rfl

theorem Edits.trans {later : Input} {line' : List UInt8} (edits : input.Edits next line)
    (again : next.Edits later line') : input.Edits later line' where
  ok := again.ok
  first := again.first.trans edits.first
  last := again.last.trans edits.last
  unread := again.unread.trans edits.unread
  line := again.line

theorem Ok.back (ok : input.Ok) (some : input.e ≠ input.w) :
    input.line =
        ({ input with e := input.e - 1 } : Input).line ++
          [input.buf ((input.e - 1).toNat % INPUT_BUF)] ∧
      input.Edits { input with e := input.e - 1 } input.line.dropLast := by
  have shorter : input.line = _ := segment_back input.buf input_buf_divides some.symm
  have ahead : span input.w input.e ≠ 0 := fun same => some (span_eq_zero.mp same).symm
  have total := span_split ok.ordered
  have apart : input.r ≠ input.e := by
    intro same
    rw [span_eq_zero.mpr same] at total
    omega
  have back := span_back apart
  have bounded := ok.bounded
  refine ⟨shorter, ⟨?_, ?_⟩, rfl, rfl, rfl, ?_⟩
  · change span input.r input.w ≤ span input.r (input.e - 1)
    omega
  · change span input.r (input.e - 1) ≤ INPUT_BUF
    omega
  · rw [shorter, List.dropLast_concat]
    rfl

theorem Ok.backspace (ok : input.Ok) : input.Edits input.backspace input.line.dropLast := by
  unfold Input.backspace
  by_cases some : input.e ≠ input.w
  · rw [if_pos some]
    exact (ok.back some).2
  · rw [if_neg some]
    have empty : input.line = [] := line_eq_nil.mpr (not_not.mp some).symm
    have edits := Edits.refl ok
    rw [empty] at edits ⊢
    exact edits

/-- The loop of ^U removes the bytes behind the last newline of the line. -/
theorem killLine_edits (fuel : Nat) : ∀ {input : Input}, input.Ok → input.line.length ≤ fuel →
    input.Edits (killLine fuel input) (input.line.rdropWhile (fun byte => byte ≠ newline)) := by
  induction fuel with
  | zero =>
    intro input ok short
    have empty : input.line = [] := List.length_eq_zero_iff.mp (Nat.le_zero.mp short)
    have edits := Edits.refl ok
    rw [empty] at edits ⊢
    exact edits
  | succ fuel ih =>
    intro input ok short
    unfold killLine
    by_cases some : input.e ≠ input.w
    · obtain ⟨split, edits⟩ := ok.back some
      by_cases other : input.buf ((input.e - 1).toNat % INPUT_BUF) ≠ newline
      · rw [if_pos ⟨some, other⟩]
        have shorter : ({ input with e := input.e - 1 } : Input).line.length ≤ fuel := by
          rw [split, List.length_append, List.length_singleton] at short
          omega
        have rest := edits.trans (ih edits.ok shorter)
        rw [split, List.rdropWhile_concat_pos _ _ _ (by simpa using other)]
        exact rest
      · rw [if_neg fun both => other both.2, split,
          List.rdropWhile_concat_neg _ _ _ (by simpa using other), ← split]
        exact Edits.refl ok
    · rw [if_neg fun both => some both.1]
      have empty : input.line = [] := line_eq_nil.mpr (not_not.mp some).symm
      have edits := Edits.refl ok
      rw [empty] at edits ⊢
      exact edits

theorem Ok.store (ok : input.Ok) (room : span input.r input.e < INPUT_BUF) (c : Nat) :
    input.Edits (input.store c) (input.line ++ [UInt8.ofNat c]) := by
  have longer : span input.r (input.e + 1) = span input.r input.e + 1 :=
    span_succ (Nat.lt_of_lt_of_le (Nat.succ_lt_succ room) (by decide))
  have ordered := ok.ordered
  have total := span_split ordered
  have whole : segment INPUT_BUF (input.store c).buf input.r (input.e + 1) =
      segment INPUT_BUF input.buf input.r input.e ++ [UInt8.ofNat c] :=
    segment_push input.buf input_buf_divides room (by decide) _
  have kept : segment INPUT_BUF (input.store c).buf input.r input.w =
      segment INPUT_BUF input.buf input.r input.w :=
    segment_update input.buf input_buf_divides room ordered _
  refine ⟨⟨?_, ?_⟩, rfl, rfl, kept, ?_⟩
  · change span input.r input.w ≤ span input.r (input.e + 1)
    omega
  · change span input.r (input.e + 1) ≤ INPUT_BUF
    omega
  · rw [segment_split _ input_buf_divides (by omega : span input.r input.w ≤ _), kept,
      segment_split _ input_buf_divides ordered, List.append_assoc] at whole
    exact List.append_cancel_left whole

theorem Ok.commit (ok : input.Ok) :
    ({ input with w := input.e } : Input).Ok ∧
      ({ input with w := input.e } : Input).unread = input.unread ++ input.line ∧
      ({ input with w := input.e } : Input).line = [] :=
  ⟨⟨Nat.le_refl _, ok.bounded⟩, segment_split _ input_buf_divides ok.ordered,
    segment_self _ _⟩

/-! ### The handler -/

/-- A character changes the line, or completes and commits it. -/
inductive Handled (input : Input) : Input → Prop
  | edited {next : Input} (line : List UInt8) : input.Edits next line → Handled input next
  | committed {typed : Input} (line : List UInt8) :
      input.Edits typed line → Handled input { typed with w := typed.e }

theorem Ok.type (ok : input.Ok) (room : span input.r input.e < INPUT_BUF) (c : Nat) :
    input.Handled (input.type c).1 ∧ (input.type c).1.lines = input.lines.type c := by
  have total := ok.total
  have edits := ok.store room (if c = 13 then 10 else c)
  have full : (input.store (if c = 13 then 10 else c)).e =
      (input.store (if c = 13 then 10 else c)).r + BitVec.ofNat 32 INPUT_BUF ↔
        input.lines.unread.length + input.lines.line.length + 1 = INPUT_BUF := by
    rw [span_eq_iff (by decide), edits.ok.total, edits.unread, edits.line, List.length_append,
      List.length_singleton, ← Nat.add_assoc]
    rfl
  have complete : ((if c = 13 then 10 else c) = 10 ∨ (if c = 13 then 10 else c) = 4 ∨
      (input.store (if c = 13 then 10 else c)).e =
        (input.store (if c = 13 then 10 else c)).r + BitVec.ofNat 32 INPUT_BUF) ↔
      (c = 10 ∨ c = 13 ∨ c = 4 ∨
        input.lines.unread.length + input.lines.line.length + 1 = INPUT_BUF) := by
    rw [full]
    split <;> omega
  unfold Input.type Lines.type
  by_cases ends : c = 10 ∨ c = 13 ∨ c = 4 ∨
      input.lines.unread.length + input.lines.line.length + 1 = INPUT_BUF
  · obtain ⟨_, unread, line⟩ := edits.ok.commit
    simp only [if_pos (complete.mpr ends)]
    refine ⟨.committed _ edits, ?_⟩
    rw [if_pos ends]
    unfold lines
    rw [unread, line, edits.unread, edits.line]
  · simp only [if_neg (mt complete.mp ends)]
    refine ⟨.edited _ edits, ?_⟩
    rw [if_neg ends]
    have plain : (if c = 13 then 10 else c) = c := if_neg fun cr => ends (Or.inr (Or.inl cr))
    unfold lines
    rw [edits.unread, edits.line, plain]

/-- The handler edits lines. -/
theorem Ok.consoleintr (ok : input.Ok) (c : Nat) :
    input.Handled (input.consoleintr c).1 ∧
      (input.consoleintr c).1.lines = input.lines.character c := by
  have total := ok.total
  have edited {next : Input} {line : List UInt8} (edits : input.Edits next line) :
      next.lines = ⟨input.unread, line⟩ := by
    unfold lines
    rw [edits.unread, edits.line]
  have room : (input.e - input.r).toNat < INPUT_BUF ↔
      input.lines.unread.length + input.lines.line.length < INPUT_BUF := by
    change span input.r input.e < INPUT_BUF ↔ _
    rw [total]
    rfl
  unfold Input.consoleintr Lines.character
  by_cases listing : c = 0x10
  · rw [if_pos listing, if_pos listing]
    exact ⟨.edited _ (.refl ok), rfl⟩
  · rw [if_neg listing, if_neg listing]
    by_cases kill : c = 0x15
    · rw [if_pos kill, if_pos kill]
      have edits := killLine_edits (span input.w input.e) ok (by
        rw [Input.line, length_segment])
      exact ⟨.edited _ edits, edited edits⟩
    · rw [if_neg kill, if_neg kill]
      by_cases erase : c = 8 ∨ c = 0x7f
      · rw [if_pos erase, if_pos erase]
        exact ⟨.edited _ ok.backspace, edited ok.backspace⟩
      · rw [if_neg erase, if_neg erase]
        by_cases fits : c ≠ 0 ∧ (input.e - input.r).toNat < INPUT_BUF
        · rw [if_pos fits, if_pos ⟨fits.1, room.mp fits.2⟩]
          exact ok.type fits.2 c
        · rw [if_neg fits, if_neg fun both => fits ⟨both.1, room.mpr both.2⟩]
          exact ⟨.edited _ (.refl ok), rfl⟩

theorem Handled.unread (handled : input.Handled next) :
    next.Ok ∧ next.r = input.r ∧
      next.unread = input.unread ++ segment INPUT_BUF next.buf input.w next.w := by
  cases handled with
  | edited line edits =>
    refine ⟨edits.ok, edits.first, ?_⟩
    rw [edits.unread, edits.last, segment_self, List.append_nil]
  | @committed typed line edits =>
    obtain ⟨ok, unread, _⟩ := edits.ok.commit
    refine ⟨ok, edits.first, ?_⟩
    rw [unread, edits.unread, ← edits.last]
    rfl

/-! ### The readers -/

theorem Ok.take (ok : input.Ok) (some : input.r ≠ input.w) :
    ({ input with r := input.r + 1 } : Input).Ok ∧
      input.unread = input.oldest :: ({ input with r := input.r + 1 } : Input).unread ∧
      segment INPUT_BUF input.buf input.r (input.r + 1) = [input.oldest] := by
  have positive : span input.r input.w ≠ 0 := fun empty => some (span_eq_zero.mp empty)
  obtain ⟨count, ahead⟩ := Nat.exists_eq_succ_of_ne_zero positive
  have ordered := ok.ordered
  have bounded := ok.bounded
  have further : span input.r input.e = (span input.r input.e - 1) + 1 := by omega
  have one : span input.r (input.r + 1) = 1 := (span_eq_iff (by decide)).mp rfl
  refine ⟨⟨?_, ?_⟩, segment_pop input.buf input_buf_divides some, ?_⟩
  · change span (input.r + 1) input.w ≤ span (input.r + 1) input.e
    rw [span_pred ahead, span_pred further]
    omega
  · change span (input.r + 1) input.e ≤ INPUT_BUF
    rw [span_pred further]
    omega
  · rw [Library.segment, one, List.range_one, List.map_singleton, Nat.add_zero]
    rfl

end Input

end Xv6.Console
