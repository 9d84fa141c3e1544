/-
The loop of `grep` over its input.

The input arrives in pieces, one for each `read` that returns more than 0.  Between two reads the
first `m` bytes of `buf` are the beginning of a line whose end has not been read yet.  A read
that does not complete a line takes the branch `p == buf`, and `m = 0` drops what was read.
-/

import Xv6.Grep.Matcher
import Xv6.Strings.Memmove

namespace Xv6.Grep

open Function Library Strings

/-- `sizeof(buf)` -/
abbrev SIZE : Nat := 1024

def newline : UInt8 := '\n'.toUInt8

/-- `strchr` of `ulib.c`; `room` bytes of the buffer are left. -/
def strchr (c : UInt8) (mem : Area) : Nat → Nat → Option Nat
  | 0, _ => none
  | room + 1, s =>
    if mem s = 0 then none else if mem s = c then some s else strchr c mem room (s + 1)

/-- The string at a position. -/
def cstring (mem : Area) : Nat → Nat → Str
  | 0, _ => []
  | room + 1, s => if mem s = 0 then [] else mem s :: cstring mem room (s + 1)

/-- The variables of the inner loop, and what has been written to the standard output. -/
structure Cursor where
  p : Nat
  buf : Area
  out : Str

/-- The body of the inner loop.  The NUL stays in the place of the newline if the line does not
match. -/
def line (pattern : Str) (q : Nat) (c : Cursor) : Cursor :=
  let cut : Area := update c.buf q 0
  if matchtext pattern (cstring cut (SIZE - c.p) c.p) then
    let back : Area := update cut q newline
    ⟨q + 1, back, c.out ++ back.slice c.p (q + 1 - c.p)⟩
  else ⟨q + 1, cut, c.out⟩

/-- `while((q = strchr(p, '\n')) != 0)` -/
def lines (pattern : Str) : Nat → Cursor → Cursor
  | 0, c => c
  | fuel + 1, c =>
    match strchr newline c.buf (SIZE - c.p) c.p with
    | none => c
    | some q => lines pattern fuel (line pattern q c)

structure State where
  buf : Area
  m : Nat
  out : Str

/-- The body of the outer loop, after `read` has returned a piece. -/
def round (pattern piece : Str) (s : State) : State :=
  let m := s.m + piece.length
  let buf : Area := update (s.buf.patch s.m piece) m 0
  let done := lines pattern SIZE ⟨0, buf, s.out⟩
  let m := if done.p = 0 then 0 else m
  if 0 < m then ⟨Ulib.memmove 0 done.p (m - done.p) done.buf, m - done.p, done.out⟩
  else ⟨done.buf, m, done.out⟩

/-- The loop ends when the pieces do and `read` returns 0. -/
def grep (pattern : Str) (s : State) (pieces : List Str) : State :=
  pieces.foldl (fun s piece => round pattern piece s) s

/-- The buffer is global: it starts with whatever the last file has left there. -/
def start (buf : Area) : State := ⟨buf, 0, []⟩

/-- What `read` may return: something, and no more than it is asked for. -/
def Permitted (pattern : Str) : State → List Str → Prop
  | _, [] => True
  | s, piece :: pieces =>
    piece ≠ [] ∧ piece.length ≤ SIZE - s.m - 1 ∧ Permitted pattern (round pattern piece s) pieces

/-! ### Lines of a text -/

def unlines (rows : List Str) : Str := rows.flatMap (fun row => row ++ [newline])

/-- A text inside one line of the input. -/
def Plain (text : Str) : Prop := ∀ c ∈ text, c ≠ 0 ∧ c ≠ newline

/-- The lines that `grep` is to print. -/
def printed (pattern : Str) (rows : List Str) : Str :=
  unlines (rows.filter (matchtext pattern))

variable {pattern row part piece text : Str} {rows : List Str} {pieces : List Str}

theorem unlines_cons (row : Str) (rows : List Str) :
    unlines (row :: rows) = row ++ newline :: unlines rows := by
  simp [unlines]

theorem printed_cons (pattern row : Str) (rows : List Str) :
    printed pattern (row :: rows) = printed pattern [row] ++ printed pattern rows := by
  unfold printed unlines
  rw [← List.flatMap_append, ← List.filter_append]
  rfl

theorem printed_append (pattern : Str) (first second : List Str) :
    printed pattern (first ++ second) = printed pattern first ++ printed pattern second := by
  unfold printed unlines
  rw [List.filter_append, List.flatMap_append]

theorem newline_mem_unlines (some : rows ≠ []) : newline ∈ unlines rows := by
  cases rows with
  | nil => exact absurd rfl some
  | cons row rows =>
    rw [unlines_cons]
    exact List.mem_append_right row List.mem_cons_self

theorem zero_not_mem_unlines (plain : ∀ row ∈ rows, Plain row) : 0 ∉ unlines rows := by
  intro member
  obtain ⟨row, among, here⟩ := List.mem_flatMap.mp member
  rcases List.mem_append.mp here with within | last
  · exact (plain row among 0 within).1 rfl
  · exact absurd (List.mem_singleton.mp last) (by decide)

/-- Every text consists of whole lines and the beginning of one. -/
theorem exists_unlines (text : Str) (nonzero : 0 ∉ text) :
    ∃ rows part, text = unlines rows ++ part ∧ (∀ row ∈ rows, Plain row) ∧ Plain part := by
  induction text with
  | nil => exact ⟨[], [], rfl, by simp, by simp [Plain]⟩
  | cons c text ih =>
    rw [List.mem_cons, not_or] at nonzero
    obtain ⟨rows, part, split, whole, begun⟩ := ih nonzero.2
    by_cases ends : c = newline
    · refine ⟨[] :: rows, part, ?_, ?_, begun⟩
      · rw [unlines_cons, ends, split]
        rfl
      · simpa [Plain] using whole
    · have longer : ∀ {row}, Plain row → Plain (c :: row) := by
        intro row plain d inside
        rcases List.mem_cons.mp inside with rfl | behind
        · exact ⟨Ne.symm nonzero.1, ends⟩
        · exact plain d behind
      cases rows with
      | nil => exact ⟨[], c :: part, by rw [split]; rfl, by simp, longer begun⟩
      | cons row rows =>
        refine ⟨(c :: row) :: rows, part, ?_, ?_, begun⟩
        · rw [split, unlines_cons, unlines_cons]
          rfl
        · intro other inside
          rcases List.mem_cons.mp inside with rfl | behind
          · exact longer (whole row List.mem_cons_self)
          · exact whole other (List.mem_cons_of_mem row behind)

theorem cut_unique {first second : Str} {rest others : Str} (plain : Plain first)
    (same : Plain second) (equal : first ++ newline :: rest = second ++ newline :: others) :
    first = second ∧ rest = others := by
  induction first generalizing second with
  | nil =>
    cases second with
    | nil => exact ⟨rfl, List.tail_eq_of_cons_eq equal⟩
    | cons d second => exact absurd (List.head_eq_of_cons_eq equal).symm (same d List.mem_cons_self).2
  | cons c first ih =>
    cases second with
    | nil => exact absurd (List.head_eq_of_cons_eq equal) (plain c List.mem_cons_self).2
    | cons d second =>
      have heads := List.head_eq_of_cons_eq equal
      obtain ⟨tails, rests⟩ := ih (fun e inside => plain e (List.mem_cons_of_mem c inside))
        (fun e inside => same e (List.mem_cons_of_mem d inside)) (List.tail_eq_of_cons_eq equal)
      rw [heads, tails]
      exact ⟨rfl, rests⟩

/-- The whole lines at the beginning of a text of lines are its first lines. -/
theorem unlines_split {first : List Str} {rest : Str} (plain : ∀ row ∈ rows, Plain row)
    (same : ∀ row ∈ first, Plain row) (equal : unlines rows = unlines first ++ rest) :
    ∃ others, rows = first ++ others ∧ rest = unlines others := by
  induction first generalizing rows with
  | nil => exact ⟨rows, rfl, equal.symm⟩
  | cons row first ih =>
    rw [unlines_cons, List.append_assoc, List.cons_append] at equal
    cases rows with
    | nil =>
      have inside : newline ∈ unlines [] := by
        rw [equal]
        exact List.mem_append_right row List.mem_cons_self
      cases inside
    | cons other rows =>
      rw [unlines_cons] at equal
      obtain ⟨rfl, behind⟩ := cut_unique (plain other List.mem_cons_self)
        (same row List.mem_cons_self) equal
      obtain ⟨others, split, left⟩ := ih (fun r inside => plain r (List.mem_cons_of_mem _ inside))
        (fun r inside => same r (List.mem_cons_of_mem _ inside)) behind
      exact ⟨others, congrArg (List.cons other) split, left⟩

/-! ### The buffer -/

/-- The buffer holds a text at a position. -/
def Holds (mem : Area) (p : Nat) (text : Str) : Prop := mem.slice p text.length = text

section Buffer

variable {mem other : Area} {p room : Nat} {c : UInt8}

theorem holds_cons : Holds mem p (c :: text) ↔ mem p = c ∧ Holds mem (p + 1) text := by
  unfold Holds
  rw [List.length_cons, Nat.add_comm, Area.slice_add]
  exact List.cons_eq_cons

theorem holds_append : Holds mem p (text ++ part) ↔
    Holds mem p text ∧ Holds mem (p + text.length) part := by
  unfold Holds
  rw [List.length_append, Area.slice_add]
  exact List.append_eq_append_iff_of_size_eq_left (mem.length_slice p text.length)

theorem Holds.congr (held : Holds mem p text)
    (same : ∀ a, p ≤ a → a < p + text.length → mem a = other a) : Holds other p text := by
  unfold Holds at held ⊢
  rw [← mem.slice_congr same]
  exact held

theorem strchr_skip (held : Holds mem p text) (plain : Plain text) (inside : text.length ≤ room) :
    strchr newline mem room p = strchr newline mem (room - text.length) (p + text.length) := by
  induction text generalizing p room with
  | nil => rfl
  | cons c text ih =>
    obtain ⟨here, behind⟩ := holds_cons.mp held
    obtain ⟨nonzero, other⟩ := plain c List.mem_cons_self
    obtain ⟨room, rfl⟩ : ∃ less, room = less + 1 := ⟨room - 1, by rw [List.length_cons] at inside; omega⟩
    rw [List.length_cons] at inside ⊢
    rw [strchr, here, if_neg nonzero, if_neg other,
      ih behind (fun d member => plain d (List.mem_cons_of_mem c member)) (by omega)]
    congr 1
    · omega
    · omega

theorem strchr_newline (held : Holds mem p text) (plain : Plain text) (inside : text.length < room)
    (ends : mem (p + text.length) = newline) :
    strchr newline mem room p = some (p + text.length) := by
  rw [strchr_skip held plain inside.le]
  obtain ⟨left, more⟩ : ∃ left, room - text.length = left + 1 := ⟨room - text.length - 1, by omega⟩
  rw [more, strchr, ends, if_neg (by decide), if_pos rfl]

theorem strchr_nul (held : Holds mem p text) (plain : Plain text) (inside : text.length < room)
    (ends : mem (p + text.length) = 0) : strchr newline mem room p = none := by
  rw [strchr_skip held plain inside.le]
  obtain ⟨left, more⟩ : ∃ left, room - text.length = left + 1 := ⟨room - text.length - 1, by omega⟩
  rw [more, strchr, if_pos ends]

theorem cstring_eq (held : Holds mem p text) (plain : Plain text) (inside : text.length < room)
    (ends : mem (p + text.length) = 0) : cstring mem room p = text := by
  induction text generalizing p room with
  | nil =>
    obtain ⟨room, rfl⟩ : ∃ less, room = less + 1 := ⟨room - 1, by rw [List.length_nil] at inside; omega⟩
    exact if_pos ends
  | cons c text ih =>
    obtain ⟨here, behind⟩ := holds_cons.mp held
    rw [List.length_cons] at inside ends
    obtain ⟨room, rfl⟩ : ∃ less, room = less + 1 := ⟨room - 1, by omega⟩
    rw [cstring, here, if_neg (plain c List.mem_cons_self).1,
      ih behind (fun d member => plain d (List.mem_cons_of_mem c member)) (by omega)]
    rw [Nat.add_assoc, Nat.add_comm 1]
    exact ends

end Buffer

/-! ### The loops -/

/-- The body of the inner loop changes the buffer at most at the end of the line. -/
theorem line_spec {c : Cursor} (held : Holds c.buf c.p row) (plain : Plain row)
    (ends : c.buf (c.p + row.length) = newline) (inside : c.p + row.length < SIZE) :
    ∃ buf, line pattern (c.p + row.length) c =
        ⟨c.p + row.length + 1, buf, c.out ++ printed pattern [row]⟩ ∧
      ∀ a, a ≠ c.p + row.length → buf a = c.buf a := by
  have same : ∀ a, a ≠ c.p + row.length →
      update c.buf (c.p + row.length) 0 a = c.buf a := fun a away =>
    update_of_ne away 0 c.buf
  have cut : cstring (update c.buf (c.p + row.length) 0) (SIZE - c.p) c.p = row := by
    refine cstring_eq (held.congr ?_) plain (by omega) (update_self _ _ _)
    intro a low high
    exact (same a (by omega)).symm
  unfold line
  dsimp only
  rw [cut]
  by_cases matched : matchtext pattern row = true
  · have restored : update (update c.buf (c.p + row.length) 0)
        (c.p + row.length) newline = c.buf := by
      rw [update_idem, ← ends, update_eq_self]
    have written : c.buf.slice c.p (c.p + row.length + 1 - c.p) = printed pattern [row] := by
      rw [Nat.add_assoc, Nat.add_sub_cancel_left, Area.slice_add, held]
      simp [printed, unlines, matched, Area.slice, ends]
    refine ⟨c.buf, ?_, fun _ _ => rfl⟩
    rw [if_pos matched, restored, written]
  · refine ⟨_, ?_, same⟩
    have nothing : printed pattern [row] = [] := by simp [printed, unlines, matched]
    rw [if_neg matched, nothing, List.append_nil]

/-- The inner loop handles the whole lines and stops at the beginning of the next one. -/
theorem lines_spec {c : Cursor} {fuel : Nat} (held : Holds c.buf c.p (unlines rows ++ part))
    (whole : ∀ row ∈ rows, Plain row) (begun : Plain part)
    (ends : c.buf (c.p + (unlines rows ++ part).length) = 0)
    (inside : c.p + (unlines rows ++ part).length < SIZE) (enough : rows.length < fuel) :
    ∃ buf, lines pattern fuel c =
        ⟨c.p + (unlines rows).length, buf, c.out ++ printed pattern rows⟩ ∧
      Holds buf (c.p + (unlines rows).length) part := by
  induction rows generalizing c fuel with
  | nil =>
    obtain ⟨fuel, rfl⟩ : ∃ less, fuel = less + 1 := ⟨fuel - 1, by omega⟩
    rw [lines, strchr_nul held begun (by change part.length < _; change c.p + part.length < _ at inside; omega) ends]
    exact ⟨c.buf, by simp [printed, unlines], held⟩
  | cons row rows ih =>
    rw [List.length_cons] at enough
    obtain ⟨fuel, rfl⟩ : ∃ less, fuel = less + 1 := ⟨fuel - 1, by omega⟩
    have plain := whole row List.mem_cons_self
    rw [unlines_cons, List.append_assoc, List.cons_append] at held ends inside
    rw [List.length_append, List.length_cons] at ends inside
    obtain ⟨first, more⟩ := holds_append.mp held
    obtain ⟨there, behind⟩ := holds_cons.mp more
    obtain ⟨buf, done, kept⟩ := @line_spec pattern row c first plain there (by omega)
    rw [lines, strchr_newline first plain (by omega) there]
    dsimp only
    rw [done]
    have later := @ih ⟨c.p + row.length + 1, buf, c.out ++ printed pattern [row]⟩ fuel
      (behind.congr (fun a low _ => (kept a (by omega)).symm))
      (fun r member => whole r (List.mem_cons_of_mem row member))
      (by
        dsimp only
        rw [kept _ (by omega), ← ends]
        congr 1
        omega)
      (by dsimp only; omega) (by omega)
    obtain ⟨buf', ran, carried⟩ := later
    refine ⟨buf', ?_, ?_⟩
    · rw [ran, unlines_cons, printed_cons pattern row rows]
      simp only [List.length_append, List.length_cons, List.append_assoc, Cursor.mk.injEq]
      exact ⟨by omega, trivial, trivial⟩
    · rw [unlines_cons, List.length_append, List.length_cons]
      refine Eq.mp ?_ carried
      congr 1
      dsimp only
      omega

/-- Between two reads: the beginning of a line is at the start of the buffer. -/
structure Carries (s : State) (part : Str) : Prop where
  m : s.m = part.length
  held : Holds s.buf 0 part

theorem Carries.moved {mem after : Area} {p : Nat} (moves : Moves 0 p part.length mem after)
    (held : Holds mem p part) (out : Str) : Carries ⟨after, part.length, out⟩ part := by
  refine ⟨rfl, Eq.trans ?_ held⟩
  unfold Area.slice
  refine List.map_congr_left ?_
  intro i inside
  exact moves.copied i (List.mem_range.mp inside)

theorem length_le_unlines (rows : List Str) : rows.length ≤ (unlines rows).length := by
  induction rows with
  | nil => exact le_rfl
  | cons row rows ih =>
    rw [unlines_cons, List.length_append, List.length_cons, List.length_cons]
    omega

/-- After a read the buffer holds the beginning of the line and the piece behind it. -/
theorem Carries.read {s : State} (carries : Carries s part) (piece : Str) :
    Holds (update (s.buf.patch s.m piece) (s.m + piece.length) 0) 0 (part ++ piece) := by
  have kept : Holds (s.buf.patch s.m piece) 0 (part ++ piece) := by
    rw [holds_append, Nat.zero_add, ← carries.m]
    refine ⟨carries.held.congr ?_, s.buf.slice_patch_self s.m piece⟩
    intro a _ high
    rw [Nat.zero_add, ← carries.m] at high
    exact (s.buf.patch_outside (Or.inl high)).symm
  apply kept.congr
  intro a _ high
  rw [Nat.zero_add, List.length_append, ← carries.m] at high
  exact (update_of_ne (by omega) 0 _).symm

/-- A read keeps the beginning of the next line only if it has completed one. -/
theorem round_spec {s : State} {next : Str} (carries : Carries s part)
    (fits : s.m + piece.length < SIZE) (split : part ++ piece = unlines rows ++ next)
    (whole : ∀ row ∈ rows, Plain row) (begun : Plain next) :
    Carries (round pattern piece s) (if rows = [] then [] else next) ∧
      (round pattern piece s).out = s.out ++ printed pattern rows := by
  have length : s.m + piece.length = (unlines rows ++ next).length := by
    rw [← split, List.length_append, carries.m]
  have held := carries.read piece
  rw [split] at held
  have several := length_le_unlines rows
  obtain ⟨buf, ran, left⟩ := @lines_spec pattern next rows
    ⟨0, update (s.buf.patch s.m piece) (s.m + piece.length) 0, s.out⟩ SIZE held whole begun
    (by rw [Nat.zero_add, ← length]; exact update_self _ _ _)
    (by rw [Nat.zero_add, ← length]; exact fits)
    (by rw [List.length_append] at length; omega)
  rw [List.length_append] at length
  simp only [Nat.zero_add] at ran left
  by_cases none : rows = []
  · have result : round pattern piece s = ⟨buf, 0, s.out ++ printed pattern rows⟩ := by
      unfold round
      simp only [ran]
      rw [none]
      rfl
    rw [result, if_pos none]
    exact ⟨⟨rfl, rfl⟩, rfl⟩
  · have nonempty := List.length_pos_iff.mpr none
    have rest : s.m + piece.length - (unlines rows).length = next.length := by omega
    have result : round pattern piece s =
        ⟨Ulib.memmove 0 (unlines rows).length next.length buf, next.length,
          s.out ++ printed pattern rows⟩ := by
      unfold round
      simp only [ran]
      rw [if_neg (show (unlines rows).length ≠ 0 by omega), if_pos (by omega), rest]
    rw [result, if_neg none]
    exact ⟨Carries.moved (Ulib.memmove_moves (Or.inl (Nat.zero_le _))) left _, rfl⟩

/-- From a state between two reads, `grep` prints the lines whose ends are still to come. -/
theorem grep_spec {s : State} (carries : Carries s part)
    (permitted : Permitted pattern s pieces) (cut : ∀ piece ∈ pieces, newline ∈ piece)
    (plain : ∀ row ∈ rows, Plain row) (begun : Plain part)
    (input : part ++ pieces.flatten = unlines rows) :
    (grep pattern s pieces).out = s.out ++ printed pattern rows := by
  induction pieces generalizing s part rows with
  | nil =>
    rw [List.flatten_nil, List.append_nil] at input
    have none : rows = [] := by
      by_contra some
      exact (begun newline (input ▸ newline_mem_unlines some)).2 rfl
    rw [none]
    exact (List.append_nil s.out).symm
  | cons piece pieces ih =>
    obtain ⟨nonempty, fits, later⟩ := permitted
    have length := List.length_pos_iff.mpr nonempty
    rw [List.flatten_cons, ← List.append_assoc] at input
    have nonzero : 0 ∉ part ++ piece := fun inside =>
      zero_not_mem_unlines plain (input ▸ List.mem_append_left _ inside)
    obtain ⟨first, next, split, whole, begun⟩ := exists_unlines (part ++ piece) nonzero
    rw [split, List.append_assoc] at input
    obtain ⟨others, both, rest⟩ := unlines_split plain whole input.symm
    have some : first ≠ [] := by
      rintro rfl
      have inside : newline ∈ next := by
        have member : newline ∈ part ++ piece :=
          List.mem_append_right part (cut piece List.mem_cons_self)
        rwa [split] at member
      exact (begun newline inside).2 rfl
    obtain ⟨carried, written⟩ := @round_spec pattern part piece first s next carries (by omega)
      split whole begun
    rw [if_neg some] at carried
    have ran := ih carried later (fun p among => cut p (List.mem_cons_of_mem piece among))
      (fun row among => plain row (both ▸ List.mem_append_right first among)) begun rest
    change (grep pattern (round pattern piece s) pieces).out = _
    rw [ran, written, both, printed_append, List.append_assoc]

theorem length_printed_le (pattern : Str) (rows : List Str) :
    (printed pattern rows).length ≤ (unlines rows).length :=
  (List.filter_sublist.flatMap _).length_le

/-- A read without the end of a line loses at least one byte. -/
theorem grep_length {s : State} (carries : Carries s part)
    (permitted : Permitted pattern s pieces) (begun : Plain part) (nonzero : 0 ∉ pieces.flatten) :
    (grep pattern s pieces).out.length + pieces.countP (newline ∉ ·) ≤
      s.out.length + part.length + pieces.flatten.length := by
  induction pieces generalizing s part with
  | nil => simp [grep]
  | cons piece pieces ih =>
    obtain ⟨nonempty, fits, later⟩ := permitted
    have length := List.length_pos_iff.mpr nonempty
    rw [List.flatten_cons, List.mem_append, not_or] at nonzero
    have clean : 0 ∉ part ++ piece := by
      rw [List.mem_append]
      rintro (old | new)
      · exact (begun 0 old).1 rfl
      · exact nonzero.1 new
    obtain ⟨first, next, split, whole, begunNext⟩ := exists_unlines (part ++ piece) clean
    obtain ⟨carried, written⟩ := @round_spec pattern part piece first s next carries (by omega)
      split whole begunNext
    have total := congrArg List.length split
    have short := length_printed_le pattern first
    have ran := ih carried later (by split; exacts [nofun, begunNext]) nonzero.2
    change (grep pattern (round pattern piece s) pieces).out.length + _ ≤ _
    rw [written] at ran
    simp only [List.length_append, List.flatten_cons, List.countP_cons] at total ran ⊢
    by_cases none : first = []
    · rw [if_pos none] at ran
      subst none
      change _ ≤ _ + 0 + 0 + _ at ran
      split <;> omega
    · have cut : newline ∈ piece := by
        have member : newline ∈ part ++ piece :=
          split ▸ List.mem_append_left next (newline_mem_unlines none)
        exact (List.mem_append.mp member).resolve_left (fun old => (begun newline old).2 rfl)
      rw [if_neg none] at ran
      rw [if_neg (by simpa using cut)]
      omega

theorem matchtext_nil (text : Str) : matchtext [] text = true := by
  cases text <;> rfl

/-- Whatever the buffer holds at the start and wherever the reads cut the input, `grep` prints
the lines that match, in order and each once, for every pattern exactly if every read returns
the end of a line. -/
theorem grep_prints_matching (buf : Area) (rows : List Str) (pieces : List Str)
    (plain : ∀ row ∈ rows, Plain row) (input : pieces.flatten = unlines rows)
    (permitted : ∀ pattern, Permitted pattern (start buf) pieces) :
    (∀ pattern, (grep pattern (start buf) pieces).out =
        unlines (rows.filter (matchtext pattern))) ↔ ∀ piece ∈ pieces, newline ∈ piece := by
  have begun : Plain [] := fun c inside => absurd inside List.not_mem_nil
  have carries : Carries (start buf) [] := ⟨rfl, rfl⟩
  constructor
  · intro right piece among
    have nonzero : 0 ∉ pieces.flatten := by
      rw [input]
      exact zero_not_mem_unlines plain
    -- the empty pattern matches every line, so nothing may be lost
    have bounded := grep_length carries (permitted []) begun nonzero
    rw [right [], List.filter_eq_self.mpr (fun row _ => matchtext_nil row), ← input] at bounded
    have none : pieces.countP (newline ∉ ·) = 0 := by
      simp only [start, List.length_nil] at bounded
      omega
    simpa using List.countP_eq_zero.mp none piece among
  · intro cut pattern
    rw [grep_spec carries (permitted pattern) cut plain begun input]
    rfl

/-- The lines `ab`, `b` and `a`, cut inside the second one, over an old text. -/
theorem grep_prints_matching_cut :
    (grep [97] (start (fun _ => 98)) [[97, 98, 10, 98], [10, 97, 10]]).out =
      unlines [[97, 98], [97]] := by
  have carried : ∀ pattern, (round pattern [97, 98, 10, 98] (start (fun _ => 98))).m = 1 :=
    fun pattern => (@round_spec pattern [] [97, 98, 10, 98] [[97, 98]] (start (fun _ => 98)) [98]
      ⟨rfl, rfl⟩ (by decide) rfl (by simp [Plain]; decide) (by simp [Plain]; decide)).1.m
  refine (grep_prints_matching (fun _ => 98) [[97, 98], [98], [97]] [[97, 98, 10, 98], [10, 97, 10]]
    (by simp [Plain]; decide) rfl ?_).mpr (by decide) [97]
  exact fun pattern => ⟨by decide, by decide, by decide, by rw [carried]; decide, trivial⟩

/-- The line `ab` matches `a`, but its beginning is read alone and dropped. -/
theorem grep_drops_beginning :
    Permitted [97] (start (fun _ => 0)) [[97], [98, 10]] ∧ matchtext [97] [97, 98] = true ∧
      (grep [97] (start (fun _ => 0)) [[97], [98, 10]]).out = [] := by
  exact ⟨⟨by decide, by decide, by decide, by decide, trivial⟩, by decide, by decide⟩

end Xv6.Grep
