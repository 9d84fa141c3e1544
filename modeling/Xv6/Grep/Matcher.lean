/-
The matcher of `grep.c`.

A string is the list of its bytes before the NUL, so that reading `*text` at the NUL is the case
of the empty list.  `matchhere` calls `matchstar`, which calls `matchhere` on a shorter pattern;
here `matchstar` takes that call as a function.

What a pattern means is said with languages: it is a sequence of items, each a character or a
repeated one, and possibly tied to the start or to the end of the text.
-/

import Mathlib.Computability.Language
import Mathlib.Tactic

namespace Xv6.Grep

open scoped Computability

abbrev Str : Type := List UInt8

def caret : UInt8 := '^'.toUInt8

def dollar : UInt8 := '$'.toUInt8

def dot : UInt8 := '.'.toUInt8

def star : UInt8 := '*'.toUInt8

/-- `re[0] == '.' || re[0] == *text` -/
def accepts (c t : UInt8) : Bool := c == dot || c == t

/-- The last test of `matchhere`: a character of the text, and `rest` behind it. -/
def matchone (c : UInt8) (rest : Str → Bool) : Str → Bool
  | [] => false
  | t :: text => accepts c t && rest text

/-- The loop of `matchstar`, where `here` is `matchhere` for the pattern behind the star. -/
def starloop (c : UInt8) (here : Str → Bool) : Str → Bool
  | [] => here []
  | t :: text => here (t :: text) || (accepts c t && starloop c here text)

def matchhere : Str → Str → Bool
  | [], _ => true
  | [c], text => if c = dollar then text.isEmpty else matchone c (matchhere []) text
  | c :: d :: re, text =>
    if d = star then starloop c (matchhere re) text
    else matchone c (matchhere (d :: re)) text

def matchstar (c : UInt8) (re text : Str) : Bool := starloop c (matchhere re) text

/-- `do{ if(matchhere(re, text)) return 1; } while(*text++ != '\0')` -/
def matchloop (re : Str) : Str → Bool
  | [] => matchhere re []
  | t :: text => matchhere re (t :: text) || matchloop re text

/-- The function `match`. -/
def matchtext (re text : Str) : Bool :=
  if re.head? = some caret then matchhere re.tail text else matchloop re text

/-! ### The meaning of a pattern -/

/-- The words of one character: any for a dot, and otherwise the character itself. -/
def atom (c : UInt8) : Language UInt8 := { word : Str | ∃ t, (c = dot ∨ c = t) ∧ word = [t] }

inductive Item
  | one (c : UInt8)
  | many (c : UInt8)

def Item.words : Item → Language UInt8
  | one c => atom c
  | many c => (atom c)∗

/-- The items of a pattern behind its `^`, and whether a `$` at its end follows them. -/
def items : Str → List Item × Bool
  | [] => ([], false)
  | [c] => if c = dollar then ([], true) else ([.one c], false)
  | c :: d :: re =>
    if d = star then (.many c :: (items re).1, (items re).2)
    else (.one c :: (items (d :: re)).1, (items (d :: re)).2)

/-- The text begins with a word; if `whole`, it is the word. -/
def Begins (words : Language UInt8) (whole : Bool) (text : Str) : Prop :=
  ∃ found after, text = found ++ after ∧ found ∈ words ∧ (whole = true → after = [])

/-- The words that the items of a pattern stand for. -/
def words (re : Str) : Language UInt8 := ((items re).1.map Item.words).prod

/-- `matchhere` looks for the pattern at the beginning of the text. -/
def BeginsWith (re text : Str) : Prop := Begins (words re) (items re).2 text

/-- Some part of the text matches the pattern. -/
def Occurs (re text : Str) : Prop :=
  if re.head? = some caret then BeginsWith re.tail text
  else ∃ before rest, text = before ++ rest ∧ BeginsWith re rest

section Words

variable {c : UInt8} {L M : Language UInt8} {whole : Bool} {text : Str}

theorem mem_atom {word : Str} : word ∈ atom c ↔ ∃ t, accepts c t = true ∧ word = [t] := by
  change (∃ t, (c = dot ∨ c = t) ∧ word = [t]) ↔ _
  simp [accepts]

theorem begins_add : Begins (L + M) whole text ↔ Begins L whole text ∨ Begins M whole text := by
  constructor
  · rintro ⟨found, after, split, member, ended⟩
    cases member with
    | inl left => exact Or.inl ⟨found, after, split, left, ended⟩
    | inr right => exact Or.inr ⟨found, after, split, right, ended⟩
  · rintro (⟨found, after, split, member, ended⟩ | ⟨found, after, split, member, ended⟩)
    · exact ⟨found, after, split, Or.inl member, ended⟩
    · exact ⟨found, after, split, Or.inr member, ended⟩

theorem begins_one : Begins 1 whole text ↔ (whole = true → text = []) := by
  constructor
  · rintro ⟨found, after, split, member, ended⟩ isWhole
    rw [split, (Language.mem_one found).mp member, ended isWhole]
    rfl
  · intro ended
    exact ⟨[], text, rfl, (Language.mem_one []).mpr rfl, ended⟩

theorem not_begins_atom_nil : ¬Begins (atom c * L) whole [] := by
  rintro ⟨found, after, split, member, ended⟩
  obtain ⟨first, inside, second, _, joined⟩ := Language.mem_mul.mp member
  obtain ⟨t, _, single⟩ := mem_atom.mp inside
  rw [← joined, single] at split
  cases split

theorem begins_atom_cons {t : UInt8} :
    Begins (atom c * L) whole (t :: text) ↔ accepts c t = true ∧ Begins L whole text := by
  constructor
  · rintro ⟨found, after, split, member, ended⟩
    obtain ⟨first, inside, second, behind, joined⟩ := Language.mem_mul.mp member
    obtain ⟨u, accepted, single⟩ := mem_atom.mp inside
    rw [← joined, single] at split
    cases split
    exact ⟨accepted, second, after, rfl, behind, ended⟩
  · rintro ⟨accepted, found, after, split, member, ended⟩
    refine ⟨[t] ++ found, after, ?_, ?_, ended⟩
    · rw [split]
      rfl
    · exact Language.append_mem_mul (mem_atom.mpr ⟨t, accepted, rfl⟩) member

/-- A repeated character is missing, or stands once and is repeated. -/
theorem begins_many : Begins ((atom c)∗ * L) whole text ↔
    Begins L whole text ∨ Begins (atom c * ((atom c)∗ * L)) whole text := by
  rw [← begins_add, ← mul_assoc]
  have unrolled : L + atom c * (atom c)∗ * L = (atom c)∗ * L := by
    calc L + atom c * (atom c)∗ * L = (1 + atom c * (atom c)∗) * L := by rw [add_mul, one_mul]
      _ = (atom c)∗ * L := by rw [Language.one_add_self_mul_kstar_eq_kstar]
  rw [unrolled]

variable {here rest : Str → Bool}

theorem matchone_iff (found : ∀ text, rest text = true ↔ Begins L whole text) :
    matchone c rest text = true ↔ Begins (atom c * L) whole text := by
  cases text with
  | nil => exact iff_of_false Bool.false_ne_true not_begins_atom_nil
  | cons t text => rw [matchone, Bool.and_eq_true, begins_atom_cons, found]

theorem starloop_iff (found : ∀ text, here text = true ↔ Begins L whole text) :
    starloop c here text = true ↔ Begins ((atom c)∗ * L) whole text := by
  induction text with
  | nil => rw [starloop, found, begins_many, or_iff_left not_begins_atom_nil]
  | cons t text ih =>
    rw [starloop, Bool.or_eq_true, Bool.and_eq_true, ih, found, ← begins_atom_cons, ← begins_many]

end Words

/-! ### The matcher finds what the pattern means -/

theorem words_many (c : UInt8) (re : Str) :
    words (c :: star :: re) = (atom c)∗ * words re ∧
      (items (c :: star :: re)).2 = (items re).2 := by
  unfold words
  rw [items, if_pos rfl]
  exact ⟨List.prod_cons, rfl⟩

theorem words_one {c d : UInt8} (re : Str) (plain : d ≠ star) :
    words (c :: d :: re) = atom c * words (d :: re) ∧
      (items (c :: d :: re)).2 = (items (d :: re)).2 := by
  unfold words
  rw [items, if_neg plain]
  exact ⟨List.prod_cons, rfl⟩

theorem matchhere_iff (re text : Str) : matchhere re text = true ↔ BeginsWith re text := by
  unfold BeginsWith
  induction re using List.twoStepInduction generalizing text with
  | nil => exact iff_of_true rfl (begins_one.mpr (fun never => absurd never Bool.false_ne_true))
  | singleton c =>
    unfold words
    rw [matchhere, items]
    by_cases ends : c = dollar
    · rw [if_pos ends, if_pos ends, List.isEmpty_iff]
      exact (begins_one.trans ⟨fun whole => whole rfl, fun empty _ => empty⟩).symm
    · rw [if_neg ends, if_neg ends]
      apply matchone_iff
      intro text
      exact iff_of_true rfl (begins_one.mpr (fun never => absurd never Bool.false_ne_true))
  | cons_cons c d re behind next =>
    rw [matchhere]
    by_cases repeated : d = star
    · subst repeated
      rw [if_pos rfl, (words_many c re).1, (words_many c re).2]
      exact starloop_iff behind
    · rw [if_neg repeated, (words_one re repeated).1, (words_one re repeated).2]
      exact matchone_iff (next d)

theorem matchloop_iff (re text : Str) :
    matchloop re text = true ↔ ∃ before rest, text = before ++ rest ∧ BeginsWith re rest := by
  induction text with
  | nil =>
    rw [matchloop, matchhere_iff]
    constructor
    · intro found
      exact ⟨[], [], rfl, found⟩
    · rintro ⟨before, rest, split, found⟩
      rwa [(List.append_eq_nil_iff.mp split.symm).2] at found
  | cons t text ih =>
    rw [matchloop, Bool.or_eq_true, matchhere_iff, ih]
    constructor
    · rintro (found | ⟨before, rest, split, found⟩)
      · exact ⟨[], t :: text, rfl, found⟩
      · exact ⟨t :: before, rest, congrArg (List.cons t) split, found⟩
    · rintro ⟨before, rest, split, found⟩
      cases before with
      | nil =>
        rw [List.nil_append] at split
        exact Or.inl (split ▸ found)
      | cons u before =>
        cases split
        exact Or.inr ⟨before, rest, rfl, found⟩

/-- `match` finds the parts of the text that the pattern means; `matchhere` and `matchstar` find
those at the beginning of the text. -/
theorem match_finds_pattern (re text : Str) :
    (matchtext re text = true ↔ Occurs re text) ∧
      (matchhere re text = true ↔ BeginsWith re text) ∧
      ∀ c, matchstar c re text = true ↔ Begins ((atom c)∗ * words re) (items re).2 text := by
  refine ⟨?_, matchhere_iff re text, ?_⟩
  · unfold matchtext Occurs
    split
    · exact matchhere_iff re.tail text
    · exact matchloop_iff re text
  · intro c
    exact starloop_iff (matchhere_iff re)

/-- `^*a$*b`: behind `^` the first `*` stands for itself, and so does a `$` before a `*`. -/
example : matchtext [94, 42, 97, 36, 42, 98] [42, 97, 36, 36, 98, 99] = true := by decide

end Xv6.Grep
