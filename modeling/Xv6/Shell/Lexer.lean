/-
The tokens of the shell: `gettoken` and `peek` of `sh.c`.

Both move a cursor over the bytes of a NUL-terminated buffer.  `tokens` says what the token
sequence of a string is, without a cursor.  From a position where certain tokens are still
to come (`Upcoming`), `gettoken` takes the first of them and `peek` looks at it; nothing
after this module looks at single bytes of the input.
-/

import Mathlib.Data.List.GetD
import Mathlib.Data.List.TakeWhile
import Mathlib.Tactic
import Xv6.Library.Panics

namespace Xv6.Shell

open Library

/-! ### Bytes of the buffer -/

abbrev Memory := List UInt8

def load (mem : Memory) (s : Nat) : UInt8 := mem.getD s 0

/-- The string that starts at a position. -/
def cstring (mem : Memory) (s : Nat) : List UInt8 := (mem.drop s).takeWhile (· ≠ 0)

def strlen (mem : Memory) (s : Nat) : Nat := (cstring mem s).length

def byte (c : Char) : UInt8 := c.toUInt8

/-- `strchr` does not find the NUL at the end. -/
def strchr (chars : List Char) (c : UInt8) : Bool := chars.any (fun x => byte x == c)

def whitespace : List Char := [' ', '\t', '\r', '\n', '\x0b']

def symbols : List Char := ['<', '|', '>', '&', ';', '(', ')']

/-- A byte that the loop for a word passes over. -/
def wordByte (c : UInt8) : Bool := !strchr whitespace c && !strchr symbols c

/-- `while(s < es && p(*s)) s++`, where `room` is `es - s`. -/
def scan (p : UInt8 → Bool) (mem : Memory) : Nat → Nat → Nat
  | 0, s => s
  | room + 1, s => if p (load mem s) then scan p mem room (s + 1) else s

def skipSpace (mem : Memory) (es s : Nat) : Nat := scan (strchr whitespace) mem (es - s) s

/-! ### gettoken and peek -/

/-- What ends the shell: `panic`, also after `printf(2, "leftovers: %s\n", s)`.  The model
alone stops when its bound on the number of calls is too small. -/
inductive Stop
  | panic (message : String)
  | leftovers (rest : List UInt8) (message : String)
  | fuel
  deriving DecidableEq

/-- The state is the cursor `*ps`. -/
abbrev Parser := Code Stop Nat

/-- The pointers `q` and `eq` to a token. -/
structure Span where
  start : Nat
  stop : Nat
  deriving DecidableEq

/-- The switch in `gettoken`: the kind of the token at a position, and where it ends. -/
def tokenAt (mem : Memory) (es s : Nat) : UInt8 × Nat :=
  if load mem s = 0 then (0, s)
  else if strchr ['|', '(', ')', ';', '&', '<'] (load mem s) then (load mem s, s + 1)
  else if load mem s = byte '>' then
    if load mem (s + 1) = byte '>' then (byte '+', s + 2) else (load mem s, s + 1)
  else (byte 'a', scan wordByte mem (es - s) s)

def gettoken (mem : Memory) (es : Nat) : Parser (UInt8 × Span) := fun s =>
  let q := skipSpace mem es s
  let found := tokenAt mem es q
  .ok ((found.1, ⟨q, found.2⟩), skipSpace mem es found.2)

def peek (mem : Memory) (es : Nat) (toks : List Char) : Parser Bool := fun s =>
  let s := skipSpace mem es s
  .ok (load mem s != 0 && strchr toks (load mem s), s)

/-! ### The token sequence of a string -/

inductive Token
  | less
  | greater
  | append
  | pipe
  | amp
  | semi
  | lparen
  | rparen
  | word (bytes : List UInt8)
  deriving DecidableEq

/-- The tokens of one byte, apart from `>`. -/
def symbolToken (c : UInt8) : Option Token :=
  if c = byte '<' then some .less
  else if c = byte '|' then some .pipe
  else if c = byte '&' then some .amp
  else if c = byte ';' then some .semi
  else if c = byte '(' then some .lparen
  else if c = byte ')' then some .rparen
  else none

/-- The longest token first: `>>` before `>`, and words up to the next blank or symbol. -/
def tokens : List UInt8 → List Token
  | [] => []
  | c :: rest =>
    if strchr whitespace c then tokens rest
    else if c = byte '>' then
      if rest.head? = some (byte '>') then .append :: tokens rest.tail
      else .greater :: tokens rest
    else
      match symbolToken c with
      | some token => token :: tokens rest
      | none =>
        .word (c :: rest.takeWhile wordByte) :: tokens (rest.dropWhile wordByte)
termination_by text => text.length
decreasing_by
  all_goals simp only [List.length_cons, List.length_tail]
  · omega
  · omega
  · omega
  · omega
  · exact Nat.lt_succ_of_le (List.dropWhile_suffix wordByte).length_le

/-- The number that `gettoken` returns for a token. -/
def Token.code : Token → UInt8
  | .less => byte '<'
  | .greater => byte '>'
  | .append => byte '+'
  | .pipe => byte '|'
  | .amp => byte '&'
  | .semi => byte ';'
  | .lparen => byte '('
  | .rparen => byte ')'
  | .word _ => byte 'a'

/-- The symbol that a token starts with. -/
def Token.symbol : Token → Option Char
  | .less => some '<'
  | .greater => some '>'
  | .append => some '>'
  | .pipe => some '|'
  | .amp => some '&'
  | .semi => some ';'
  | .lparen => some '('
  | .rparen => some ')'
  | .word _ => none

/-- The next token starts with one of the symbols. -/
def starts (chars : List Char) : List Token → Bool
  | [] => false
  | token :: _ => token.symbol.any (fun symbol => decide (symbol ∈ chars))

/-! ### The input -/

theorem exists_beyond (mem : Memory) (terminated : 0 ∈ mem) :
    ∃ beyond, mem = cstring mem 0 ++ 0 :: beyond := by
  unfold cstring
  rw [List.drop_zero]
  induction mem with
  | nil => cases terminated
  | cons c rest ih =>
    by_cases isNul : c = 0
    · subst isNul
      exact ⟨rest, by simp⟩
    · have later : 0 ∈ rest := by
        cases terminated with
        | head => exact absurd rfl isNul
        | tail _ later => exact later
      obtain ⟨beyond, split⟩ := ih later
      refine ⟨beyond, ?_⟩
      rw [List.takeWhile_cons_of_pos (by simpa using isNul), List.cons_append, ← split]

/-- A buffer with a NUL in it, as `parsecmd` expects. -/
structure Buffer where
  bytes : Memory
  terminated : 0 ∈ bytes

namespace Buffer

variable (buf : Buffer)

/-- The input string. -/
def text : List UInt8 := cstring buf.bytes 0

def es : Nat := strlen buf.bytes 0

theorem length_text : buf.text.length = buf.es := rfl

theorem nonzero_of_mem_text {c : UInt8} (inside : c ∈ buf.text) : c ≠ 0 := by
  have kept := List.mem_takeWhile_imp inside
  simpa using kept

theorem bytes_split : ∃ beyond, buf.bytes = buf.text ++ 0 :: beyond :=
  exists_beyond buf.bytes buf.terminated

theorem load_es : load buf.bytes buf.es = 0 := by
  obtain ⟨beyond, split⟩ := buf.bytes_split
  unfold load
  rw [split, ← buf.length_text]
  simp

theorem load_of_drop {s : Nat} {c : UInt8} {rest : List UInt8}
    (left : buf.text.drop s = c :: rest) :
    load buf.bytes s = c ∧ c ≠ 0 ∧ s < buf.es ∧ buf.text.drop (s + 1) = rest := by
  have inside : s < buf.text.length := by
    by_contra outside
    rw [List.drop_eq_nil_of_le (not_lt.mp outside)] at left
    cases left
  have parts := List.drop_eq_getElem_cons inside
  rw [left] at parts
  obtain ⟨here, after⟩ := List.cons.inj parts
  refine ⟨?_, ?_, inside, after.symm⟩
  · obtain ⟨beyond, split⟩ := buf.bytes_split
    unfold load
    rw [split, List.getD_append _ _ _ _ inside, List.getD_eq_getElem _ _ inside, here]
  · rw [here]
    exact buf.nonzero_of_mem_text (List.getElem_mem inside)

theorem load_of_drop_nil {s : Nat} (within : s ≤ buf.es) (left : buf.text.drop s = []) :
    s = buf.es ∧ load buf.bytes s = 0 := by
  have beyond : buf.es ≤ s := List.drop_eq_nil_iff.mp left
  have same : s = buf.es := Nat.le_antisymm within beyond
  rw [same]
  exact ⟨rfl, buf.load_es⟩

/-- The loop of `gettoken` and `peek` passes over the bytes that satisfy the test. -/
theorem scan_spec (p : UInt8 → Bool) (s : Nat) (within : s ≤ buf.es) :
    buf.text.drop (scan p buf.bytes (buf.es - s) s) = (buf.text.drop s).dropWhile p ∧
      scan p buf.bytes (buf.es - s) s = s + ((buf.text.drop s).takeWhile p).length ∧
      scan p buf.bytes (buf.es - s) s ≤ buf.es := by
  induction room : buf.es - s generalizing s with
  | zero =>
    have same : s = buf.es := by omega
    have left : buf.text.drop s = [] := List.drop_eq_nil_of_le (by rw [same, length_text])
    simp only [scan, left, List.dropWhile_nil, List.takeWhile_nil, List.length_nil,
      Nat.add_zero, within, and_self]
  | succ room ih =>
    cases left : buf.text.drop s with
    | nil =>
      have same := (buf.load_of_drop_nil within left).1
      omega
    | cons c rest =>
      obtain ⟨here, _, inside, after⟩ := buf.load_of_drop left
      unfold scan
      rw [here]
      cases passes : p c with
      | false => simp [passes, left, within]
      | true =>
        obtain ⟨reached, place, bounded⟩ := ih (s + 1) inside (by omega)
        simp only [if_true, List.dropWhile_cons, List.takeWhile_cons, passes,
          List.length_cons]
        rw [after] at reached place
        exact ⟨reached, by rw [place]; omega, bounded⟩

/-! ### Tokens still to come -/

/-- From the position on the input has exactly these tokens. -/
structure Upcoming (s : Nat) (toks : List Token) : Prop where
  within : s ≤ buf.es
  toks : tokens (buf.text.drop s) = toks

theorem upcoming_start : buf.Upcoming 0 (tokens buf.text) := ⟨Nat.zero_le _, rfl⟩

theorem upcoming_es : buf.Upcoming buf.es [] := by
  refine ⟨le_refl _, ?_⟩
  rw [← buf.length_text, List.drop_length, tokens]

end Buffer

theorem tokens_dropWhile_whitespace (text : List UInt8) :
    tokens (text.dropWhile (strchr whitespace)) = tokens text := by
  induction text with
  | nil => rfl
  | cons c rest ih =>
    cases blank : strchr whitespace c with
    | true =>
      rw [List.dropWhile_cons_of_pos blank, ih]
      conv_rhs => rw [tokens]
      rw [if_pos blank]
    | false => rw [List.dropWhile_cons_of_neg (by rw [blank]; nofun)]

theorem length_tokens_le (text : List UInt8) : (tokens text).length ≤ text.length := by
  induction text using tokens.induct with
  | case1 => simp [tokens]
  | case2 c rest blank ih =>
    rw [tokens, if_pos blank, List.length_cons]
    omega
  | case3 rest twice visible ih =>
    rw [tokens, if_neg visible, if_pos rfl, if_pos twice]
    simp only [List.length_cons, List.length_tail] at ih ⊢
    omega
  | case4 rest once visible ih =>
    rw [tokens, if_neg visible, if_pos rfl, if_neg once]
    simp only [List.length_cons]
    omega
  | case5 c rest visible other token symbol ih =>
    rw [tokens, if_neg visible, if_neg other, symbol]
    simp only [List.length_cons]
    omega
  | case6 c rest visible other word ih =>
    rw [tokens, if_neg visible, if_neg other, word]
    have shorter := (List.dropWhile_suffix (l := rest) wordByte).length_le
    simp only [List.length_cons]
    omega

/-! ### The first byte of a token -/

variable {c : UInt8}

theorem symbolToken_some {token : Token} (found : symbolToken c = some token) :
    strchr ['|', '(', ')', ';', '&', '<'] c = true ∧ token.code = c ∧
      ∃ symbol ∈ symbols, token.symbol = some symbol ∧ byte symbol = c := by
  have listed : symbols.any (fun symbol => decide (token.symbol = some symbol ∧ byte symbol = c)) =
      true ∧ strchr ['|', '(', ')', ';', '&', '<'] c = true ∧ token.code = c := by
    unfold symbolToken at found
    split_ifs at found with less pipe amp semi lparen rparen
    all_goals
      cases found
      subst c
      decide
  obtain ⟨symbol, member, here⟩ := List.any_eq_true.mp listed.1
  exact ⟨listed.2.1, listed.2.2, symbol, member, of_decide_eq_true here⟩

theorem symbolToken_none (missing : symbolToken c = none) :
    strchr ['|', '(', ')', ';', '&', '<'] c = false := by
  unfold symbolToken at missing
  split_ifs at missing with less pipe amp semi lparen rparen
  simp only [strchr, List.any_cons, List.any_nil, Bool.or_false, Bool.or_eq_false_iff, beq_eq_false_iff_ne]
  exact ⟨Ne.symm pipe, Ne.symm lparen, Ne.symm rparen, Ne.symm semi, Ne.symm amp, Ne.symm less⟩

theorem wordByte_of_symbolToken_none (visible : strchr whitespace c = false) (other : c ≠ byte '>')
    (missing : symbolToken c = none) : wordByte c = true := by
  have none := symbolToken_none missing
  simp only [strchr, List.any_cons, List.any_nil, Bool.or_false, Bool.or_eq_false_iff,
    beq_eq_false_iff_ne] at none
  obtain ⟨pipe, lparen, rparen, semi, amp, less⟩ := none
  have noSymbol : strchr symbols c = false := by
    simp only [strchr, symbols, List.any_cons, List.any_nil, Bool.or_false,
      Bool.or_eq_false_iff, beq_eq_false_iff_ne]
    exact ⟨less, pipe, Ne.symm other, amp, semi, lparen, rparen⟩
  unfold wordByte
  rw [visible, noSymbol]
  rfl

/-- The tokens of a string that starts with a visible byte. -/
inductive First (c : UInt8) (rest : List UInt8) : List Token → Prop
  | append (greater : c = byte '>') (twice : rest.head? = some (byte '>')) :
      First c rest (.append :: tokens rest.tail)
  | greater (greater : c = byte '>') (once : rest.head? ≠ some (byte '>')) :
      First c rest (.greater :: tokens rest)
  | symbol (token : Token) (other : c ≠ byte '>') (found : symbolToken c = some token) :
      First c rest (token :: tokens rest)
  | word (other : c ≠ byte '>') (missing : symbolToken c = none) (isWord : wordByte c = true) :
      First c rest
        (.word (c :: rest.takeWhile wordByte) :: tokens (rest.dropWhile wordByte))

theorem first_tokens (rest : List UInt8) (visible : strchr whitespace c = false) :
    First c rest (tokens (c :: rest)) := by
  rw [tokens, if_neg (by rw [visible]; nofun)]
  by_cases greater : c = byte '>'
  · rw [if_pos greater]
    by_cases twice : rest.head? = some (byte '>')
    · rw [if_pos twice]
      exact .append greater twice
    · rw [if_neg twice]
      exact .greater greater twice
  · rw [if_neg greater]
    cases found : symbolToken c with
    | some token => exact .symbol token greater found
    | none => exact .word greater found (wordByte_of_symbolToken_none visible greater found)

/-- Looking at the first byte is looking at the first token. -/
theorem First.starts_eq {rest : List UInt8} {toks : List Token} {chars : List Char}
    (first : First c rest toks) (known : chars ⊆ symbols) :
    strchr chars c = starts chars toks := by
  have bySymbol : ∀ symbol ∈ symbols, strchr chars (byte symbol) = decide (symbol ∈ chars) := by
    intro symbol isSymbol
    have distinct : (symbols.map byte).Nodup := by decide
    rw [Bool.eq_iff_iff, decide_eq_true_eq]
    unfold strchr
    rw [List.any_eq_true]
    constructor
    · rintro ⟨x, inside, same⟩
      rw [← List.inj_on_of_nodup_map distinct (known inside) isSymbol (eq_of_beq same)]
      exact inside
    · intro inside
      exact ⟨symbol, inside, beq_self_eq_true _⟩
  cases first with
  | append greater _ =>
    rw [greater, bySymbol '>' (by decide)]
    rfl
  | greater greater _ =>
    rw [greater, bySymbol '>' (by decide)]
    rfl
  | symbol token _ found =>
    obtain ⟨_, _, symbol, isSymbol, hasSymbol, same⟩ := symbolToken_some found
    rw [← same, bySymbol symbol isSymbol]
    simp [starts, hasSymbol]
  | word _ _ isWord =>
    have noSymbol : strchr symbols c = false := by
      unfold wordByte at isWord
      simpa using (Bool.and_eq_true_iff.mp isWord).2
    change _ = false
    rw [Bool.eq_false_iff]
    intro found
    obtain ⟨x, inside, same⟩ := List.any_eq_true.mp found
    have again : strchr symbols c = true := List.any_eq_true.mpr ⟨x, known inside, same⟩
    rw [noSymbol] at again
    cases again

namespace Buffer

variable (buf : Buffer)

/-- The span holds the bytes of a word, and the word ends there. -/
structure WordAt (span : Span) (word : List UInt8) : Prop where
  stop : span.stop = span.start + word.length
  bytes : buf.text.drop span.start = word ++ buf.text.drop span.stop
  inside : ∀ c ∈ word, c ≠ 0 ∧ wordByte c = true
  boundary : load buf.bytes span.stop = 0 ∨ wordByte (load buf.bytes span.stop) = false

variable {buf}

variable {s : Nat} {toks : List Token}

theorem Upcoming.skipSpace (next : buf.Upcoming s toks) :
    buf.Upcoming (skipSpace buf.bytes buf.es s) toks ∧
      buf.text.drop (Shell.skipSpace buf.bytes buf.es s) =
        (buf.text.drop s).dropWhile (strchr whitespace) := by
  obtain ⟨reached, _, bounded⟩ := buf.scan_spec (strchr whitespace) s next.within
  refine ⟨⟨bounded, ?_⟩, reached⟩
  unfold Shell.skipSpace
  rw [reached, tokens_dropWhile_whitespace, next.toks]

theorem Upcoming.cases (next : buf.Upcoming s toks) :
    let q := Shell.skipSpace buf.bytes buf.es s
    buf.Upcoming q toks ∧
      ((toks = [] ∧ q = buf.es ∧ load buf.bytes q = 0) ∨
      ∃ c rest, buf.text.drop q = c :: rest ∧ First c rest toks) := by
  intro q
  obtain ⟨after, reached⟩ := next.skipSpace
  refine ⟨after, ?_⟩
  cases left : buf.text.drop q with
  | nil =>
    have ended := after.toks
    rw [left, tokens] at ended
    exact Or.inl ⟨ended.symm, buf.load_of_drop_nil after.within left⟩
  | cons c rest =>
    have visible : strchr whitespace c = false := by
      have stopped := List.head?_dropWhile_not (strchr whitespace) (buf.text.drop s)
      rw [← reached, left] at stopped
      exact stopped
    have first := first_tokens rest visible
    rw [← left, after.toks] at first
    exact Or.inr ⟨c, rest, rfl, first⟩

theorem Upcoming.peek (next : buf.Upcoming s toks) (chars : List Char) (known : chars ⊆ symbols) :
    ∃ q, peek buf.bytes buf.es chars s = .ok (starts chars toks, q) ∧ buf.Upcoming q toks := by
  obtain ⟨after, found⟩ := next.cases
  refine ⟨_, ?_, after⟩
  unfold Shell.peek
  rcases found with ⟨ended, _, nul⟩ | ⟨c, rest, left, first⟩
  · simp [nul, ended, starts]
  · obtain ⟨here, nonzero, _⟩ := buf.load_of_drop left
    simp [here, nonzero, first.starts_eq known]

theorem Upcoming.gettoken_end (next : buf.Upcoming s []) :
    ∃ span, gettoken buf.bytes buf.es s = .ok ((0, span), buf.es) := by
  obtain ⟨after, found⟩ := next.cases
  rcases found with ⟨_, same, nul⟩ | ⟨c, rest, _, first⟩
  · refine ⟨⟨Shell.skipSpace buf.bytes buf.es s, Shell.skipSpace buf.bytes buf.es s⟩, ?_⟩
    have stays : Shell.skipSpace buf.bytes buf.es buf.es = buf.es := by
      unfold Shell.skipSpace
      rw [Nat.sub_self]
      rfl
    unfold gettoken tokenAt
    simp only [nul, if_true]
    rw [same, stays]
  · cases first

/-- The switch in `gettoken` finds the first token. -/
theorem tokenAt_spec {q : Nat} {c : UInt8} {rest : List UInt8} {token : Token}
    (left : buf.text.drop q = c :: rest) (first : First c rest (token :: toks)) :
    ∃ stop, tokenAt buf.bytes buf.es q = (token.code, stop) ∧ buf.Upcoming stop toks ∧
      ∀ word, token = .word word → buf.WordAt ⟨q, stop⟩ word := by
  obtain ⟨here, nonzero, inside, after⟩ := buf.load_of_drop left
  unfold tokenAt
  rw [here, if_neg nonzero]
  cases first with
  | append greater twice =>
    subst greater
    cases rest with
    | nil => cases twice
    | cons d more =>
      obtain ⟨second, _, inside', after'⟩ := buf.load_of_drop after
      cases twice
      refine ⟨q + 2, ?_, ⟨inside', ?_⟩, nofun⟩
      · rw [if_neg (by decide), if_pos rfl, second, if_pos rfl]
        rfl
      · rw [after']
        rfl
  | greater greater once =>
    subst greater
    refine ⟨q + 1, ?_, ⟨inside, by rw [after]⟩, nofun⟩
    have single : load buf.bytes (q + 1) ≠ byte '>' := by
      cases rest with
      | nil =>
        rw [(buf.load_of_drop_nil inside after).2]
        decide
      | cons d more =>
        rw [(buf.load_of_drop after).1]
        intro same
        exact once (congrArg some same)
    rw [if_neg (by decide), if_pos rfl, if_neg single]
    rfl
  | symbol token _ found =>
    obtain ⟨known, code, _, _, hasSymbol, _⟩ := symbolToken_some found
    refine ⟨q + 1, ?_, ⟨inside, by rw [after]⟩, ?_⟩
    · rw [if_pos known, code]
    · intro word same
      rw [same] at hasSymbol
      cases hasSymbol
  | word other missing isWord =>
    obtain ⟨reached, place, bounded⟩ := buf.scan_spec wordByte q (Nat.le_of_lt inside)
    have taken : (c :: rest).takeWhile wordByte = c :: rest.takeWhile wordByte :=
      List.takeWhile_cons_of_pos isWord
    rw [left, List.dropWhile_cons_of_pos isWord] at reached
    rw [left, taken] at place
    refine ⟨_, ?_, ⟨bounded, by rw [reached]⟩, ?_⟩
    · rw [if_neg (by rw [symbolToken_none missing]; nofun), if_neg other]
      rfl
    · intro word same
      cases same
      refine ⟨place, ?_, ?_, ?_⟩
      · rw [left, reached, List.cons_append, List.takeWhile_append_dropWhile]
      · intro d isIn
        rw [← taken] at isIn
        refine ⟨?_, List.mem_takeWhile_imp isIn⟩
        have fromText : d ∈ buf.text.drop q := by
          rw [left]
          exact (List.takeWhile_prefix wordByte).subset isIn
        exact buf.nonzero_of_mem_text (List.mem_of_mem_drop fromText)
      · cases ends : rest.dropWhile wordByte with
        | nil => exact Or.inl (buf.load_of_drop_nil bounded (reached.trans ends)).2
        | cons d more =>
          have stopped := List.head?_dropWhile_not wordByte rest
          rw [ends] at stopped
          refine Or.inr ?_
          rw [(buf.load_of_drop (reached.trans ends)).1]
          exact stopped

theorem Upcoming.gettoken {token : Token} (next : buf.Upcoming s (token :: toks)) :
    ∃ span s', gettoken buf.bytes buf.es s = .ok ((token.code, span), s') ∧
      buf.Upcoming s' toks ∧ ∀ word, token = .word word → buf.WordAt span word := by
  obtain ⟨_, found⟩ := next.cases
  rcases found with ⟨ended, _⟩ | ⟨c, rest, left, first⟩
  · cases ended
  · obtain ⟨stop, found, after, spells⟩ := tokenAt_spec left first
    refine ⟨⟨Shell.skipSpace buf.bytes buf.es s, stop⟩, _, ?_, after.skipSpace.1, spells⟩
    unfold Shell.gettoken
    simp only [found]

end Buffer

end Xv6.Shell
