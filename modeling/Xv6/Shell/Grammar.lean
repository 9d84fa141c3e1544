/-
The shell parses exactly its grammar.

`Derives` is the grammar, over tokens.  Every call of the parser that returns has taken a
phrase of the grammar, and does not run out of fuel if it gets enough for the tokens that
are left (`parse_ends`); where a phrase stands before something that may follow it, the
parser takes exactly this phrase (`Derives.parses`).  The words survive `nulterminate`
because a NUL is written only to bytes that belong to no word.
-/

import Mathlib.Tactic
import Xv6.Shell.Parser

namespace Xv6.Shell

open Library Code

/-! ### The grammar -/

inductive Redirection
  | input
  | output
  | append

namespace Redirection

def token : Redirection → Token
  | input => .less
  | output => .greater
  | append => .append

def mode : Redirection → Nat
  | input => oRdonly
  | output => oWronlyCreate
  | append => oWronlyCreate

def fd : Redirection → Nat
  | input => 0
  | output => 1
  | append => 1

end Redirection

/-- A tree under redirections, the last one outermost. -/
def Cmd.redirected {Word : Type} (cmd : Cmd Word) (redirs : List (Redirection × Word)) :
    Cmd Word :=
  redirs.foldl (fun cmd redir => .redir cmd redir.2 redir.1.mode redir.1.fd) cmd

/-- `redir*`. -/
inductive Redirs : List Token → List (Redirection × List UInt8) → Prop
  | none : Redirs [] []
  | more {toks : List Token} {redirs : List (Redirection × List UInt8)} (kind : Redirection)
      (file : List UInt8) (rest : Redirs toks redirs) :
      Redirs (kind.token :: .word file :: toks) ((kind, file) :: redirs)

/-- `(word redir*)*`, with the words and the redirections. -/
inductive Args : List Token → List (List UInt8) → List (Redirection × List UInt8) → Prop
  | none : Args [] [] []
  | more {toks later : List Token} {redirs lateRedirs : List (Redirection × List UInt8)}
      {words : List (List UInt8)} (word : List UInt8) (here : Redirs toks redirs)
      (rest : Args later words lateRedirs) :
      Args (.word word :: toks ++ later) (word :: words) (redirs ++ lateRedirs)

inductive Phrase
  | line
  | pipe
  | exec

/-- The tokens form the phrase, and the tree is its derivation. -/
inductive Derives : Phrase → List Token → Cmd (List UInt8) → Prop
  | line {toks : List Token} {tree : Cmd (List UInt8)} (count : Nat)
      (first : Derives .pipe toks tree) :
      Derives .line (toks ++ List.replicate count .amp) (Cmd.back^[count] tree)
  | list {toks later : List Token} {tree right : Cmd (List UInt8)} (count : Nat)
      (first : Derives .pipe toks tree) (second : Derives .line later right) :
      Derives .line (toks ++ List.replicate count .amp ++ .semi :: later)
        (.list (Cmd.back^[count] tree) right)
  | pipe {toks : List Token} {tree : Cmd (List UInt8)} (only : Derives .exec toks tree) :
      Derives .pipe toks tree
  | pipes {toks later : List Token} {tree right : Cmd (List UInt8)}
      (first : Derives .exec toks tree) (second : Derives .pipe later right) :
      Derives .pipe (toks ++ .pipe :: later) (.pipe tree right)
  | block {toks later : List Token} {tree : Cmd (List UInt8)}
      {redirs : List (Redirection × List UInt8)} (inside : Derives .line toks tree)
      (after : Redirs later redirs) :
      Derives .exec (.lparen :: toks ++ .rparen :: later) (tree.redirected redirs)
  | exec {toks later : List Token} {words : List (List UInt8)}
      {redirs lateRedirs : List (Redirection × List UInt8)} (first : Redirs toks redirs)
      (second : Args later words lateRedirs) (atMost : words.length ≤ 9) :
      Derives .exec (toks ++ later) ((Cmd.exec words).redirected (redirs ++ lateRedirs))

/-! ### Trees that give the same words in two ways -/

/-- Two trees of one shape whose words are related. -/
inductive Cmd.Rel {Word Other : Type} (related : Word → Other → Prop) :
    Cmd Word → Cmd Other → Prop
  | exec {argv : List Word} {words : List Other} (each : List.Forall₂ related argv words) :
      Rel related (.exec argv) (.exec words)
  | redir {cmd : Cmd Word} {tree : Cmd Other} {file : Word} {word : Other} (mode fd : Nat)
      (inner : Rel related cmd tree) (same : related file word) :
      Rel related (.redir cmd file mode fd) (.redir tree word mode fd)
  | pipe {left right : Cmd Word} {leftTree rightTree : Cmd Other}
      (first : Rel related left leftTree) (second : Rel related right rightTree) :
      Rel related (.pipe left right) (.pipe leftTree rightTree)
  | list {left right : Cmd Word} {leftTree rightTree : Cmd Other}
      (first : Rel related left leftTree) (second : Rel related right rightTree) :
      Rel related (.list left right) (.list leftTree rightTree)
  | back {cmd : Cmd Word} {tree : Cmd Other} (inner : Rel related cmd tree) :
      Rel related (.back cmd) (.back tree)

namespace Cmd

variable {Word Other : Type} {related : Word → Other → Prop}

theorem redirected_append (cmd : Cmd Word) (first second : List (Redirection × Word)) :
    cmd.redirected (first ++ second) = (cmd.redirected first).redirected second :=
  List.foldl_append

theorem redirected_addArg (redirs : List (Redirection × Word)) (argv : List Word) (word : Word) :
    ((exec argv).redirected redirs).addArg word = (exec (argv ++ [word])).redirected redirs := by
  induction redirs using List.reverseRecOn with
  | nil => rfl
  | append_singleton redirs last ih =>
    rw [redirected_append, redirected_append, ← ih]
    rfl

namespace Rel

variable {cmd : Cmd Word} {tree : Cmd Other}

theorem backs (rel : Rel related cmd tree) (count : Nat) :
    Rel related (Cmd.back^[count] cmd) (Cmd.back^[count] tree) := by
  induction count generalizing cmd tree with
  | zero => exact rel
  | succ count ih => exact ih rel.back

theorem addArg {word : Word} {other : Other} (rel : Rel related cmd tree)
    (same : related word other) :
    Rel related (cmd.addArg word) (tree.addArg other) := by
  induction rel with
  | exec each => exact .exec (List.rel_append each (.cons same .nil))
  | redir mode fd _ isFile ih => exact .redir mode fd ih isFile
  | pipe first second => exact .pipe first second
  | list first second => exact .list first second
  | back inner => exact .back inner

theorem mem_words (rel : Rel related cmd tree) {word : Word} (isIn : word ∈ cmd.words) :
    ∃ other, related word other := by
  induction rel with
  | exec each =>
    induction each with
    | nil => cases isIn
    | cons same _ ih =>
      rcases List.mem_cons.mp isIn with here | later
      · rw [here]
        exact ⟨_, same⟩
      · exact ih later
  | redir mode fd _ same ih =>
    rcases List.mem_append.mp isIn with inner | isFile
    · exact ih inner
    · rw [List.mem_singleton.mp isFile]
      exact ⟨_, same⟩
  | pipe _ _ ihFirst ihSecond | list _ _ ihFirst ihSecond =>
    rcases List.mem_append.mp isIn with left | right
    · exact ihFirst left
    · exact ihSecond right
  | back _ ih => exact ih isIn

theorem map_eq {f : Word → Other} (rel : Rel related cmd tree)
    (agrees : ∀ word ∈ cmd.words, ∀ other, related word other → f word = other) :
    cmd.map f = tree := by
  induction rel with
  | exec each =>
    unfold Cmd.map
    congr 1
    induction each with
    | nil => rfl
    | cons same _ ih =>
      rw [List.map_cons, agrees _ List.mem_cons_self _ same, ih]
      intro word isIn
      exact agrees word (List.mem_cons_of_mem _ isIn)
  | redir mode fd _ same ih =>
    unfold Cmd.map
    rw [ih (fun word isIn => agrees word (List.mem_append_left _ isIn)),
      agrees _ (List.mem_append_right _ List.mem_cons_self) _ same]
  | pipe _ _ ihFirst ihSecond | list _ _ ihFirst ihSecond =>
    unfold Cmd.map
    rw [ihFirst (fun word isIn => agrees word (List.mem_append_left _ isIn)),
      ihSecond (fun word isIn => agrees word (List.mem_append_right _ isIn))]
  | back _ ih =>
    unfold Cmd.map
    rw [ih agrees]

end Rel

end Cmd

namespace Buffer

variable {buf : Buffer}

theorem WordAt.load {span : Span} {word : List UInt8} (spells : buf.WordAt span word) {i : Nat}
    (inside : i < word.length) : load buf.bytes (span.start + i) = word[i] := by
  have left : buf.text.drop (span.start + i) = word.drop i ++ buf.text.drop span.stop := by
    rw [← List.drop_drop, spells.bytes, List.drop_append_of_le_length (Nat.le_of_lt inside)]
  rw [List.drop_eq_getElem_cons inside, List.cons_append] at left
  exact (buf.load_of_drop left).1

/-- No word of the tree reaches over the end of another one, so that the bytes of a word
are as before and are followed by a NUL. -/
theorem WordAt.survives {cmd : Cmd Span} {tree : Cmd (List UInt8)} {span : Span}
    {word : List UInt8} (rel : cmd.Rel buf.WordAt tree) (isIn : span ∈ cmd.words)
    (spells : buf.WordAt span word) :
    cstring (nulterminate buf.bytes cmd) span.start = word := by
  refine cstring_eq span.start ?_ (fun c isByte => (spells.inside c isByte).1) ?_
  · intro i inside
    rw [load_nulterminate, if_neg]
    · exact spells.load inside
    · intro isEnd
      obtain ⟨other, otherIn, same⟩ := List.mem_map.mp isEnd
      obtain ⟨_, otherSpells⟩ := rel.mem_words otherIn
      have boundary := otherSpells.boundary
      rw [same, spells.load inside] at boundary
      obtain ⟨nonzero, isWord⟩ := spells.inside _ (List.getElem_mem inside)
      rcases boundary with nul | noWord
      · exact nonzero nul
      · rw [isWord] at noWord
        cases noWord
  · rw [load_nulterminate, ← spells.stop, if_pos (List.mem_map_of_mem isIn)]

end Buffer

/-! ### The next token -/

theorem symbol_inj {token other : Token} {symbol : Char} (single : symbol ≠ '>')
    (first : token.symbol = some symbol) (second : other.symbol = some symbol) :
    token = other := by
  cases token <;> cases first <;> cases other
  all_goals first | rfl | exact absurd rfl single | simp [Token.symbol] at second

variable {toks rest : List Token} {chars : List Char}

theorem starts_singleton {symbol : Char} (token : Token) (single : symbol ≠ '>')
    (hasSymbol : token.symbol = some symbol) (next : starts [symbol] toks = true) :
    ∃ rest, toks = token :: rest := by
  cases toks with
  | nil => cases next
  | cons first rest =>
    refine ⟨rest, ?_⟩
    have same : first.symbol = some symbol := by
      simpa [starts, Option.any_eq_true] using next
    rw [symbol_inj single same hasSymbol]

theorem starts_redirection (next : starts ['<', '>'] toks = true) :
    ∃ (kind : Redirection) (rest : List Token), toks = kind.token :: rest := by
  cases toks with
  | nil => cases next
  | cons first rest =>
    cases first with
    | less => exact ⟨.input, rest, rfl⟩
    | greater => exact ⟨.output, rest, rfl⟩
    | append => exact ⟨.append, rest, rfl⟩
    | pipe | amp | semi | lparen | rparen | word => cases next

theorem starts_mono {more : List Char} (fewer : chars ⊆ more) (next : starts chars toks = true) :
    starts more toks = true := by
  cases toks with
  | nil => cases next
  | cons first rest =>
    simp only [starts, Option.any_eq_true, decide_eq_true_eq] at next ⊢
    obtain ⟨symbol, hasSymbol, isIn⟩ := next
    exact ⟨symbol, hasSymbol, fewer isIn⟩

theorem code_word (word : List UInt8) : (Token.word word).code = byte 'a' := rfl

theorem redirectBy_code (kind : Redirection) (cmd : Cmd Span) (file : Span) :
    redirectBy kind.token.code cmd file = .redir cmd file kind.mode kind.fd := by
  cases kind with
  | input => rfl
  | output => rfl
  | append => rfl

/-! ### What the parser takes is a phrase -/

section Soundness

variable {buf : Buffer}

/-- Stopping is allowed, running out of fuel is not. -/
def Panics (cause : Stop) : Prop := cause ≠ .fuel

theorem parsebacks_ends {fuel s : Nat} {toks : List Token} (cmd : Cmd Span)
    (next : buf.Upcoming s toks) (enough : toks.length < fuel) :
    (parsebacks buf.bytes buf.es fuel cmd).Ends s Panics (fun result s' =>
      ∃ count rest, toks = List.replicate count .amp ++ rest ∧ buf.Upcoming s' rest ∧
        result = Cmd.back^[count] cmd) := by
  induction fuel generalizing s toks cmd with
  | zero => omega
  | succ fuel ih =>
    unfold parsebacks
    obtain ⟨q, peeked, after⟩ := next.peek ['&'] (by decide)
    refine Ends.bind_of_ok peeked ?_
    cases isAmp : starts ['&'] toks with
    | false =>
      exact Ends.of_pure ⟨0, toks, rfl, after, rfl⟩
    | true =>
      obtain ⟨rest, rfl⟩ := starts_singleton .amp (by decide) rfl isAmp
      obtain ⟨span, s', taken, later, _⟩ := after.gettoken
      refine Ends.bind_of_ok taken ?_
      refine (ih (.back cmd) later (by simpa using enough)).mono ?_
      rintro result s'' ⟨count, left, same, reached, nested⟩
      refine ⟨count + 1, left, ?_, reached, nested⟩
      rw [same, List.replicate_succ, List.cons_append]

theorem parseredirs_ends {fuel s : Nat} {toks : List Token} {cmd : Cmd Span}
    {tree : Cmd (List UInt8)} (rel : cmd.Rel buf.WordAt tree) (next : buf.Upcoming s toks)
    (enough : toks.length < fuel) :
    (parseredirs buf.bytes buf.es fuel cmd).Ends s Panics (fun result s' =>
      ∃ taken rest redirs, toks = taken ++ rest ∧ buf.Upcoming s' rest ∧ Redirs taken redirs ∧
        result.Rel buf.WordAt (tree.redirected redirs)) := by
  induction fuel generalizing s toks cmd tree with
  | zero => omega
  | succ fuel ih =>
    unfold parseredirs
    obtain ⟨q, peeked, after⟩ := next.peek ['<', '>'] (by decide)
    refine Ends.bind_of_ok peeked ?_
    cases isRedir : starts ['<', '>'] toks with
    | false => exact Ends.of_pure ⟨[], toks, [], rfl, after, .none, rel⟩
    | true =>
      obtain ⟨kind, rest, rfl⟩ := starts_redirection isRedir
      obtain ⟨_, s', taken, later, _⟩ := after.gettoken
      refine Ends.bind_of_ok taken ?_
      cases rest with
      | nil =>
        obtain ⟨span, ended⟩ := later.gettoken_end
        refine Ends.bind_of_ok ended ?_
        exact Ends.of_stop nofun
      | cons token rest =>
        obtain ⟨span, s'', second, beyond, spells⟩ := later.gettoken
        refine Ends.bind_of_ok second ?_
        cases token with
        | word file =>
          simp only [code_word, ne_eq, not_true_eq_false, if_false, redirectBy_code]
          have inner := rel.redir kind.mode kind.fd (spells file rfl)
          simp only [List.length_cons] at enough
          refine (ih inner beyond (by omega)).mono ?_
          rintro result end_ ⟨more, left, redirs, same, reached, derived, related⟩
          refine ⟨_, left, (kind, file) :: redirs, ?_, reached, .more kind file derived,
            related⟩
          rw [same]
          rfl
        | less | greater | append | pipe | amp | semi | lparen | rparen => exact Ends.of_stop nofun

theorem parseargs_ends {fuel s : Nat} {toks : List Token} {ret : Cmd Span}
    {argv : List (List UInt8)} {before : List (Redirection × List UInt8)}
    (rel : ret.Rel buf.WordAt ((Cmd.exec argv).redirected before)) (next : buf.Upcoming s toks)
    (few : argv.length ≤ 9) (enough : toks.length < fuel) :
    (parseargs buf.bytes buf.es fuel argv.length ret).Ends s Panics (fun result s' =>
      ∃ taken rest words redirs, toks = taken ++ rest ∧ buf.Upcoming s' rest ∧
        Args taken words redirs ∧ (argv ++ words).length ≤ 9 ∧
        result.Rel buf.WordAt ((Cmd.exec (argv ++ words)).redirected (before ++ redirs))) := by
  induction fuel generalizing s toks ret argv before with
  | zero => omega
  | succ fuel ih =>
    unfold parseargs
    obtain ⟨q, peeked, after⟩ := next.peek ['|', ')', '&', ';'] (by decide)
    refine Ends.bind_of_ok peeked ?_
    have nothing : ∀ place, buf.Upcoming place toks →
        ∃ taken rest words redirs, toks = taken ++ rest ∧ buf.Upcoming place rest ∧
          Args taken words redirs ∧ (argv ++ words).length ≤ 9 ∧
          ret.Rel buf.WordAt
            ((Cmd.exec (argv ++ words)).redirected (before ++ redirs)) := by
      intro place here
      refine ⟨[], toks, [], [], rfl, here, .none, ?_, ?_⟩
      · simpa using few
      · simpa using rel
    cases closes : starts ['|', ')', '&', ';'] toks with
    | true => exact Ends.of_pure (nothing q after)
    | false =>
      cases toks with
      | nil =>
        obtain ⟨span, ended⟩ := after.gettoken_end
        refine Ends.bind_of_ok ended ?_
        rw [if_pos rfl]
        exact Ends.of_pure (nothing buf.es buf.upcoming_es)
      | cons token rest =>
        obtain ⟨span, s', taken, later, spells⟩ := after.gettoken
        refine Ends.bind_of_ok taken ?_
        cases token with
        | word word =>
          have letter : byte 'a' ≠ 0 := by decide
          simp only [code_word, letter, ne_eq, not_true_eq_false, if_false]
          by_cases many : maxArgs ≤ argv.length + 1
          · rw [if_pos many]
            exact Ends.of_stop nofun
          · rw [if_neg many]
            have added := rel.addArg (spells word rfl)
            rw [Cmd.redirected_addArg] at added
            simp only [List.length_cons] at enough
            refine Ends.bind (parseredirs_ends added later (by omega)) ?_
            rintro middle place ⟨passed, left, redirs, rfl, reached, derived, related⟩
            rw [← Cmd.redirected_append] at related
            have longer : argv.length + 1 = (argv ++ [word]).length := by simp
            rw [longer]
            unfold maxArgs at many
            rw [List.length_append] at enough
            refine (ih related reached (by simp; omega) (by omega)).mono ?_
            rintro result finish ⟨more, beyond, words, lateRedirs, rfl, final, args, atMost,
              whole⟩
            refine ⟨.word word :: passed ++ more, beyond, word :: words,
              redirs ++ lateRedirs, ?_, final, .more word derived args, ?_, ?_⟩
            · simp
            · simpa using atMost
            · simpa using whole
        | less | greater | append | pipe | amp | semi | lparen | rparen => exact Ends.of_stop nofun

/-- The function that parses a phrase. -/
def parse (mem : Memory) (es : Nat) : Phrase → Nat → Parser (Cmd Span)
  | .line => parseline mem es
  | .pipe => parsepipe mem es
  | .exec => parseexec mem es

/-- Enough fuel for a phrase when so many tokens are left: `parseexec` comes back to
`parseline` after three calls, with one token less. -/
def Phrase.fuel : Phrase → Nat → Nat
  | .line, left => 3 * left + 4
  | .pipe, left => 3 * left + 3
  | .exec, left => 3 * left + 2

/-- The parser has taken a phrase off the tokens, and has built its derivation. -/
def Took (buf : Buffer) (phrase : Phrase) (toks : List Token) (cmd : Cmd Span) (s : Nat) : Prop :=
  ∃ taken rest tree, toks = taken ++ rest ∧ buf.Upcoming s rest ∧ Derives phrase taken tree ∧
    cmd.Rel buf.WordAt tree

/-- What a phrase parser does with this much fuel. -/
def ParsesWith (buf : Buffer) (fuel : Nat) : Prop :=
  ∀ phrase s toks, buf.Upcoming s toks → phrase.fuel toks.length ≤ fuel →
    (parse buf.bytes buf.es phrase fuel).Ends s Panics (Took buf phrase toks)

variable {fuel s : Nat} {toks : List Token}

theorem parseline_ends (inner : ParsesWith buf fuel) (next : buf.Upcoming s toks)
    (enough : Phrase.line.fuel toks.length ≤ fuel + 1) :
    (parseline buf.bytes buf.es (fuel + 1)).Ends s Panics (Took buf .line toks) := by
  simp only [Phrase.fuel] at enough
  unfold parseline
  refine Ends.bind (inner .pipe s toks next (by simp only [Phrase.fuel]; omega)) ?_
  rintro cmd place ⟨taken, rest, tree, rfl, after, derived, rel⟩
  rw [List.length_append] at enough
  refine Ends.bind (parsebacks_ends cmd after (by omega)) ?_
  rintro nested place' ⟨count, left, rfl, after', rfl⟩
  obtain ⟨q, peeked, here⟩ := after'.peek [';'] (by decide)
  refine Ends.bind_of_ok peeked ?_
  cases isSemi : starts [';'] left with
  | false =>
    refine Ends.of_pure ⟨_, left, _, ?_, here, .line count derived, rel.backs count⟩
    rw [List.append_assoc]
  | true =>
    obtain ⟨later, rfl⟩ := starts_singleton .semi (by decide) rfl isSemi
    obtain ⟨_, s', semi, beyond, _⟩ := here.gettoken
    refine Ends.bind_of_ok semi ?_
    simp only [List.length_append, List.length_cons] at enough
    refine Ends.bind (inner .line s' later beyond (by simp only [Phrase.fuel]; omega)) ?_
    rintro right finish ⟨more, final, rightTree, rfl, reached, second, related⟩
    refine Ends.of_pure ⟨_, final, _, ?_, reached, .list count derived second,
      .list (rel.backs count) related⟩
    simp

theorem parsepipe_ends (inner : ParsesWith buf fuel) (next : buf.Upcoming s toks)
    (enough : Phrase.pipe.fuel toks.length ≤ fuel + 1) :
    (parsepipe buf.bytes buf.es (fuel + 1)).Ends s Panics (Took buf .pipe toks) := by
  simp only [Phrase.fuel] at enough
  unfold parsepipe
  refine Ends.bind (inner .exec s toks next (by simp only [Phrase.fuel]; omega)) ?_
  rintro cmd place ⟨taken, rest, tree, rfl, after, derived, rel⟩
  obtain ⟨q, peeked, here⟩ := after.peek ['|'] (by decide)
  refine Ends.bind_of_ok peeked ?_
  cases isBar : starts ['|'] rest with
  | false => exact Ends.of_pure ⟨taken, rest, tree, rfl, here, .pipe derived, rel⟩
  | true =>
    obtain ⟨later, rfl⟩ := starts_singleton .pipe (by decide) rfl isBar
    obtain ⟨_, s', bar, beyond, _⟩ := here.gettoken
    refine Ends.bind_of_ok bar ?_
    simp only [List.length_append, List.length_cons] at enough
    refine Ends.bind (inner .pipe s' later beyond (by simp only [Phrase.fuel]; omega)) ?_
    rintro right finish ⟨more, final, rightTree, rfl, reached, second, related⟩
    refine Ends.of_pure ⟨_, final, _, ?_, reached, .pipes derived second, .pipe rel related⟩
    simp

theorem parseblock_ends (inner : ParsesWith buf fuel) (next : buf.Upcoming s (.lparen :: toks))
    (enough : 3 * toks.length + 4 ≤ fuel) :
    (parseblock buf.bytes buf.es (parseline buf.bytes buf.es fuel) fuel).Ends s Panics
      (Took buf .exec (.lparen :: toks)) := by
  unfold parseblock
  obtain ⟨q, peeked, here⟩ := next.peek ['('] (by decide)
  have opens : starts ['('] (.lparen :: toks) = true := rfl
  refine Ends.bind_of_ok peeked ?_
  rw [if_pos opens]
  obtain ⟨_, s', opened, after, _⟩ := here.gettoken
  refine Ends.bind_of_ok opened ?_
  refine Ends.bind (inner .line s' toks after enough) ?_
  rintro cmd place ⟨taken, rest, tree, rfl, reached, derived, rel⟩
  obtain ⟨q', peeked', here'⟩ := reached.peek [')'] (by decide)
  refine Ends.bind_of_ok peeked' ?_
  cases isClosed : starts [')'] rest with
  | false => exact Ends.of_stop nofun
  | true =>
    obtain ⟨later, rfl⟩ := starts_singleton .rparen (by decide) rfl isClosed
    obtain ⟨_, s'', closed, beyond, _⟩ := here'.gettoken
    refine Ends.bind_of_ok closed ?_
    simp only [List.length_append, List.length_cons] at enough
    refine (parseredirs_ends rel beyond (by omega)).mono ?_
    rintro result finish ⟨more, final, redirs, rfl, ends, isRedirs, related⟩
    refine ⟨_, final, _, ?_, ends, .block derived isRedirs, related⟩
    simp

theorem parseexec_ends (inner : ParsesWith buf fuel) (next : buf.Upcoming s toks)
    (enough : Phrase.exec.fuel toks.length ≤ fuel + 1) :
    (parseexec buf.bytes buf.es (fuel + 1)).Ends s Panics (Took buf .exec toks) := by
  simp only [Phrase.fuel] at enough
  unfold parseexec
  obtain ⟨q, peeked, here⟩ := next.peek ['('] (by decide)
  refine Ends.bind_of_ok peeked ?_
  cases opens : starts ['('] toks with
  | true =>
    obtain ⟨rest, rfl⟩ := starts_singleton .lparen (by decide) rfl opens
    rw [List.length_cons] at enough
    exact parseblock_ends inner here (by omega)
  | false =>
    have empty : (Cmd.exec []).Rel buf.WordAt ((Cmd.exec []).redirected []) := .exec .nil
    refine Ends.bind (parseredirs_ends empty here (by omega)) ?_
    rintro ret place ⟨taken, rest, redirs, rfl, after, isRedirs, rel⟩
    rw [← Cmd.redirected_append, List.nil_append] at rel
    rw [List.length_append] at enough
    refine (parseargs_ends rel after (Nat.zero_le _) (by omega)).mono ?_
    rintro result finish ⟨more, final, words, lateRedirs, rfl, ends, isArgs, atMost, related⟩
    refine ⟨_, final, _, ?_, ends, .exec isRedirs isArgs atMost, related⟩
    rw [List.append_assoc]

/-- With enough fuel for the tokens that are left, every call returns or panics, and when it
returns it has taken a phrase of its kind. -/
theorem parse_ends (fuel : Nat) : ParsesWith buf fuel := by
  induction fuel with
  | zero =>
    intro phrase s toks _ enough
    cases phrase <;> simp [Phrase.fuel] at enough
  | succ fuel ih =>
    intro phrase s toks next enough
    cases phrase with
    | line => exact parseline_ends ih next enough
    | pipe => exact parsepipe_ends ih next enough
    | exec => exact parseexec_ends ih next enough

end Soundness

/-! ### Every phrase is parsed -/

/-- The symbols that may follow a phrase. -/
def Phrase.closers : Phrase → List Char
  | .line => [')']
  | .pipe => [')', '&', ';']
  | .exec => [')', '&', ';', '|']

/-- The phrase is followed by the end of the line or by one of its closers. -/
def Follow (phrase : Phrase) (rest : List Token) : Prop :=
  rest = [] ∨ starts phrase.closers rest = true

theorem Follow.mono {phrase larger : Phrase} (fewer : phrase.closers ⊆ larger.closers)
    (follow : Follow phrase rest) :
    Follow larger rest := by
  rcases follow with ended | next
  · exact Or.inl ended
  · exact Or.inr (starts_mono fewer next)

theorem Follow.avoids {phrase : Phrase} (follow : Follow phrase rest)
    (apart : phrase.closers.all (fun c => decide (c ∉ chars)) = true) :
    starts chars rest = false := by
  rcases follow with rfl | next
  · rfl
  · cases rest with
    | nil => rfl
    | cons first later =>
      simp only [starts, Option.any_eq_true, decide_eq_true_eq] at next
      obtain ⟨symbol, hasSymbol, isCloser⟩ := next
      have outside := of_decide_eq_true (List.all_eq_true.mp apart symbol isCloser)
      simp [starts, hasSymbol, outside]

theorem Redirs.starts_append {redirs : List (Redirection × List UInt8)}
    (derived : Redirs toks redirs) (apart : '<' ∉ chars ∧ '>' ∉ chars)
    (next : starts chars rest = false) :
    starts chars (toks ++ rest) = false := by
  cases derived with
  | none => exact next
  | more kind file later =>
    cases kind <;> simp [Redirection.token, starts, Token.symbol, apart]

theorem Args.starts_append {words : List (List UInt8)} {redirs : List (Redirection × List UInt8)}
    (derived : Args toks words redirs) (next : starts chars rest = false) :
    starts chars (toks ++ rest) = false := by
  cases derived with
  | none => exact next
  | more word here later => rfl

section Completeness

variable {buf : Buffer}

variable {s : Nat} {rest toks later : List Token} {redirs : List (Redirection × List UInt8)}
  {tree : Cmd (List UInt8)}

theorem parsebacks_complete (fuel : Nat) {count : Nat} (cmd : Cmd Span)
    (next : buf.Upcoming s (List.replicate count .amp ++ rest)) (enough : count < fuel)
    (follow : starts ['&'] rest = false) :
    ∃ s', parsebacks buf.bytes buf.es fuel cmd s = .ok (Cmd.back^[count] cmd, s') ∧
      buf.Upcoming s' rest := by
  induction fuel generalizing s count cmd with
  | zero => omega
  | succ fuel ih =>
    unfold parsebacks
    obtain ⟨q, peeked, here⟩ := next.peek ['&'] (by decide)
    rw [bind_ok peeked]
    cases count with
    | zero =>
      rw [List.replicate_zero, List.nil_append] at here ⊢
      rw [follow]
      exact ⟨q, rfl, here⟩
    | succ count =>
      rw [List.replicate_succ, List.cons_append] at here ⊢
      have isAmp : starts ['&'] (.amp :: (List.replicate count .amp ++ rest)) = true := rfl
      obtain ⟨_, s', taken, after, _⟩ := here.gettoken
      rw [if_pos isAmp, bind_ok taken]
      exact ih (.back cmd) after (by omega)

theorem Redirs.parses (derived : Redirs toks redirs) (fuel : Nat) {cmd : Cmd Span}
    (rel : cmd.Rel buf.WordAt tree) (next : buf.Upcoming s (toks ++ rest))
    (enough : toks.length < fuel) (follow : starts ['<', '>'] rest = false) :
    ∃ result s', parseredirs buf.bytes buf.es fuel cmd s = .ok (result, s') ∧
      buf.Upcoming s' rest ∧ result.Rel buf.WordAt (tree.redirected redirs) := by
  induction derived generalizing fuel s cmd tree with
  | none =>
    obtain ⟨fuel, rfl⟩ := Nat.exists_eq_add_of_lt enough
    obtain ⟨q, peeked, here⟩ := next.peek ['<', '>'] (by decide)
    rw [List.nil_append] at peeked here
    refine ⟨cmd, q, ?_, here, rel⟩
    unfold parseredirs
    rw [bind_ok peeked, follow]
    rfl
  | more kind file _ ih =>
    cases fuel with
    | zero => omega
    | succ fuel =>
      obtain ⟨q, peeked, here⟩ := next.peek ['<', '>'] (by decide)
      obtain ⟨_, s', first, after, _⟩ := here.gettoken
      obtain ⟨span, s'', second, beyond, spells⟩ := after.gettoken
      have inner := rel.redir kind.mode kind.fd (spells file rfl)
      simp only [List.length_cons] at enough
      obtain ⟨result, finish, ran, reached, related⟩ := ih fuel inner beyond (by omega)
      refine ⟨result, finish, ?_, reached, related⟩
      have isRedir : ∀ more, starts ['<', '>'] (kind.token :: more) = true := by
        intro more
        cases kind <;> rfl
      unfold parseredirs
      rw [bind_ok peeked, List.cons_append, if_pos (isRedir _), bind_ok first, bind_ok second]
      simp only [code_word, ne_eq, not_true_eq_false, redirectBy_code]
      exact ran

theorem Args.parses {words : List (List UInt8)} (derived : Args toks words redirs) (fuel : Nat)
    {ret : Cmd Span} {argv : List (List UInt8)} {before : List (Redirection × List UInt8)}
    (rel : ret.Rel buf.WordAt ((Cmd.exec argv).redirected before))
    (next : buf.Upcoming s (toks ++ rest)) (atMost : argv.length + words.length ≤ 9)
    (enough : toks.length < fuel) (follow : Follow .exec rest) :
    ∃ result s', parseargs buf.bytes buf.es fuel argv.length ret s = .ok (result, s') ∧
      buf.Upcoming s' rest ∧
      result.Rel buf.WordAt ((Cmd.exec (argv ++ words)).redirected (before ++ redirs)) := by
  induction derived generalizing fuel s ret argv before with
  | none =>
    obtain ⟨fuel, rfl⟩ := Nat.exists_eq_add_of_lt enough
    obtain ⟨q, peeked, here⟩ := next.peek ['|', ')', '&', ';'] (by decide)
    rw [List.nil_append] at peeked here
    rw [List.append_nil, List.append_nil]
    unfold parseargs
    rcases follow with rfl | closes
    · obtain ⟨_, ended⟩ := here.gettoken_end
      refine ⟨ret, buf.es, ?_, buf.upcoming_es, rel⟩
      rw [bind_ok peeked]
      exact bind_ok ended
    · have isCloser : starts ['|', ')', '&', ';'] rest = true :=
        starts_mono (by decide) closes
      refine ⟨ret, q, ?_, here, rel⟩
      rw [bind_ok peeked, if_pos isCloser]
      rfl
  | more word isRedirs isArgs ih =>
    cases fuel with
    | zero => omega
    | succ fuel =>
      obtain ⟨q, peeked, here⟩ := next.peek ['|', ')', '&', ';'] (by decide)
      obtain ⟨span, s', taken, after, spells⟩ := here.gettoken
      have added := rel.addArg (spells word rfl)
      rw [Cmd.redirected_addArg] at added
      simp only [List.length_cons, List.length_append] at enough atMost
      rw [List.append_eq, List.append_eq, List.append_assoc] at after
      have free : starts ['<', '>'] rest = false := follow.avoids (by decide)
      obtain ⟨middle, place, redirected, reached, related⟩ :=
        isRedirs.parses fuel added after (by omega) (isArgs.starts_append free)
      rw [← Cmd.redirected_append] at related
      have longer : (argv ++ [word]).length = argv.length + 1 := by simp
      obtain ⟨result, finish, ran, final, whole⟩ :=
        ih fuel related reached (by omega) (by omega)
      refine ⟨result, finish, ?_, final, by simpa using whole⟩
      have letter : byte 'a' ≠ 0 := by decide
      have few : ¬maxArgs ≤ argv.length + 1 := by unfold maxArgs; omega
      unfold parseargs
      rw [bind_ok peeked]
      change (gettoken buf.bytes buf.es >>= _) q = _
      rw [bind_ok taken]
      change (if byte 'a' = 0 then _ else if byte 'a' ≠ byte 'a' then _
        else if maxArgs ≤ argv.length + 1 then _ else _ : Parser (Cmd Span)) s' = _
      rw [if_neg letter, if_neg (not_not.mpr rfl), if_neg few, bind_ok redirected, ← longer]
      exact ran

/-- Before anything that may follow the phrase, its parser takes these tokens and builds this
tree. -/
def Completes (buf : Buffer) (phrase : Phrase) (toks : List Token) (tree : Cmd (List UInt8)) :
    Prop :=
  ∀ fuel s rest, buf.Upcoming s (toks ++ rest) → phrase.fuel toks.length ≤ fuel →
    Follow phrase rest →
    ∃ cmd s', parse buf.bytes buf.es phrase fuel s = .ok (cmd, s') ∧ buf.Upcoming s' rest ∧
      cmd.Rel buf.WordAt tree

/-- The part of `parseline` up to the test for `;`. -/
theorem Completes.backs {count : Nat} (first : Completes buf .pipe toks tree) (fuel : Nat)
    (next : buf.Upcoming s (toks ++ (List.replicate count .amp ++ rest)))
    (enough : 3 * (toks.length + count) + 3 ≤ fuel) (noAmp : starts ['&'] rest = false)
    (follow : Follow .pipe rest) :
    ∃ cmd q, buf.Upcoming q rest ∧ cmd.Rel buf.WordAt (Cmd.back^[count] tree) ∧
      parseline buf.bytes buf.es (fuel + 1) s =
        (if starts [';'] rest then do
          let _ ← gettoken buf.bytes buf.es
          let right ← parseline buf.bytes buf.es fuel
          pure (.list cmd right)
        else pure cmd : Parser (Cmd Span)) q := by
  have pipeFollow : Follow .pipe (List.replicate count .amp ++ rest) := by
    cases count with
    | zero => exact follow
    | succ count => exact Or.inr rfl
  obtain ⟨cmd, place, ran, after, rel⟩ :=
    first fuel s _ next (by simp only [Phrase.fuel]; omega) pipeFollow
  obtain ⟨place', backs, after'⟩ := parsebacks_complete fuel cmd after (by omega) noAmp
  obtain ⟨q, peeked, here⟩ := after'.peek [';'] (by decide)
  refine ⟨Cmd.back^[count] cmd, q, here, rel.backs count, ?_⟩
  conv_lhs => unfold parseline
  change parsepipe buf.bytes buf.es fuel s = _ at ran
  rw [bind_ok ran, bind_ok backs, bind_ok peeked]

theorem Completes.line (count : Nat) (first : Completes buf .pipe toks tree) :
    Completes buf .line (toks ++ List.replicate count .amp) (Cmd.back^[count] tree) := by
  intro fuel s rest next enough follow
  simp only [Phrase.fuel, List.length_append, List.length_replicate] at enough
  obtain ⟨fuel, rfl⟩ : ∃ less, fuel = less + 1 := ⟨fuel - 1, by omega⟩
  rw [List.append_assoc] at next
  have noSemi : starts [';'] rest = false := follow.avoids (by decide)
  obtain ⟨cmd, q, here, rel, continues⟩ :=
    first.backs fuel next (by omega) (follow.avoids (by decide)) (follow.mono (by decide))
  refine ⟨cmd, q, ?_, here, rel⟩
  change parseline buf.bytes buf.es (fuel + 1) s = _
  rw [continues, noSemi]
  rfl

theorem Completes.list {right : Cmd (List UInt8)} (count : Nat)
    (first : Completes buf .pipe toks tree) (second : Completes buf .line later right) :
    Completes buf .line (toks ++ List.replicate count .amp ++ .semi :: later)
      (.list (Cmd.back^[count] tree) right) := by
  intro fuel s rest next enough follow
  simp only [Phrase.fuel, List.length_append, List.length_replicate, List.length_cons] at enough
  obtain ⟨fuel, rfl⟩ : ∃ less, fuel = less + 1 := ⟨fuel - 1, by omega⟩
  rw [List.append_assoc, List.append_assoc, List.cons_append] at next
  have isSemi : starts [';'] (.semi :: (later ++ rest)) = true := rfl
  obtain ⟨cmd, q, here, rel, continues⟩ := first.backs fuel next (by omega) rfl (Or.inr rfl)
  obtain ⟨_, s', semi, beyond, _⟩ := here.gettoken
  obtain ⟨rightCmd, finish, ran, reached, related⟩ :=
    second fuel s' rest beyond (by simp only [Phrase.fuel]; omega) follow
  refine ⟨.list cmd rightCmd, finish, ?_, reached, .list rel related⟩
  change parseline buf.bytes buf.es fuel s' = _ at ran
  change parseline buf.bytes buf.es (fuel + 1) s = _
  rw [continues, if_pos isSemi, bind_ok semi, bind_ok ran]
  rfl

theorem Completes.pipe (only : Completes buf .exec toks tree) : Completes buf .pipe toks tree := by
  intro fuel s rest next enough follow
  simp only [Phrase.fuel] at enough
  obtain ⟨fuel, rfl⟩ : ∃ less, fuel = less + 1 := ⟨fuel - 1, by omega⟩
  obtain ⟨cmd, place, ran, after, rel⟩ :=
    only fuel s rest next (by simp only [Phrase.fuel]; omega) (follow.mono (by decide))
  obtain ⟨q, peeked, here⟩ := after.peek ['|'] (by decide)
  have noBar : starts ['|'] rest = false := follow.avoids (by decide)
  refine ⟨cmd, q, ?_, here, rel⟩
  change parseexec buf.bytes buf.es fuel s = _ at ran
  change parsepipe buf.bytes buf.es (fuel + 1) s = _
  unfold parsepipe
  rw [bind_ok ran, bind_ok peeked, noBar]
  rfl

theorem Completes.pipes {right : Cmd (List UInt8)} (first : Completes buf .exec toks tree)
    (second : Completes buf .pipe later right) :
    Completes buf .pipe (toks ++ .pipe :: later) (.pipe tree right) := by
  intro fuel s rest next enough follow
  simp only [Phrase.fuel, List.length_append, List.length_cons] at enough
  obtain ⟨fuel, rfl⟩ : ∃ less, fuel = less + 1 := ⟨fuel - 1, by omega⟩
  rw [List.append_assoc, List.cons_append] at next
  obtain ⟨cmd, place, ran, after, rel⟩ :=
    first fuel s _ next (by simp only [Phrase.fuel]; omega) (Or.inr rfl)
  obtain ⟨q, peeked, here⟩ := after.peek ['|'] (by decide)
  have isBar : starts ['|'] (.pipe :: (later ++ rest)) = true := rfl
  obtain ⟨_, s', bar, beyond, _⟩ := here.gettoken
  obtain ⟨rightCmd, finish, ranRight, reached, related⟩ :=
    second fuel s' rest beyond (by simp only [Phrase.fuel]; omega) follow
  refine ⟨.pipe cmd rightCmd, finish, ?_, reached, .pipe rel related⟩
  change parseexec buf.bytes buf.es fuel s = _ at ran
  change parsepipe buf.bytes buf.es fuel s' = _ at ranRight
  change parsepipe buf.bytes buf.es (fuel + 1) s = _
  unfold parsepipe
  rw [bind_ok ran, bind_ok peeked, if_pos isBar, bind_ok bar, bind_ok ranRight]
  rfl

theorem Completes.block (inside : Completes buf .line toks tree) (isRedirs : Redirs later redirs) :
    Completes buf .exec (.lparen :: toks ++ .rparen :: later) (tree.redirected redirs) := by
  intro fuel s rest next enough follow
  simp only [Phrase.fuel, List.length_append, List.length_cons] at enough
  obtain ⟨fuel, rfl⟩ : ∃ less, fuel = less + 1 := ⟨fuel - 1, by omega⟩
  rw [List.append_assoc, List.cons_append, List.cons_append] at next
  -- `parseexec` and `parseblock` both look for the parenthesis
  obtain ⟨q, peeked, here⟩ := next.peek ['('] (by decide)
  obtain ⟨q', peeked', here'⟩ := here.peek ['('] (by decide)
  have opens : starts ['('] (.lparen :: (toks ++ .rparen :: (later ++ rest))) = true := rfl
  obtain ⟨_, s', opened, after, _⟩ := here'.gettoken
  obtain ⟨cmd, place, ran, reached, rel⟩ :=
    inside fuel s' _ after (by simp only [Phrase.fuel]; omega) (Or.inr rfl)
  obtain ⟨q'', closes, there⟩ := reached.peek [')'] (by decide)
  have isClosed : starts [')'] (.rparen :: (later ++ rest)) = true := rfl
  obtain ⟨_, s'', closed, beyond, _⟩ := there.gettoken
  obtain ⟨result, finish, redirected, final, related⟩ :=
    isRedirs.parses fuel rel beyond (by omega) (follow.avoids (by decide))
  refine ⟨result, finish, ?_, final, related⟩
  change parseline buf.bytes buf.es fuel s' = _ at ran
  change parseexec buf.bytes buf.es (fuel + 1) s = _
  unfold parseexec parseblock
  rw [bind_ok peeked, if_pos opens, bind_ok peeked', if_pos opens, bind_ok opened, bind_ok ran,
    bind_ok closes, if_pos isClosed, bind_ok closed, redirected]

theorem Completes.exec {words : List (List UInt8)} {lateRedirs : List (Redirection × List UInt8)}
    (first : Redirs toks redirs) (second : Args later words lateRedirs) (atMost : words.length ≤ 9)
    :
    Completes buf .exec (toks ++ later)
      ((Cmd.exec words).redirected (redirs ++ lateRedirs)) := by
  intro fuel s rest next enough follow
  simp only [Phrase.fuel, List.length_append] at enough
  obtain ⟨fuel, rfl⟩ : ∃ less, fuel = less + 1 := ⟨fuel - 1, by omega⟩
  rw [List.append_assoc] at next
  have noParen : starts ['('] (toks ++ (later ++ rest)) = false :=
    first.starts_append (by decide) (second.starts_append (follow.avoids (by decide)))
  obtain ⟨q, peeked, here⟩ := next.peek ['('] (by decide)
  have empty : (Cmd.exec []).Rel buf.WordAt ((Cmd.exec []).redirected []) := .exec .nil
  obtain ⟨ret, place, redirected, after, rel⟩ :=
    first.parses fuel empty here (by omega) (second.starts_append (follow.avoids (by decide)))
  rw [← Cmd.redirected_append, List.nil_append] at rel
  obtain ⟨result, finish, ran, final, related⟩ :=
    second.parses fuel rel after (by simpa using atMost) (by omega) follow
  refine ⟨result, finish, ?_, final, related⟩
  change parseexec buf.bytes buf.es (fuel + 1) s = _
  unfold parseexec
  rw [bind_ok peeked, noParen]
  change (parseredirs buf.bytes buf.es fuel (.exec []) >>= _) q = _
  rw [bind_ok redirected]
  exact ran

theorem Derives.completes {phrase : Phrase} (derived : Derives phrase toks tree) :
    Completes buf phrase toks tree := by
  induction derived with
  | line count _ ih => exact ih.line count
  | list count _ _ ihFirst ihSecond => exact ihFirst.list count ihSecond
  | pipe _ ih => exact ih.pipe
  | pipes _ _ ihFirst ihSecond => exact ihFirst.pipes ihSecond
  | block _ isRedirs ih => exact ih.block isRedirs
  | exec first second atMost => exact Completes.exec first second atMost

end Completeness

/-! ### parsecmd -/

section Command

variable {buf : Buffer}

/-- After the last `peek` the cursor is at the end iff no tokens are left. -/
theorem Buffer.Upcoming.peek_end {s : Nat} {toks : List Token} (next : buf.Upcoming s toks) :
    ∃ found q, Shell.peek buf.bytes buf.es [] s = .ok (found, q) ∧ (q = buf.es ↔ toks = []) := by
  obtain ⟨after, found⟩ := next.cases
  refine ⟨_, _, rfl, ?_⟩
  rcases found with ⟨ended, atEnd, _⟩ | ⟨c, rest, left, first⟩
  · exact ⟨fun _ => ended, fun _ => atEnd⟩
  · have inside := (buf.load_of_drop left).2.2.1
    constructor
    · intro atEnd
      exact absurd atEnd (Nat.ne_of_lt inside)
    · intro ended
      rw [ended] at first
      cases first

theorem enough_fuel (buf : Buffer) :
    Phrase.line.fuel (tokens buf.text).length ≤ 3 * buf.es + 4 := by
  have fewer := length_tokens_le buf.text
  rw [buf.length_text] at fewer
  simp only [Phrase.fuel]
  omega

theorem strings_nulterminate {cmd : Cmd Span} {tree : Cmd (List UInt8)}
    (rel : cmd.Rel buf.WordAt tree) : cmd.strings (nulterminate buf.bytes cmd) = tree :=
  rel.map_eq (fun _ isIn _ spells => spells.survives rel isIn)

theorem parsecmd_of_error {cause : Stop}
    (stopped : parseline buf.bytes buf.es (3 * buf.es + 4) 0 = .error cause) :
    parsecmd buf.bytes = .error cause := by
  have whole : (do
      let cmd ← parseline buf.bytes buf.es (3 * buf.es + 4)
      let _ ← peek buf.bytes buf.es []
      pure cmd : Parser (Cmd Span)) 0 = .error cause := by
    change (parseline buf.bytes buf.es (3 * buf.es + 4) 0 >>= _) = _
    rw [stopped]
    rfl
  unfold parsecmd
  rw [Buffer.es] at whole
  simp only [whole]

theorem parsecmd_of_ok {cmd : Cmd Span} {s : Nat} {toks : List Token}
    (ran : parseline buf.bytes buf.es (3 * buf.es + 4) 0 = .ok (cmd, s))
    (left : buf.Upcoming s toks) :
    (toks = [] → parsecmd buf.bytes = .ok (cmd, nulterminate buf.bytes cmd)) ∧
      (toks ≠ [] → ∃ rest, parsecmd buf.bytes = .error (.leftovers rest "syntax")) := by
  obtain ⟨found, q, peeked, atEnd⟩ := left.peek_end
  have whole : (do
      let cmd ← parseline buf.bytes buf.es (3 * buf.es + 4)
      let _ ← peek buf.bytes buf.es []
      pure cmd : Parser (Cmd Span)) 0 = .ok (cmd, q) := by
    rw [bind_ok ran, bind_ok peeked]
    rfl
  have unfolded : parsecmd buf.bytes =
      if q ≠ buf.es then .error (.leftovers (cstring buf.bytes q) "syntax")
      else .ok (cmd, nulterminate buf.bytes cmd) := by
    unfold parsecmd
    rw [Buffer.es] at whole ⊢
    simp only [whole]
  rw [unfolded]
  constructor
  · intro ended
    rw [if_neg (not_not.mpr (atEnd.mpr ended))]
  · intro more
    rw [if_pos (fun same => more (atEnd.mp same))]
    exact ⟨_, rfl⟩

/-- What `parsecmd` returns is the derivation of the whole line; otherwise it panics. -/
theorem parsecmd_sound (buf : Buffer) :
    (∃ cmd mem, parsecmd buf.bytes = .ok (cmd, mem) ∧
      Derives .line (tokens buf.text) (cmd.strings mem)) ∨
    ∃ cause, parsecmd buf.bytes = .error cause ∧ cause ≠ .fuel := by
  have ends := parse_ends _ .line 0 _ buf.upcoming_start (enough_fuel buf)
  change (parseline buf.bytes buf.es (3 * buf.es + 4)).Ends 0 Panics _ at ends
  cases ran : parseline buf.bytes buf.es (3 * buf.es + 4) 0 with
  | error cause => exact Or.inr ⟨cause, parsecmd_of_error ran, ends.cause_of_error ran⟩
  | ok pair =>
    obtain ⟨cmd, s⟩ := pair
    obtain ⟨taken, rest, tree, split, left, derived, rel⟩ := ends.post_of_ok ran
    obtain ⟨whenEnded, whenMore⟩ := parsecmd_of_ok ran left
    by_cases ended : rest = []
    · refine Or.inl ⟨cmd, _, whenEnded ended, ?_⟩
      rw [strings_nulterminate rel, split, ended, List.append_nil]
      exact derived
    · obtain ⟨unread, stopped⟩ := whenMore ended
      exact Or.inr ⟨_, stopped, nofun⟩

theorem parsecmd_complete {tree : Cmd (List UInt8)}
    (derived : Derives .line (tokens buf.text) tree) :
    ∃ cmd mem, parsecmd buf.bytes = .ok (cmd, mem) ∧ cmd.strings mem = tree := by
  have next := buf.upcoming_start
  rw [← List.append_nil (tokens buf.text)] at next
  obtain ⟨cmd, s, ran, left, rel⟩ :=
    derived.completes _ 0 [] next (enough_fuel buf) (Or.inl rfl)
  exact ⟨cmd, _, (parsecmd_of_ok ran left).1 rfl, strings_nulterminate rel⟩

/-- On every NUL-terminated string `parsecmd` returns or panics.  It returns iff the tokens of
the string form a line, and the tree that it returns, with the strings its pointers point to
after `nulterminate`, is the derivation. -/
theorem parsecmd_parses_grammar (buf : Buffer) :
    (∀ tree, (∃ cmd mem, parsecmd buf.bytes = .ok (cmd, mem) ∧ cmd.strings mem = tree) ↔
      Derives .line (tokens buf.text) tree) ∧
    ((∃ cmd mem, parsecmd buf.bytes = .ok (cmd, mem)) ∨
      ∃ cause, parsecmd buf.bytes = .error cause ∧ cause ≠ .fuel) := by
  constructor
  · intro tree
    constructor
    · rintro ⟨cmd, mem, returned, rfl⟩
      rcases parsecmd_sound buf with ⟨cmd', mem', again, derived⟩ | ⟨cause, stopped, _⟩
      · rw [returned] at again
        cases again
        exact derived
      · rw [returned] at stopped
        cases stopped
    · exact parsecmd_complete
  · rcases parsecmd_sound buf with ⟨cmd, mem, returned, _⟩ | panicked
    · exact Or.inl ⟨cmd, mem, returned⟩
    · exact Or.inr panicked

/-- `a >f b&` runs in the background with two arguments and a redirection. -/
example :
    (parsecmd (['a', ' ', '>', 'f', ' ', 'b', '&'].map byte ++ [0])).toOption.map
        (fun result => result.1.strings result.2) =
      some (.back (.redir (.exec [[byte 'a'], [byte 'b']]) [byte 'f'] oWronlyCreate 1)) := by
  decide +kernel

/-- `a (b)` is no line. -/
example : (parsecmd (['a', ' ', '(', 'b', ')'].map byte ++ [0])).toOption = none := by
  decide +kernel

end Command

end Xv6.Shell
