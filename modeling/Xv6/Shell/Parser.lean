/-
The parser of the shell: `parsecmd` and what it calls in `sh.c`.

The parser moves one cursor over the bytes and never writes them; `nulterminate` writes a
NUL behind every word when the whole line has been parsed.  A tree of commands is generic
in how it gives a word: the parser's trees give the pointers to it, those of the grammar
its bytes.

The calls and loops of the parser are bounded by `fuel`; the parser is shown not to need
more of it than `parsecmd` gives.
-/

import Mathlib.Tactic
import Xv6.Shell.Lexer

namespace Xv6.Shell

open Library Code

/-- `MAXARGS`. -/
def maxArgs : Nat := 10

/-- `O_RDONLY`. -/
def oRdonly : Nat := 0x000

/-- `O_WRONLY|O_CREATE`. -/
def oWronlyCreate : Nat := 0x001 ||| 0x200

/-- `argv` of an EXEC is the list of its words before the null pointer. -/
inductive Cmd (Word : Type)
  | exec (argv : List Word)
  | redir (cmd : Cmd Word) (file : Word) (mode fd : Nat)
  | pipe (left right : Cmd Word)
  | list (left right : Cmd Word)
  | back (cmd : Cmd Word)
  deriving DecidableEq

namespace Cmd

variable {Word Other : Type}

/-- `cmd->argv[argc] = q` in `parseexec`, where `ret` is the EXEC that `cmd` points to inside
the REDIRs around it. -/
def addArg (word : Word) : Cmd Word → Cmd Word
  | exec argv => exec (argv ++ [word])
  | redir cmd file mode fd => redir (cmd.addArg word) file mode fd
  | pipe left right => pipe left right
  | list left right => list left right
  | back cmd => back cmd

def map (f : Word → Other) : Cmd Word → Cmd Other
  | exec argv => exec (argv.map f)
  | redir cmd file mode fd => redir (cmd.map f) (f file) mode fd
  | pipe left right => pipe (left.map f) (right.map f)
  | list left right => list (left.map f) (right.map f)
  | back cmd => back (cmd.map f)

/-- All words of a tree. -/
def words : Cmd Word → List Word
  | exec argv => argv
  | redir cmd file _ _ => cmd.words ++ [file]
  | pipe left right => left.words ++ right.words
  | list left right => left.words ++ right.words
  | back cmd => cmd.words

end Cmd

section Parse

variable (mem : Memory) (es : Nat)

/-- The loop over `&` in `parseline`. -/
def parsebacks : Nat → Cmd Span → Parser (Cmd Span)
  | 0, _ => stop .fuel
  | fuel + 1, cmd => do
    if ← peek mem es ['&'] then
      let _ ← gettoken mem es
      parsebacks fuel (.back cmd)
    else pure cmd

/-- The switch in `parseredirs`. -/
def redirectBy (tok : UInt8) (cmd : Cmd Span) (file : Span) : Cmd Span :=
  if tok = byte '<' then .redir cmd file oRdonly 0
  else if tok = byte '>' then .redir cmd file oWronlyCreate 1
  else if tok = byte '+' then .redir cmd file oWronlyCreate 1
  else cmd

def parseredirs : Nat → Cmd Span → Parser (Cmd Span)
  | 0, _ => stop .fuel
  | fuel + 1, cmd => do
    if ← peek mem es ['<', '>'] then
      let tok ← gettoken mem es
      let file ← gettoken mem es
      if file.1 ≠ byte 'a' then stop (.panic "missing file for redirection")
      else parseredirs fuel (redirectBy tok.1 cmd file.2)
    else pure cmd

/-- The loop over the words in `parseexec`. -/
def parseargs : Nat → Nat → Cmd Span → Parser (Cmd Span)
  | 0, _, _ => stop .fuel
  | fuel + 1, argc, ret => do
    if ← peek mem es ['|', ')', '&', ';'] then pure ret
    else
      let tok ← gettoken mem es
      if tok.1 = 0 then pure ret
      else if tok.1 ≠ byte 'a' then stop (.panic "syntax")
      else if maxArgs ≤ argc + 1 then stop (.panic "too many args")
      else
        let ret ← parseredirs mem es fuel (ret.addArg tok.2)
        parseargs fuel (argc + 1) ret

/-- `parseblock`, which gets the call of `parseline` that it makes. -/
def parseblock (parseline : Parser (Cmd Span)) (fuel : Nat) : Parser (Cmd Span) := do
  if ← peek mem es ['('] then
    let _ ← gettoken mem es
    let cmd ← parseline
    if ← peek mem es [')'] then
      let _ ← gettoken mem es
      parseredirs mem es fuel cmd
    else stop (.panic "syntax - missing )")
  else stop (.panic "parseblock")

mutual

def parseline : Nat → Parser (Cmd Span)
  | 0 => stop .fuel
  | fuel + 1 => do
    let cmd ← parsepipe fuel
    let cmd ← parsebacks mem es fuel cmd
    if ← peek mem es [';'] then
      let _ ← gettoken mem es
      let right ← parseline fuel
      pure (.list cmd right)
    else pure cmd

def parsepipe : Nat → Parser (Cmd Span)
  | 0 => stop .fuel
  | fuel + 1 => do
    let cmd ← parseexec fuel
    if ← peek mem es ['|'] then
      let _ ← gettoken mem es
      let right ← parsepipe fuel
      pure (.pipe cmd right)
    else pure cmd

def parseexec : Nat → Parser (Cmd Span)
  | 0 => stop .fuel
  | fuel + 1 => do
    if ← peek mem es ['('] then parseblock mem es (parseline fuel) fuel
    else
      let ret ← parseredirs mem es fuel (.exec [])
      parseargs mem es fuel 0 ret

end

end Parse

/-- NUL-terminates all the counted strings. -/
def nulterminate (mem : Memory) : Cmd Span → Memory
  | .exec argv => argv.foldl (fun mem word => mem.set word.stop 0) mem
  | .redir cmd file _ _ => (nulterminate mem cmd).set file.stop 0
  | .pipe left right => nulterminate (nulterminate mem left) right
  | .list left right => nulterminate (nulterminate mem left) right
  | .back cmd => nulterminate mem cmd

/-- `parsecmd` on the string at the start of the memory; it returns the tree and leaves the
memory with the words terminated. -/
def parsecmd (mem : Memory) : Except Stop (Cmd Span × Memory) :=
  let es := strlen mem 0
  match (do
    let cmd ← parseline mem es (3 * es + 4)
    let _ ← peek mem es []
    pure cmd : Parser (Cmd Span)) 0 with
  | .error cause => .error cause
  | .ok (cmd, s) =>
    if s ≠ es then .error (.leftovers (cstring mem s) "syntax")
    else .ok (cmd, nulterminate mem cmd)

/-- The strings that the pointers of a tree point to. -/
def Cmd.strings (mem : Memory) (cmd : Cmd Span) : Cmd (List UInt8) :=
  cmd.map (fun word => cstring mem word.start)

/-! ### What nulterminate writes -/

theorem load_set (mem : Memory) (place i : Nat) :
    load (mem.set place 0) i = if place = i then 0 else load mem i := by
  unfold load
  by_cases same : place = i
  · rw [if_pos same, same]
    by_cases inside : i < mem.length
    · rw [List.getD_eq_getElem _ _ (by simpa using inside), List.getElem_set_self]
    · rw [List.getD_eq_default _ _ (by simpa using inside)]
  · rw [if_neg same]
    simp [List.getD_eq_getElem?_getD, List.getElem?_set_ne same]

theorem load_foldl_set (argv : List Span) (mem : Memory) (i : Nat) :
    load (argv.foldl (fun mem word => mem.set word.stop 0) mem) i =
      if i ∈ argv.map Span.stop then 0 else load mem i := by
  induction argv generalizing mem with
  | nil => simp
  | cons word rest ih =>
    rw [List.foldl_cons, ih, load_set, List.map_cons]
    by_cases later : i ∈ rest.map Span.stop
    · rw [if_pos later, if_pos (List.mem_cons_of_mem _ later)]
    · rw [if_neg later]
      by_cases here : word.stop = i
      · rw [if_pos here, if_pos (by simp [here])]
      · rw [if_neg here, if_neg]
        rw [List.mem_cons]
        rintro (same | inRest)
        · exact here same.symm
        · exact later inRest

theorem load_nulterminate (cmd : Cmd Span) (mem : Memory) (i : Nat) :
    load (nulterminate mem cmd) i =
      if i ∈ cmd.words.map Span.stop then 0 else load mem i := by
  induction cmd generalizing mem with
  | exec argv => exact load_foldl_set argv mem i
  | redir cmd file mode fd ih =>
    simp only [nulterminate, load_set, ih, Cmd.words, List.map_append, List.mem_append,
      List.map_cons, List.map_nil, List.mem_singleton]
    grind
  | pipe left right ihLeft ihRight | list left right ihLeft ihRight =>
    simp only [nulterminate, ihLeft, ihRight, Cmd.words, List.map_append, List.mem_append]
    grind
  | back cmd ih => exact ih mem

theorem cstring_cons {mem : Memory} {s : Nat} {c : UInt8} (here : load mem s = c)
    (nonzero : c ≠ 0) : cstring mem s = c :: cstring mem (s + 1) := by
  have inside : s < mem.length := by
    by_contra outside
    unfold load at here
    rw [List.getD_eq_default _ _ (not_lt.mp outside)] at here
    exact nonzero here.symm
  unfold load at here
  rw [List.getD_eq_getElem _ _ inside] at here
  unfold cstring
  rw [List.drop_eq_getElem_cons inside, here, List.takeWhile_cons_of_pos (by simpa using nonzero)]

theorem cstring_nil {mem : Memory} {s : Nat} (nul : load mem s = 0) : cstring mem s = [] := by
  unfold cstring
  by_cases inside : s < mem.length
  · unfold load at nul
    rw [List.getD_eq_getElem _ _ inside] at nul
    rw [List.drop_eq_getElem_cons inside, nul]
    rfl
  · rw [List.drop_eq_nil_of_le (not_lt.mp inside)]
    rfl

theorem cstring_eq {mem : Memory} {word : List UInt8} (s : Nat)
    (bytes : ∀ i (inside : i < word.length), load mem (s + i) = word[i])
    (nonzero : ∀ c ∈ word, c ≠ 0) (nul : load mem (s + word.length) = 0) :
    cstring mem s = word := by
  induction word generalizing s with
  | nil => exact cstring_nil nul
  | cons c rest ih =>
    have here : load mem s = c := bytes 0 (Nat.succ_pos _)
    rw [cstring_cons here (nonzero c List.mem_cons_self)]
    refine congrArg (c :: ·) (ih (s + 1) ?_ ?_ ?_)
    · intro i inside
      have shifted := bytes (i + 1) (Nat.succ_lt_succ inside)
      rw [Nat.add_right_comm, Nat.add_assoc]
      exact shifted
    · intro d isIn
      exact nonzero d (List.mem_cons_of_mem _ isIn)
    · rw [List.length_cons] at nul
      rw [Nat.add_assoc, Nat.add_comm 1]
      exact nul

end Xv6.Shell
