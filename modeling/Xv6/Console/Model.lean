/-
The console input of `console.c`: `consoleintr`, which edits and commits lines, and the
processes in `consoleread`.

All of `input` is accessed under `cons.lock`.  A step handles one character or one iteration
of the loop of `consoleread`; `sleep` releases the lock and stops the process in one step,
and `wakeup` is part of the step that commits.  The return from `consoleread` is one step with
the release of `cons.lock`, since the inode's lock only delays it.  What is echoed to the
screen and the process listing of ^P are left out.
-/

import Mathlib.Tactic
import Xv6.Library.CounterRing
import Xv6.Library.Machine

namespace Xv6.Console

open Library

abbrev INPUT_BUF : Nat := 128

abbrev newline : UInt8 := 10

/-- `C('D')`. -/
abbrev ctrlD : UInt8 := 4

structure Input where
  buf : Nat → UInt8 := fun _ => 0
  r : BitVec 32 := 0
  w : BitVec 32 := 0
  e : BitVec 32 := 0

namespace Input

/-- The loop of ^U.  The fuel is the length of the line, which every iteration shortens. -/
def killLine : Nat → Input → Input
  | 0, input => input
  | fuel + 1, input =>
    if input.e ≠ input.w ∧ input.buf ((input.e - 1).toNat % INPUT_BUF) ≠ newline then
      killLine fuel { input with e := input.e - 1 }
    else input

def backspace (input : Input) : Input :=
  if input.e ≠ input.w then { input with e := input.e - 1 } else input

/-- `input.buf[input.e++ % INPUT_BUF] = c`; a `char` is stored. -/
def store (input : Input) (c : Nat) : Input :=
  { input with
    buf := Function.update input.buf (input.e.toNat % INPUT_BUF) (UInt8.ofNat c)
    e := input.e + 1 }

/-- A character is stored, and the line committed if it is complete.  The flag says whether
`wakeup` is called. -/
def type (input : Input) (c : Nat) : Input × Bool :=
  let c := if c = 13 then 10 else c
  let input := input.store c
  if c = 10 ∨ c = 4 ∨ input.e = input.r + BitVec.ofNat 32 INPUT_BUF then
    ({ input with w := input.e }, true)
  else (input, false)

/-- One iteration of the loop of `consoleintr`, for a character that `getc` returned. -/
def consoleintr (input : Input) (c : Nat) : Input × Bool :=
  -- C('P')
  if c = 0x10 then (input, false)
  -- C('U')
  else if c = 0x15 then (input.killLine (span input.w input.e), false)
  -- C('H') and delete
  else if c = 8 ∨ c = 0x7f then (input.backspace, false)
  else if c ≠ 0 ∧ (input.e - input.r).toNat < INPUT_BUF then input.type c
  else (input, false)

/-- The committed bytes that no reader has taken. -/
def unread (input : Input) : List UInt8 := segment INPUT_BUF input.buf input.r input.w

/-- The line that is being edited. -/
def line (input : Input) : List UInt8 := segment INPUT_BUF input.buf input.w input.e

/-- The byte that `input.buf[input.r++ % INPUT_BUF]` yields. -/
def oldest (input : Input) : UInt8 := input.buf (input.r.toNat % INPUT_BUF)

end Input

/-- The locals of `consoleread`, and the bytes that it has stored at `dst`. -/
structure Call where
  target : BitVec 32
  n : BitVec 32
  got : List UInt8 := []

/-- `target - n`, as an `int`. -/
def Call.result (call : Call) : Int := (call.target - call.n).toInt

/-- How `consoleread` goes on after an iteration. -/
inductive Next
  | again (call : Call)
  | sleep (call : Call)
  | finish (result : Int) (got : List UInt8)

/-- One iteration of the loop of `consoleread`. -/
def Input.consoleread (input : Input) (killed : Bool) (call : Call) : Input × Next :=
  if (0#32).slt call.n then
    if input.r = input.w then
      if killed then (input, .finish (-1) call.got) else (input, .sleep call)
    else
      let c := input.oldest
      let input := { input with r := input.r + 1 }
      if c = ctrlD then
        if call.n < call.target then
          ({ input with r := input.r - 1 }, .finish call.result call.got)
        else (input, .finish call.result call.got)
      else
        let call := { call with n := call.n - 1, got := call.got ++ [c] }
        if c = newline then (input, .finish call.result call.got) else (input, .again call)
  else (input, .finish call.result call.got)

/-- Where a process stands: `acquire` is before `acquire(&cons.lock)`, at the start of a call
or at the end of `sleep`, and `loop` is the head of the loop. -/
inductive Pc
  | outside
  | acquire (call : Call)
  | loop (call : Call)
  | asleep (call : Call)

structure Proc where
  pc : Pc := .outside
  sleeping : Bool := false
  killed : Bool := false
  result : Int := 0

inductive Holder
  | handler
  | reader (p : Nat)
  deriving DecidableEq

structure System where
  input : Input := {}
  lock : Option Holder := none
  proc : Nat → Proc := fun _ => {}

namespace System

def setProc (s : System) (p : Nat) (proc : Proc) : System :=
  { s with proc := Function.update s.proc p proc }

def setPc (s : System) (p : Nat) (pc : Pc) : System :=
  s.setProc p { s.proc p with pc := pc }

/-- `wakeup(&input.r)`. -/
def wakeup (s : System) : System :=
  { s with proc := fun p => { s.proc p with sleeping := false } }

/-- The handler, which holds the lock, gets a character. -/
def character (s : System) (c : Nat) : System :=
  let (input, wakes) := s.input.consoleintr c
  let s := { s with input := input }
  if wakes then s.wakeup else s

/-- The iteration of a reader, which holds the lock. -/
def iterate (s : System) (p : Nat) (call : Call) : System :=
  let (input, next) := s.input.consoleread (s.proc p).killed call
  let s := { s with input := input }
  match next with
  | .again call => s.setPc p (.loop call)
  | .sleep call =>
    { s.setProc p { s.proc p with pc := .asleep call, sleeping := true } with
      lock := none }
  | .finish result _ =>
    { s.setProc p { s.proc p with pc := .outside, result := result } with
      lock := none }

/-- The next step of process `p`. -/
def run (s : System) (p : Nat) : Option System :=
  match (s.proc p).pc with
  | .outside => none
  | .acquire call =>
    if s.lock = none then
      some { s.setPc p (.loop call) with lock := some (.reader p) }
    else none
  | .loop call => some (s.iterate p call)
  | .asleep call =>
    if (s.proc p).sleeping then none else some (s.setPc p (.acquire call))

end System

/-- The handler starts, gets a character or finds no more of them; a process starts
`consoleread`, goes on with it, or is killed. -/
inductive Event
  | interrupt
  | character (c : Nat)
  | done
  | read (p : Nat) (n : BitVec 32)
  | run (p : Nat)
  | kill (p : Nat)

def System.step (s : System) : Event → Option System
  | .interrupt =>
    if s.lock = none then some { s with lock := some .handler } else none
  | .character c =>
    if s.lock = some .handler then some (s.character c) else none
  | .done => if s.lock = some .handler then some { s with lock := none } else none
  | .read p n =>
    match (s.proc p).pc with
    | .outside => some (s.setPc p (.acquire { target := n, n := n }))
    | _ => none
  | .run p => s.run p
  | .kill p =>
    some (s.setProc p { s.proc p with killed := true, sleeping := false })

def machine : Machine System Event where
  start := {}
  step := System.step

end Xv6.Console
