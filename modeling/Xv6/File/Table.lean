/-
The file table of `file.c` and the descriptors of the processes.

What a file refers to is left open: pipes and inodes are any two types.  `fileclose`
returns the file that it has freed, and its callers release what that file refers to.
The counts of the files are balanced by the descriptors and by the files that a system
call has in its hands.
-/

import Xv6.Library.References
import Xv6.Process.Table

namespace Xv6.Files

open Function Library

abbrev NOFILE : Nat := 16

abbrev NFILE : Nat := 100

/-- `FD_NONE`, `FD_PIPE` and `FD_INODE`, with the pointer that goes with each. -/
inductive FileType (Pipe Inode : Type)
  | none
  | pipe (pipe : Pipe)
  | inode (ip : Inode)
  deriving DecidableEq

structure File (Pipe Inode : Type) where
  ref : Nat
  type : FileType Pipe Inode
  readable : Bool
  writable : Bool
  off : Nat

/-- `ftable`, and `ofile` of all processes. -/
structure Table (Pipe Inode : Type) where
  file : Fin NFILE → File Pipe Inode
  ofile : Fin NPROC × Fin NOFILE → Option (Fin NFILE)

variable {Pipe Inode : Type}

namespace Table

variable (t : Table Pipe Inode)

def setFile (f : Fin NFILE) (file : File Pipe Inode) : Table Pipe Inode :=
  { t with file := update t.file f file }

def setSlot (p : Fin NPROC) (fd : Fin NOFILE) (cell : Option (Fin NFILE)) :
    Table Pipe Inode :=
  { t with ofile := update t.ofile (p, fd) cell }

/-- `none` if all files are in use.  The type is not set. -/
def filealloc : Option (Fin NFILE) × Table Pipe Inode :=
  match (List.finRange NFILE).find? (fun f => (t.file f).ref = 0) with
  | none => (none, t)
  | some f => (some f, t.setFile f { t.file f with ref := 1 })

/-- `none` is the panic. -/
def filedup (f : Fin NFILE) : Option (Table Pipe Inode) :=
  if (t.file f).ref < 1 then none
  else some (t.setFile f { t.file f with ref := (t.file f).ref + 1 })

/-- `none` is the panic; the file is returned when its last reference is gone. -/
def fileclose (f : Fin NFILE) : Option (Option (File Pipe Inode) × Table Pipe Inode) :=
  if (t.file f).ref < 1 then none
  else if 0 < (t.file f).ref - 1 then
    some (none, t.setFile f { t.file f with ref := (t.file f).ref - 1 })
  else some (some (t.file f), t.setFile f { t.file f with ref := 0, type := .none })

/-- `none` is -1. -/
def fdalloc (p : Fin NPROC) (f : Fin NFILE) : Option (Fin NOFILE) × Table Pipe Inode :=
  match (List.finRange NOFILE).find? (fun fd => (t.ofile (p, fd)).isNone) with
  | none => (none, t)
  | some fd => (some fd, t.setSlot p fd (some f))

/-- The loop of `fork` over the descriptors; `none` is a panic. -/
def dupFiles (parent child : Fin NPROC) : List (Fin NOFILE) → Table Pipe Inode →
    Option (Table Pipe Inode)
  | [], t => some t
  | fd :: rest, t =>
    match t.ofile (parent, fd) with
    | none => dupFiles parent child rest t
    | some f => (t.filedup f).bind
        (fun t => dupFiles parent child rest (t.setSlot child fd (some f)))

end Table

/-! ### Counts -/

/-- The counts are balanced, and free files have no type. -/
structure Counted (t : Table Pipe Inode) (hand : Multiset (Fin NFILE)) : Prop where
  balanced : Balanced (fun f => (t.file f).ref) t.ofile hand
  free : ∀ f, (t.file f).ref = 0 → (t.file f).type = .none

variable {t t' : Table Pipe Inode} {hand : Multiset (Fin NFILE)} {f : Fin NFILE}
  {p : Fin NPROC} {fd : Fin NOFILE}

theorem setFile_self (t : Table Pipe Inode) (f : Fin NFILE) (file : File Pipe Inode) :
    (t.setFile f file).file f = file :=
  update_self ..

theorem setFile_other (t : Table Pipe Inode) {f g : Fin NFILE} (file : File Pipe Inode)
    (different : g ≠ f) : (t.setFile f file).file g = t.file g :=
  update_of_ne different ..

theorem ref_setFile (t : Table Pipe Inode) (f : Fin NFILE) (file : File Pipe Inode) :
    (fun g => ((t.setFile f file).file g).ref) =
      update (fun g => (t.file g).ref) f file.ref := by
  funext g
  by_cases same : g = f
  · rw [same, setFile_self, update_self]
  · rw [setFile_other t file same, update_of_ne same]

theorem Counted.setFile {file : File Pipe Inode} (counted : Counted t hand)
    (same : file.ref = (t.file f).ref) (used : (t.file f).ref ≠ 0) :
    Counted (t.setFile f file) hand := by
  constructor
  · have updated := ref_setFile t f file
    rw [same] at updated
    rw [updated]
    have unchanged : update (fun g => (t.file g).ref) f (t.file f).ref =
        fun g => (t.file g).ref := update_eq_self f _
    rw [unchanged]
    exact counted.balanced
  · intro g zero
    by_cases here : g = f
    · rw [here, setFile_self, same] at zero
      exact absurd zero used
    · rw [setFile_other t file here] at zero ⊢
      exact counted.free g zero

theorem filealloc_ok (counted : Counted t hand)
    (ran : t.filealloc = (some f, t')) :
    (t.file f).ref = 0 ∧ t' = t.setFile f { t.file f with ref := 1 } ∧
      Counted t' (f ::ₘ hand) := by
  unfold Table.filealloc at ran
  split at ran
  · cases ran
  · rename_i g found
    cases ran
    have test := List.find?_some found
    have zero : (t.file f).ref = 0 := of_decide_eq_true test
    refine ⟨zero, rfl, ?_, ?_⟩
    · rw [ref_setFile]
      have dup := counted.balanced.dup f
      rw [zero] at dup
      exact dup
    · intro g refs
      by_cases here : g = f
      · rw [here, setFile_self] at refs
        cases refs
      · rw [setFile_other t _ here] at refs ⊢
        exact counted.free g refs

theorem filealloc_none (ran : t.filealloc = (none, t')) : t' = t := by
  unfold Table.filealloc at ran
  split at ran
  · cases ran
    rfl
  · cases ran

theorem Counted.dup (counted : Counted t hand) (f : Fin NFILE) :
    Counted (t.setFile f { t.file f with ref := (t.file f).ref + 1 }) (f ::ₘ hand) := by
  refine ⟨?_, ?_⟩
  · rw [ref_setFile]
    exact counted.balanced.dup f
  · intro g refs
    by_cases here : g = f
    · rw [here, setFile_self] at refs
      cases refs
    · rw [setFile_other t _ here] at refs ⊢
      exact counted.free g refs

theorem filedup_eq (ran : t.filedup f = some t') :
    t' = t.setFile f { t.file f with ref := (t.file f).ref + 1 } := by
  unfold Table.filedup at ran
  split at ran
  · cases ran
  · cases ran
    rfl

/-- What `fileclose` leaves: the file itself, which it may have freed. -/
inductive Closed (t : Table Pipe Inode) (f : Fin NFILE) :
    Option (File Pipe Inode) → Table Pipe Inode → Prop
  | kept (more : 1 < (t.file f).ref) :
      Closed t f none (t.setFile f { t.file f with ref := (t.file f).ref - 1 })
  | freed (last : (t.file f).ref = 1) :
      Closed t f (some (t.file f)) (t.setFile f { t.file f with ref := 0, type := .none })

variable {released : Option (File Pipe Inode)}

theorem fileclose_closed (ran : t.fileclose f = some (released, t')) : Closed t f released t' := by
  unfold Table.fileclose at ran
  split at ran
  · cases ran
  · rename_i used
    split at ran
    · rename_i more
      cases ran
      exact Closed.kept (by omega)
    · rename_i last
      cases ran
      exact Closed.freed (by omega)

theorem Closed.counted (closed : Closed t f released t') (counted : Counted t (f ::ₘ hand)) :
    Counted t' hand := by
  have dropped := counted.balanced.drop
  cases closed with
  | kept more =>
    refine ⟨?_, ?_⟩
    · rw [ref_setFile]
      exact dropped
    · intro g refs
      by_cases here : g = f
      · rw [here, setFile_self] at refs
        change (t.file f).ref - 1 = 0 at refs
        omega
      · rw [setFile_other t _ here] at refs ⊢
        exact counted.free g refs
  | freed last =>
    refine ⟨?_, ?_⟩
    · rw [ref_setFile]
      change Balanced (update _ f 0) _ _
      rw [last] at dropped
      exact dropped
    · intro g refs
      by_cases here : g = f
      · rw [here, setFile_self]
      · rw [setFile_other t _ here] at refs ⊢
        exact counted.free g refs

theorem Closed.setSlot {cell : Option (Fin NFILE)} (closed : Closed t f released t') :
    Closed (t.setSlot p fd cell) f released (t'.setSlot p fd cell) := by
  cases closed with
  | kept more => exact Closed.kept more
  | freed last => exact Closed.freed last

theorem fdalloc_eq (ran : t.fdalloc p f = (some fd, t')) :
    t.ofile (p, fd) = none ∧ t' = t.setSlot p fd (some f) := by
  unfold Table.fdalloc at ran
  split at ran
  · cases ran
  · rename_i found
    cases ran
    have test := List.find?_some found
    exact ⟨Option.isNone_iff_eq_none.mp test, rfl⟩

theorem fdalloc_none (ran : t.fdalloc p f = (none, t')) : t' = t := by
  unfold Table.fdalloc at ran
  split at ran
  · cases ran
    rfl
  · cases ran

theorem Counted.store (counted : Counted t (f ::ₘ hand)) (empty : t.ofile (p, fd) = none) :
    Counted (t.setSlot p fd (some f)) hand :=
  ⟨counted.balanced.store empty, counted.free⟩

theorem Counted.clear (counted : Counted t hand) (cell : t.ofile (p, fd) = some f) :
    Counted (t.setSlot p fd none) (f ::ₘ hand) :=
  ⟨counted.balanced.clear cell, counted.free⟩

/-- Two tables whose files refer to the same. -/
structure SameFiles (t t' : Table Pipe Inode) : Prop where
  type : ∀ f, (t'.file f).type = (t.file f).type
  writable : ∀ f, (t'.file f).writable = (t.file f).writable

theorem SameFiles.refl (t : Table Pipe Inode) : SameFiles t t := ⟨fun _ => rfl, fun _ => rfl⟩

theorem dupFiles_ok {child : Fin NPROC} (list : List (Fin NOFILE)) :
    ∀ {t t' : Table Pipe Inode}, Counted t hand → list.Nodup →
      (∀ fd, fd ∈ list → t.ofile (child, fd) = none) →
      t.dupFiles p child list = some t' →
      Counted t' hand ∧ SameFiles t t' ∧
        ∀ q fd, q ≠ child → t'.ofile (q, fd) = t.ofile (q, fd) := by
  induction list with
  | nil =>
    intro t t' counted nodup empty ran
    cases ran
    exact ⟨counted, ⟨fun _ => rfl, fun _ => rfl⟩, fun _ _ _ => rfl⟩
  | cons fd rest ih =>
    intro t t' counted nodup empty ran
    obtain ⟨outside, nodupRest⟩ := List.nodup_cons.mp nodup
    unfold Table.dupFiles at ran
    split at ran
    · apply ih counted nodupRest ?_ ran
      intro fd' member
      exact empty fd' (List.mem_cons_of_mem _ member)
    · rename_i f cell
      obtain ⟨t1, dupped, goes⟩ := Option.bind_eq_some_iff.mp ran
      obtain rfl := filedup_eq dupped
      have here := empty fd (List.mem_cons_self ..)
      have counted2 : Counted ((t.setFile f { t.file f with ref := (t.file f).ref + 1 }).setSlot
          child fd (some f)) hand := (counted.dup f).store here
      have later : ∀ fd', fd' ∈ rest →
          ((t.setFile f { t.file f with ref := (t.file f).ref + 1 }).setSlot
            child fd (some f)).ofile (child, fd') = none := by
        intro fd' member
        have other : (child, fd') ≠ (child, fd) := by
          intro same
          exact outside ((Prod.mk.inj same).2 ▸ member)
        exact (update_of_ne other ..).trans
          (empty fd' (List.mem_cons_of_mem _ member))
      obtain ⟨done, same, others⟩ := ih counted2 nodupRest later goes
      have kept (g : Fin NFILE) :
          ((t.setFile f { t.file f with ref := (t.file f).ref + 1 }).file g).type =
            (t.file g).type ∧
          ((t.setFile f { t.file f with ref := (t.file f).ref + 1 }).file g).writable =
            (t.file g).writable := by
        by_cases equal : g = f
        · rw [equal, setFile_self]
          exact ⟨rfl, rfl⟩
        · rw [setFile_other t _ equal]
          exact ⟨rfl, rfl⟩
      refine ⟨done, ⟨fun g => (same.type g).trans (kept g).1,
        fun g => (same.writable g).trans (kept g).2⟩, ?_⟩
      intro q fd' apart
      have other : (q, fd') ≠ (child, fd) := fun equal => apart (Prod.mk.inj equal).1
      exact (others q fd' apart).trans (update_of_ne other ..)

end Xv6.Files
