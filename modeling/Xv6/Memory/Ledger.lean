/-
Who owns the pages.

Pages are owned by uses: a single page that somebody holds, or an address space.  The
memory is funded by a collection of uses when the free pages and theirs are together the
pages that `kinit1` and `kinit2` handed to the allocator, each once.  The file table
accounts for the pipes: a page for every pipe that some file refers to.
-/

import Xv6.Memory.Exec
import Xv6.Memory.Kernel

namespace Xv6.Memory

open Function Library Library.Code
open Files

variable {Inode : Type} {layout : Layout} {m m' : Mem} {k k' : Kernel Inode}

inductive Use
  | page (n : Nat)
  | space (d : Nat)
  deriving DecidableEq

def Use.pages (m : Mem) : Use → Multiset Nat
  | .page n => {n}
  | .space d => Memory.space m d

theorem use_local : Local Use.pages := by
  intro m m' use same
  cases use with
  | page n => rfl
  | space d => exact (sameSpace_of_pages same).pages

/-- The pages that are handed to the allocator. -/
def managed (layout : Layout) : Multiset Nat :=
  (List.range' layout.endPage (PHYSTOP / PGSIZE - layout.endPage) : List Nat)

theorem managed_nodup (layout : Layout) : (managed layout).Nodup :=
  Multiset.coe_nodup.mpr List.nodup_range'

theorem mem_managed {n : Nat} (member : n ∈ managed layout) : layout.Manages n := by
  have memory := layout.end_in_memory
  rw [managed, Multiset.mem_coe, List.mem_range'_1] at member
  unfold Layout.Manages
  omega

def Funded (layout : Layout) (m : Mem) (uses : Multiset Use) : Prop :=
  (m.freelist : Multiset Nat) + shares Use.pages m uses = managed layout

section Funded

variable {given taken rest uses : Multiset Use} {d n : Nat}

theorem Funded.sound (funded : Funded layout m uses) : m.Sound (shares Use.pages m uses) := by
  unfold Store.Sound
  rw [show (m.freelist : Multiset Nat) + shares Use.pages m uses = managed layout from funded]
  exact managed_nodup layout

theorem Funded.trade (funded : Funded layout m (given + rest))
    (trade : Trades m m' (shares Use.pages m given) (shares Use.pages m' taken)) :
    Funded layout m' (taken + rest) :=
  (trade.conserves_all use_local funded.sound).trans funded

theorem Funded.held (funded : Funded layout m uses) :
    Held layout True m (shares Use.pages m uses) := by
  refine ⟨funded.sound, fun _ n member => mem_managed ?_⟩
  rw [← show (m.freelist : Multiset Nat) + shares Use.pages m uses = managed layout from funded]
  exact member

theorem Funded.held_space (funded : Funded layout m (.space d ::ₘ rest)) :
    Held layout True m (space m d) := by
  have held := funded.held
  rw [shares_cons] at held
  exact held.left

theorem Funded.held_zero (funded : Funded layout m uses) : Held layout True m 0 := by
  have held := funded.held
  rw [← zero_add (shares Use.pages m uses)] at held
  exact held.left

theorem Funded.space_trade (funded : Funded layout m (.space d ::ₘ rest))
    (trade : Trades m m' (space m d) (space m' d)) : Funded layout m' (.space d ::ₘ rest) := by
  rw [← Multiset.singleton_add] at funded ⊢
  apply funded.trade
  rw [shares_singleton, shares_singleton]
  exact trade

theorem Funded.kfree (funded : Funded layout m (.page n ::ₘ rest))
    (freed : kfree layout n m = .ok ((), m')) : Funded layout m' rest := by
  rw [← Multiset.singleton_add] at funded
  rw [← zero_add rest]
  apply funded.trade
  rw [shares_singleton]
  exact (kfree_ok freed).1

theorem Funded.freevm (funded : Funded layout m (.space d ::ₘ rest))
    (freed : freevm layout d m = .ok ((), m')) : Funded layout m' rest := by
  have trade := (freevm_ends funded.held_space).post_of_ok freed
  rw [← Multiset.singleton_add] at funded
  rw [← zero_add rest]
  apply funded.trade
  rw [shares_singleton]
  exact trade

theorem Funded.kalloc (funded : Funded layout m rest)
    (ran : kalloc m = .ok (some n, m')) : Funded layout m' (.page n ::ₘ rest) := by
  rw [← zero_add rest] at funded
  rw [← Multiset.singleton_add]
  apply funded.trade
  rw [shares_singleton]
  exact (kalloc_some ran).1

theorem Funded.newSpace (funded : Funded layout m rest)
    (trade : Trades m m' 0 (space m' d)) : Funded layout m' (.space d ::ₘ rest) := by
  rw [← zero_add rest] at funded
  rw [← Multiset.singleton_add]
  apply funded.trade
  rw [shares_singleton]
  exact trade

theorem Funded.same (funded : Funded layout m rest) (trade : Trades m m' 0 0) :
    Funded layout m' rest := by
  rw [← zero_add rest] at funded ⊢
  exact funded.trade trade

end Funded

/-! ### Pipes -/

def FileType.pages : FileType Nat Inode → Finset Nat
  | .pipe n => {n}
  | _ => ∅

theorem mem_fileType_pages {type : FileType Nat Inode} {n : Nat} :
    n ∈ FileType.pages type ↔ type = .pipe n := by
  cases type with
  | none => simp [FileType.pages]
  | inode ip => simp [FileType.pages]
  | pipe n' =>
    simp only [FileType.pages, Finset.mem_singleton, Files.FileType.pipe.injEq]
    exact eq_comm

/-- The pages of the pipes that files refer to. -/
def pipePages (files : Table Nat Inode) : Finset Nat :=
  Finset.univ.biUnion (fun f => FileType.pages (files.file f).type)

theorem mem_pipePages {files : Table Nat Inode} {n : Nat} :
    n ∈ pipePages files ↔ ∃ f, (files.file f).type = .pipe n := by
  unfold pipePages
  simp only [Finset.mem_biUnion, Finset.mem_univ, true_and, mem_fileType_pages]

def pipeUses (files : Table Nat Inode) : Multiset Use := (pipePages files).val.map Use.page

def Pipe.isOpen (pipe : Pipe) (writable : Bool) : Bool :=
  if writable then pipe.writeopen else pipe.readopen

/-- What `pipeclose` does to the flags. -/
def Pipe.close (pipe : Pipe) (writable : Bool) : Pipe :=
  if writable then { pipe with writeopen := false } else { pipe with readopen := false }

theorem Pipe.isOpen_close_self (pipe : Pipe) (writable : Bool) :
    (pipe.close writable).isOpen writable = false := by
  cases writable <;> rfl

theorem Pipe.isOpen_close_other (pipe : Pipe) (writable : Bool) :
    (pipe.close writable).isOpen (!writable) = pipe.isOpen (!writable) := by
  cases writable <;> rfl

theorem Pipe.both_closed {pipe : Pipe} {writable : Bool} :
    ((pipe.close writable).readopen = false ∧ (pipe.close writable).writeopen = false) ↔
      pipe.isOpen (!writable) = false := by
  cases writable <;> simp [Pipe.close, Pipe.isOpen]

/-- Every open end of a pipe is one file. -/
structure Ends (files : Table Nat Inode) (pipe : Nat → Pipe) : Prop where
  opened : ∀ f n, (files.file f).type = .pipe n →
    (pipe n).isOpen (files.file f).writable = true
  unique : ∀ f g n, (files.file f).type = .pipe n → (files.file g).type = .pipe n →
    (files.file f).writable = (files.file g).writable → f = g
  partner : ∀ f n w, (files.file f).type = .pipe n → (pipe n).isOpen w = true →
    ∃ g, (files.file g).type = .pipe n ∧ (files.file g).writable = w

section Ends

variable {files files' : Table Nat Inode} {pipe : Nat → Pipe} {f : Fin NFILE} {n : Nat}

theorem pipePages_congr (same : SameFiles files files') : pipePages files' = pipePages files := by
  ext n
  rw [mem_pipePages, mem_pipePages]
  simp only [same.type]

theorem Ends.congr (ends : Ends files pipe) (same : SameFiles files files') :
    Ends files' pipe := by
  refine ⟨?_, ?_, ?_⟩
  · intro f n type
    rw [same.type] at type
    rw [same.writable]
    exact ends.opened f n type
  · intro f g n first second equal
    rw [same.type] at first second
    rw [same.writable, same.writable] at equal
    exact ends.unique f g n first second equal
  · intro f n w type isOpen
    rw [same.type] at type
    obtain ⟨g, typeG, writable⟩ := ends.partner f n w type isOpen
    exact ⟨g, (same.type g).trans typeG, (same.writable g).trans writable⟩

theorem sameFiles_setRef (files : Table Nat Inode) (f : Fin NFILE) (ref : Nat) :
    SameFiles files (files.setFile f { files.file f with ref := ref }) := by
  refine ⟨?_, ?_⟩
  · intro g
    by_cases same : g = f
    · rw [same, setFile_self]
    · rw [setFile_other files _ same]
  · intro g
    by_cases same : g = f
    · rw [same, setFile_self]
    · rw [setFile_other files _ same]

/-- A file that is no pipe is replaced by one that is none either. -/
theorem Ends.setFile_outside {file : Files.File Nat Inode} (ends : Ends files pipe)
    (before : ∀ n, (files.file f).type ≠ .pipe n) (after : ∀ n, file.type ≠ .pipe n) :
    Ends (files.setFile f file) pipe ∧ pipePages (files.setFile f file) = pipePages files := by
  have other {g : Fin NFILE} {n : Nat} (type : ((files.setFile f file).file g).type = .pipe n) :
      g ≠ f ∧ (files.file g).type = .pipe n := by
    have different : g ≠ f := by
      intro same
      rw [same, setFile_self] at type
      exact after n type
    rw [setFile_other files file different] at type
    exact ⟨different, type⟩
  have back {g : Fin NFILE} {n : Nat} (type : (files.file g).type = .pipe n) :
      (files.setFile f file).file g = files.file g := by
    apply setFile_other
    intro same
    exact before n (same ▸ type)
  refine ⟨⟨?_, ?_, ?_⟩, ?_⟩
  · intro g n type
    obtain ⟨_, old⟩ := other type
    rw [back old]
    exact ends.opened g n old
  · intro g h n first second equal
    obtain ⟨_, oldG⟩ := other first
    obtain ⟨_, oldH⟩ := other second
    rw [back oldG, back oldH] at equal
    exact ends.unique g h n oldG oldH equal
  · intro g n w type isOpen
    obtain ⟨_, old⟩ := other type
    obtain ⟨h, typeH, writable⟩ := ends.partner g n w old isOpen
    exact ⟨h, (congrArg (·.type) (back typeH)).trans typeH,
      (congrArg (·.writable) (back typeH)).trans writable⟩
  · ext n
    rw [mem_pipePages, mem_pipePages]
    constructor
    · rintro ⟨g, type⟩
      exact ⟨g, (other type).2⟩
    · rintro ⟨g, type⟩
      exact ⟨g, (congrArg (·.type) (back type)).trans type⟩

/-- The file of one end is freed, and the end is closed. -/
theorem Ends.closeEnd {file : Files.File Nat Inode} (ends : Ends files pipe)
    (type : (files.file f).type = .pipe n) (after : file.type = .none) :
    Ends (files.setFile f file)
        (update pipe n ((pipe n).close (files.file f).writable)) ∧
      ((pipe n).isOpen (!(files.file f).writable) = true →
        pipePages (files.setFile f file) = pipePages files) ∧
      ((pipe n).isOpen (!(files.file f).writable) = false →
        pipePages (files.setFile f file) = (pipePages files).erase n) := by
  have other {g : Fin NFILE} {n' : Nat}
      (typeG : ((files.setFile f file).file g).type = .pipe n') :
      g ≠ f ∧ (files.file g).type = .pipe n' ∧
        (files.setFile f file).file g = files.file g := by
    have different : g ≠ f := by
      intro same
      rw [same, setFile_self, after] at typeG
      cases typeG
    have same := setFile_other files file different
    rw [same] at typeG
    exact ⟨different, typeG, same⟩
  -- Another file of the same pipe is the other end.
  have opposite {g : Fin NFILE} (different : g ≠ f) (typeG : (files.file g).type = .pipe n) :
      (files.file g).writable = !(files.file f).writable := by
    by_contra equal
    apply different
    apply ends.unique g f n typeG type
    cases first : (files.file g).writable <;> cases second : (files.file f).writable <;>
      simp_all
  refine ⟨⟨?_, ?_, ?_⟩, ?_, ?_⟩
  · intro g n' typeG
    obtain ⟨different, old, same⟩ := other typeG
    rw [same]
    by_cases equal : n' = n
    · rw [equal] at old ⊢
      rw [update_self, opposite different old, Pipe.isOpen_close_other,
        ← opposite different old]
      exact ends.opened g n old
    · rw [update_of_ne equal]
      exact ends.opened g n' old
  · intro g h n' first second equal
    obtain ⟨_, oldG, sameG⟩ := other first
    obtain ⟨_, oldH, sameH⟩ := other second
    rw [sameG, sameH] at equal
    exact ends.unique g h n' oldG oldH equal
  · intro g n' w typeG isOpen
    obtain ⟨different, old, same⟩ := other typeG
    by_cases equal : n' = n
    · rw [equal] at old isOpen ⊢
      rw [update_self] at isOpen
      have side : w = !(files.file f).writable := by
        by_contra wrong
        have here : w = (files.file f).writable := by
          cases w <;> cases second : (files.file f).writable <;> simp_all
        rw [here, Pipe.isOpen_close_self] at isOpen
        cases isOpen
      refine ⟨g, ?_, ?_⟩
      · rw [same]
        exact old
      · rw [same, side]
        exact opposite different old
    · rw [update_of_ne equal] at isOpen
      obtain ⟨h, typeH, writable⟩ := ends.partner g n' w old isOpen
      have different : h ≠ f := by
        intro sameF
        rw [sameF, type] at typeH
        exact equal (Files.FileType.pipe.inj typeH).symm
      have sameH := setFile_other files file different
      exact ⟨h, (congrArg (·.type) sameH).trans typeH,
        (congrArg (·.writable) sameH).trans writable⟩
  · intro isOpen
    obtain ⟨partner, typeP, writable⟩ := ends.partner f n _ type isOpen
    have different : partner ≠ f := by
      intro same
      rw [same] at writable
      cases side : (files.file f).writable <;> rw [side] at writable <;> cases writable
    ext n'
    rw [mem_pipePages, mem_pipePages]
    constructor
    · rintro ⟨g, typeG⟩
      exact ⟨g, (other typeG).2.1⟩
    · rintro ⟨g, typeG⟩
      by_cases same : g = f
      · rw [same, type] at typeG
        cases typeG
        exact ⟨partner, (congrArg (·.type) (setFile_other files file different)).trans typeP⟩
      · exact ⟨g, (congrArg (·.type) (setFile_other files file same)).trans typeG⟩
  · intro isClosed
    ext n'
    rw [Finset.mem_erase, mem_pipePages, mem_pipePages]
    constructor
    · rintro ⟨g, typeG⟩
      obtain ⟨different, old, _⟩ := other typeG
      refine ⟨?_, g, old⟩
      intro equal
      rw [equal] at old
      have isOpen := ends.opened g n old
      rw [opposite different old, isClosed] at isOpen
      cases isOpen
    · rintro ⟨apart, g, typeG⟩
      have different : g ≠ f := by
        intro same
        rw [same, type] at typeG
        exact apart (Files.FileType.pipe.inj typeG).symm
      exact ⟨g, (congrArg (·.type) (setFile_other files file different)).trans typeG⟩

end Ends

/-! ### The file table in a call -/

/-- The pages are accounted for; `rest` are all uses but those of the pipes. -/
structure Paid (layout : Layout) (k : Kernel Inode) (rest : Multiset Use) : Prop where
  funded : Funded layout k.mem (pipeUses k.files + rest)
  ends : Ends k.files k.pipe

/-- The state between the steps of a call: `hand` are the files that the call holds. -/
structure Ledger (layout : Layout) (k : Kernel Inode) (hand : Multiset (Fin NFILE))
    (rest : Multiset Use) : Prop where
  paid : Paid layout k rest
  counted : Counted k.files hand

/-- Calls on files leave the processes and the descriptors alone. -/
structure SameProcs (k k' : Kernel Inode) : Prop where
  proc : k'.proc = k.proc
  kpgdir : k'.kpgdir = k.kpgdir
  cpuStacks : k'.cpuStacks = k.cpuStacks
  initproc : k'.initproc = k.initproc
  ofile : k'.files.ofile = k.files.ofile

theorem SameProcs.refl (k : Kernel Inode) : SameProcs k k := ⟨rfl, rfl, rfl, rfl, rfl⟩

theorem SameProcs.trans {k1 k2 k3 : Kernel Inode} (first : SameProcs k1 k2)
    (second : SameProcs k2 k3) : SameProcs k1 k3 :=
  ⟨second.proc.trans first.proc, second.kpgdir.trans first.kpgdir,
    second.cpuStacks.trans first.cpuStacks, second.initproc.trans first.initproc,
    second.ofile.trans first.ofile⟩

theorem onMem_eq_ok {Value : Type} {op : Op Value} {value : Value} :
    onMem op k = .ok (value, k') ↔
      ∃ m, op k.mem = .ok (value, m) ∧ k' = { k with mem := m } := by
  unfold onMem
  cases ran : op k.mem with
  | error cause =>
    constructor
    · intro impossible
      cases impossible
    · rintro ⟨m, impossible, _⟩
      cases impossible
  | ok pair =>
    obtain ⟨result, m⟩ := pair
    constructor
    · intro same
      cases same
      exact ⟨m, rfl, rfl⟩
    · rintro ⟨m', same, rfl⟩
      cases same
      rfl

section Calls

variable {hand : Multiset (Fin NFILE)} {rest : Multiset Use} {f : Fin NFILE}

variable {n : Nat} {files : Table Nat Inode}

theorem pipeclose_same {writable : Bool} (ran : pipeclose layout n writable k = .ok ((), k')) :
    SameProcs k k' ∧ k'.files = k.files ∧
      k'.pipe = update k.pipe n ((k.pipe n).close writable) ∧
      ((k.pipe n).isOpen (!writable) = true → k'.mem = k.mem) ∧
      ((k.pipe n).isOpen (!writable) = false → kfree layout n k.mem = .ok ((), k'.mem)) := by
  unfold pipeclose at ran
  have sets := get_bind.symm.trans ran
  obtain ⟨_, k1, set, frees⟩ := bind_eq_ok.mp sets
  cases set
  change (if ((k.pipe n).close writable).readopen = false ∧
    ((k.pipe n).close writable).writeopen = false then _ else _ : Sys Inode Unit) _ = _ at frees
  split at frees
  · rename_i both
    obtain ⟨m, freed, rfl⟩ := onMem_eq_ok.mp frees
    have other := Pipe.both_closed.mp both
    refine ⟨⟨rfl, rfl, rfl, rfl, rfl⟩, rfl, rfl, ?_, fun _ => freed⟩
    intro isOpen
    rw [other] at isOpen
    cases isOpen
  · rename_i notBoth
    obtain ⟨_, rfl⟩ := pure_eq_ok.mp frees
    refine ⟨⟨rfl, rfl, rfl, rfl, rfl⟩, rfl, rfl, fun _ => rfl, ?_⟩
    intro isClosed
    exact absurd (Pipe.both_closed.mpr isClosed) notBoth

theorem Paid.setFile_outside {file : Files.File Nat Inode} (paid : Paid layout k rest)
    (before : ∀ n, (k.files.file f).type ≠ .pipe n) (after : ∀ n, file.type ≠ .pipe n) :
    Paid layout { k with files := k.files.setFile f file } rest := by
  obtain ⟨ends, pages⟩ := paid.ends.setFile_outside before after
  refine ⟨?_, ends⟩
  have funded := paid.funded
  unfold pipeUses at funded ⊢
  rw [pages]
  exact funded

theorem Paid.alike (paid : Paid layout k rest) (alike : SameFiles k.files files) :
    Paid layout { k with files := files } rest := by
  refine ⟨?_, paid.ends.congr alike⟩
  have funded := paid.funded
  unfold pipeUses at funded ⊢
  rw [pipePages_congr alike]
  exact funded

/-- The last reference to one end of a pipe is gone. -/
theorem pipeclose_paid {file : Files.File Nat Inode} (paid : Paid layout k rest)
    (type : (k.files.file f).type = .pipe n) (empty : file.type = .none)
    (ran : pipeclose layout n (k.files.file f).writable
      { k with files := k.files.setFile f file } = .ok ((), k')) :
    Paid layout k' rest ∧ SameProcs k k' ∧ k'.files = k.files.setFile f file := by
  obtain ⟨same, files, pipe, stays, frees⟩ := pipeclose_same ran
  obtain ⟨ends, open_, closed⟩ := paid.ends.closeEnd type empty
  have procs : SameProcs k k' := ⟨same.proc, same.kpgdir, same.cpuStacks, same.initproc, same.ofile⟩
  change k'.files = k.files.setFile f file at files
  change k'.pipe = update k.pipe n ((k.pipe n).close (k.files.file f).writable) at pipe
  refine ⟨⟨?_, ?_⟩, procs, files⟩
  · have funded := paid.funded
    cases other : (k.pipe n).isOpen (!(k.files.file f).writable) with
    | true =>
      have mem : k'.mem = k.mem := stays other
      unfold pipeUses at funded ⊢
      rw [mem, files, open_ other]
      exact funded
    | false =>
      have member : n ∈ pipePages k.files := mem_pipePages.mpr ⟨f, type⟩
      unfold pipeUses at funded ⊢
      rw [files, closed other]
      rw [← Finset.insert_erase member,
        Finset.insert_val_of_notMem (Finset.notMem_erase n _), Multiset.map_cons,
        Multiset.cons_add] at funded
      exact funded.kfree (frees other)
  · rw [files, pipe]
    exact ends

theorem fileclose_paid (paid : Paid layout k rest) (ran : fileclose layout f k = .ok ((), k')) :
    Paid layout k' rest ∧ SameProcs k k' ∧ ∃ released, Closed k.files f released k'.files := by
  unfold fileclose at ran
  have closes := get_bind.symm.trans ran
  cases closed : k.files.fileclose f with
  | none =>
    rw [closed] at closes
    exact absurd closes stop_ne_ok
  | some pair =>
    obtain ⟨released, files⟩ := pair
    rw [closed] at closes
    have shape := fileclose_closed closed
    obtain ⟨_, k1, set, releases⟩ := bind_eq_ok.mp closes
    cases set
    cases shape with
    | kept more =>
      obtain ⟨_, rfl⟩ := pure_eq_ok.mp releases
      exact ⟨paid.alike (sameFiles_setRef _ f _), ⟨rfl, rfl, rfl, rfl, rfl⟩, _,
        Closed.kept more⟩
    | freed last =>
      dsimp only at releases
      cases type : (k.files.file f).type with
      | pipe n =>
        rw [type] at releases
        obtain ⟨after, procs, files⟩ := pipeclose_paid paid type rfl releases
        refine ⟨after, procs, some (k.files.file f), ?_⟩
        rw [files]
        exact Closed.freed last
      | none | inode =>
        rw [type] at releases
        obtain ⟨_, rfl⟩ := pure_eq_ok.mp releases
        exact ⟨paid.setFile_outside (by simp [type]) (by simp),
          ⟨rfl, rfl, rfl, rfl, rfl⟩, _, Closed.freed last⟩

theorem fileclose_ledger (ledger : Ledger layout k (f ::ₘ hand) rest)
    (ran : fileclose layout f k = .ok ((), k')) :
    Ledger layout k' hand rest ∧ SameProcs k k' := by
  obtain ⟨paid, procs, _, closed⟩ := fileclose_paid ledger.paid ran
  exact ⟨⟨paid, closed.counted ledger.counted⟩, procs⟩

theorem onFiles_eq_ok {Value : Type} {op : Table Nat Inode → Value × Table Nat Inode}
    {value : Value} :
    onFiles op k = .ok (value, k') ↔
      op k.files = (value, k'.files) ∧ k' = { k with files := k'.files } := by
  constructor
  · intro ran
    cases ran
    exact ⟨rfl, rfl⟩
  · rintro ⟨ran, same⟩
    unfold onFiles
    rw [ran, same]

theorem filealloc_ledger (ledger : Ledger layout k hand rest)
    (ran : onFiles (·.filealloc) k = .ok (some f, k')) :
    Ledger layout k' (f ::ₘ hand) rest ∧ SameProcs k k' ∧ (k.files.file f).ref = 0 ∧
      (k'.files.file f).type = .none := by
  obtain ⟨allocated, same⟩ := onFiles_eq_ok.mp ran
  obtain ⟨zero, files, counted⟩ := filealloc_ok ledger.counted allocated
  rw [files] at same
  rw [files] at counted
  have after := ledger.paid.alike (sameFiles_setRef k.files f 1)
  rw [← same] at after
  refine ⟨⟨after, ?_⟩, ?_, zero, ?_⟩
  · rw [files]
    exact counted
  · rw [same]
    exact ⟨rfl, rfl, rfl, rfl, rfl⟩
  · rw [files, setFile_self]
    exact ledger.counted.free f zero

/-- The two files of a new pipe. -/
theorem linkPipe_ends {pipe : Nat → Pipe} {f0 f1 : Fin NFILE} (ends : Ends files pipe)
    (apart : f0 ≠ f1) (fresh : n ∉ pipePages files) (first : (files.file f0).type = .none)
    (second : (files.file f1).type = .none) :
    Ends (linkPipe files f0 f1 n) (update pipe n ⟨true, true⟩) ∧
      pipePages (linkPipe files f0 f1 n) = insert n (pipePages files) := by
  have self0 : ((linkPipe files f0 f1 n).file f0).type = .pipe n ∧
      ((linkPipe files f0 f1 n).file f0).writable = false := by
    unfold linkPipe
    rw [setFile_other _ _ apart, setFile_self]
    exact ⟨rfl, rfl⟩
  have self1 : ((linkPipe files f0 f1 n).file f1).type = .pipe n ∧
      ((linkPipe files f0 f1 n).file f1).writable = true := by
    unfold linkPipe
    rw [setFile_self]
    exact ⟨rfl, rfl⟩
  have other {g : Fin NFILE} (not0 : g ≠ f0) (not1 : g ≠ f1) :
      (linkPipe files f0 f1 n).file g = files.file g := by
    unfold linkPipe
    rw [setFile_other _ _ not1, setFile_other _ _ not0]
  -- A pipe file is one of the two new ones, or an old one of another pipe.
  have cases_ {g : Fin NFILE} {n' : Nat}
      (type : ((linkPipe files f0 f1 n).file g).type = .pipe n') :
      (n' = n ∧ (g = f0 ∨ g = f1)) ∨
        (n' ≠ n ∧ g ≠ f0 ∧ g ≠ f1 ∧ (files.file g).type = .pipe n') := by
    by_cases same0 : g = f0
    · rw [same0, self0.1] at type
      exact Or.inl ⟨(Files.FileType.pipe.inj type).symm, Or.inl same0⟩
    · by_cases same1 : g = f1
      · rw [same1, self1.1] at type
        exact Or.inl ⟨(Files.FileType.pipe.inj type).symm, Or.inr same1⟩
      · rw [other same0 same1] at type
        refine Or.inr ⟨?_, same0, same1, type⟩
        intro equal
        exact fresh (mem_pipePages.mpr ⟨g, equal ▸ type⟩)
  have oldOther {g : Fin NFILE} {n' : Nat} (type : (files.file g).type = .pipe n') :
      (linkPipe files f0 f1 n).file g = files.file g := by
    apply other
    · intro same
      rw [same, first] at type
      cases type
    · intro same
      rw [same, second] at type
      cases type
  refine ⟨⟨?_, ?_, ?_⟩, ?_⟩
  · intro g n' type
    rcases cases_ type with ⟨rfl, rfl | rfl⟩ | ⟨apartN, not0, not1, old⟩
    · rw [update_self, self0.2]
      rfl
    · rw [update_self, self1.2]
      rfl
    · rw [update_of_ne apartN, other not0 not1]
      exact ends.opened g n' old
  · intro g h n' typeG typeH equal
    rcases cases_ typeG with ⟨rfl, sideG⟩ | ⟨apartN, not0, not1, oldG⟩
    · rcases cases_ typeH with ⟨_, sideH⟩ | ⟨apartN, _⟩
      · rcases sideG with rfl | rfl <;> rcases sideH with rfl | rfl
        · rfl
        · rw [self0.2, self1.2] at equal
          cases equal
        · rw [self0.2, self1.2] at equal
          cases equal
        · rfl
      · exact absurd rfl apartN
    · rcases cases_ typeH with ⟨same, _⟩ | ⟨_, _, _, oldH⟩
      · exact absurd same apartN
      · rw [oldOther oldG, oldOther oldH] at equal
        exact ends.unique g h n' oldG oldH equal
  · intro g n' w type isOpen
    rcases cases_ type with ⟨rfl, _⟩ | ⟨apartN, _, _, old⟩
    · cases w with
      | false => exact ⟨f0, self0⟩
      | true => exact ⟨f1, self1⟩
    · rw [update_of_ne apartN] at isOpen
      obtain ⟨h, typeH, writable⟩ := ends.partner g n' w old isOpen
      have same := oldOther typeH
      exact ⟨h, (congrArg (·.type) same).trans typeH, (congrArg (·.writable) same).trans writable⟩
  · ext n'
    rw [Finset.mem_insert, mem_pipePages, mem_pipePages]
    constructor
    · rintro ⟨g, type⟩
      rcases cases_ type with ⟨same, _⟩ | ⟨_, _, _, old⟩
      · exact Or.inl same
      · exact Or.inr ⟨g, old⟩
    · rintro (rfl | ⟨g, type⟩)
      · exact ⟨f0, self0.1⟩
      · exact ⟨g, (congrArg (·.type) (oldOther type)).trans type⟩

theorem linkPipe_counted {f0 f1 : Fin NFILE} (n : Nat)
    (counted : Counted files (f1 ::ₘ f0 ::ₘ hand)) :
    Counted (linkPipe files f0 f1 n) (f1 ::ₘ f0 ::ₘ hand) := by
  have used0 := counted.balanced.pos_of_hand
    (Multiset.mem_cons_of_mem (Multiset.mem_cons_self f0 hand))
  have first : Counted (files.setFile f0 { files.file f0 with
      type := .pipe n, readable := true, writable := false }) (f1 ::ₘ f0 ::ₘ hand) :=
    counted.setFile rfl (Nat.ne_of_gt used0)
  have used1 := first.balanced.pos_of_hand (Multiset.mem_cons_self f1 (f0 ::ₘ hand))
  exact first.setFile rfl (Nat.ne_of_gt used1)

theorem Ledger.kalloc (ledger : Ledger layout k hand rest) {m : Mem}
    (asked : kalloc k.mem = .ok (some n, m)) :
    Ledger layout { k with mem := m } hand (.page n ::ₘ rest) := by
  refine ⟨⟨?_, ledger.paid.ends⟩, ledger.counted⟩
  rw [Multiset.add_cons]
  exact ledger.paid.funded.kalloc asked

theorem pipealloc_ledger {result : Option (Fin NFILE × Fin NFILE)}
    (ledger : Ledger layout k hand rest) (ran : pipealloc layout k = .ok (result, k')) :
    SameProcs k k' ∧ (result = none → Ledger layout k' hand rest) ∧
      ∀ f0 f1, result = some (f0, f1) → Ledger layout k' (f1 ::ₘ f0 ::ₘ hand) rest := by
  unfold pipealloc at ran
  obtain ⟨first, k1, alloc0, goes⟩ := bind_eq_ok.mp ran
  cases first with
  | none =>
    obtain ⟨rfl, rfl⟩ := pure_eq_ok.mp goes
    obtain ⟨allocated, same⟩ := onFiles_eq_ok.mp alloc0
    rw [filealloc_none allocated] at same
    rw [same]
    exact ⟨SameProcs.refl k, fun _ => ledger, by simp⟩
  | some f0 =>
    obtain ⟨ledger1, procs1, _, none0⟩ := filealloc_ledger ledger alloc0
    obtain ⟨second, k2, alloc1, goes⟩ := bind_eq_ok.mp goes
    cases second with
    | none =>
      obtain ⟨allocated, same⟩ := onFiles_eq_ok.mp alloc1
      rw [filealloc_none allocated] at same
      change k2 = k1 at same
      rw [same] at goes
      obtain ⟨_, k3, closed, ends⟩ := bind_eq_ok.mp goes
      obtain ⟨rfl, rfl⟩ := pure_eq_ok.mp ends
      obtain ⟨ledger3, procs3⟩ := fileclose_ledger ledger1 closed
      exact ⟨procs1.trans procs3, fun _ => ledger3, by simp⟩
    | some f1 =>
      obtain ⟨ledger2, procs2, zero1, none1⟩ := filealloc_ledger ledger1 alloc1
      have procs := procs1.trans procs2
      have used0 := ledger1.counted.balanced.pos_of_hand (Multiset.mem_cons_self f0 hand)
      have apart : f0 ≠ f1 := by
        intro same
        rw [← same] at zero1
        exact absurd zero1 (Nat.ne_of_gt used0)
      obtain ⟨page, k3, asked, goes⟩ := bind_eq_ok.mp goes
      obtain ⟨m, allocated, rfl⟩ := onMem_eq_ok.mp asked
      cases page with
      | none =>
        obtain ⟨rfl, _⟩ := kalloc_none allocated
        obtain ⟨_, k4, closed0, goes⟩ := bind_eq_ok.mp goes
        obtain ⟨_, k5, closed1, ends⟩ := bind_eq_ok.mp goes
        obtain ⟨rfl, rfl⟩ := pure_eq_ok.mp ends
        have swapped : Ledger layout k2 (f0 ::ₘ f1 ::ₘ hand) rest := by
          rw [Multiset.cons_swap]
          exact ledger2
        obtain ⟨ledger4, procs4⟩ := fileclose_ledger swapped closed0
        obtain ⟨ledger5, procs5⟩ := fileclose_ledger ledger4 closed1
        exact ⟨(procs.trans procs4).trans procs5, fun _ => ledger5, by simp⟩
      | some n =>
        have ledger3 := ledger2.kalloc allocated
        obtain ⟨_, k4, set, goes⟩ := bind_eq_ok.mp goes
        cases set
        obtain ⟨_, k5, set, ends⟩ := bind_eq_ok.mp (get_bind.symm.trans goes)
        cases set
        obtain ⟨rfl, rfl⟩ := pure_eq_ok.mp ends
        have fresh : n ∉ pipePages k2.files := by
          intro member
          have used : Use.page n ∈ pipeUses k2.files + rest :=
            Multiset.mem_add.mpr (Or.inl (Multiset.mem_map.mpr ⟨n, member, rfl⟩))
          have inside : n ∈ shares Use.pages k2.mem (pipeUses k2.files + rest) :=
            subset_shares used (Multiset.mem_singleton_self n)
          exact ledger2.paid.funded.sound.not_free inside (kalloc_some allocated).2.1
        have type0 : (k2.files.file f0).type = .none := by
          obtain ⟨second, same⟩ := onFiles_eq_ok.mp alloc1
          obtain ⟨_, files, _⟩ := filealloc_ok ledger1.counted second
          rw [files, setFile_other _ _ apart]
          exact none0
        obtain ⟨ends, pages⟩ := linkPipe_ends ledger2.paid.ends apart fresh type0 none1
        refine ⟨procs.trans ⟨rfl, rfl, rfl, rfl, rfl⟩, by simp, ?_⟩
        intro g0 g1 equal
        cases equal
        refine ⟨⟨?_, ends⟩, linkPipe_counted n ledger2.counted⟩
        have funded := ledger3.paid.funded
        unfold pipeUses at funded ⊢
        change Funded layout m ((pipePages (linkPipe k2.files f0 f1 n)).val.map Use.page + rest)
        rw [pages, Finset.insert_val_of_notMem fresh, Multiset.map_cons, Multiset.cons_add]
        rw [Multiset.add_cons] at funded
        exact funded

end Calls

end Xv6.Memory
