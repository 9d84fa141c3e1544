/-
`mpinit` of `mp.c`, which reads the table of the processors that the BIOS has left in memory.

Addresses are physical: `P2V` adds the same to all of them.  The `break` of the default case
leaves the switch but not the loop, and `p` stays where it is.
-/

import Xv6.Library.Bytes

namespace Xv6.Mp

open Library

abbrev NCPU : Nat := 8

/-- `sizeof(struct mp)` -/
abbrev MP : Nat := 16

/-- `sizeof(struct mpconf)` -/
abbrev MPCONF : Nat := 44

def halfword (mem : Area) (addr : Nat) : Nat := ofBytes (mem.slice addr 2)

def word (mem : Area) (addr : Nat) : Nat := ofBytes (mem.slice addr 4)

/-- The sum is returned as a `uchar`. -/
def sum (mem : Area) (addr len : Nat) : UInt8 := (mem.slice addr len).foldl (· + ·) 0

def signed (mem : Area) (addr : Nat) (signature : List Char) : Bool :=
  mem.slice addr 4 == signature.map Char.toUInt8

/-- The loop of `mpsearch1` over a number of structures. -/
def mpscan (mem : Area) : Nat → Nat → Option Nat
  | 0, _ => none
  | count + 1, p =>
    if signed mem p ['_', 'M', 'P', '_'] ∧ sum mem p MP = 0 then some p
    else mpscan mem count (p + MP)

def mpsearch1 (mem : Area) (a len : Nat) : Option Nat := mpscan mem ((len + MP - 1) / MP) a

/-- The words `bda[0x0F]<<8 | bda[0x0E]` and `bda[0x14]<<8 | bda[0x13]` of the BIOS data area
give the segment of the EBDA and the size of the base memory in kilobytes. -/
def mpsearch (mem : Area) : Option Nat :=
  let ebda := 16 * halfword mem 0x40E
  let near := if ebda ≠ 0 then mpsearch1 mem ebda 1024
    else mpsearch1 mem ((1024 * halfword mem 0x413 + 0x100000000 - 1024) % 0x100000000) 1024
  near.or (mpsearch1 mem 0xF0000 0x10000)

/-- The addresses of the pointer structure and of the table. -/
def mpconfig (mem : Area) : Option (Nat × Nat) :=
  match mpsearch mem with
  | none => none
  | some mp =>
    let conf := word mem (mp + 4)
    if conf = 0 then none
    else if signed mem conf ['P', 'C', 'M', 'P'] = false then none
    else if mem (conf + 6) ≠ 1 ∧ mem (conf + 6) ≠ 4 then none
    else if sum mem conf (halfword mem (conf + 4)) ≠ 0 then none
    else some (mp, conf)

/-- The variables that `mpinit` sets.  The first `ncpu` elements of `cpus` have an `apicid`. -/
structure Globals where
  lapic : Nat
  apicids : List UInt8 := []
  ioapicid : UInt8 := 0
  deriving DecidableEq

/-- The cases of the switch that continue the loop. -/
def entry (mem : Area) (p : Nat) (g : Globals) : Option (Nat × Globals) :=
  if mem p = 0 then
    some (p + 20,
      if g.apicids.length < NCPU then { g with apicids := g.apicids ++ [mem (p + 1)] } else g)
  else if mem p = 2 then some (p + 8, { g with ioapicid := mem (p + 1) })
  else if mem p = 1 ∨ mem p = 3 ∨ mem p = 4 then some (p + 8, g)
  else none

/-- `for(...; p<e; )`; the loop has not ended when the fuel is used up. -/
def loop (mem : Area) (e : Nat) : Nat → Nat → Bool → Globals → Option (Bool × Globals)
  | 0, _, _, _ => none
  | fuel + 1, p, ismp, g =>
    if p < e then
      match entry mem p g with
      | some (p, g) => loop mem e fuel p ismp g
      | none => loop mem e fuel p false g
    else some (ismp, g)

inductive Outcome
  | panic (message : String)
  -- `imcr` says that the interrupt mode register has been set
  | started (globals : Globals) (imcr : Bool)

def mpinit (mem : Area) (fuel : Nat) : Option Outcome :=
  match mpconfig mem with
  | none => some (.panic "Expect to run on an SMP")
  | some (mp, conf) =>
    match loop mem (conf + halfword mem (conf + 4)) fuel (conf + MPCONF) true
      { lapic := word mem (conf + 36) } with
    | none => none
    | some (false, _) => some (.panic "Didn't find a suitable machine")
    | some (true, g) => some (.started g (mem (mp + 12) != 0))

/-! ### The entries of a table -/

/-- The length of an entry of a known type. -/
def length (type : UInt8) : Option Nat :=
  if type = 0 then some 20 else if type ≤ 4 then some 8 else none

/-- The addresses of the entries between `p` and `e`, all of known types. -/
inductive Entries (mem : Area) (e : Nat) : Nat → List Nat → Prop
  | done {p : Nat} (passed : e ≤ p) : Entries mem e p []
  | next {p n : Nat} {rest : List Nat} (inside : p < e) (known : length (mem p) = some n)
      (behind : Entries mem e (p + n) rest) : Entries mem e p (p :: rest)

/-- The entries of the table at `conf`. -/
def Table (mem : Area) (conf : Nat) (entries : List Nat) : Prop :=
  Entries mem (conf + halfword mem (conf + 4)) (conf + MPCONF) entries

/-- The local APICs of the processor entries. -/
def processors (mem : Area) (entries : List Nat) : List UInt8 :=
  (entries.filter (fun p => mem p = 0)).map (fun p => mem (p + 1))

theorem take_take_append {α : Type} (n : Nat) (first second : List α) :
    (first.take n ++ second).take n = (first ++ second).take n := by
  rw [List.take_append, List.take_append, List.take_take, min_self, List.length_take]
  congr 2
  omega

section Loop

variable {mem : Area} {e p : Nat} {ismp : Bool} {g : Globals} {entries : List Nat}

/-- An entry of a known type is passed, and the processors that fit are recorded. -/
theorem entry_known {n : Nat} (known : length (mem p) = some n) (room : g.apicids.length ≤ NCPU) :
    ∃ g', entry mem p g = some (p + n, g') ∧ g'.lapic = g.lapic ∧
      g'.apicids = (g.apicids ++ processors mem [p]).take NCPU := by
  have full : g.apicids.take NCPU = g.apicids := List.take_of_length_le room
  unfold entry
  unfold length at known
  by_cases processor : mem p = 0
  · rw [if_pos processor] at known ⊢
    cases known
    refine ⟨_, rfl, ?_, ?_⟩
    · split <;> rfl
    · simp only [processors, processor, decide_true, List.filter_cons_of_pos, List.filter_nil,
        List.map_cons, List.map_nil]
      split
      · rename_i fits
        rw [List.take_of_length_le]
        rw [List.length_append, List.length_singleton]
        omega
      · rw [List.take_append_of_le_length (by omega), full]
  · rw [if_neg processor] at known ⊢
    have none : processors mem [p] = [] := by simp [processors, processor]
    rw [none, List.append_nil, full]
    by_cases small : mem p ≤ 4
    · rw [if_pos small] at known
      cases known
      by_cases ioapic : mem p = 2
      · rw [if_pos ioapic]
        exact ⟨_, rfl, rfl, rfl⟩
      · have others : mem p = 1 ∨ mem p = 3 ∨ mem p = 4 := by
          rw [UInt8.le_iff_toNat_le] at small
          simp only [← UInt8.toNat_inj] at processor ioapic ⊢
          simp only [UInt8.reduceToNat] at small processor ioapic ⊢
          omega
        rw [if_neg ioapic, if_pos others]
        exact ⟨g, rfl, rfl, rfl⟩
    · rw [if_neg small] at known
      cases known

theorem entry_unknown (unknown : length (mem p) = none) : entry mem p g = none := by
  unfold length at unknown
  unfold entry
  split at unknown
  · cases unknown
  · rename_i processor
    split at unknown
    · cases unknown
    · rename_i large
      rw [UInt8.le_iff_toNat_le] at large
      simp only [← UInt8.toNat_inj, UInt8.reduceToNat] at large processor ⊢
      rw [if_neg processor, if_neg (by omega), if_neg (by omega)]

/-- At an unknown type the loop stays for ever. -/
theorem loop_unknown (inside : p < e) (unknown : length (mem p) = none) (fuel : Nat) :
    loop mem e fuel p ismp g = none := by
  induction fuel generalizing ismp with
  | zero => rfl
  | succ fuel ih =>
    rw [loop, if_pos inside, entry_unknown unknown]
    exact ih

theorem loop_known (table : Entries mem e p entries) (room : g.apicids.length ≤ NCPU) :
    ∃ g', (∀ fuel, entries.length < fuel → loop mem e fuel p ismp g = some (ismp, g')) ∧
      g'.lapic = g.lapic ∧ g'.apicids = (g.apicids ++ processors mem entries).take NCPU := by
  induction table generalizing g with
  | done passed =>
    refine ⟨g, ?_, rfl, ?_⟩
    · intro fuel enough
      obtain ⟨less, rfl⟩ : ∃ less, fuel = less + 1 := ⟨fuel - 1, by omega⟩
      rw [loop, if_neg (Nat.not_lt.mpr passed)]
    · exact ((List.take_of_length_le (by simpa [processors] using room)).trans
        (List.append_nil g.apicids)).symm
  | @next p n rest inside known behind ih =>
    obtain ⟨g₁, step, lapic₁, apicids₁⟩ := entry_known known room
    have room₁ : g₁.apicids.length ≤ NCPU := by
      rw [apicids₁]
      exact List.length_take_le NCPU _
    obtain ⟨g', ends, lapic, apicids⟩ := ih room₁
    refine ⟨g', ?_, lapic.trans lapic₁, ?_⟩
    · intro fuel enough
      obtain ⟨less, rfl⟩ : ∃ less, fuel = less + 1 := ⟨fuel - 1, by omega⟩
      rw [loop, if_pos inside, step]
      exact ends less (Nat.lt_of_succ_lt_succ enough)
    · have both : processors mem (p :: rest) = processors mem [p] ++ processors mem rest := by
        unfold processors
        rw [← List.map_append, ← List.filter_append]
        rfl
      rw [apicids, apicids₁, both, ← List.append_assoc]
      exact take_take_append NCPU _ _

/-- A loop that ends has read a table of entries of known types. -/
theorem entries_of_loop {fuel : Nat} {result : Bool × Globals}
    (ends : loop mem e fuel p ismp g = some result) (room : g.apicids.length ≤ NCPU) :
    ∃ entries, Entries mem e p entries := by
  induction fuel generalizing p g with
  | zero => cases ends
  | succ fuel ih =>
    by_cases inside : p < e
    · cases known : length (mem p) with
      | none =>
        rw [loop_unknown inside known] at ends
        cases ends
      | some n =>
        obtain ⟨g₁, step, _, apicids₁⟩ := entry_known known room
        rw [loop, if_pos inside, step] at ends
        obtain ⟨rest, behind⟩ := ih ends (by rw [apicids₁]; exact List.length_take_le NCPU _)
        exact ⟨p :: rest, .next inside known behind⟩
    · exact ⟨[], .done (Nat.not_lt.mp inside)⟩

end Loop

/-- For a table that `mpconfig` accepts, `mpinit` ends iff all the entries that it reads have
known types.  Then it records the local APICs of the first `NCPU` processors. -/
theorem mpinit_reads_table (mem : Area) (mp conf : Nat)
    (accepted : mpconfig mem = some (mp, conf)) :
    ((∃ fuel, (mpinit mem fuel).isSome = true) ↔ ∃ entries, Table mem conf entries) ∧
      ∀ entries, Table mem conf entries → ∃ ioapicid, ∀ fuel, entries.length < fuel →
        mpinit mem fuel = some (.started
          ⟨word mem (conf + 36), (processors mem entries).take NCPU, ioapicid⟩
          (mem (mp + 12) != 0)) := by
  have ends : ∀ entries, Table mem conf entries → ∃ ioapicid, ∀ fuel, entries.length < fuel →
      mpinit mem fuel = some (.started
        ⟨word mem (conf + 36), (processors mem entries).take NCPU, ioapicid⟩
        (mem (mp + 12) != 0)) := by
    intro entries table
    obtain ⟨g, loops, lapic, apicids⟩ :=
      @loop_known mem _ _ true { lapic := word mem (conf + 36) } entries table (Nat.zero_le NCPU)
    refine ⟨g.ioapicid, ?_⟩
    intro fuel enough
    unfold mpinit
    simp only [accepted, loops fuel enough]
    obtain ⟨found, listed, io⟩ := g
    cases lapic
    cases apicids
    rfl
  refine ⟨⟨?_, ?_⟩, ends⟩
  · rintro ⟨fuel, returned⟩
    cases loops : loop mem (conf + halfword mem (conf + 4)) fuel (conf + MPCONF) true
        { lapic := word mem (conf + 36) } with
    | none =>
      unfold mpinit at returned
      simp only [accepted, loops] at returned
      cases returned
    | some result => exact entries_of_loop loops (Nat.zero_le NCPU)
  · rintro ⟨entries, table⟩
    obtain ⟨ioapicid, result⟩ := ends entries table
    exact ⟨entries.length + 1, by rw [result _ (Nat.lt_succ_self _)]; rfl⟩

/-- A BIOS with its structures at 0x9000 and 0x9010. -/
def bios (length checksum : UInt8) (entries : List UInt8) : Area :=
  let data : Area := Area.patch (fun _ => 0) 0x40E [0x00, 0x09]
  let pointer := data.patch 0x9000 [95, 77, 80, 95, 0x10, 0x90, 0, 0, 1, 4]
  pointer.patch 0x9010 ([80, 67, 77, 80, length, 0, 4, checksum] ++ List.replicate 36 0 ++ entries)

set_option maxRecDepth 2000 in
/-- A table with one processor. -/
theorem mpinit_reads_processor : ∃ ioapicid, ∀ fuel, 1 < fuel →
    mpinit (bios 64 133 [0, 7]) fuel = some (.started ⟨0, [7], ioapicid⟩ false) := by
  have table : Table (bios 64 133 [0, 7]) 0x9010 [0x903C] :=
    .next (by decide) (show length _ = some 20 by decide) (.done (by decide))
  obtain ⟨ioapicid, result⟩ :=
    (mpinit_reads_table (bios 64 133 [0, 7]) 0x9000 0x9010 (by decide)).2 _ table
  exact ⟨ioapicid, result⟩

set_option maxRecDepth 2000 in
/-- A table with one entry of type 5. -/
theorem mpinit_loops : mpconfig (bios 45 154 [5]) = some (0x9000, 0x9010) ∧
    ∀ fuel, mpinit (bios 45 154 [5]) fuel = none := by
  have accepted : mpconfig (bios 45 154 [5]) = some (0x9000, 0x9010) := by decide
  refine ⟨accepted, ?_⟩
  intro fuel
  unfold mpinit
  simp only [accepted]
  rw [loop_unknown (by decide) (by decide)]

end Xv6.Mp
