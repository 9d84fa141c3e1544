/-
`readi` and `writei` on a file that is at rest, by the bytes of the file.
-/

import Mathlib.Tactic
import Xv6.Fs.Content

namespace Xv6.Fs

open Library Code

namespace Locked

variable {sb : Superblock} {inum : Nat} {s s' : Locked}

theorem AtRest.size_le (rest : s.AtRest sb inum) : s.ip.size ≤ MAXFILE * BSIZE :=
  blocksFor_le.mp rest.inv.extent.bound

theorem AtRest.bytes_eq (rest : s.AtRest sb inum) :
    s.disk.bytes sb inum = (s.content sb inum inum).slice 0 s.ip.size := by
  unfold Disk.bytes
  rw [rest.content_eq, rest.copy]

/-! ### readi -/

variable {off : Nat} {src : List UInt8}

/-- The bytes have been written, and everything is at rest again. -/
structure Written (sb : Superblock) (inum off : Nat) (src : List UInt8) (s s' : Locked) : Prop where
  rest : s'.AtRest sb inum
  ip : s'.ip = { s.ip with size := max s.ip.size (off + src.length), addrs := s'.ip.addrs }
  bytes : s'.disk.bytes sb inum =
    (s.disk.bytes sb inum).take off ++ src ++ (s.disk.bytes sb inum).drop (off + src.length)
  dinode : ∀ i, i ≠ inum → i < sb.ninodes → s'.disk.dinode sb i = s.disk.dinode sb i
  slots : ∀ i k, i ≠ inum → s'.slots sb inum (i, k) = s.slots sb inum (i, k)
  others : ∀ i, i ≠ inum → i < sb.ninodes → (s.disk.dinode sb i).type ≠ 0 →
    (s.disk.dinode sb i).type ≠ T_DEV → s'.disk.bytes sb i = s.disk.bytes sb i

theorem Keeps.bytes (keeps : Keeps sb inum s s') (rest : s.AtRest sb inum)
    (rest' : s'.AtRest sb inum) {i : Nat} (different : i ≠ inum) (inside : i < sb.ninodes)
    (allocated : (s.disk.dinode sb i).type ≠ 0) (file : (s.disk.dinode sb i).type ≠ T_DEV) :
    s'.disk.bytes sb i = s.disk.bytes sb i := by
  unfold Disk.bytes
  rw [← rest.content_eq, ← rest'.content_eq, keeps.dinode i different inside]
  refine Area.slice_congr _ ?_
  intro pos _ bounded
  have other := rest.consistent.extent i inside allocated file
  rw [← rest.slots_eq] at other
  rw [Nat.zero_add] at bounded
  have block := div_lt_blocksFor bounded
  have holds := (other.data _ (lt_of_lt_of_le block other.bound)).mpr block
  unfold content
  rw [keeps.slots _ _ different, keeps.block _ _ different holds]

/-- The end of `writei`, when the file has grown. -/
theorem Wrote.grown (rest : s.AtRest sb inum)
    (wrote : Wrote sb inum (blocksFor s.ip.size) off src s s') (inside : off ≤ s.ip.size)
    (fits : off + src.length ≤ MAXFILE * BSIZE) (grows : s.ip.size < off + src.length) :
    Written sb inum off src s
      (s'.flush sb inum { s'.ip with size := off + src.length }) := by
  have larger : blocksFor s.ip.size ≤ blocksFor (off + src.length) := by
    rw [blocksFor_le]
    have covered := blocksFor_le.mp (le_refl (blocksFor (off + src.length)))
    omega
  have inv := wrote.inv
  rw [Nat.max_eq_right larger] at inv
  have limit : MAXFILE * BSIZE < 2 ^ 32 := by decide
  have wf : ({ s'.ip with size := off + src.length } : Dinode).Wf :=
    ⟨inv.wf.type, inv.wf.major, inv.wf.minor, inv.wf.nlink, by change off + src.length < _; omega,
      inv.wf.addrs⟩
  have after : (s'.flush sb inum { s'.ip with size := off + src.length }).AtRest sb inum :=
    ⟨flush_inv inv wf rfl rfl, Disk.dinode_setDinode_self _ _ _ wf⟩
  have keeps := wrote.keeps.trans
    (flush_keeps (d := { s'.ip with size := off + src.length }) inv.base rfl inv.allocated)
  have size : max s.ip.size (off + src.length) = off + src.length := Nat.max_eq_right (by omega)
  refine ⟨after, ?_, ?_, keeps.dinode, keeps.slots, ?_⟩
  · rw [size]
    change { s'.ip with size := off + src.length } = _
    rw [wrote.ip]
    rfl
  · rw [after.bytes_eq, rest.bytes_eq, ← Area.slice_patch_grow _ _ inside, size]
    refine Area.slice_congr _ ?_
    intro pos _ bounded
    rw [Nat.zero_add] at bounded
    change pos < off + src.length at bounded
    have known : pos / BSIZE < blocksFor s.ip.size ∨ (off ≤ pos ∧ pos < off + src.length) := by
      by_cases old : pos < off
      · exact Or.inl (div_lt_blocksFor (by omega))
      · exact Or.inr ⟨by omega, bounded⟩
    rw [← wrote.content pos known]
    have present := div_lt_blocksFor bounded
    have slots := flush_slots (d := { s'.ip with size := off + src.length }) inv.base rfl
      inv.allocated (inum, blockSlot (pos / BSIZE))
    unfold Locked.content
    rw [slots, flush_held inv.base (inv.holds present)]
  · intro i different isInode allocated file
    exact keeps.bytes rest after different isInode allocated file

/-- The end of `writei`, when the bytes lie inside the file. -/
theorem Wrote.within (rest : s.AtRest sb inum)
    (wrote : Wrote sb inum (blocksFor s.ip.size) off src s s') (inside : off ≤ s.ip.size)
    (within : off + src.length ≤ s.ip.size) : Written sb inum off src s s' := by
  have covered := blocksFor_le.mp (le_refl (blocksFor s.ip.size))
  have sameIp : s'.ip = s.ip := wrote.same (by omega)
  have fewer : blocksFor (off + src.length) ≤ blocksFor s.ip.size := by
    rw [blocksFor_le]
    omega
  have inv := wrote.inv
  rw [Nat.max_eq_left fewer] at inv
  have after : s'.AtRest sb inum := by
    refine ⟨?_, ?_⟩
    · rw [sameIp]
      exact inv
    · rw [wrote.dinode, rest.copy, sameIp]
  have size : max s.ip.size (off + src.length) = s.ip.size := Nat.max_eq_left within
  refine ⟨after, ?_, ?_, wrote.keeps.dinode, wrote.keeps.slots, ?_⟩
  · rw [size, sameIp]
  · rw [after.bytes_eq, rest.bytes_eq, ← Area.slice_patch_grow _ _ inside, size, sameIp]
    refine Area.slice_congr _ ?_
    intro pos _ bounded
    exact wrote.content pos (Or.inl (div_lt_blocksFor (by omega)))
  · intro i different isInode allocated file
    exact wrote.keeps.bytes rest after different isInode allocated file

theorem writei_device {devsw : Devsw} {r : Int} (device : s.ip.type = T_DEV)
    (ran : writei sb devsw inum off src s = .ok (r, s')) : s' = s := by
  unfold writei at ran
  rw [bind_ok rfl, if_pos device] at ran
  by_cases large : NDEV ≤ s.ip.major
  · rw [if_pos large] at ran
    exact (pure_eq_ok.mp ran).2.symm
  · rw [if_neg large] at ran
    cases driver : devsw.write s.ip.major with
    | none =>
      rw [driver] at ran
      exact (pure_eq_ok.mp ran).2.symm
    | some write =>
      rw [driver] at ran
      exact (pure_eq_ok.mp ran).2.symm

/-- The blocks that `writei` takes. -/
def writeCost (s : Locked) (off n : Nat) : Nat :=
  if off ≤ s.ip.size ∧ off + n ≤ MAXFILE * BSIZE then
    charge (max (blocksFor s.ip.size) (blocksFor (off + n))) - charge (blocksFor s.ip.size)
  else 0

/-- `writei` fails only if the offset lies behind the end or the file would become too large,
and then changes nothing. -/
theorem writei_takes (devsw : Devsw) (rest : s.AtRest sb inum) (smallOff : off < 2 ^ 32)
    (small : src.length < 2 ^ 32) :
    Takes sb (writei sb devsw inum off src) s (s.writeCost off src.length) (fun r s' =>
      (r = -1 ∧ s' = s ∧ (s.ip.size < off ∨ MAXFILE * BSIZE < off + src.length)) ∨
      (r = src.length ∧ off ≤ s.ip.size ∧ off + src.length ≤ MAXFILE * BSIZE ∧
        Written sb inum off src s s')) := by
  have size := rest.size_le
  have limit : MAXFILE * BSIZE + MAXFILE * BSIZE < 2 ^ 32 := by decide
  unfold writei writeCost
  apply Takes.after rfl rfl
  rw [if_neg rest.inv.file]
  by_cases behind : s.ip.size < off
  · rw [if_pos (Or.inl behind), if_neg (by omega)]
    exact Takes.of_pure (Or.inl ⟨rfl, rfl, Or.inl behind⟩)
  · by_cases wraps : 2 ^ 32 ≤ off + src.length
    · have rest32 : (off + src.length) % 2 ^ 32 = off + src.length - 2 ^ 32 := by omega
      rw [if_pos (Or.inr (by rw [rest32]; omega)), if_neg (by omega)]
      exact Takes.of_pure (Or.inl ⟨rfl, rfl, Or.inr (by omega)⟩)
    · have whole : (off + src.length) % 2 ^ 32 = off + src.length := Nat.mod_eq_of_lt (by omega)
      rw [whole, if_neg (by omega)]
      by_cases large : MAXFILE * BSIZE < off + src.length
      · rw [if_pos large, if_neg (by omega)]
        exact Takes.of_pure (Or.inl ⟨rfl, rfl, Or.inr large⟩)
      · have inside : off ≤ s.ip.size := not_lt.mp behind
        have covered := blocksFor_le.mp (le_refl (blocksFor s.ip.size))
        rw [if_neg large, if_pos ⟨inside, not_lt.mp large⟩]
        apply Takes.bind (Nat.add_zero _).symm
          (writeBlocks_takes src.length rest.inv (le_refl _) (by omega) (not_lt.mp large))
        rintro off' s₁ ⟨rfl, wrote⟩
        apply Takes.after rfl rfl
        have oldSize : s₁.ip.size = s.ip.size := by rw [wrote.ip]
        by_cases grows : 0 < src.length ∧ s.ip.size < off + src.length
        · rw [if_pos (by rw [oldSize]; exact grows)]
          have grown : Written sb inum off src s
              (s₁.flush sb inum { s₁.ip with size := off + src.length }) :=
            wrote.grown rest inside (not_lt.mp large) grows.2
          exact Ends.of_ok rfl
            ⟨Disk.free_congr (fun c _ => flush_used wrote.inv.base c),
              Or.inr ⟨rfl, inside, not_lt.mp large, grown⟩⟩
        · rw [if_neg (by rw [oldSize]; exact grows)]
          exact Takes.of_pure
            (Or.inr ⟨rfl, inside, not_lt.mp large, wrote.within rest inside (by omega)⟩)

theorem writei_ends (devsw : Devsw) (rest : s.AtRest sb inum) (smallOff : off < 2 ^ 32)
    (small : src.length < 2 ^ 32) :
    (writei sb devsw inum off src).Ends s Full (fun r s' =>
      (r = -1 ∧ s' = s ∧ (s.ip.size < off ∨ MAXFILE * BSIZE < off + src.length)) ∨
      (r = src.length ∧ off ≤ s.ip.size ∧ off + src.length ≤ MAXFILE * BSIZE ∧
        Written sb inum off src s s')) :=
  (writei_takes devsw rest smallOff small).ends

end Locked

end Xv6.Fs
