import Koros.Ext2.Stop

/-!
# A write that runs out of space

`NoSpace` comes from `alloc_block_goal` when no block is free. If a block was free when `write_at` began, it has been taken by
then, and nothing gives it back: it hangs in the tree of the file, which `i_blocks` does not count, or it hangs nowhere.

- `noSpace_spoils`: some of what the file and the bitmaps are to keep is lost if a block was free;
- `noSpace_harmless`: if none was, the call has only overwritten blocks of its range;
- `noSpace_leaks_nothing_iff`: the two together.
-/
set_option autoImplicit false

namespace Koros.Ext2

open Koros.Lib Xattr

/-- `i_blocks` of inode `n` counts the blocks of its trees and its attribute block. -/
def Ext2Fs.CountsBlocks (fs : Ext2Fs) (n : Nat) : Prop := (fs.inode n).blocks = fs.blockCount n * fs.sectors

/-- Every block in use is an inode's or metadata, `i_blocks` of inode `n` is right, and its bytes are the same outside a
range. -/
structure LeaksNothing (n offset len : Nat) (fs fs' : Ext2Fs) : Prop where
  reachable : ∀ b, fs'.Allocated .block b → fs'.Refers b ∨ fs'.IsMetadata b
  counts : fs'.CountsBlocks n
  outside : ∀ j, j < offset ∨ offset + len ≤ j → fs'.content n j = fs.content n j

section NoSpace

variable {fs fs' : Ext2Fs} {P : Nat → Prop} {n k : Nat} {r : RawInode}

/-- New blocks are not counted yet. -/
theorem Extended.countsBlocks_iff (h : Extended n k fs fs') (hr : fs.inodeCache n = some r) (hcounts : fs.CountsBlocks n) :
    fs'.CountsBlocks n ↔ k = 0 := by
  obtain ⟨r', hr', hsame⟩ := h.fields r hr
  have hpos : 0 < fs.sectors := by
    have : 1024 ≤ fs.blockSize := fs.superBlock.blockSize_ge
    show 0 < fs.blockSize / 512
    omega
  have hacl : fs'.acl n = fs.acl n := by
    refine if_congr (iff_of_eq (congrFun h.layout.isSlot n)) ?_ rfl
    rw [inode_of_cached hr, inode_of_cached hr', hsame.fileAcl]
  have hcount : fs'.blockCount n = fs.blockCount n + k := by
    rw [Ext2Fs.blockCount, Ext2Fs.blockCount, h.size, hacl]
    omega
  unfold Ext2Fs.CountsBlocks at hcounts ⊢
  rw [inode_of_cached hr', hsame.blocks, ← inode_of_cached hr, hcounts, hcount, h.layout.sectors, Nat.add_mul]
  constructor
  · intro heq
    have hzero : k * fs.sectors = 0 := by omega
    exact (Nat.mul_eq_zero.1 hzero).resolve_right (by omega)
  · rintro rfl
    omega

/-- Blocks that are held back are in use and out of reach. -/
theorem Ext2Fs.Sound.reachable_iff (h : fs.Sound P) :
    (∀ b, fs.Allocated .block b → fs.Refers b ∨ fs.IsMetadata b) ↔ ∀ b, ¬ P b := by
  constructor
  · intro hall b hb
    obtain ⟨hdata, hno⟩ := h.pending b hb
    rcases hall b ((h.used b hdata).2 (.inr hb)) with href | hmeta
    · exact hno href
    · exact hdata.2 hmeta
  · intro hnone b hb
    by_cases hmeta : fs.IsMetadata b
    · exact .inr hmeta
    · exact .inl (((h.used b ⟨hb.1, hmeta⟩).1 hb).resolve_right (hnone b))

variable (h : fs.Sound fun _ => False) (hc : fs.Consistent) (hr : fs.inodeCache n = some r) (hreg : r.fmt = EXT2_S_IFREG)
  (hcounts : fs.CountsBlocks n) {offset len : Nat} {buf : Bytes}
  (hrun : writeAtLocked n offset buf len fs = .error (.err .noSpace) fs')

include h hc hr hreg hrun

/-- What is left: blocks in the tree, at most one block that is lost, and no free block. -/
theorem noSpace_broken : ∃ P' k d, Holding (fun _ => False) d P' ∧ Touches P' n k d (Covered fs.blockSize offset len) fs fs' ∧
    fs.superBlock.freeBlocksCount = k + d := by
  obtain ⟨⟨-, hfull⟩, P', k, d, hhold, htouch⟩ := (writeAtLocked_ends h hc hr (.inl hreg) offset len buf).of_error hrun
  refine ⟨P', k, d, hhold, htouch, ?_⟩
  rw [htouch.spent.free, hfull rfl, Nat.zero_add]

include hcounts

/-- **A block was free**, and is lost for the file. -/
theorem noSpace_spoils (hfree : fs.superBlock.freeBlocksCount ≠ 0) : ¬ LeaksNothing n offset len fs fs' := by
  obtain ⟨P', k, d, hhold, htouch, hcount⟩ := noSpace_broken h hc hr hreg hrun
  intro hleaks
  have hk := (htouch.extended.countsBlocks_iff hr hcounts).1 hleaks.counts
  rcases hhold with ⟨hd, -⟩ | ⟨-, b, -, rfl⟩
  · omega
  · exact htouch.sound.reachable_iff.1 hleaks.reachable b (.inr rfl)

/-- **No block was free**, and nothing was taken. -/
theorem noSpace_harmless (hfree : fs.superBlock.freeBlocksCount = 0) (hend : offset + len ≤ 2 ^ 32 * fs.blockSize) :
    LeaksNothing n offset len fs fs' := by
  obtain ⟨P', k, d, hhold, htouch, hcount⟩ := noSpace_broken h hc hr hreg hrun
  refine ⟨?_, ?_, fun j hj => htouch.outside j ?_⟩
  · rcases hhold with ⟨-, rfl⟩ | ⟨hd, -⟩
    · exact htouch.sound.reachable_iff.2 fun _ => id
    · omega
  · exact (htouch.extended.countsBlocks_iff hr hcounts).2 (by omega)
  · rintro ⟨i, hi, rfl⟩
    rw [Nat.mod_eq_of_lt (by omega)] at hj
    omega

/-- **Running out of space**: all is well if no block was free when the call began, as far as the indices of the blocks do not
wrap around, and never if one was. -/
theorem noSpace_leaks_nothing_iff :
    (LeaksNothing n offset len fs fs' → ∀ b, fs.superBlock.InRange .block b → fs.Allocated .block b) ∧
      ((∀ b, fs.superBlock.InRange .block b → fs.Allocated .block b) → offset + len ≤ 2 ^ 32 * fs.blockSize →
        LeaksNothing n offset len fs fs') := by
  rw [← free_eq_zero_iff hc]
  exact ⟨fun hleaks => not_not.1 fun hfree => noSpace_spoils h hc hr hreg hcounts hrun hfree hleaks,
    noSpace_harmless h hc hr hreg hcounts hrun⟩

end NoSpace

/-! ## Images -/

theorem fileImage_consistent : fileImage.Consistent where
  toGeometry := fileImage_placed.geometry
  group := by
    rintro k (_ | g) bg hg
    · obtain rfl := Option.some.inj hg
      cases k <;> decide
    · cases hg
  total := fun k => by cases k <;> decide

/-- An empty regular file. -/
def emptyFile : RawInode := RawInode.ofBytes fun j => if j = 1 then 0x80 else 0

/-- The image with a second file. -/
def twoFiles : Ext2Fs := fileImage.setInode 2 (some emptyFile)

theorem twoFiles_spec : (twoFiles.Sound fun _ => False) ∧ twoFiles.Consistent ∧ twoFiles.CountsBlocks 2 := by
  obtain ⟨hs, hcount⟩ := fileImage_with (n := 2) (r := emptyFile) (by decide) fun j hj => by
    show (if j < 128 then (if j = 1 then _ else 0) else 0) = (0 : Byte)
    simp [show j ≠ 1 by omega]
  refine ⟨hs, consistent_withCache fileImage_consistent _, ?_⟩
  rw [Ext2Fs.CountsBlocks, show twoFiles.blockCount 2 = 0 from hcount, Nat.zero_mul]
  decide

/-- The first file has taken blocks, and the second one is as it was. -/
theorem twoFiles_filled {len count : Nat} {fs : Ext2Fs} (hlen : 0 < len) (hend : len ≤ 2 ^ 32 * 1024)
    (hrun : writeAtLocked 1 0 (fun _ => 7) len twoFiles = .ok count fs) :
    (fs.Sound fun _ => False) ∧ fs.Consistent ∧ fs.inodeCache 2 = some emptyFile ∧ fs.CountsBlocks 2 ∧
      fs.blockSize = 1024 := by
  obtain ⟨hs, hc, hcounts⟩ := twoFiles_spec
  have hr : twoFiles.inodeCache 1 = some emptyFile := rfl
  obtain ⟨⟨k, fs₁, hwrote, hkept⟩, -⟩ := writeAtLocked_ok hs hr (.inl (by decide)) hlen (by rw [Nat.zero_add]; exact hend) hrun
  have hstep := hwrote.extended.toStep.trans hkept.step
  refine ⟨hkept.sound, ((writeAtLocked_ends hs hc hr (.inl (by decide)) 0 len _).of_ok hrun).1, ?_, ?_, hstep.layout.blockSize⟩
  · exact (hstep.cache 2 (by decide)).trans rfl
  · rw [Ext2Fs.CountsBlocks, hstep.inode (by decide) (by decide), hstep.blockCount (by decide), hstep.layout.sectors]
    exact hcounts

/-- All blocks are taken before the second file gets its first one. -/
theorem noSpace_leaks_nothing_twoFiles : ∃ fs fs' : Ext2Fs,
    writeAtLocked 2 0 (fun _ => 7) 4 fs = .error (.err .noSpace) fs' ∧ LeaksNothing 2 0 4 fs fs' := by
  obtain ⟨count, fs, hfill, hp⟩ := exists_of_endsIn (writeAtLocked 1 0 (fun _ => 7) 10240) twoFiles
    (p := fun _ fs => decide (fs.superBlock.freeBlocksCount = 0) &&
      failsIn (.err .noSpace) (fun _ => true) (writeAtLocked 2 0 (fun _ => 7) 4 fs)) (by decide +kernel)
  obtain ⟨hfree, hp⟩ := Bool.and_eq_true_iff.1 hp
  obtain ⟨fs', hrun, -⟩ := exists_of_failsIn _ _ hp
  obtain ⟨hs, hc, hr, hcounts, hbs⟩ := twoFiles_filled (by decide) (by decide) hfill
  exact ⟨fs, fs', hrun, (noSpace_leaks_nothing_iff hs hc hr (by decide) hcounts hrun).2
    ((free_eq_zero_iff hc).1 (of_decide_eq_true hfree)) (by rw [hbs]; decide)⟩

/-- One block is free, and the second file writes behind its direct blocks: the block is taken for the data, and there is none
for the indirect block. -/
theorem noSpace_leaks_block : ∃ fs fs' : Ext2Fs, (fs.Sound fun _ => False) ∧ fs.Consistent ∧
    fs.inodeCache 2 = some emptyFile ∧ fs.CountsBlocks 2 ∧
    writeAtLocked 2 12288 (fun _ => 7) 4 fs = .error (.err .noSpace) fs' ∧ ¬ LeaksNothing 2 12288 4 fs fs' := by
  obtain ⟨count, fs, hfill, hp⟩ := exists_of_endsIn (writeAtLocked 1 0 (fun _ => 7) 9216) twoFiles
    (p := fun _ fs => decide (fs.superBlock.freeBlocksCount = 1) &&
      failsIn (.err .noSpace) (fun _ => true) (writeAtLocked 2 12288 (fun _ => 7) 4 fs)) (by decide +kernel)
  obtain ⟨hfree, hp⟩ := Bool.and_eq_true_iff.1 hp
  obtain ⟨fs', hrun, -⟩ := exists_of_failsIn _ _ hp
  obtain ⟨hs, hc, hr, hcounts, -⟩ := twoFiles_filled (by decide) (by decide) hfill
  refine ⟨fs, fs', hs, hc, hr, hcounts, hrun, noSpace_spoils hs hc hr (by decide) hcounts hrun ?_⟩
  rw [of_decide_eq_true hfree]
  decide

end Koros.Ext2
