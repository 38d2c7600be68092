import Koros.Ext2.Write
import Koros.Ext2.Xattr

/-!
# The slots of the inode tables

An inode is 128 bytes of a slot of its group's table; a block of the table holds several slots, and writing one inode
rewrites the block.

- `inode_slots`: whatever the geometry, writing one inode back or initialising it changes what is read there and nothing
  else, as long as the tables do not overlap.
-/
set_option autoImplicit false

namespace Koros.Ext2

open Koros.Lib

/-- What `init_inode` writes: one link, and zero but for the mode. -/
def initialInode (mode : Nat) : RawInode := ((RawInode.ofBytes fun _ => 0).put 0 2 mode).put 26 2 1

namespace Ext2Fs

/-- The block of an inode's slot is on the device. -/
def OnDevice (fs : Ext2Fs) (n : Nat) : Prop := ∀ b off, fs.tablePlace n = some (b, off) → b < fs.deviceBlocks

end Ext2Fs

/-- After a write of inode `n` it reads as `r`, and every other inode reads as before. -/
structure SlotWritten (n : Nat) (r : RawInode) (fs fs' : Ext2Fs) : Prop where
  own : readInode n fs' = .ok r fs'
  others : ∀ m, m ≠ n → ∀ v, readInode m fs' = .ok v fs' ↔ readInode m fs = .ok v fs

section Slots

variable {fs fs' : Ext2Fs} {n m : Nat} {r : RawInode}

/-- When an inode can be read, and what is read. -/
theorem readInode_iff (hacc : fs.superBlock.Accepted) :
    readInode n fs = .ok r fs ↔ fs.IsSlot n ∧ fs.OnDevice n ∧ r = fs.diskInode n := by
  constructor
  · intro h
    obtain ⟨hslot, hr, -⟩ := readInode_ok h
    refine ⟨hslot, fun b off hplace => ?_, hr⟩
    rw [readInode, get_bind] at h
    obtain ⟨-, h⟩ := ite_fail_ok h
    rw [bind_ok (locateInode_eq hplace)] at h
    exact (readFsBlock_bind_ok h).1
  · rintro ⟨hslot, hdev, rfl⟩
    obtain ⟨b, off, hplace, -, hoff⟩ := slot_place hacc hslot
    have hsize := hacc.inodeSize.1
    rw [readInode, get_bind, if_neg (Nat.pos_iff_ne_zero.1 hslot.1), bind_ok (locateInode_eq hplace)]
    dsimp only
    rw [bind_ok (readFsBlock_eq (hdev _ _ hplace)), if_neg (Nat.not_lt.2 (by omega)), diskInode_eq hplace]
    rfl

/-- A write to a slot. -/
theorem slotWritten_of_setDisk (hacc : fs.superBlock.Accepted) (hapart : fs.TablesApart) (hn : fs.IsSlot n)
    {b off len : Nat} {buf : Bytes} (hplace : fs.tablePlace n = some (b, off)) (hlt : b < fs.deviceBlocks)
    (hlen : len ≤ fs.superBlock.inodeSize) (hbuf : ∀ j, j < off ∨ off + len ≤ j → buf j = fs.disk b j)
    (hr : RawInode.ofBytes (dropBytes buf off) = r) : SlotWritten n r fs (fs.setDisk b buf) := by
  have hacc' : (fs.setDisk b buf).superBlock.Accepted := hacc
  refine ⟨?_, fun m hm v => ?_⟩
  · refine (readInode_iff hacc').2 ⟨hn, fun b' off' hplace' => ?_, ?_⟩
    · have hplace₀ : fs.tablePlace n = some (b', off') := hplace'
      rw [hplace, Option.some.injEq, Prod.mk.injEq] at hplace₀
      rw [← hplace₀.1]
      exact hlt
    · rw [diskInode_eq (show (fs.setDisk b buf).tablePlace n = some (b, off) from hplace), disk_setDisk_self, hr]
  · rw [readInode_iff hacc, readInode_iff hacc']
    refine ⟨fun ⟨hs, hd, hv⟩ => ⟨hs, hd, ?_⟩, fun ⟨hs, hd, hv⟩ => ⟨hs, hd, ?_⟩⟩
    · rw [hv]
      exact diskInode_write hacc hapart hn hplace hlen hbuf hm hs
    · rw [hv]
      exact (diskInode_write hacc hapart hn hplace hlen hbuf hm hs).symm

/-- `write_inode_to_disk` writes the inode in memory. -/
theorem writeInodeToDisk_slot (hacc : fs.superBlock.Accepted) (hapart : fs.TablesApart) (hn : fs.IsSlot n)
    (hr : fs.inodeCache n = some r) {u : PUnit} (hw : writeInodeToDisk n fs = .ok u fs') : SlotWritten n r fs fs' := by
  obtain ⟨r', hr', hw⟩ := raw_bind_ok hw
  obtain rfl : r = r' := Option.some.inj (hr.symm.trans hr')
  rw [get_bind] at hw
  obtain ⟨b, off, hplace, hw⟩ := locateInode_bind_ok hw
  obtain ⟨hlt, hw⟩ := readFsBlock_bind_ok hw
  obtain ⟨-, hw⟩ := ite_panic_ok hw
  obtain ⟨-, -, rfl⟩ := writeFsBlock_ok hw
  exact slotWritten_of_setDisk hacc hapart hn hplace hlt hacc.inodeSize.1 (fun j hj => blit_of_outside hj)
    (r.ofBytes_blit _ off)

/-- The first bytes of a slot after `init_inode`. -/
theorem ofBytes_init (d : Bytes) {off size : Nat} (mode : Nat) (hsize : 128 ≤ size) :
    RawInode.ofBytes (dropBytes (putLe (putLe (blit d off size fun _ => 0) off 2 mode) (off + 26) 2 1) off) =
      initialInode mode := by
  apply RawInode.ext
  funext j
  by_cases hj : j < 128
  · simp only [initialInode, RawInode.put, RawInode.ofBytes, dropBytes, putLe, if_pos hj]
    by_cases hlink : 26 ≤ j ∧ j < 28
    · rw [blit_of_inside (by omega) (by omega), blit_of_inside (by omega) (by omega),
        show off + j - (off + 26) = j - 26 by omega]
    · by_cases hmode : j < 2
      · have hleft : blit (blit (blit d off size fun _ => 0) off 2 (toLe mode)) (off + 26) 2 (toLe 1) (off + j) =
            toLe mode j := by
          rw [blit_of_outside (by omega), blit_of_inside (by omega) (by omega), Nat.add_sub_cancel_left]
        rw [hleft, blit_of_outside (by omega), if_pos hj, blit_of_inside (by omega) (by omega), Nat.sub_zero]
      · have hleft : blit (blit (blit d off size fun _ => 0) off 2 (toLe mode)) (off + 26) 2 (toLe 1) (off + j) = 0 := by
          rw [blit_of_outside (by omega), blit_of_outside (by omega), blit_of_inside (by omega) (by omega)]
        rw [hleft, blit_of_outside (by omega), if_pos hj, blit_of_outside (by omega), if_pos hj]
  · rw [RawInode.tail _ j (by omega), RawInode.tail _ j (by omega)]

/-- `init_inode` writes the initial inode. -/
theorem initInode_slot (hacc : fs.superBlock.Accepted) (hapart : fs.TablesApart) (hn : fs.IsSlot n) {mode : Nat}
    {u : PUnit} (hw : initInode n mode fs = .ok u fs') : SlotWritten n (initialInode mode) fs fs' := by
  rw [initInode, get_bind] at hw
  obtain ⟨-, hw⟩ := ite_fail_ok hw
  obtain ⟨b, off, hplace, hw⟩ := locateInode_bind_ok hw
  obtain ⟨hlt, hw⟩ := readFsBlock_bind_ok hw
  obtain ⟨-, hw⟩ := ite_panic_ok hw
  obtain ⟨-, -, rfl⟩ := writeFsBlock_ok hw
  have hsize := hacc.inodeSize.1
  refine slotWritten_of_setDisk hacc hapart hn hplace hlt (Nat.le_refl _) (fun j hj => ?_) (ofBytes_init _ mode hsize)
  simp only [putLe]
  rw [blit_of_outside (by omega), blit_of_outside (by omega), blit_of_outside (by omega)]

/-- Both writes succeed on a writable mount. -/
theorem slot_writable (hacc : fs.superBlock.Accepted) (hn : fs.IsSlot n) (hdev : fs.OnDevice n)
    (hro : fs.readOnly = false) : (∀ r, fs.inodeCache n = some r → ∃ fs', writeInodeToDisk n fs = .ok ⟨⟩ fs') ∧
      ∀ mode, ∃ fs', initInode n mode fs = .ok ⟨⟩ fs' := by
  obtain ⟨b, off, hplace, -, hoff⟩ := slot_place hacc hn
  have hlt := hdev b off hplace
  have hsize := hacc.inodeSize.1
  refine ⟨fun r hr => ⟨_, writeInodeToDisk_at hplace hlt (by omega) hro hr⟩, fun mode => ?_⟩
  rw [initInode, get_bind, if_neg (Nat.pos_iff_ne_zero.1 hn.1), bind_ok (locateInode_eq hplace)]
  dsimp only
  rw [bind_ok (readFsBlock_eq hlt), if_neg (Nat.not_lt.2 hoff)]
  exact ⟨_, writeFsBlock_eq hro hlt _⟩

/-- **Inode slots**: whatever the geometry that `open` accepts, as long as the inode tables do not overlap, writing an
inode back and initialising it succeed on a writable mount if its slot is on the device; after either, the inode reads as
it was written, and every other one as before. -/
theorem inode_slots (hacc : fs.superBlock.Accepted) (hapart : fs.TablesApart) (hn : fs.IsSlot n) :
    (∀ r, fs.inodeCache n = some r → (fs.OnDevice n → fs.readOnly = false → ∃ fs', writeInodeToDisk n fs = .ok ⟨⟩ fs') ∧
      ∀ u fs', writeInodeToDisk n fs = .ok u fs' → SlotWritten n r fs fs') ∧
    ∀ mode, (fs.OnDevice n → fs.readOnly = false → ∃ fs', initInode n mode fs = .ok ⟨⟩ fs') ∧
      ∀ u fs', initInode n mode fs = .ok u fs' → SlotWritten n (initialInode mode) fs fs' :=
  ⟨fun r hr => ⟨fun hdev hro => (slot_writable hacc hn hdev hro).1 r hr,
      fun _ _ hw => writeInodeToDisk_slot hacc hapart hn hr hw⟩,
    fun mode => ⟨fun hdev hro => (slot_writable hacc hn hdev hro).2 mode, fun _ _ hw => initInode_slot hacc hapart hn hw⟩⟩

end Slots

/-- The inodes 1 and 2 share a block, and inode 2 is initialised. -/
theorem inode_slots_fileImage : ∃ fs', initInode 2 0x81A4 fileImage = .ok ⟨⟩ fs' ∧
    readInode 2 fs' = .ok (initialInode 0x81A4) fs' ∧ ∀ v, readInode 1 fs' = .ok v fs' ↔ readInode 1 fileImage = .ok v fileImage := by
  have hslots := (inode_slots fileImage_placed.accepted fileImage_placed.apart
    (show fileImage.IsSlot 2 by decide)).2 0x81A4
  have hdev : fileImage.OnDevice 2 := by
    intro b off hplace
    obtain ⟨b', off', hplace', htable, -⟩ := tablePlace_spec fileImage_placed (show fileImage.IsSlot 2 by decide)
    rw [hplace, Option.some.injEq, Prod.mk.injEq] at hplace'
    rw [hplace'.1]
    exact (fileImage_placed.tables b' htable).1
  obtain ⟨fs', hinit⟩ := hslots.1 hdev rfl
  have hw := hslots.2 ⟨⟩ fs' hinit
  exact ⟨fs', hinit, hw.own, hw.others 1 (by decide)⟩

end Koros.Ext2
