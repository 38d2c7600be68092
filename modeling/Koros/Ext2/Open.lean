import Koros.Ext2.Mount

/-!
# Opening an image

`SuperBlock::from_raw` of `kor-ext2/src/super_block.rs` and `Ext2Fs::open` of `kor-ext2/src/lib.rs`: the superblock is read
from byte 1024 of the device and checked, and the group descriptors are read from the block after it. `Accepted` is what
the checks of `from_raw` guarantee (`fromRaw_accepted`), and what every open filesystem has (`openImage_accepted`).
-/
set_option autoImplicit false

namespace Koros.Ext2

open Koros.Lib

/-! ## The superblock on disk -/

def EXT2_MAGIC : Nat := 0xEF53
def INCOMPAT_FILETYPE : Nat := 0x0002
def SUPPORTED_INCOMPAT : Nat := INCOMPAT_FILETYPE
def RO_COMPAT_SPARSE_SUPER : Nat := 0x0001
def RO_COMPAT_LARGE_FILE : Nat := 0x0002
def SUPPORTED_RO_COMPAT : Nat := RO_COMPAT_SPARSE_SUPER ||| RO_COMPAT_LARGE_FILE
def EXT2_GOOD_OLD_INODE_SIZE : Nat := 128
def MAX_LOG_BLOCK_SIZE : Nat := 6

/-- The bytes of a superblock on disk. -/
structure RawSuperBlock where
  bytes : Bytes

namespace RawSuperBlock

variable (raw : RawSuperBlock)

def inodesCount : Nat := leNat raw.bytes 0 4
def blocksCount : Nat := leNat raw.bytes 4 4
def freeBlocksCount : Nat := leNat raw.bytes 12 4
def freeInodesCount : Nat := leNat raw.bytes 16 4
def firstDataBlock : Nat := leNat raw.bytes 20 4
def logBlockSize : Nat := leNat raw.bytes 24 4
def blocksPerGroup : Nat := leNat raw.bytes 32 4
def inodesPerGroup : Nat := leNat raw.bytes 40 4
def mntCount : Nat := leNat raw.bytes 52 2
def magic : Nat := leNat raw.bytes 56 2
def state : Nat := leNat raw.bytes 58 2
def revLevel : Nat := leNat raw.bytes 76 4
def inodeSize : Nat := leNat raw.bytes 88 2
def featureIncompat : Nat := leNat raw.bytes 96 4
def featureRoCompat : Nat := leNat raw.bytes 100 4

/-- Revision 0 has inodes of a fixed size. -/
def effectiveInodeSize : Nat :=
  if raw.revLevel = 0 then EXT2_GOOD_OLD_INODE_SIZE
  else if raw.inodeSize = 0 then EXT2_GOOD_OLD_INODE_SIZE
  else raw.inodeSize

end RawSuperBlock

/-- `n.is_power_of_two()`. -/
def isPowerOfTwo (n : Nat) : Bool := decide (n = 2 ^ n.log2)

def SuperBlock.fromRaw (raw : RawSuperBlock) : Except FsError SuperBlock :=
  if raw.magic ≠ EXT2_MAGIC then .error .invalidInput
  else if raw.logBlockSize > MAX_LOG_BLOCK_SIZE ∨ raw.blocksPerGroup = 0 ∨ raw.inodesPerGroup = 0 ∨
      raw.blocksCount = 0 ∨ raw.inodesCount = 0 then .error .invalidInput
  else if raw.effectiveInodeSize < EXT2_GOOD_OLD_INODE_SIZE ∨ !isPowerOfTwo raw.effectiveInodeSize ∨
      raw.effectiveInodeSize > 1024 <<< raw.logBlockSize then .error .invalidInput
  else .ok {
    inodesCount := raw.inodesCount
    blocksCount := raw.blocksCount
    freeBlocksCount := raw.freeBlocksCount
    freeInodesCount := raw.freeInodesCount
    firstDataBlock := raw.firstDataBlock
    logBlockSize := raw.logBlockSize
    blocksPerGroup := raw.blocksPerGroup
    inodesPerGroup := raw.inodesPerGroup
    inodeSize := raw.effectiveInodeSize
    featureIncompat := raw.featureIncompat
    featureRoCompat := raw.featureRoCompat }

def SuperBlock.unsupportedIncompat (sb : SuperBlock) : Nat := sb.featureIncompat &&& (0xFFFFFFFF ^^^ SUPPORTED_INCOMPAT)

def SuperBlock.unsupportedRoCompat (sb : SuperBlock) : Nat := sb.featureRoCompat &&& (0xFFFFFFFF ^^^ SUPPORTED_RO_COMPAT)

/-! ## The device -/

structure BlockDevice where
  blockSize : Nat
  blockCount : Nat
  bytes : Bytes

def SUPERBLOCK_OFFSET : Nat := 1024

/-- The device blocks that hold the superblock. -/
def BlockDevice.readSuperBlock (dev : BlockDevice) : Except FsError RawSuperBlock :=
  let sbBlock := SUPERBLOCK_OFFSET / dev.blockSize
  let offsetInBlock := SUPERBLOCK_OFFSET % dev.blockSize
  let blocksNeeded := divCeil (1024 + offsetInBlock) dev.blockSize
  if sbBlock + blocksNeeded ≤ dev.blockCount then .ok ⟨dropBytes dev.bytes SUPERBLOCK_OFFSET⟩ else .error .ioError

/-- Where `open` reads the descriptor table. -/
def loadedBgdtBlock (blockSize : Nat) : Nat := if blockSize = 1024 then 2 else 1

def BlockGroupDescriptor.parse (b : Bytes) : BlockGroupDescriptor :=
  ⟨leNat b 0 4, leNat b 4 4, leNat b 8 4, leNat b 12 2, leNat b 14 2, leNat b 16 2⟩

/-- The bytes of descriptor `g`. -/
def BlockDevice.descriptor (dev : BlockDevice) (blockSize g : Nat) : Bytes :=
  dropBytes dev.bytes (loadedBgdtBlock blockSize * blockSize + 32 * g)

/-- `Ext2Fs::open`: the filesystem, and the fields that only a mount writes. -/
def openImage (dev : BlockDevice) : Except FsError (Ext2Fs × MountState) := do
  let raw ← dev.readSuperBlock
  let sb ← SuperBlock.fromRaw raw
  let blockSize := sb.blockSize
  if blockSize < dev.blockSize ∨ blockSize % dev.blockSize ≠ 0 then throw .invalidInput
  else
    let deviceBlocks := dev.blockCount / (blockSize / dev.blockSize)
    let bgdtBlocks := divCeil (sb.blockGroupCount * 32) blockSize
    if loadedBgdtBlock blockSize + bgdtBlocks > deviceBlocks then throw .ioError
    else if sb.unsupportedIncompat ≠ 0 then throw .invalidInput
    else
      let fs : Ext2Fs := {
        deviceBlocks := deviceBlocks
        superBlock := sb
        blockGroups := (List.range sb.blockGroupCount).map fun g => .parse (dev.descriptor blockSize g)
        readOnly := sb.unsupportedRoCompat ≠ 0
        disk := fun b => dropBytes dev.bytes (b * blockSize)
        inodeCache := fun _ => none }
      return (fs, ⟨raw.revLevel, raw.state, raw.mntCount, dev.descriptor blockSize⟩)

/-! ## What the checks guarantee -/

/-- The geometry of a superblock that `from_raw` accepts. -/
structure SuperBlock.Accepted (sb : SuperBlock) : Prop where
  logBlockSize : sb.logBlockSize ≤ 6
  blocksPerGroup : 0 < sb.blocksPerGroup ∧ sb.blocksPerGroup < 2 ^ 32
  inodesPerGroup : 0 < sb.inodesPerGroup ∧ sb.inodesPerGroup < 2 ^ 32
  blocksCount : 0 < sb.blocksCount ∧ sb.blocksCount < 2 ^ 32
  inodesCount : 0 < sb.inodesCount ∧ sb.inodesCount < 2 ^ 32
  firstDataBlock : sb.firstDataBlock < 2 ^ 32
  inodeSize : 128 ≤ sb.inodeSize ∧ sb.inodeSize ∣ sb.blockSize

/-- Blocks have at most 64 KiB. -/
theorem SuperBlock.Accepted.blockSize_le {sb : SuperBlock} (h : sb.Accepted) : sb.blockSize ≤ 2 ^ 16 := by
  unfold SuperBlock.blockSize
  rw [Nat.shiftLeft_eq]
  exact Nat.mul_le_mul_left 1024 (Nat.pow_le_pow_right (by omega) h.logBlockSize)

/-- An inode of the table lies in one block, whatever its size is. -/
theorem SuperBlock.Accepted.slot_le {sb : SuperBlock} (h : sb.Accepted) (i : Nat) :
    i * sb.inodeSize % sb.blockSize + sb.inodeSize ≤ sb.blockSize := by
  obtain ⟨hmin, k, hk⟩ := h.inodeSize
  have hk₀ : 0 < k := by
    apply Nat.pos_of_ne_zero
    rintro rfl
    have := sb.blockSize_ge
    omega
  have hlt : i % k + 1 ≤ k := Nat.mod_lt i hk₀
  calc i * sb.inodeSize % sb.blockSize + sb.inodeSize = sb.inodeSize * (i % k + 1) := by
        rw [hk, Nat.mul_comm i, Nat.mul_mod_mul_left, Nat.mul_add, Nat.mul_one]
    _ ≤ sb.blockSize := by rw [hk]; exact Nat.mul_le_mul_left _ hlt

theorem isPowerOfTwo_spec {n : Nat} (h : isPowerOfTwo n = true) : ∃ k, n = 2 ^ k := ⟨n.log2, of_decide_eq_true h⟩

/-- A power of two that is at most a block divides the block. -/
theorem dvd_blockSize {n l : Nat} (hpow : isPowerOfTwo n = true) (hle : n ≤ 1024 <<< l) : n ∣ 1024 <<< l := by
  obtain ⟨k, rfl⟩ := isPowerOfTwo_spec hpow
  have hsize : 1024 <<< l = 2 ^ (10 + l) := by rw [Nat.shiftLeft_eq, Nat.pow_add]
  rw [hsize] at hle ⊢
  exact Nat.pow_dvd_pow 2 ((Nat.pow_le_pow_iff_right (by omega)).1 hle)

theorem fromRaw_accepted {raw : RawSuperBlock} {sb : SuperBlock} (h : SuperBlock.fromRaw raw = .ok sb) :
    sb.Accepted := by
  unfold SuperBlock.fromRaw at h
  split at h
  · cases h
  · split at h
    · cases h
    · rename_i hgeometry
      split at h
      · cases h
      · rename_i hinode
        cases h
        have hlt4 : ∀ i, leNat raw.bytes i 4 < 2 ^ 32 := fun i => leNat_lt ..
        simp only [not_or, Nat.not_lt, MAX_LOG_BLOCK_SIZE, gt_iff_lt] at hgeometry
        simp only [not_or, Nat.not_lt, Bool.not_eq_true, Bool.not_eq_false', gt_iff_lt] at hinode
        obtain ⟨hlog, hbpg, hipg, hbc, hic⟩ := hgeometry
        obtain ⟨hmin, hpow, hmax⟩ := hinode
        exact {
          logBlockSize := hlog
          blocksPerGroup := ⟨Nat.pos_of_ne_zero hbpg, hlt4 _⟩
          inodesPerGroup := ⟨Nat.pos_of_ne_zero hipg, hlt4 _⟩
          blocksCount := ⟨Nat.pos_of_ne_zero hbc, hlt4 _⟩
          inodesCount := ⟨Nat.pos_of_ne_zero hic, hlt4 _⟩
          firstDataBlock := hlt4 _
          inodeSize := ⟨hmin, dvd_blockSize hpow hmax⟩ }

/-- An image that opens has a superblock that was accepted, and no inode is in memory. -/
theorem openImage_accepted {dev : BlockDevice} {fs : Ext2Fs} {m : MountState} (h : openImage dev = .ok (fs, m)) :
    fs.superBlock.Accepted ∧ (∀ n, fs.inodeCache n = none) ∧
      fs.readOnly = decide (fs.superBlock.unsupportedRoCompat ≠ 0) := by
  unfold openImage at h
  cases hraw : dev.readSuperBlock with
  | error e =>
    rw [hraw] at h
    cases h
  | ok raw =>
    rw [hraw] at h
    cases hsb : SuperBlock.fromRaw raw with
    | error e =>
      simp only [bind, Except.bind, hsb] at h
      cases h
    | ok sb =>
      simp only [bind, Except.bind, hsb] at h
      split at h
      · cases h
      · split at h
        · cases h
        · split at h
          · cases h
          · cases h
            exact ⟨fromRaw_accepted hsb, fun _ => rfl, rfl⟩

end Koros.Ext2
