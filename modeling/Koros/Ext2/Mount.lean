import Koros.Ext2.Ops

/-!
# Writing the counters back

`impl SuperBlock for Ext2Fs` of `kor-ext2/src/lib.rs`: `sync`, `on_mount` and `on_unmount` write the superblock and the
group descriptors to their primary place and to every backup. The block cache is part of `disk` here, so its own `sync`
changes nothing that a call sees.
-/
set_option autoImplicit false

namespace Koros.Ext2

open Koros.Lib

def EXT2_VALID_FS : Nat := 0x0001

/-- The fields of the superblock that only a mount writes, and the bytes of each group descriptor that nothing uses. -/
structure MountState where
  revLevel : Nat
  state : Nat
  mntCount : Nat
  groupTail : (group : Nat) → Bytes

def hasSparseSuper (sb : SuperBlock) : Bool := sb.featureRoCompat &&& 0x0001 ≠ 0

/-- Whether a number is a power of `base`; `fuel` bounds the divisions. -/
def isPowerOf (base : Nat) : (fuel n : Nat) → Bool
  | 0, n => n = 1
  | fuel + 1, n => if n ≠ 0 ∧ n % base = 0 then isPowerOf base fuel (n / base) else n = 1

def groupHasSuperBackup (group : Nat) : Bool :=
  group ≤ 1 || isPowerOf 3 32 group || isPowerOf 5 32 group || isPowerOf 7 32 group

/-- The groups that keep a copy of the superblock and the descriptors, the first one apart. -/
def backupGroups (sb : SuperBlock) : List Nat :=
  (List.range' 1 (sb.blockGroupCount - 1)).filter fun g => !hasSparseSuper sb || groupHasSuperBackup g

/-- The first block of a group. -/
def groupBlock (sb : SuperBlock) (g : Nat) : Nat := (sb.firstDataBlock + g * sb.blocksPerGroup) % 2 ^ 32

/-! ## The superblock -/

/-- `patch_into` the superblock image at `off`. -/
def patchInto (sb : SuperBlock) (m : MountState) (buf : Bytes) (off blockGroupNr wtime : Nat) : Bytes :=
  let buf := putLe buf (off + 12) 4 sb.freeBlocksCount
  let buf := putLe buf (off + 16) 4 sb.freeInodesCount
  let buf := putLe buf (off + 52) 2 m.mntCount
  let buf := putLe buf (off + 48) 4 wtime
  let buf := putLe buf (off + 58) 2 m.state
  if m.revLevel > 0 then putLe buf (off + 90) 2 blockGroupNr else buf

def patchSuperBlockCopy (m : MountState) (fsBlock off groupNr : Nat) : FsM Unit := do
  let buf ← readFsBlock fsBlock
  writeFsBlock fsBlock (patchInto (← get).superBlock m buf off groupNr 0)

def writeSuperBlock (m : MountState) : FsM Unit := do
  let fs ← get
  if fs.readOnly then return
  else
    if fs.blockSize = 1024 then patchSuperBlockCopy m 1 0 0 else patchSuperBlockCopy m 0 1024 0
    (backupGroups fs.superBlock).forM fun g => patchSuperBlockCopy m (groupBlock fs.superBlock g) 0 (g % 2 ^ 16)

/-! ## The group descriptors -/

/-- The 32 bytes of a descriptor. -/
def BlockGroupDescriptor.bytes (bg : BlockGroupDescriptor) (tail : Bytes) : Bytes :=
  let b := putLe tail 0 4 bg.blockBitmap
  let b := putLe b 4 4 bg.inodeBitmap
  let b := putLe b 8 4 bg.inodeTable
  let b := putLe b 12 2 bg.freeBlocksCount
  let b := putLe b 14 2 bg.freeInodesCount
  putLe b 16 2 bg.usedDirsCount

/-- Block `i` of the descriptor table over `old`, whose padding stays. -/
def bgdtBlock (fs : Ext2Fs) (m : MountState) (i : Nat) (old : Bytes) : Bytes := fun j =>
  let g := (i * fs.blockSize + j) / 32
  match fs.blockGroups[g]? with
  | some bg => bg.bytes (m.groupTail g) ((i * fs.blockSize + j) % 32)
  | none => old j

/-- Write the table from `startBlock` on. -/
def writeBgdtAt (m : MountState) (startBlock : Nat) : FsM Unit := do
  let fs ← get
  (List.range (divCeil (fs.blockGroups.length * 32) fs.blockSize)).forM fun i => do
    let buf ← readFsBlock (startBlock + i)
    writeFsBlock (startBlock + i) (bgdtBlock fs m i buf)

def writeBlockGroupDescriptors (m : MountState) : FsM Unit := do
  let fs ← get
  if fs.readOnly then return
  else
    writeBgdtAt m (fs.superBlock.firstDataBlock + 1)
    (backupGroups fs.superBlock).forM fun g => writeBgdtAt m (groupBlock fs.superBlock g + 1)

/-! ## The mount -/

def sync (m : MountState) : FsM Unit := do
  writeSuperBlock m
  writeBlockGroupDescriptors m

/-- Write the superblock with the fields of `next`; if that fails, with those of `m` again. -/
def publish (m next : MountState) : FsM MountState := do
  onError (writeSuperBlock next) (writeSuperBlock m)
  return next

/-- Mark the filesystem as in use. -/
def onMount (m : MountState) : FsM MountState := do
  if (← get).readOnly then return m
  else publish m { m with state := m.state &&& (0xFFFF ^^^ EXT2_VALID_FS), mntCount := saturatingAdd 16 m.mntCount 1 }

/-- Write everything back, and then mark the filesystem as clean. -/
def onUnmount (m : MountState) : FsM MountState := do
  sync m
  if (← get).readOnly then return m
  else publish m { m with state := m.state ||| EXT2_VALID_FS }

structure FsInfo where
  totalBlocks : Nat
  freeBlocks : Nat
  totalInodes : Nat
  freeInodes : Nat
  blockSize : Nat
deriving DecidableEq, Repr

def info : FsM FsInfo := do
  let fs ← get
  let sb := fs.superBlock
  return ⟨sb.blocksCount, sb.freeBlocksCount, sb.inodesCount, sb.freeInodesCount, fs.blockSize⟩

end Koros.Ext2
