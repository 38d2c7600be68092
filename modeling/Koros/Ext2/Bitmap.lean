import Koros.Lib.Bytes
import Koros.Lib.Words

/-!
# A mounted ext2 filesystem and its allocators

`Ext2Fs` of `kor-ext2/src/lib.rs` with the bitmap operations of `kor-ext2/src/bitmap.rs`. The block cache and the device
together are one array of filesystem blocks, as a reader of the cache sees them; the device itself does not fail, so the only
I/O error left is a block beyond its end.

A call ends with a result, with an error that the code returns, or with a panic (an index out of range). Each of these leaves
the filesystem in some state. Arithmetic wraps as in the release build, except that a free counter out of its range is also
recorded as a panic, to tell it from a count.
-/
set_option autoImplicit false

namespace Koros.Ext2

open Koros.Lib

/-! ## The filesystem -/

inductive FsError where
  | notFound
  | alreadyExists
  | notDirectory
  | isDirectory
  | notEmpty
  | invalidInput
  | noSpace
  | readOnly
  | ioError
  | unsupported
  | crossDevice
deriving DecidableEq, Repr

inductive Fault where
  | err (e : FsError)
  | panic
deriving DecidableEq, Repr

/-- The parsed superblock: geometry, features and free counts. -/
structure SuperBlock where
  inodesCount : Nat
  blocksCount : Nat
  freeBlocksCount : Nat
  freeInodesCount : Nat
  firstDataBlock : Nat
  logBlockSize : Nat
  blocksPerGroup : Nat
  inodesPerGroup : Nat
  inodeSize : Nat
  featureIncompat : Nat
  featureRoCompat : Nat
deriving DecidableEq, Repr

namespace SuperBlock

def blockSize (sb : SuperBlock) : Nat := 1024 <<< sb.logBlockSize

/-- `blocks_count.div_ceil(blocks_per_group)`. -/
def blockGroupCount (sb : SuperBlock) : Nat := (sb.blocksCount + sb.blocksPerGroup - 1) / sb.blocksPerGroup

def hasFiletype (sb : SuperBlock) : Bool := sb.featureIncompat &&& 0x0002 ≠ 0

def hasLargeFile (sb : SuperBlock) : Bool := sb.featureRoCompat &&& 0x0002 ≠ 0

end SuperBlock

structure BlockGroupDescriptor where
  blockBitmap : Nat
  inodeBitmap : Nat
  inodeTable : Nat
  freeBlocksCount : Nat
  freeInodesCount : Nat
  usedDirsCount : Nat
deriving DecidableEq, Repr

/-- The 128 bytes of an on-disk inode. -/
@[ext]
structure RawInode where
  bytes : Bytes
  tail : ∀ j, 128 ≤ j → bytes j = 0

structure Ext2Fs where
  /-- Filesystem blocks on the device. -/
  deviceBlocks : Nat
  superBlock : SuperBlock
  blockGroups : List BlockGroupDescriptor
  readOnly : Bool
  /-- Contents of each filesystem block. -/
  disk : (fsBlock : Nat) → Bytes
  /-- The in-memory copies of the inodes that someone holds. -/
  inodeCache : (inodeNum : Nat) → Option RawInode

/-- A call on the filesystem. -/
abbrev FsM := EStateM Fault Ext2Fs

namespace Ext2Fs

def blockSize (fs : Ext2Fs) : Nat := fs.superBlock.blockSize

def setDisk (fs : Ext2Fs) (fsBlock : Nat) (buf : Bytes) : Ext2Fs :=
  { fs with disk := Function.update fs.disk fsBlock buf }

def setGroup (fs : Ext2Fs) (g : Nat) (bg : BlockGroupDescriptor) : Ext2Fs :=
  { fs with blockGroups := fs.blockGroups.set g bg }

end Ext2Fs

def fail {α : Type} (e : FsError) : FsM α := throw (.err e)

/-- An index out of range, or a free counter out of its range. -/
def panic {α : Type} : FsM α := throw .panic

def readFsBlock (fsBlock : Nat) : FsM Bytes := do
  let fs ← get
  if fsBlock < fs.deviceBlocks then return fs.disk fsBlock else fail .ioError

def writeFsBlock (fsBlock : Nat) (buf : Bytes) : FsM Unit := do
  let fs ← get
  if fs.readOnly then fail .readOnly
  else if fsBlock < fs.deviceBlocks then set (fs.setDisk fsBlock buf)
  else fail .ioError

/-- `block_groups.get(g).ok_or(InvalidInput)`. -/
def getGroup (g : Nat) : FsM BlockGroupDescriptor := do
  match (← get).blockGroups[g]? with
  | some bg => return bg
  | none => fail .invalidInput

/-! ## Bitmaps -/

/-- `len` bytes of which the first `size` bits are valid. -/
structure Bitmap where
  data : Bytes
  len : Nat
  size : Nat

namespace Bitmap

/-- Bit 0 of byte 0 is the least significant one. -/
def bit (m : Bitmap) (index : Nat) : Bool := testBitAt m.data index

def inRange (m : Bitmap) (index : Nat) : Bool := decide (index < m.size ∧ index / 8 < m.len)

def set (m : Bitmap) (index : Nat) : FsM Bitmap :=
  if m.inRange index then return { m with data := writeBitAt true m.data index } else fail .invalidInput

def clear (m : Bitmap) (index : Nat) : FsM Bitmap :=
  if m.inRange index then return { m with data := writeBitAt false m.data index } else fail .invalidInput

/-- The bits of one byte; `none` when they are all set. -/
def scanByte (byte : Byte) (base size : Nat) : List Nat → Option (Option Nat)
  | [] => none
  | bit :: bits =>
    if base + bit ≥ size then some none
    else if byte.getLsbD bit then scanByte byte base size bits
    else some (some (base + bit))

/-- The `n` bytes from `byteIdx` on. -/
def scan (data : Bytes) (size : Nat) : (n byteIdx : Nat) → Option Nat
  | 0, _ => none
  | n + 1, byteIdx =>
    if data byteIdx ≠ 0xFF then
      match scanByte (data byteIdx) (byteIdx * 8) size (List.range 8) with
      | some result => result
      | none => scan data size n (byteIdx + 1)
    else scan data size n (byteIdx + 1)

/-- The first clear bit. -/
def findFirstClear (m : Bitmap) : Option Nat := scan m.data m.size m.len 0

end Bitmap

/-! ## Blocks -/

/-- One iteration of the search: the block found in group `groupIdx`, if any. -/
def allocBlockIn (groupIdx : Nat) : FsM (Option Nat) := do
  let fs ← get
  let sb := fs.superBlock
  match fs.blockGroups[groupIdx]? with
  | none => panic
  | some bg =>
    if bg.freeBlocksCount = 0 then return none
    else
      -- the final group may be shorter than `blocks_per_group`
      let groupFirst := sb.firstDataBlock + groupIdx * sb.blocksPerGroup
      if sb.blocksCount < groupFirst then panic
      else
        let blocksInGroup := min sb.blocksPerGroup (sb.blocksCount - groupFirst)
        let buf ← readFsBlock bg.blockBitmap
        let bitmap : Bitmap := ⟨buf, fs.blockSize, blocksInGroup⟩
        match bitmap.findFirstClear with
        | none => return none
        | some localIdx =>
          let bitmap ← bitmap.set localIdx
          writeFsBlock bg.blockBitmap bitmap.data
          let fs ← get
          if fs.superBlock.freeBlocksCount = 0 then panic
          else
            let fs := fs.setGroup groupIdx { bg with freeBlocksCount := bg.freeBlocksCount - 1 }
            set { fs with superBlock := { fs.superBlock with freeBlocksCount := fs.superBlock.freeBlocksCount - 1 } }
            return some (groupIdx * sb.blocksPerGroup + localIdx + sb.firstDataBlock)

/-- The loop over the groups in the given order. -/
def firstFit (search : (groupIdx : Nat) → FsM (Option Nat)) : List Nat → FsM Nat
  | [] => fail .noSpace
  | groupIdx :: rest => do
    match ← search groupIdx with
    | some found => return found
    | none => firstFit search rest

/-- Allocate a free block, searching from `goalGroup` on and wrapping around. -/
def allocBlockGoal (goalGroup : Nat) : FsM Nat := do
  let fs ← get
  if fs.readOnly then fail .readOnly
  else
    let ngroups := fs.blockGroups.length
    firstFit allocBlockIn ((List.range ngroups).map fun step => (goalGroup + step) % ngroups)

/-- Free a previously allocated block. -/
def freeBlock (blockId : Nat) : FsM Unit := do
  let fs ← get
  let sb := fs.superBlock
  if fs.readOnly then fail .readOnly
  else if blockId < sb.firstDataBlock then fail .invalidInput
  else
    let localId := blockId - sb.firstDataBlock
    let groupIdx := localId / sb.blocksPerGroup
    let bg ← getGroup groupIdx
    let buf ← readFsBlock bg.blockBitmap
    let bitmap : Bitmap := ⟨buf, fs.blockSize, sb.blocksPerGroup⟩
    let bitmap ← bitmap.clear (localId % sb.blocksPerGroup)
    writeFsBlock bg.blockBitmap bitmap.data
    let fs ← get
    if bg.freeBlocksCount + 1 ≥ 2 ^ 16 ∨ sb.freeBlocksCount + 1 ≥ 2 ^ 32 then panic
    else
      let fs := fs.setGroup groupIdx { bg with freeBlocksCount := bg.freeBlocksCount + 1 }
      set { fs with superBlock := { fs.superBlock with freeBlocksCount := fs.superBlock.freeBlocksCount + 1 } }

/-! ## Inodes -/

def allocInodeIn (groupIdx : Nat) : FsM (Option Nat) := do
  let fs ← get
  let sb := fs.superBlock
  match fs.blockGroups[groupIdx]? with
  | none => panic
  | some bg =>
    if bg.freeInodesCount = 0 then return none
    else
      let buf ← readFsBlock bg.inodeBitmap
      let bgCount := sb.blockGroupCount
      if groupIdx = bgCount - 1 ∧ sb.inodesCount < (bgCount - 1) * sb.inodesPerGroup then panic
      else
        let inodesInThisGroup :=
          if groupIdx = bgCount - 1 then sb.inodesCount - (bgCount - 1) * sb.inodesPerGroup else sb.inodesPerGroup
        let bitmap : Bitmap := ⟨buf, fs.blockSize, inodesInThisGroup⟩
        match bitmap.findFirstClear with
        | none => return none
        | some localIdx =>
          let bitmap ← bitmap.set localIdx
          writeFsBlock bg.inodeBitmap bitmap.data
          let fs ← get
          if fs.superBlock.freeInodesCount = 0 then panic
          else
            let fs := fs.setGroup groupIdx { bg with freeInodesCount := bg.freeInodesCount - 1 }
            set { fs with superBlock := { fs.superBlock with freeInodesCount := fs.superBlock.freeInodesCount - 1 } }
            return some (groupIdx * sb.inodesPerGroup + localIdx + 1)

/-- Allocate a free inode: its number, from 1 on. -/
def allocInode : FsM Nat := do
  let fs ← get
  if fs.readOnly then fail .readOnly
  else firstFit allocInodeIn (List.range fs.blockGroups.length)

/-- Forget the in-memory copy of an inode. -/
def invalidateInode (inodeNum : Nat) : FsM Unit :=
  modify fun fs => { fs with inodeCache := Function.update fs.inodeCache inodeNum none }

/-- Return an inode to the bitmap. -/
def freeInode (inodeNum : Nat) : FsM Unit := do
  let fs ← get
  let sb := fs.superBlock
  if inodeNum = 0 then fail .invalidInput
  else if fs.readOnly then fail .readOnly
  else
    let groupIdx := (inodeNum - 1) / sb.inodesPerGroup
    let bg ← getGroup groupIdx
    let buf ← readFsBlock bg.inodeBitmap
    let bitmap : Bitmap := ⟨buf, fs.blockSize, sb.inodesPerGroup⟩
    let bitmap ← bitmap.clear ((inodeNum - 1) % sb.inodesPerGroup)
    writeFsBlock bg.inodeBitmap bitmap.data
    let fs ← get
    if bg.freeInodesCount + 1 ≥ 2 ^ 16 ∨ sb.freeInodesCount + 1 ≥ 2 ^ 32 then panic
    else
      let fs := fs.setGroup groupIdx { bg with freeInodesCount := bg.freeInodesCount + 1 }
      set { fs with superBlock := { fs.superBlock with freeInodesCount := fs.superBlock.freeInodesCount + 1 } }
      invalidateInode inodeNum

end Koros.Ext2
