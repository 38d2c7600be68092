import Koros.Ext2.Bitmap

/-!
# Inodes and their block trees

`kor-ext2/src/inode.rs` up to the write path: the on-disk inode and its fields, the inode cache, and the tree of direct,
indirect, double and triple indirect blocks with its growth, its counting, its freeing and its pruning.

A handle is an inode number whose in-memory copy is in the inode cache.
-/
set_option autoImplicit false

namespace Koros.Ext2

open Koros.Lib

/-! ## The on-disk inode -/

namespace RawInode

def ofBytes (b : Bytes) : RawInode := ⟨fun j => if j < 128 then b j else 0, fun _ h => if_neg (Nat.not_lt.2 h)⟩

def get (r : RawInode) (i n : Nat) : Nat := leNat r.bytes i n

def put (r : RawInode) (i n v : Nat) : RawInode := ofBytes (putLe r.bytes i n v)

variable (r : RawInode)

def mode : Nat := r.get 0 2
def size32 : Nat := r.get 4 4
def linksCount : Nat := r.get 26 2
def blocks : Nat := r.get 28 4
def flags : Nat := r.get 32 4
/-- `i_block[k]`. -/
def block (k : Nat) : Nat := r.get (40 + 4 * k) 4
def fileAcl : Nat := r.get 104 4
def dirAcl : Nat := r.get 108 4

def setSize32 (v : Nat) : RawInode := r.put 4 4 v
def setMtime (v : Nat) : RawInode := r.put 16 4 v
def setDtime (v : Nat) : RawInode := r.put 20 4 v
def setLinksCount (v : Nat) : RawInode := r.put 26 2 v
def setBlocks (v : Nat) : RawInode := r.put 28 4 v
def setFlags (v : Nat) : RawInode := r.put 32 4 v
def setBlock (k v : Nat) : RawInode := r.put (40 + 4 * k) 4 v
def setFileAcl (v : Nat) : RawInode := r.put 104 4 v
def setDirAcl (v : Nat) : RawInode := r.put 108 4 v

/-- `i_block = [0; 15]`. -/
def clearBlocks : RawInode := ofBytes (blit r.bytes 40 60 fun _ => 0)

/-- `i_mode & EXT2_S_IFMT`. -/
def fmt : Nat := r.mode &&& 0xF000

end RawInode

def EXT2_S_IFSOCK : Nat := 0xC000
def EXT2_S_IFLNK : Nat := 0xA000
def EXT2_S_IFREG : Nat := 0x8000
def EXT2_S_IFBLK : Nat := 0x6000
def EXT2_S_IFDIR : Nat := 0x4000
def EXT2_S_IFCHR : Nat := 0x2000
def EXT2_S_IFIFO : Nat := 0x1000

/-- `i_flags` bit of a hash-tree indexed directory. -/
def EXT2_INDEX_FL : Nat := 0x1000

def DIRECT_BLOCKS : Nat := 12

/-! ## Errors that the caller looks at -/

/-- `x.is_ok()`. -/
def isOk {α : Type} (x : FsM α) : FsM Bool := fun fs =>
  match x fs with
  | .ok _ fs => .ok true fs
  | .error (.err _) fs => .ok false fs
  | .error .panic fs => .error .panic fs

/-- `if let Ok(a) = x`. -/
def attempt {α : Type} (x : FsM α) : FsM (Option α) := fun fs =>
  match x fs with
  | .ok a fs => .ok (some a) fs
  | .error (.err _) fs => .ok none fs
  | .error .panic fs => .error .panic fs

/-- `if let Err(e) = x { let _ = cleanup; return Err(e) }`. -/
def onError {α : Type} (x : FsM α) (cleanup : FsM Unit) : FsM α := fun fs =>
  match x fs with
  | .ok a fs => .ok a fs
  | .error .panic fs => .error .panic fs
  | .error (.err e) fs =>
    match cleanup fs with
    | .error .panic fs => .error .panic fs
    | .ok _ fs => .error (.err e) fs
    | .error (.err _) fs => .error (.err e) fs

/-! ## The inode table and the inode cache -/

/-- The block of the inode table that holds an inode, and the offset in it. -/
def locateInode (inodeNum : Nat) : FsM (Nat × Nat) := do
  let fs ← get
  let group := (inodeNum - 1) / fs.superBlock.inodesPerGroup
  let index := (inodeNum - 1) % fs.superBlock.inodesPerGroup
  let bg ← getGroup group
  let offsetInTable := index * fs.superBlock.inodeSize
  return (bg.inodeTable + offsetInTable / fs.blockSize, offsetInTable % fs.blockSize)

/-- `Ext2INode::read`. -/
def readInode (inodeNum : Nat) : FsM RawInode := do
  let fs ← get
  if inodeNum = 0 then fail .invalidInput
  else
    let (fsBlock, offsetInBlock) ← locateInode inodeNum
    let buf ← readFsBlock fsBlock
    if fs.blockSize < offsetInBlock + 128 then panic
    else return RawInode.ofBytes (dropBytes buf offsetInBlock)

def cacheInode (inodeNum : Nat) (raw : Option RawInode) : FsM Unit :=
  modify fun fs => { fs with inodeCache := Function.update fs.inodeCache inodeNum raw }

/-- The cached inode, read from disk on a miss. -/
def getInode (inodeNum : Nat) : FsM Unit := do
  match (← get).inodeCache inodeNum with
  | some _ => return
  | none =>
    let raw ← readInode inodeNum
    cacheInode inodeNum (some raw)

/-- `self.raw.lock()` of a handle. -/
def raw (inodeNum : Nat) : FsM RawInode := do
  match (← get).inodeCache inodeNum with
  | some r => return r
  | none => panic

def setRaw (inodeNum : Nat) (r : RawInode) : FsM Unit := cacheInode inodeNum (some r)

def modifyRaw (inodeNum : Nat) (f : RawInode → RawInode) : FsM Unit := do
  let r ← raw inodeNum
  setRaw inodeNum (f r)

/-- Persist the in-memory inode. -/
def writeInodeToDisk (inodeNum : Nat) : FsM Unit := do
  let r ← raw inodeNum
  let fs ← get
  let (fsBlock, offsetInBlock) ← locateInode inodeNum
  let buf ← readFsBlock fsBlock
  if fs.blockSize < offsetInBlock + 128 then panic
  else writeFsBlock fsBlock (blit buf offsetInBlock 128 r.bytes)

/-- Initialize the on-disk inode: zero but for its mode and one link. -/
def initInode (inodeNum mode : Nat) : FsM Unit := do
  let fs ← get
  if inodeNum = 0 then fail .invalidInput
  else
    let (fsBlock, offsetInBlock) ← locateInode inodeNum
    let buf ← readFsBlock fsBlock
    if fs.blockSize < offsetInBlock + fs.superBlock.inodeSize then panic
    else
      let buf := blit buf offsetInBlock fs.superBlock.inodeSize fun _ => 0
      let buf := putLe buf offsetInBlock 2 mode
      writeFsBlock fsBlock (putLe buf (offsetInBlock + 26) 2 1)

/-! ## The block tree -/

def ptrsPerBlock : FsM Nat := return (← get).blockSize / 4

/-- A pointer of an indirect block. -/
def readIndirectEntry (blockId index : Nat) : FsM Nat := do
  let fs ← get
  let buf ← readFsBlock blockId
  if index * 4 + 4 > fs.blockSize then fail .invalidInput
  else return leNat buf (index * 4) 4

def writeIndirectEntry (blockId index value : Nat) : FsM Unit := do
  let fs ← get
  let buf ← readFsBlock blockId
  if index * 4 + 4 > fs.blockSize then fail .invalidInput
  else writeFsBlock blockId (putLe buf (index * 4) 4 value)

/-- All pointers of an indirect block. -/
def readIndirectBlock (blockId : Nat) : FsM (List Nat) := do
  let fs ← get
  let buf ← readFsBlock blockId
  return (List.range (fs.blockSize / 4)).map fun i => leNat buf (i * 4) 4

/-- The physical block of a logical one, 0 for a hole. -/
def resolveBlockId (ino logicalBlock : Nat) : FsM Nat := do
  let p ← ptrsPerBlock
  let r ← raw ino
  let indirectLimit := DIRECT_BLOCKS + p
  let doubleLimit := indirectLimit + p * p
  if logicalBlock < DIRECT_BLOCKS then return r.block logicalBlock
  else if logicalBlock < indirectLimit then
    if r.block 12 = 0 then return 0
    else readIndirectEntry (r.block 12) (logicalBlock - DIRECT_BLOCKS)
  else if logicalBlock < doubleLimit then
    if r.block 13 = 0 then return 0
    else
      let remaining := logicalBlock - indirectLimit
      let indirectBlock ← readIndirectEntry (r.block 13) (remaining / p)
      if indirectBlock = 0 then return 0
      else readIndirectEntry indirectBlock (remaining % p)
  else
    if r.block 14 = 0 then return 0
    else
      let remaining := logicalBlock - doubleLimit
      let doubleBlock ← readIndirectEntry (r.block 14) (remaining / (p * p))
      if doubleBlock = 0 then return 0
      else
        let indirectBlock ← readIndirectEntry doubleBlock (remaining / p % p)
        if indirectBlock = 0 then return 0
        else readIndirectEntry indirectBlock (remaining % p)

/-- The block group an inode lives in. -/
def blockGroup (ino : Nat) : FsM Nat := do
  let fs ← get
  return if fs.superBlock.inodesPerGroup = 0 then 0 else (ino - 1) / fs.superBlock.inodesPerGroup

def zeroBlock : Bytes := fun _ => 0

def allocAndZeroBlock (ino : Nat) : FsM Nat := do
  let block ← allocBlockGoal (← blockGroup ino)
  onError (writeFsBlock block zeroBlock) (freeBlock block)
  return block

/-- The indirect block that `i_block[slot]` names, allocated if there is none, and the number of blocks allocated. -/
def topIndirect (ino slot : Nat) : FsM (Nat × Nat) := do
  let r ← raw ino
  if r.block slot = 0 then
    let allocated ← allocAndZeroBlock ino
    modifyRaw ino fun r => r.setBlock slot allocated
    return (allocated, 1)
  else return (r.block slot, 0)

/-- The indirect block that entry `index` of `block` names, allocated if there is none. -/
def nextIndirect (ino block index : Nat) : FsM (Nat × Nat) := do
  let entry ← readIndirectEntry block index
  if entry = 0 then
    let allocated ← allocAndZeroBlock ino
    writeIndirectEntry block index allocated
    return (allocated, 1)
  else return (entry, 0)

/-- Ensure that a physical block exists for a logical one: its number, and how many blocks were allocated. -/
def allocateBlockForOffset (ino logicalBlock : Nat) (zeroData : Bool) : FsM (Nat × Nat) := do
  let existing ← resolveBlockId ino logicalBlock
  if existing ≠ 0 then return (existing, 0)
  else
    let p ← ptrsPerBlock
    let indirectLimit := DIRECT_BLOCKS + p
    let doubleLimit := indirectLimit + p * p
    let newBlock ← allocBlockGoal (← blockGroup ino)
    if zeroData then onError (writeFsBlock newBlock zeroBlock) (freeBlock newBlock)
    if logicalBlock < DIRECT_BLOCKS then
      modifyRaw ino fun r => r.setBlock logicalBlock newBlock
      return (newBlock, 1)
    else if logicalBlock < indirectLimit then
      let (indirectBlock, n₁) ← topIndirect ino 12
      writeIndirectEntry indirectBlock (logicalBlock - DIRECT_BLOCKS) newBlock
      return (newBlock, 1 + n₁)
    else if logicalBlock < doubleLimit then
      let remaining := logicalBlock - indirectLimit
      let (l1, n₁) ← topIndirect ino 13
      let (l2, n₂) ← nextIndirect ino l1 (remaining / p)
      writeIndirectEntry l2 (remaining % p) newBlock
      return (newBlock, 1 + n₁ + n₂)
    else
      let remaining := logicalBlock - doubleLimit
      let (l1, n₁) ← topIndirect ino 14
      let (l2, n₂) ← nextIndirect ino l1 (remaining / (p * p))
      let (l3, n₃) ← nextIndirect ino l2 (remaining / p % p)
      writeIndirectEntry l3 (remaining % p) newBlock
      return (newBlock, 1 + n₁ + n₂ + n₃)

/-! ## Sizes -/

/-- The file size: a regular file may have its upper half in `i_dir_acl`. -/
def size (ino : Nat) : FsM Nat := do
  let fs ← get
  let r ← raw ino
  return if r.fmt = EXT2_S_IFREG ∧ fs.superBlock.hasLargeFile then r.dirAcl <<< 32 ||| r.size32 else r.size32

def setSize (ino size : Nat) : FsM Unit := do
  let fs ← get
  modifyRaw ino fun r =>
    let r := r.setSize32 (size % 2 ^ 32)
    if r.fmt = EXT2_S_IFREG ∧ fs.superBlock.hasLargeFile then r.setDirAcl (size / 2 ^ 32 % 2 ^ 32) else r

def sectorsPerBlock : FsM Nat := return (← get).blockSize / 512

/-- Blocks in a tree, the indirect blocks included; the children of level 1 are data blocks. -/
def countIndirect : (level block : Nat) → FsM Nat
  | 0, _ => return 0
  | level + 1, block =>
    if block = 0 then return 0
    else do
      let ptrs ← readIndirectBlock block
      ptrs.foldlM (fun count p =>
        if p = 0 then return count
        else if level = 0 then return count + 1
        else return count + (← countIndirect level p)) 1

def recomputeIBlocks (ino : Nat) : FsM Unit := do
  let r ← raw ino
  let direct := ((List.range DIRECT_BLOCKS).filter fun k => r.block k ≠ 0).length
  let n₁ ← countIndirect 1 (r.block 12)
  let n₂ ← countIndirect 2 (r.block 13)
  let n₃ ← countIndirect 3 (r.block 14)
  let acl := if r.fileAcl ≠ 0 then 1 else 0
  let sectors ← sectorsPerBlock
  modifyRaw ino fun r => r.setBlocks ((direct + n₁ + n₂ + n₃ + acl) * sectors % 2 ^ 32)

/-! ## Freeing -/

/-- Free a tree of indirect blocks with its data blocks. -/
def freeIndirect : (level block : Nat) → FsM Unit
  | 0, _ => return
  | level + 1, block =>
    if block = 0 then return
    else do
      let ptrs ← readIndirectBlock block
      ptrs.forM fun p =>
        if p = 0 then return
        else if level = 0 then freeBlock p
        else freeIndirect level p
      freeBlock block

/-- Free every data and indirect block of an inode. -/
def freeAllBlocks (ino : Nat) : FsM Unit := do
  let r ← raw ino
  (List.range DIRECT_BLOCKS).forM fun k => if r.block k = 0 then return else freeBlock (r.block k)
  freeIndirect 1 (r.block 12)
  freeIndirect 2 (r.block 13)
  freeIndirect 3 (r.block 14)
  modifyRaw ino fun r => r.clearBlocks.setBlocks 0

/-- Free the data block of a logical block and clear its pointer. -/
def freeAndClearLogical (ino logicalBlock : Nat) : FsM Unit := do
  let phys ← resolveBlockId ino logicalBlock
  if phys ≠ 0 then freeBlock phys
  let p ← ptrsPerBlock
  let r ← raw ino
  let indirectLimit := DIRECT_BLOCKS + p
  let doubleLimit := indirectLimit + p * p
  if logicalBlock < DIRECT_BLOCKS then modifyRaw ino fun r => r.setBlock logicalBlock 0
  else if logicalBlock < indirectLimit then
    if r.block 12 ≠ 0 then writeIndirectEntry (r.block 12) (logicalBlock - DIRECT_BLOCKS) 0
  else if logicalBlock < doubleLimit then
    if r.block 13 ≠ 0 then
      let rem := logicalBlock - indirectLimit
      let l2 ← readIndirectEntry (r.block 13) (rem / p)
      if l2 ≠ 0 then writeIndirectEntry l2 (rem % p) 0
  else if r.block 14 ≠ 0 then
    let rem := logicalBlock - doubleLimit
    let l2 ← readIndirectEntry (r.block 14) (rem / (p * p))
    if l2 ≠ 0 then
      let l3 ← readIndirectEntry l2 (rem / p % p)
      if l3 ≠ 0 then writeIndirectEntry l3 (rem % p) 0

/-- Write all pointers of an indirect block. -/
def writeIndirectFull (block : Nat) (ptrs : List Nat) : FsM Unit :=
  writeFsBlock block fun j => toLe (ptrs.getD (j / 4) 0) (j % 4)

/-- The loop over the pointers of a block: what is left of them, and whether any was freed. -/
def pruneEntries (prune : Nat → FsM Bool) : List Nat → FsM (List Nat × Bool)
  | [] => return ([], false)
  | p :: ps => do
    let freed ← if p = 0 then pure false else prune p
    if freed then freeBlock p
    let (rest, changed) ← pruneEntries prune ps
    return ((if freed then 0 else p) :: rest, freed || changed)

/-- Free the empty sub-blocks of a tree; whether the block itself ends up empty. -/
def pruneIndirect : (level block : Nat) → FsM Bool
  | 0, _ => return false
  | level + 1, block =>
    if block = 0 then return true
    else do
      let ptrs ← readIndirectBlock block
      if level = 0 then return ptrs.all (· = 0)
      else
        let (ptrs, changed) ← pruneEntries (pruneIndirect level) ptrs
        if changed then writeIndirectFull block ptrs
        return ptrs.all (· = 0)

/-- Free the indirect blocks that reference no data block. -/
def pruneEmptyIndirects (ino : Nat) : FsM Unit :=
  [12, 13, 14].forM fun slot => do
    let r ← raw ino
    if r.block slot ≠ 0 then
      if ← pruneIndirect (slot - 11) (r.block slot) then
        freeBlock (r.block slot)
        modifyRaw ino fun r => r.setBlock slot 0

def divCeil (a b : Nat) : Nat := (a + b - 1) / b

/-- Truncate or extend a file. -/
def truncateTo (ino newSize : Nat) : FsM Unit := do
  let cur ← size ino
  let fs ← get
  if newSize = 0 then
    freeAllBlocks ino
    setSize ino 0
  else if newSize ≥ cur then setSize ino newSize
  else
    let keep := divCeil newSize fs.blockSize % 2 ^ 32
    let old := divCeil cur fs.blockSize % 2 ^ 32
    (List.range' keep (old - keep)).forM (freeAndClearLogical ino)
    pruneEmptyIndirects ino
    setSize ino newSize
    recomputeIBlocks ino
  modifyRaw ino fun r => r.setMtime 0
  writeInodeToDisk ino

end Koros.Ext2
