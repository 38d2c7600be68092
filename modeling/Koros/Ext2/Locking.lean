import Koros.Lib.Locks
import Mathlib.Algebra.Ring.Nat

/-!
# The locks of ext2

Every operation of `INode` and `SuperBlock` on one `Ext2Fs`, reduced to what it does with the spin locks: which guard
is taken where, what runs while it is held and where a failure leaves the function. The guards are scoped as in the
source, temporaries included: the guard in the header of the `for` loop of `dir_is_ancestor_or_self` lives as long as
the loop.

Protected data is kept where the locking depends on it: the mode of an inode (`size` asks for the superblock of
regular files only) and the inode cache. Everything else the operations read is left open.
-/

set_option autoImplicit false

namespace Koros.Ext2.Locking

open Koros.Locks

/-! ## Locks and the data behind them -/

/-- The spin locks of one `Ext2Fs`; `raw` is the lock of one inode object. -/
inductive Lock where
  | metadataTransaction
  | inodeCache
  | selfRef
  | superBlock
  | blockGroups
  | cache
  | raw (obj : Nat)
  deriving DecidableEq, Repr

/-- `inode_cache`: the object last made for an inode number, and the objects made so far. Whether the `Weak` still
upgrades is left open, so pruning dead entries changes nothing here. -/
structure InodeCache where
  entry : Nat → Option Nat
  next : Nat

/-- What a lock protects; of a `RawInode` only `i_mode`. -/
abbrev Data : Lock → Type
  | .inodeCache => InodeCache
  | .raw _ => Nat
  | _ => Unit

/-- The calls the lock discipline depends on: `Ext2INode::read` of an inode number, and the step of the ancestor walk
that looks `..` up in an object. -/
inductive Call where
  | read (ino : Nat)
  | walk (obj : Nat)
  deriving DecidableEq, Repr

abbrev LockM := OptionT (Prog Data Call)

/-- A handle of an `Ext2INode`: the object and its inode number. -/
structure Handle where
  obj : Nat
  inodeNum : Nat
  deriving DecidableEq, Repr

def EXT2_S_IFMT : Nat := 0xF000

def EXT2_S_IFREG : Nat := 0x8000

def EXT2_S_IFDIR : Nat := 0x4000

def EXT2_ROOT_INO : Nat := 2

def isRegular (mode : Nat) : Bool := mode &&& EXT2_S_IFMT == EXT2_S_IFREG

def isDirectory (mode : Nat) : Bool := mode &&& EXT2_S_IFMT == EXT2_S_IFDIR

/-- A guard that is dropped at the end of its statement. -/
def touch (l : Lock) : LockM Unit := locking l fun _ => pure ()

/-! ## `Ext2Fs` -/

/-- The `read_only` test in front of a write. -/
def checkWritable : LockM Unit := fallible

def readFsBlock : LockM Unit := locking .cache fun _ => fallible

def writeFsBlock : LockM Unit := do
  checkWritable
  locking .cache fun _ => fallible

/-- The cached copies are flushed under the lock; the device is read without it. -/
def readFsBlocks : LockM Unit := do
  locking .cache fun _ => fallible
  fallible

def writeFsBlocks : LockM Unit := do
  checkWritable
  touch .cache
  fallible

def hasFiletype : LockM Bool := locking .superBlock fun _ => any

def hasLargeFile : LockM Bool := locking .superBlock fun _ => any

def patchSuperBlockCopy : LockM Unit := do
  readFsBlock
  writeFsBlock

/-- The superblock stays locked over the primary and every backup copy. -/
def writeSuperBlock : LockM Unit :=
  maybe (locking .superBlock fun _ => do
    patchSuperBlockCopy
    loop patchSuperBlockCopy)

def writeBgdtAt : LockM Unit :=
  locking .blockGroups fun _ => loop do
    readFsBlock
    writeFsBlock

def writeBlockGroupDescriptors : LockM Unit :=
  maybe do
    touch .superBlock
    writeBgdtAt
    loop writeBgdtAt

/-- `Ext2INode::read`: both guards live to the end of the function. -/
def read : LockM Unit := do
  fallible
  locking .superBlock fun _ => locking .blockGroups fun _ => do
    fallible
    readFsBlock

/-- The miss branch of `get_inode`; the cache stays locked. -/
def getInodeMiss (ino : Nat) (c : InodeCache) : LockM (Handle × InodeCache) := do
  locking .selfRef fun _ => fallible
  calling (.read ino) read
  return (⟨c.next, ino⟩, ⟨Function.update c.entry ino (some c.next), c.next + 1⟩)

def getInode (ino : Nat) : LockM Handle :=
  withGuard .inodeCache fun c =>
    match c.entry ino with
    | some obj => branch (pure (⟨obj, ino⟩, c)) (getInodeMiss ino c)
    | none => getInodeMiss ino c

def invalidateInode (ino : Nat) : LockM Unit :=
  withGuard .inodeCache fun c => pure ((), { c with entry := Function.update c.entry ino none })

def adjustUsedDirs : LockM Unit := do
  touch .superBlock
  maybe (touch .blockGroups)

/-! ## Bitmaps -/

/-- One group of the scan: skipped, full, or taken. -/
def allocFrom : LockM Unit :=
  maybe do
    readFsBlock
    maybe do
      fallible
      writeFsBlock

/-- The scan of `alloc_block_goal` and `alloc_inode`, with the descriptors and the superblock locked in this order. -/
def allocScan : LockM Unit := do
  checkWritable
  locking .blockGroups fun _ => locking .superBlock fun _ => loop allocFrom
  fallible

def allocBlockGoal : LockM Unit := allocScan

def allocInode : LockM Nat := do
  allocScan
  anyNat

/-- Clearing a bit, with the descriptors and the superblock locked in this order. -/
def clearBit : LockM Unit :=
  locking .blockGroups fun _ => locking .superBlock fun _ => do
    fallible
    readFsBlock
    fallible
    writeFsBlock

def freeBlock : LockM Unit := do
  checkWritable
  touch .superBlock
  fallible
  clearBit

def freeInode (ino : Nat) : LockM Unit := do
  fallible
  checkWritable
  touch .superBlock
  clearBit
  invalidateInode ino

def initInode : LockM Unit := do
  fallible
  touch .superBlock
  locking .blockGroups fun _ => fallible
  readFsBlock
  writeFsBlock

/-! ## `Ext2INode` -/

def size (n : Handle) : LockM Unit :=
  locking (.raw n.obj) fun mode => do
    if isRegular mode then
      let _ ← hasLargeFile
      return ()
    else return ()

def setSize (n : Handle) : LockM Unit := size n

def readIndirectEntry : LockM Unit := do
  readFsBlock
  fallible

def writeIndirectEntry : LockM Unit := do
  readFsBlock
  fallible
  writeFsBlock

def readIndirectBlock : LockM Unit := readFsBlock

/-- A chain of at most `levels` indirect blocks; a zero pointer ends it. -/
def followIndirect : Nat → LockM Unit
  | 0 => pure ()
  | levels + 1 => maybe do
      readIndirectEntry
      followIndirect levels

def resolveBlockId (n : Handle) : LockM Unit := do
  touch (.raw n.obj)
  followIndirect 3

def blockGroup : LockM Unit := touch .superBlock

/-- Zero a fresh block, or give it back. -/
def zeroOrFree : LockM Unit := do
  match ← attempt writeFsBlock with
  | some _ => pure ()
  | none => do
    let _ ← attempt freeBlock
    failure

def allocAndZeroBlock : LockM Unit := do
  blockGroup
  allocBlockGoal
  zeroOrFree

/-- The inner levels of the pointer tree: a missing block is allocated and linked in. -/
def linkLevels : Nat → LockM Unit
  | 0 => pure ()
  | levels + 1 => do
    readIndirectEntry
    maybe do
      allocAndZeroBlock
      writeIndirectEntry
    linkLevels levels

/-- The slot of the inode is filled while `raw` is held, allocation included. -/
def linkIndirect (n : Handle) (levels : Nat) : LockM Unit := do
  locking (.raw n.obj) fun _ => maybe allocAndZeroBlock
  linkLevels levels
  writeIndirectEntry

def allocateBlockForOffset (n : Handle) (zeroData : Bool) : LockM Unit := do
  resolveBlockId n
  maybe do
    blockGroup
    allocBlockGoal
    (if zeroData then zeroOrFree else pure () : LockM Unit)
    branch (touch (.raw n.obj)) (branch (linkIndirect n 0) (branch (linkIndirect n 1) (linkIndirect n 2)))

def writeInodeToDisk (n : Handle) : LockM Unit := do
  touch (.raw n.obj)
  touch .superBlock
  locking .blockGroups fun _ => fallible
  readFsBlock
  writeFsBlock

def countIndirect : Nat → LockM Unit
  | 0 => pure ()
  | level + 1 => maybe do
      readIndirectBlock
      loop (countIndirect level)

def recomputeIBlocks (n : Handle) : LockM Unit := do
  touch (.raw n.obj)
  countIndirect 1
  countIndirect 2
  countIndirect 3
  touch (.raw n.obj)

def freeIndirect : Nat → LockM Unit
  | 0 => freeBlock
  | level + 1 => maybe do
      readIndirectBlock
      loop (maybe (freeIndirect level))
      freeBlock

def freeAllBlocks (n : Handle) : LockM Unit := do
  touch (.raw n.obj)
  repeatN (maybe freeBlock) 12
  freeIndirect 1
  freeIndirect 2
  freeIndirect 3
  touch (.raw n.obj)

def freeAndClearLogical (n : Handle) : LockM Unit := do
  resolveBlockId n
  maybe freeBlock
  touch (.raw n.obj)
  maybe do
    followIndirect 2
    maybe writeIndirectEntry

/-- `prune_indirect` of a block `level` levels above the blocks of data pointers. -/
def pruneIndirect : Nat → LockM Bool
  | 0 => branch (pure true) do
      readIndirectBlock
      any
  | level + 1 => branch (pure true) do
      readIndirectBlock
      loop (maybe do
        if ← pruneIndirect level then freeBlock else pure ())
      maybe writeFsBlock
      any

def pruneSlot (n : Handle) (level : Nat) : LockM Unit := do
  touch (.raw n.obj)
  maybe do
    if ← pruneIndirect level then do
      freeBlock
      touch (.raw n.obj)
    else pure ()

def pruneEmptyIndirects (n : Handle) : LockM Unit := do
  pruneSlot n 0
  pruneSlot n 1
  pruneSlot n 2

def truncateTo (n : Handle) : LockM Unit := do
  size n
  branch
    (do
      freeAllBlocks n
      setSize n)
    (branch (setSize n) (do
      loop (freeAndClearLogical n)
      pruneEmptyIndirects n
      setSize n
      recomputeIBlocks n))
  touch (.raw n.obj)
  writeInodeToDisk n

/-- A partial block or a hole. -/
def readAtSlow (n : Handle) : LockM Unit := do
  resolveBlockId n
  maybe readFsBlock

/-- A run of full blocks is read past the cache, the rest block by block. -/
def readAt (n : Handle) : LockM Unit := do
  size n
  loop (branch (readAtSlow n) (do
    resolveBlockId n
    branch (readAtSlow n) (do
      loop (resolveBlockId n)
      readFsBlocks)))

def writeAtLocked (n : Handle) : LockM Unit :=
  maybe do
    loop (branch
      (do
        allocateBlockForOffset n false
        loop (do
          allocateBlockForOffset n false
          maybe writeFsBlocks)
        writeFsBlocks)
      (do
        allocateBlockForOffset n true
        readFsBlock
        writeFsBlock))
    size n
    maybe (setSize n)
    touch (.raw n.obj)
    writeInodeToDisk n

def demoteFromHtree (n : Handle) : LockM Unit := do
  touch (.raw n.obj)
  maybe do
    touch (.raw n.obj)
    writeInodeToDisk n

/-! ## Directories -/

/-- `DirIterator::new`. -/
def dirIterator (n : Handle) : LockM Unit := do
  let mode ← locking (.raw n.obj) fun mode => pure mode
  if isDirectory mode then
    touch (.raw n.obj)
    maybe (readAt n)
  else failure

/-- `dir::lookup`: the number stored under the name, or a failure. -/
def dirLookup (n : Handle) : LockM Nat := do
  dirIterator n
  fallible
  anyNat

def dirList (n : Handle) : LockM Unit := dirIterator n

def addDirEntry (n : Handle) : LockM Unit := do
  fallible
  demoteFromHtree n
  let _ ← hasFiletype
  touch (.raw n.obj)
  maybe (readAt n)
  writeAtLocked n

def removeDirEntry (n : Handle) : LockM Unit := do
  demoteFromHtree n
  touch (.raw n.obj)
  fallible
  readAt n
  fallible
  writeAtLocked n

/-- The loop of `dir_is_ancestor_or_self`. -/
def walkUp (ancestor : Nat) : Nat → Nat → LockM Bool
  | 0, _ => pure true
  | rounds + 1, cur =>
    if cur == ancestor then pure true
    else if cur == EXT2_ROOT_INO then pure false
    else do
      let dir ← getInode cur
      let parent ← calling (.walk dir.obj) (dirLookup dir)
      if parent == cur then pure false else walkUp ancestor rounds parent

/-- `for _ in 0..=self.fs.super_block().inodes_count`: the guard of the header is held over the whole loop. -/
def dirIsAncestorOrSelf (ancestor start : Nat) : LockM Bool :=
  locking .superBlock fun _ => do
    let inodesCount ← anyNat
    walkUp ancestor (inodesCount + 1) start

/-! ## Extended attributes -/

def decrementXattrRefcount : LockM Unit := do
  readFsBlock
  writeFsBlock

def releaseXattrBlock (n : Handle) : LockM Unit := do
  touch (.raw n.obj)
  maybe do
    readFsBlock
    branch writeFsBlock freeBlock
    touch (.raw n.obj)

def storeXattrBlock (n : Handle) : LockM Unit :=
  branch writeFsBlock do
    blockGroup
    allocBlockGoal
    writeFsBlock
    maybe decrementXattrRefcount
    touch (.raw n.obj)

/-! ## Helpers that run inside a transaction -/

/-- `create_child`; only device nodes write their inode again. -/
def createChild (n : Handle) : LockM Handle := do
  match ← attempt (dirLookup n) with
  | some _ => failure
  | none => do
    let ino ← allocInode
    match ← attempt initInode with
    | none => do
      let _ ← attempt (freeInode ino)
      failure
    | some _ => do
      addDirEntry n
      let child ← getInode ino
      maybe do
        touch (.raw child.obj)
        writeInodeToDisk child
      return child

def unlinkLocked (n : Handle) : LockM Unit := do
  let ino ← dirLookup n
  let child ← getInode ino
  let mode ← locking (.raw child.obj) fun mode => pure mode
  if isDirectory mode then failure
  else do
    removeDirEntry n
    touch (.raw child.obj)
    branch
      (do
        touch (.raw child.obj)
        maybe (touch (.raw child.obj))
        maybe (freeAllBlocks child)
        releaseXattrBlock child
        touch (.raw child.obj)
        writeInodeToDisk child
        freeInode ino)
      (writeInodeToDisk child)

def rmdirLocked (n : Handle) : LockM Unit := do
  fallible
  let ino ← dirLookup n
  let child ← getInode ino
  let mode ← locking (.raw child.obj) fun mode => pure mode
  if isDirectory mode then do
    dirList child
    fallible
    removeDirEntry n
    touch (.raw n.obj)
    writeInodeToDisk n
    freeAllBlocks child
    releaseXattrBlock child
    touch (.raw child.obj)
    writeInodeToDisk child
    adjustUsedDirs
    freeInode ino
  else failure

def writeSymlinkTarget (n : Handle) : LockM Unit :=
  branch
    (do
      touch (.raw n.obj)
      writeInodeToDisk n)
    (writeAtLocked n)

/-! ## The operations -/

/-- `lock_metadata_transaction`, held to the end of the operation. -/
def transaction (body : LockM Unit) : LockM Unit := locking .metadataTransaction fun _ => body

def lookup (n : Handle) : LockM Unit := do
  let ino ← dirLookup n
  let _ ← getInode ino
  return ()

def create (n : Handle) : LockM Unit :=
  transaction do
    fallible
    let _ ← createChild n
    return ()

def mknod (n : Handle) : LockM Unit := create n

def symlink (n : Handle) : LockM Unit :=
  transaction do
    let child ← createChild n
    writeSymlinkTarget child

def mkdir (n : Handle) : LockM Unit :=
  transaction do
    match ← attempt (dirLookup n) with
    | some _ => failure
    | none => do
      let ino ← allocInode
      match ← attempt initInode with
      | none => do
        let _ ← attempt (freeInode ino)
        failure
      | some _ => do
        match ← attempt (addDirEntry n) with
        | none => do
          let _ ← attempt (freeInode ino)
          failure
        | some _ => do
          let child ← getInode ino
          addDirEntry child
          addDirEntry child
          touch (.raw child.obj)
          writeInodeToDisk child
          touch (.raw n.obj)
          writeInodeToDisk n
          adjustUsedDirs

def getattr (n : Handle) : LockM Unit := do
  size n
  touch (.raw n.obj)

/-- `setattr` stores the whole mode, type bits included. -/
def setattr (n : Handle) (mode : Nat) : LockM Unit :=
  transaction do
    withGuard (.raw n.obj) fun _ => pure ((), mode % 2 ^ 16)
    writeInodeToDisk n

def readlink (n : Handle) : LockM Unit := do
  touch (.raw n.obj)
  fallible
  branch (touch (.raw n.obj)) (readAt n)
  fallible

def link (n target : Handle) : LockM Unit :=
  transaction do
    match ← attempt (dirLookup n) with
    | some _ => failure
    | none => do
      fallible
      let mode ← locking (.raw target.obj) fun mode => pure mode
      if isDirectory mode then failure
      else do
        addDirEntry n
        touch (.raw target.obj)
        writeInodeToDisk target

/-- The end of `rename`: the new entry, the old one and, for a directory that changes parents, `..` and the links. -/
def renameEntries (n newDir child : Handle) (childIsDir : Bool) : LockM Unit := do
  addDirEntry newDir
  removeDirEntry n
  if childIsDir && n.obj != newDir.obj then do
    removeDirEntry child
    addDirEntry child
    touch (.raw n.obj)
    writeInodeToDisk n
    touch (.raw newDir.obj)
    writeInodeToDisk newDir
    adjustUsedDirs
    adjustUsedDirs
  else pure ()

/-- An existing target of `rename` goes first, if it is a file or an empty directory. -/
def removeExisting (newDir existing : Handle) (mode : Nat) : LockM Unit :=
  if isDirectory mode then do
    dirList existing
    fallible
    rmdirLocked newDir
  else unlinkLocked newDir

/-- The part of `rename` that makes room for the new entry. -/
def renameOver (newDir : Handle) (childIno : Nat) (rest : LockM Unit) : LockM Unit := do
  match ← attempt (dirLookup newDir) with
  | none => rest
  | some existingIno =>
    if existingIno == childIno then pure ()
    else do
      let existing ← getInode existingIno
      let mode ← locking (.raw existing.obj) fun mode => pure mode
      removeExisting newDir existing mode
      rest

def rename (n newDir : Handle) : LockM Unit :=
  transaction do
    fallible
    let childIno ← dirLookup n
    let child ← getInode childIno
    touch (.raw child.obj)
    let mode ← locking (.raw child.obj) fun mode => pure mode
    let inside ← (if isDirectory mode then dirIsAncestorOrSelf childIno newDir.inodeNum else pure false : LockM Bool)
    if inside then failure
    else renameOver newDir childIno (renameEntries n newDir child (isDirectory mode))

def truncate (n : Handle) : LockM Unit :=
  transaction do
    let mode ← locking (.raw n.obj) fun mode => pure mode
    if isRegular mode then truncateTo n else failure

def getxattr (n : Handle) : LockM Unit := do
  fallible
  touch (.raw n.obj)
  fallible
  readFsBlock
  fallible

def listxattr (n : Handle) : LockM Unit := do
  touch (.raw n.obj)
  maybe do
    readFsBlock
    fallible

def setxattr (n : Handle) : LockM Unit :=
  transaction do
    fallible
    touch (.raw n.obj)
    maybe (do readFsBlock; fallible)
    fallible
    storeXattrBlock n
    writeInodeToDisk n

def removexattr (n : Handle) : LockM Unit :=
  transaction do
    fallible
    touch (.raw n.obj)
    fallible
    readFsBlock
    fallible
    branch
      (do
        branch decrementXattrRefcount freeBlock
        touch (.raw n.obj))
      (do
        fallible
        storeXattrBlock n)
    writeInodeToDisk n

def syncCache : LockM Unit := locking .cache fun _ => fallible

def sync : LockM Unit :=
  transaction do
    writeSuperBlock
    writeBlockGroupDescriptors
    syncCache

/-- The superblock is written and the cache flushed; on a failure the state is put back. -/
def publishState : LockM Unit := do
  touch .superBlock
  match ← attempt (do writeSuperBlock; syncCache) with
  | some _ => pure ()
  | none => do
    touch .superBlock
    let _ ← attempt writeSuperBlock
    failure

def onMount : LockM Unit := maybe (transaction publishState)

def onUnmount : LockM Unit :=
  transaction do
    writeSuperBlock
    writeBlockGroupDescriptors
    syncCache
    maybe publishState

/-- `INode` and `SuperBlock` on one filesystem. -/
inductive Op where
  | readAt (n : Handle) | writeAt (n : Handle) | lookup (n : Handle) | create (n : Handle) | unlink (n : Handle)
  | mkdir (n : Handle) | rmdir (n : Handle) | getattr (n : Handle) | setattr (n : Handle) (mode : Nat)
  | list (n : Handle) | readlink (n : Handle) | symlink (n : Handle) | link (n target : Handle)
  | rename (n newDir : Handle) | truncate (n : Handle) | mknod (n : Handle) | getxattr (n : Handle)
  | listxattr (n : Handle) | setxattr (n : Handle) | removexattr (n : Handle)
  | rootInode | sync | onMount | onUnmount | info | hasFiletype
  deriving DecidableEq, Repr

def Op.prog : Op → LockM Unit
  | .readAt n => Locking.readAt n
  | .writeAt n => transaction (writeAtLocked n)
  | .lookup n => Locking.lookup n
  | .create n => Locking.create n
  | .unlink n => transaction (unlinkLocked n)
  | .mkdir n => Locking.mkdir n
  | .rmdir n => transaction (rmdirLocked n)
  | .getattr n => Locking.getattr n
  | .setattr n mode => Locking.setattr n mode
  | .list n => dirList n
  | .readlink n => Locking.readlink n
  | .symlink n => Locking.symlink n
  | .link n target => Locking.link n target
  | .rename n newDir => Locking.rename n newDir
  | .truncate n => Locking.truncate n
  | .mknod n => Locking.mknod n
  | .getxattr n => Locking.getxattr n
  | .listxattr n => Locking.listxattr n
  | .setxattr n => Locking.setxattr n
  | .removexattr n => Locking.removexattr n
  | .rootInode => do
    let _ ← getInode EXT2_ROOT_INO
    return ()
  | .sync => Locking.sync
  | .onMount => Locking.onMount
  | .onUnmount => Locking.onUnmount
  | .info => touch .superBlock
  | .hasFiletype => do
    let _ ← Locking.hasFiletype
    return ()

/-- The result is the caller's; a task goes on after a failed operation as after a successful one. -/
def Op.body (o : Op) : Prog Data Call Unit := o.prog.run.bind fun _ => .pure ()

end Koros.Ext2.Locking
