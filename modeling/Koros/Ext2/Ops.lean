import Koros.Ext2.Dir
import Koros.Ext2.Xattr

/-!
# The operations of an inode

`impl INode for Ext2INode` of `kor-ext2/src/inode.rs`, over inode numbers: a handle is the number of an inode that is in
memory. Every mutation runs under the filesystem-wide transaction lock, so a call is one step here. Handles of another
filesystem (`CrossDevice`) do not occur.
-/
set_option autoImplicit false

namespace Koros.Ext2

open Koros.Lib Xattr

inductive FileType where
  | regular
  | directory
  | symlink
  | blockDevice
  | charDevice
  | fifo
  | socket
deriving DecidableEq, Repr

def fileTypeToMode (fileType : FileType) (mode : Nat) : Nat :=
  let typeBits := match fileType with
    | .regular => EXT2_S_IFREG
    | .directory => EXT2_S_IFDIR
    | .symlink => EXT2_S_IFLNK
    | .blockDevice => EXT2_S_IFBLK
    | .charDevice => EXT2_S_IFCHR
    | .fifo => EXT2_S_IFIFO
    | .socket => EXT2_S_IFSOCK
  typeBits ||| (mode &&& 0x0FFF)

def fileTypeToDirByte : FileType → Byte
  | .regular => TYPE_REGULAR
  | .directory => TYPE_DIRECTORY
  | .symlink => TYPE_SYMLINK
  | .blockDevice => TYPE_BLOCK_DEVICE
  | .charDevice => TYPE_CHAR_DEVICE
  | .fifo => TYPE_FIFO
  | .socket => TYPE_SOCKET

def modeToFileType (mode : Nat) : FileType :=
  let fmt := mode &&& 0xF000
  if fmt = EXT2_S_IFREG then .regular
  else if fmt = EXT2_S_IFDIR then .directory
  else if fmt = EXT2_S_IFLNK then .symlink
  else if fmt = EXT2_S_IFBLK then .blockDevice
  else if fmt = EXT2_S_IFCHR then .charDevice
  else if fmt = EXT2_S_IFIFO then .fifo
  else if fmt = EXT2_S_IFSOCK then .socket
  else .regular

def dirByteForMode (mode : Nat) : Byte := fileTypeToDirByte (modeToFileType mode)

/-! ## Attributes -/

structure Metadata where
  size : Nat
  mode : Nat
  uid : Nat
  gid : Nat
  atime : Nat
  mtime : Nat
  ctime : Nat
  fileType : FileType
deriving DecidableEq, Repr

def getattr (ino : Nat) : FsM Metadata := do
  let size ← size ino
  let r ← raw ino
  return ⟨size, r.mode, r.get 2 2, r.get 24 2, r.get 8 4, r.get 16 4, r.get 12 4, modeToFileType r.mode⟩

/-- The inode after `setattr`: the size is taken over for regular files only, without touching any block. -/
def withMetadata (blockSize : Nat) (m : Metadata) (r : RawInode) : RawInode :=
  let r := (((((r.put 0 2 m.mode).put 2 2 m.uid).put 24 2 m.gid).put 8 4 m.atime).put 16 4 m.mtime).put 12 4 m.ctime
  if r.fmt = EXT2_S_IFREG then
    (r.setSize32 m.size).setBlocks (divCeil m.size blockSize * (blockSize / 512))
  else r

def setattr (ino : Nat) (m : Metadata) : FsM Unit := do
  let blockSize := (← get).blockSize
  modifyRaw ino (withMetadata blockSize m)
  writeInodeToDisk ino

/-! ## Symbolic links -/

def FAST_SYMLINK_MAX : Nat := 60

/-- The bytes of a target: inline if the inode has no blocks. -/
def linkBytes (ino : Nat) (r : RawInode) : FsM (List Byte) := do
  if r.blocks = 0 ∧ r.size32 ≤ FAST_SYMLINK_MAX then return slice r.bytes 40 r.size32
  else
    let (data, _) ← readAt ino 0 r.size32
    return slice data 0 r.size32

/-- The target of a symbolic link. -/
def readlink (ino : Nat) : FsM String := do
  let r ← raw ino
  if r.fmt ≠ EXT2_S_IFLNK then fail .invalidInput
  else
    match fromUtf8 (← linkBytes ino r) with
    | some target => return target
    | none => fail .invalidInput

def writeSymlinkTarget (ino : Nat) (target : String) : FsM Unit := do
  let bytes := asBytes target
  if bytes.length ≤ FAST_SYMLINK_MAX then
    modifyRaw ino fun r => (RawInode.ofBytes (putList (blit r.bytes 40 60 fun _ => 0) 40 bytes)).setSize32 bytes.length
    writeInodeToDisk ino
  else
    let _ ← writeAtLocked ino 0 (fun j => bytes.getD j 0) bytes.length
    return

/-! ## Creating -/

/-- The old and the new encoding of a device number. -/
def encodeDev (rdev : Nat) : Nat × Nat :=
  let major := rdev / 2 ^ 20
  let minor := rdev % 2 ^ 20
  if major < 256 ∧ minor < 256 then (major <<< 8 ||| minor, 0)
  else (0, minor &&& 0xFF ||| major <<< 8 ||| (minor / 256 * 256) <<< 12)

/-- Allocate an inode and initialize it; it is freed again if that fails. -/
def newInode (mode : Nat) : FsM Nat := do
  let ino ← allocInode
  onError (initInode ino mode) (freeInode ino)
  return ino

/-- `create_child`: the number of the new inode. -/
def createChild (dir : Nat) (name : String) (fileType : FileType) (mode rdev : Nat) : FsM Nat := do
  if ← isOk (dirLookup dir name) then fail .alreadyExists
  else
    let ino ← newInode (fileTypeToMode fileType mode)
    addDirEntry dir name ino (fileTypeToDirByte fileType)
    getInode ino
    if fileType = .blockDevice ∨ fileType = .charDevice then
      let (b₀, b₁) := encodeDev rdev
      modifyRaw ino fun r => (r.setBlock 0 b₀).setBlock 1 b₁
      writeInodeToDisk ino
    return ino

def create (dir : Nat) (name : String) (fileType : FileType) (mode : Nat) : FsM Nat :=
  if fileType = .directory then fail .invalidInput else createChild dir name fileType mode 0

def mknod (dir : Nat) (name : String) (fileType : FileType) (mode rdev : Nat) : FsM Nat :=
  match fileType with
  | .blockDevice | .charDevice | .fifo | .socket => createChild dir name fileType mode rdev
  | _ => fail .invalidInput

def symlink (dir : Nat) (name target : String) : FsM Nat := do
  let ino ← createChild dir name .symlink 0o777 0
  writeSymlinkTarget ino target
  return ino

/-- Count a directory of its group. -/
def adjustUsedDirs (ino : Nat) (added : Bool) : FsM Unit := do
  let fs ← get
  if fs.superBlock.inodesPerGroup = 0 then return
  else
    let group := (ino - 1) / fs.superBlock.inodesPerGroup
    match fs.blockGroups[group]? with
    | none => return
    | some bg =>
      let count := if added then saturatingAdd 16 bg.usedDirsCount 1 else bg.usedDirsCount - 1
      set (fs.setGroup group { bg with usedDirsCount := count })

def mkdir (dir : Nat) (name : String) (mode : Nat) : FsM Nat := do
  if ← isOk (dirLookup dir name) then fail .alreadyExists
  else
    let ino ← newInode (EXT2_S_IFDIR ||| (mode &&& 0x0FFF))
    onError (addDirEntry dir name ino TYPE_DIRECTORY) (freeInode ino)
    getInode ino
    addDirEntry ino "." ino TYPE_DIRECTORY
    addDirEntry ino ".." dir TYPE_DIRECTORY
    modifyRaw ino fun r => r.setLinksCount 2
    writeInodeToDisk ino
    modifyRaw dir fun r => r.setLinksCount (r.linksCount + 1)
    writeInodeToDisk dir
    adjustUsedDirs ino true
    return ino

def link (dir : Nat) (name : String) (target : Nat) : FsM Unit := do
  if ← isOk (dirLookup dir name) then fail .alreadyExists
  else
    let r ← raw target
    if r.fmt = EXT2_S_IFDIR then fail .isDirectory
    else
      addDirEntry dir name target (dirByteForMode r.mode)
      modifyRaw target fun r => r.setLinksCount (saturatingAdd 16 r.linksCount 1)
      writeInodeToDisk target

/-! ## Removing -/

/-- Give up the attribute block, honouring its reference count. -/
def releaseXattrBlock (ino : Nat) : FsM Unit := do
  let acl := (← raw ino).fileAcl
  if acl = 0 then return
  else
    let buf ← readFsBlock acl
    if leNat buf 0 4 = XATTR_MAGIC ∧ refcount buf > 1 then writeFsBlock acl (setRefcount buf (refcount buf - 1))
    else freeBlock acl
    modifyRaw ino fun r => r.setFileAcl 0

def unlinkLocked (dir : Nat) (name : String) : FsM Unit := do
  let child ← dirLookup dir name
  getInode child
  if (← raw child).fmt = EXT2_S_IFDIR then fail .isDirectory
  else
    removeDirEntry dir name
    modifyRaw child fun r => r.setLinksCount (r.linksCount - 1)
    if (← raw child).linksCount = 0 then
      let r ← raw child
      if r.fmt ≠ EXT2_S_IFLNK ∨ r.blocks ≠ 0 then freeAllBlocks child
      releaseXattrBlock child
      modifyRaw child fun r => r.setDtime 0
      writeInodeToDisk child
      freeInode child
    else writeInodeToDisk child

/-- Entries other than the two every directory has. -/
def isEmptyDir (entries : List (String × Nat)) : Bool := entries.all fun e => e.1 = "." ∨ e.1 = ".."

def rmdirLocked (dir : Nat) (name : String) : FsM Unit := do
  if name = "." ∨ name = ".." then fail .invalidInput
  else
    let child ← dirLookup dir name
    getInode child
    if (← raw child).fmt ≠ EXT2_S_IFDIR then fail .notDirectory
    else if !isEmptyDir (← dirList child) then fail .notEmpty
    else
      removeDirEntry dir name
      modifyRaw dir fun r => r.setLinksCount (r.linksCount - 1)
      writeInodeToDisk dir
      freeAllBlocks child
      releaseXattrBlock child
      modifyRaw child fun r => (r.setLinksCount 0).setDtime 0
      writeInodeToDisk child
      adjustUsedDirs child false
      freeInode child

/-! ## Renaming -/

def EXT2_ROOT_INO : Nat := 2

/-- The walk of `dir_is_ancestor_or_self` up to the root; a walk that is too long counts as a cycle. -/
def ancestorWalk (ancestor : Nat) : (fuel cur : Nat) → FsM Bool
  | 0, _ => return true
  | fuel + 1, cur =>
    if cur = ancestor then return true
    else if cur = EXT2_ROOT_INO then return false
    else do
      getInode cur
      let parent ← dirLookup cur ".."
      if parent = cur then return false else ancestorWalk ancestor fuel parent

def dirIsAncestorOrSelf (ancestor start : Nat) : FsM Bool := do
  ancestorWalk ancestor ((← get).superBlock.inodesCount + 1) start

/-- Remove what has the new name, unless it is the renamed inode itself. -/
def replaceTarget (newDir : Nat) (newName : String) (existing : Nat) : FsM Unit := do
  getInode existing
  if (← raw existing).fmt = EXT2_S_IFDIR then
    if !isEmptyDir (← dirList existing) then fail .notEmpty else rmdirLocked newDir newName
  else unlinkLocked newDir newName

/-- Enter the child under its new name, drop the old one, and move `..` of a directory that changes its parent. -/
def moveEntry (dir : Nat) (oldName : String) (newDir : Nat) (newName : String) (child : Nat) (dirFt : Byte)
    (childIsDir : Bool) : FsM Unit := do
  addDirEntry newDir newName child dirFt
  removeDirEntry dir oldName
  if childIsDir ∧ dir ≠ newDir then
    removeDirEntry child ".."
    addDirEntry child ".." newDir TYPE_DIRECTORY
    modifyRaw dir fun r => r.setLinksCount (r.linksCount - 1)
    writeInodeToDisk dir
    modifyRaw newDir fun r => r.setLinksCount (saturatingAdd 16 r.linksCount 1)
    writeInodeToDisk newDir
    adjustUsedDirs dir false
    adjustUsedDirs newDir true

def rename (dir : Nat) (oldName : String) (newDir : Nat) (newName : String) : FsM Unit := do
  let child ← dirLookup dir oldName
  getInode child
  let r ← raw child
  let childIsDir := decide (r.fmt = EXT2_S_IFDIR)
  let cycle ← if childIsDir then dirIsAncestorOrSelf child newDir else pure false
  if cycle then fail .invalidInput
  else
    match ← attempt (dirLookup newDir newName) with
    | none => moveEntry dir oldName newDir newName child (dirByteForMode r.mode) childIsDir
    | some existing =>
      if existing = child then return
      else
        replaceTarget newDir newName existing
        moveEntry dir oldName newDir newName child (dirByteForMode r.mode) childIsDir

/-! ## Truncating -/

def truncate (ino size : Nat) : FsM Unit := do
  if (← raw ino).fmt ≠ EXT2_S_IFREG then fail .invalidInput else truncateTo ino size

end Koros.Ext2
