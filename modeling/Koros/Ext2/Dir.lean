import Koros.Lib.Text
import Koros.Ext2.File

/-!
# Directories

`kor-ext2/src/dir.rs`: directory records, the iterator over them, `lookup` and `list`, and the two functions that change
a directory in place. A directory is read as a whole into a buffer of `len` bytes; what changes is written back as one
block.
-/
set_option autoImplicit false

namespace Koros.Ext2

open Koros.Lib

def TYPE_REGULAR : Byte := 1
def TYPE_DIRECTORY : Byte := 2
def TYPE_CHAR_DEVICE : Byte := 3
def TYPE_BLOCK_DEVICE : Byte := 4
def TYPE_FIFO : Byte := 5
def TYPE_SOCKET : Byte := 6
def TYPE_SYMLINK : Byte := 7

def DIR_ENTRY_HEADER_SIZE : Nat := 8

/-! ## Records -/

structure DirEntry where
  inode : Nat
  recLen : Nat
  fileType : Byte
  name : List Byte
deriving DecidableEq, Repr

/-- A used record at the front of `len` bytes. -/
def DirEntry.fromBytes (data : Bytes) (len : Nat) : Option DirEntry :=
  if len < DIR_ENTRY_HEADER_SIZE then none
  else
    let inode := leNat data 0 4
    let recLen := leNat data 4 2
    let nameLen := (data 6).toNat
    if recLen < DIR_ENTRY_HEADER_SIZE ∨ recLen > len then none
    else if DIR_ENTRY_HEADER_SIZE + nameLen > recLen then none
    else if inode = 0 then none
    else some ⟨inode, recLen, data 7, slice data DIR_ENTRY_HEADER_SIZE nameLen⟩

/-- The items of `DirIterator`; every round moves on by a header at least. A name that is not UTF-8 ends them. -/
def dirItems (data : Bytes) (len : Nat) : (fuel offset : Nat) → List (Nat × Byte × String)
  | 0, _ => []
  | fuel + 1, offset =>
    if offset ≥ len then []
    else
      let remaining := dropBytes data offset
      match DirEntry.fromBytes remaining (len - offset) with
      | some entry =>
        match fromUtf8 entry.name with
        | none => []
        | some name => (entry.inode, entry.fileType, name) :: dirItems data len fuel (offset + entry.recLen)
      | none =>
        if len - offset < DIR_ENTRY_HEADER_SIZE then []
        else
          let recLen := leNat remaining 4 2
          dirItems data len fuel (offset + if recLen < DIR_ENTRY_HEADER_SIZE then DIR_ENTRY_HEADER_SIZE else recLen)

/-- The contents of a directory, and its size. -/
def dirData (ino : Nat) : FsM (Bytes × Nat) := do
  let dirSize := (← raw ino).size32
  if dirSize = 0 then return (fun _ => 0, 0)
  else
    let (data, _) ← readAt ino 0 dirSize
    return (data, dirSize)

/-- `DirIterator::new` and all items. -/
def dirIterator (ino : Nat) : FsM (List (Nat × Byte × String)) := do
  if (← raw ino).mode &&& 0xF000 ≠ 0x4000 then fail .notDirectory
  else
    let (data, len) ← dirData ino
    return dirItems data len len 0

/-- `dir::lookup`. -/
def dirLookup (ino : Nat) (name : String) : FsM Nat := do
  let items ← dirIterator ino
  match items.find? (·.2.2 = name) with
  | some item => return item.1
  | none => fail .notFound

/-- `dir::list`. -/
def dirList (ino : Nat) : FsM (List (String × Nat)) := do
  let items ← dirIterator ino
  return items.map fun item => (item.2.2, item.1)

/-! ## Changing a directory -/

def writeDirEntryInBuf (buf : Bytes) (offset ino nameLen : Nat) (fileType : Byte) (name : List Byte) (recLen : Nat) :
    Bytes :=
  let buf := putLe buf offset 4 ino
  let buf := putLe buf (offset + 4) 2 recLen
  let buf := putLe buf (offset + 6) 1 nameLen
  let buf := putList buf (offset + 7) [fileType]
  putList buf (offset + DIR_ENTRY_HEADER_SIZE) name

/-- Padded size of a record: four-byte aligned, 12 at least. -/
def entrySize (nameLen : Nat) : Nat := max ((DIR_ENTRY_HEADER_SIZE + nameLen + 3) / 4 * 4) 12

/-- Clear the index flag of a directory that is about to change. -/
def demoteFromHtree (ino : Nat) : FsM Unit := do
  if (← raw ino).flags &&& EXT2_INDEX_FL ≠ 0 then
    modifyRaw ino fun r => r.setFlags (r.flags &&& (0xFFFFFFFF ^^^ EXT2_INDEX_FL))
    writeInodeToDisk ino

/-- Write the block of a directory's buffer that holds `offset`. -/
def writeDirBlock (ino : Nat) (data : Bytes) (len offset : Nat) : FsM Unit := do
  let blockSize := (← get).blockSize
  let blockStart := offset / blockSize * blockSize
  if blockStart + blockSize > len then panic
  else
    let _ ← writeAtLocked ino blockStart (dropBytes data blockStart) blockSize
    return

/-- Where the scan of `add_dir_entry` ends: at a free record that is large enough, with its length, or after the last
record, with the space that one needs. -/
inductive AddScan where
  | slot (offset recLen : Nat)
  | last (start actual : Nat)
deriving DecidableEq, Repr

def addScan (data : Bytes) (len needed : Nat) : (fuel offset lastStart lastActual : Nat) → AddScan
  | 0, _, lastStart, lastActual => .last lastStart lastActual
  | fuel + 1, offset, lastStart, lastActual =>
    if offset + DIR_ENTRY_HEADER_SIZE > len then .last lastStart lastActual
    else
      let entIno := leNat data offset 4
      let recLen := leNat data (offset + 4) 2
      let entNameLen := (data (offset + 6)).toNat
      if recLen < DIR_ENTRY_HEADER_SIZE ∨ offset + recLen > len then .last lastStart lastActual
      else if entIno = 0 ∧ recLen ≥ needed then .slot offset recLen
      else addScan data len needed fuel (offset + recLen) offset (entrySize entNameLen)

/-- A new record at the end of a directory, in a block of its own. -/
def appendDirBlock (ino : Nat) (name : List Byte) (childInode : Nat) (fileType : Byte) (dirSize : Nat) : FsM Unit := do
  let blockSize := (← get).blockSize
  let newBlock := writeDirEntryInBuf (fun _ => 0) 0 childInode name.length fileType name blockSize
  let _ ← writeAtLocked ino (dirSize / blockSize * blockSize) newBlock blockSize
  return

/-- Add a record: in a free one, in the space the last one does not need, or in a new block. -/
def addDirEntry (ino : Nat) (name : String) (childInode : Nat) (fileType : Byte) : FsM Unit := do
  let nameBytes := asBytes name
  let nameLen := nameBytes.length
  if nameLen = 0 ∨ nameLen > 255 then fail .invalidInput
  else
    demoteFromHtree ino
    let fileType := if (← get).superBlock.hasFiletype then fileType else 0
    let needed := entrySize nameLen
    let (data, dirSize) ← dirData ino
    match addScan data dirSize needed dirSize 0 0 0 with
    | .slot offset recLen =>
      let leftover := recLen - needed
      let split := leftover ≥ DIR_ENTRY_HEADER_SIZE
      let data := writeDirEntryInBuf data offset childInode nameLen fileType nameBytes (if split then needed else recLen)
      let data := if split then putLe (putLe data (offset + needed) 4 0) (offset + needed + 4) 2 leftover else data
      writeDirBlock ino data dirSize offset
    | .last start actual =>
      -- the subtraction wraps around when the last record is shorter than its name needs
      let extra := (leNat data (start + 4) 2 + 2 ^ 64 - actual) % 2 ^ 64
      if actual > 0 ∧ extra ≥ needed then
        let data := putLe data (start + 4) 2 actual
        let newOff := start + actual
        if newOff + DIR_ENTRY_HEADER_SIZE + nameLen > dirSize then panic
        else
          let data := writeDirEntryInBuf data newOff childInode nameLen fileType nameBytes (extra % 2 ^ 16)
          writeDirBlock ino data dirSize start
      else appendDirBlock ino nameBytes childInode fileType dirSize

/-- Where the scan of `remove_dir_entry` finds the record of `name`, and its length. -/
def removeScan (data : Bytes) (len : Nat) (name : List Byte) : (fuel offset : Nat) → Except Fault (Nat × Nat)
  | 0, _ => .error (.err .notFound)
  | fuel + 1, offset =>
    if offset + DIR_ENTRY_HEADER_SIZE > len then .error (.err .notFound)
    else
      let entIno := leNat data offset 4
      let recLen := leNat data (offset + 4) 2
      let nameLen := (data (offset + 6)).toNat
      if recLen < DIR_ENTRY_HEADER_SIZE ∨ offset + recLen > len then .error (.err .notFound)
      else if entIno ≠ 0 ∧ nameLen = name.length then
        if offset + DIR_ENTRY_HEADER_SIZE + nameLen > len then .error .panic
        else if slice data (offset + DIR_ENTRY_HEADER_SIZE) nameLen = name then .ok (offset, recLen)
        else removeScan data len name fuel (offset + recLen)
      else removeScan data len name fuel (offset + recLen)

/-- The length of a removed record: with its free successor, if that one lies in the same block. -/
def coalesced (data : Bytes) (len blockSize offset recLen : Nat) : Nat :=
  let next := offset + recLen
  let nextRec := leNat data (next + 4) 2
  if offset / blockSize = next / blockSize ∧ next + DIR_ENTRY_HEADER_SIZE ≤ len ∧ leNat data next 4 = 0 ∧
      nextRec ≥ DIR_ENTRY_HEADER_SIZE ∧ next + nextRec ≤ len ∧ offset / blockSize = (next + nextRec - 1) / blockSize then
    recLen + nextRec
  else recLen

/-- Mark the record of `name` as deleted. -/
def removeDirEntry (ino : Nat) (name : String) : FsM Unit := do
  demoteFromHtree ino
  let blockSize := (← get).blockSize
  let (data, dirSize) ← dirData ino
  match removeScan data dirSize (asBytes name) dirSize 0 with
  | .error e => throw e
  | .ok (offset, recLen) =>
    let cleared := putLe data offset 4 0
    let cleared := putLe cleared (offset + 4) 2 (coalesced cleared dirSize blockSize offset recLen)
    writeDirBlock ino cleared dirSize offset

end Koros.Ext2
