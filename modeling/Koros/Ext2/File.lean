import Koros.Ext2.Inode

/-!
# Reading and writing file data

`read_at` and `write_at_locked` of `kor-ext2/src/inode.rs`. Both work block by block, and move runs of physically contiguous
full blocks in one request. A buffer is given with its length.
-/
set_option autoImplicit false

namespace Koros.Ext2

open Koros.Lib

/-- The largest number of blocks in one request. -/
def MAX_BULK_BLOCKS : Nat := 128

/-! ## Runs of blocks -/

def readFsBlocks (startFsBlock count : Nat) : FsM Bytes := do
  let fs ← get
  if startFsBlock + count ≤ fs.deviceBlocks then
    return fun j => fs.disk (startFsBlock + j / fs.blockSize) (j % fs.blockSize)
  else fail .ioError

def writeFsBlocks (startFsBlock count : Nat) (buf : Bytes) : FsM Unit := do
  let fs ← get
  if fs.readOnly then fail .readOnly
  else if startFsBlock + count ≤ fs.deviceBlocks then
    set { fs with
      disk := fun b =>
        if startFsBlock ≤ b ∧ b < startFsBlock + count then dropBytes buf ((b - startFsBlock) * fs.blockSize)
        else fs.disk b }
  else fail .ioError

/-! ## Reading -/

/-- Extend a run of contiguous blocks by at most `n`. -/
def extendRun (ino logicalBlock phys : Nat) : (n run : Nat) → FsM Nat
  | 0, run => return run
  | n + 1, run => do
    let np ← resolveBlockId ino ((logicalBlock % 2 ^ 32 + run) % 2 ^ 32)
    if np = (phys + run) % 2 ^ 32 then extendRun ino logicalBlock phys n (run + 1) else return run

/-- A partial block or a hole: the bytes, and how many of them. -/
def readPartial (ino logicalBlock blockOffset remaining : Nat) : FsM (Bytes × Nat) := do
  let fs ← get
  let chunk := min remaining (fs.blockSize - blockOffset)
  let phys ← resolveBlockId ino (logicalBlock % 2 ^ 32)
  if phys = 0 then return (fun _ => 0, chunk)
  else return (dropBytes (← readFsBlock phys) blockOffset, chunk)

/-- One round of the loop of `read_at`. -/
def readChunk (ino fileOffset remaining : Nat) : FsM (Bytes × Nat) := do
  let fs ← get
  let logicalBlock := fileOffset / fs.blockSize
  let blockOffset := fileOffset % fs.blockSize
  if blockOffset = 0 ∧ remaining ≥ fs.blockSize then
    let phys ← resolveBlockId ino (logicalBlock % 2 ^ 32)
    if phys ≠ 0 then
      let maxRun := min (remaining / fs.blockSize) MAX_BULK_BLOCKS
      let run ← extendRun ino logicalBlock phys (maxRun - 1) 1
      return (← readFsBlocks phys run, run * fs.blockSize)
    else readPartial ino logicalBlock blockOffset remaining
  else readPartial ino logicalBlock blockOffset remaining

/-- The loop of `read_at`; every round reads at least one byte. -/
def readLoop (ino offset bytesToRead : Nat) : (fuel bytesRead : Nat) → Bytes → FsM Bytes
  | 0, _, buf => return buf
  | fuel + 1, bytesRead, buf =>
    if bytesToRead ≤ bytesRead then return buf
    else do
      let (data, n) ← readChunk ino (offset + bytesRead) (bytesToRead - bytesRead)
      readLoop ino offset bytesToRead fuel (bytesRead + n) (blit buf bytesRead n data)

/-- Fill a zeroed buffer of `len` bytes from `offset` on: the buffer, and how many bytes were read. -/
def readAt (ino offset len : Nat) : FsM (Bytes × Nat) := do
  let fileSize ← size ino
  if offset ≥ fileSize ∨ len = 0 then return (fun _ => 0, 0)
  else
    let bytesToRead := min len (fileSize - offset)
    return (← readLoop ino offset bytesToRead bytesToRead 0 fun _ => 0, bytesToRead)

/-! ## Writing -/

/-- A run of contiguous blocks being collected for one request. -/
structure WriteRun where
  runStart : Nat
  runLen : Nat
  doneInRegion : Nat
  newFsBlocks : Nat

/-- The inner loop of `write_at_locked`: `n` more full blocks of the region that starts at `logicalBlock`. -/
def writeRegion (ino logicalBlock : Nat) (buf : Bytes) : (n : Nat) → WriteRun → FsM WriteRun
  | 0, w => return w
  | n + 1, w => do
    let nextLogical := logicalBlock + w.doneInRegion + w.runLen
    let (nextPhysical, allocated) ← allocateBlockForOffset ino (nextLogical % 2 ^ 32) false
    if nextPhysical = (w.runStart + w.runLen) % 2 ^ 32 then
      writeRegion ino logicalBlock buf n
        { w with runLen := w.runLen + 1, newFsBlocks := w.newFsBlocks + allocated }
    else
      writeFsBlocks w.runStart w.runLen (dropBytes buf (w.doneInRegion * (← get).blockSize))
      writeRegion ino logicalBlock buf n
        ⟨nextPhysical, 1, w.doneInRegion + w.runLen, w.newFsBlocks + allocated⟩

/-- Full blocks: how many bytes were written, and how many blocks allocated. -/
def writeBulk (ino logicalBlock : Nat) (buf : Bytes) (remaining : Nat) : FsM (Nat × Nat) := do
  let fs ← get
  let (firstPhys, allocated) ← allocateBlockForOffset ino (logicalBlock % 2 ^ 32) false
  let maxRun := min (remaining / fs.blockSize) MAX_BULK_BLOCKS
  let w ← writeRegion ino logicalBlock buf (maxRun - 1) ⟨firstPhys, 1, 0, allocated⟩
  writeFsBlocks w.runStart w.runLen (dropBytes buf (w.doneInRegion * fs.blockSize))
  return ((w.doneInRegion + w.runLen) * fs.blockSize, w.newFsBlocks)

/-- A part of one block. -/
def writePartial (ino logicalBlock blockOffset : Nat) (buf : Bytes) (remaining : Nat) : FsM (Nat × Nat) := do
  let fs ← get
  let chunk := min remaining (fs.blockSize - blockOffset)
  let (physicalBlock, allocated) ← allocateBlockForOffset ino (logicalBlock % 2 ^ 32) true
  let block ← readFsBlock physicalBlock
  writeFsBlock physicalBlock (blit block blockOffset chunk buf)
  return (chunk, allocated)

/-- One round of the loop of `write_at_locked`, with what is left of the buffer. -/
def writeChunk (ino fileOffset : Nat) (buf : Bytes) (remaining : Nat) : FsM (Nat × Nat) := do
  let fs ← get
  let logicalBlock := fileOffset / fs.blockSize
  let blockOffset := fileOffset % fs.blockSize
  if blockOffset = 0 ∧ remaining ≥ fs.blockSize then writeBulk ino logicalBlock buf remaining
  else writePartial ino logicalBlock blockOffset buf remaining

/-- The loop of `write_at_locked`; every round writes at least one byte. The number of blocks allocated. -/
def writeLoop (ino offset : Nat) (buf : Bytes) (len : Nat) : (fuel bytesWritten newFsBlocks : Nat) → FsM Nat
  | 0, _, newFsBlocks => return newFsBlocks
  | fuel + 1, bytesWritten, newFsBlocks =>
    if len ≤ bytesWritten then return newFsBlocks
    else do
      let fileOffset := (offset + bytesWritten) % 2 ^ 64
      let (n, allocated) ← writeChunk ino fileOffset (dropBytes buf bytesWritten) (len - bytesWritten)
      writeLoop ino offset buf len fuel (bytesWritten + n) (newFsBlocks + allocated)

def saturatingAdd (w a b : Nat) : Nat := min (2 ^ w - 1) (a + b)

/-- Write `len` bytes of `buf` at `offset`. -/
def writeAtLocked (ino offset : Nat) (buf : Bytes) (len : Nat) : FsM Nat := do
  if len = 0 then return 0
  else
    let endOffset := (offset + len) % 2 ^ 64
    let newFsBlocks ← writeLoop ino offset buf len len 0 0
    if endOffset > (← size ino) then setSize ino endOffset
    let sectors ← sectorsPerBlock
    modifyRaw ino fun r =>
      let r := r.setMtime 0
      if newFsBlocks % 2 ^ 32 > 0 then
        r.setBlocks (saturatingAdd 32 r.blocks (newFsBlocks % 2 ^ 32 * sectors % 2 ^ 32))
      else r
    writeInodeToDisk ino
    return len

end Koros.Ext2
