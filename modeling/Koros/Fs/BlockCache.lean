import Mathlib.Data.List.Basic
import Mathlib.Data.Nat.Basic

/-!
# Block devices and the block cache

`BlockDevice` of `kor/src/block.rs` and `BlockCache` of `kor-fs/src/block_cache.rs`: a fixed-capacity write-back cache
with least-recently-used eviction.

A device keeps the contents that are durable and the writes accepted since the last flush; request number `n` fails
when `faults n` says so, without touching the contents. Operations return their result beside the new state, since a
failing operation may leave a changed state behind.
-/
set_option autoImplicit false

namespace Koros.Fs

abbrev Block := List UInt8

inductive BlockError where
  | ioError
  | invalidBlock
  | readOnly
  | deviceError
deriving DecidableEq, Repr

/-! ## The device -/

structure Device where
  blockSize : Nat
  /-- Contents that have reached the backing store. -/
  durable : Nat → Block
  /-- Completed writes since the last flush, newest first. -/
  pending : List (Nat × Block)
  /-- The error of the `n`-th request, if it fails. -/
  faults : Nat → Option BlockError
  /-- Requests served so far. -/
  requests : Nat

namespace Device

/-- What a read of block `id` returns. -/
def content (d : Device) (id : Nat) : Block := (d.pending.lookup id).getD (d.durable id)

def served (d : Device) : Device := { d with requests := d.requests + 1 }

/-- Run a request that changes the device by `f` and returns `r`, unless it fails. -/
def request {α : Type} (d : Device) (f : Device → Device) (r : α) : Except BlockError α × Device :=
  match d.faults d.requests with
  | some e => (.error e, d.served)
  | none => (.ok r, f d.served)

def readBlock (d : Device) (n : Nat) : Except BlockError Block × Device := d.request id (d.content n)

def put (id : Nat) (data : Block) (d : Device) : Device := { d with pending := (id, data) :: d.pending }

def writeBlock (d : Device) (id : Nat) (data : Block) : Except BlockError Unit × Device := d.request (put id data) ()

/-- Every completed write reaches the backing store. -/
def persist (d : Device) : Device := { d with durable := d.content, pending := [] }

def flush (d : Device) : Except BlockError Unit × Device := d.request persist ()

/-- One request for the contents of `n` consecutive blocks. -/
def readBlocks (d : Device) (start n : Nat) : Except BlockError Block × Device :=
  d.request id ((List.range n).flatMap fun i => d.content (start + i))

/-- Store `n` consecutive chunks of `buf`. -/
def putChunks : (n start : Nat) → Block → Device → Device
  | 0, _, _, d => d
  | n + 1, start, buf, d => putChunks n (start + 1) (buf.drop d.blockSize) (d.put start (buf.take d.blockSize))

/-- One request that overwrites the consecutive blocks of `buf`. -/
def writeBlocks (d : Device) (start : Nat) (buf : Block) : Except BlockError Unit × Device :=
  d.request (putChunks (buf.length / d.blockSize) start buf) ()

end Device

/-! ## The cache -/

structure CachedBlock where
  blockId : Nat
  data : Block
  dirty : Bool
deriving DecidableEq, Repr

structure BlockCache where
  device : Device
  cache : Std.TreeMap Nat CachedBlock
  maxBlocks : Nat
  /-- Least recently used first. -/
  accessOrder : List Nat

namespace BlockCache

def new (device : Device) (maxBlocks : Nat) : BlockCache := ⟨device, ∅, maxBlocks, []⟩

/-- Move `id` to the most-recently-used end. -/
def touch (c : BlockCache) (id : Nat) : BlockCache := { c with accessOrder := c.accessOrder.erase id ++ [id] }

/-- Write a dirty cached block to the device, without the barrier. -/
def writeDirty (c : BlockCache) (id : Nat) : Except BlockError Unit × BlockCache :=
  match c.cache[id]? with
  | none => (.ok (), c)
  | some entry =>
    if entry.dirty then
      let (r, d) := c.device.writeBlock entry.blockId entry.data
      (r, { c with device := d })
    else (.ok (), c)

def flushDevice (c : BlockCache) : Except BlockError Unit × BlockCache :=
  let (r, d) := c.device.flush
  (r, { c with device := d })

/-- Write back an eviction victim: the write and the barrier, if it is dirty. -/
def writeback (c : BlockCache) (id : Nat) : Except BlockError Unit × BlockCache :=
  match c.cache[id]? with
  | none => (.ok (), c)
  | some entry =>
    if entry.dirty then
      match c.writeDirty id with
      | (.error e, c) => (.error e, c)
      | (.ok (), c) => c.flushDevice
    else (.ok (), c)

/-- The eviction loop; its victims are the front of `order`, which is the cache's access order. -/
def evictFrom : List Nat → BlockCache → Except BlockError Unit × BlockCache
  | [], c => (.ok (), c)
  | victim :: rest, c =>
    if c.cache.size ≤ c.maxBlocks then (.ok (), c)
    else
      match c.writeback victim with
      | (.error e, c) => (.error e, c)
      | (.ok (), c) => evictFrom rest { c with cache := c.cache.erase victim, accessOrder := rest }

/-- Evict least-recently-used entries until the cache is within capacity. -/
def evictIfNeeded (c : BlockCache) : Except BlockError Unit × BlockCache := evictFrom c.accessOrder c

/-- Insert a block that is not cached, and evict. -/
def insertNew (c : BlockCache) (id : Nat) (data : Block) (dirty : Bool) : Except BlockError Unit × BlockCache :=
  evictIfNeeded
    { c with cache := c.cache.insert id ⟨id, data, dirty⟩, accessOrder := c.accessOrder ++ [id] }

/-- Read a block into a buffer of `len` bytes. -/
def readBlockCached (c : BlockCache) (id len : Nat) : Except BlockError Block × BlockCache :=
  if len ≠ c.device.blockSize then (.error .invalidBlock, c)
  else
    match c.cache[id]? with
    | some entry => (.ok entry.data, c.touch id)
    | none =>
      match c.device.readBlock id with
      | (.error e, d) => (.error e, { c with device := d })
      | (.ok data, d) =>
        match ({ c with device := d } : BlockCache).insertNew id data false with
        | (.error e, c) => (.error e, c)
        | (.ok (), c) => (.ok data, c)

/-- Write a block through the cache; it is marked dirty. -/
def writeBlockCached (c : BlockCache) (id : Nat) (buf : Block) : Except BlockError Unit × BlockCache :=
  if buf.length ≠ c.device.blockSize then (.error .invalidBlock, c)
  else
    match c.cache[id]? with
    | some entry =>
      (.ok (), ({ c with cache := c.cache.insert id { entry with data := buf, dirty := true } } : BlockCache).touch id)
    | none => c.insertNew id buf true

/-- Write the dirty blocks among the listed ids to the device. -/
def writeAll : List Nat → BlockCache → Except BlockError Unit × BlockCache
  | [], c => (.ok (), c)
  | id :: ids, c =>
    match c.writeDirty id with
    | (.error e, c) => (.error e, c)
    | (.ok (), c) => writeAll ids c

/-- Clear the dirty flag of the `n` blocks from `id` on. -/
def cleanRange (c : BlockCache) : (n id : Nat) → BlockCache
  | 0, _ => c
  | n + 1, id => cleanRange { c with cache := c.cache.modify id fun e => { e with dirty := false } } n (id + 1)

/-- Flush the dirty blocks of `[start, start + count)`, so that a direct read of the range sees the latest data. -/
def flushRange (c : BlockCache) (start count : Nat) : Except BlockError Unit × BlockCache :=
  match writeAll (List.range' start count) c with
  | (.error e, c) => (.error e, c)
  | (.ok (), c) =>
    match c.flushDevice with
    | (.error e, c) => (.error e, c)
    | (.ok (), c) => (.ok (), c.cleanRange count start)

/-- Drop the cached entries of `[start, start + count)` without flushing them. -/
def invalidateRange (c : BlockCache) (start : Nat) : (count : Nat) → BlockCache
  | 0 => c
  | n + 1 =>
    if start ∈ c.cache then
      invalidateRange { c with cache := c.cache.erase start, accessOrder := c.accessOrder.erase start } (start + 1) n
    else invalidateRange c (start + 1) n

/-- Flush every dirty block; the flags are cleared after the barrier. -/
def sync (c : BlockCache) : Except BlockError Unit × BlockCache :=
  match writeAll c.cache.keys c with
  | (.error e, c) => (.error e, c)
  | (.ok (), c) =>
    match c.flushDevice with
    | (.error e, c) => (.error e, c)
    | (.ok (), c) => (.ok (), { c with cache := c.cache.map fun _ e => { e with dirty := false } })

end BlockCache

/-! ## The two paths of a filesystem -/

/-- The block layer of `Ext2Fs` (`kor-ext2/src/lib.rs`): cached access to single filesystem blocks, and direct access
to runs of them. A filesystem block is `per` consecutive device blocks. -/
structure FsIo where
  cache : BlockCache
  blockSize : Nat
  readOnly : Bool

inductive IoError where
  | ioError
  | readOnly
deriving DecidableEq, Repr

namespace FsIo

def per (io : FsIo) : Nat := io.blockSize / io.cache.device.blockSize

/-- Read `n` device blocks from `id` on through the cache. -/
def readCached : (n id : Nat) → BlockCache → Except IoError Block × BlockCache
  | 0, _, c => (.ok [], c)
  | n + 1, id, c =>
    match c.readBlockCached id c.device.blockSize with
    | (.error _, c) => (.error .ioError, c)
    | (.ok data, c) =>
      match readCached n (id + 1) c with
      | (.error e, c) => (.error e, c)
      | (.ok rest, c) => (.ok (data ++ rest), c)

/-- Read filesystem block `fsBlock` through the cache. -/
def readFsBlock (io : FsIo) (fsBlock : Nat) : Except IoError Block × FsIo :=
  let (r, c) := readCached io.per (fsBlock * io.per) io.cache
  (r, { io with cache := c })

/-- Write `n` device-block chunks of `buf` from `id` on through the cache. -/
def writeCached : (n id : Nat) → Block → BlockCache → Except IoError Unit × BlockCache
  | 0, _, _, c => (.ok (), c)
  | n + 1, id, buf, c =>
    match c.writeBlockCached id (buf.take c.device.blockSize) with
    | (.error _, c) => (.error .ioError, c)
    | (.ok (), c) => writeCached n (id + 1) (buf.drop c.device.blockSize) c

/-- Write filesystem block `fsBlock` through the cache. -/
def writeFsBlock (io : FsIo) (fsBlock : Nat) (buf : Block) : Except IoError Unit × FsIo :=
  if io.readOnly then (.error .readOnly, io)
  else
    let (r, c) := writeCached io.per (fsBlock * io.per) buf io.cache
    (r, { io with cache := c })

/-- Read `count` filesystem blocks in one device request, flushing dirty cached copies first. -/
def readFsBlocks (io : FsIo) (start count : Nat) : Except IoError Block × FsIo :=
  match io.cache.flushRange (start * io.per) (count * io.per) with
  | (.error _, c) => (.error .ioError, { io with cache := c })
  | (.ok (), c) =>
    let (r, d) := c.device.readBlocks (start * io.per) (count * io.per)
    (r.mapError fun _ => .ioError, { io with cache := { c with device := d } })

/-- Write `count` filesystem blocks in one device request, discarding cached copies first. -/
def writeFsBlocks (io : FsIo) (start count : Nat) (buf : Block) : Except IoError Unit × FsIo :=
  if io.readOnly then (.error .readOnly, io)
  else
    let c := io.cache.invalidateRange (start * io.per) (count * io.per)
    let (r, d) := c.device.writeBlocks (start * io.per) buf
    (r.mapError fun _ => .ioError, { io with cache := { c with device := d } })

/-- Flush the cache. -/
def syncCache (io : FsIo) : Except IoError Unit × FsIo :=
  let (r, c) := io.cache.sync
  (r.mapError fun _ => .ioError, { io with cache := c })

end FsIo

end Koros.Fs
